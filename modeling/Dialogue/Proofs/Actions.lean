import Dialogue.Proofs.WellFormed

/-! Actions as they are written. Assignments and events stand in lists with commas between them, and
a chain of assignments groups to the right. Reading such a list before a closing brace gives what
its tokens derive, and a list that is written is read back. -/
namespace Dialogue

namespace Update

/-- The token that writes an assignment. -/
def sign : Update → Token.Kind
  | replace => .assign
  | add => .assignSum
  | subtract => .assignDifference
  | multiply => .assignProduct
  | divide => .assignQuotient
  | power => .assignPower
  | modulo => .assignModulo

theorem sign_mem_kinds (update : Update) : update.sign ∈ kinds := by
  cases update <;> decide

theorem ofKind_sign (update : Update) : ofKind update.sign = update := by
  cases update <;> rfl

theorem sign_free {kind : Token.Kind} (listed : kind ∈ kinds) :
    ∀ row ∈ Operator.table, row.2.1 ≠ kind := by
  have apart : ∀ kind ∈ kinds, ∀ row ∈ Operator.table, row.2.1 ≠ kind := by decide
  exact apart kind listed

end Update

/-- Whether an item of a list ends here. -/
def Stream.Parts (stream : Stream) : Prop := ∃ kind ∈ [Token.Kind.comma, .braceClose],
  stream.Ahead kind

namespace Parser

open Assignment (Assigned)
open Token (Listed)

variable {rest : Stream} {tokens : List Token}

/-! What is derived is read. -/

theorem assigned_of_assigned {name : String} {update : Update} {a : Assignment}
    (derives : Assigned name update tokens a) (parts : rest.Parts) {fuel : Nat}
    (enough : 2 * tokens.length < fuel) :
    assigned fuel name update (rest.after tokens) = .ok (a, rest) := by
  obtain ⟨fuel, rfl⟩ : ∃ less, fuel = less + 1 := ⟨fuel - 1, by omega⟩
  induction derives generalizing fuel with
  | @store name update tokens e value =>
      obtain ⟨stop, listed, ahead⟩ := parts
      have free : ∀ row ∈ Operator.table, row.2.1 ≠ stop := by
        have apart : ∀ kind ∈ [Token.Kind.comma, .braceClose], ∀ row ∈ Operator.table,
            row.2.1 ≠ kind := by decide
        exact apart stop listed
      have other : Update.kinds.contains stop = false := by
        have apart : ∀ kind ∈ [Token.Kind.comma, .braceClose],
            Update.kinds.contains kind = false := by decide
        exact apart stop listed
      rw [assigned, bind_of_ok (expression_of_derives value ahead free (by omega))]
      split
      · rw [bind_of_ok (next_of_ahead ahead), other]
        rfl
      · rfl
  | @chain name inner update tokens more sign next target kind assigns ih =>
      rw [List.length_append, List.length_cons] at enough
      obtain ⟨fuel, rfl⟩ : ∃ less, fuel = less + 1 := ⟨fuel - 1, by omega⟩
      have ahead := Stream.ahead_after_cons (rest.after more) sign []
      have read : expression (fuel + 1) 0 (((rest.after more).after [sign]).after tokens) =
          .ok (.variable inner, (rest.after more).after [sign]) :=
        expression_of_derives target ahead (Update.sign_free kind) (by omega)
      have taken : expect Update.kinds ((rest.after more).after [sign]) =
          .ok (sign, rest.after more) := expect_of_mem rfl kind
      rw [List.append_cons, Stream.after_append, Stream.after_append, assigned, bind_of_ok read]
      dsimp only
      rw [bind_of_ok (next_of_ahead ahead), if_pos (List.contains_iff_mem.2 kind),
        bind_of_ok taken, bind_of_ok (ih fuel (by omega))]
      rfl

theorem assignment_of_derives {a : Assignment} (derives : Assignment.Derives tokens a)
    (parts : rest.Parts) {fuel : Nat} (enough : 2 * tokens.length ≤ fuel) :
    assignment fuel (rest.after tokens) = .ok (a, rest) := by
  cases derives with
  | @mk name sign tokens a named kind assigns =>
      simp only [List.length_cons] at enough
      have first : expect [.identifier] (rest.after (name :: sign :: tokens)) =
          .ok (name, rest.after (sign :: tokens)) := expect_of_mem rfl (by simp [named])
      have second : expect Update.kinds (rest.after (sign :: tokens)) =
          .ok (sign, rest.after tokens) := expect_of_mem rfl kind
      rw [assignment, bind_of_ok first, bind_of_ok second,
        assigned_of_assigned assigns parts (by omega)]

theorem eventName_of_names {name : String} (names : Token.Names tokens name) :
    eventName (rest.after tokens) = .ok (name, rest) := by
  obtain ⟨token, rfl, kind, rfl⟩ := names
  have taken : expect [.identifier] (rest.after [token]) = .ok (token, rest) :=
    expect_of_mem rfl (by simp [kind])
  rw [eventName, bind_of_ok taken]
  rfl

/-- Before what follows in a list, and before the brace after it, an item ends. -/
theorem parts_of_listed {α : Type} {Each : List Token → α → Prop} {all : List α}
    (listed : Listed Each tokens all) (closed : rest.Ahead .braceClose) :
    (rest.after tokens).Parts := by
  cases listed with
  | nil => exact ⟨.braceClose, by simp, closed⟩
  | cons comma => exact ⟨.comma, by simp, comma ▸ Stream.ahead_after_cons ..⟩

/-- A list is read where its items are. -/
theorem commaList_of_listed {α : Type} {item : Parser α} {Each : List Token → α → Prop}
    {bound : Nat} (each : ∀ tokens a (rest : Stream), tokens.length ≤ bound → Each tokens a →
      rest.Parts → item (rest.after tokens) = .ok (a, rest))
    {all : List α} (listed : Listed Each tokens all) (closed : rest.Ahead .braceClose)
    (within : tokens.length ≤ bound) {fuel : Nat} (enough : tokens.length < fuel) :
    commaList item fuel (rest.after tokens) = .ok (all, rest) := by
  obtain ⟨fuel, rfl⟩ : ∃ less, fuel = less + 1 := ⟨fuel - 1, by omega⟩
  induction listed generalizing fuel with
  | nil =>
      rw [commaList, Stream.after_nil, bind_of_ok (next_of_ahead closed)]
      rfl
  | @cons comma tokens more a others kind first listed ih =>
      rw [List.length_cons, List.length_append] at within enough
      obtain ⟨fuel, rfl⟩ : ∃ less, fuel = less + 1 := ⟨fuel - 1, by omega⟩
      have ahead : (rest.after (comma :: (tokens ++ more))).Ahead .comma :=
        kind ▸ Stream.ahead_after_cons ..
      have taken : expect [.comma] (rest.after (comma :: (tokens ++ more))) =
          .ok (comma, (rest.after more).after tokens) := by
        rw [← Stream.after_append]
        exact expect_of_mem rfl (by simp [kind])
      rw [commaList, bind_of_ok (next_of_ahead ahead), if_pos (by rfl), bind_of_ok taken,
        bind_of_ok (each tokens a _ (by omega) first (parts_of_listed listed closed)),
        bind_of_ok (ih (by omega) fuel (by omega))]
      rfl

/-- A keyword with a list after it is read where the items are. -/
theorem keyword_of_listed {α : Type} {item : Parser α} {Each : List Token → α → Prop}
    {kind : Token.Kind} {fuel : Nat} (each : ∀ tokens a (rest : Stream), 2 * tokens.length ≤ fuel →
      Each tokens a → rest.Parts → item (rest.after tokens) = .ok (a, rest))
    {keyword : Token} {more : List Token} {first : α} {others : List α}
    (same : keyword.kind = kind) (head : Each tokens first) (listed : Listed Each more others)
    (closed : rest.Ahead .braceClose) (enough : 2 * (keyword :: (tokens ++ more)).length ≤ fuel) :
    (do
      let _ ← expect [kind]
      let first ← item
      return first :: (← commaList item fuel) : Parser (List α))
      (rest.after (keyword :: (tokens ++ more))) = .ok (first :: others, rest) := by
  rw [List.length_cons, List.length_append] at enough
  have taken : expect [kind] (rest.after (keyword :: (tokens ++ more))) =
      .ok (keyword, (rest.after more).after tokens) := by
    rw [← Stream.after_append]
    exact expect_of_mem rfl (by simp [same])
  have within : ∀ tokens a (rest : Stream), tokens.length ≤ more.length → Each tokens a →
      rest.Parts → item (rest.after tokens) = .ok (a, rest) :=
    fun tokens a rest short => each tokens a rest (by omega)
  have read : commaList item fuel (rest.after more) = .ok (others, rest) :=
    commaList_of_listed within listed closed (Nat.le_refl _) (by omega)
  rw [bind_of_ok taken,
    bind_of_ok (each tokens first _ (by omega) head (parts_of_listed listed closed)),
    bind_of_ok read]
  rfl

theorem assignments_of_inside {all : List Assignment}
    (inside : Guard.Inside tokens (.action (.assign all))) (closed : rest.Ahead .braceClose)
    {fuel : Nat} (enough : 2 * tokens.length ≤ fuel) :
    assignments fuel (rest.after tokens) = .ok (all, rest) := by
  cases inside with
  | assign kind head others =>
      exact keyword_of_listed (fun _ _ _ short derives parts =>
        assignment_of_derives derives parts short) kind head others closed enough

theorem events_of_inside {names : List String}
    (inside : Guard.Inside tokens (.action (.trigger names))) (closed : rest.Ahead .braceClose)
    {fuel : Nat} (enough : 2 * tokens.length ≤ fuel) :
    events fuel (rest.after tokens) = .ok (names, rest) := by
  cases inside with
  | trigger kind head others =>
      exact keyword_of_listed (fun _ _ _ _ named _ => eventName_of_names named) kind head others
        closed enough

end Parser

/-! Actions as they are written. -/

/-- Items with a comma between each two. -/
def Token.separated (items : List (List (Token.Kind × Option String))) :
    List (Token.Kind × Option String) := [(.comma, none)].intercalate items

namespace Assignment

/-- An assignment, given how numbers are written. -/
def spelled (numeral : Float → Numeral) : Assignment → List (Token.Kind × Option String)
  | store name update e => (.identifier, some name) :: (update.sign, none) :: e.spelled numeral 1
  | chain name update next =>
      (.identifier, some name) :: (update.sign, none) :: next.spelled numeral

end Assignment

namespace Action

/-- An action as it stands between braces. -/
def spelled (numeral : Float → Numeral) : Action → List (Token.Kind × Option String)
  | assign assignments =>
      (.set, none) :: Token.separated (assignments.map (Assignment.spelled numeral))
  | trigger events =>
      (.trigger, none) :: Token.separated (events.map fun name => [(.identifier, some name)])

end Action

/-! What is written is derived. -/

namespace Token

theorem separated_cons (first : List (Kind × Option String))
    (rest : List (List (Kind × Option String))) :
    separated (first :: rest) = first ++ rest.flatMap ((Kind.comma, none) :: ·) := by
  induction rest generalizing first with
  | nil => simp [separated, List.intercalate]
  | cons second rest ih =>
      have next := ih second
      simp only [separated, List.intercalate, List.intersperse_cons_cons, List.flatten_cons,
        List.flatMap_cons, List.cons_append, List.nil_append] at next ⊢
      rw [next]

variable {α : Type} {Each : List Token → α → Prop} {spelled : α → List (Kind × Option String)}

theorem listed_of_spelled {all : List α} {tokens : List Token}
    (each : ∀ a ∈ all, ∀ tokens, tokens.map spelling = spelled a → Each tokens a)
    (written : tokens.map spelling = (all.map spelled).flatMap ((Kind.comma, none) :: ·)) :
    Listed Each tokens all := by
  induction all generalizing tokens with
  | nil =>
      obtain rfl := List.map_eq_nil_iff.1 written
      exact .nil
  | cons a rest ih =>
      obtain ⟨comma, others, rfl, same, more⟩ := List.map_eq_cons_iff.1 written
      obtain ⟨first, after, rfl, head, tail⟩ := List.map_eq_append_iff.1 more
      exact .cons (kind_of_spelling same) (each a List.mem_cons_self first head)
        (ih (fun b member => each b (List.mem_cons_of_mem a member)) tail)

/-- A separated list, after a keyword, is an item and the others with commas before them. -/
theorem exists_of_separated {kind : Kind} {a : α} {others : List α} {tokens : List Token}
    (each : ∀ b ∈ a :: others, ∀ tokens, tokens.map spelling = spelled b → Each tokens b)
    (written : tokens.map spelling = (kind, none) :: separated ((a :: others).map spelled)) :
    ∃ keyword first more, tokens = keyword :: (first ++ more) ∧ keyword.kind = kind ∧
      Each first a ∧ Listed Each more others := by
  rw [List.map_cons, separated_cons] at written
  obtain ⟨keyword, items, rfl, same, inside⟩ := List.map_eq_cons_iff.1 written
  obtain ⟨first, more, rfl, head, tail⟩ := List.map_eq_append_iff.1 inside
  exact ⟨keyword, first, more, rfl, kind_of_spelling same, each a List.mem_cons_self first head,
    listed_of_spelled (fun b member => each b (List.mem_cons_of_mem a member)) tail⟩

end Token

namespace Assignment

variable {numeral : Float → Numeral} {tokens : List Token}

theorem derives_of_assigned {named sign : Token} {name : String} {update : Update} {a : Assignment}
    (same : named.spelling = (.identifier, some name))
    (signed : sign.spelling = (update.sign, none)) (assigned : Assigned name update tokens a) :
    Derives (named :: sign :: tokens) a := by
  have kind : sign.kind = update.sign := Token.kind_of_spelling signed
  obtain rfl := Token.value_of_spelling same
  refine .mk (Token.kind_of_spelling same) (kind ▸ update.sign_mem_kinds) ?_
  rwa [kind, Update.ofKind_sign]

/-- The name of a further assignment is at first an expression, and the sign after it tells what it
is. -/
theorem Derives.assigned {next : Assignment} (derives : Derives tokens next) (name : String)
    (update : Update) : Assigned name update tokens (.chain name update next) := by
  cases derives with
  | mk named kind assigned =>
      exact .chain ((Expr.Derives.name named).lower (by decide)) kind assigned

theorem derives_of_spelled {a : Assignment} (shaped : a.isShaped)
    (denotes : ∀ x ∈ a.value.numbers, (numeral x).Denotes x)
    (written : tokens.map Token.spelling = a.spelled numeral) : Derives tokens a := by
  induction a generalizing tokens with
  | store name update e =>
      obtain ⟨named, others, rfl, same, more⟩ := List.map_eq_cons_iff.1 written
      obtain ⟨sign, after, rfl, signed, value⟩ := List.map_eq_cons_iff.1 more
      have derives := Expr.derives_of_spelled numeral e shaped denotes 1 after (by decide) value
      exact derives_of_assigned same signed (.store derives)
  | chain name update next ih =>
      obtain ⟨named, others, rfl, same, more⟩ := List.map_eq_cons_iff.1 written
      obtain ⟨sign, after, rfl, signed, rest⟩ := List.map_eq_cons_iff.1 more
      exact derives_of_assigned same signed ((ih shaped denotes rest).assigned name update)

end Assignment

namespace Action

variable {numeral : Float → Numeral} {tokens : List Token}

theorem inside_of_spelled {action : Action} (shaped : action.isShaped)
    (denotes : ∀ e ∈ action.expressions, ∀ x ∈ e.numbers, (numeral x).Denotes x)
    (written : tokens.map Token.spelling = action.spelled numeral) :
    Guard.Inside tokens (.action action) := by
  cases action with
  | assign all =>
      obtain ⟨filled, each⟩ : all ≠ [] ∧ ∀ a ∈ all, a.isShaped := by simpa [isShaped] using shaped
      obtain ⟨a, others, rfl⟩ := List.exists_cons_of_ne_nil filled
      have derives : ∀ b ∈ a :: others, ∀ tokens, tokens.map Token.spelling = b.spelled numeral →
          Assignment.Derives tokens b := fun b member tokens =>
        Assignment.derives_of_spelled (each b member) (denotes _ (List.mem_map_of_mem member))
      obtain ⟨keyword, first, more, rfl, kind, head, listed⟩ :=
        Token.exists_of_separated derives written
      exact .assign kind head listed
  | trigger names =>
      have filled : names ≠ [] := by simpa [isShaped] using shaped
      obtain ⟨name, others, rfl⟩ := List.exists_cons_of_ne_nil filled
      have derives : ∀ b ∈ name :: others, ∀ tokens,
          tokens.map Token.spelling = [(.identifier, some b)] → Token.Names tokens b := by
        intro b member tokens same
        obtain ⟨token, rfl, spelled⟩ := List.map_eq_singleton_iff.1 same
        exact ⟨token, rfl, Token.kind_of_spelling spelled, (Token.value_of_spelling spelled).symm⟩
      obtain ⟨keyword, first, more, rfl, kind, head, listed⟩ :=
        Token.exists_of_separated derives written
      exact .trigger kind head listed

end Action

namespace Parser

/-- Before a closing brace, exactly the tokens that derive a list of assignments or of events are
read as it, and the brace is left. So a list that is written, with commas between its items and
brackets only where the levels of expressions need them, is read back: no chain is cut short and
none goes on into the next one. -/
theorem actions_exact {rest : Stream} (ended : rest.Ended) (closed : rest.Ahead .braceClose) :
    (∀ tokens all fuel, 2 * tokens.length ≤ fuel →
      (assignments fuel (rest.after tokens) = .ok (all, rest) ↔
        Guard.Inside tokens (.action (.assign all)))) ∧
    (∀ tokens names fuel, 2 * tokens.length ≤ fuel →
      (events fuel (rest.after tokens) = .ok (names, rest) ↔
        Guard.Inside tokens (.action (.trigger names)))) ∧
    (∀ (numeral : Float → Numeral) all tokens fuel, all ≠ [] →
      (∀ a ∈ all, a.isShaped ∧ ∀ x ∈ a.value.numbers, (numeral x).Denotes x) →
      tokens.map Token.spelling =
        (.set, none) :: Token.separated (all.map (Assignment.spelled numeral)) →
      2 * tokens.length ≤ fuel → assignments fuel (rest.after tokens) = .ok (all, rest)) ∧
    ∀ names tokens fuel, names ≠ [] →
      tokens.map Token.spelling =
        (.trigger, none) :: Token.separated (names.map fun name => [(.identifier, some name)]) →
      2 * tokens.length ≤ fuel → events fuel (rest.after tokens) = .ok (names, rest) := by
  have assigned : ∀ tokens all fuel, 2 * tokens.length ≤ fuel →
      (assignments fuel (rest.after tokens) = .ok (all, rest) ↔
        Guard.Inside tokens (.action (.assign all))) := fun tokens all fuel enough =>
    ⟨fun ran => yields_assignments.of_after ended ran,
      fun inside => assignments_of_inside inside closed enough⟩
  have triggered : ∀ tokens names fuel, 2 * tokens.length ≤ fuel →
      (events fuel (rest.after tokens) = .ok (names, rest) ↔
        Guard.Inside tokens (.action (.trigger names))) := fun tokens names fuel enough =>
    ⟨fun ran => yields_events.of_after ended ran,
      fun inside => events_of_inside inside closed enough⟩
  refine ⟨assigned, triggered, ?_, ?_⟩
  · intro numeral all tokens fuel filled each written enough
    have shaped : (Action.assign all).isShaped := by
      simpa [Action.isShaped, filled] using fun a member => (each a member).1
    have denotes : ∀ e ∈ (Action.assign all).expressions, ∀ x ∈ e.numbers,
        (numeral x).Denotes x := by
      intro e member
      obtain ⟨a, inside, rfl⟩ := List.mem_map.1 member
      exact (each a inside).2
    exact (assigned tokens all fuel enough).2 (Action.inside_of_spelled shaped denotes written)
  · intro names tokens fuel filled written enough
    have shaped : (Action.trigger names).isShaped := by simpa [Action.isShaped] using filled
    have denotes : ∀ e ∈ (Action.trigger names).expressions, ∀ x ∈ e.numbers,
        Numeral.Denotes ⟨false, ""⟩ x := List.forall_mem_nil _
    exact (triggered tokens names fuel enough).2 (Action.inside_of_spelled shaped denotes written)

/-- Written `set d ^= e, a = b += c * 2`, before a brace: a bare name ends the first assignment, and
another one goes on to a further assignment in the second. -/
theorem actions_exact_mixed :
    let two := Number.nearest 2 0
    let all : List Assignment :=
      [.store "d" .power (.variable "e"),
       .chain "a" .replace
        (.store "b" .add (.binary .multiply (.variable "c") (.constant (.number two))))]
    let tokens : List Token :=
      [⟨.set, 0, 2, none⟩, ⟨.identifier, 0, 6, some "d"⟩, ⟨.assignPower, 0, 8, none⟩,
       ⟨.identifier, 0, 11, some "e"⟩, ⟨.comma, 0, 12, none⟩, ⟨.identifier, 0, 14, some "a"⟩,
       ⟨.assign, 0, 16, none⟩, ⟨.identifier, 0, 18, some "b"⟩, ⟨.assignSum, 0, 20, none⟩,
       ⟨.identifier, 0, 23, some "c"⟩, ⟨.times, 0, 25, none⟩, ⟨.number, 0, 27, some "2"⟩]
    let rest : Stream := ⟨[⟨.braceClose, 0, 29, none⟩], .ok ⟨.eof, 0, 30, none⟩⟩
    rest.Ended ∧ rest.Ahead .braceClose ∧ all ≠ [] ∧
      (∀ a ∈ all, a.isShaped ∧ ∀ x ∈ a.value.numbers, Numeral.Denotes ⟨false, "2"⟩ x) ∧
      tokens.map Token.spelling =
        (.set, none) :: Token.separated (all.map (Assignment.spelled fun _ => ⟨false, "2"⟩)) ∧
      assignments 24 (rest.after tokens) = .ok (all, rest) := by
  intro two all tokens rest
  have ended : rest.Ended := by
    rintro token ⟨⟩
    rfl
  have closed : rest.Ahead .braceClose := ⟨_, rfl, rfl⟩
  have filled : all ≠ [] := List.cons_ne_nil _ _
  have reads : Numeral.Denotes ⟨false, "2"⟩ two := ⟨two, rfl, (if_neg Bool.false_ne_true).symm⟩
  have each : ∀ a ∈ all, a.isShaped ∧ ∀ x ∈ a.value.numbers, Numeral.Denotes ⟨false, "2"⟩ x := by
    refine List.forall_mem_cons.2 ⟨⟨rfl, List.forall_mem_nil _⟩, List.forall_mem_singleton.2 ?_⟩
    exact ⟨rfl, fun x member => (List.mem_singleton.1 member : x = two) ▸ reads⟩
  have written : tokens.map Token.spelling =
      (.set, none) :: Token.separated (all.map (Assignment.spelled fun _ => ⟨false, "2"⟩)) := rfl
  obtain ⟨-, -, back, -⟩ := actions_exact ended closed
  exact ⟨ended, closed, filled, each, written,
    back (fun _ => ⟨false, "2"⟩) all tokens 24 filled each written (by decide)⟩

end Parser
end Dialogue
