import Dialogue.Proofs.Grammar

/-! Reading ends. A function that has not taken a token yet calls only functions that nest fewer
calls before they take one, so the tokens that are left bound all calls that nest: with the
allowance of `parse` no reading runs out of calls, and a larger one changes no answer. -/
namespace Dialogue

theorem Caption.Derives.ne_nil {tokens : List Token} {caption : Caption}
    (derives : Derives tokens caption) : tokens ≠ [] := by
  cases derives with
  | plain kind only => exact List.cons_ne_nil _ _
  | spoken who kind only => exact List.cons_ne_nil _ _

theorem Node.Diverts.ne_nil {tokens : List Token} {node : Node} (diverts : Diverts tokens node) :
    tokens ≠ [] := by
  cases diverts with
  | mk kind trailing => exact List.cons_ne_nil _ _

theorem Phrase.Derives.ne_nil_of_statement {tokens : List Token} {nodes : List Node}
    (derives : Derives tokens (.statement nodes)) : tokens ≠ [] := by
  cases derives with
  | line text trailing => exact List.append_ne_nil_of_left_ne_nil text.ne_nil _
  | longLine text trailing opens continues closes =>
      exact List.append_ne_nil_of_left_ne_nil text.ne_nil _
  | headedLine text trailing opens list =>
      exact List.append_ne_nil_of_left_ne_nil text.ne_nil _
  | start kind head ends list starts => exact List.cons_ne_nil _ _
  | deepStart kind head ends opens list => exact List.cons_ne_nil _ _
  | divert diverts => exact diverts.ne_nil
  | variations opens written inside ends => exact List.cons_ne_nil _ _

theorem Token.Starts.ne_nil {kinds : List Kind} {tokens : List Token}
    (starts : Starts kinds tokens) : tokens ≠ [] := by
  obtain ⟨token, rest, rfl, -⟩ := starts
  exact List.cons_ne_nil token rest

namespace Parser

variable {α β : Type} {s rest : Stream} {fuel more spare : Nat}

/-- Whether an allowance is enough for the tokens that are left and for some calls that take
none. -/
def Enough (fuel spare : Nat) (s : Stream) : Prop :=
  callsPerToken * s.tokens.length + spare ≤ fuel

namespace Enough

theorem call (enough : Enough (fuel + 1) (spare + 1) s) : Enough fuel spare s :=
  Nat.le_of_succ_le_succ enough

theorem zero (enough : Enough fuel spare s) : Enough fuel 0 s := Nat.le_of_add_right_le enough

/-- What is left of a stream needs no more than the whole. -/
theorem left {used : List Token} (enough : Enough fuel spare s) (split : s = rest.after used) :
    Enough fuel spare rest := by
  subst split
  simp only [Enough, Stream.tokens_after, List.length_append, callsPerToken] at enough ⊢
  omega

/-- A token that was taken leaves room for further calls that take none. -/
theorem past {used : List Token} (enough : Enough fuel spare s) (split : s = rest.after used)
    (some : used ≠ []) : Enough fuel callsPerToken rest := by
  subst split
  have positive := List.length_pos_iff.2 some
  simp only [Enough, Stream.tokens_after, List.length_append, callsPerToken] at enough ⊢
  omega

theorem taken {token : Token} (enough : Enough fuel spare s) (split : s = rest.after [token]) :
    Enough fuel callsPerToken rest := enough.past split (List.cons_ne_nil _ _)

end Enough

theorem ok_ne_exhausted (pair : α × Stream) : Except.ok pair ≠ .error Halt.exhausted := by
  intro ran
  cases ran

theorem fault_ne_exhausted (error : ParseError) :
    (.error (.fault error) : Except Halt (α × Stream)) ≠ .error .exhausted := by
  intro ran
  cases ran

/-- Whether a parser does not run out of calls at a stream, and another does the same there. -/
def Settles (p q : Parser α) (s : Stream) : Prop :=
  s.Ended → p s = q s ∧ p s ≠ .error .exhausted

namespace Settles

variable {p q : Parser α} {f g : α → Parser β} {P : List Token → α → Stream → Prop}

theorem pure {a : α} : (Pure.pure a : Parser α).Settles (Pure.pure a) s := by
  intro ended
  exact ⟨rfl, ok_ne_exhausted _⟩

theorem fault {error : ParseError} :
    (throw (.fault error) : Parser α).Settles (throw (.fault error)) s := by
  intro ended
  exact ⟨rfl, fault_ne_exhausted error⟩

theorem bind_of_run (first : p.Settles q s)
    (second : ∀ a rest, s.Ended → p s = .ok (a, rest) →
      f a rest = g a rest ∧ f a rest ≠ .error .exhausted) :
    (p >>= f).Settles (q >>= g) s := by
  intro ended
  obtain ⟨same, finite⟩ := first ended
  cases early : p s with
  | error halt =>
      rw [bind_of_error early, bind_of_error (same ▸ early)]
      exact ⟨rfl, fun ran => finite (early.trans (congrArg _ (Except.error.inj ran)))⟩
  | ok pair =>
      rw [bind_of_ok early, bind_of_ok (same ▸ early)]
      exact second pair.1 pair.2 ended early

theorem bind (first : p.Settles q s) (yields : p.Yields s P)
    (second : ∀ used a rest, s = rest.after used → P used a rest → (f a).Settles (g a) rest) :
    (p >>= f).Settles (q >>= g) s := by
  refine first.bind_of_run fun a rest ended ran => ?_
  obtain ⟨used, rfl, held⟩ := yields ended a rest ran
  exact second used a rest rfl held ended

theorem bind_return {h : α → β} (settles : p.Settles q s) :
    (p >>= fun a => Pure.pure (h a)).Settles (q >>= fun a => Pure.pure (h a)) s :=
  settles.bind_of_run fun _ _ _ _ => ⟨rfl, ok_ne_exhausted _⟩

theorem map {h : α → β} (settles : p.Settles q s) : (h <$> p).Settles (h <$> q) s := by
  rw [← bind_pure_comp, ← bind_pure_comp]
  exact settles.bind_return

theorem peek {f g : Token → Parser β}
    (each : ∀ token, s.peek = .ok token → (f token).Settles (g token) s) :
    (Parser.peek >>= f).Settles (Parser.peek >>= g) s := by
  intro ended
  cases peeked : s.peek with
  | error error =>
      have look : Parser.peek s = .error (.fault error) := by simp only [Parser.peek, peeked]
      rw [bind_of_error look, bind_of_error look]
      exact ⟨rfl, fault_ne_exhausted error⟩
  | ok token =>
      have look : Parser.peek s = .ok (token, s) := by simp only [Parser.peek, peeked]
      rw [bind_of_ok look, bind_of_ok look]
      exact each token peeked ended

theorem kind {f g : Token.Kind → Parser β}
    (each : ∀ kind, s.Ahead kind → (f kind).Settles (g kind) s) :
    (Parser.kind >>= f).Settles (Parser.kind >>= g) s := by
  simp only [Parser.kind, bind_map_left]
  exact peek fun token peeked => each token.kind ⟨token, peeked, rfl⟩

theorem next {kinds : List Token.Kind} {f g : Bool → Parser β}
    (each : ∀ kind, s.Ahead kind →
      (f (kinds.contains kind)).Settles (g (kinds.contains kind)) s) :
    (Parser.next kinds >>= f).Settles (Parser.next kinds >>= g) s := by
  simp only [Parser.next, bind_assoc, pure_bind]
  exact kind each

theorem unexpected {kinds : List Token.Kind} :
    (Parser.unexpected kinds : Parser α).Settles (Parser.unexpected kinds) s := by
  rw [Parser.unexpected]
  exact peek fun token peeked => fault

theorem expect {kinds : List Token.Kind} {f g : Token → Parser β} (inside : .eof ∉ kinds)
    (each : ∀ token rest, s = rest.after [token] → (f token).Settles (g token) rest) :
    (Parser.expect kinds >>= f).Settles (Parser.expect kinds >>= g) s := by
  have settles : (Parser.expect kinds).Settles (Parser.expect kinds) s := by
    rw [Parser.expect]
    refine peek fun token peeked => ?_
    split
    · exact fun ended => ⟨rfl, ok_ne_exhausted _⟩
    · exact unexpected
  have yields : (Parser.expect kinds).Yields s fun used token _ => used = [token] := by
    rw [← bind_pure (Parser.expect kinds)]
    exact .expect inside fun token rest listed => .pure rfl
  refine settles.bind yields ?_
  rintro - token rest split rfl
  exact each token rest split

theorem skip {wanted : Token.Kind} {f g : Unit → Parser β} (inside : .eof ≠ wanted)
    (each : ∀ used rest, s = rest.after used → (f ()).Settles (g ()) rest) :
    (Parser.skip wanted >>= f).Settles (Parser.skip wanted >>= g) s := by
  simp only [Parser.skip, bind_assoc]
  refine next fun kind ahead => ?_
  split
  · rw [bind_assoc, bind_assoc]
    exact expect (by simpa using inside) fun token rest split => each [token] rest split
  · exact each [] s rfl

end Settles

/-! Every loop takes a token in each round, or stops. -/

theorem settles_number {token : Token} : (number token).Settles (number token) s := by
  rw [number]
  split
  · exact .pure
  · exact .fault

theorem settles_eventName : eventName.Settles eventName s := by
  rw [eventName]
  exact .expect (by decide) fun token rest split => .pure

theorem settles_commaList {item other : Parser α} {bound : Nat} {Each : List Token → α → Prop}
    (each : ∀ s, Enough bound 0 s → item.Settles other s)
    (yields : ∀ s, item.Yields s fun used a _ => Each used a) (least : fuel ≤ more)
    (bounded : Enough bound 0 s) (enough : Enough fuel (spare + 1) s) :
    (commaList item fuel).Settles (commaList other more) s := by
  induction fuel generalizing s spare more with
  | zero => exact absurd enough (Nat.not_succ_le_zero _)
  | succ fuel ih =>
      obtain ⟨more, rfl⟩ : ∃ less, more = less + 1 := ⟨more - 1, by omega⟩
      rw [commaList, commaList]
      refine .next fun kind ahead => ?_
      split
      · refine .expect (by decide) fun comma rest split => ?_
        have enough := enough.call.taken split
        have bounded := bounded.left split
        refine (each rest bounded).bind (yields rest) fun used a rest split first => ?_
        have tail := ih (Nat.le_of_succ_le_succ least) (bounded.left split) (enough.left split)
        exact tail.bind_return
      · exact .pure

theorem settles_variationMode : variationMode.Settles variationMode s := by
  rw [variationMode]
  refine .next fun kind ahead => ?_
  split
  · exact .expect (by decide) fun token rest split => .pure
  · exact .pure

theorem settles_dedents (count : Nat) : (dedents count).Settles (dedents count) s := by
  induction count generalizing s with
  | zero => exact .pure
  | succ count ih =>
      rw [dedents]
      refine .next fun kind ahead => ?_
      split
      · exact .expect (by decide) fun token rest split => ih
      · exact .pure

/-- What each function does with some allowance of calls is what it does with a larger one, as long
as the first is enough for the tokens left and, beyond them, for so many calls as the function nests
before it takes a token or stops. -/
structure Settled (fuel more : Nat) : Prop where
  le : fuel ≤ more
  expression : ∀ {s spare} least, Enough fuel (spare + 2) s →
    (expression fuel least).Settles (expression more least) s
  operators : ∀ {s spare} least left, Enough fuel (spare + 1) s →
    (operators fuel least left).Settles (operators more least left) s
  operand : ∀ {s spare}, Enough fuel (spare + 1) s → (operand fuel).Settles (operand more) s
  assigned : ∀ {s spare} name update, Enough fuel (spare + 3) s →
    (assigned fuel name update).Settles (assigned more name update) s
  guards : ∀ {s spare}, Enough fuel (spare + 1) s → (guards fuel).Settles (guards more) s
  marked : ∀ {s spare} marks, Enough fuel (spare + 1) s →
    (marked fuel marks).Settles (marked more marks) s
  continued : ∀ {s spare} caption, Enough fuel (spare + 1) s →
    (continued fuel caption).Settles (continued more caption) s
  lines : ∀ {s spare}, Enough fuel (spare + 4) s → (lines fuel).Settles (lines more) s
  body : ∀ {s spare}, Enough fuel (spare + 5) s → (body fuel).Settles (body more) s
  indented : ∀ {s spare}, Enough fuel (spare + 1) s → (indented fuel).Settles (indented more) s
  lineStatement : ∀ {s spare}, Enough fuel (spare + 1) s →
    (lineStatement fuel).Settles (lineStatement more) s
  headedList : ∀ {s spare} name marks, Enough fuel (spare + 4) s →
    (headedList fuel name marks).Settles (headedList more name marks) s
  optionsStart : ∀ {s spare}, Enough fuel (spare + 1) s →
    (optionsStart fuel).Settles (optionsStart more) s
  optionList : ∀ {s spare} name marks first, Enough fuel (spare + 3) s →
    (optionList fuel name marks first).Settles (optionList more name marks first) s
  optionItems : ∀ {s spare}, Enough fuel (spare + 2) s →
    (optionItems fuel).Settles (optionItems more) s
  option : ∀ {s spare}, Enough fuel (spare + 1) s → (option fuel).Settles (option more) s
  variations : ∀ {s spare}, Enough fuel (spare + 1) s →
    (variations fuel).Settles (variations more) s
  alternatives : ∀ {s spare} depth, Enough fuel (spare + 1) s →
    (alternatives fuel depth).Settles (alternatives more depth) s
  governed : ∀ {s spare} guard, Enough fuel (spare + 3) s →
    (governed fuel guard).Settles (governed more guard) s
  governedTarget : ∀ {s spare} guard, Enough fuel (spare + 2) s →
    (governedTarget fuel guard).Settles (governedTarget more guard) s
  blocks : ∀ {s spare}, Enough fuel (spare + 1) s → (blocks fuel).Settles (blocks more) s

open Phrase (Derives)

namespace Settled

theorem expression_succ (holds : Settled fuel more) (least : Nat)
    (enough : Enough (fuel + 1) (spare + 2) s) :
    (Parser.expression (fuel + 1) least).Settles (Parser.expression (more + 1) least) s := by
  rw [Parser.expression, Parser.expression]
  refine (holds.operand enough.call).bind ((sound fuel).operand s) ?_
  intro used left rest split derives
  have some := List.length_pos_iff.1 derives.length_pos
  exact holds.operators least left (enough.call.past split some)

theorem operators_succ (holds : Settled fuel more) (least : Nat) (left : Expr)
    (enough : Enough (fuel + 1) (spare + 1) s) :
    (Parser.operators (fuel + 1) least left).Settles
      (Parser.operators (more + 1) least left) s := by
  rw [Parser.operators, Parser.operators]
  refine .kind fun kind ahead => ?_
  split
  · exact .pure
  · next op precedence groupsRight found =>
      obtain ⟨row, rfl⟩ := Operator.mem_table_of_binary? found
      split
      · exact .pure
      · have inside : .eof ∉ [kind] := by
          intro member
          obtain rfl := List.mem_singleton.1 member
          cases found
        refine .expect inside fun sign rest split => ?_
        have enough := enough.call.taken split
        have high := (Operator.level_lt_of_mem_table row).2
        have above := Operator.rightLevel_le precedence
        rw [Operator.ite_eq_rightLevel]
        refine (holds.expression _ enough).bind ((sound fuel).expression rest _ (by omega)) ?_
        intro used right rest split held
        exact holds.operators least _ (enough.left split)

theorem operand_succ (holds : Settled fuel more) (enough : Enough (fuel + 1) (spare + 1) s) :
    (Parser.operand (fuel + 1)).Settles (Parser.operand (more + 1)) s := by
  rw [Parser.operand, Parser.operand]
  refine .expect (by decide) fun token rest split => ?_
  have enough := enough.call.taken split
  split
  · exact (holds.operand enough).bind_return
  · refine .expect (by decide) fun digits rest split => ?_
    exact settles_number.bind_return
  · refine (holds.expression 0 enough).bind (yields_expression fuel rest) ?_
    intro used inner rest split derives
    exact .expect (by decide) fun closing rest split => .pure
  · exact settles_number.bind_return
  · exact .pure
  · exact .pure
  · exact .pure
  · exact .pure

theorem assigned_succ (holds : Settled fuel more) (name : String) (update : Update)
    (enough : Enough (fuel + 1) (spare + 3) s) :
    (Parser.assigned (fuel + 1) name update).Settles
      (Parser.assigned (more + 1) name update) s := by
  rw [Parser.assigned, Parser.assigned]
  refine (holds.expression 0 enough.call).bind (yields_expression fuel s) ?_
  intro used value rest split derives
  have enough := enough.call.left split
  split
  · next inner =>
      refine .next fun kind ahead => ?_
      split
      · refine .expect (by decide) fun sign rest split => ?_
        have enough := enough.taken split
        exact (holds.assigned inner _ enough).bind_return
      · exact .pure
  · exact .pure

theorem assignment (holds : Settled fuel more) (enough : Enough fuel 0 s) :
    (Parser.assignment fuel).Settles (Parser.assignment more) s := by
  rw [Parser.assignment, Parser.assignment]
  refine .expect (by decide) fun name rest split => ?_
  have enough := enough.taken split
  refine .expect (by decide) fun sign rest split => ?_
  exact holds.assigned name.value _ (enough.left split)

theorem assignments (holds : Settled fuel more) (enough : Enough fuel spare s) :
    (Parser.assignments fuel).Settles (Parser.assignments more) s := by
  rw [Parser.assignments, Parser.assignments]
  refine .expect (by decide) fun keyword rest split => ?_
  have enough := enough.taken split
  refine (holds.assignment enough.zero).bind yields_assignment ?_
  intro used first rest split derives
  have enough := enough.left split
  have all := settles_commaList (fun _ => holds.assignment) (fun _ => yields_assignment) holds.le
    enough.zero enough
  exact all.bind_return

theorem events (holds : Settled fuel more) (enough : Enough fuel spare s) :
    (Parser.events fuel).Settles (Parser.events more) s := by
  rw [Parser.events, Parser.events]
  refine .expect (by decide) fun keyword rest split => ?_
  have enough := enough.taken split
  refine settles_eventName.bind yields_eventName fun used first rest split derives => ?_
  have enough := enough.left split
  have all := settles_commaList (fun _ _ => settles_eventName) (fun _ => yields_eventName) holds.le
    enough.zero enough
  exact all.bind_return

theorem guard (holds : Settled fuel more) (enough : Enough fuel spare s) :
    (Parser.guard fuel).Settles (Parser.guard more) s := by
  rw [Parser.guard, Parser.guard]
  refine .expect (by decide) fun opening rest split => ?_
  have enough := enough.taken split
  have closed : ∀ {p q : Parser Guard} {rest : Stream}, p.Settles q rest →
      (p.Yields rest fun used guard _ => Guard.Inside used guard) →
      (p >>= fun inside => expect [.braceClose] >>= fun _ => pure inside).Settles
        (q >>= fun inside => expect [.braceClose] >>= fun _ => pure inside) rest := by
    intro p q rest settles yields
    refine settles.bind yields fun used inside rest split held => ?_
    exact .expect (by decide) fun closing rest split => .pure
  refine .kind fun kind ahead => ?_
  split
  · exact closed (holds.assignments enough).map.map (.map (.map yields_assignments))
  · exact closed (holds.events enough).map.map (.map (.map yields_events))
  · refine .skip (by decide) fun keyword rest split => ?_
    refine closed (holds.expression 0 (enough.left split)).map (.map ?_)
    exact (yields_expression fuel rest).imp fun used e rest value => .condition (.inl rfl) value

theorem guards_succ (holds : Settled fuel more) (enough : Enough (fuel + 1) (spare + 1) s) :
    (Parser.guards (fuel + 1)).Settles (Parser.guards (more + 1)) s := by
  rw [Parser.guards, Parser.guards]
  refine .next fun kind ahead => ?_
  split
  · refine (holds.guard enough.call).bind yields_guard fun used first rest split derives => ?_
    exact (holds.guards (enough.call.past split derives.ne_nil)).bind_return
  · exact .pure

theorem trailing (holds : Settled fuel more) (enough : Enough fuel (spare + 1) s) :
    (Parser.trailing fuel).Settles (Parser.trailing more) s := by
  rw [Parser.trailing, Parser.trailing]
  refine (holds.guards enough).bind yields_guards fun used all rest split derives => ?_
  exact .skip (by decide) fun ending rest split => .pure

theorem marked_succ (holds : Settled fuel more) (marks : Marks)
    (enough : Enough (fuel + 1) (spare + 1) s) :
    (Parser.marked (fuel + 1) marks).Settles (Parser.marked (more + 1) marks) s := by
  rw [Parser.marked, Parser.marked]
  refine .next fun kind ahead => ?_
  split
  · refine .expect (by decide) fun token rest split => ?_
    have enough := enough.call.taken split
    split
    · exact holds.marked _ enough
    · exact holds.marked _ enough
  · exact .pure

theorem caption (holds : Settled fuel more) (enough : Enough fuel spare s) :
    (Parser.caption fuel).Settles (Parser.caption more) s := by
  rw [Parser.caption, Parser.caption]
  have spoken : ∀ (speaker : Option String) {rest : Stream}, Enough fuel 0 rest →
      (do
        let text ← expect [.text]
        return ⟨text.value, ← Parser.marked fuel { speaker := speaker }⟩ : Parser Caption).Settles
      (do
        let text ← expect [.text]
        return ⟨text.value, ← Parser.marked more { speaker := speaker }⟩) rest := by
    intro speaker rest enough
    refine .expect (by decide) fun text rest split => ?_
    exact (holds.marked _ (enough.taken split)).bind_return
  refine .next fun kind ahead => ?_
  split
  · refine .expect (by decide) fun token rest split => ?_
    rw [pure_bind, pure_bind]
    exact spoken (some token.value) (enough.left split).zero
  · rw [pure_bind, pure_bind]
    exact spoken none enough.zero

theorem continued_succ (holds : Settled fuel more) (caption : Caption)
    (enough : Enough (fuel + 1) (spare + 1) s) :
    (Parser.continued (fuel + 1) caption).Settles (Parser.continued (more + 1) caption) s := by
  rw [Parser.continued, Parser.continued]
  refine .next fun kind ahead => ?_
  split
  · refine .expect (by decide) fun text rest split => ?_
    have enough := enough.call.taken split
    refine (holds.marked _ enough).bind (yields_marked _) fun used marks rest split held => ?_
    exact holds.continued _ (enough.left split)
  · exact .pure

theorem divert (holds : Settled fuel more) (enough : Enough fuel spare s) :
    (Parser.divert fuel).Settles (Parser.divert more) s := by
  rw [Parser.divert, Parser.divert]
  refine .expect (by decide) fun token rest split => ?_
  exact (holds.trailing (enough.taken split)).bind_return

theorem label (holds : Settled fuel more) (enough : Enough fuel spare s) :
    (Parser.label fuel).Settles (Parser.label more) s := by
  rw [Parser.label, Parser.label]
  refine .kind fun kind ahead => ?_
  split
  · refine .expect (by decide) fun opening rest split => ?_
    have enough := enough.taken split
    refine (holds.caption enough).bind yields_caption fun used inside rest split derives => ?_
    have enough := enough.left split
    refine .expect (by decide) fun closing rest split => ?_
    have enough := enough.left split
    refine (holds.marked _ enough).bind (yields_marked _) fun used marks rest split held => ?_
    have enough := enough.left split
    refine .next fun kind ahead => ?_
    split
    · refine .expect (by decide) fun text rest split => ?_
      have enough := enough.left split
      refine (holds.marked _ enough).bind (yields_marked _) fun used shown rest split held => ?_
      exact .pure
    · exact .pure
  · exact (holds.caption enough).bind_return
  · exact (holds.caption enough).bind_return
  · exact .unexpected

theorem lines_succ (holds : Settled fuel more) (enough : Enough (fuel + 1) (spare + 4) s) :
    (Parser.lines (fuel + 1)).Settles (Parser.lines (more + 1)) s := by
  rw [Parser.lines, Parser.lines]
  have enough := enough.call
  have grammatical := grammatical fuel
  have followed : ∀ {α : Type} {p q : Parser α} {h : α → List Node → List Node}
      {P : List Token → α → Stream → Prop}, p.Settles q s → p.Yields s P →
      (∀ used a rest, P used a rest → used ≠ []) →
      (p >>= fun a => Parser.lines fuel >>= fun others => pure (h a others)).Settles
        (q >>= fun a => Parser.lines more >>= fun others => pure (h a others)) s := by
    intro α p q h P settles yields some
    refine settles.bind yields fun used a rest split held => ?_
    exact (holds.lines (enough.past split (some used a rest held))).bind_return
  have statement : ∀ {p q : Parser (List Node)}, p.Settles q s →
      (p.Yields s fun used nodes _ => Derives used (.statement nodes)) →
      (p >>= fun nodes => Parser.lines fuel >>= fun others => pure (nodes ++ others)).Settles
        (q >>= fun nodes => Parser.lines more >>= fun others => pure (nodes ++ others)) s :=
    fun settles yields => followed settles yields fun _ _ _ head => head.ne_nil_of_statement
  have list : (Parser.optionList fuel none {} [] >>= fun result =>
      Parser.lines fuel >>= fun others => pure (result.1 :: result.2 ++ others)).Settles
      (Parser.optionList more none {} [] >>= fun result =>
        Parser.lines more >>= fun others => pure (result.1 :: result.2 ++ others)) s := by
    refine followed (holds.optionList none {} [] enough) (grammatical.optionList s none {} []) ?_
    rintro used result rest ⟨items, same, head, itemized⟩
    exact (itemized rfl).starts.ne_nil
  refine .kind fun kind ahead => ?_
  split
  · exact statement (holds.lineStatement enough) (grammatical.lineStatement s)
  · exact statement (holds.lineStatement enough) (grammatical.lineStatement s)
  · exact list
  · exact list
  · exact list
  · exact statement (holds.optionsStart enough) (grammatical.optionsStart s)
  · exact followed (holds.divert enough) yields_divert fun _ _ _ diverts => diverts.ne_nil
  · exact followed (holds.divert enough) yields_divert fun _ _ _ diverts => diverts.ne_nil
  · exact followed (holds.variations enough) (grammatical.variations s) fun _ _ _ head =>
      head.ne_nil_of_statement
  · -- What a guard governs may take nothing, but the guard itself did.
    refine (holds.guard enough).bind yields_guard fun used guard rest split opens => ?_
    have enough := enough.past split opens.ne_nil
    refine (holds.governed guard enough).bind (grammatical.governed rest guard) ?_
    intro used result rest split derives
    have enough := enough.left split
    split
    · exact (holds.lines enough).bind_return
    · next item =>
        refine (holds.optionList none {} [item] enough).bind
          (grammatical.optionList rest none {} [item]) ?_
        intro used result rest split held
        exact (holds.lines (enough.left split)).bind_return
  · refine .expect (by decide) fun token rest split => ?_
    exact holds.lines (enough.taken split)
  · exact .pure

theorem body_succ (holds : Settled fuel more) (enough : Enough (fuel + 1) (spare + 5) s) :
    (Parser.body (fuel + 1)).Settles (Parser.body (more + 1)) s := by
  rw [Parser.body, Parser.body]
  refine .next fun kind ahead => ?_
  split
  · exact holds.indented enough.call
  · exact holds.lines enough.call

theorem indented_succ (holds : Settled fuel more) (enough : Enough (fuel + 1) (spare + 1) s) :
    (Parser.indented (fuel + 1)).Settles (Parser.indented (more + 1)) s := by
  rw [Parser.indented, Parser.indented]
  refine .expect (by decide) fun opening rest split => ?_
  have enough := enough.call.taken split
  refine (holds.lines enough).bind ((grammatical fuel).lines rest) ?_
  intro used nodes rest split derives
  exact .expect (by decide) fun closing rest split => .pure

theorem lineStatement_succ (holds : Settled fuel more)
    (enough : Enough (fuel + 1) (spare + 1) s) :
    (Parser.lineStatement (fuel + 1)).Settles (Parser.lineStatement (more + 1)) s := by
  rw [Parser.lineStatement, Parser.lineStatement]
  refine (holds.caption enough.call).bind yields_caption fun used first rest split text => ?_
  have enough := enough.call.past split text.ne_nil
  refine (holds.trailing enough).bind yields_trailing fun used guards rest split trailing => ?_
  have enough := enough.left split
  refine .next fun kind ahead => ?_
  split
  · refine .expect (by decide) fun opening rest split => ?_
    have enough := enough.left split
    refine .next fun kind ahead => ?_
    split
    · exact (holds.headedList _ _ enough).bind_return
    · refine (holds.continued first enough).bind (yields_continued first) ?_
      intro used whole rest split continues
      exact .expect (by decide) fun closing rest split => .pure
  · exact .pure

theorem headedList_succ (holds : Settled fuel more) (name : Option String) (marks : Marks)
    (enough : Enough (fuel + 1) (spare + 4) s) :
    (Parser.headedList (fuel + 1) name marks).Settles
      (Parser.headedList (more + 1) name marks) s := by
  rw [Parser.headedList, Parser.headedList]
  refine (holds.optionList name marks [] enough.call).bind
    ((grammatical fuel).optionList s name marks []) ?_
  rintro used result rest split ⟨items, same, list, itemized⟩
  have enough := enough.call.past split (itemized rfl).starts.ne_nil
  refine .next fun kind ahead => ?_
  split
  · exact .expect (by decide) fun closing rest split => .pure
  · refine (holds.lines enough).bind ((grammatical fuel).lines rest) ?_
    intro used others rest split derives
    exact .expect (by decide) fun closing rest split => .pure

theorem optionsStart_succ (holds : Settled fuel more) (enough : Enough (fuel + 1) (spare + 1) s) :
    (Parser.optionsStart (fuel + 1)).Settles (Parser.optionsStart (more + 1)) s := by
  rw [Parser.optionsStart, Parser.optionsStart]
  refine .expect (by decide) fun token rest split => ?_
  have enough := enough.call.taken split
  have started : ∀ {name : Option String} {marks : Marks} {rest : Stream},
      Enough fuel callsPerToken rest →
      (do
        skip .lineBreak
        if ← next [.indent] then
          let _ ← expect [.indent]
          let list ← Parser.headedList fuel name marks
          return list.1 :: list.2
        else
          let list ← Parser.optionList fuel name marks []
          return list.1 :: list.2).Settles
      (do
        skip .lineBreak
        if ← next [.indent] then
          let _ ← expect [.indent]
          let list ← Parser.headedList more name marks
          return list.1 :: list.2
        else
          let list ← Parser.optionList more name marks []
          return list.1 :: list.2) rest := by
    intro name marks rest enough
    refine .skip (by decide) fun ending rest split => ?_
    have enough := enough.left split
    refine .next fun kind ahead => ?_
    split
    · refine .expect (by decide) fun opening rest split => ?_
      exact (holds.headedList name marks (enough.left split)).bind_return
    · exact (holds.optionList name marks [] enough).bind_return
  refine .next fun kind ahead => ?_
  split
  · refine (holds.caption enough).bind yields_caption fun used header rest split inside => ?_
    exact started (enough.left split)
  · exact started enough

theorem optionList_succ (holds : Settled fuel more) (name : Option String) (marks : Marks)
    (first : List Node) (enough : Enough (fuel + 1) (spare + 3) s) :
    (Parser.optionList (fuel + 1) name marks first).Settles
      (Parser.optionList (more + 1) name marks first) s := by
  rw [Parser.optionList, Parser.optionList]
  have items := (holds.optionItems enough.call).bind_return
    (h := fun result => (Node.options name marks (first ++ result.1), result.2))
  split
  · refine .next fun kind ahead => ?_
    split
    · have never : (Parser.unexpected (optionKinds ++ [.braceOpen]) : Parser Unit).Yields s
          fun _ _ _ => False := .unexpected
      exact Settles.unexpected.bind never fun _ _ _ _ impossible => impossible.elim
    · exact items
  · exact items

theorem optionItems_succ (holds : Settled fuel more) (enough : Enough (fuel + 1) (spare + 2) s) :
    (Parser.optionItems (fuel + 1)).Settles (Parser.optionItems (more + 1)) s := by
  rw [Parser.optionItems, Parser.optionItems]
  have enough := enough.call
  have bare : (Parser.option fuel >>= fun item => Parser.optionItems fuel >>= fun result =>
      pure (item :: result.1, result.2)).Settles
      (Parser.option more >>= fun item => Parser.optionItems more >>= fun result =>
        pure (item :: result.1, result.2)) s := by
    refine (holds.option enough).bind ((grammatical fuel).option s) ?_
    intro used item rest split head
    exact (holds.optionItems (enough.past split head.ne_nil_of_option)).bind_return
  refine .kind fun kind ahead => ?_
  split
  · exact bare
  · exact bare
  · exact bare
  · refine (holds.guard enough).bind yields_guard fun used guard rest split opens => ?_
    have enough := enough.past split opens.ne_nil
    refine (holds.governed guard enough).bind ((grammatical fuel).governed rest guard) ?_
    intro used result rest split derives
    split
    · exact (holds.optionItems (enough.left split)).bind_return
    · exact .pure
  · refine .expect (by decide) fun token rest split => ?_
    exact holds.optionItems (enough.taken split)
  · exact .pure

theorem option_succ (holds : Settled fuel more) (enough : Enough (fuel + 1) (spare + 1) s) :
    (Parser.option (fuel + 1)).Settles (Parser.option (more + 1)) s := by
  rw [Parser.option, Parser.option]
  refine .expect (by decide) fun sign rest split => ?_
  have enough := enough.call.taken split
  refine (holds.guards enough).bind yields_guards fun used before rest split guards => ?_
  have enough := enough.left split
  refine (holds.label enough).bind yields_label fun used result rest split label => ?_
  have enough := enough.left split
  refine (holds.trailing enough).bind yields_trailing fun used after rest split trailing => ?_
  have enough := enough.left split
  have ended : ∀ {away : List Node} {rest : Stream}, Enough fuel callsPerToken rest →
      (do
        let nested ← if ← next [.indent] then Parser.indented fuel else pure []
        return Guard.wrapAll (before ++ after) (.option result.1.text sign.optionMode
          result.1.marks (result.2 ++ away ++ nested))).Settles
      (do
        let nested ← if ← next [.indent] then Parser.indented more else pure []
        return Guard.wrapAll (before ++ after) (.option result.1.text sign.optionMode
          result.1.marks (result.2 ++ away ++ nested))) rest := by
    intro away rest enough
    refine .next fun kind ahead => ?_
    split
    · exact (holds.indented enough).bind_return
    · exact .pure
  refine .next fun kind ahead => ?_
  by_cases leaving : [Token.Kind.divert, .divertParent].contains kind = true
  · rw [if_pos leaving, if_pos leaving]
    refine (holds.divert enough).bind yields_divert fun used node rest split diverts => ?_
    exact ended (enough.left split)
  · rw [if_neg leaving, if_neg leaving]
    exact ended enough

theorem variations_succ (holds : Settled fuel more) (enough : Enough (fuel + 1) (spare + 1) s) :
    (Parser.variations (fuel + 1)).Settles (Parser.variations (more + 1)) s := by
  rw [Parser.variations, Parser.variations]
  refine .expect (by decide) fun opening rest split => ?_
  have enough := enough.call.taken split
  refine settles_variationMode.bind yields_variationMode fun used mode rest split written => ?_
  have enough := enough.left split
  refine (holds.alternatives 0 enough).bind ((grammatical fuel).alternatives rest 0) ?_
  intro used result rest split inside
  exact (settles_dedents result.2).bind_return

theorem alternatives_succ (holds : Settled fuel more) (depth : Nat)
    (enough : Enough (fuel + 1) (spare + 1) s) :
    (Parser.alternatives (fuel + 1) depth).Settles (Parser.alternatives (more + 1) depth) s := by
  rw [Parser.alternatives, Parser.alternatives]
  refine .expect (by decide) fun token rest split => ?_
  have enough := enough.call.taken split
  split
  · exact holds.alternatives _ enough
  · exact holds.alternatives _ enough
  · refine (holds.body enough).bind ((grammatical fuel).body rest) ?_
    intro used nodes rest split head
    exact (holds.alternatives depth (enough.left split)).bind_return
  · exact .pure
  · exact holds.alternatives depth enough

theorem governed_succ (holds : Settled fuel more) (guard : Guard)
    (enough : Enough (fuel + 1) (spare + 3) s) :
    (Parser.governed (fuel + 1) guard).Settles (Parser.governed (more + 1) guard) s := by
  have enough := enough.call
  cases guard with
  | action action =>
      rw [Parser.governed, Parser.governed]
      refine .next fun kind ahead => ?_
      split
      · exact .expect (by decide) fun token rest split => .pure
      · refine .next fun kind ahead => ?_
        split
        · exact .pure
        · exact holds.governedTarget _ enough
  | condition condition =>
      rw [Parser.governed, Parser.governed]
      refine .next fun kind ahead => ?_
      split
      · refine .expect (by decide) fun token rest split => ?_
        have enough := enough.taken split
        refine .next fun kind ahead => ?_
        split
        · exact (holds.indented enough).bind_return
        · -- The same guard once more, with the line break taken.
          exact holds.governed _ enough
      · exact holds.governedTarget _ enough

theorem governedTarget_succ (holds : Settled fuel more) (guard : Guard)
    (enough : Enough (fuel + 1) (spare + 2) s) :
    (Parser.governedTarget (fuel + 1) guard).Settles
      (Parser.governedTarget (more + 1) guard) s := by
  rw [Parser.governedTarget, Parser.governedTarget]
  have enough := enough.call
  refine .kind fun kind ahead => ?_
  split
  · exact (holds.option enough).bind_return
  · exact (holds.option enough).bind_return
  · exact (holds.option enough).bind_return
  · refine (holds.guard enough).bind yields_guard fun used second rest split opens => ?_
    exact (holds.governed second (enough.past split opens.ne_nil)).bind_return
  · exact (holds.lineStatement enough).bind_return
  · exact (holds.lineStatement enough).bind_return
  · exact (holds.divert enough).bind_return
  · exact (holds.divert enough).bind_return
  · exact (holds.variations enough).bind_return
  · exact (holds.optionsStart enough).bind_return
  · exact .unexpected

theorem blocks_succ (holds : Settled fuel more) (enough : Enough (fuel + 1) (spare + 1) s) :
    (Parser.blocks (fuel + 1)).Settles (Parser.blocks (more + 1)) s := by
  rw [Parser.blocks, Parser.blocks]
  refine .next fun kind ahead => ?_
  split
  · refine .expect (by decide) fun name rest split => ?_
    have enough := enough.call.taken split
    refine (holds.body enough).bind ((grammatical fuel).body rest) ?_
    intro used content rest split derives
    exact (holds.blocks (enough.left split)).bind_return
  · exact .pure

end Settled

theorem settled (le : fuel ≤ more) : Settled fuel more := by
  induction fuel generalizing more with
  | zero =>
      have never : ∀ {s spare} {Q : Prop}, Enough 0 (spare + 1) s → Q :=
        fun enough => absurd enough (Nat.not_succ_le_zero _)
      constructor
      · exact le
      all_goals
        intros
        exact never ‹_›
  | succ fuel ih =>
      obtain ⟨more, rfl⟩ : ∃ less, more = less + 1 := ⟨more - 1, by omega⟩
      have holds := ih (Nat.le_of_succ_le_succ le)
      exact ⟨le, holds.expression_succ, holds.operators_succ, holds.operand_succ,
        holds.assigned_succ, holds.guards_succ, holds.marked_succ, holds.continued_succ,
        holds.lines_succ, holds.body_succ, holds.indented_succ, holds.lineStatement_succ,
        holds.headedList_succ, holds.optionsStart_succ, holds.optionList_succ,
        holds.optionItems_succ, holds.option_succ, holds.variations_succ, holds.alternatives_succ,
        holds.governed_succ, holds.governedTarget_succ, holds.blocks_succ⟩

theorem settles_document (le : fuel ≤ more) (enough : Enough fuel (spare + 4) s) :
    (document fuel).Settles (document more) s := by
  have holds := settled le
  rw [document, document]
  have closed : ∀ {content : List Node} {rest : Stream}, Enough fuel (spare + 4) rest →
      (do
        let named ← blocks fuel
        if ← next [.eof] then return ⟨content, named⟩
        else unexpected (lineKinds ++ [.block, .eof]) : Parser Document).Settles
      (do
        let named ← blocks more
        if ← next [.eof] then return ⟨content, named⟩
        else unexpected (lineKinds ++ [.block, .eof])) rest := by
    intro content rest enough
    refine (holds.blocks enough).bind yields_blocks fun used named rest split derives => ?_
    refine .next fun kind ahead => ?_
    split
    · exact .pure
    · exact .unexpected
  refine .next fun kind ahead => ?_
  split
  · refine (holds.lines enough).bind ((grammatical fuel).lines s) ?_
    intro used content rest split derives
    exact closed (enough.left split)
  · exact closed enough

theorem enough_allowance (s : Stream) : Enough (allowance s) 4 s := by
  simp only [Enough, allowance, callsPerToken]
  omega

/-- What does not run out of calls gives a result or a fault. -/
theorem exists_outcome {p : Parser α} (finite : p s ≠ .error .exhausted) :
    ∃ outcome : Except ParseError α, (p s).map (·.1) = outcome.mapError .fault := by
  cases ran : p s with
  | ok pair => exact ⟨.ok pair.1, rfl⟩
  | error halt =>
      cases halt with
      | fault error => exact ⟨.error error, rfl⟩
      | exhausted => exact absurd ran finite

end Parser

/-- Reading a source ends, with a document or with an error, and a larger allowance of calls gives
the same. So it is with every function that reads a part, on whatever is left and even where nothing
is: it nests so many calls for each token, and a few before it takes one or stops. -/
theorem parse_ends (source : String) :
    (∃ outcome : Except ParseError Document, parse source = outcome.mapError .fault ∧
      ∀ calls, Parser.allowance (Stream.ofSource source) ≤ calls →
        (Parser.document calls (Stream.ofSource source)).map (·.1) = outcome.mapError .fault) ∧
    ∀ fuel more, fuel ≤ more → Parser.Settled fuel more := by
  have ended := Stream.ended_ofSource source
  have enough := Parser.enough_allowance (Stream.ofSource source)
  obtain ⟨-, finite⟩ := Parser.settles_document (Nat.le_refl _) enough ended
  obtain ⟨outcome, parsed⟩ := Parser.exists_outcome finite
  refine ⟨⟨outcome, parsed, ?_⟩, fun fuel more => Parser.settled⟩
  intro calls larger
  obtain ⟨same, -⟩ := Parser.settles_document larger enough ended
  rw [← same, parsed]

end Dialogue
