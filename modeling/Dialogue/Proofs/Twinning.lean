import Dialogue.Document.Parser
import Dialogue.Proofs.Consumption

/-! Streams that are read alike. Tokens may stand at other places in one stream than in the other,
and one may have a line break more before the end: the parsers take no notice of the first, and of
the second only where a statement is already complete. -/
namespace Dialogue

namespace Token.Kind

/-- The kinds after which the end of a line is looked for. -/
def endsLine : Kind → Bool
  | braceClose | divert | divertParent => true
  | _ => false

/-- The kinds that close what is open. -/
def closes : Kind → Bool
  | dedent | eof => true
  | _ => false

theorem contains_lineBreak_of_closes {kind : Kind} (closes : kind.closes) :
    [lineBreak].contains kind = false := by
  cases kind <;> trivial

end Token.Kind

/-- What reading can stop for at a token: the token may stand where it does not belong, or it may
write no number. -/
inductive Token.Refused (token : Token) : ParseError.Cause → Prop
  | unexpected (expected : List Token.Kind) :
      Refused token (.unexpectedToken token.kind expected)
  | unreadable (kind : token.kind = .number) (bad : Number.read? token.value.toList = none) :
      Refused token (.unreadableNumber token.value)

theorem Operator.endsLine_of_binary? {kind : Token.Kind} {entry : Operator × Nat × Bool}
    (found : Operator.binary? kind = some entry) : kind.endsLine = false := by
  cases ends : kind.endsLine with
  | false => rfl
  | true => cases kind <;> cases ends <;> cases found

/-- A relation between streams, for tokens and failures that correspond. -/
structure Twinning where
  Level : Stream → Stream → Prop
  Halts : Halt → Halt → Prop

namespace Twinning

/-- Whether two tokens write the same, and a fault at the one corresponds to that at the other. -/
structure Alike (w : Twinning) (a b : Token) : Prop where
  kind : b.kind = a.kind
  value : b.value = a.value
  fault : ∀ cause, a.Refused cause → w.Halts (.fault (.located cause a.line a.column))
    (.fault (.located cause b.line b.column))

/-- Whether streams correspond once a line break is taken that stands in front of the second, while
the first closes what is open. Failures need not correspond then. -/
structure Broken (w : Twinning) (s t : Stream) : Prop where
  level : w.Level s t.drop
  closes : ∃ kind, s.Ahead kind ∧ kind.closes
  breaks : t.Ahead .lineBreak
  halts : ∀ h k, w.Halts h k

def Either (w : Twinning) (s t : Stream) : Prop := w.Level s t ∨ w.Broken s t

/-- Corresponding streams have corresponding tokens in front and correspond without them, unless a
line break comes up after a token that may end a line. -/
structure Lawful (w : Twinning) : Prop where
  exhausted : w.Halts .exhausted .exhausted
  peek : ∀ {s t}, w.Level s t →
    (∃ a b, s.peek = .ok a ∧ t.peek = .ok b ∧ w.Alike a b) ∨
    ∃ e f, s.peek = .error e ∧ t.peek = .error f ∧ w.Halts (.fault e) (.fault f)
  drop : ∀ {s t a}, w.Level s t → s.peek = .ok a →
    w.Level s.drop t.drop ∨ a.kind.endsLine ∧ w.Broken s.drop t.drop

/-- Whether two parsers come to the same, or both fail. -/
inductive Agree (w : Twinning) (Post : Stream → Stream → Prop) {α : Type} :
    Except Halt (α × Stream) → Except Halt (α × Stream) → Prop
  | ok (a : α) {s t : Stream} (rest : Post s t) : Agree w Post (.ok (a, s)) (.ok (a, t))
  | error {h k : Halt} (halts : w.Halts h k) : Agree w Post (.error h) (.error k)

/-- Whether two parsers come to the same wherever streams are related. -/
def Respects (w : Twinning) (Pre Post : Stream → Stream → Prop) {α : Type} (p q : Parser α) :
    Prop := ∀ s t, Pre s t → w.Agree Post (p s) (q t)

end Twinning

namespace Parser

theorem peek_of_ok {s : Stream} {token : Token} (peeked : s.peek = .ok token) :
    peek s = .ok (token, s) := by
  simp only [peek, peeked]

theorem peek_of_error {s : Stream} {error : ParseError} (peeked : s.peek = .error error) :
    peek s = .error (.fault error) := by
  simp only [peek, peeked]

theorem unexpected_fails {α : Type} {s : Stream} {kind : Token.Kind} {kinds : List Token.Kind}
    (ahead : s.Ahead kind) : ∃ halt, (unexpected kinds : Parser α) s = .error halt := by
  obtain ⟨token, peeked, -⟩ := ahead
  rw [unexpected, bind_of_ok (peek_of_ok peeked)]
  exact ⟨_, rfl⟩

end Parser

namespace Twinning

variable {w : Twinning} {Pre Mid Post : Stream → Stream → Prop} {α β : Type} {p q : Parser α}
  {f g : α → Parser β} {kinds : List Token.Kind} {s t : Stream}

theorem Broken.peek (broken : w.Broken s t) :
    (∃ a, s.peek = .ok a ∧ a.kind.closes) ∧ ∃ b, t.peek = .ok b ∧ b.kind = .lineBreak := by
  obtain ⟨kind, ⟨a, peeked, rfl⟩, closes⟩ := broken.closes
  exact ⟨⟨a, peeked, closes⟩, broken.breaks⟩

namespace Respects

theorem pure {a : α} (weaker : ∀ s t, Pre s t → Post s t) :
    w.Respects Pre Post (Pure.pure a : Parser α) (Pure.pure a) :=
  fun s t held => .ok a (weaker s t held)

theorem keep {a : α} : w.Respects Post Post (Pure.pure a : Parser α) (Pure.pure a) :=
  pure fun _ _ held => held

theorem exhausted (lawful : w.Lawful) :
    w.Respects Pre Post (Parser.exhausted : Parser α) Parser.exhausted :=
  fun _ _ _ => .error lawful.exhausted

theorem bind (first : w.Respects Pre Mid p q) (second : ∀ a, w.Respects Mid Post (f a) (g a)) :
    w.Respects Pre Post (p >>= f) (q >>= g) := by
  intro s t held
  have ran := first s t held
  generalize left : p s = x at ran
  generalize right : q t = y at ran
  cases ran with
  | ok a rest =>
      rw [Parser.bind_of_ok left, Parser.bind_of_ok right]
      exact second a _ _ rest
  | error halts =>
      rw [Parser.bind_of_error left, Parser.bind_of_error right]
      exact .error halts

theorem map {h : α → β} (respects : w.Respects Pre Post p q) :
    w.Respects Pre Post (h <$> p) (h <$> q) := by
  rw [← bind_pure_comp, ← bind_pure_comp]
  exact respects.bind fun a => keep

theorem either (level : w.Respects w.Level Post p q)
    (broken : ∀ s t, w.Broken s t → w.Agree Post (p s) (q t)) :
    w.Respects w.Either Post p q := by
  rintro s t (held | held)
  · exact level s t held
  · exact broken s t held

theorem level (respects : w.Respects w.Either Post p q) : w.Respects w.Level Post p q :=
  fun s t held => respects s t (.inl held)

theorem peek (lawful : w.Lawful) {f g : Token → Parser β}
    (each : ∀ a b s t, w.Level s t → s.peek = .ok a → t.peek = .ok b → w.Alike a b →
      w.Agree Post (f a s) (g b t)) :
    w.Respects w.Level Post (Parser.peek >>= f) (Parser.peek >>= g) := by
  intro s t level
  obtain ⟨a, b, left, right, alike⟩ | ⟨e, e', left, right, halts⟩ := lawful.peek level
  · rw [Parser.bind_of_ok (Parser.peek_of_ok left), Parser.bind_of_ok (Parser.peek_of_ok right)]
    exact each a b s t level left right alike
  · rw [Parser.bind_of_error (Parser.peek_of_error left),
      Parser.bind_of_error (Parser.peek_of_error right)]
    exact .error halts

theorem kind (lawful : w.Lawful) {f g : Token.Kind → Parser β}
    (each : ∀ kind, w.Respects w.Level Post (f kind) (g kind)) :
    w.Respects w.Level Post (Parser.kind >>= f) (Parser.kind >>= g) := by
  simp only [Parser.kind, bind_map_left]
  refine peek lawful fun a b s t level left right alike => ?_
  rw [alike.kind]
  exact each a.kind s t level

theorem next (lawful : w.Lawful) {f g : Bool → Parser β}
    (each : ∀ found, w.Respects w.Level Post (f found) (g found)) :
    w.Respects w.Level Post (Parser.next kinds >>= f) (Parser.next kinds >>= g) := by
  simp only [Parser.next, bind_assoc, pure_bind]
  exact kind lawful fun kind => each (kinds.contains kind)

theorem unexpected (lawful : w.Lawful) :
    w.Respects w.Level Post (Parser.unexpected kinds : Parser α) (Parser.unexpected kinds) := by
  rw [Parser.unexpected]
  refine peek lawful fun a b s t level left right alike => ?_
  rw [alike.kind]
  exact .error (alike.fault _ (.unexpected kinds))

/-- A token is taken from both streams, and a line break may come up if the token ends a line. -/
theorem expect_of_drop (lawful : w.Lawful) {f g : Token → Parser β}
    (drop : ∀ {s t a}, w.Level s t → s.peek = .ok a → a.kind ∈ kinds → Mid s.drop t.drop)
    (each : ∀ a b, a.kind ∈ kinds → w.Alike a b → w.Respects Mid Post (f a) (g b)) :
    w.Respects w.Level Post (Parser.expect kinds >>= f) (Parser.expect kinds >>= g) := by
  simp only [Parser.expect, bind_assoc]
  refine peek lawful fun a b s t level left right alike => ?_
  rw [alike.kind]
  by_cases listed : kinds.contains a.kind = true
  · rw [if_pos listed, if_pos listed]
    have listed : a.kind ∈ kinds := by simpa using listed
    exact each a b listed alike s.drop t.drop (drop level left listed)
  · rw [if_neg listed, if_neg listed]
    have refused : w.Respects w.Level (fun _ _ => False) (Parser.unexpected kinds : Parser Token)
        (Parser.unexpected kinds) := unexpected lawful
    exact refused.bind (fun _ _ _ => False.elim) s t level

theorem expect_listed (lawful : w.Lawful) {f g : Token → Parser β}
    (inside : ∀ kind ∈ kinds, kind.endsLine = false)
    (each : ∀ a b, a.kind ∈ kinds → w.Alike a b → w.Respects w.Level Post (f a) (g b)) :
    w.Respects w.Level Post (Parser.expect kinds >>= f) (Parser.expect kinds >>= g) := by
  refine expect_of_drop lawful (fun level peeked listed => ?_) each
  obtain next | ⟨ends, -⟩ := lawful.drop level peeked
  · exact next
  · rw [inside _ listed] at ends
    cases ends

theorem expect (lawful : w.Lawful) {f g : Token → Parser β}
    (inside : ∀ kind ∈ kinds, kind.endsLine = false)
    (each : ∀ a b, w.Alike a b → w.Respects w.Level Post (f a) (g b)) :
    w.Respects w.Level Post (Parser.expect kinds >>= f) (Parser.expect kinds >>= g) :=
  expect_listed lawful inside fun a b _ => each a b

theorem expect_either (lawful : w.Lawful) {f g : Token → Parser β}
    (each : ∀ a b, w.Alike a b → w.Respects w.Either Post (f a) (g b)) :
    w.Respects w.Level Post (Parser.expect kinds >>= f) (Parser.expect kinds >>= g) :=
  expect_of_drop lawful (fun level peeked _ => (lawful.drop level peeked).imp_right And.right)
    fun a b _ => each a b

theorem skip (lawful : w.Lawful) {wanted : Token.Kind} {f g : Unit → Parser β}
    (inside : wanted.endsLine = false) (each : w.Respects w.Level Post (f ()) (g ())) :
    w.Respects w.Level Post (Parser.skip wanted >>= f) (Parser.skip wanted >>= g) := by
  simp only [Parser.skip, bind_assoc]
  refine next lawful fun found => ?_
  cases found with
  | true =>
      rw [if_pos rfl, bind_assoc, bind_assoc]
      refine expect lawful (fun kind listed => ?_) fun a b alike => each
      exact List.mem_singleton.1 listed ▸ inside
  | false => exact each

/-- A parser that fails before anything that closes, and before a line break. -/
theorem fails (level : w.Respects w.Level Post p q)
    (closing : ∀ {s : Stream} {kind}, s.Ahead kind → kind.closes → ∃ halt, p s = .error halt)
    (breaking : ∀ {t : Stream}, t.Ahead .lineBreak → ∃ halt, q t = .error halt) :
    w.Respects w.Either Post p q := by
  refine level.either fun s t broken => ?_
  obtain ⟨kind, ahead, closes⟩ := broken.closes
  obtain ⟨h, left⟩ := closing ahead closes
  obtain ⟨k, right⟩ := breaking broken.breaks
  rw [left, right]
  exact .error (broken.halts h k)

end Respects

/-- Whether a parser keeps streams related. -/
def Keeps (w : Twinning) (p : Parser α) : Prop := w.Respects w.Level w.Level p p

open Dialogue.Parser Respects

theorem keeps_number {a b : Token} (alike : w.Alike a b) (kind : a.kind = .number) :
    w.Respects w.Level w.Level (number a) (number b) := by
  rw [number, number, alike.value]
  split
  · exact keep
  · next bad => exact fun _ _ _ => .error (alike.fault _ (.unreadable kind bad))

theorem keeps_eventName (lawful : w.Lawful) : w.Keeps eventName := by
  refine expect lawful (by decide) fun a b alike => ?_
  rw [alike.value]
  exact keep

theorem keeps_commaList (lawful : w.Lawful) {item : Parser α} (each : w.Keeps item) (fuel : Nat) :
    w.Keeps (commaList item fuel) := by
  induction fuel with
  | zero => exact exhausted lawful
  | succ fuel ih =>
      rw [Keeps, commaList]
      refine .next lawful fun found => ?_
      cases found with
      | true =>
          refine expect lawful (by decide) fun a b alike => ?_
          exact each.bind fun first => ih.bind fun rest => keep
      | false => exact keep

theorem keeps_variationMode (lawful : w.Lawful) : w.Keeps variationMode := by
  refine .next lawful fun found => ?_
  cases found with
  | true =>
      refine expect lawful (by decide) fun a b alike => ?_
      rw [alike.value]
      exact keep
  | false => exact keep

theorem keeps_dedents (lawful : w.Lawful) (count : Nat) : w.Keeps (dedents count) := by
  induction count with
  | zero => exact keep
  | succ count ih =>
      rw [Keeps, dedents]
      refine .next lawful fun found => ?_
      cases found with
      | true => exact expect lawful (by decide) fun a b alike => ih
      | false => exact keep

/-- What every function does, with an allowance of calls: it comes to the same on streams that
correspond. Where a guard or a divert may have ended the line, the line break that only one stream
has is taken as well. -/
structure Uniform (w : Twinning) (fuel : Nat) : Prop where
  expression : ∀ least, w.Keeps (expression fuel least)
  operators : ∀ least left, w.Keeps (operators fuel least left)
  operand : w.Keeps (operand fuel)
  assigned : ∀ name update, w.Keeps (assigned fuel name update)
  guards : w.Respects w.Either w.Either (guards fuel) (guards fuel)
  marked : ∀ marks, w.Keeps (marked fuel marks)
  continued : ∀ caption, w.Keeps (continued fuel caption)
  lines : w.Keeps (lines fuel)
  body : w.Keeps (body fuel)
  indented : w.Keeps (indented fuel)
  lineStatement : w.Keeps (lineStatement fuel)
  headedList : ∀ name marks, w.Keeps (headedList fuel name marks)
  optionsStart : w.Keeps (optionsStart fuel)
  optionList : ∀ name marks first, w.Keeps (optionList fuel name marks first)
  optionItems : w.Keeps (optionItems fuel)
  option : w.Keeps (option fuel)
  variations : w.Keeps (variations fuel)
  alternatives : ∀ depth, w.Keeps (alternatives fuel depth)
  governed : ∀ guard, w.Respects w.Either w.Level (governed fuel guard) (governed fuel guard)
  governedTarget : ∀ guard, w.Keeps (governedTarget fuel guard)
  blocks : w.Keeps (blocks fuel)

namespace Uniform

variable {fuel : Nat}

theorem expression_succ (holds : w.Uniform fuel) (least : Nat) :
    w.Keeps (Parser.expression (fuel + 1) least) := by
  rw [Keeps, Parser.expression]
  exact holds.operand.bind fun left => holds.operators least left

theorem operators_succ (lawful : w.Lawful) (holds : w.Uniform fuel) (least : Nat) (left : Expr) :
    w.Keeps (Parser.operators (fuel + 1) least left) := by
  rw [Keeps, Parser.operators]
  refine .kind lawful fun kind => ?_
  split
  · exact keep
  · next op precedence groupsRight found =>
      split
      · exact keep
      · have inside : ∀ other ∈ [kind], other.endsLine = false := fun other listed =>
          List.mem_singleton.1 listed ▸ Operator.endsLine_of_binary? found
        refine expect lawful inside fun a b alike => ?_
        exact (holds.expression _).bind fun right => holds.operators least _

theorem operand_succ (lawful : w.Lawful) (holds : w.Uniform fuel) :
    w.Keeps (Parser.operand (fuel + 1)) := by
  rw [Keeps, Parser.operand]
  refine expect lawful (by decide) fun a b alike => ?_
  rw [alike.kind, alike.value]
  split
  · exact holds.operand.bind fun inner => keep
  · refine expect_listed lawful (by decide) fun c d listed alike => ?_
    exact (keeps_number alike (List.mem_singleton.1 listed)).bind fun x => keep
  · refine (holds.expression 0).bind fun inner => ?_
    exact expect lawful (by decide) fun c d alike => keep
  · next kind => exact (keeps_number alike kind).bind fun x => keep
  · exact keep
  · exact keep
  · exact keep
  · exact keep

theorem assigned_succ (lawful : w.Lawful) (holds : w.Uniform fuel) (name : String)
    (update : Update) : w.Keeps (Parser.assigned (fuel + 1) name update) := by
  rw [Keeps, Parser.assigned]
  refine (holds.expression 0).bind fun value => ?_
  split
  · refine .next lawful fun found => ?_
    cases found with
    | true =>
        refine expect lawful (by decide) fun a b alike => ?_
        rw [alike.kind]
        exact (holds.assigned _ _).bind fun next => keep
    | false => exact keep
  · exact keep

theorem assignment (lawful : w.Lawful) (holds : w.Uniform fuel) :
    w.Keeps (Parser.assignment fuel) := by
  refine expect lawful (by decide) fun a b named => ?_
  refine expect lawful (by decide) fun c d signed => ?_
  rw [named.value, signed.kind]
  exact holds.assigned _ _

theorem assignments (lawful : w.Lawful) (holds : w.Uniform fuel) :
    w.Keeps (Parser.assignments fuel) := by
  have each := holds.assignment lawful
  refine expect lawful (by decide) fun a b alike => ?_
  exact each.bind fun first => (keeps_commaList lawful each fuel).bind fun rest => keep

theorem events (lawful : w.Lawful) (fuel : Nat) : w.Keeps (Parser.events fuel) := by
  have each := keeps_eventName lawful
  refine expect lawful (by decide) fun a b alike => ?_
  exact each.bind fun first => (keeps_commaList lawful each fuel).bind fun rest => keep

/-- A guard may end a line. -/
theorem guard (lawful : w.Lawful) (holds : w.Uniform fuel) :
    w.Respects w.Level w.Either (Parser.guard fuel) (Parser.guard fuel) := by
  have closed : ∀ {p : Parser Guard}, w.Keeps p →
      w.Respects w.Level w.Either
        (p >>= fun inside => Parser.expect [.braceClose] >>= fun _ => Pure.pure inside)
        (p >>= fun inside => Parser.expect [.braceClose] >>= fun _ => Pure.pure inside) := by
    intro p inside
    exact inside.bind fun inside => expect_either lawful fun a b alike => keep
  rw [Parser.guard]
  refine expect lawful (by decide) fun a b alike => ?_
  refine .kind lawful fun kind => ?_
  split
  · exact closed (holds.assignments lawful).map.map
  · exact closed (events lawful fuel).map.map
  · exact .skip lawful rfl (closed (holds.expression 0).map)

theorem guards_succ (lawful : w.Lawful) (holds : w.Uniform fuel) :
    w.Respects w.Either w.Either (Parser.guards (fuel + 1)) (Parser.guards (fuel + 1)) := by
  rw [Parser.guards]
  refine either ?_ fun s t broken => ?_
  · refine .next lawful fun found => ?_
    cases found with
    | true =>
        exact (holds.guard lawful).bind fun first => holds.guards.bind fun rest => keep
    | false => exact pure fun _ _ => .inl
  · obtain ⟨kind, ahead, closes⟩ := broken.closes
    have left : [Token.Kind.braceOpen].contains kind = false := by cases kind <;> trivial
    rw [bind_of_ok (next_of_ahead ahead), bind_of_ok (next_of_ahead broken.breaks), left]
    exact .ok [] (.inr broken)

/-- The line break is taken from both streams, or from the one that has it. -/
theorem trailing (lawful : w.Lawful) (holds : w.Uniform fuel) :
    w.Respects w.Either w.Level (Parser.trailing fuel) (Parser.trailing fuel) := by
  rw [Parser.trailing]
  refine holds.guards.bind fun all => either (.skip lawful rfl keep) fun s t broken => ?_
  obtain ⟨⟨a, left, closes⟩, b, right, breaks⟩ := broken.peek
  have stays : Parser.skip .lineBreak s = .ok ((), s) := by
    rw [Parser.skip, bind_of_ok (next_of_ahead ⟨a, left, rfl⟩)]
    rw [Token.Kind.contains_lineBreak_of_closes closes]
    rfl
  have taken : Parser.skip .lineBreak t = .ok ((), t.drop) := by
    rw [Parser.skip, bind_of_ok (next_of_ahead broken.breaks)]
    exact bind_of_ok (expect_of_mem right (by simp [breaks])) _
  rw [bind_of_ok stays, bind_of_ok taken]
  exact .ok all broken.level

theorem marked_succ (lawful : w.Lawful) (holds : w.Uniform fuel) (marks : Marks) :
    w.Keeps (Parser.marked (fuel + 1) marks) := by
  rw [Keeps, Parser.marked]
  refine .next lawful fun found => ?_
  cases found with
  | true =>
      refine expect lawful (by decide) fun a b alike => ?_
      rw [alike.kind, alike.value]
      split
      · exact holds.marked _
      · exact holds.marked _
  | false => exact keep

theorem caption (lawful : w.Lawful) (holds : w.Uniform fuel) : w.Keeps (Parser.caption fuel) := by
  have spoken : ∀ speaker : Option String, w.Keeps (do
      let text ← Parser.expect [.text]
      return ⟨text.value, ← Parser.marked fuel { speaker := speaker }⟩ : Parser Caption) := by
    intro speaker
    refine expect lawful (by decide) fun a b alike => ?_
    rw [alike.value]
    exact (holds.marked _).bind fun marks => keep
  rw [Keeps, Parser.caption]
  refine .next lawful fun found => ?_
  cases found with
  | true =>
      refine expect lawful (by decide) fun a b alike => ?_
      rw [alike.value, pure_bind]
      exact spoken (some a.value)
  | false => exact spoken none

theorem continued_succ (lawful : w.Lawful) (holds : w.Uniform fuel) (caption : Caption) :
    w.Keeps (Parser.continued (fuel + 1) caption) := by
  rw [Keeps, Parser.continued]
  refine .next lawful fun found => ?_
  cases found with
  | true =>
      refine expect lawful (by decide) fun a b alike => ?_
      rw [alike.value]
      exact (holds.marked _).bind fun marks => holds.continued _
  | false => exact keep

theorem divert (lawful : w.Lawful) (holds : w.Uniform fuel) : w.Keeps (Parser.divert fuel) := by
  refine expect_either lawful fun a b alike => ?_
  rw [alike.kind, alike.value]
  exact (holds.trailing lawful).bind fun guards => keep

theorem label (lawful : w.Lawful) (holds : w.Uniform fuel) :
    w.Respects w.Either w.Level (Parser.label fuel) (Parser.label fuel) := by
  refine fails ?_ (fun {s kind} ahead closes => ?_) fun {t} breaks => ?_
  · refine .kind lawful fun kind => ?_
    split
    · refine expect lawful (by decide) fun a b alike => ?_
      refine (holds.caption lawful).bind fun inside => ?_
      refine expect lawful (by decide) fun a b alike => ?_
      refine (holds.marked _).bind fun marks => ?_
      refine .next lawful fun found => ?_
      cases found with
      | true =>
          refine expect lawful (by decide) fun a b alike => ?_
          rw [alike.value]
          exact (holds.marked _).bind fun shown => keep
      | false => exact keep
    · exact (holds.caption lawful).bind fun inside => keep
    · exact (holds.caption lawful).bind fun inside => keep
    · exact unexpected lawful
  · rw [Parser.label, bind_of_ok (kind_eq_ok_iff.2 ⟨ahead, rfl⟩)]
    cases kind <;> cases closes <;> exact unexpected_fails ahead
  · rw [Parser.label, bind_of_ok (kind_eq_ok_iff.2 ⟨breaks, rfl⟩)]
    exact unexpected_fails breaks

theorem lines_succ (lawful : w.Lawful) (holds : w.Uniform fuel) :
    w.Keeps (Parser.lines (fuel + 1)) := by
  rw [Keeps, Parser.lines]
  have followed : ∀ {α : Type} {p : Parser α} {h : α → List Node → List Node}, w.Keeps p →
      w.Keeps (p >>= fun a => Parser.lines fuel >>= fun others => Pure.pure (h a others)) :=
    fun first => first.bind fun a => holds.lines.bind fun others => keep
  refine .kind lawful fun kind => ?_
  split
  · exact followed holds.lineStatement
  · exact followed holds.lineStatement
  · exact followed (holds.optionList none {} [])
  · exact followed (holds.optionList none {} [])
  · exact followed (holds.optionList none {} [])
  · exact followed holds.optionsStart
  · exact followed (holds.divert lawful)
  · exact followed (holds.divert lawful)
  · exact followed holds.variations
  · refine (holds.guard lawful).bind fun guard => (holds.governed guard).bind fun result => ?_
    split
    · exact holds.lines.bind fun others => keep
    · exact followed (holds.optionList none {} _)
  · exact expect lawful (by decide) fun a b alike => holds.lines
  · exact keep

theorem body_succ (lawful : w.Lawful) (holds : w.Uniform fuel) :
    w.Keeps (Parser.body (fuel + 1)) := by
  rw [Keeps, Parser.body]
  refine .next lawful fun found => ?_
  cases found with
  | true => exact holds.indented
  | false => exact holds.lines

theorem indented_succ (lawful : w.Lawful) (holds : w.Uniform fuel) :
    w.Keeps (Parser.indented (fuel + 1)) := by
  rw [Keeps, Parser.indented]
  refine expect lawful (by decide) fun a b alike => holds.lines.bind fun nodes => ?_
  exact expect lawful (by decide) fun a b alike => keep

theorem lineStatement_succ (lawful : w.Lawful) (holds : w.Uniform fuel) :
    w.Keeps (Parser.lineStatement (fuel + 1)) := by
  rw [Keeps, Parser.lineStatement]
  refine (holds.caption lawful).bind fun first => ?_
  refine (holds.trailing lawful).level.bind fun guards => ?_
  refine .next lawful fun found => ?_
  cases found with
  | true =>
      refine expect lawful (by decide) fun a b alike => ?_
      refine .next lawful fun found => ?_
      cases found with
      | true => exact (holds.headedList _ _).bind fun list => keep
      | false =>
          refine (holds.continued first).bind fun whole => ?_
          exact expect lawful (by decide) fun a b alike => keep
  | false => exact keep

theorem headedList_succ (lawful : w.Lawful) (holds : w.Uniform fuel) (name : Option String)
    (marks : Marks) : w.Keeps (Parser.headedList (fuel + 1) name marks) := by
  rw [Keeps, Parser.headedList]
  refine (holds.optionList name marks []).bind fun list => ?_
  have closed : ∀ rest : List Node, w.Keeps (do
      let _ ← Parser.expect [.dedent]
      return (list.1, list.2 ++ rest)) :=
    fun rest => expect lawful (by decide) fun a b alike => keep
  refine .next lawful fun found => ?_
  cases found with
  | true => exact closed []
  | false => exact holds.lines.bind closed

theorem optionsStart_succ (lawful : w.Lawful) (holds : w.Uniform fuel) :
    w.Keeps (Parser.optionsStart (fuel + 1)) := by
  have started : ∀ (name : Option String) (marks : Marks), w.Keeps (do
      Parser.skip .lineBreak
      if ← Parser.next [.indent] then
        let _ ← Parser.expect [.indent]
        let list ← Parser.headedList fuel name marks
        return list.1 :: list.2
      else
        let list ← Parser.optionList fuel name marks []
        return list.1 :: list.2) := by
    intro name marks
    refine .skip lawful rfl (.next lawful fun found => ?_)
    cases found with
    | true =>
        refine expect lawful (by decide) fun a b alike => ?_
        exact (holds.headedList name marks).bind fun list => keep
    | false => exact (holds.optionList name marks []).bind fun list => keep
  rw [Keeps, Parser.optionsStart]
  refine expect lawful (by decide) fun a b alike => ?_
  refine .next lawful fun found => ?_
  cases found with
  | true => exact (holds.caption lawful).bind fun header => started _ _
  | false => exact started none {}

theorem optionList_succ (lawful : w.Lawful) (holds : w.Uniform fuel) (name : Option String)
    (marks : Marks) (first : List Node) :
    w.Keeps (Parser.optionList (fuel + 1) name marks first) := by
  rw [Keeps, Parser.optionList]
  have items : w.Keeps (Parser.optionItems fuel >>= fun result =>
      Pure.pure (Node.options name marks (first ++ result.1), result.2)) :=
    holds.optionItems.bind fun result => keep
  split
  · refine .next lawful fun found => ?_
    cases found with
    | true => exact items
    | false =>
        have refused : w.Keeps (Parser.unexpected (optionKinds ++ [.braceOpen]) : Parser Unit) :=
          unexpected lawful
        exact refused.bind fun _ => items
  · exact items

theorem optionItems_succ (lawful : w.Lawful) (holds : w.Uniform fuel) :
    w.Keeps (Parser.optionItems (fuel + 1)) := by
  rw [Keeps, Parser.optionItems]
  have item : w.Keeps (Parser.option fuel >>= fun item => Parser.optionItems fuel >>= fun result =>
      Pure.pure (item :: result.1, result.2)) :=
    holds.option.bind fun item => holds.optionItems.bind fun result => keep
  refine .kind lawful fun kind => ?_
  split
  · exact item
  · exact item
  · exact item
  · refine (holds.guard lawful).bind fun guard => (holds.governed guard).bind fun result => ?_
    split
    · exact holds.optionItems.bind fun result => keep
    · exact keep
  · exact expect lawful (by decide) fun a b alike => holds.optionItems
  · exact keep

theorem option_succ (lawful : w.Lawful) (holds : w.Uniform fuel) :
    w.Keeps (Parser.option (fuel + 1)) := by
  rw [Keeps, Parser.option]
  refine expect lawful (by decide) fun a b alike => ?_
  rw [alike.kind]
  refine holds.guards.level.bind fun before => (holds.label lawful).bind fun label => ?_
  refine (holds.trailing lawful).level.bind fun after => ?_
  have nested : ∀ {h : List Node → Node}, w.Keeps (do
      let nested ← if ← Parser.next [.indent] then Parser.indented fuel else Pure.pure []
      return h nested) := by
    intro h
    refine .next lawful fun found => ?_
    cases found with
    | true => exact holds.indented.bind fun nodes => keep
    | false => exact keep
  refine .next lawful fun found => ?_
  cases found with
  | true => exact (holds.divert lawful).bind fun node => nested
  | false => exact nested

theorem variations_succ (lawful : w.Lawful) (holds : w.Uniform fuel) :
    w.Keeps (Parser.variations (fuel + 1)) := by
  rw [Keeps, Parser.variations]
  refine expect lawful (by decide) fun a b alike => ?_
  refine (keeps_variationMode lawful).bind fun mode => ?_
  refine (holds.alternatives 0).bind fun result => ?_
  exact (keeps_dedents lawful result.2).bind fun _ => keep

theorem alternatives_succ (lawful : w.Lawful) (holds : w.Uniform fuel) (depth : Nat) :
    w.Keeps (Parser.alternatives (fuel + 1) depth) := by
  rw [Keeps, Parser.alternatives]
  refine expect lawful (by decide) fun a b alike => ?_
  rw [alike.kind]
  split
  · exact holds.alternatives _
  · exact holds.alternatives _
  · exact holds.body.bind fun nodes => (holds.alternatives depth).bind fun rest => keep
  · exact keep
  · exact holds.alternatives depth

theorem governedTarget_succ (lawful : w.Lawful) (holds : w.Uniform fuel) (guard : Guard) :
    w.Keeps (Parser.governedTarget (fuel + 1) guard) := by
  rw [Keeps, Parser.governedTarget]
  refine .kind lawful fun kind => ?_
  split
  · exact holds.option.bind fun node => keep
  · exact holds.option.bind fun node => keep
  · exact holds.option.bind fun node => keep
  · refine (holds.guard lawful).bind fun second => ?_
    exact (holds.governed second).bind fun result => keep
  · exact holds.lineStatement.bind fun nodes => keep
  · exact holds.lineStatement.bind fun nodes => keep
  · exact (holds.divert lawful).bind fun node => keep
  · exact (holds.divert lawful).bind fun node => keep
  · exact holds.variations.bind fun node => keep
  · exact holds.optionsStart.bind fun nodes => keep
  · exact unexpected lawful

/-- A condition governs nothing where what is open is closed. -/
theorem governedTarget_fails {fuel : Nat} {guard : Guard} {s : Stream} {kind : Token.Kind}
    (ahead : s.Ahead kind) (closes : kind.closes) :
    ∃ halt, Parser.governedTarget fuel guard s = .error halt := by
  cases fuel with
  | zero => exact ⟨_, rfl⟩
  | succ fuel =>
      rw [Parser.governedTarget, bind_of_ok (kind_eq_ok_iff.2 ⟨ahead, rfl⟩)]
      cases kind <;> cases closes <;> exact unexpected_fails ahead

theorem governed_fails (fuel : Nat) (condition : Expr) {s : Stream} {kind : Token.Kind}
    (ahead : s.Ahead kind) (closes : kind.closes) :
    ∃ halt, Parser.governed fuel (.condition condition) s = .error halt := by
  cases fuel with
  | zero => exact ⟨_, rfl⟩
  | succ fuel =>
      rw [Parser.governed, bind_of_ok (next_of_ahead ahead),
        Token.Kind.contains_lineBreak_of_closes closes]
      exact governedTarget_fails ahead closes

/-- An action is complete at the end of a line and where what is open is closed. A condition is
complete at neither: the line break does not save it. -/
theorem governed_of_broken {fuel : Nat} (lawful : w.Lawful) (guard : Guard)
    (broken : w.Broken s t) :
    w.Agree w.Level (Parser.governed (fuel + 1) guard s) (Parser.governed (fuel + 1) guard t) := by
  obtain ⟨kind, ahead, closes⟩ := broken.closes
  obtain ⟨b, right, breaks⟩ := broken.breaks
  have taken : Parser.expect [.lineBreak] t = .ok (b, t.drop) :=
    expect_of_mem right (by simp [breaks])
  cases guard with
  | action action =>
      have ended : [Token.Kind.eof, .dedent].contains kind = true := by
        cases kind <;> cases closes <;> rfl
      rw [Parser.governed, bind_of_ok (next_of_ahead ahead),
        bind_of_ok (next_of_ahead broken.breaks), Token.Kind.contains_lineBreak_of_closes closes]
      simp only [Bool.false_eq_true, ↓reduceIte]
      rw [bind_of_ok (next_of_ahead ahead), ended]
      simp only [↓reduceIte, List.contains_cons, BEq.rfl, Bool.true_or]
      rw [bind_of_ok taken]
      exact .ok _ broken.level
  | condition condition =>
      obtain ⟨h, left⟩ := governed_fails (fuel + 1) condition ahead closes
      have after : t.drop.Ahead kind := by
        obtain ⟨a, peeked, rfl⟩ := ahead
        obtain ⟨a', c, same, dropped, alike⟩ | ⟨e, f, failed, -⟩ := lawful.peek broken.level
        · obtain rfl := Except.ok.inj (peeked.symm.trans same)
          exact ⟨c, dropped, alike.kind⟩
        · cases peeked.symm.trans failed
      have shallow : [Token.Kind.indent].contains kind = false := by cases kind <;> trivial
      obtain ⟨k, right⟩ := governed_fails fuel condition after closes
      rw [left, Parser.governed, bind_of_ok (next_of_ahead broken.breaks)]
      simp only [↓reduceIte, List.contains_cons, BEq.rfl, Bool.true_or]
      rw [bind_of_ok taken, bind_of_ok (next_of_ahead after), shallow]
      simp only [Bool.false_eq_true, ↓reduceIte]
      rw [right]
      exact .error (broken.halts h k)

theorem governed_succ (lawful : w.Lawful) (holds : w.Uniform fuel) (guard : Guard) :
    w.Respects w.Either w.Level (Parser.governed (fuel + 1) guard)
      (Parser.governed (fuel + 1) guard) := by
  refine either ?_ fun s t => governed_of_broken lawful guard
  cases guard with
  | action action =>
      rw [Parser.governed]
      refine .next lawful fun found => ?_
      cases found with
      | true => exact expect lawful (by decide) fun a b alike => keep
      | false =>
          refine .next lawful fun found => ?_
          cases found with
          | true => exact keep
          | false => exact holds.governedTarget _
  | condition condition =>
      rw [Parser.governed]
      refine .next lawful fun found => ?_
      cases found with
      | true =>
          refine expect lawful (by decide) fun a b alike => .next lawful fun found => ?_
          cases found with
          | true => exact holds.indented.bind fun nodes => keep
          | false => exact (holds.governed _).level
      | false => exact holds.governedTarget _

theorem blocks_succ (lawful : w.Lawful) (holds : w.Uniform fuel) :
    w.Keeps (Parser.blocks (fuel + 1)) := by
  rw [Keeps, Parser.blocks]
  refine .next lawful fun found => ?_
  cases found with
  | true =>
      refine expect lawful (by decide) fun a b alike => ?_
      rw [alike.value]
      exact holds.body.bind fun content => holds.blocks.bind fun others => keep
  | false => exact keep

end Uniform

theorem uniform (lawful : w.Lawful) (fuel : Nat) : w.Uniform fuel := by
  induction fuel with
  | zero =>
      have never : ∀ {α : Type} {Pre Post : Stream → Stream → Prop},
          w.Respects Pre Post (Parser.exhausted : Parser α) Parser.exhausted := exhausted lawful
      constructor
      all_goals
        intros
        exact never
  | succ fuel holds =>
      exact ⟨holds.expression_succ, holds.operators_succ lawful, holds.operand_succ lawful,
        holds.assigned_succ lawful, holds.guards_succ lawful, holds.marked_succ lawful,
        holds.continued_succ lawful, holds.lines_succ lawful, holds.body_succ lawful,
        holds.indented_succ lawful, holds.lineStatement_succ lawful, holds.headedList_succ lawful,
        holds.optionsStart_succ lawful, holds.optionList_succ lawful,
        holds.optionItems_succ lawful, holds.option_succ lawful, holds.variations_succ lawful,
        holds.alternatives_succ lawful, holds.governed_succ lawful,
        holds.governedTarget_succ lawful, holds.blocks_succ lawful⟩

/-- Corresponding streams write the same document, or none. -/
theorem keeps_document (lawful : w.Lawful) (fuel : Nat) : w.Keeps (document fuel) := by
  have holds := uniform lawful fuel
  have closed : ∀ content : List Node, w.Keeps (do
      let named ← blocks fuel
      if ← Parser.next [.eof] then return ⟨content, named⟩
      else Parser.unexpected (lineKinds ++ [.block, .eof]) : Parser Document) := by
    intro content
    refine holds.blocks.bind fun named => .next lawful fun found => ?_
    cases found with
    | true => exact keep
    | false => exact unexpected lawful
  refine .next lawful fun found => ?_
  cases found with
  | true => exact holds.lines.bind closed
  | false => exact closed []

end Twinning
end Dialogue
