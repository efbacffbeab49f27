import Dialogue.Proofs.Balance
import Dialogue.Proofs.Faults

/-! What is expected where reading stops. An error that names what could stand in the place of a
token does not name the token's own kind, unless a statement follows the deeper level of a block:
there the document has ended, but its error still lists what may begin a statement. -/
namespace Dialogue

/-- Whether what was found is none of the kinds that were expected. -/
def ParseError.Consistent (e : ParseError) : Prop :=
  ∀ found expected, e.cause = .unexpectedToken found expected → found ∉ expected

theorem ParseError.consistent_of_found? {e : ParseError} (silent : e.found? = none) :
    e.Consistent := by
  intro found expected cause
  simp [found?, cause] at silent

namespace Stream

/-- Whether a stream ends as it should: with the token that marks the end, or with a consistent
error. -/
structure Truthful (s : Stream) : Prop where
  ended : s.Ended
  consistent : ∀ e, s.last = .error e → e.Consistent

/-- Whether the next token is of none of some kinds. -/
def Shut (s : Stream) (kinds : List Token.Kind) : Prop := ∀ kind ∈ kinds, ¬ s.Ahead kind

variable {s : Stream} {kinds : List Token.Kind}

theorem truthful_ofSource (source : String) : (ofSource source).Truthful where
  ended := ended_ofSource source
  consistent _ failed := ParseError.consistent_of_found? (found?_of_last failed)

theorem Truthful.peek {e : ParseError} (truthful : s.Truthful) (failed : s.peek = .error e) :
    e.Consistent :=
  truthful.consistent e (LeftOf.last_of_peek ⟨rfl, List.suffix_rfl⟩ failed)

theorem Ahead.shut {kind : Token.Kind} (ahead : s.Ahead kind) (other : kind ∉ kinds) :
    s.Shut kinds := by
  intro listed member there
  exact other (ahead.unique there ▸ member)

end Stream

namespace Parser

variable {α β : Type} {s : Stream}

theorem bind_eq_error_iff {p : Parser α} {f : α → Parser β} {halt : Halt} :
    (p >>= f) s = .error halt ↔
      p s = .error halt ∨ ∃ a middle, p s = .ok (a, middle) ∧ f a middle = .error halt := by
  cases early : p s with
  | error other => simp [bind_of_error early]
  | ok pair =>
      rw [bind_of_ok early]
      constructor
      · exact fun late => .inr ⟨pair.1, pair.2, rfl, late⟩
      · rintro (failed | ⟨a, middle, same, late⟩)
        · cases failed
        · obtain rfl := Except.ok.inj same
          exact late

/-- Whether a parser at a stream fails for consistent reasons only. -/
def Candid (p : Parser α) (s : Stream) : Prop :=
  s.Truthful →
    (∀ a rest, p s = .ok (a, rest) → rest.Truthful) ∧
      ∀ e, p s = .error (.fault e) → e.Consistent

namespace Candid

variable {p : Parser α} {f : α → Parser β} {kinds : List Token.Kind}

theorem of_ok {a : α} {rest : Stream} (ran : p s = .ok (a, rest))
    (left : s.Truthful → rest.Truthful) : p.Candid s := by
  intro truthful
  constructor
  · intro b other again
    obtain ⟨-, rfl⟩ := Prod.mk.inj (Except.ok.inj (ran.symm.trans again))
    exact left truthful
  · intro e failed
    cases ran.symm.trans failed

theorem of_fault {e : ParseError} (ran : p s = .error (.fault e))
    (blame : s.Truthful → e.Consistent) : p.Candid s := by
  intro truthful
  constructor
  · intro a rest read
    cases ran.symm.trans read
  · intro other failed
    obtain rfl := Halt.fault.inj (Except.error.inj (ran.symm.trans failed))
    exact blame truthful

theorem pure {a : α} : (Pure.pure a : Parser α).Candid s := of_ok rfl id

theorem exhausted : (exhausted : Parser α).Candid s := by
  intro truthful
  constructor
  · intro a rest ran
    cases ran
  · intro e ran
    cases ran

theorem bind_of_run (first : p.Candid s)
    (second : ∀ a rest, s.Ended → p s = .ok (a, rest) → (f a).Candid rest) :
    (p >>= f).Candid s := by
  intro truthful
  obtain ⟨left, blame⟩ := first truthful
  constructor
  · intro b rest ran
    obtain ⟨a, middle, early, late⟩ := bind_eq_ok_iff.1 ran
    exact (second a middle truthful.ended early (left a middle early)).1 b rest late
  · intro e ran
    obtain failed | ⟨a, middle, early, late⟩ := bind_eq_error_iff.1 ran
    · exact blame e failed
    · exact (second a middle truthful.ended early (left a middle early)).2 e late

theorem bind (first : p.Candid s) (second : ∀ a rest, (f a).Candid rest) : (p >>= f).Candid s :=
  first.bind_of_run fun a rest _ _ => second a rest

/-- What the first parser gives may be used for the second. -/
theorem bind_of_yields {P : List Token → α → Stream → Prop} (first : p.Candid s)
    (yields : p.Yields s P) (second : ∀ used a rest, P used a rest → (f a).Candid rest) :
    (p >>= f).Candid s := by
  refine first.bind_of_run fun a rest ended ran => ?_
  obtain ⟨used, -, held⟩ := yields ended a rest ran
  exact second used a rest held

theorem map {g : α → β} (candid : p.Candid s) : (g <$> p).Candid s := by
  rw [← bind_pure_comp]
  exact candid.bind fun _ _ => pure

theorem peek {f : Token → Parser β}
    (each : ∀ token, s.peek = .ok token → (f token).Candid s) : (Parser.peek >>= f).Candid s := by
  cases peeked : s.peek with
  | error e =>
      exact of_fault (bind_of_error (peek_of_error peeked) f) fun truthful => truthful.peek peeked
  | ok token =>
      refine bind_of_run (of_ok (peek_of_ok peeked) id) fun found rest _ ran => ?_
      obtain ⟨rfl, rfl⟩ := Prod.mk.inj (Except.ok.inj ((peek_of_ok peeked).symm.trans ran))
      exact each token peeked

theorem kind {f : Token.Kind → Parser β} (each : ∀ kind, s.Ahead kind → (f kind).Candid s) :
    (Parser.kind >>= f).Candid s := by
  simp only [Parser.kind, bind_map_left]
  exact peek fun token peeked => each token.kind ⟨token, peeked, rfl⟩

theorem next {f : Bool → Parser β}
    (each : ∀ kind, s.Ahead kind → (f (kinds.contains kind)).Candid s) :
    (Parser.next kinds >>= f).Candid s := by
  simp only [Parser.next, bind_assoc, pure_bind]
  exact kind each

theorem unexpected (shut : s.Shut kinds) : (Parser.unexpected kinds : Parser α).Candid s := by
  rw [Parser.unexpected]
  refine peek fun token peeked => of_fault rfl fun _ found expected cause member => ?_
  obtain ⟨rfl, rfl⟩ := ParseError.Cause.unexpectedToken.inj cause
  exact shut _ member ⟨token, peeked, rfl⟩

theorem expect {f : Token → Parser β}
    (each : ∀ token rest, token.kind ∈ kinds → (f token).Candid rest) :
    (Parser.expect kinds >>= f).Candid s := by
  refine bind_of_run ?_ fun token rest _ ran => each token rest (expect_eq_ok_iff.1 ran).2.1
  rw [Parser.expect]
  refine peek fun token peeked => ?_
  split
  · exact of_ok rfl fun truthful => ⟨truthful.ended, truthful.consistent⟩
  · next other =>
      have ahead : s.Ahead token.kind := ⟨token, peeked, rfl⟩
      exact unexpected (ahead.shut (by simpa using other))

theorem skip {wanted : Token.Kind} {f : Unit → Parser β} (each : ∀ rest, (f ()).Candid rest) :
    (Parser.skip wanted >>= f).Candid s := by
  simp only [Parser.skip, bind_assoc]
  refine next fun kind ahead => ?_
  split
  · rw [bind_assoc]
    exact expect fun token rest listed => each rest
  · exact each s

end Candid

/-! No function fails for an inconsistent reason while it reads statements. -/

variable {fuel : Nat}

theorem candid_number (token : Token) : (number token).Candid s := by
  rw [number]
  split
  · exact .pure
  · exact .of_fault rfl fun _ found expected cause => by cases cause

theorem candid_eventName : eventName.Candid s := .expect fun _ _ _ => .pure

theorem candid_commaList {item : Parser α} (each : ∀ s, item.Candid s) :
    (commaList item fuel).Candid s := by
  induction fuel generalizing s with
  | zero => exact .exhausted
  | succ fuel ih =>
      rw [commaList]
      refine .next fun kind ahead => ?_
      split
      · refine .expect fun comma rest listed => ?_
        exact (each rest).bind fun first rest => ih.bind fun others rest => .pure
      · exact .pure

theorem candid_variationMode : variationMode.Candid s := by
  refine .next fun kind ahead => ?_
  split
  · exact .expect fun token rest listed => .pure
  · exact .pure

theorem candid_dedents (count : Nat) : (dedents count).Candid s := by
  induction count generalizing s with
  | zero => exact .pure
  | succ count ih =>
      rw [dedents]
      refine .next fun kind ahead => ?_
      split
      · exact .expect fun token rest listed => ih
      · exact .pure

/-- Guards are read as long as there are any. -/
theorem shut_guards : (guards fuel).Yields s fun _ _ rest => rest.Shut [.braceOpen] := by
  induction fuel generalizing s with
  | zero => exact .exhausted
  | succ fuel ih =>
      rw [guards]
      refine .next fun kind ahead => ?_
      split
      · refine yields_guard.bind fun used first rest derives => ?_
        exact ih.bind fun more others rest shut => .pure shut
      · next other => exact .pure (ahead.shut (by simpa using other))

/-- Where no guard is ahead, none is missed. -/
theorem candid_label (marked : ∀ s marks, (marked fuel marks).Candid s)
    (caption : ∀ s, (caption fuel).Candid s) (shut : s.Shut [.braceOpen]) :
    (label fuel).Candid s := by
  rw [label]
  refine .kind fun kind ahead => ?_
  split
  · refine .expect fun opening rest opens => (caption rest).bind fun inside rest => ?_
    refine .expect fun closing rest closes => (marked rest _).bind fun marks rest => ?_
    refine .next fun kind ahead => ?_
    split
    · exact .expect fun text rest listed => (marked rest _).bind fun shown rest => .pure
    · exact .pure
  · exact (caption s).bind fun inside rest => .pure
  · exact (caption s).bind fun inside rest => .pure
  · have other : kind ≠ .braceOpen := by
      rintro rfl
      exact shut _ List.mem_cons_self ahead
    exact .unexpected (ahead.shut (by simp_all))

/-- What every function does with an allowance of calls: it fails for consistent reasons only. -/
structure Candor (fuel : Nat) : Prop where
  expression : ∀ s least, (expression fuel least).Candid s
  operators : ∀ s least left, (operators fuel least left).Candid s
  operand : ∀ s, (operand fuel).Candid s
  assigned : ∀ s name update, (assigned fuel name update).Candid s
  guards : ∀ s, (guards fuel).Candid s
  marked : ∀ s marks, (marked fuel marks).Candid s
  continued : ∀ s caption, (continued fuel caption).Candid s
  lines : ∀ s, (lines fuel).Candid s
  body : ∀ s, (body fuel).Candid s
  indented : ∀ s, (indented fuel).Candid s
  lineStatement : ∀ s, (lineStatement fuel).Candid s
  headedList : ∀ s name marks, (headedList fuel name marks).Candid s
  optionsStart : ∀ s, (optionsStart fuel).Candid s
  optionList : ∀ s name marks first, (optionList fuel name marks first).Candid s
  optionItems : ∀ s, (optionItems fuel).Candid s
  option : ∀ s, (option fuel).Candid s
  variations : ∀ s, (variations fuel).Candid s
  alternatives : ∀ s depth, (alternatives fuel depth).Candid s
  governed : ∀ s guard, (governed fuel guard).Candid s
  governedTarget : ∀ s guard, (governedTarget fuel guard).Candid s
  blocks : ∀ s, (blocks fuel).Candid s

namespace Candor

theorem expression_succ (holds : Candor fuel) (s : Stream) (least : Nat) :
    (Parser.expression (fuel + 1) least).Candid s := by
  rw [Parser.expression]
  exact (holds.operand s).bind fun left rest => holds.operators rest least left

theorem operators_succ (holds : Candor fuel) (s : Stream) (least : Nat) (left : Expr) :
    (Parser.operators (fuel + 1) least left).Candid s := by
  rw [Parser.operators]
  refine .kind fun kind ahead => ?_
  split
  · exact .pure
  · split
    · exact .pure
    · refine .expect fun sign rest listed => ?_
      exact (holds.expression rest _).bind fun right rest => holds.operators rest least _

theorem operand_succ (holds : Candor fuel) (s : Stream) :
    (Parser.operand (fuel + 1)).Candid s := by
  rw [Parser.operand]
  refine .expect fun token rest listed => ?_
  split
  · exact (holds.operand rest).bind fun inner rest => .pure
  · refine .expect fun digits rest listed => ?_
    exact (candid_number digits).bind fun x rest => .pure
  · refine (holds.expression rest 0).bind fun inner rest => ?_
    exact .expect fun closing rest listed => .pure
  · exact (candid_number token).bind fun x rest => .pure
  · exact .pure
  · exact .pure
  · exact .pure
  · exact .pure

theorem assigned_succ (holds : Candor fuel) (s : Stream) (name : String) (update : Update) :
    (Parser.assigned (fuel + 1) name update).Candid s := by
  rw [Parser.assigned]
  refine (holds.expression s 0).bind fun value rest => ?_
  split
  · refine .next fun kind ahead => ?_
    split
    · refine .expect fun sign rest listed => ?_
      exact (holds.assigned rest _ _).bind fun next rest => .pure
    · exact .pure
  · exact .pure

theorem assignment (holds : Candor fuel) (s : Stream) : (Parser.assignment fuel).Candid s :=
  .expect fun _ _ _ => .expect fun _ rest _ => holds.assigned rest _ _

theorem assignments (holds : Candor fuel) (s : Stream) : (Parser.assignments fuel).Candid s := by
  refine .expect fun keyword rest listed => (holds.assignment rest).bind fun first rest => ?_
  exact (candid_commaList holds.assignment).bind fun others rest => .pure

theorem events (s : Stream) : (Parser.events fuel).Candid s := by
  refine .expect fun keyword rest listed => candid_eventName.bind fun first rest => ?_
  exact (candid_commaList fun _ => candid_eventName).bind fun others rest => .pure

theorem guard (holds : Candor fuel) (s : Stream) : (Parser.guard fuel).Candid s := by
  have closed : ∀ {p : Parser Guard} {s : Stream}, p.Candid s →
      (p >>= fun inside => Parser.expect [.braceClose] >>= fun _ => Pure.pure inside).Candid s :=
    fun inside => inside.bind fun inside rest => .expect fun closing rest listed => .pure
  rw [Parser.guard]
  refine .expect fun opening rest listed => .kind fun kind ahead => ?_
  split
  · exact closed (holds.assignments rest).map.map
  · exact closed (events rest).map.map
  · exact .skip fun rest => closed (holds.expression rest 0).map

theorem guards_succ (holds : Candor fuel) (s : Stream) : (Parser.guards (fuel + 1)).Candid s := by
  rw [Parser.guards]
  refine .next fun kind ahead => ?_
  split
  · refine (holds.guard s).bind fun first rest => ?_
    exact (holds.guards rest).bind fun others rest => .pure
  · exact .pure

theorem trailing (holds : Candor fuel) (s : Stream) : (Parser.trailing fuel).Candid s :=
  (holds.guards s).bind fun _ _ => .skip fun _ => .pure

theorem marked_succ (holds : Candor fuel) (s : Stream) (marks : Marks) :
    (Parser.marked (fuel + 1) marks).Candid s := by
  rw [Parser.marked]
  refine .next fun kind ahead => ?_
  split
  · refine .expect fun token rest listed => ?_
    split
    · exact holds.marked rest _
    · exact holds.marked rest _
  · exact .pure

theorem caption (holds : Candor fuel) (s : Stream) : (Parser.caption fuel).Candid s := by
  have spoken : ∀ (speaker : Option String) (s : Stream), (do
      let text ← Parser.expect [.text]
      return ⟨text.value, ← Parser.marked fuel { speaker := speaker }⟩ : Parser Caption).Candid s :=
    fun _ _ => .expect fun text rest listed => (holds.marked rest _).bind fun marks rest => .pure
  rw [Parser.caption]
  refine .next fun kind ahead => ?_
  split
  · exact .expect fun speaker rest listed => spoken _ rest
  · exact spoken none s

theorem continued_succ (holds : Candor fuel) (s : Stream) (caption : Caption) :
    (Parser.continued (fuel + 1) caption).Candid s := by
  rw [Parser.continued]
  refine .next fun kind ahead => ?_
  split
  · refine .expect fun text rest listed => ?_
    exact (holds.marked rest _).bind fun marks rest => holds.continued rest _
  · exact .pure

theorem divert (holds : Candor fuel) (s : Stream) : (Parser.divert fuel).Candid s :=
  .expect fun _ rest _ => (holds.trailing rest).bind fun _ _ => .pure

theorem lines_succ (holds : Candor fuel) (s : Stream) : (Parser.lines (fuel + 1)).Candid s := by
  rw [Parser.lines]
  have followed : ∀ {α : Type} {p : Parser α} {h : α → List Node → List Node} {s : Stream},
      p.Candid s →
      (p >>= fun a => Parser.lines fuel >>= fun others => Pure.pure (h a others)).Candid s :=
    fun first => first.bind fun a rest => (holds.lines rest).bind fun others rest => .pure
  refine .kind fun kind ahead => ?_
  split
  · exact followed (holds.lineStatement s)
  · exact followed (holds.lineStatement s)
  · exact followed (holds.optionList s none {} [])
  · exact followed (holds.optionList s none {} [])
  · exact followed (holds.optionList s none {} [])
  · exact followed (holds.optionsStart s)
  · exact followed (holds.divert s)
  · exact followed (holds.divert s)
  · exact followed (holds.variations s)
  · refine (holds.guard s).bind fun guard rest => ?_
    refine (holds.governed rest guard).bind fun result rest => ?_
    split
    · exact (holds.lines rest).bind fun others rest => .pure
    · exact followed (holds.optionList rest none {} _)
  · exact .expect fun token rest listed => holds.lines rest
  · exact .pure

theorem body_succ (holds : Candor fuel) (s : Stream) : (Parser.body (fuel + 1)).Candid s := by
  rw [Parser.body]
  refine .next fun kind ahead => ?_
  split
  · exact holds.indented s
  · exact holds.lines s

theorem indented_succ (holds : Candor fuel) (s : Stream) :
    (Parser.indented (fuel + 1)).Candid s := by
  rw [Parser.indented]
  refine .expect fun opening rest opens => (holds.lines rest).bind fun nodes rest => ?_
  exact .expect fun closing rest closes => .pure

theorem lineStatement_succ (holds : Candor fuel) (s : Stream) :
    (Parser.lineStatement (fuel + 1)).Candid s := by
  rw [Parser.lineStatement]
  refine (holds.caption s).bind fun first rest => (holds.trailing rest).bind fun guards rest => ?_
  refine .next fun kind ahead => ?_
  split
  · refine .expect fun opening rest opens => .next fun kind ahead => ?_
    split
    · exact (holds.headedList rest _ _).bind fun list rest => .pure
    · refine (holds.continued rest first).bind fun whole rest => ?_
      exact .expect fun closing rest closes => .pure
  · exact .pure

theorem headedList_succ (holds : Candor fuel) (s : Stream) (name : Option String)
    (marks : Marks) : (Parser.headedList (fuel + 1) name marks).Candid s := by
  rw [Parser.headedList]
  refine (holds.optionList s name marks []).bind fun list rest => .next fun kind ahead => ?_
  split
  · exact .expect fun closing rest closes => .pure
  · refine (holds.lines rest).bind fun others rest => ?_
    exact .expect fun closing rest closes => .pure

theorem optionsStart_succ (holds : Candor fuel) (s : Stream) :
    (Parser.optionsStart (fuel + 1)).Candid s := by
  have started : ∀ (name : Option String) (marks : Marks) (s : Stream), (do
      Parser.skip .lineBreak
      if ← Parser.next [.indent] then
        let _ ← Parser.expect [.indent]
        let list ← Parser.headedList fuel name marks
        return list.1 :: list.2
      else
        let list ← Parser.optionList fuel name marks []
        return list.1 :: list.2).Candid s := by
    intro name marks s
    refine .skip fun rest => .next fun kind ahead => ?_
    split
    · refine .expect fun opening rest opens => ?_
      exact (holds.headedList rest name marks).bind fun list rest => .pure
    · exact (holds.optionList rest name marks []).bind fun list rest => .pure
  rw [Parser.optionsStart]
  refine .expect fun token rest listed => .next fun kind ahead => ?_
  split
  · exact (holds.caption rest).bind fun header rest => started _ _ rest
  · exact started none {} rest

theorem optionList_succ (holds : Candor fuel) (s : Stream) (name : Option String) (marks : Marks)
    (first : List Node) : (Parser.optionList (fuel + 1) name marks first).Candid s := by
  have items : (Parser.optionItems fuel >>= fun result =>
      Pure.pure (Node.options name marks (first ++ result.1), result.2)).Candid s :=
    (holds.optionItems s).bind fun result rest => .pure
  rw [Parser.optionList]
  split
  · refine .next fun kind ahead => ?_
    split
    · next other =>
        have refused : (Parser.unexpected (optionKinds ++ [.braceOpen]) : Parser Unit).Candid s :=
          .unexpected (ahead.shut (by simpa using other))
        exact refused.bind_of_run fun _ _ _ ran => absurd ran unexpected_ne_ok
    · exact items
  · exact items

theorem optionItems_succ (holds : Candor fuel) (s : Stream) :
    (Parser.optionItems (fuel + 1)).Candid s := by
  have item : (Parser.option fuel >>= fun item => Parser.optionItems fuel >>= fun result =>
      Pure.pure (item :: result.1, result.2)).Candid s :=
    (holds.option s).bind fun item rest => (holds.optionItems rest).bind fun result rest => .pure
  rw [Parser.optionItems]
  refine .kind fun kind ahead => ?_
  split
  · exact item
  · exact item
  · exact item
  · refine (holds.guard s).bind fun guard rest => ?_
    refine (holds.governed rest guard).bind fun result rest => ?_
    split
    · exact (holds.optionItems rest).bind fun result rest => .pure
    · exact .pure
  · exact .expect fun token rest listed => holds.optionItems rest
  · exact .pure

theorem option_succ (holds : Candor fuel) (s : Stream) : (Parser.option (fuel + 1)).Candid s := by
  have nested : ∀ {h : List Node → Node} {s : Stream}, (do
      let nested ← if ← Parser.next [.indent] then Parser.indented fuel else Pure.pure []
      return h nested).Candid s := by
    intro h s
    refine .next fun kind ahead => ?_
    split
    · exact (holds.indented s).bind fun nodes rest => .pure
    · exact .pure
  rw [Parser.option]
  refine .expect fun sign rest listed => ?_
  refine (holds.guards rest).bind_of_yields shut_guards fun used before rest shut => ?_
  refine (candid_label holds.marked holds.caption shut).bind fun label rest => ?_
  refine (holds.trailing rest).bind fun after rest => .next fun kind ahead => ?_
  by_cases leaving : [Token.Kind.divert, .divertParent].contains kind = true
  · rw [if_pos leaving]
    exact (holds.divert rest).bind fun node rest => nested
  · rw [if_neg leaving]
    exact nested

theorem variations_succ (holds : Candor fuel) (s : Stream) :
    (Parser.variations (fuel + 1)).Candid s := by
  rw [Parser.variations]
  refine .expect fun opening rest opens => candid_variationMode.bind fun mode rest => ?_
  refine (holds.alternatives rest 0).bind fun result rest => ?_
  exact (candid_dedents result.2).bind fun _ rest => .pure

theorem alternatives_succ (holds : Candor fuel) (s : Stream) (depth : Nat) :
    (Parser.alternatives (fuel + 1) depth).Candid s := by
  rw [Parser.alternatives]
  refine .expect fun token rest listed => ?_
  split
  · exact holds.alternatives rest _
  · exact holds.alternatives rest _
  · refine (holds.body rest).bind fun nodes rest => ?_
    exact (holds.alternatives rest depth).bind fun others rest => .pure
  · exact .pure
  · exact holds.alternatives rest depth

theorem governed_succ (holds : Candor fuel) (s : Stream) (guard : Guard) :
    (Parser.governed (fuel + 1) guard).Candid s := by
  cases guard with
  | action action =>
      rw [Parser.governed]
      refine .next fun kind ahead => ?_
      split
      · exact .expect fun token rest listed => .pure
      · refine .next fun kind ahead => ?_
        split
        · exact .pure
        · exact holds.governedTarget s _
  | condition condition =>
      rw [Parser.governed]
      refine .next fun kind ahead => ?_
      split
      · refine .expect fun token rest listed => .next fun kind ahead => ?_
        split
        · exact (holds.indented rest).bind fun nodes rest => .pure
        · exact holds.governed rest _
      · exact holds.governedTarget s _

theorem governedTarget_succ (holds : Candor fuel) (s : Stream) (guard : Guard) :
    (Parser.governedTarget (fuel + 1) guard).Candid s := by
  have returned : ∀ {α : Type} {p : Parser α} {h : α → Governed}, p.Candid s →
      (p >>= fun a => Pure.pure (h a)).Candid s :=
    fun first => first.bind fun a rest => .pure
  rw [Parser.governedTarget]
  refine .kind fun kind ahead => ?_
  split
  · exact returned (holds.option s)
  · exact returned (holds.option s)
  · exact returned (holds.option s)
  · refine (holds.guard s).bind fun second rest => ?_
    exact (holds.governed rest second).bind fun result rest => .pure
  · exact returned (holds.lineStatement s)
  · exact returned (holds.lineStatement s)
  · exact returned (holds.divert s)
  · exact returned (holds.divert s)
  · exact returned (holds.variations s)
  · exact returned (holds.optionsStart s)
  · exact .unexpected (ahead.shut (by simp_all))

theorem blocks_succ (holds : Candor fuel) (s : Stream) : (Parser.blocks (fuel + 1)).Candid s := by
  rw [Parser.blocks]
  refine .next fun kind ahead => ?_
  split
  · refine .expect fun name rest named => (holds.body rest).bind fun content rest => ?_
    exact (holds.blocks rest).bind fun others rest => .pure
  · exact .pure

end Candor

theorem candor (fuel : Nat) : Candor fuel := by
  induction fuel with
  | zero => constructor <;> intros <;> exact .exhausted
  | succ fuel holds =>
      exact ⟨holds.expression_succ, holds.operators_succ, holds.operand_succ, holds.assigned_succ,
        holds.guards_succ, holds.marked_succ, holds.continued_succ, holds.lines_succ,
        holds.body_succ, holds.indented_succ, holds.lineStatement_succ, holds.headedList_succ,
        holds.optionsStart_succ, holds.optionList_succ, holds.optionItems_succ, holds.option_succ,
        holds.variations_succ, holds.alternatives_succ, holds.governed_succ,
        holds.governedTarget_succ, holds.blocks_succ⟩

/-! Where the statements of a document end. -/

/-- Statements are read as long as there are any. -/
theorem shut_lines : (lines fuel).Yields s fun _ _ rest => rest.Shut lineKinds := by
  induction fuel generalizing s with
  | zero => exact .exhausted
  | succ fuel ih =>
      have grammar := grammatical fuel
      rw [lines]
      have followed : ∀ {α : Type} {p : Parser α} {h : α → List Node → List Node}
          {P : List Token → α → Stream → Prop} {s : Stream}, p.Yields s P →
          (p >>= fun a => lines fuel >>= fun others => pure (h a others)).Yields s
            fun _ _ rest => rest.Shut lineKinds :=
        fun yields => yields.bind fun _ _ _ _ => ih.bind fun _ _ _ shut => .pure shut
      refine .kind fun kind ahead => ?_
      split
      · exact followed (grammar.lineStatement s)
      · exact followed (grammar.lineStatement s)
      · exact followed (grammar.optionList s none {} [])
      · exact followed (grammar.optionList s none {} [])
      · exact followed (grammar.optionList s none {} [])
      · exact followed (grammar.optionsStart s)
      · exact followed yields_divert
      · exact followed yields_divert
      · exact followed (grammar.variations s)
      · refine yields_guard.bind fun _ guard rest _ => ?_
        refine (grammar.governed rest guard).bind fun _ result rest _ => ?_
        split
        · exact ih.bind fun _ _ _ shut => .pure shut
        · exact followed (grammar.optionList rest none {} _)
      · exact .expect (by decide) fun token rest listed => ih
      · exact .pure (ahead.shut (by simp_all [lineKinds]))

/-- Statements end where none is ahead, or with the end of a deeper level. -/
theorem shut_body : (body fuel).Yields s fun used nodes rest =>
    Phrase.Derives used (.body nodes) ∧
      (rest.Shut lineKinds ∨ Phrase.Derives used (.indented nodes)) := by
  cases fuel with
  | zero => exact .exhausted
  | succ fuel =>
      have grammar := grammatical fuel
      rw [body]
      refine .next fun kind ahead => ?_
      split
      · exact (grammar.indented s).imp fun _ _ _ inside => ⟨.deeper inside, .inr inside⟩
      · intro ended nodes rest ran
        obtain ⟨used, split, inside⟩ := grammar.lines s ended nodes rest ran
        obtain ⟨-, -, shut⟩ := shut_lines ended nodes rest ran
        exact ⟨used, split, .level inside, .inl shut⟩

end Parser

/-- Tokens that end with a block whose statements stand on a deeper level. -/
def Block.EndsDeeper (tokens : List Token) : Prop :=
  ∃ before name inside nodes, tokens = before ++ name :: inside ∧ name.kind = .block ∧
    Phrase.Derives inside (.indented nodes)

theorem Block.EndsDeeper.append {tokens : List Token} (deeper : EndsDeeper tokens)
    (before : List Token) : EndsDeeper (before ++ tokens) := by
  obtain ⟨first, name, inside, nodes, rfl, named, derives⟩ := deeper
  exact ⟨before ++ first, name, inside, nodes, (List.append_assoc ..).symm, named, derives⟩

namespace Parser

variable {s : Stream} {fuel : Nat}

/-- Blocks are read as long as there are any, and after them no statement is ahead but behind the
deeper level of the last one. -/
theorem shut_blocks : (blocks fuel).Yields s fun used all rest =>
    Block.Derives used all ∧ rest.Shut [.block] ∧
      (s.Shut lineKinds ∨ used ≠ [] → rest.Shut lineKinds ∨ Block.EndsDeeper used) := by
  induction fuel generalizing s with
  | zero => exact .exhausted
  | succ fuel ih =>
      rw [blocks]
      refine .next fun kind ahead => ?_
      split
      · refine .expect (by decide) fun name rest same => ?_
        have named : name.kind = .block := by simpa using same
        refine shut_body.bind fun first nodes rest content => ?_
        refine ih.bind fun more all rest others => .pure ?_
        obtain ⟨content, ends⟩ := content
        obtain ⟨others, shut, last⟩ := others
        refine ⟨by simpa using Block.Derives.cons named content others, shut, fun _ => ?_⟩
        have behind : Block.EndsDeeper more →
            Block.EndsDeeper (name :: (first ++ (more ++ []))) := by
          intro deeper
          simpa using deeper.append (name :: first)
        obtain level | inside := ends
        · exact (last (.inl level)).imp_right behind
        · by_cases none : more = []
          · subst none
            exact .inr ⟨[], name, first, nodes, by simp, named, inside⟩
          · exact (last (.inr none)).imp_right behind
      · next other =>
          refine .pure ⟨.nil, ahead.shut (by simpa using other), fun start => .inl ?_⟩
          exact start.resolve_right (absurd rfl)

/-- The statements and the blocks of a document, up to where none is ahead. -/
def statements (fuel : Nat) : Parser Document := do
  let content ← if ← next lineKinds then lines fuel else pure []
  let named ← blocks fuel
  return ⟨content, named⟩

theorem document_eq (fuel : Nat) : document fuel = (do
    let d ← statements fuel
    if ← next [.eof] then return d
    else unexpected (lineKinds ++ [.block, .eof])) := by
  simp only [document, statements, bind_assoc]
  congr 1
  funext found
  cases found <;> simp

theorem yields_statements : (statements fuel).Yields s fun used d rest =>
    Document.Derives used d ∧ rest.Shut [.block] ∧
      (rest.Shut lineKinds ∨ Block.EndsDeeper used) := by
  have ended : ∀ {p : Parser (List Node)},
      (p.Yields s fun used nodes rest => Phrase.Derives used (.lines nodes) ∧ rest.Shut lineKinds) →
      (do
        let content ← p
        let named ← blocks fuel
        return ⟨content, named⟩ : Parser Document).Yields s fun used d rest =>
        Document.Derives used d ∧ rest.Shut [.block] ∧
          (rest.Shut lineKinds ∨ Block.EndsDeeper used) := by
    intro p yields
    refine yields.bind fun first nodes rest content => ?_
    refine shut_blocks.bind fun more named rest others => .pure ?_
    obtain ⟨content, statements⟩ := content
    obtain ⟨others, shut, last⟩ := others
    rw [List.append_nil]
    refine ⟨.mk content others, shut, (last (.inl statements)).imp_right fun deeper => ?_⟩
    exact deeper.append first
  rw [statements]
  refine .next fun kind ahead => ?_
  split
  · refine ended fun ended nodes rest ran => ?_
    obtain ⟨used, split, inside⟩ := (grammatical fuel).lines s ended nodes rest ran
    obtain ⟨-, -, shut⟩ := shut_lines ended nodes rest ran
    exact ⟨used, split, inside, shut⟩
  · next other => exact ended (.pure ⟨.nil, ahead.shut (by simpa using other)⟩)

theorem candid_statements : (statements fuel).Candid s := by
  have holds := candor fuel
  rw [statements]
  refine .next fun kind ahead => ?_
  split
  · refine (holds.lines s).bind fun content rest => ?_
    exact (holds.blocks rest).bind fun named rest => .pure
  · exact (holds.blocks s).bind fun named rest => .pure

/-- A document is refused for a consistent reason, or for a statement behind the deeper level of a
block. -/
theorem consistent_or_deeper {e : ParseError} (truthful : s.Truthful)
    (failed : document fuel s = .error (.fault e)) :
    e.Consistent ∨ ∃ (used : List Token) (rest : Stream) (d : Document) (token : Token),
      s = rest.after used ∧ Document.Derives used d ∧ Block.EndsDeeper used ∧
        rest.peek = .ok token ∧ token.kind ∈ lineKinds ∧
        e = .located (.unexpectedToken token.kind (lineKinds ++ [.block, .eof]))
          token.line token.column := by
  rw [document_eq] at failed
  obtain early | ⟨d, rest, ran, late⟩ := bind_eq_error_iff.1 failed
  · exact .inl ((candid_statements truthful).2 e early)
  obtain ⟨used, split, derives, shut, ends⟩ := yields_statements truthful.ended d rest ran
  by_cases statement : rest.Shut lineKinds
  · have candid : (next [.eof] >>= fun ended =>
        if ended then pure d else unexpected (lineKinds ++ [.block, .eof])).Candid rest := by
      refine .next fun kind ahead => ?_
      split
      · exact .pure
      · next other =>
          have last : rest.Shut [.eof] := ahead.shut (by simpa using other)
          refine .unexpected fun kind listed => ?_
          obtain begins | named | ended : kind ∈ lineKinds ∨ kind ∈ [.block] ∨ kind ∈ [.eof] := by
            simpa using listed
          · exact statement kind begins
          · exact shut kind named
          · exact last kind ended
    exact .inl ((candid ((candid_statements truthful).1 d rest ran)).2 e late)
  · obtain ⟨kind, begins, ahead⟩ : ∃ kind ∈ lineKinds, rest.Ahead kind := by
      simpa [Stream.Shut] using statement
    have unended : ∀ kind ∈ lineKinds, [Token.Kind.eof].contains kind = false := by decide
    obtain ⟨token, peeked, rfl⟩ := ahead
    rw [bind_of_ok (next_of_ahead ⟨token, peeked, rfl⟩), unended _ begins,
      if_neg Bool.false_ne_true, unexpected, bind_of_ok (peek_of_ok peeked)] at late
    have same := Halt.fault.inj (Except.error.inj late)
    exact .inr ⟨used, rest, d, token, split, derives, ends.resolve_left statement, peeked, begins,
      same.symm⟩

end Parser

/-- An error of a source names a kind both as found and as expected only at a statement behind the
deeper level of a block. There the statements and the blocks before it make a document, and the
error lists what could stand if the document had not ended. -/
theorem ParseError.consistent_of_parse {source : String} {e : ParseError}
    (failed : parse source = .error (.fault e)) :
    (∀ text, e.cause ≠ .unreadableNumber text) ∧
      (e.Consistent ∨ ∃ before token after d,
        (Stream.ofSource source).items = before ++ token :: after ∧
        Document.Derives before d ∧ Block.EndsDeeper before ∧ token.kind ∈ Parser.lineKinds ∧
        e = .located (.unexpectedToken token.kind (Parser.lineKinds ++ [.block, .eof]))
          token.line token.column) := by
  constructor
  · exact ne_unreadableNumber_of_parse failed
  · refine (Parser.consistent_or_deeper (Stream.truthful_ofSource source)
      (Document.ofStream_eq_error_iff.1 failed)).imp_right ?_
    rintro ⟨used, rest, d, token, split, derives, deeper, peeked, begins, rfl⟩
    have listed : ∀ kind ∈ Parser.lineKinds, kind ≠ .eof := by decide
    have ended : rest.Ended := Stream.ended_after.1 (split ▸ Stream.ended_ofSource source)
    have front := ended.eq_after peeked (listed _ begins)
    refine ⟨used, token, rest.drop.items, d, ?_, derives, deeper, begins, rfl⟩
    calc (Stream.ofSource source).items
      _ = used ++ rest.items := by rw [split, Stream.items_after]
      _ = used ++ token :: rest.drop.items := by
        conv_lhs => rw [front, Stream.items_after]
        rfl

/-- A block on a deeper level, and a line behind it. -/
def homecoming : String := "== market\n  Fish!\nHome again\n"

theorem stream_homecoming : Stream.ofSource homecoming =
    ⟨[⟨.block, 0, 0, some "market"⟩, ⟨.indent, 1, 0, none⟩, ⟨.text, 1, 2, some "Fish!"⟩,
      ⟨.dedent, 2, 0, none⟩, ⟨.text, 2, 0, some "Home again"⟩], .ok ⟨.eof, 3, 0, none⟩⟩ := by
  have tokens : (Stream.ofSource homecoming).tokens =
      [⟨.block, 0, 0, some "market"⟩, ⟨.indent, 1, 0, none⟩, ⟨.text, 1, 2, some "Fish!"⟩,
        ⟨.dedent, 2, 0, none⟩, ⟨.text, 2, 0, some "Home again"⟩] := by decide +kernel
  have last : (Stream.ofSource homecoming).last = .ok ⟨.eof, 3, 0, none⟩ := by decide +kernel
  rw [← tokens, ← last]

theorem parse_homecoming : parse homecoming =
    .error (.fault ⟨.unexpectedToken .text (Parser.lineKinds ++ [.block, .eof]), 3, 1⟩) := by
  rw [parse, stream_homecoming]
  rfl

/-- The line behind the block is refused as a text where a text is expected. -/
theorem ParseError.inconsistent_homecoming :
    ¬ ∀ (source : String) (e : ParseError), parse source = .error (.fault e) → e.Consistent := by
  intro claimed
  exact claimed homecoming _ parse_homecoming .text _ rfl (by decide)

theorem ParseError.consistent_of_parse_homecoming :
    parse homecoming =
        .error (.fault ⟨.unexpectedToken .text (Parser.lineKinds ++ [.block, .eof]), 3, 1⟩) ∧
      ∃ before token after d, (Stream.ofSource homecoming).items = before ++ token :: after ∧
        Document.Derives before d ∧ Block.EndsDeeper before ∧ token.kind = .text ∧
        token.line = 2 ∧ token.column = 0 := by
  refine ⟨parse_homecoming, ?_⟩
  obtain ⟨-, consistent | ⟨before, token, after, d, split, derives, deeper, -, same⟩⟩ :=
    consistent_of_parse parse_homecoming
  · exact absurd (by decide) (consistent .text _ rfl)
  · injection same with cause line column
    injection cause with kind
    exact ⟨before, token, after, d, split, derives, deeper, kind.symm, (Nat.succ.inj line).symm,
      (Nat.succ.inj column).symm⟩

end Dialogue
