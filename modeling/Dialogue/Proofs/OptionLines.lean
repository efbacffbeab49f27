import Dialogue.Document.Parser
import Dialogue.Proofs.Balance

/-! How long an option's mark lasts. A line break ends the mode of one mark only, so that a line
starts in option mode where a mark was read in the mode of another; else a mark lasts to the end of
its line, and over the lines of a list of variations that it encloses. -/
namespace Dialogue

/-- The kinds of the brackets around a label. -/
def Token.Kind.isLabel : Token.Kind → Bool
  | .labelOpen | .labelClose => true
  | _ => false

theorem Token.Kind.isLabel_of_isLogical {kind : Token.Kind} (logical : kind.isLogical) :
    kind.isLabel = false := by
  revert logical
  cases kind <;> decide

namespace Scanner

variable {s t next : Scanner} {tokens : List Token}

theorem modes_of_mode {mode : Mode} (innermost : s.mode = some mode) :
    s.modes = mode :: s.modes.tail := by
  obtain ⟨outer, split⟩ := List.head?_eq_some_iff.1 innermost
  rw [split, List.tail_cons]

/-- What a step that goes on does to the open modes. -/
inductive Turns (s : Scanner) : List Token → Scanner → Prop
  | stays {tokens : List Token} {next : Scanner} (modes : next.modes = s.modes)
      (start : next.atLineStart = true → s.atLineStart = true ∨ s.mode ≠ some .option) :
      Turns s tokens next
  | marks {token : Token} {next : Scanner} (kind : token.kind ∈ Parser.optionKinds)
      (modes : next.modes = .option :: s.modes) (start : next.atLineStart = false) :
      Turns s [token] next
  | enters {mode : Mode} {tokens : List Token} {next : Scanner} (other : mode ≠ .option)
      (modes : next.modes = mode :: s.modes) (start : next.atLineStart = false) :
      Turns s tokens next
  | leaves {mode : Mode} {tokens : List Token} {next : Scanner}
      (modes : s.modes = mode :: next.modes) (start : next.atLineStart = false) :
      Turns s tokens next
  | breaks (modes : s.modes = .option :: s.lineBreak.modes) : Turns s [] s.lineBreak

/-- Whether a step that goes on turns the modes in one of these ways, and yields the brackets of a
label in option mode only. -/
def Turned (s : Scanner) : Step → Prop
  | .more tokens next =>
      s.Turns tokens next ∧ ∀ token ∈ tokens, token.kind.isLabel → s.mode = some .option
  | _ => True

theorem turned_ite {p : Prop} [Decidable p] {yes no : Step} (left : p → s.Turned yes)
    (right : ¬p → s.Turned no) : s.Turned (if p then yes else no) := by
  split
  · exact left ‹p›
  · exact right ‹¬p›

/-- A step without the brackets of a label. -/
theorem Turns.turned (turns : s.Turns tokens next)
    (plain : ∀ token ∈ tokens, token.kind.isLabel = false) : s.Turned (.more tokens next) := by
  refine ⟨turns, fun token member label => ?_⟩
  cases (plain token member).symm.trans label

theorem turned_of_eq (modes : next.modes = s.modes) (start : next.atLineStart = s.atLineStart)
    (plain : ∀ token ∈ tokens, token.kind.isLabel = false) : s.Turned (.more tokens next) :=
  Turns.turned (.stays modes fun flag => .inl (start ▸ flag)) plain

theorem isLabel_of_mem_lineBreakAhead {token : Token} (member : token ∈ s.lineBreakAhead) :
    token.kind.isLabel = false := by
  rw [kind_of_mem_lineBreakAhead member]
  rfl

theorem turned_lineStart (start : s.atLineStart = true) : s.Turned s.lineStart := by
  have stays : ∀ {tokens : List Token} {next : Scanner}, next.modes = s.modes →
      (∀ token ∈ tokens, token.kind.isLabel = false) → s.Turned (.more tokens next) :=
    fun modes plain => Turns.turned (.stays modes fun _ => .inl start) plain
  unfold lineStart
  refine turned_ite (fun _ => stays rfl (List.forall_mem_nil _)) fun _ => ?_
  refine turned_ite (fun _ => stays rfl (List.forall_mem_nil _)) fun _ => ?_
  refine turned_ite (fun _ => stays rfl (List.forall_mem_singleton.2 rfl)) fun _ => ?_
  refine turned_ite (fun _ => stays rfl ?_) fun _ => trivial
  intro token member
  obtain ⟨level, -, rfl⟩ := List.mem_map.1 member
  rfl

theorem turned_lineBreak : s.Turned (.more [] s.lineBreak) := by
  refine Turns.turned ?_ (List.forall_mem_nil _)
  by_cases option : s.mode = some .option
  · refine .breaks ?_
    rw [lineBreak, option]
    exact modes_of_mode option
  · unfold lineBreak
    dsimp only
    split
    · exact .stays rfl fun start => .inl start
    · next same => exact absurd same option
    · exact .stays rfl fun _ => .inr option

theorem turned_variationsStart (inside : s.atLineStart = false) : s.Turned s.variationsStart := by
  have entered : ∀ {tokens : List Token} {next : Scanner}, next.modes = .variations :: s.modes →
      next.atLineStart = s.atLineStart → (∀ token ∈ tokens, token.kind.isLabel = false) →
      s.Turned (.more tokens next) :=
    fun modes start plain => Turns.turned (.enters (by decide) modes (start.trans inside)) plain
  unfold variationsStart
  dsimp only
  split
  · refine turned_ite (fun _ => ?_) fun _ => ?_
    · split
      · exact entered rfl rfl (by simp [mark, carry, Token.Kind.isLabel])
      · exact trivial
    · exact entered rfl rfl (List.forall_mem_singleton.2 rfl)
  · exact entered rfl rfl (List.forall_mem_singleton.2 rfl)

theorem turned_text : s.Turned s.text := by
  unfold text
  refine turned_ite (fun _ => ?_) fun _ => ?_
  · exact turned_of_eq rfl rfl (List.forall_mem_singleton.2 rfl)
  · exact turned_of_eq rfl rfl (List.forall_mem_singleton.2 rfl)

theorem turned_quoted : s.Turned s.quoted := by
  unfold quoted
  split
  · exact turned_of_eq rfl rfl (List.forall_mem_singleton.2 rfl)
  · exact trivial

theorem turned_prose (inside : s.atLineStart = false) (c : Char) : s.Turned (s.prose c) := by
  have single : ∀ {token : Token} {next : Scanner}, next.modes = s.modes →
      next.atLineStart = s.atLineStart → token.kind.isLabel = false →
      s.Turned (.more [token] next) :=
    fun modes start plain => turned_of_eq modes start (List.forall_mem_singleton.2 plain)
  have line : ∀ {token : Token} {next ahead : Scanner}, next.modes = s.modes →
      next.atLineStart = s.atLineStart → token.kind.isLabel = false →
      s.Turned (.more (token :: ahead.lineBreakAhead) next) :=
    fun modes start plain => turned_of_eq modes start
      (List.forall_mem_cons.2 ⟨plain, fun _ => isLabel_of_mem_lineBreakAhead⟩)
  have marked : ∀ {kind : Token.Kind}, kind ∈ Parser.optionKinds → kind.isLabel = false →
      s.Turned (.more [s.mark kind] ((s.enter .option).advance 1)) :=
    fun kind plain => Turns.turned (.marks kind rfl inside) (List.forall_mem_singleton.2 plain)
  have labelled : ∀ {next : Scanner} {token : Token}, next.modes = s.modes →
      next.atLineStart = s.atLineStart → s.mode = some .option → s.Turned (.more [token] next) :=
    fun modes start option => ⟨.stays modes fun flag => .inl (start ▸ flag), fun _ _ _ => option⟩
  unfold prose
  dsimp only
  refine turned_ite (fun _ => ?_) fun _ => ?_
  · exact Turns.turned (.enters (by decide) rfl inside) (List.forall_mem_singleton.2 rfl)
  refine turned_ite (fun _ => turned_quoted) fun _ => ?_
  refine turned_ite (fun _ => turned_of_eq rfl rfl (List.forall_mem_nil _)) fun _ => ?_
  refine turned_ite (fun _ => turned_variationsStart inside) fun _ => ?_
  refine turned_ite (fun closing => ?_) fun _ => ?_
  · have variations : s.mode = some .variations := by simp_all
    exact Turns.turned (.leaves (modes_of_mode variations) inside) (List.forall_mem_singleton.2 rfl)
  refine turned_ite (fun _ => single rfl rfl rfl) fun _ => ?_
  refine turned_ite (fun _ => line rfl rfl rfl) fun _ => ?_
  refine turned_ite (fun _ => line rfl rfl rfl) fun _ => ?_
  refine turned_ite (fun _ => single rfl rfl rfl) fun _ => ?_
  refine turned_ite (fun _ => single rfl rfl rfl) fun _ => ?_
  refine turned_ite (fun _ => marked (by decide) rfl) fun _ => ?_
  refine turned_ite (fun _ => marked (by decide) rfl) fun _ => ?_
  refine turned_ite (fun _ => marked (by decide) rfl) fun _ => ?_
  refine turned_ite (fun opening => labelled rfl rfl (by simp_all)) fun _ => ?_
  refine turned_ite (fun closing => labelled rfl rfl (by simp_all)) fun _ => ?_
  refine turned_ite (fun _ => single rfl rfl rfl) fun _ => ?_
  refine turned_ite (fun _ => single rfl rfl rfl) fun _ => ?_
  exact turned_text

theorem turned_logic (inside : s.atLineStart = false) (braces : s.mode = some .logic) (c : Char) :
    s.Turned (s.logic c) := by
  have single : ∀ {token : Token} {count : Nat}, token.kind.isLogical →
      s.Turned (.more [token] (s.advance count)) := fun logical =>
    turned_of_eq rfl rfl (List.forall_mem_singleton.2 (Token.Kind.isLabel_of_isLogical logical))
  unfold logic
  refine turned_ite (fun _ => ?_) fun _ => ?_
  · refine Turns.turned (.leaves (modes_of_mode braces) inside) ?_
    exact List.forall_mem_cons.2 ⟨rfl, fun _ => isLabel_of_mem_lineBreakAhead⟩
  refine turned_ite (fun _ => turned_of_eq rfl rfl (List.forall_mem_nil _)) fun _ => ?_
  refine turned_ite (fun _ => ?_) fun _ => ?_
  · unfold literal
    split
    · exact single rfl
    · exact trivial
  refine turned_ite (fun _ => single rfl) fun _ => ?_
  refine turned_ite (fun _ => single (isLogical_word _).1) fun _ => ?_
  unfold operator
  split
  · next found => exact single (isLogical_of_double? found).1
  · split
    · next found => exact single (isLogical_of_single? found).1
    · exact trivial

theorem turned_step (s : Scanner) : s.Turned s.step := by
  unfold step
  refine turned_ite turned_lineStart fun inside => ?_
  rw [Bool.not_eq_true] at inside
  split
  · exact trivial
  · next c rest split =>
      refine turned_ite (fun _ => turned_lineBreak) fun _ => ?_
      refine turned_ite (fun braces => ?_) fun _ => turned_prose inside c
      exact turned_logic inside (beq_iff_eq.1 braces) c

theorem turns_of_step (stepped : s.step = .more tokens next) : s.Turns tokens next :=
  (stepped ▸ s.turned_step).1

/-- An option mode that is open after a step was open before, unless the step read its mark. -/
theorem Turns.option_of_option (turns : s.Turns tokens next) {inner outer : List Mode}
    (held : next.modes = inner ++ .option :: outer) :
    (∃ inner, s.modes = inner ++ .option :: outer) ∨
      inner = [] ∧ outer = s.modes ∧
        ∃ token, tokens = [token] ∧ token.kind ∈ Parser.optionKinds := by
  cases turns with
  | stays modes start => exact .inl ⟨inner, modes ▸ held⟩
  | leaves modes start => exact .inl ⟨_ :: inner, by rw [modes, held, List.cons_append]⟩
  | breaks modes => exact .inl ⟨_ :: inner, by rw [modes, held, List.cons_append]⟩
  | marks kind modes start =>
      cases inner with
      | nil =>
          obtain ⟨-, rfl⟩ := List.cons.inj (modes.symm.trans held)
          exact .inr ⟨rfl, rfl, _, rfl, kind⟩
      | cons first inner =>
          obtain ⟨-, rest⟩ := List.cons.inj (modes.symm.trans held)
          exact .inl ⟨inner, rest⟩
  | enters other modes start =>
      cases inner with
      | nil =>
          obtain ⟨same, -⟩ := List.cons.inj (modes.symm.trans held)
          exact absurd same other
      | cons first inner =>
          obtain ⟨-, rest⟩ := List.cons.inj (modes.symm.trans held)
          exact .inl ⟨inner, rest⟩

/-- Whether a step reads the mark of an option. -/
def ReadsMark (s t : Scanner) : Prop :=
  ∃ token, s.step = .more [token] t ∧ token.kind ∈ Parser.optionKinds

/-- The steps from one scanner to another, all of them between scanners with a property. -/
inductive Passes (P : Scanner → Prop) (s : Scanner) : Scanner → Prop
  | refl (here : P s) : Passes P s s
  | step {t next : Scanner} {tokens : List Token} (passes : Passes P s t)
      (stepped : t.step = .more tokens next) (here : P next) : Passes P s next

namespace Passes

variable {P Q : Scanner → Prop}

theorem reaches (passes : s.Passes P t) : s.Reaches t := by
  induction passes with
  | refl here => exact .refl
  | step passes stepped here ih => exact .step ih stepped

theorem imp (passes : s.Passes P t) (each : ∀ u, s.Reaches u → P u → Q u) : s.Passes Q t := by
  induction passes with
  | refl here => exact .refl (each s .refl here)
  | step passes stepped here ih =>
      exact .step ih stepped (each _ (passes.reaches.step stepped) here)

end Passes

theorem Reaches.trans {u : Scanner} (first : s.Reaches t) (second : t.Reaches u) : s.Reaches u := by
  induction second with
  | refl => exact first
  | step reaches stepped ih => exact .step ih stepped

/-- Whether the modes of a scanner stay open up to another one. The lines that start in between do
so inside a list of variations, or in option mode. -/
def Lasts (s t : Scanner) : Prop :=
  s.Passes (fun u => s.modes <:+ u.modes ∧
    (u.atLineStart = true → u.mode = some .variations ∨ u.mode = some .option)) t

theorem Sound.mode_of_lineStart (sound : s.Sound) (start : s.atLineStart = true)
    (some : s.modes ≠ []) : s.mode = .some .variations ∨ s.mode = .some .option := by
  have outside := sound.started start
  obtain ⟨first, outer, modes⟩ := List.exists_cons_of_ne_nil some
  cases first with
  | option => exact .inr (by rw [mode, modes, List.head?_cons])
  | variations => exact .inl (by rw [mode, modes, List.head?_cons])
  | logic => simp [inBraces, mode, modes] at outside

/-- Every open option mode was opened by a mark, and has been open since. -/
theorem marked_of_option {source : String} (reaches : (ofSource source).Reaches s)
    (inner : List Mode) {outer : List Mode} (split : s.modes = inner ++ .option :: outer) :
    ∃ u v, (ofSource source).Reaches u ∧ u.ReadsMark v ∧ u.modes = outer ∧
      v.modes = .option :: outer ∧ v.Passes (fun w => .option :: outer <:+ w.modes) s := by
  induction reaches generalizing inner with
  | refl => cases inner <;> cases split
  | step reaches stepped ih =>
      have here := List.suffix_append inner (.option :: outer)
      rw [← split] at here
      obtain ⟨before, held⟩ | ⟨rfl, rfl, token, rfl, kind⟩ :=
        (turns_of_step stepped).option_of_option split
      · obtain ⟨u, v, first, marks, below, above, passes⟩ := ih _ held
        exact ⟨u, v, first, marks, below, above, passes.step stepped here⟩
      · exact ⟨_, _, reaches, ⟨token, stepped, kind⟩, rfl, split, .refl here⟩

/-- In option mode the last mark that is still open has been so since it was read. -/
theorem lasts_of_option {source : String} (reaches : (ofSource source).Reaches s)
    {outer : List Mode} (split : s.modes = .option :: outer) :
    ∃ u v, (ofSource source).Reaches u ∧ u.ReadsMark v ∧ u.modes = outer ∧ v.modes = s.modes ∧
      v.Lasts s := by
  obtain ⟨u, v, first, marks, below, above, passes⟩ := marked_of_option reaches [] split
  refine ⟨u, v, first, marks, below, above.trans split.symm, passes.imp fun w after held => ?_⟩
  have sound : w.Sound := by
    obtain ⟨token, stepped, -⟩ := marks
    exact (sound_ofSource source).of_reaches ((first.step stepped).trans after)
  have some : w.modes ≠ [] := by
    intro none
    rw [none, List.suffix_nil] at held
    cases held
  exact ⟨above ▸ held, fun start => sound.mode_of_lineStart start some⟩

/-- A line starts in option mode only if the mark whose mode the last line break ended was itself
read in that mode. -/
theorem marked_twice_of_lineStart {source : String} (reaches : (ofSource source).Reaches s)
    (start : s.atLineStart = true) (option : s.mode = some .option) :
    ∃ u v t, (ofSource source).Reaches u ∧ u.ReadsMark v ∧ u.modes = s.modes ∧ v.Lasts t ∧
      t.modes = v.modes ∧ t.step = .more [] t.lineBreak ∧ t.lineBreak.Reaches s := by
  induction reaches with
  | refl => cases option
  | @step before next tokens reaches stepped ih =>
      have inside : next.atLineStart = false → False := fun flag => by
        cases flag.symm.trans start
      cases turns_of_step stepped with
      | stays modes started =>
          have same : before.mode = next.mode := congrArg List.head? modes.symm
          obtain blank | other := started start
          · obtain ⟨u, v, t, first, marks, below, lasts, ends, breaks, rest⟩ :=
              ih blank (same.trans option)
            exact ⟨u, v, t, first, marks, below.trans modes.symm, lasts, ends, breaks,
              rest.step stepped⟩
          · exact absurd (same.trans option) other
      | marks kind modes flag => exact (inside flag).elim
      | enters other modes flag => exact (inside flag).elim
      | leaves modes flag => exact (inside flag).elim
      | breaks modes =>
          obtain ⟨u, v, first, marks, below, above, lasts⟩ := lasts_of_option reaches modes
          exact ⟨u, v, before, first, marks, below, lasts, above.symm, stepped, .refl⟩

/-- A mark lasts to the end of its line, and a line break ends the mode of one mark. A line starts
in option mode only where a mark had been read in that mode, whose own mode the last line break
ended. The brackets of a label are read in option mode only; and in option mode a mark has been read
since which no line started, but inside of lists of variations or, again, in option mode. -/
theorem option_lasts_ofSource (source : String) :
    (∀ s, (ofSource source).Reaches s → s.atLineStart = true → s.mode = some .option →
      ∃ u v t, (ofSource source).Reaches u ∧ u.ReadsMark v ∧ u.mode = some .option ∧
        u.modes = s.modes ∧ v.Lasts t ∧ t.modes = v.modes ∧ t.step = .more [] t.lineBreak ∧
        t.lineBreak.Reaches s) ∧
    (∀ s tokens next, (ofSource source).Reaches s → s.step = .more tokens next →
      ∀ token ∈ tokens, token.kind.isLabel → s.mode = some .option) ∧
    ∀ s, (ofSource source).Reaches s → s.mode = some .option →
      ∃ u v, (ofSource source).Reaches u ∧ u.ReadsMark v ∧ v.modes = s.modes ∧ v.Lasts s := by
  refine ⟨fun s reaches start option => ?_, fun s tokens next _ stepped => ?_,
    fun s reaches option => ?_⟩
  · obtain ⟨u, v, t, first, marks, same, lasts, ends, breaks, rest⟩ :=
      marked_twice_of_lineStart reaches start option
    have mode : u.mode = s.mode := congrArg List.head? same
    exact ⟨u, v, t, first, marks, mode.trans option, same, lasts, ends, breaks, rest⟩
  · exact (stepped ▸ s.turned_step).2
  · obtain ⟨u, v, first, marks, -, same, lasts⟩ := lasts_of_option reaches (modes_of_mode option)
    exact ⟨u, v, first, marks, same, lasts⟩

/-- Two marks on a line, and a line without any. -/
def twice : String := "* * a\nb [c]\n"

theorem reaches_twice : (ofSource twice).Reaches
    { rest := ['b', ' ', '[', 'c', ']', '\n'], line := 1, modes := [.option] } := by
  exact .step (.step (.step (.step (.step (.step (.step .refl rfl) rfl) rfl) rfl) rfl) rfl) rfl

/-- The second line starts in option mode. -/
theorem starts_in_option_twice :
    ¬ ∀ (source : String) (s : Scanner), (ofSource source).Reaches s → s.atLineStart = true →
      s.mode ≠ some .option := by
  intro claimed
  exact claimed twice _ reaches_twice rfl rfl

/-- There a bracket is that of a label, and what lasts is the first of the two marks before it. -/
theorem option_lasts_twice :
    (Stream.ofSource twice).tokens =
        [⟨.option, 0, 0, none⟩, ⟨.option, 0, 2, none⟩, ⟨.text, 0, 4, some "a"⟩,
          ⟨.text, 1, 0, some "b"⟩, ⟨.labelOpen, 1, 2, none⟩, ⟨.text, 1, 3, some "c"⟩,
          ⟨.labelClose, 1, 4, none⟩] ∧
      ∃ u v, (ofSource twice).Reaches u ∧ u.ReadsMark v ∧ u.modes = [.option] := by
  refine ⟨by decide +kernel, ?_⟩
  obtain ⟨u, v, t, first, marks, -, same, -⟩ :=
    (option_lasts_ofSource twice).1 _ reaches_twice rfl rfl
  exact ⟨u, v, first, marks, same⟩

end Scanner
end Dialogue
