import Dialogue.Proofs.Scanned

/-! Levels and braces in the tokens of a source. Levels that close were open, all are closed at the
end, braces open and close by turns, and nothing but logic stands between them. Every step of a
scanner makes one of a few moves, and all of it follows from them. -/
namespace Dialogue

namespace Token.Kind

def isBrace : Kind → Bool
  | .braceOpen | .braceClose => true
  | _ => false

/-- The kinds that open and close nothing. -/
def isPlain : Kind → Bool
  | .indent | .dedent | .braceOpen | .braceClose => false
  | _ => true

theorem isPlain_of_isLogical {kind : Kind} (logical : kind.isLogical) : kind.isPlain := by
  revert logical
  cases kind <;> decide

theorem isBrace_of_isLogical {kind : Kind} (logical : kind.isLogical) : kind.isBrace = false := by
  revert logical
  cases kind <;> decide

theorem isBrace_of_isPlain {kind : Kind} (plain : kind.isPlain) : kind.isBrace = false := by
  revert plain
  cases kind <;> decide

end Token.Kind

namespace Token

/-- How tokens lead from a number of open levels to another. -/
inductive Climbs : Nat → List Token → Nat → Prop
  | nil {depth : Nat} : Climbs depth [] depth
  | up {depth last : Nat} {token : Token} {rest : List Token} (kind : token.kind = .indent)
      (others : Climbs (depth + 1) rest last) : Climbs depth (token :: rest) last
  | down {depth last : Nat} {token : Token} {rest : List Token} (kind : token.kind = .dedent)
      (others : Climbs depth rest last) : Climbs (depth + 1) (token :: rest) last
  | level {depth last : Nat} {token : Token} {rest : List Token} (up : token.kind ≠ .indent)
      (down : token.kind ≠ .dedent) (others : Climbs depth rest last) :
      Climbs depth (token :: rest) last

namespace Climbs

variable {depth middle last : Nat} {tokens more : List Token}

theorem append (first : Climbs depth tokens middle) (second : Climbs middle more last) :
    Climbs depth (tokens ++ more) last := by
  induction first with
  | nil => exact second
  | up kind others ih => exact .up kind (ih second)
  | down kind others ih => exact .down kind (ih second)
  | level up down others ih => exact .level up down (ih second)

theorem split (climbs : Climbs depth (tokens ++ more) last) :
    ∃ middle, Climbs depth tokens middle := by
  induction tokens generalizing depth with
  | nil => exact ⟨depth, .nil⟩
  | cons token tokens ih =>
      cases climbs with
      | up kind others =>
          obtain ⟨middle, first⟩ := ih others
          exact ⟨middle, .up kind first⟩
      | down kind others =>
          obtain ⟨middle, first⟩ := ih others
          exact ⟨middle, .down kind first⟩
      | level up down others =>
          obtain ⟨middle, first⟩ := ih others
          exact ⟨middle, .level up down first⟩

theorem count (climbs : Climbs depth tokens last) :
    depth + tokens.countP (·.kind == .indent) = last + tokens.countP (·.kind == .dedent) := by
  induction climbs with
  | nil => rfl
  | up kind others ih =>
      simp only [List.countP_cons, kind, beq_self_eq_true, if_true]
      simp only [reduceCtorEq, beq_iff_eq, if_false]
      omega
  | down kind others ih =>
      simp only [List.countP_cons, kind, beq_self_eq_true, if_true]
      simp only [reduceCtorEq, beq_iff_eq, if_false]
      omega
  | level up down others ih => simpa [List.countP_cons, up, down] using ih

theorem of_plain (plain : ∀ token ∈ tokens, token.kind.isPlain) : Climbs depth tokens depth := by
  induction tokens with
  | nil => exact .nil
  | cons token tokens ih =>
      obtain ⟨first, others⟩ := List.forall_mem_cons.1 plain
      refine .level ?_ ?_ (ih others)
      · intro kind
        rw [kind] at first
        cases first
      · intro kind
        rw [kind] at first
        cases first

theorem of_dedents (only : ∀ token ∈ tokens, token.kind = .dedent) :
    Climbs (tokens.length + depth) tokens depth := by
  induction tokens with
  | nil => rw [List.length_nil, Nat.zero_add]; exact .nil
  | cons token tokens ih =>
      obtain ⟨first, others⟩ := List.forall_mem_cons.1 only
      rw [List.length_cons, Nat.add_right_comm]
      exact .down first (ih others)

end Climbs

/-- How braces stand in tokens that start outside or inside braces. The source may end inside. -/
inductive Braced : Bool → List Token → Prop
  | nil : Braced false []
  | outside {token : Token} {rest : List Token} (other : token.kind.isBrace = false)
      (others : Braced false rest) : Braced false (token :: rest)
  | opens {token : Token} {rest : List Token} (kind : token.kind = .braceOpen)
      (others : Braced true rest) : Braced false (token :: rest)
  | within {token : Token} {rest : List Token} (logical : token.kind.isLogical)
      (others : Braced true rest) : Braced true (token :: rest)
  | closes {token : Token} {rest : List Token} (kind : token.kind = .braceClose)
      (others : Braced false rest) : Braced true (token :: rest)
  | cut {tokens : List Token} (none : ∀ token ∈ tokens, token.kind.isBrace = false) :
      Braced true tokens

namespace Braced

variable {inside : Bool} {tokens more : List Token}

theorem of_outside (none : ∀ token ∈ tokens, token.kind.isBrace = false)
    (others : Braced false more) : Braced false (tokens ++ more) := by
  induction tokens with
  | nil => exact others
  | cons token tokens ih =>
      obtain ⟨first, rest⟩ := List.forall_mem_cons.1 none
      exact .outside first (ih rest)

theorem of_within (logical : ∀ token ∈ tokens, token.kind.isLogical)
    (others : Braced true more) : Braced true (tokens ++ more) := by
  induction tokens with
  | nil => exact others
  | cons token tokens ih =>
      obtain ⟨first, rest⟩ := List.forall_mem_cons.1 logical
      exact .within first (ih rest)

theorem of_none (none : ∀ token ∈ tokens, token.kind.isBrace = false) : Braced inside tokens := by
  cases inside with
  | true => exact .cut none
  | false =>
      rw [← List.append_nil tokens]
      exact .of_outside none .nil

/-- The braces open and close by turns. -/
theorem alternates (braced : Braced inside tokens) (i : Nat) (kind : Kind)
    (found : ((tokens.map Token.kind).filter Kind.isBrace)[i]? = some kind) :
    kind = if (i + inside.toNat) % 2 = 0 then .braceOpen else .braceClose := by
  induction braced generalizing i with
  | nil => simp at found
  | outside other others ih => exact ih i (by simpa [other] using found)
  | opens same others ih =>
      rw [List.map_cons, same, List.filter_cons_of_pos rfl] at found
      cases i with
      | zero => simpa using found.symm
      | succ i => simpa using ih i found
  | within logical others ih =>
      have other := Kind.isBrace_of_isLogical logical
      rw [List.map_cons, List.filter_cons_of_neg (by simp [other])] at found
      exact ih i found
  | closes same others ih =>
      rw [List.map_cons, same, List.filter_cons_of_pos rfl] at found
      cases i with
      | zero => simpa using found.symm
      | succ i =>
          have turn : (i + 1 + true.toNat) % 2 = (i + false.toNat) % 2 := by
            simp only [Bool.toNat_true, Bool.toNat_false]
            omega
          rw [turn]
          exact ih i found
  | cut none =>
      rw [List.filter_eq_nil_iff.2 (by simpa using none)] at found
      cases found

/-- After an opening brace the tokens are inside braces. -/
theorem after_open {opening : Token} (braced : Braced inside (tokens ++ opening :: more))
    (kind : opening.kind = .braceOpen) : Braced true more := by
  induction tokens generalizing inside with
  | nil =>
      cases braced with
      | outside other others => simp [kind, Kind.isBrace] at other
      | opens same others => exact others
      | within logical others => simp [kind, Kind.isLogical] at logical
      | closes other others => simp [kind] at other
      | cut none => simpa [kind, Kind.isBrace] using none opening
  | cons token tokens ih =>
      cases braced with
      | outside other others => exact ih others
      | opens same others => exact ih others
      | within logical others => exact ih others
      | closes other others => exact ih others
      | cut none => exact ih (.cut fun token member => none token (List.mem_cons_of_mem _ member))

/-- Up to the brace that closes them, braces hold logic. -/
theorem logical_of_close {closing : Token} (braced : Braced true (tokens ++ closing :: more))
    (kind : closing.kind = .braceClose) (first : ∀ token ∈ tokens, token.kind ≠ .braceClose) :
    ∀ token ∈ tokens, token.kind.isLogical := by
  induction tokens with
  | nil => exact List.forall_mem_nil _
  | cons token tokens ih =>
      obtain ⟨here, others⟩ := List.forall_mem_cons.1 first
      cases braced with
      | within logical rest => exact List.forall_mem_cons.2 ⟨logical, ih rest others⟩
      | closes same rest => exact absurd same here
      | cut none =>
          have brace := none closing (by simp)
          simp [kind, Kind.isBrace] at brace

end Braced
end Token

theorem Stream.items_after (stream : Stream) (tokens : List Token) :
    (stream.after tokens).items = tokens ++ stream.items := by
  simp [items]

namespace Scanner

/-- Whether the innermost mode is that of braces. -/
def inBraces (s : Scanner) : Bool := s.mode == some .logic

/-- How many levels are open above the margin. -/
def depth (s : Scanner) : Nat := s.indents.length - 1

/-- What a step that goes on does to the open levels and to braces. -/
inductive Moves (s : Scanner) : List Token → Scanner → Prop
  | outside {tokens : List Token} {next : Scanner} (before : s.inBraces = false)
      (plain : ∀ token ∈ tokens, token.kind.isPlain) (levels : next.indents = s.indents)
      (after : next.inBraces = false) : Moves s tokens next
  | within {tokens : List Token} {next : Scanner} (before : s.inBraces = true)
      (logical : ∀ token ∈ tokens, token.kind.isLogical) (levels : next.indents = s.indents)
      (after : next.inBraces = true) : Moves s tokens next
  | opens {token : Token} {next : Scanner} (before : s.inBraces = false)
      (kind : token.kind = .braceOpen) (levels : next.indents = s.indents)
      (after : next.inBraces = true) : Moves s [token] next
  | closes {token : Token} {tokens : List Token} {next : Scanner} (before : s.inBraces = true)
      (kind : token.kind = .braceClose) (plain : ∀ token ∈ tokens, token.kind.isPlain)
      (levels : next.indents = s.indents) (after : next.inBraces = false) :
      Moves s (token :: tokens) next
  | deeper {token : Token} {next : Scanner} {width : Nat} (before : s.inBraces = false)
      (kind : token.kind = .indent) (levels : next.indents = width :: s.indents)
      (after : next.inBraces = false) : Moves s [token] next
  | back {tokens : List Token} {next : Scanner} {closed : List Nat} (before : s.inBraces = false)
      (only : ∀ token ∈ tokens, token.kind = .dedent) (count : tokens.length = closed.length)
      (levels : s.indents = closed ++ next.indents) (after : next.inBraces = false) :
      Moves s tokens next

/-- What holds of a scanner between its steps: the levels rise from the margin, braces hold no other
mode, and no line starts inside braces. -/
structure Sound (s : Scanner) : Prop where
  margin : s.indents.getLast? = some 0
  rising : s.indents.Pairwise (· > ·)
  innermost : Mode.logic ∉ s.modes.tail
  started : s.atLineStart → s.inBraces = false

variable {s next : Scanner} {tokens : List Token}

theorem sound_ofSource (source : String) : (ofSource source).Sound where
  margin := rfl
  rising := List.pairwise_singleton _ _
  innermost := List.not_mem_nil
  started := fun _ => rfl

theorem Sound.ne_nil (sound : s.Sound) : s.indents ≠ [] := by
  intro none
  have margin := sound.margin
  rw [none] at margin
  cases margin

theorem Sound.length_indents (sound : s.Sound) : s.indents.length = s.depth + 1 := by
  have some := List.length_pos_iff.2 sound.ne_nil
  rw [depth]
  omega

theorem Moves.climbs (moves : s.Moves tokens next) (sound : s.Sound) (also : next.Sound) :
    Token.Climbs s.depth tokens next.depth := by
  have here := sound.length_indents
  have there := also.length_indents
  have kept : next.indents = s.indents → next.depth = s.depth := by
    intro levels
    rw [depth, depth, levels]
  cases moves with
  | outside before plain levels after => exact kept levels ▸ .of_plain plain
  | within before logical levels after =>
      refine kept levels ▸ .of_plain ?_
      intro token member
      exact Token.Kind.isPlain_of_isLogical (logical token member)
  | opens before kind levels after =>
      rw [kept levels]
      exact .level (by simp [kind]) (by simp [kind]) .nil
  | closes before kind plain levels after =>
      rw [kept levels]
      exact .level (by simp [kind]) (by simp [kind]) (.of_plain plain)
  | deeper before kind levels after =>
      have more : next.depth = s.depth + 1 := by
        rw [levels, List.length_cons, here] at there
        omega
      exact more ▸ .up kind .nil
  | @back _ _ closed before only count levels after =>
      have fewer : s.depth = tokens.length + next.depth := by
        rw [levels, List.length_append, there] at here
        omega
      exact fewer ▸ .of_dedents only

theorem Moves.braced (moves : s.Moves tokens next) {more : List Token}
    (others : Token.Braced next.inBraces more) : Token.Braced s.inBraces (tokens ++ more) := by
  cases moves with
  | outside before plain levels after =>
      rw [before]
      rw [after] at others
      refine .of_outside ?_ others
      intro token member
      exact Token.Kind.isBrace_of_isPlain (plain token member)
  | within before logical levels after =>
      rw [before]
      rw [after] at others
      exact .of_within logical others
  | opens before kind levels after =>
      rw [before]
      rw [after] at others
      exact .opens kind others
  | closes before kind plain levels after =>
      rw [before]
      rw [after] at others
      refine .closes kind (.of_outside ?_ others)
      intro token member
      exact Token.Kind.isBrace_of_isPlain (plain token member)
  | deeper before kind levels after =>
      rw [before]
      rw [after] at others
      exact .outside (by simp [kind, Token.Kind.isBrace]) others
  | back before only count levels after =>
      rw [before]
      rw [after] at others
      refine .of_outside ?_ others
      intro token member
      simp [only token member, Token.Kind.isBrace]

/-! What each step does. -/

/-- Whether a step makes a move and leaves all as it should be, or closes every open level. -/
def Keeps (s : Scanner) : Step → Prop
  | .more tokens next => s.Moves tokens next ∧ next.Sound
  | .finish tokens eof =>
      tokens.length = s.depth ∧ (∀ token ∈ tokens, token.kind = .dedent) ∧ eof.kind = .eof
  | .fail _ => True

theorem keeps_ite {p : Prop} [Decidable p] {yes no : Step} (left : p → s.Keeps yes)
    (right : ¬p → s.Keeps no) : s.Keeps (if p then yes else no) := by
  split
  · exact left ‹p›
  · exact right ‹¬p›

theorem inBraces_of_not_mem (free : Mode.logic ∉ s.modes) : s.inBraces = false := by
  cases modes : s.modes with
  | nil => simp [inBraces, mode, modes]
  | cons first rest =>
      rw [modes] at free
      have other : first ≠ .logic := fun same => free (same ▸ List.mem_cons_self)
      simp [inBraces, mode, modes, other]

theorem Sound.not_mem_modes (sound : s.Sound) (outside : s.inBraces = false) :
    Mode.logic ∉ s.modes := by
  cases modes : s.modes with
  | nil => exact List.not_mem_nil
  | cons first rest =>
      have innermost := sound.innermost
      rw [modes, List.tail_cons] at innermost
      intro member
      rcases List.mem_cons.1 member with same | member
      · simp [inBraces, mode, modes, ← same] at outside
      · exact innermost member

/-- A step outside of braces that leaves the levels alone and enters no braces. -/
theorem Sound.keeps_outside (sound : s.Sound) (before : s.inBraces = false)
    (plain : ∀ token ∈ tokens, token.kind.isPlain) (levels : next.indents = s.indents)
    (modes : Mode.logic ∉ next.modes) : s.Keeps (.more tokens next) := by
  have after := inBraces_of_not_mem modes
  refine ⟨.outside before plain levels after, ?_, ?_, ?_, fun _ => after⟩
  · rw [levels]
    exact sound.margin
  · rw [levels]
    exact sound.rising
  · exact fun member => modes (List.mem_of_mem_tail member)

/-- A step inside of braces that leaves the levels and the modes alone. -/
theorem Sound.keeps_within (sound : s.Sound) (before : s.inBraces = true)
    (logical : ∀ token ∈ tokens, token.kind.isLogical) (levels : next.indents = s.indents)
    (modes : next.modes = s.modes) (start : next.atLineStart = s.atLineStart) :
    s.Keeps (.more tokens next) := by
  have same : next.inBraces = s.inBraces := by rw [inBraces, inBraces, mode, mode, modes]
  refine ⟨.within before logical levels (same ▸ before), ?_, ?_, ?_, ?_⟩
  · rw [levels]
    exact sound.margin
  · rw [levels]
    exact sound.rising
  · rw [modes]
    exact sound.innermost
  · rw [start, same]
    exact sound.started

theorem isPlain_of_mem_lineBreakAhead {token : Token} (member : token ∈ s.lineBreakAhead) :
    token.kind.isPlain := by
  rw [kind_of_mem_lineBreakAhead member]
  rfl

theorem Sound.lt_of_headD_lt (sound : s.Sound) {width : Nat} (deeper : s.indents.headD 0 < width) :
    ∀ level ∈ s.indents, level < width := by
  have rising := sound.rising
  cases indents : s.indents with
  | nil => exact List.forall_mem_nil _
  | cons first rest =>
      rw [indents] at rising deeper
      refine List.forall_mem_cons.2 ⟨deeper, ?_⟩
      intro level member
      exact Nat.lt_trans ((List.pairwise_cons.1 rising).1 level member) deeper

/-- The margin is never closed. -/
theorem Sound.margin_dropWhile (sound : s.Sound) (width : Nat) :
    (s.indents.dropWhile fun level => width < level).getLast? = some 0 := by
  have margin := sound.margin
  rw [← List.takeWhile_append_dropWhile (p := fun level => width < level) (l := s.indents),
    List.getLast?_append] at margin
  cases kept : s.indents.dropWhile fun level => width < level with
  | nil =>
      rw [kept, List.getLast?_nil, Option.none_or] at margin
      have closed := List.all_eq_true.1 List.all_takeWhile 0 (List.mem_of_getLast? margin)
      simp at closed
  | cons first rest => simpa [kept, List.getLast?_cons] using margin

theorem Sound.keeps_lineStart (sound : s.Sound) (start : s.atLineStart = true) :
    s.Keeps s.lineStart := by
  have before := sound.started start
  have free := sound.not_mem_modes before
  unfold lineStart
  refine keeps_ite (fun _ => ?_) fun _ => ?_
  · exact sound.keeps_outside before (List.forall_mem_nil _) rfl free
  refine keeps_ite (fun _ => ?_) fun _ => ?_
  · exact sound.keeps_outside before (List.forall_mem_nil _) rfl free
  refine keeps_ite (fun deeper => ?_) fun _ => ?_
  · refine ⟨.deeper before rfl rfl before, ?_, ?_, sound.innermost, fun _ => before⟩
    · simp [advance, List.getLast?_cons, sound.margin]
    · exact List.pairwise_cons.2 ⟨sound.lt_of_headD_lt deeper, sound.rising⟩
  · refine keeps_ite (fun same => ?_) fun _ => trivial
    refine ⟨.back before ?_ (List.length_map _) ?_ before, sound.margin_dropWhile _, ?_,
      sound.innermost, fun _ => before⟩
    · intro token member
      obtain ⟨level, -, rfl⟩ := List.mem_map.1 member
      rfl
    · exact List.takeWhile_append_dropWhile.symm
    · exact sound.rising.sublist (List.dropWhile_sublist _)

theorem Sound.keeps_variationsStart (sound : s.Sound) (before : s.inBraces = false) :
    s.Keeps s.variationsStart := by
  have free : Mode.logic ∉ Mode.variations :: s.modes := by
    simpa using sound.not_mem_modes before
  unfold variationsStart
  dsimp only
  split
  · refine keeps_ite (fun _ => ?_) fun _ => ?_
    · split
      · exact sound.keeps_outside before (by simp [mark, carry, Token.Kind.isPlain]) rfl free
      · exact trivial
    · exact sound.keeps_outside before (List.forall_mem_singleton.2 rfl) rfl free
  · exact sound.keeps_outside before (List.forall_mem_singleton.2 rfl) rfl free

theorem Sound.keeps_text (sound : s.Sound) (before : s.inBraces = false) : s.Keeps s.text := by
  have free := sound.not_mem_modes before
  unfold text
  refine keeps_ite (fun _ => ?_) fun _ => ?_
  · exact sound.keeps_outside before (List.forall_mem_singleton.2 rfl) rfl free
  · exact sound.keeps_outside before (List.forall_mem_singleton.2 rfl) rfl free

theorem Sound.keeps_quoted (sound : s.Sound) (before : s.inBraces = false) :
    s.Keeps s.quoted := by
  unfold quoted
  split
  · exact sound.keeps_outside before (List.forall_mem_singleton.2 rfl) rfl
      (sound.not_mem_modes before)
  · exact trivial

theorem Sound.keeps_prose (sound : s.Sound) (before : s.inBraces = false)
    (inside : s.atLineStart = false) (c : Char) : s.Keeps (s.prose c) := by
  have free := sound.not_mem_modes before
  have stays : ∀ {tokens : List Token} {next : Scanner},
      (∀ token ∈ tokens, token.kind.isPlain) → next.indents = s.indents →
      Mode.logic ∉ next.modes → s.Keeps (.more tokens next) :=
    fun plain levels modes => sound.keeps_outside before plain levels modes
  have option : Mode.logic ∉ Mode.option :: s.modes := by simpa using free
  have line : ∀ {token : Token} {ahead : Scanner}, token.kind.isPlain →
      ∀ other ∈ token :: ahead.lineBreakAhead, other.kind.isPlain := by
    intro token ahead plain
    exact List.forall_mem_cons.2 ⟨plain, fun _ => isPlain_of_mem_lineBreakAhead⟩
  unfold prose
  dsimp only
  refine keeps_ite (fun _ => ?_) fun _ => ?_
  · refine ⟨.opens before rfl rfl rfl, sound.margin, sound.rising, free, ?_⟩
    intro start
    exact absurd (inside.symm.trans start) (by decide)
  refine keeps_ite (fun _ => sound.keeps_quoted before) fun _ => ?_
  refine keeps_ite (fun _ => stays (List.forall_mem_nil _) rfl free) fun _ => ?_
  refine keeps_ite (fun _ => sound.keeps_variationsStart before) fun _ => ?_
  refine keeps_ite (fun _ => ?_) fun _ => ?_
  · refine stays (List.forall_mem_singleton.2 rfl) rfl ?_
    exact fun member => free (List.mem_of_mem_tail member)
  refine keeps_ite (fun _ => stays (List.forall_mem_singleton.2 rfl) rfl free) fun _ => ?_
  refine keeps_ite (fun _ => stays (line rfl) rfl free) fun _ => ?_
  refine keeps_ite (fun _ => stays (line rfl) rfl free) fun _ => ?_
  refine keeps_ite (fun _ => stays (List.forall_mem_singleton.2 rfl) rfl free) fun _ => ?_
  refine keeps_ite (fun _ => stays (List.forall_mem_singleton.2 rfl) rfl free) fun _ => ?_
  refine keeps_ite (fun _ => stays (List.forall_mem_singleton.2 rfl) rfl option) fun _ => ?_
  refine keeps_ite (fun _ => stays (List.forall_mem_singleton.2 rfl) rfl option) fun _ => ?_
  refine keeps_ite (fun _ => stays (List.forall_mem_singleton.2 rfl) rfl option) fun _ => ?_
  refine keeps_ite (fun _ => stays (List.forall_mem_singleton.2 rfl) rfl free) fun _ => ?_
  refine keeps_ite (fun _ => stays (List.forall_mem_singleton.2 rfl) rfl free) fun _ => ?_
  refine keeps_ite (fun _ => stays (List.forall_mem_singleton.2 rfl) rfl free) fun _ => ?_
  refine keeps_ite (fun _ => stays (List.forall_mem_singleton.2 rfl) rfl free) fun _ => ?_
  exact sound.keeps_text before

theorem Sound.keeps_logic (sound : s.Sound) (before : s.inBraces = true)
    (c : Char) : s.Keeps (s.logic c) := by
  have stays : ∀ {tokens : List Token} {next : Scanner},
      (∀ token ∈ tokens, token.kind.isLogical) → next.indents = s.indents →
      next.modes = s.modes → next.atLineStart = s.atLineStart → s.Keeps (.more tokens next) :=
    fun logical levels modes start => sound.keeps_within before logical levels modes start
  unfold logic
  refine keeps_ite (fun _ => ?_) fun _ => ?_
  · have outer : s.leave.inBraces = false := inBraces_of_not_mem sound.innermost
    refine ⟨.closes before rfl (fun _ => isPlain_of_mem_lineBreakAhead) rfl outer, sound.margin,
      sound.rising, ?_, fun _ => outer⟩
    exact fun member => sound.innermost (List.mem_of_mem_tail member)
  refine keeps_ite (fun _ => stays (List.forall_mem_nil _) rfl rfl rfl) fun _ => ?_
  refine keeps_ite (fun _ => ?_) fun _ => ?_
  · unfold literal
    split
    · exact stays (List.forall_mem_singleton.2 rfl) rfl rfl rfl
    · exact trivial
  refine keeps_ite (fun _ => stays (List.forall_mem_singleton.2 rfl) rfl rfl rfl) fun _ => ?_
  refine keeps_ite (fun _ => ?_) fun _ => ?_
  · exact stays (List.forall_mem_singleton.2 (isLogical_word _).1) rfl rfl rfl
  unfold operator
  split
  · next found =>
      exact stays (List.forall_mem_singleton.2 (isLogical_of_double? found).1) rfl rfl rfl
  · split
    · next found =>
        exact stays (List.forall_mem_singleton.2 (isLogical_of_single? found).1) rfl rfl rfl
    · exact trivial

theorem Sound.keeps_lineBreak (sound : s.Sound) : s.Keeps (.more [] s.lineBreak) := by
  cases before : s.inBraces with
  | true =>
      have same : s.lineBreak =
          { s with rest := s.rest.drop 1, line := s.line + 1, column := 0 } := by
        rw [lineBreak, beq_iff_eq.1 before]
      rw [same]
      exact sound.keeps_within before (List.forall_mem_nil _) rfl rfl rfl
  | false =>
      have free := sound.not_mem_modes before
      unfold lineBreak
      dsimp only
      split
      · next braces => simp [inBraces, braces] at before
      · refine sound.keeps_outside before (List.forall_mem_nil _) rfl ?_
        exact fun member => free (List.mem_of_mem_tail member)
      · exact sound.keeps_outside before (List.forall_mem_nil _) rfl free

theorem keeps_close (s : Scanner) : s.Keeps s.close := by
  refine ⟨?_, ?_, rfl⟩
  · rw [List.length_map, List.length_dropLast, depth]
  · intro token member
    obtain ⟨level, -, rfl⟩ := List.mem_map.1 member
    rfl

/-- Every step that goes on makes one of the moves, and what held before it holds after it. -/
theorem Sound.keeps_step (sound : s.Sound) : s.Keeps s.step := by
  unfold step
  refine keeps_ite sound.keeps_lineStart fun inside => ?_
  rw [Bool.not_eq_true] at inside
  split
  · exact keeps_close s
  · next c rest split =>
      refine keeps_ite (fun _ => sound.keeps_lineBreak) fun _ => ?_
      refine keeps_ite (fun braces => sound.keeps_logic braces c) fun prose => ?_
      exact sound.keeps_prose (Bool.not_eq_true _ ▸ prose) inside c

/-- The scanners that the steps of a scanner lead to. -/
inductive Reaches (s : Scanner) : Scanner → Prop
  | refl : Reaches s s
  | step {t next : Scanner} {tokens : List Token} (reaches : Reaches s t)
      (stepped : t.step = .more tokens next) : Reaches s next

theorem Sound.of_reaches (sound : s.Sound) (reaches : s.Reaches next) : next.Sound := by
  induction reaches with
  | refl => exact sound
  | step reaches stepped ih => exact (stepped ▸ ih.keeps_step).2

/-- The levels from the margin inwards. -/
theorem Sound.levels (sound : s.Sound) :
    ∃ levels, s.indents.reverse = 0 :: levels ∧ (0 :: levels).Pairwise (· < ·) := by
  obtain ⟨inner, split⟩ := List.getLast?_eq_some_iff.1 sound.margin
  have outwards : s.indents.reverse = 0 :: inner.reverse := by simp [split]
  refine ⟨inner.reverse, outwards, ?_⟩
  rw [← outwards, List.pairwise_reverse]
  exact sound.rising

theorem Sound.climbs_stream (sound : s.Sound) :
    ∃ last, Token.Climbs s.depth s.stream.items last ∧ (s.stream.error? = none → last = 0) := by
  fun_induction Scanner.stream s with
  | case1 s tokens next stepped ih =>
      obtain ⟨moves, also⟩ := stepped ▸ sound.keeps_step
      obtain ⟨last, climbs, closed⟩ := ih also
      refine ⟨last, ?_, closed⟩
      rw [Stream.items_after]
      exact (moves.climbs sound also).append climbs
  | case2 s tokens eof stepped =>
      obtain ⟨count, only, kind⟩ := stepped ▸ sound.keeps_step
      refine ⟨0, ?_, fun _ => rfl⟩
      have ended : Token.Climbs 0 [eof] 0 := .level (by simp [kind]) (by simp [kind]) .nil
      exact count ▸ (Token.Climbs.of_dedents only).append ended
  | case3 s error stepped => exact ⟨s.depth, .nil, fun none => by cases none⟩

theorem Sound.braced_stream (sound : s.Sound) : Token.Braced s.inBraces s.stream.items := by
  fun_induction Scanner.stream s with
  | case1 s tokens next stepped ih =>
      obtain ⟨moves, also⟩ := stepped ▸ sound.keeps_step
      rw [Stream.items_after]
      exact moves.braced (ih also)
  | case2 s tokens eof stepped =>
      obtain ⟨-, only, kind⟩ := stepped ▸ sound.keeps_step
      have none : ∀ token ∈ tokens ++ [eof], token.kind.isBrace = false := by
        intro token member
        rcases List.mem_append.1 member with member | member
        · simp [only token member, Token.Kind.isBrace]
        · obtain rfl := List.mem_singleton.1 member
          simp [kind, Token.Kind.isBrace]
      exact .of_none none
  | case3 s error stepped => exact .of_none (List.forall_mem_nil _)

end Scanner

/-- Levels and braces are balanced in the tokens of every source. No more levels close than were
opened, and all are closed at the end; the widths of the open levels always rise from zero; braces
open and close by turns; and between a brace and the one that closes it stands only logic. -/
theorem Stream.balanced_ofSource (source : String) :
    (∀ seen, seen <+: (ofSource source).items →
      seen.countP (·.kind == .dedent) ≤ seen.countP (·.kind == .indent)) ∧
    ((ofSource source).error? = none →
      (ofSource source).items.countP (·.kind == .dedent) =
        (ofSource source).items.countP (·.kind == .indent)) ∧
    (∀ s, (Scanner.ofSource source).Reaches s →
      ∃ levels, s.indents.reverse = 0 :: levels ∧ (0 :: levels).Pairwise (· < ·)) ∧
    (∀ i kind, (((ofSource source).items.map Token.kind).filter Token.Kind.isBrace)[i]? = some kind →
      kind = if i % 2 = 0 then .braceOpen else .braceClose) ∧
    ∀ before opening inside closing after,
      (ofSource source).items = before ++ opening :: (inside ++ closing :: after) →
      opening.kind = .braceOpen → closing.kind = .braceClose →
      (∀ token ∈ inside, token.kind ≠ .braceClose) → ∀ token ∈ inside, token.kind.isLogical := by
  have sound := Scanner.sound_ofSource source
  obtain ⟨last, climbs, closed⟩ : ∃ last, Token.Climbs 0 (ofSource source).items last ∧
      ((ofSource source).error? = none → last = 0) := sound.climbs_stream
  have braced : Token.Braced false (ofSource source).items := sound.braced_stream
  refine ⟨?_, ?_, ?_, ?_, ?_⟩
  · rintro seen ⟨rest, split⟩
    obtain ⟨middle, first⟩ := Token.Climbs.split (split ▸ climbs)
    have count := first.count
    omega
  · intro ended
    have count := climbs.count
    rw [closed ended] at count
    omega
  · intro s reaches
    exact (sound.of_reaches reaches).levels
  · intro i kind found
    exact braced.alternates i kind found
  · intro before opening inside closing after split opens closes first
    exact ((split ▸ braced).after_open opens).logical_of_close closes first

end Dialogue
