import Dialogue.Proofs.Balance
import Dialogue.Proofs.LineEnds
import Dialogue.Proofs.Pulls

/-! Comment lines. Tokens are read the same on whatever line they stand, and a comment at the start
of a line moves all that comes after it down by one line and does nothing else. -/
namespace Dialogue

/-- A token one line further down, if it stands below some number of lines. -/
def Token.downFrom (line : Nat) (token : Token) : Token :=
  { token with line := if line ≤ token.line then token.line + 1 else token.line }

/-- An error one line further down, if it is below some number of lines. -/
def ParseError.downFrom (line : Nat) (e : ParseError) : ParseError :=
  { e with line := if line < e.line then e.line + 1 else e.line }

def Halt.downFrom (line : Nat) : Halt → Halt
  | fault e => fault (e.downFrom line)
  | exhausted => exhausted

/-- The tokens and the error below some number of lines one line further down. -/
def Stream.downFrom (line : Nat) (stream : Stream) : Stream where
  tokens := stream.tokens.map (Token.downFrom line)
  last := match stream.last with
    | .ok eof => .ok (eof.downFrom line)
    | .error e => .error (e.downFrom line)

theorem ParseError.downFrom_located (line : Nat) (cause : Cause) (at' column : Nat) :
    (located cause at' column).downFrom line =
      located cause (if line ≤ at' then at' + 1 else at') column := by
  simp only [located, downFrom, Nat.lt_succ_iff]
  split <;> rfl

namespace Twinning

/-- A stream beside the same stream with its lower part one line further down. -/
def down (line : Nat) : Twinning where
  Level := fun s t => t = s.downFrom line
  Halts := fun h k => k = h.downFrom line

theorem lawful_down (line : Nat) : (down line).Lawful where
  exhausted := rfl
  peek := by
    rintro ⟨tokens, last⟩ t rfl
    have alike : ∀ token, (down line).Alike token (token.downFrom line) := fun token =>
      ⟨rfl, rfl, fun cause _ => congrArg Halt.fault (ParseError.downFrom_located ..).symm⟩
    cases tokens with
    | cons token rest => exact .inl ⟨token, _, rfl, rfl, alike token⟩
    | nil =>
        cases last with
        | ok eof => exact .inl ⟨eof, _, rfl, rfl, alike eof⟩
        | error e => exact .inr ⟨e, _, rfl, rfl, rfl⟩
  drop := by
    rintro s t a rfl peeked
    left
    simp only [down, Stream.drop, Stream.downFrom, List.map_tail]

end Twinning

/-- Moving tokens down moves down the error, and changes nothing in the document. -/
theorem Document.ofStream_downFrom (line : Nat) (s : Stream) :
    ofStream (s.downFrom line) = (ofStream s).mapError (Halt.downFrom line) := by
  have agree := Twinning.keeps_document (Twinning.lawful_down line) (Parser.allowance s) s
    (s.downFrom line) rfl
  have same : Parser.allowance (s.downFrom line) = Parser.allowance s := by
    simp [Parser.allowance, Stream.downFrom]
  rw [ofStream, ofStream, same]
  generalize Parser.document (Parser.allowance s) s = x at agree
  generalize Parser.document (Parser.allowance s) (s.downFrom line) = y at agree
  cases agree with
  | ok d rest => rfl
  | error halts =>
      obtain rfl := halts
      rfl

namespace Scanner

variable {s t next : Scanner} {tokens : List Token}

/-- The scanner one line further down. -/
def lowered (s : Scanner) : Scanner := { s with line := s.line + 1 }

/-- A step one line further down. -/
def Step.lowered : Step → Step
  | more tokens next => more (tokens.map (Token.downFrom 0)) next.lowered
  | finish tokens eof => finish (tokens.map (Token.downFrom 0)) (eof.downFrom 0)
  | fail e => fail (e.downFrom 0)

theorem quoteRun_succ (v : List Char) (line column : Nat) :
    quoteRun v (line + 1) column =
      (quoteRun v line column).map fun quote => { quote with line := quote.line + 1 } := by
  fun_induction quoteRun v line column with
  | case1 => rfl
  | case2 => rfl
  | case3 c rest line column ih =>
      rw [quoteRun, ih, Option.map_map, Option.map_map]
      rfl
  | case4 => rfl
  | case5 c rest line column inside escaped last breaks ih =>
      rw [quoteRun_cons (ne_backslash escaped last) inside, if_pos breaks, ih, Option.map_map,
        Option.map_map]
      rfl
  | case6 c rest line column inside escaped last breaks ih =>
      rw [quoteRun_cons (ne_backslash escaped last) inside, if_neg breaks, ih, Option.map_map,
        Option.map_map]
      rfl

theorem lineBreakAhead_lowered (s : Scanner) :
    s.lowered.lineBreakAhead = s.lineBreakAhead.map (Token.downFrom 0) := by
  simp only [lineBreakAhead, lowered]
  split <;> rfl

theorem quoted_lowered (s : Scanner) : s.lowered.quoted = s.quoted.lowered := by
  simp only [quoted, lowered, quoteRun_succ]
  cases quoteRun (s.rest.drop 1) s.line (s.column + 1) <;> rfl

theorem variationsStart_lowered (s : Scanner) :
    s.lowered.variationsStart = s.variationsStart.lowered := by
  have inside : ∀ count, (s.lowered.enter .variations).advance count =
      ((s.enter .variations).advance count).lowered := fun count => rfl
  have rest : ∀ t : Scanner, t.lowered.rest = t.rest := fun t => rfl
  simp only [variationsStart, inside, rest]
  split
  · rw [apply_ite Step.lowered]
    split
    · split <;> rfl
    · rfl
  · rfl

theorem text_lowered (s : Scanner) : s.lowered.text = s.text.lowered := by
  simp only [text, apply_ite Step.lowered]
  rfl

theorem line_lowered (token : Token) (s : Scanner) :
    (Step.more (token :: s.lineBreakAhead) s).lowered =
      .more (token.downFrom 0 :: s.lowered.lineBreakAhead) s.lowered := by
  rw [lineBreakAhead_lowered]
  rfl

theorem prose_lowered (s : Scanner) (c : Char) : s.lowered.prose c = (s.prose c).lowered := by
  simp only [prose, apply_ite Step.lowered, ← quoted_lowered, ← variationsStart_lowered,
    ← text_lowered, line_lowered]
  rfl

theorem literal_lowered (s : Scanner) (quote : Char) :
    s.lowered.literal quote = (s.literal quote).lowered := by
  have rest : s.lowered.rest = s.rest := rfl
  simp only [literal, rest]
  split <;> rfl

theorem operator_lowered (s : Scanner) (c : Char) :
    s.lowered.operator c = (s.operator c).lowered := by
  have rest : s.lowered.rest = s.rest := rfl
  simp only [operator, rest]
  split
  · rfl
  · split <;> rfl

theorem word_lowered (s : Scanner) (name : List Char) :
    s.lowered.word name = (s.word name).downFrom 0 := by
  simp only [word]
  split <;> rfl

theorem logic_lowered (s : Scanner) (c : Char) : s.lowered.logic c = (s.logic c).lowered := by
  simp only [logic, apply_ite Step.lowered, ← literal_lowered, ← operator_lowered, line_lowered,
    word_lowered]
  rfl

theorem lineStart_lowered (s : Scanner) : s.lowered.lineStart = s.lineStart.lowered := by
  simp only [lineStart, apply_ite Step.lowered]
  simp only [Step.lowered, List.map_map]
  rfl

theorem lineBreak_lowered (s : Scanner) : s.lowered.lineBreak = s.lineBreak.lowered := by
  have mode : s.lowered.mode = s.mode := rfl
  simp only [lineBreak, mode]
  split <;> rfl

theorem close_lowered (s : Scanner) : s.lowered.close = s.close.lowered := by
  simp only [close, Step.lowered, List.map_map]
  rfl

theorem step_lowered (s : Scanner) : s.lowered.step = s.step.lowered := by
  have rest : s.lowered.rest = s.rest := rfl
  simp only [step, apply_ite Step.lowered, ← lineStart_lowered, rest]
  congr 1
  split
  · exact close_lowered s
  · rw [apply_ite Step.lowered, apply_ite Step.lowered, ← logic_lowered, ← prose_lowered]
    simp only [Step.lowered, lineBreak_lowered]
    rfl

theorem stream_lowered (s : Scanner) : s.lowered.stream = s.stream.downFrom 0 := by
  fun_induction Scanner.stream s with
  | case1 s tokens next stepped ih =>
      have lowered : s.lowered.step = .more _ _ := (step_lowered s).trans (congrArg _ stepped)
      rw [stream_of_more lowered, ih]
      simp [Stream.downFrom, Stream.after]
  | case2 s tokens eof stepped =>
      exact stream_of_finish ((step_lowered s).trans (congrArg _ stepped))
  | case3 s error stepped =>
      exact stream_of_fail ((step_lowered s).trans (congrArg _ stepped))

/-- Whether a step yields tokens of its line, goes on at that line or below, and comes to the start
of a line only by a line break. -/
def Placed (s : Scanner) : Step → Prop
  | .more tokens next => (∀ token ∈ tokens, token.line = s.line) ∧ s.line ≤ next.line ∧
      (next.atLineStart = true → tokens = [] ∧ s.line < next.line ∧ next.column = 0)
  | .finish tokens eof => ∀ token ∈ tokens ++ [eof], token.line = s.line
  | .fail e => e.line = s.line + 1

theorem placed_ite {p : Prop} [Decidable p] {yes no : Step} (left : s.Placed yes)
    (right : s.Placed no) : s.Placed (if p then yes else no) := by
  split
  · exact left
  · exact right

/-- A step that stays within a line. -/
theorem placed_more (here : ∀ token ∈ tokens, token.line = s.line) (line : s.line ≤ next.line)
    (inside : next.atLineStart = false) : s.Placed (.more tokens next) :=
  ⟨here, line, fun start => by simp [inside] at start⟩

theorem line_of_mem_lineBreakAhead {token : Token} (member : token ∈ s.lineBreakAhead) :
    token.line = s.line := by
  unfold lineBreakAhead at member
  dsimp only at member
  split at member
  · obtain rfl := List.mem_singleton.1 member
    rfl
  · cases member

theorem le_line_of_quoteRun {v : List Char} {line column : Nat} {quote : Quote}
    (found : quoteRun v line column = some quote) : line ≤ quote.line := by
  fun_induction quoteRun v line column generalizing quote with
  | case1 => cases found
  | case2 =>
      obtain rfl := Option.some.inj found
      exact Nat.le_refl _
  | case3 c rest line column ih =>
      obtain ⟨inner, ran, rfl⟩ := Option.map_eq_some_iff.1 found
      have below : line ≤ inner.line := ih ran
      exact below
  | case4 => cases found
  | case5 c rest line column inside escaped last breaks ih =>
      obtain ⟨inner, ran, rfl⟩ := Option.map_eq_some_iff.1 found
      have below : line + 1 ≤ inner.line := ih ran
      exact Nat.le_of_succ_le below
  | case6 c rest line column inside escaped last breaks ih =>
      obtain ⟨inner, ran, rfl⟩ := Option.map_eq_some_iff.1 found
      have below : line ≤ inner.line := ih ran
      exact below

section Inside

variable (inside : s.atLineStart = false)
include inside

theorem placed_mark (kind : Token.Kind) (line : next.line = s.line)
    (flag : next.atLineStart = s.atLineStart) : s.Placed (.more [s.mark kind] next) :=
  placed_more (List.forall_mem_singleton.2 rfl) line.ge (flag.trans inside)

theorem placed_carry (kind : Token.Kind) (text : List Char) (line : next.line = s.line)
    (flag : next.atLineStart = s.atLineStart) : s.Placed (.more [s.carry kind text] next) :=
  placed_more (List.forall_mem_singleton.2 rfl) line.ge (flag.trans inside)

theorem placed_line {token : Token} (here : token.line = s.line) (line : next.line = s.line)
    (flag : next.atLineStart = s.atLineStart) :
    s.Placed (.more (token :: next.lineBreakAhead) next) := by
  refine placed_more (List.forall_mem_cons.2 ⟨here, fun other member => ?_⟩) line.ge
    (flag.trans inside)
  exact (line_of_mem_lineBreakAhead member).trans line

theorem placed_quoted : s.Placed s.quoted := by
  unfold quoted
  split
  · next quote found =>
      exact placed_more (List.forall_mem_singleton.2 rfl) (le_line_of_quoteRun found) inside
  · exact rfl

theorem placed_variationsStart : s.Placed s.variationsStart := by
  unfold variationsStart
  dsimp only
  split
  · refine placed_ite ?_ (placed_mark inside _ rfl rfl)
    split
    · exact placed_more (by simp [mark, carry, advance, enter]) (Nat.le_refl _) inside
    · exact rfl
  · exact placed_mark inside _ rfl rfl

theorem placed_text : s.Placed s.text :=
  placed_ite (placed_carry inside _ _ rfl rfl) (placed_carry inside _ _ rfl rfl)

theorem placed_prose (c : Char) : s.Placed (s.prose c) := by
  have mark : ∀ {kind : Token.Kind} {next : Scanner}, next.line = s.line →
      next.atLineStart = s.atLineStart → s.Placed (.more [s.mark kind] next) :=
    fun line flag => placed_mark inside _ line flag
  unfold prose
  refine placed_ite (mark rfl rfl) (placed_ite (placed_quoted inside) ?_)
  refine placed_ite (placed_more (List.forall_mem_nil _) (Nat.le_refl _) inside) ?_
  refine placed_ite (placed_variationsStart inside) (placed_ite (mark rfl rfl) ?_)
  refine placed_ite (placed_carry inside _ _ rfl rfl) ?_
  refine placed_ite (placed_line inside rfl rfl rfl) ?_
  refine placed_ite (placed_line inside rfl rfl rfl) ?_
  refine placed_ite (mark rfl rfl) (placed_ite (mark rfl rfl) ?_)
  refine placed_ite (mark rfl rfl) (placed_ite (mark rfl rfl) (placed_ite (mark rfl rfl) ?_))
  refine placed_ite (mark rfl rfl) (placed_ite (mark rfl rfl) ?_)
  refine placed_ite (placed_carry inside _ _ rfl rfl) (placed_ite ?_ (placed_text inside))
  exact placed_carry inside _ _ rfl rfl

theorem placed_logic (c : Char) : s.Placed (s.logic c) := by
  unfold logic
  refine placed_ite (placed_line inside rfl rfl rfl) ?_
  refine placed_ite (placed_more (List.forall_mem_nil _) (Nat.le_refl _) inside) ?_
  refine placed_ite ?_ (placed_ite (placed_carry inside _ _ rfl rfl) (placed_ite ?_ ?_))
  · unfold literal
    split
    · exact placed_carry inside _ _ rfl rfl
    · exact rfl
  · refine placed_more (List.forall_mem_singleton.2 ?_) (Nat.le_refl _) inside
    unfold word
    dsimp only
    split <;> rfl
  · unfold operator
    split
    · exact placed_mark inside _ rfl rfl
    · split
      · exact placed_mark inside _ rfl rfl
      · exact rfl

end Inside

theorem placed_lineBreak : s.Placed (.more [] s.lineBreak) := by
  have line : s.lineBreak.line = s.line + 1 := by
    unfold lineBreak
    dsimp only
    split <;> rfl
  have column : s.lineBreak.column = 0 := by
    unfold lineBreak
    dsimp only
    split <;> rfl
  exact ⟨List.forall_mem_nil _, by omega, fun _ => ⟨rfl, by omega, column⟩⟩

theorem placed_lineStart : s.Placed s.lineStart := by
  unfold lineStart
  refine placed_ite (placed_more (List.forall_mem_nil _) (Nat.le_refl _) rfl) (placed_ite ?_ ?_)
  · exact ⟨List.forall_mem_nil _, Nat.le_succ _, fun _ => ⟨rfl, Nat.lt_succ_self _, rfl⟩⟩
  · refine placed_ite (placed_more (List.forall_mem_singleton.2 rfl) (Nat.le_refl _) rfl) ?_
    refine placed_ite (placed_more (fun token member => ?_) (Nat.le_refl _) rfl) rfl
    obtain ⟨level, -, rfl⟩ := List.mem_map.1 member
    rfl

theorem placed_step (s : Scanner) : s.Placed s.step := by
  unfold step
  split
  · exact placed_lineStart
  · next inside =>
      rw [Bool.not_eq_true] at inside
      split
      · intro token member
        obtain member | member := List.mem_append.1 member
        · obtain ⟨level, -, rfl⟩ := List.mem_map.1 member
          rfl
        · obtain rfl := List.mem_singleton.1 member
          rfl
      · refine placed_ite placed_lineBreak ?_
        exact placed_ite (placed_logic inside _) (placed_prose inside _)

/-- Nothing that is still to come stands above the scanner. -/
theorem le_line_stream (s : Scanner) :
    (∀ token ∈ s.stream.items, s.line ≤ token.line) ∧
    ∀ e, s.stream.error? = some e → s.line < e.line := by
  fun_induction Scanner.stream s with
  | case1 s tokens next stepped ih =>
      obtain ⟨here, below, -⟩ : s.Placed (.more tokens next) := stepped ▸ placed_step s
      refine ⟨fun token member => ?_, fun e found => Nat.lt_of_le_of_lt below (ih.2 e found)⟩
      rw [Stream.items_after] at member
      obtain member | member := List.mem_append.1 member
      · exact (here token member).ge
      · exact Nat.le_trans below (ih.1 token member)
  | case2 s tokens eof stepped =>
      have here : s.Placed (.finish tokens eof) := stepped ▸ placed_step s
      exact ⟨fun token member => (here token member).ge, fun e found => by cases found⟩
  | case3 s error stepped =>
      have here : s.Placed (.fail error) := stepped ▸ placed_step s
      refine ⟨List.forall_mem_nil _, fun e found => ?_⟩
      obtain rfl := Option.some.inj found
      exact Nat.lt_of_lt_of_eq (Nat.lt_succ_self _) here.symm

/-- The tokens that the steps from one scanner to another yield. -/
inductive Reads : Scanner → List Token → Scanner → Prop
  | refl (s : Scanner) : Reads s [] s
  | step {s next t : Scanner} {tokens more : List Token} (stepped : s.step = .more tokens next)
      (reads : Reads next more t) : Reads s (tokens ++ more) t

theorem Reads.snoc {middle : Scanner} {more : List Token} (reads : Reads s tokens middle)
    (stepped : middle.step = .more more t) : Reads s (tokens ++ more) t := by
  induction reads with
  | refl s =>
      have one := Reads.step stepped (.refl t)
      rwa [List.append_nil] at one
  | step first reads ih =>
      rw [List.append_assoc]
      exact .step first (ih stepped)

theorem exists_reads (reaches : s.Reaches t) : ∃ tokens, Reads s tokens t := by
  induction reaches with
  | refl => exact ⟨[], .refl s⟩
  | step reaches stepped ih =>
      obtain ⟨tokens, reads⟩ := ih
      exact ⟨_, reads.snoc stepped⟩

theorem Reads.stream (reads : Reads s tokens t) : s.stream = t.stream.after tokens := by
  induction reads with
  | refl s => rfl
  | step stepped reads ih => rw [stream_of_more stepped, ih, ← Stream.after_append]

theorem Reads.eq_or_size_lt (reads : Reads s tokens t) :
    (s = t ∧ tokens = []) ∨ t.size < s.size := by
  induction reads with
  | refl s => exact .inl ⟨rfl, rfl⟩
  | step stepped reads ih =>
      right
      have lt := size_lt_of_step stepped
      obtain ⟨rfl, -⟩ | less := ih
      · exact lt
      · exact less.trans lt

/-- At the start of a line, everything that was read stands above it. -/
theorem Reads.above (reads : Reads s tokens t) (start : t.atLineStart = true) :
    (s = t ∧ tokens = []) ∨
    (∀ token ∈ tokens, token.line < t.line) ∧ s.line < t.line ∧ t.column = 0 := by
  induction reads with
  | refl s => exact .inl ⟨rfl, rfl⟩
  | @step s next t tokens more stepped reads ih =>
      right
      obtain ⟨here, below, opens⟩ : s.Placed (.more tokens next) := stepped ▸ placed_step s
      obtain ⟨rfl, rfl⟩ | ⟨above, line, column⟩ := ih start
      · obtain ⟨rfl, line, column⟩ := opens start
        exact ⟨List.forall_mem_nil _, line, column⟩
      · refine ⟨fun token member => ?_, Nat.lt_of_le_of_lt below line, column⟩
        obtain member | member := List.mem_append.1 member
        · rw [here token member]
          exact Nat.lt_of_le_of_lt below line
        · exact above token member

/-- A scanner at the start of a line with no more left than another is that other, if it leads
there. -/
theorem Reads.eq_of_length_le (reads : Reads s tokens t) (start : t.atLineStart = true)
    (short : s.rest.length ≤ t.rest.length) : s = t ∧ tokens = [] := by
  refine reads.eq_or_size_lt.resolve_right fun less => ?_
  simp only [size, start, ↓reduceIte] at less
  split at less <;> omega

theorem step_followed_nil (none : s.rest = []) (inside : s.atLineStart = false) (x : List Char) :
    (s.followed x).step = .more [] (s.lineBreak.before x) := by
  have flag : (s.followed x).atLineStart = false := inside
  have next : (s.followed x).lineBreak = s.lineBreak.before x := by
    simp only [lineBreak, mode_followed, rest_followed, none, List.nil_append, List.drop_succ_cons,
      List.drop_zero]
    split <;> rfl
  simp only [step, flag, Bool.false_eq_true, ↓reduceIte, rest_followed, none, List.nil_append,
    BEq.rfl, next]

/-- What is read up to the start of a line does not depend on what stands there. -/
theorem Reads.transfer {x : List Char} (reads : Reads (s.followed x) tokens t) (rest : t.rest = x)
    (start : t.atLineStart = true) (y : List Char) : Reads (s.followed y) tokens (t.before y) := by
  generalize source : s.followed x = u at reads
  induction reads generalizing s with
  | refl u =>
      have length := congrArg List.length (source ▸ rest)
      simp at length
      omega
  | @step u next t tokens more stepped reads ih =>
      subst source
      by_cases here : s.atLineStart = true ∨ s.rest ≠ []
      · have passing := passing_step here
        generalize s.step = step at passing
        generalize following : (fun x => (s.followed x).step) = there at passing
        have all : ∀ x, (s.followed x).step = there x := congrFun following
        rw [all] at stepped
        cases passing with
        | within same =>
            obtain ⟨rfl, rfl⟩ := Step.more.inj ((same x).symm.trans stepped)
            exact .step ((all y).trans (same y)) (ih rest start rfl)
        | fail same => cases (same x).symm.trans stepped
        | ending ends breaks blank levels same =>
            obtain ⟨rfl, rfl⟩ := Step.more.inj ((same x).symm.trans stepped)
            exact .step ((all y).trans (same y)) (ih rest start rfl)
        | below next opens levels same =>
            obtain ⟨rfl, rfl⟩ := Step.more.inj ((same x).symm.trans stepped)
            obtain ⟨rfl, rfl⟩ := reads.eq_of_length_le start (by simp [rest])
            exact .step ((all y).trans (same y)) (.refl _)
        | beyond short ends =>
            obtain ⟨less, inside⟩ := short x tokens next stepped
            obtain ⟨rfl, rfl⟩ := reads.eq_of_length_le start (rest ▸ less)
            cases inside.symm.trans start
      · have none : s.rest = [] := not_ne_iff.1 fun some => here (.inr some)
        have inside : s.atLineStart = false := by simpa using fun flag => here (.inl flag)
        obtain ⟨rfl, rfl⟩ := Step.more.inj ((step_followed_nil none inside x).symm.trans stepped)
        obtain ⟨rfl, rfl⟩ := reads.eq_of_length_le start (by simp [rest])
        exact .step (step_followed_nil none inside y) (.refl _)

/-- Whether a scanner stands where exactly a text has been read, in some source that starts with
it. -/
def StandsAfter (t : Scanner) (text : String) : Prop :=
  ∃ x : String, (ofSource (text ++ x)).Reaches t ∧ t.rest = x.toList

theorem ofSource_of_bare {y : String} (bare : y.toList.head? ≠ some (Char.ofNat 0xFEFF)) :
    ofSource y = { rest := y.toList } := by
  rw [ofSource]
  cases split : y.toList with
  | nil => rfl
  | cons c v =>
      have other : (c == Char.ofNat 0xFEFF) = false := by simpa [split] using bare
      rw [List.dropWhile_cons_of_neg (by simp [other])]

/-- Nothing of a text is read twice: what was read before the start of a line is the same before any
other text without byte order marks in front. -/
theorem StandsAfter.reads {text : String} (stands : t.StandsAfter text)
    (start : t.atLineStart = true) (lines : text = "" ∨ ∃ line, text = line ++ "\n") :
    ∃ front, ∀ y : String, y.toList.head? ≠ some (Char.ofNat 0xFEFF) →
      Reads (ofSource (text ++ y)) front (t.before y.toList) := by
  obtain ⟨x, reaches, rest⟩ := stands
  obtain ⟨front, reads⟩ := exists_reads reaches
  refine ⟨front, fun y bare => ?_⟩
  obtain rfl | ⟨line, rfl⟩ := lines
  · have short : (ofSource ("" ++ x)).rest.length ≤ t.rest.length := by
      rw [rest, String.empty_append]
      exact (List.dropWhile_sublist _).length_le
    obtain ⟨rfl, rfl⟩ := reads.eq_of_length_le start short
    rw [String.empty_append, ofSource_of_bare bare]
    exact .refl _
  · rw [ofSource_newline_append] at reads ⊢
    exact reads.transfer rest start y.toList

/-- A line with nothing but a comment. -/
def commentLine (gap note : String) : String := gap ++ "--" ++ note ++ "\n"

theorem commentLine_head?_ne {gap : String} (q : String)
    (spaces : ∀ c ∈ gap.toList, c = ' ' ∨ c = '\t') (note : String) :
    (commentLine gap note ++ q).toList.head? ≠ some (Char.ofNat 0xFEFF) := by
  simp only [commentLine, String.toList_append, List.append_assoc]
  cases split : gap.toList with
  | nil => exact fun same => absurd (Option.some.inj same) (by decide)
  | cons c rest =>
      refine fun same => absurd (Option.some.inj same) ?_
      obtain rfl | rfl := spaces c (by simp [split]) <;> decide

theorem step_commentLine {gap note : String} {q : List Char} (spaces : ∀ c ∈ gap.toList, isSpace c)
    (single : '\n' ∉ note.toList) (start : t.atLineStart = true) (margin : t.column = 0) :
    (t.before ((commentLine gap note).toList ++ q)).step = .more [] (t.before q).lowered := by
  have text : (commentLine gap note).toList ++ q =
      gap.toList ++ '-' :: '-' :: (note.toList ++ '\n' :: q) := by
    simp [commentLine]
  rw [text]
  have flag : ∀ v, (t.before v).atLineStart = true := fun _ => start
  have width : (gap.toList ++ '-' :: '-' :: (note.toList ++ '\n' :: q)).takeWhile isSpace =
      gap.toList := by
    rw [List.takeWhile_append_of_pos spaces]
    exact List.append_nil _
  have below : ('-' :: '-' :: (note.toList ++ '\n' :: q)).dropWhile (fun c => c != '\n') =
      '\n' :: q := by
    have inside : ∀ c ∈ '-' :: '-' :: note.toList, (c != '\n') = true := by
      intro c member
      have other : c ≠ '\n' := by
        rintro rfl
        simp [single] at member
      simpa using other
    exact (List.dropWhile_append_of_pos inside).trans rfl
  simp only [step, flag, ↓reduceIte, lineStart, rest_before, width, List.drop_left, below]
  rw [if_neg (by simp), if_pos (by simp)]
  simp [before, lowered, start, margin]

end Scanner

namespace Stream

theorem downFrom_after {line : Nat} {s : Stream} {front : List Token}
    (above : ∀ token ∈ front, token.line < line) (below : ∀ token ∈ s.items, line ≤ token.line)
    (beyond : ∀ e, s.error? = some e → line < e.line) :
    (s.after front).downFrom line = (s.downFrom 0).after front := by
  have stays : front.map (Token.downFrom line) = front := by
    refine (List.map_congr_left fun token member => ?_).trans (List.map_id front)
    simp [Token.downFrom, Nat.not_le.2 (above token member)]
  have moves : ∀ token ∈ s.items, token.downFrom line = token.downFrom 0 := by
    intro token member
    simp [Token.downFrom, below token member]
  obtain ⟨tokens, last⟩ := s
  have rest : tokens.map (Token.downFrom line) = tokens.map (Token.downFrom 0) :=
    List.map_congr_left fun token member => moves token (List.mem_append_left _ member)
  simp only [downFrom, after, List.map_append, stays, rest]
  cases last with
  | ok eof => simp [moves eof (by simp [items])]
  | error e =>
      have lower : line < e.line := beyond e rfl
      simp [ParseError.downFrom, lower, Nat.zero_lt_of_lt lower]

end Stream

open Scanner (StandsAfter commentLine) in
/-- A comment line at the start of a line is not seen. Where `p` has been read and a line starts,
what comes after the comment gives the tokens that it gives without it, one line further down; what
was read before stays as it is. The document is the same, and so is an error, which lies one line
further down if it lies in what comes after. -/
theorem parse_commentLine {p q gap note : String} {t : Scanner}
    (lines : p = "" ∨ ∃ line, p = line ++ "\n") (stands : t.StandsAfter p)
    (start : t.atLineStart = true) (spaces : ∀ c ∈ gap.toList, c = ' ' ∨ c = '\t')
    (single : '\n' ∉ note.toList) (bare : q.toList.head? ≠ some (Char.ofNat 0xFEFF)) :
    (∃ front, Stream.ofSource (p ++ q) = (t.before q.toList).stream.after front ∧
      Stream.ofSource (p ++ commentLine gap note ++ q) =
        ((t.before q.toList).stream.downFrom 0).after front ∧
      ∀ token ∈ front, token.line < t.line) ∧
    (∀ token ∈ (t.before q.toList).stream.items, t.line ≤ token.line) ∧
    (∀ e, (t.before q.toList).stream.error? = some e → t.line < e.line) ∧
    parse (p ++ commentLine gap note ++ q) = (parse (p ++ q)).mapError (Halt.downFrom t.line) := by
  obtain ⟨front, reads⟩ := stands.reads start lines
  have plain := reads q bare
  have commented := Scanner.commentLine_head?_ne q spaces note
  have beside := reads (commentLine gap note ++ q) commented
  have blank : ∀ c ∈ gap.toList, Scanner.isSpace c := fun c member => by
    obtain rfl | rfl := spaces c member <;> rfl
  obtain ⟨above, margin⟩ : (∀ token ∈ front, token.line < t.line) ∧ t.column = 0 := by
    obtain ⟨here, rfl⟩ | ⟨above, -, margin⟩ := plain.above start
    · exact ⟨List.forall_mem_nil _, (congrArg Scanner.column here).symm⟩
    · exact ⟨above, margin⟩
  have stream : (t.before (commentLine gap note ++ q).toList).stream =
      (t.before q.toList).stream.downFrom 0 := by
    rw [String.toList_append,
      Scanner.stream_of_more (Scanner.step_commentLine blank single start margin),
      Scanner.stream_lowered]
    rfl
  have here : Stream.ofSource (p ++ q) = (t.before q.toList).stream.after front := plain.stream
  have there : Stream.ofSource (p ++ commentLine gap note ++ q) =
      ((t.before q.toList).stream.downFrom 0).after front := by
    rw [String.append_assoc, ← stream]
    exact beside.stream
  obtain ⟨below, beyond⟩ := (t.before q.toList).le_line_stream
  refine ⟨⟨front, here, there, above⟩, below, beyond, ?_⟩
  rw [parse, parse, there, ← Stream.downFrom_after above below beyond, here,
    Document.ofStream_downFrom]

theorem parse_commentLine_in_variations :
    ∃ t : Scanner, t.modes = [.variations] ∧ t.indents = [2, 0] ∧ t.line = 2 ∧
      t.StandsAfter "(\n  - ann: b\n" ∧
      parse ("(\n  - ann: b\n" ++ Scanner.commentLine "\t" " (" ++ "  - ok\n)\n") =
        (parse ("(\n  - ann: b\n" ++ "  - ok\n)\n")).mapError (Halt.downFrom 2) := by
  have reaches : (Scanner.ofSource ("(\n  - ann: b\n" ++ "")).Reaches
      { rest := [], line := 2, indents := [2, 0], modes := [.variations] } := by
    exact .step (.step (.step (.step (.step (.step (.step (.step (.step (.step .refl
      rfl) rfl) rfl) rfl) rfl) rfl) rfl) rfl) rfl) rfl
  refine ⟨_, rfl, rfl, rfl, ⟨"", reaches, rfl⟩, ?_⟩
  exact (parse_commentLine (.inr ⟨"(\n  - ann: b", rfl⟩) ⟨"", reaches, rfl⟩ rfl (by simp)
    (by decide) (by decide)).2.2.2

end Dialogue
