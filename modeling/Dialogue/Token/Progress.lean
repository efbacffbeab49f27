import Dialogue.Token.Scanner

/-! Every step of a scanner that goes on leaves less to read. Main statement:
`Scanner.size_lt_of_step`. -/
namespace Dialogue
namespace Scanner

/-- A step that goes on leaves fewer characters and does not start a line. -/
def Consumes (s : Scanner) (step : Step) : Prop :=
  ∀ tokens next, step = .more tokens next →
    next.rest.length < s.rest.length ∧ next.atLineStart = s.atLineStart

theorem consumes_fail (s : Scanner) (error : ParseError) : s.Consumes (.fail error) := by
  intro tokens next h
  cases h

theorem consumes_more {s next : Scanner} {tokens : List Token}
    (shorter : next.rest.length < s.rest.length) (start : next.atLineStart = s.atLineStart) :
    s.Consumes (.more tokens next) := by
  intro tokens' next' h
  cases h
  exact ⟨shorter, start⟩

theorem length_drop_lt {rest : List Char} {count : Nat} (nonempty : 0 < rest.length)
    (positive : 0 < count) : (rest.drop count).length < rest.length := by
  rw [List.length_drop]
  omega

theorem consumes_single {s : Scanner} (kind : Token.Kind) (width : Nat)
    (nonempty : 0 < s.rest.length) : s.Consumes (s.single kind width) :=
  consumes_more (length_drop_lt nonempty (Nat.succ_pos width)) rfl

theorem consumes_marker {s : Scanner} (kind : Token.Kind) (nonempty : 0 < s.rest.length) :
    s.Consumes (s.marker kind) :=
  consumes_more (length_drop_lt nonempty (Nat.succ_pos _)) rfl

theorem consumes_variationsStart {s : Scanner} (nonempty : 0 < s.rest.length) :
    s.Consumes s.variationsStart := by
  unfold variationsStart
  dsimp only
  split
  · split
    · split
      · refine consumes_more ?_ rfl
        rw [rest_advance, rest_advance, rest_enter, List.length_drop]
        have short := length_drop_lt nonempty
          (Nat.zero_lt_succ ((s.rest.drop 1).takeWhile isSpace).length)
        exact Nat.lt_of_le_of_lt (Nat.sub_le _ _) short
      · exact consumes_fail s _
    · exact consumes_more (length_drop_lt nonempty (Nat.succ_pos _)) rfl
  · exact consumes_more (length_drop_lt nonempty (Nat.succ_pos _)) rfl

theorem textRun_count_pos {ends : Char → Bool} {c : Char} (speakers : Bool) (rest : List Char)
    (plain : ends c = false) : 0 < (textRun ends speakers (c :: rest)).count := by
  unfold textRun
  split <;> simp_all [Run.cons]
  split <;> simp

theorem consumes_text {s : Scanner} {c : Char} {rest : List Char} (split : s.rest = c :: rest)
    (plain : endsText (s.mode == some .option) c = false) : s.Consumes s.text := by
  have nonempty : 0 < s.rest.length := by simp [split]
  have some : 0 < (textRun (endsText (s.mode == some .option)) (!s.speakerSeen) s.rest).count := by
    rw [split]
    exact textRun_count_pos _ _ plain
  unfold text
  dsimp only
  split
  · exact consumes_more (length_drop_lt nonempty some) rfl
  · exact consumes_more (length_drop_lt nonempty some) rfl

theorem consumes_quoted {s : Scanner} (nonempty : 0 < s.rest.length) : s.Consumes s.quoted := by
  unfold quoted
  split
  · exact consumes_more (length_drop_lt nonempty (Nat.succ_pos _)) rfl
  · exact consumes_fail s _

theorem consumes_ite {s : Scanner} {p : Prop} [Decidable p] {yes no : Step}
    (left : p → s.Consumes yes) (right : ¬p → s.Consumes no) :
    s.Consumes (if p then yes else no) := by
  split
  · exact left ‹p›
  · exact right ‹¬p›

/-- What does not begin anything else in dialogue is text. -/
theorem endsText_eq_false {inOption : Bool} {c : Char} (noBreak : (c == '\n') = false)
    (brace : ¬ (c == '\x7b') = true) (opening : ¬ (c == '[' && inOption) = true)
    (closing : ¬ (c == ']' && inOption) = true) (dollar : ¬ (c == '$') = true)
    (hash : ¬ (c == '#') = true) : endsText inOption c = false := by
  simp only [Bool.not_eq_true] at brace opening closing dollar hash
  simp only [endsText, noBreak, brace, dollar, hash, Bool.or_false, Bool.false_or]
  cases inOption with
  | false => rfl
  | true =>
      rw [Bool.and_true] at opening closing
      rw [opening, closing]
      rfl

theorem consumes_prose {s : Scanner} {c : Char} {rest : List Char} (cons : s.rest = c :: rest)
    (noBreak : (c == '\n') = false) : s.Consumes (s.prose c) := by
  have nonempty : 0 < s.rest.length := by simp [cons]
  have steps : ∀ {next : Scanner} {tokens : List Token} (count : Nat),
      next.rest = s.rest.drop (count + 1) → next.atLineStart = s.atLineStart →
      s.Consumes (.more tokens next) := by
    intro next tokens count rest start
    exact consumes_more (rest ▸ length_drop_lt nonempty (Nat.succ_pos count)) start
  unfold prose
  dsimp only
  refine consumes_ite (fun _ => steps 0 rfl rfl) fun brace => ?_
  refine consumes_ite (fun _ => consumes_quoted nonempty) fun _ => ?_
  refine consumes_ite (fun _ => steps 0 rfl rfl) fun _ => ?_
  refine consumes_ite (fun _ => consumes_variationsStart nonempty) fun _ => ?_
  refine consumes_ite (fun _ => steps 0 rfl rfl) fun _ => ?_
  refine consumes_ite (fun _ => steps _ rfl rfl) fun _ => ?_
  refine consumes_ite (fun _ => steps _ rfl rfl) fun _ => ?_
  refine consumes_ite (fun _ => steps 1 rfl rfl) fun _ => ?_
  refine consumes_ite (fun _ => consumes_single _ _ nonempty) fun _ => ?_
  refine consumes_ite (fun _ => consumes_single _ _ nonempty) fun _ => ?_
  refine consumes_ite (fun _ => steps 0 rfl rfl) fun _ => ?_
  refine consumes_ite (fun _ => steps 0 rfl rfl) fun _ => ?_
  refine consumes_ite (fun _ => steps 0 rfl rfl) fun _ => ?_
  refine consumes_ite (fun _ => consumes_single _ _ nonempty) fun opening => ?_
  refine consumes_ite (fun _ => consumes_single _ _ nonempty) fun closing => ?_
  refine consumes_ite (fun _ => consumes_marker _ nonempty) fun dollar => ?_
  refine consumes_ite (fun _ => consumes_marker _ nonempty) fun hash => ?_
  exact consumes_text cons (endsText_eq_false noBreak brace opening closing dollar hash)

theorem consumes_literal {s : Scanner} (quote : Char) (nonempty : 0 < s.rest.length) :
    s.Consumes (s.literal quote) := by
  unfold literal
  split
  · exact consumes_more (length_drop_lt nonempty (Nat.succ_pos _)) rfl
  · exact consumes_fail s _

theorem consumes_operator {s : Scanner} (c : Char) (nonempty : 0 < s.rest.length) :
    s.Consumes (s.operator c) := by
  unfold operator
  split
  · exact consumes_single _ _ nonempty
  · split
    · exact consumes_single _ _ nonempty
    · exact consumes_fail s _

theorem numberRun_length_pos {c : Char} (rest : List Char) (digit : c.isDigit = true) :
    0 < (numberRun (c :: rest)).length := by
  unfold numberRun
  dsimp only
  rw [List.takeWhile_cons_of_pos digit]
  split
  · split <;> simp
  · simp

theorem isWord_of_isAlphabetic {c : Char} (h : (Text.isAlphabetic c || c == '_') = true) :
    Text.isWord c = true := by
  cases alphabetic : Text.isAlphabetic c with
  | true => simp [Text.isWord, Text.isAlphanumeric, alphabetic]
  | false => simpa [Text.isWord, alphabetic] using Or.inr (by simpa [alphabetic] using h)

theorem consumes_logic {s : Scanner} {c : Char} {rest : List Char} (cons : s.rest = c :: rest) :
    s.Consumes (s.logic c) := by
  have nonempty : 0 < s.rest.length := by simp [cons]
  unfold logic
  refine consumes_ite (fun _ => ?_) fun _ => ?_
  · exact consumes_more (length_drop_lt nonempty Nat.one_pos) rfl
  refine consumes_ite (fun _ => ?_) fun _ => ?_
  · exact consumes_more (length_drop_lt nonempty Nat.one_pos) rfl
  refine consumes_ite (fun _ => consumes_literal c nonempty) fun _ => ?_
  refine consumes_ite (fun digit => ?_) fun _ => ?_
  · refine consumes_more (length_drop_lt nonempty ?_) rfl
    rw [cons]
    exact numberRun_length_pos rest digit
  refine consumes_ite (fun letter => ?_) fun _ => consumes_operator c nonempty
  refine consumes_more (length_drop_lt nonempty ?_) rfl
  rw [cons, List.takeWhile_cons_of_pos (isWord_of_isAlphabetic letter)]
  simp

theorem size_lt_of_lineStart {s next : Scanner} {tokens : List Token}
    (start : s.atLineStart = true) (h : s.lineStart = .more tokens next) : next.size < s.size := by
  have started : ∀ {t : Scanner} {width : Nat}, t.rest = s.rest.drop width →
      t.atLineStart = false → t.size < s.size := by
    intro t width rest flag
    simp only [size, rest, flag, start, List.length_drop]
    simp only [Bool.false_eq_true, ↓reduceIte]
    omega
  unfold lineStart at h
  dsimp only at h
  split at h
  · cases h
    exact started rfl rfl
  · split at h
    · rename_i filled comment
      cases h
      simp only [size, start]
      have shorter := List.Sublist.length_le (List.dropWhile_sublist (fun c => c != '\n')
        (l := s.rest.drop (s.rest.takeWhile isSpace).length))
      have nonempty : (s.rest.drop (s.rest.takeWhile isSpace).length).length ≠ 0 := by
        intro none
        rw [List.length_eq_zero_iff.1 none] at comment
        cases comment
      simp only [List.length_drop] at shorter nonempty ⊢
      omega
    · split at h
      · cases h
        exact started rfl rfl
      · split at h
        · cases h
          exact started rfl rfl
        · cases h

theorem size_lt_of_lineBreak {s : Scanner} (nonempty : 0 < s.rest.length)
    (inside : s.atLineStart = false) : s.lineBreak.size < s.size := by
  unfold lineBreak
  dsimp only
  split <;> simp [size, leave, inside] <;> omega

/-- Every step that goes on leaves less to do. -/
theorem size_lt_of_step {s next : Scanner} {tokens : List Token}
    (h : s.step = .more tokens next) : next.size < s.size := by
  unfold step at h
  split at h
  · exact size_lt_of_lineStart ‹_› h
  · rename_i inside
    rw [Bool.not_eq_true] at inside
    split at h
    · cases h
    · rename_i c rest cons
      have nonempty : 0 < s.rest.length := by simp [cons]
      have consumed : s.Consumes (if (s.mode == some .logic) = true then s.logic c else s.prose c) →
          (c == '\n') = false → next.size < s.size := by
        intro consumes noBreak
        rw [if_neg (by simp [noBreak])] at h
        obtain ⟨shorter, start⟩ := consumes tokens next h
        simp only [size, start]
        omega
      cases isBreak : c == '\n' with
      | true =>
          rw [if_pos isBreak] at h
          cases h
          exact size_lt_of_lineBreak nonempty inside
      | false =>
          exact consumed
            (consumes_ite (fun _ => consumes_logic cons) fun _ => consumes_prose cons isBreak)
            isBreak

end Scanner
end Dialogue
