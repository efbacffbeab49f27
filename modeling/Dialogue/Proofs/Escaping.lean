import Dialogue.Proofs.Comments
import Dialogue.Proofs.Spelling

/-! How to write any text. What the scanner reads in quotes, in a literal and in plain text is the
text whose characters were spelled, with a backslash before each that would be read otherwise. -/
namespace Dialogue

open Scanner (unescape endsText textRun_cons quoteRun_cons literalRun_cons)

namespace Text

/-- How a character is spelled in quotes. -/
def inQuotes (c : Char) : List Char := if c == '"' || c == '\\' then ['\\', c] else [c]

/-- How a character is spelled in a literal. -/
def inLiteral (c : Char) : List Char := ['\\', c]

/-- How a character is spelled in plain text. -/
def inPlain (c : Char) : List Char :=
  if c == '\n' then ['\\', 'n']
  else if isAlphanumeric c || c == ' ' then [c]
  else ['\\', c]

/-- Source for a text in quotes. -/
def quotedSource (text : String) : String :=
  .ofList ('"' :: (text.toList.flatMap inQuotes ++ ['"']))

/-- A literal for a text. -/
def literalSource (quote : Char) (text : String) : String :=
  .ofList (quote :: (text.toList.flatMap inLiteral ++ [quote]))

/-- Source for a plain text. -/
def plainSource (text : String) : String := .ofList (text.toList.flatMap inPlain)

/-! A spelling is undone character by character. -/

/-- Whether what a character is spelled as reads as the character. -/
def Undone (keep : Char → Char) (ends : Char → Bool) (c : Char) (spelled : List Char) : Prop :=
  (∃ d, spelled = ['\\', d] ∧ keep d = c) ∨ (spelled = [c] ∧ c ≠ '\\' ∧ ends c = false)

theorem unescapes_flatMap {keep : Char → Char} {ends : Char → Bool} {spell : Char → List Char}
    (undone : ∀ c, Undone keep ends c (spell c)) (text : List Char) :
    Unescapes keep ends (text.flatMap spell) text := by
  induction text with
  | nil => exact .nil
  | cons c rest ih =>
      rw [List.flatMap_cons]
      obtain ⟨d, spelled, rfl⟩ | ⟨spelled, bare, inside⟩ := undone c
      · rw [spelled]
        exact .kept d ih
      · rw [spelled]
        exact .plain bare inside ih

theorem undone_inQuotes (c : Char) : Undone unescape (fun c => c == '"') c (inQuotes c) := by
  unfold inQuotes
  split
  · next special =>
      refine .inl ⟨c, rfl, ?_⟩
      obtain rfl | rfl : c = '"' ∨ c = '\\' := by simpa using special
      · rfl
      · rfl
  · next plain =>
      obtain ⟨unquoted, bare⟩ : c ≠ '"' ∧ c ≠ '\\' := by simpa using plain
      exact .inr ⟨rfl, bare, beq_eq_false_iff_ne.2 unquoted⟩

theorem undone_inLiteral (quote c : Char) :
    Undone id (fun c => c == '\n' || c == quote) c (inLiteral c) :=
  .inl ⟨c, rfl, rfl⟩

/-- The characters that mean something in plain text, and the end of the line. -/
def special : List Char := ['\\', '\n', '$', '#', '\x7b', '[', ']', ':']

/-- A letter or digit means nothing but itself in plain text, and a space does neither. -/
theorem not_mem_special {c : Char} (plain : (isAlphanumeric c || c == ' ') = true) :
    c ∉ special := by
  have none : special.all (fun d => !(isAlphanumeric d || d == ' ')) = true := by decide +kernel
  intro member
  have other := List.all_eq_true.1 none c member
  rw [plain] at other
  cases other

theorem undone_inPlain (inOption speakers : Bool) (c : Char) :
    Undone unescape (Token.ends inOption speakers) c (inPlain c) := by
  unfold inPlain
  split
  · next line => exact .inl ⟨'n', rfl, (eq_of_beq line).symm⟩
  split
  · next plain =>
      have free := not_mem_special plain
      simp only [special, List.mem_cons, List.not_mem_nil, or_false, not_or] at free
      refine .inr ⟨rfl, free.1, ?_⟩
      simp [Token.ends, endsText, free]
  · next other =>
      have letter : isAlphanumeric 'n' = true := by decide +kernel
      have kept : c ≠ 'n' := by
        rintro rfl
        simp [letter] at other
      exact .inl ⟨c, rfl, by simp [unescape, kept]⟩

/-! Text that begins and ends with no white space is not trimmed. -/

theorem dropWhile_isBlank_eq_self {text : List Char}
    (first : ∀ c ∈ text.head?, isBlank c = false) : text.dropWhile isBlank = text := by
  cases text with
  | nil => rfl
  | cons c rest => exact List.dropWhile_cons_of_neg (by simp [first c rfl])

theorem trim_eq_self {text : List Char} (first : ∀ c ∈ text.head?, isBlank c = false)
    (last : ∀ c ∈ text.getLast?, isBlank c = false) : trim text = text := by
  rw [trim, dropWhile_isBlank_eq_self first, trimEnd, dropWhile_isBlank_eq_self,
    List.reverse_reverse]
  rwa [List.head?_reverse]

end Text

/-! What the runs of the scanner read of a spelled text. -/

namespace Unescapes

variable {source text : List Char}

theorem textRun {inOption speakers : Bool}
    (told : Unescapes unescape (Token.ends inOption speakers) source text) :
    Scanner.textRun (endsText inOption) speakers source = ⟨text, source.length, false⟩ := by
  induction told with
  | nil => rfl
  | kept c rest ih =>
      rw [Scanner.textRun, ih]
      rfl
  | plain bare inside rest ih =>
      obtain ⟨stays, colon⟩ := Bool.or_eq_false_iff.1 inside
      rw [textRun_cons bare, stays, colon, ih]
      rfl

theorem quoteRun (told : Unescapes unescape (fun c => c == '"') source text) (line column : Nat) :
    ∃ below beside, Scanner.quoteRun (source ++ ['"']) line column =
      some ⟨text, source.length + 1, below, beside⟩ := by
  induction told generalizing line column with
  | nil => exact ⟨line, column + 1, rfl⟩
  | kept c rest ih =>
      obtain ⟨below, beside, ran⟩ := ih line (column + 2)
      refine ⟨below, beside, ?_⟩
      rw [List.cons_append, List.cons_append, Scanner.quoteRun, ran]
      rfl
  | @plain c source text bare inside rest ih =>
      rw [List.cons_append, quoteRun_cons bare (beq_eq_false_iff_ne.1 inside)]
      split
      · obtain ⟨below, beside, ran⟩ := ih (line + 1) 0
        exact ⟨below, beside, by rw [ran]; rfl⟩
      · obtain ⟨below, beside, ran⟩ := ih line (column + 1)
        exact ⟨below, beside, by rw [ran]; rfl⟩

theorem literalRun {quote : Char} (quotes : quote = '"' ∨ quote = '\'')
    (told : Unescapes id (fun c => c == '\n' || c == quote) source text) (more : List Char) :
    Scanner.literalRun quote (source ++ quote :: more) = some (text, source.length + 1) := by
  induction told with
  | nil =>
      obtain ⟨bare, line⟩ : quote ≠ '\\' ∧ quote ≠ '\n' := by
        rcases quotes with rfl | rfl <;> decide
      rw [List.nil_append, literalRun_cons bare line, if_pos (beq_self_eq_true quote)]
      rfl
  | kept c rest ih =>
      rw [List.cons_append, List.cons_append, Scanner.literalRun, ih]
      rfl
  | plain bare inside rest ih =>
      obtain ⟨line, stays⟩ := Bool.or_eq_false_iff.1 inside
      rw [List.cons_append, literalRun_cons bare (beq_eq_false_iff_ne.1 line), stays, ih]
      rfl

end Unescapes

/-! From the source to the document. -/

namespace Scanner

variable {c : Char} {source text : List Char}

/-- A line that begins with a character of its content is on the margin. -/
theorem step_filled (filled : Token.isFilled c = true) (other : c ≠ '-') (rest : List Char) :
    step { rest := c :: rest } = .more [] { rest := c :: rest, atLineStart := false } := by
  simp only [Token.isFilled, isGap, Bool.and_eq_true, Bool.not_eq_true', Bool.or_eq_false_iff,
    beq_eq_false_iff_ne, bne_iff_ne] at filled
  obtain ⟨⟨space, carriage⟩, line⟩ := filled
  simp [step, lineStart, space, carriage, line, other, advance]

/-- The characters that begin something else than a text. -/
def signs : List Char :=
  ['\n', ' ', '\t', '\r', '\x7b', '"', '(', ')', '=', '-', '<', '>', '*', '+', '[', ']', '$', '#',
   Char.ofNat 0xFEFF]

theorem step_text (free : c ∉ signs) (rest : List Char) :
    step { rest := c :: rest, atLineStart := false } =
      Scanner.text { rest := c :: rest, atLineStart := false } := by
  simp only [signs, List.mem_cons, List.not_mem_nil, or_false, not_or] at free
  simp [step, prose, isGap, isSpace, mode, free]

theorem isFilled_of_not_mem_signs (free : c ∉ signs) : Token.isFilled c = true := by
  simp only [signs, List.mem_cons, List.not_mem_nil, or_false, not_or] at free
  simp [Token.isFilled, isGap, isSpace, free]

theorem ofSource_ofList (bare : c ≠ Char.ofNat 0xFEFF) (rest : List Char) :
    ofSource (.ofList (c :: rest)) = { rest := c :: rest } := by
  rw [ofSource_of_bare (by simpa using bare), String.toList_ofList]

/-- A text in quotes is all of its line. -/
theorem stream_quoted (told : Unescapes unescape (fun c => c == '"') source text) :
    ∃ below beside, Stream.ofSource (.ofList ('"' :: (source ++ ['"']))) =
      ⟨[⟨.text, 0, 0, some (String.ofList text)⟩], .ok ⟨.eof, below, beside, none⟩⟩ := by
  obtain ⟨below, beside, ran⟩ := told.quoteRun 0 1
  refine ⟨below, beside, ?_⟩
  have stepped : step { rest := '"' :: (source ++ ['"']), atLineStart := false } =
      .more [⟨.text, 0, 0, some (String.ofList text)⟩]
        { rest := [], line := below, column := beside, atLineStart := false } := by
    change quoted _ = _
    simp [quoted, ran, carry]
  rw [Stream.ofSource, ofSource_ofList (by decide), stream_of_more (step_filled rfl (by decide) _),
    stream_of_more stepped, stream_of_finish rfl]
  rfl

/-- A plain text is all of its line. -/
theorem stream_plain (told : Unescapes unescape (Token.ends false true) source text)
    {rest : List Char} (starts : source = c :: rest) (free : c ∉ signs) :
    ∃ beside, Stream.ofSource (.ofList source) =
      ⟨[⟨.text, 0, 0, some (String.ofList (Text.trim text))⟩], .ok ⟨.eof, 0, beside, none⟩⟩ := by
  refine ⟨source.length, ?_⟩
  have bare : c ≠ Char.ofNat 0xFEFF := by
    rintro rfl
    exact free (by decide)
  have other : c ≠ '-' := by
    rintro rfl
    exact free (by decide)
  have stepped : step { rest := source, atLineStart := false } =
      .more [⟨.text, 0, 0, some (String.ofList (Text.trim text))⟩]
        { rest := [], column := source.length, atLineStart := false } := by
    have ran : textRun (endsText false) true source = ⟨text, source.length, false⟩ := told.textRun
    rw [starts, step_text free, ← starts]
    simp [Scanner.text, mode, ran, carry, advance]
  rw [Stream.ofSource, starts, ofSource_ofList bare,
    stream_of_more (step_filled (isFilled_of_not_mem_signs free) other _), ← starts,
    stream_of_more stepped, stream_of_finish rfl]
  rfl

/-- A scanner in braces on the first line. -/
def braced (rest : List Char) (column : Nat) : Scanner :=
  { rest := rest, column := column, modes := [.logic], atLineStart := false }

/-- A literal in braces is read up to its quote. -/
theorem step_literal {quote : Char} (quotes : quote = '"' ∨ quote = '\'')
    (told : Unescapes id (fun c => c == '\n' || c == quote) source text) (column : Nat)
    (more : List Char) :
    (braced (quote :: (source ++ quote :: more)) column).step =
      .more [⟨.string, 0, column, some (String.ofList text)⟩]
        (braced more (column + (source.length + 2))) := by
  have stepped : (braced (quote :: (source ++ quote :: more)) column).step =
      (braced (quote :: (source ++ quote :: more)) column).literal quote := by
    rcases quotes with rfl | rfl <;> rfl
  rw [stepped]
  simp [braced, Scanner.literal, told.literalRun quotes, carry, advance, List.drop_append]

/-- A literal that is assigned in braces stands between a bracket, names and a bracket. -/
theorem stream_assigned {quote : Char} (quotes : quote = '"' ∨ quote = '\'')
    (told : Unescapes id (fun c => c == '\n' || c == quote) source text) :
    ∃ column, Stream.ofSource
        ("\x7b set v = " ++ .ofList (quote :: (source ++ [quote])) ++ " \x7d") =
      ⟨[⟨.braceOpen, 0, 0, none⟩, ⟨.set, 0, 2, none⟩, ⟨.identifier, 0, 6, some "v"⟩,
        ⟨.assign, 0, 8, none⟩, ⟨.string, 0, 10, some (String.ofList text)⟩,
        ⟨.braceClose, 0, column, none⟩], .ok ⟨.eof, 0, column + 1, none⟩⟩ := by
  have written : Scanner.ofSource
      ("\x7b set v = " ++ .ofList (quote :: (source ++ [quote])) ++ " \x7d") =
      { rest := '\x7b' :: ' ' :: 's' :: 'e' :: 't' :: ' ' :: 'v' :: ' ' :: '=' :: ' ' ::
          quote :: (source ++ [quote, ' ', '\x7d']) } := by
    rw [ofSource_of_bare (by simp)]
    simp
  have before : stream { rest := '\x7b' :: ' ' :: 's' :: 'e' :: 't' :: ' ' :: 'v' :: ' ' :: '=' ::
          ' ' :: quote :: (source ++ [quote, ' ', '\x7d']) } =
      (braced (quote :: (source ++ [quote, ' ', '\x7d'])) 10).stream.after
        [⟨.braceOpen, 0, 0, none⟩, ⟨.set, 0, 2, none⟩, ⟨.identifier, 0, 6, some "v"⟩,
          ⟨.assign, 0, 8, none⟩] := by
    -- The start of the line, four tokens, and the spaces behind them.
    iterate 9 rw [stream_of_more rfl]
    rfl
  have behind : ∀ column : Nat, (braced [' ', '\x7d'] column).stream =
      ⟨[⟨.braceClose, 0, column + 1, none⟩], .ok ⟨.eof, 0, column + 1 + 1, none⟩⟩ := by
    intro column
    rw [stream_of_more rfl, stream_of_more rfl, stream_of_finish rfl]
    rfl
  refine ⟨10 + (source.length + 2) + 1, ?_⟩
  rw [Stream.ofSource, written, before, stream_of_more (step_literal quotes told 10 _), behind]
  rfl

end Scanner

/-- A text that is all of its source is a line. -/
theorem parse_of_text {source text : String} {line column below beside : Nat}
    (stream : Stream.ofSource source =
      ⟨[⟨.text, line, column, some text⟩], .ok ⟨.eof, below, beside, none⟩⟩) :
    parse source = .ok ⟨[.line text {}], []⟩ := by
  rw [parse, stream]
  rfl

namespace Text

theorem parse_quotedSource (text : String) :
    parse (quotedSource text) = .ok ⟨[.line text {}], []⟩ := by
  obtain ⟨below, beside, stream⟩ :=
    Scanner.stream_quoted (unescapes_flatMap undone_inQuotes text.toList)
  rw [String.ofList_toList] at stream
  exact parse_of_text stream

theorem parse_literalSource {quote : Char} (quotes : quote = '"' ∨ quote = '\'') (text : String) :
    parse ("\x7b set v = " ++ literalSource quote text ++ " \x7d") =
      .ok ⟨[.act (.assign [.store "v" .replace (.constant (.string text))])], []⟩ := by
  obtain ⟨column, stream⟩ :=
    Scanner.stream_assigned quotes (unescapes_flatMap (undone_inLiteral quote) text.toList)
  rw [parse, literalSource, stream, String.ofList_toList]
  rfl

/-- What a plain text is spelled as begins with a letter, a digit or a backslash. -/
theorem exists_inPlain {c : Char} (shown : isBlank c = false) :
    ∃ d rest, inPlain c = d :: rest ∧ d ∉ Scanner.signs := by
  have line : c ≠ '\n' := by
    rintro rfl
    cases shown
  have space : c ≠ ' ' := by
    rintro rfl
    cases shown
  have none : Scanner.signs.all (fun d => !isAlphanumeric d) = true := by decide +kernel
  rw [inPlain, if_neg (by simpa using line)]
  split
  · next plain =>
      refine ⟨c, [], rfl, fun member => ?_⟩
      have other := List.all_eq_true.1 none c member
      simp_all
  · exact ⟨'\\', [c], rfl, by decide⟩

theorem parse_plainSource {text : String} (some : text ≠ "")
    (first : ∀ c ∈ text.toList.head?, isBlank c = false)
    (last : ∀ c ∈ text.toList.getLast?, isBlank c = false) :
    parse (plainSource text) = .ok ⟨[.line text {}], []⟩ := by
  cases split : text.toList with
  | nil => exact absurd (String.toList_eq_nil_iff.1 split) some
  | cons c rest =>
      obtain ⟨d, more, spelled, free⟩ := exists_inPlain (first c (by simp [split]))
      have starts : text.toList.flatMap inPlain = d :: (more ++ rest.flatMap inPlain) := by
        rw [split, List.flatMap_cons, spelled, List.cons_append]
      obtain ⟨beside, stream⟩ :=
        Scanner.stream_plain (unescapes_flatMap (undone_inPlain false true) text.toList) starts free
      rw [trim_eq_self first last, String.ofList_toList] at stream
      exact parse_of_text stream

/-- Every text can be written. In quotes, with a backslash before each quote and each backslash, it
is a line; in a literal, with a backslash before every character, it is a value; and in plain text
it is a line too, if no white space stands at its ends. -/
theorem parse_sources :
    (∀ text, parse (quotedSource text) = .ok ⟨[.line text {}], []⟩) ∧
    (∀ quote text, quote = '"' ∨ quote = '\'' →
      parse ("\x7b set v = " ++ literalSource quote text ++ " \x7d") =
        .ok ⟨[.act (.assign [.store "v" .replace (.constant (.string text))])], []⟩) ∧
    ∀ text : String, text ≠ "" → (∀ c ∈ text.toList.head?, isBlank c = false) →
      (∀ c ∈ text.toList.getLast?, isBlank c = false) →
      parse (plainSource text) = .ok ⟨[.line text {}], []⟩ :=
  ⟨parse_quotedSource, fun _ text quotes => parse_literalSource quotes text,
    fun _ some first last => parse_plainSource some first last⟩

theorem parse_sources_price :
    plainSource "$5:\nok" = "\\$5\\:\\nok" ∧
      parse "\\$5\\:\\nok" = .ok ⟨[.line "$5:\nok" {}], []⟩ := by
  have spelled : plainSource "$5:\nok" = "\\$5\\:\\nok" := by decide +kernel
  refine ⟨spelled, ?_⟩
  rw [← spelled]
  refine parse_sources.2.2 "$5:\nok" (by decide) ?_ ?_
  · rintro c ⟨⟩
    rfl
  · rintro c ⟨⟩
    rfl

end Text
end Dialogue
