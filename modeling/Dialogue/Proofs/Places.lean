import Dialogue.Proofs.Spelling
import Mathlib.Data.List.Basic
import Mathlib.Data.List.Induction

/-! Where tokens stand. A source is laid out in pieces: the lexemes of its tokens, and between them
gaps and comments. Each step of a scanner reads some pieces, and its place moves over them as they
count. A lexeme counts as it is written, but for the line breaks behind its backslashes. -/
namespace Dialogue

open Scanner (isSpace isGap unescape quoteRun)

/-- A place in a source: how many lines end before it, and how many characters of its line stand
before it. -/
structure Spot where
  line : Nat
  column : Nat

namespace Spot

def pass (spot : Spot) (c : Char) : Spot :=
  if c == '\n' then ⟨spot.line + 1, 0⟩ else ⟨spot.line, spot.column + 1⟩

def after (spot : Spot) (text : List Char) : Spot := text.foldl pass spot

/-- The place behind a text with which the source begins. -/
def behind (text : List Char) : Spot :=
  ⟨text.count '\n', (text.reverse.takeWhile fun c => c != '\n').length⟩

theorem after_cons (spot : Spot) (c : Char) (text : List Char) :
    spot.after (c :: text) = (spot.pass c).after text := rfl

theorem pass_of_ne (spot : Spot) {c : Char} (inside : c ≠ '\n') :
    spot.pass c = ⟨spot.line, spot.column + 1⟩ := by
  simp [pass, inside]

theorem after_append (spot : Spot) (text more : List Char) :
    spot.after (text ++ more) = (spot.after text).after more :=
  List.foldl_append

theorem after_of_not_mem (spot : Spot) {text : List Char} (line : '\n' ∉ text) :
    spot.after text = ⟨spot.line, spot.column + text.length⟩ := by
  induction text generalizing spot with
  | nil => rfl
  | cons c text ih =>
      rw [List.mem_cons, not_or] at line
      rw [after_cons, pass_of_ne spot (Ne.symm line.1), ih _ line.2, List.length_cons]
      simp only [mk.injEq, true_and]
      omega

theorem after_origin (text : List Char) : (⟨0, 0⟩ : Spot).after text = behind text := by
  induction text using List.reverseRecOn with
  | nil => rfl
  | append_singleton text c ih =>
      rw [after_append, ih, after, List.foldl_cons, List.foldl_nil]
      by_cases line : c = '\n' <;> simp [pass, behind, line]

end Spot

/-- What stands in a source. -/
inductive Piece where
  /-- blank characters and ends of lines -/
  | gap (blank : List Char) (empty : ∀ c ∈ blank, Token.isFilled c = false)
  /-- the rest of a line after two dashes at its start -/
  | comment (indent note : List Char) (spaces : ∀ c ∈ indent, isSpace c = true)
      (line : '\n' ∉ note)
  | lexeme (token : Token) (chars : List Char)
      (spells : Token.Spells token.kind token.value? chars)

namespace Piece

def chars : Piece → List Char
  | gap blank _ => blank
  | comment indent note _ _ => indent ++ '-' :: '-' :: note
  | lexeme _ chars _ => chars

/-- The characters of a piece as they count for the places after it. -/
def counted : Piece → List Char
  | lexeme _ chars _ => Token.counted chars
  | piece => piece.chars

def token? : Piece → Option Token
  | lexeme token _ _ => some token
  | _ => none

/-- Whether a piece may stand at a place. A token told that it stands there, and a comment begins
its line. -/
def At (spot : Spot) : Piece → Prop
  | gap .. => True
  | comment .. => spot.column = 0
  | lexeme token _ _ => token.line = spot.line ∧ token.column = spot.column

def text (pieces : List Piece) : List Char := pieces.flatMap chars

def count (pieces : List Piece) : List Char := pieces.flatMap counted

def tokens (pieces : List Piece) : List Token := pieces.filterMap token?

/-- Whether pieces may stand one after the other from a place on. -/
def Stand (spot : Spot) : List Piece → Prop
  | [] => True
  | piece :: rest => piece.At spot ∧ Stand (spot.after piece.counted) rest

theorem stand_append {spot : Spot} {pieces more : List Piece} :
    Stand spot (pieces ++ more) ↔ Stand spot pieces ∧ Stand (spot.after (count pieces)) more := by
  induction pieces generalizing spot with
  | nil => simp [Stand, count, Spot.after]
  | cons piece pieces ih =>
      simp only [List.cons_append, Stand, ih, count, List.flatMap_cons, Spot.after_append,
        and_assoc]

/-- Where no characters are, no piece minds where it stands. -/
theorem stand_of_text_eq_nil {pieces : List Piece} (nothing : text pieces = []) (spot : Spot) :
    Stand spot pieces := by
  induction pieces generalizing spot with
  | nil => trivial
  | cons piece pieces ih =>
      rw [text, List.flatMap_cons, List.append_eq_nil_iff] at nothing
      refine ⟨?_, ih nothing.2 _⟩
      cases piece with
      | gap blank empty => trivial
      | comment indent note spaces line => simp [chars] at nothing
      | lexeme token chars spells =>
          obtain ⟨c, rest, rfl, -⟩ := spells.exists_cons
          cases nothing.1

/-- What stands from a place on stands behind what counts before it. -/
theorem Stand.at {spot : Spot} {before after : List Piece} {piece : Piece}
    (stand : Stand spot (before ++ piece :: after)) : piece.At (spot.after (count before)) :=
  (stand_append.1 stand).2.1

end Piece

namespace Token

/-- The kinds of tokens that are written as lexemes. -/
def Kind.isWritten : Kind → Bool
  | indent | dedent | lineBreak | eof => false
  | _ => true

def isWritten (token : Token) : Bool := token.kind.isWritten

theorem Kind.isWritten_of_isLogical {kind : Kind} (logical : kind.isLogical) : kind.isWritten := by
  cases kind <;> first | rfl | cases logical

theorem Spells.isWritten {kind : Kind} {value? : Option String} {lexeme : List Char}
    (spells : Spells kind value? lexeme) : kind.isWritten = true := by
  cases spells with
  | @mark kind lexeme written => cases kind <;> first | rfl | cases written
  | keyword isName found valueless =>
      exact Kind.isWritten_of_isLogical (Scanner.isLogical_of_keyword? found).1
  | marker signed all | named signed spaces all =>
      simp only [List.mem_cons, Prod.mk.injEq, List.not_mem_nil, or_false] at signed
      obtain ⟨rfl, -⟩ | ⟨rfl, -⟩ := signed <;> rfl
  | _ => rfl

end Token

namespace Scanner

variable {s middle next : Scanner} {tokens tail : List Token} {pieces more : List Piece}

def spot (s : Scanner) : Spot := ⟨s.line, s.column⟩

/-- Whether pieces are what a scanner has read until it is another. Where nothing is left, its
place does not matter: a comment that ends the source is counted as if its line ended. -/
structure Spans (s : Scanner) (pieces : List Piece) (next : Scanner) : Prop where
  rest : s.rest = Piece.text pieces ++ next.rest
  stand : Piece.Stand s.spot pieces
  spot : next.rest ≠ [] → next.spot = s.spot.after (Piece.count pieces)

theorem spans_nil (s : Scanner) : s.Spans [] s := ⟨rfl, trivial, fun _ => rfl⟩

theorem Spans.trans (first : s.Spans pieces middle) (second : middle.Spans more next) :
    s.Spans (pieces ++ more) next where
  rest := by
    rw [first.rest, second.rest, Piece.text, Piece.text, Piece.text, List.flatMap_append,
      List.append_assoc]
  stand := by
    refine Piece.stand_append.2 ⟨first.stand, ?_⟩
    -- In the middle the place is what counts before it, or there is nothing left to stand anywhere.
    by_cases ended : middle.rest = []
    · refine Piece.stand_of_text_eq_nil ?_ _
      rw [second.rest, List.append_eq_nil_iff] at ended
      exact ended.1
    · rw [← first.spot ended]
      exact second.stand
  spot left := by
    have before : middle.rest ≠ [] := by
      rw [second.rest]
      exact List.append_ne_nil_of_right_ne_nil _ left
    rw [second.spot left, first.spot before, ← Spot.after_append, Piece.count, Piece.count,
      Piece.count, List.flatMap_append]

theorem spans_gap {blank : List Char} (empty : ∀ c ∈ blank, Token.isFilled c = false)
    (rest : s.rest = blank ++ next.rest) (spot : next.spot = s.spot.after blank) :
    s.Spans [.gap blank empty] next where
  rest := by rw [rest]; simp [Piece.text, Piece.chars]
  stand := ⟨trivial, trivial⟩
  spot _ := by rw [spot]; simp [Piece.count, Piece.counted, Piece.chars]

/-- A lexeme that is passed over by its length, as all are but text in quotes. -/
theorem spans_lexeme {token : Token} {lexeme : List Char} {count : Nat}
    (spells : Token.Spells token.kind token.value? lexeme)
    (unquoted : token.kind = .text → lexeme.head? ≠ some '"')
    (here : token.line = s.line ∧ token.column = s.column) (begins : s.rest.take count = lexeme)
    (rest : next.rest = s.rest.drop count) (line : next.line = s.line)
    (column : next.column = s.column + count) :
    s.Spans [.lexeme token lexeme spells] next where
  rest := by
    rw [rest, Piece.text, List.flatMap_singleton, Piece.chars, ← begins, List.take_append_drop]
  stand := ⟨here, trivial⟩
  spot left := by
    have inside : count ≤ s.rest.length := by
      rw [rest, Ne, List.drop_eq_nil_iff] at left
      omega
    rw [Piece.count, List.flatMap_singleton, Piece.counted,
      Spot.after_of_not_mem _ (spells.not_mem_counted unquoted), Token.length_counted, ← begins,
      List.length_take, Nat.min_eq_left inside]
    simp only [Scanner.spot, line, column]

/-- Whether a step reads pieces, and of their lexemes the tokens that it yields. -/
def Covers (s : Scanner) : Step → Prop
  | .more tokens next =>
      ∃ pieces, s.Spans pieces next ∧ Piece.tokens pieces = tokens.filter Token.isWritten
  | .finish tokens _ => s.rest = [] ∧ tokens.filter Token.isWritten = []
  | .fail _ => True

theorem covers_ite {p : Prop} [Decidable p] {yes no : Step} (left : p → s.Covers yes)
    (right : ¬p → s.Covers no) : s.Covers (if p then yes else no) := by
  split
  · exact left ‹p›
  · exact right ‹¬p›

theorem covers_gap {blank : List Char} (empty : ∀ c ∈ blank, Token.isFilled c = false)
    (rest : s.rest = blank ++ next.rest) (spot : next.spot = s.spot.after blank)
    (unwritten : tokens.filter Token.isWritten = []) : s.Covers (.more tokens next) :=
  ⟨_, spans_gap empty rest spot, unwritten.symm⟩

theorem covers_lexeme {token : Token} {lexeme : List Char} {count : Nat}
    (spells : Token.Spells token.kind token.value? lexeme)
    (unquoted : token.kind = .text → lexeme.head? ≠ some '"')
    (here : token.line = s.line ∧ token.column = s.column) (begins : s.rest.take count = lexeme)
    (rest : next.rest = s.rest.drop count) (line : next.line = s.line)
    (column : next.column = s.column + count)
    (unwritten : tail.filter Token.isWritten = []) : s.Covers (.more (token :: tail) next) := by
  refine ⟨_, spans_lexeme spells unquoted here begins rest line column, ?_⟩
  have written : token.isWritten = true := spells.isWritten
  rw [List.filter_cons_of_pos written, unwritten]
  rfl

theorem covers_mark {kind : Token.Kind} {lexeme : List Char} {count : Nat}
    (written : kind.mark? = some lexeme) (begins : s.rest.take count = lexeme)
    (rest : next.rest = s.rest.drop count) (line : next.line = s.line)
    (column : next.column = s.column + count)
    (unwritten : tail.filter Token.isWritten = []) :
    s.Covers (.more (s.mark kind :: tail) next) := by
  refine covers_lexeme (.mark written) ?_ ⟨rfl, rfl⟩ begins rest line column unwritten
  rintro rfl
  cases written

theorem filter_lineBreakAhead (s : Scanner) : s.lineBreakAhead.filter Token.isWritten = [] := by
  unfold lineBreakAhead
  dsimp only
  split <;> rfl

theorem take_takeWhile (p : Char → Bool) (v : List Char) :
    v.take (v.takeWhile p).length = v.takeWhile p :=
  (List.prefix_iff_eq_take.1 (List.takeWhile_prefix p)).symm

variable {c : Char} {v : List Char}

theorem covers_blank (cons : s.rest = c :: v) (gap : isGap c = true) :
    s.Covers (.more [] (s.advance 1)) := by
  have empty : ∀ d ∈ [c], Token.isFilled d = false := by
    intro d member
    obtain rfl := List.mem_singleton.1 member
    simp [Token.isFilled, gap]
  have line : '\n' ∉ [c] := by
    intro member
    obtain rfl := List.mem_singleton.1 member
    cases gap
  exact covers_gap empty (by rw [rest_advance, cons]; rfl) 
    (Spot.after_of_not_mem s.spot line).symm rfl

theorem covers_marker {kind : Token.Kind} (cons : s.rest = c :: v)
    (signed : (kind, c) ∈ [(Token.Kind.lineId, '$'), (.tag, '#')]) : s.Covers (s.marker kind) := by
  have begins : s.rest.take (((s.rest.drop 1).takeWhile Text.isMarker).length + 1) =
      c :: (s.rest.drop 1).takeWhile Text.isMarker := by
    rw [cons, List.drop_one, List.tail_cons, List.take_succ_cons, take_takeWhile]
  refine covers_lexeme (.marker signed fun c member => List.mem_takeWhile_imp member) ?_ ⟨rfl, rfl⟩
    begins rfl rfl rfl rfl
  rintro rfl
  simp at signed

theorem covers_named {kind : Token.Kind} {d : Char} (cons : s.rest = c :: d :: v)
    (signed : (kind, c, d) ∈ [(Token.Kind.block, '=', '='), (.divert, '-', '>')])
    (unwritten : tail.filter Token.isWritten = []) :
    s.Covers (.more ((s.named kind).1 :: tail) (s.named kind).2) := by
  let gap := v.takeWhile isSpace
  let name := (v.drop gap.length).takeWhile Text.isWord
  have named : s.named kind = (s.carry kind name, s.advance (gap.length + name.length + 2)) := by
    simp only [Scanner.named, cons, List.drop_succ_cons, List.drop_zero, gap, name]
  have begins : s.rest.take (gap.length + name.length + 2) = c :: d :: (gap ++ name) := by
    rw [cons, List.take_succ_cons, List.take_succ_cons, List.take_add, take_takeWhile,
      take_takeWhile]
  rw [named]
  refine covers_lexeme (.named signed (fun c member => List.mem_takeWhile_imp member)
    fun c member => List.mem_takeWhile_imp member) ?_ ⟨rfl, rfl⟩ begins rfl rfl rfl unwritten
  rintro rfl
  simp at signed

/-! Text, in quotes and without them. -/

theorem covers_text (cons : s.rest = c :: v) (filled : isGap c = false) (unquoted : c ≠ '"')
    (plain : endsText (s.mode == some .option) c = false) : s.Covers s.text := by
  obtain ⟨source, stop, rest, split, count, told, how⟩ :=
    textRun_unescapes (s.mode == some .option) (!s.speakerSeen) s.rest
  have some := textRun_count_pos (!s.speakerSeen) v plain
  rw [← cons, count] at some
  have begins : s.rest.take (source ++ stop).length = source ++ stop := by
    rw [split]
    exact List.take_left
  obtain ⟨d, more, starts⟩ := List.exists_cons_of_length_pos some
  obtain rfl : d = c := by
    rw [split, starts] at cons
    exact (List.cons.inj cons).1
  unfold text
  dsimp only
  rw [count]
  generalize textRun (endsText (s.mode == .some .option)) (!s.speakerSeen) s.rest = run at told how
  split
  · next speaker =>
      rw [if_pos speaker] at how
      obtain ⟨allowed, rfl⟩ := how
      rw [allowed] at told
      exact covers_lexeme (.speaker told starts filled unquoted) nofun ⟨rfl, rfl⟩ begins rfl rfl rfl
        rfl
  · next silent =>
      rw [if_neg silent] at how
      refine covers_lexeme (.text told how starts filled unquoted) ?_ ⟨rfl, rfl⟩ begins rfl rfl rfl
        rfl
      intro _ quoted
      rw [starts] at quoted
      exact unquoted (Option.some.inj quoted)

/-- A quote ends behind what counts in it. -/
theorem quoteRun_of_unescapes {source text : List Char}
    (told : Unescapes unescape (fun c => c == '"') source text) (rest : List Char)
    (line column : Nat) :
    let spot := (⟨line, column⟩ : Spot).after (Token.counted source ++ ['"'])
    quoteRun (source ++ '"' :: rest) line column =
      some ⟨text, source.length + 1, spot.line, spot.column⟩ := by
  dsimp only
  induction told generalizing line column with
  | nil => rfl
  | @kept c source text told ih =>
      have inside : (if c == '\n' then ' ' else c) ≠ '\n' := by
        split
        · decide
        · next other => simpa using other
      rw [Token.counted, List.cons_append, List.cons_append, List.cons_append, List.cons_append,
        Spot.after_cons, Spot.after_cons, Spot.pass_of_ne _ inside, quoteRun, ih]
      rfl
  | @plain c source text bare inside told ih =>
      rw [List.cons_append, quoteRun_cons bare (beq_eq_false_iff_ne.1 inside),
        Token.counted_cons bare, List.cons_append, Spot.after_cons]
      split
      · next breaks =>
          rw [ih, eq_of_beq breaks]
          rfl
      · next stays =>
          rw [ih, Spot.pass_of_ne _ (by simpa using stays)]
          rfl

theorem covers_quoted (cons : s.rest = '"' :: v) : s.Covers s.quoted := by
  unfold quoted
  rw [cons, List.drop_one, List.tail_cons]
  split
  · next quote found =>
      obtain ⟨source, rest, rfl, told⟩ := quoteRun_unescapes found
      rw [quoteRun_of_unescapes told] at found
      generalize quote.chars = text at told found
      obtain rfl := Option.some.inj found
      have passed : ('"' :: (source ++ '"' :: rest)).drop (source.length + 1 + 1) = rest := by
        rw [List.drop_succ_cons, List.append_cons]
        exact List.drop_left' (by simp)
      refine ⟨[.lexeme (s.carry .text text) _ (.quoted told)], ⟨?_, ⟨⟨rfl, rfl⟩, trivial⟩, ?_⟩, rfl⟩
      · rw [cons, passed]
        simp [Piece.text, Piece.chars]
      · have counted : Token.counted ('"' :: (source ++ ['"'])) =
            '"' :: (Token.counted source ++ ['"']) := by
          rw [Token.counted_cons (by decide), told.counted_append]
          rfl
        intro _
        change _ = s.spot.after (Token.counted ('"' :: (source ++ ['"'])) ++ [])
        rw [List.append_nil, counted]
        rfl
  · trivial

/-! The inside of braces. -/

theorem covers_literal {quote : Char} (cons : s.rest = quote :: v)
    (quotes : quote = '"' ∨ quote = '\'') : s.Covers (s.literal quote) := by
  unfold literal
  rw [cons, List.drop_one, List.tail_cons]
  split
  · next text count found =>
      obtain ⟨source, rest, rfl, rfl, told⟩ := literalRun_unescapes found
      have begins : s.rest.take (source.length + 1 + 1) = quote :: (source ++ [quote]) := by
        rw [cons, List.take_succ_cons, List.append_cons]
        exact congrArg (quote :: ·) (List.take_left' (by simp))
      exact covers_lexeme (.literal quotes told) nofun ⟨rfl, rfl⟩ begins rfl rfl rfl rfl
  · trivial

theorem covers_number (cons : s.rest = c :: v) (digit : c.isDigit = true) :
    s.Covers (.more [s.carry .number (numberRun s.rest)]
      (s.advance (numberRun s.rest).length)) := by
  have plain : Number.Plain (numberRun s.rest) := by
    rw [cons]
    exact Number.plain_numberRun v digit
  have begins := (List.prefix_iff_eq_take.1 (isPrefix_numberRun s.rest)).symm
  exact covers_lexeme (.number plain) nofun ⟨rfl, rfl⟩ begins rfl rfl rfl rfl

theorem spells_word {name : List Char} (isName : Token.IsName name) (s : Scanner) :
    Token.Spells (s.word name).kind (s.word name).value? name := by
  unfold word
  dsimp only
  split
  · next found => exact .boolean isName found
  · next kind valueless found => exact .keyword isName found valueless
  · next free => exact .identifier isName free

theorem covers_word (cons : s.rest = c :: v) (letter : (Text.isAlphabetic c || c == '_') = true) :
    s.Covers (.more [s.word (s.rest.takeWhile Text.isWord)]
      (s.advance (s.rest.takeWhile Text.isWord).length)) := by
  have isName : Token.IsName (s.rest.takeWhile Text.isWord) := by
    refine ⟨⟨c, v.takeWhile Text.isWord, ?_, letter⟩, fun d member => List.mem_takeWhile_imp member⟩
    rw [cons, List.takeWhile_cons_of_pos (isWord_of_isAlphabetic letter)]
  have logical := (isLogical_word (s := s) (s.rest.takeWhile Text.isWord)).1
  have here : ∀ name, (s.word name).line = s.line ∧ (s.word name).column = s.column := by
    intro name
    unfold word
    dsimp only
    split <;> exact ⟨rfl, rfl⟩
  refine covers_lexeme (spells_word isName s) ?_ (here _) (take_takeWhile _ _) rfl rfl rfl rfl
  intro text
  rw [text] at logical
  cases logical

theorem mark?_of_double? {next : Option Char} {kind : Token.Kind}
    (found : double? c next = some kind) : ∃ d, next = some d ∧ kind.mark? = some [c, d] := by
  unfold double? at found
  split at found <;> cases found <;> exact ⟨_, rfl, rfl⟩

theorem mark?_of_single? {kind : Token.Kind} (found : single? c = some kind) :
    kind.mark? = some [c] := by
  unfold single? at found
  split at found <;> cases found <;> rfl

theorem covers_operator (cons : s.rest = c :: v) : s.Covers (s.operator c) := by
  unfold operator
  split
  · next kind found =>
      obtain ⟨d, ahead, written⟩ := mark?_of_double? found
      rw [cons, List.drop_one, List.tail_cons, List.head?_eq_some_iff] at ahead
      obtain ⟨rest, rfl⟩ := ahead
      exact covers_mark written (by rw [cons]; rfl) rfl rfl rfl rfl
  · split
    · next kind found =>
        exact covers_mark (mark?_of_single? found) (by rw [cons]; rfl) rfl rfl rfl rfl
    · trivial

theorem covers_logic (cons : s.rest = c :: v) : s.Covers (s.logic c) := by
  unfold logic
  refine covers_ite (fun close => ?_) fun _ => ?_
  · obtain rfl := eq_of_beq close
    exact covers_mark rfl (by rw [cons]; rfl) rfl rfl rfl (filter_lineBreakAhead _)
  refine covers_ite (fun gap => covers_blank cons gap) fun _ => ?_
  refine covers_ite (fun quote => covers_literal cons (by simpa using quote)) fun _ => ?_
  refine covers_ite (fun digit => covers_number cons digit) fun _ => ?_
  exact covers_ite (fun letter => covers_word cons letter) fun _ => covers_operator cons

/-! Dialogue outside braces. -/

theorem isFilled_of_isSpace {c : Char} (space : isSpace c = true) : Token.isFilled c = false := by
  simp [Token.isFilled, isGap, space]

theorem not_mem_takeWhile_isSpace (v : List Char) : '\n' ∉ v.takeWhile isSpace := by
  intro member
  cases List.mem_takeWhile_imp member

theorem not_mem_takeWhile_line (v : List Char) : '\n' ∉ v.takeWhile fun c => c != '\n' := by
  intro member
  simpa using List.mem_takeWhile_imp member

/-- Spaces that are passed over. -/
theorem spans_spaces (passed : next.rest = s.rest.drop (s.rest.takeWhile isSpace).length)
    (line : next.line = s.line)
    (column : next.column = s.column + (s.rest.takeWhile isSpace).length) :
    s.Spans [.gap (s.rest.takeWhile isSpace) fun _ member =>
      isFilled_of_isSpace (List.mem_takeWhile_imp member)] next := by
  refine spans_gap _ ?_ ?_
  · rw [passed]
    exact (List.prefix_iff_eq_append.1 (List.takeWhile_prefix isSpace)).symm
  · rw [Spot.after_of_not_mem _ (not_mem_takeWhile_isSpace s.rest)]
    simp only [Scanner.spot, line, column]

/-- An opening bracket, with the spaces after it. -/
theorem spans_bracket (cons : s.rest = '(' :: v) :
    ∃ pieces, s.Spans pieces ((s.enter .variations).advance
      (((s.rest.drop 1).takeWhile isSpace).length + 1)) ∧
      Piece.tokens pieces = [s.mark .bracketOpen] := by
  let middle := (s.enter .variations).advance 1
  have bracket : s.Spans [.lexeme (s.mark .bracketOpen) ['('] (.mark rfl)] middle :=
    spans_lexeme _ nofun ⟨rfl, rfl⟩ (by rw [cons]; rfl) rfl rfl rfl
  refine ⟨_, bracket.trans (spans_spaces ?_ rfl ?_), rfl⟩
  · rw [rest_advance, rest_advance, rest_enter, List.drop_drop, Nat.add_comm 1]
  · change s.column + (_ + 1) = s.column + 1 + _
    rw [rest_advance, rest_enter]
    omega

/-- The rest of a line that names a mode. -/
theorem spans_mode (cons : s.rest = c :: v) (letter : Text.isAlphabetic c = true)
    (known : (VariationMode.ofName?
      (Token.modeName (s.rest.takeWhile fun c => c != '\n'))).isSome = true) :
    let written := s.rest.takeWhile fun c => c != '\n'
    ∃ pieces, s.Spans pieces (s.advance written.length) ∧
      Piece.tokens pieces = [s.carry .variationsMode (Token.modeName written).toList] := by
  intro written
  have begins : written = c :: v.takeWhile fun c => c != '\n' := by
    have other : c ≠ '\n' := by
      rintro rfl
      exact absurd letter (by decide)
    simp only [written, cons]
    exact List.takeWhile_cons_of_pos (by simpa using other)
  have line : '\n' ∉ written := not_mem_takeWhile_line s.rest
  have spells : Token.Spells .variationsMode
      (some (String.ofList (Token.modeName written).toList)) written := by
    rw [String.ofList_toList]
    change (VariationMode.ofName? (Token.modeName written)).isSome = true at known
    rw [begins] at line known ⊢
    exact .variationsMode letter line known
  have named : s.Spans [.lexeme (s.carry .variationsMode _) written spells]
      (s.advance written.length) :=
    spans_lexeme spells nofun ⟨rfl, rfl⟩ (take_takeWhile _ _) rfl rfl rfl
  exact ⟨_, named, rfl⟩

theorem covers_variationsStart (cons : s.rest = '(' :: v) : s.Covers s.variationsStart := by
  obtain ⟨pieces, opened, bracket⟩ := spans_bracket cons
  unfold variationsStart
  dsimp only
  generalize (s.enter .variations).advance
    (((s.rest.drop 1).takeWhile isSpace).length + 1) = inside at opened
  split
  · next d rest split =>
      refine covers_ite (fun letter => ?_) fun _ => ⟨pieces, opened, bracket⟩
      split
      · next mode known =>
          obtain ⟨more, named, carried⟩ := spans_mode split letter (known ▸ rfl)
          refine ⟨pieces ++ more, opened.trans named, ?_⟩
          rw [Piece.tokens, List.filterMap_append]
          exact congrArg₂ (· ++ ·) bracket carried
      · trivial
  · exact ⟨pieces, opened, bracket⟩

theorem covers_single {kind : Token.Kind} {d : Char} (cons : s.rest = c :: v)
    (same : (c == d) = true) (written : kind.mark? = some [d]) (rest : next.rest = s.rest.drop 1)
    (line : next.line = s.line) (column : next.column = s.column + 1)
    (unwritten : tail.filter Token.isWritten = []) :
    s.Covers (.more (s.mark kind :: tail) next) := by
  obtain rfl := eq_of_beq same
  exact covers_mark written (by rw [cons]; rfl) rest line column unwritten

theorem exists_of_ahead {d : Char} (cons : s.rest = c :: v)
    (ahead : ((s.rest.drop 1).head? == some d) = true) : ∃ w, s.rest = c :: d :: w := by
  have head := eq_of_beq ahead
  rw [cons, List.drop_one, List.tail_cons, List.head?_eq_some_iff] at head
  obtain ⟨w, rfl⟩ := head
  exact ⟨w, cons⟩

theorem covers_double {kind : Token.Kind} {d e : Char} (cons : s.rest = c :: v)
    (same : (c == d) = true) (ahead : ((s.rest.drop 1).head? == some e) = true)
    (written : kind.mark? = some [d, e]) (rest : next.rest = s.rest.drop 2)
    (line : next.line = s.line) (column : next.column = s.column + 2)
    (unwritten : tail.filter Token.isWritten = []) :
    s.Covers (.more (s.mark kind :: tail) next) := by
  obtain rfl := eq_of_beq same
  obtain ⟨w, both⟩ := exists_of_ahead cons ahead
  exact covers_mark written (by rw [both]; rfl) rest line column unwritten

/-- What stands for itself is a mark; text is what is left when all marks are ruled out. -/
theorem covers_prose (cons : s.rest = c :: v) (noBreak : (c == '\n') = false) :
    s.Covers (s.prose c) := by
  unfold prose
  dsimp only
  refine covers_ite (fun same => covers_single cons same rfl rfl rfl rfl rfl) fun brace => ?_
  refine covers_ite (fun same => ?_) fun quote => ?_
  · obtain rfl := eq_of_beq same
    exact covers_quoted cons
  refine covers_ite (fun gap => covers_blank cons gap) fun filled => ?_
  refine covers_ite (fun same => ?_) fun _ => ?_
  · obtain rfl := eq_of_beq same
    exact covers_variationsStart cons
  refine covers_ite (fun both => ?_) fun _ => ?_
  · exact covers_single cons (Bool.and_eq_true_iff.1 both).1 rfl rfl rfl rfl rfl
  refine covers_ite (fun both => ?_) fun _ => ?_
  · obtain ⟨first, ahead⟩ := Bool.and_eq_true_iff.1 both
    obtain rfl := eq_of_beq (Bool.and_eq_true_iff.1 first).1
    obtain ⟨w, both⟩ := exists_of_ahead cons ahead
    exact covers_named both (by simp) rfl
  refine covers_ite (fun both => ?_) fun _ => ?_
  · obtain ⟨first, ahead⟩ := Bool.and_eq_true_iff.1 both
    obtain rfl := eq_of_beq first
    obtain ⟨w, both⟩ := exists_of_ahead cons ahead
    exact covers_named both (by simp) (filter_lineBreakAhead _)
  refine covers_ite (fun both => ?_) fun _ => ?_
  · obtain ⟨first, ahead⟩ := Bool.and_eq_true_iff.1 both
    exact covers_double cons first ahead rfl rfl rfl rfl (filter_lineBreakAhead _)
  refine covers_ite (fun both => ?_) fun _ => ?_
  · exact covers_single cons (Bool.and_eq_true_iff.1 both).1 rfl rfl rfl rfl rfl
  refine covers_ite (fun both => ?_) fun _ => ?_
  · obtain ⟨first, ahead⟩ := Bool.and_eq_true_iff.1 both
    exact covers_double cons first ahead rfl rfl rfl rfl rfl
  iterate 3
    refine covers_ite (fun same => covers_single cons same rfl rfl rfl rfl rfl) fun _ => ?_
  refine covers_ite (fun both => ?_) fun opening => ?_
  · exact covers_single cons (Bool.and_eq_true_iff.1 both).1 rfl rfl rfl rfl rfl
  refine covers_ite (fun both => ?_) fun closing => ?_
  · exact covers_single cons (Bool.and_eq_true_iff.1 both).1 rfl rfl rfl rfl rfl
  refine covers_ite (fun same => ?_) fun dollar => ?_
  · exact covers_marker cons (by simp [eq_of_beq same])
  refine covers_ite (fun same => ?_) fun hash => ?_
  · exact covers_marker cons (by simp [eq_of_beq same])
  exact covers_text cons (by simpa using filled) (by simpa using quote)
    (endsText_eq_false noBreak brace opening closing dollar hash)

/-! Line by line. -/

theorem covers_lineBreak (cons : s.rest = '\n' :: v) : s.Covers (.more [] s.lineBreak) := by
  have empty : ∀ d ∈ ['\n'], Token.isFilled d = false := List.forall_mem_singleton.2 rfl
  have passed : s.lineBreak.rest = s.rest.drop 1 ∧ s.lineBreak.spot = s.spot.after ['\n'] := by
    unfold lineBreak
    dsimp only
    split <;> exact ⟨rfl, rfl⟩
  exact covers_gap empty (by rw [passed.1, cons]; rfl) passed.2 rfl

theorem filter_dedents {token : Token} (dedent : token.kind = .dedent) (levels : List Nat) :
    (levels.map fun _ => token).filter Token.isWritten = [] := by
  rw [List.filter_eq_nil_iff]
  intro other member
  obtain ⟨level, -, rfl⟩ := List.mem_map.1 member
  simp [Token.isWritten, dedent, Token.Kind.isWritten]

theorem covers_close (none : s.rest = []) : s.Covers s.close := ⟨none, filter_dedents rfl _⟩

/-- Spaces at the start of a line, whatever they do to the levels of indentation. -/
theorem covers_indent (passed : next.rest = s.rest.drop (s.rest.takeWhile isSpace).length)
    (line : next.line = s.line)
    (column : next.column = s.column + (s.rest.takeWhile isSpace).length)
    (unwritten : tokens.filter Token.isWritten = []) : s.Covers (.more tokens next) :=
  ⟨_, spans_spaces passed line column, unwritten.symm⟩

/-- A comment, with the end of its line if it is not the last one. -/
theorem covers_comment {indent more : List Char} (margin : s.column = 0)
    (spaces : ∀ c ∈ indent, isSpace c = true) (split : s.rest = indent ++ '-' :: '-' :: more)
    (rest : next.rest = (more.dropWhile fun c => c != '\n').drop 1)
    (spot : next.spot = ⟨s.line + 1, 0⟩) : s.Covers (.more [] next) := by
  let note := more.takeWhile fun c => c != '\n'
  have inside : '\n' ∉ note := not_mem_takeWhile_line more
  have whole : more = note ++ more.dropWhile fun c => c != '\n' :=
    List.takeWhile_append_dropWhile.symm
  cases left : more.dropWhile fun c => c != '\n' with
  | nil =>
      rw [left, List.append_nil] at whole
      rw [left] at rest
      refine ⟨[.comment indent note spaces inside], ⟨?_, ⟨margin, trivial⟩, ?_⟩, rfl⟩
      · rw [split, rest, whole]
        simp [Piece.text, Piece.chars]
      · exact fun more => absurd rest more
  | cons d below =>
      have ends : d = '\n' := by
        have stop := List.head?_dropWhile_not (fun c => c != '\n') more
        rw [left] at stop
        simpa using stop
      subst ends
      rw [left] at whole rest
      have bare : '\n' ∉ indent ++ '-' :: '-' :: note := by
        simp only [List.mem_append, List.mem_cons, not_or]
        exact ⟨Token.not_mem_of_forall rfl spaces, by decide, by decide, inside⟩
      refine ⟨[.comment indent note spaces inside, .gap ['\n'] (List.forall_mem_singleton.2 rfl)],
        ⟨?_, ⟨margin, trivial, trivial⟩, fun _ => ?_⟩, rfl⟩
      · rw [split, rest, whole]
        simp [Piece.text, Piece.chars]
      · change _ = s.spot.after ((indent ++ '-' :: '-' :: note) ++ ['\n'])
        rw [spot, Spot.after_append, Spot.after_of_not_mem _ bare]
        rfl

theorem covers_lineStart (margin : s.column = 0) : s.Covers s.lineStart := by
  unfold lineStart
  refine covers_ite (fun _ => covers_indent rfl rfl rfl rfl) fun _ => ?_
  refine covers_ite (fun comment => ?_) fun _ => ?_
  · have whole := List.prefix_iff_eq_append.1 (List.takeWhile_prefix isSpace (l := s.rest))
    have dashes := List.take_append_drop 2 (s.rest.drop (s.rest.takeWhile isSpace).length)
    rw [eq_of_beq comment] at dashes
    generalize (s.rest.drop (s.rest.takeWhile isSpace).length).drop 2 = more at dashes
    rw [← dashes] at whole
    refine covers_comment margin (fun c member => List.mem_takeWhile_imp member) whole.symm ?_ rfl
    simp [← dashes]
  refine covers_ite (fun _ => covers_indent rfl rfl rfl rfl) fun _ => ?_
  exact covers_ite (fun _ => covers_indent rfl rfl rfl (filter_dedents rfl _)) fun _ => trivial

theorem covers_step (margin : s.atLineStart = true → s.column = 0) : s.Covers s.step := by
  unfold step
  refine covers_ite (fun start => covers_lineStart (margin start)) fun _ => ?_
  split
  · next none => exact covers_close none
  · next c rest cons =>
      refine covers_ite (fun same => ?_) fun other => ?_
      · obtain rfl := eq_of_beq same
        exact covers_lineBreak cons
      · exact covers_ite (fun _ => covers_logic cons)
          fun _ => covers_prose cons (Bool.not_eq_true _ ▸ other)

/-- A scanner is at the start of a line only at the margin. -/
theorem margin_of_step (h : s.step = .more tokens next) :
    next.atLineStart = true → next.column = 0 := by
  unfold step at h
  split at h
  · unfold lineStart at h
    dsimp only at h
    split at h
    · cases h
      nofun
    split at h
    · cases h
      exact fun _ => rfl
    split at h
    · cases h
      nofun
    split at h
    · cases h
      nofun
    · cases h
  · next inside =>
      split at h
      · cases h
      · next c rest cons =>
          split at h
          · cases h
            unfold lineBreak
            dsimp only
            split <;> exact fun _ => rfl
          · next other =>
              have consumed : s.Consumes (if (s.mode == some .logic) = true then s.logic c
                  else s.prose c) :=
                consumes_ite (fun _ => consumes_logic cons)
                  fun _ => consumes_prose cons (Bool.not_eq_true _ ▸ other)
              rw [(consumed tokens next h).2]
              exact fun start => absurd start inside

/-- The written tokens of what is left are read off pieces of it. -/
theorem covers_stream (s : Scanner) (margin : s.atLineStart = true → s.column = 0) :
    ∃ pieces last, s.Spans pieces last ∧
      Piece.tokens pieces = s.stream.tokens.filter Token.isWritten ∧
      ∀ eof, s.stream.last = .ok eof → last.rest = [] := by
  fun_induction Scanner.stream s with
  | case1 s tokens next stepped ih =>
      obtain ⟨pieces, spans, read⟩ := stepped ▸ covers_step margin
      obtain ⟨more, last, beyond, rest, ended⟩ := ih (margin_of_step stepped)
      refine ⟨pieces ++ more, last, spans.trans beyond, ?_, ended⟩
      rw [Piece.tokens, List.filterMap_append, Stream.tokens_after, List.filter_append]
      exact congrArg₂ (· ++ ·) read rest
  | case2 s tokens eof stepped =>
      obtain ⟨none, unwritten⟩ := stepped ▸ covers_step margin
      exact ⟨[], s, spans_nil s, unwritten.symm, fun _ _ => none⟩
  | case3 s error stepped =>
      refine ⟨[], s, spans_nil s, rfl, ?_⟩
      rintro eof ⟨⟩

end Scanner

/-- The written tokens of a source are spelled by its lexemes, one after the other with nothing but
gaps and comments between them, and where the source ends without an error nothing is left behind
them. Each stands where its lexeme begins: its line is the number of line breaks that count before
it, and its column the number of characters after the last of these. All line breaks count but those
behind a backslash within a token, so that before the first of these the places are those of the
source itself. -/
theorem Stream.stand_ofSource (source : String) :
    ∃ (pieces : List Piece) (left : List Char),
      (Scanner.ofSource source).rest = Piece.text pieces ++ left ∧
      Piece.tokens pieces = (ofSource source).tokens.filter Token.isWritten ∧
      (∀ eof, (ofSource source).last = .ok eof → left = []) ∧
      ∀ before piece after, pieces = before ++ piece :: after →
        piece.At (Spot.behind (Piece.count before)) ∧
        ((∀ earlier ∈ before, earlier.counted = earlier.chars) →
          piece.At (Spot.behind (Piece.text before))) := by
  obtain ⟨pieces, last, spans, read, ended⟩ :=
    Scanner.covers_stream (Scanner.ofSource source) fun _ => rfl
  refine ⟨pieces, last.rest, spans.rest, read, ended, ?_⟩
  rintro before piece after rfl
  have here := spans.stand.at
  have origin : (Scanner.ofSource source).spot = ⟨0, 0⟩ := rfl
  rw [origin, Spot.after_origin] at here
  refine ⟨here, fun plain => ?_⟩
  have same : Piece.text before = Piece.count before :=
    List.flatMap_congr fun earlier member => (plain earlier member).symm
  rwa [same]

/-- A text over two lines, and a tag. The line break is behind a backslash, and the tag is placed as
if it stood on the first line. -/
theorem Stream.tag_behind_escaped :
    (ofSource "a\\\nb #t").tokens = [⟨.text, 0, 0, some "a\nb"⟩, ⟨.tag, 0, 5, some "t"⟩] ∧
      (Scanner.ofSource "a\\\nb #t").rest = "a\\\nb ".toList ++ ['#', 't'] ∧
      Spot.behind "a\\\nb ".toList = ⟨1, 2⟩ := by
  refine ⟨by decide +kernel, ?_, ?_⟩
  · decide +kernel
  · rfl

end Dialogue
