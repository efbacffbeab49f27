import Dialogue.Text.Blank
import Dialogue.Text.Word
import Dialogue.Token.Stream

/-! Reading source as tokens. A scanner stands before the rest of the source and takes one step at
a time; leading white space opens and closes indentation levels, and the innermost mode decides
how characters are read. -/
namespace Dialogue

namespace Scanner

/-- What encloses the place being read. Plain dialogue is enclosed by nothing. -/
inductive Mode where
  /-- the rest of a line after an option mark -/
  | option
  /-- inside braces -/
  | logic
  /-- inside a bracketed list of variations -/
  | variations
deriving DecidableEq

end Scanner

structure Scanner where
  rest : List Char
  line : Nat := 0
  column : Nat := 0
  /-- widths of the open indentation levels, innermost first; the outermost is the margin -/
  indents : List Nat := [0]
  /-- open modes, innermost first -/
  modes : List Scanner.Mode := []
  atLineStart : Bool := true
  /-- a speaker has been read on this line -/
  speakerSeen : Bool := false

namespace Scanner

inductive Step where
  | more (tokens : List Token) (next : Scanner)
  | finish (tokens : List Token) (eof : Token)
  | fail (error : ParseError)

/-- Byte order marks in front of the source are ignored. -/
def ofSource (source : String) : Scanner :=
  { rest := source.toList.dropWhile fun c => c == Char.ofNat 0xFEFF }

def mode (s : Scanner) : Option Mode := s.modes.head?

def enter (mode : Mode) (s : Scanner) : Scanner := { s with modes := mode :: s.modes }

def leave (s : Scanner) : Scanner := { s with modes := s.modes.tail }

/-- Passes over characters of the line. -/
def advance (count : Nat) (s : Scanner) : Scanner :=
  { s with rest := s.rest.drop count, column := s.column + count }

@[simp] theorem rest_enter (mode : Mode) (s : Scanner) : (s.enter mode).rest = s.rest := rfl

@[simp] theorem rest_leave (s : Scanner) : s.leave.rest = s.rest := rfl

@[simp] theorem rest_advance (count : Nat) (s : Scanner) :
    (s.advance count).rest = s.rest.drop count := rfl

@[simp] theorem atLineStart_enter (mode : Mode) (s : Scanner) :
    (s.enter mode).atLineStart = s.atLineStart := rfl

@[simp] theorem atLineStart_leave (s : Scanner) : s.leave.atLineStart = s.atLineStart := rfl

@[simp] theorem atLineStart_advance (count : Nat) (s : Scanner) :
    (s.advance count).atLineStart = s.atLineStart := rfl

/-- A token that starts where the scanner stands. -/
def mark (s : Scanner) (kind : Token.Kind) : Token := ⟨kind, s.line, s.column, none⟩

/-- A token with a text, starting where the scanner stands. -/
def carry (s : Scanner) (kind : Token.Kind) (text : List Char) : Token :=
  ⟨kind, s.line, s.column, some (String.ofList text)⟩

def isSpace (c : Char) : Bool := c == ' ' || c == '\t'

def isGap (c : Char) : Bool := isSpace c || c == '\r'

/-- The token for a line that ends here, if nothing but spaces stands before the line break. -/
def lineBreakAhead (s : Scanner) : List Token :=
  let gap := s.rest.takeWhile isGap
  match s.rest.drop gap.length with
  | '\n' :: _ => [⟨.lineBreak, s.line, s.column + gap.length, none⟩]
  | _ => []

/-- A mark of a given width, passed over. -/
def single (s : Scanner) (kind : Token.Kind) (width : Nat) : Step :=
  .more [s.mark kind] (s.advance (width + 1))

/-- The start of a line: a blank line and a comment leave the indentation alone, any other line
opens a level, closes levels or stays. -/
def lineStart (s : Scanner) : Step :=
  let width := (s.rest.takeWhile isSpace).length
  let started := { s with atLineStart := false }
  let content := s.rest.drop width
  if content.isEmpty || content.head? == some '\n' || content.head? == some '\r' then
    .more [] (started.advance width)
  else if content.take 2 == ['-', '-'] then
    let below := (content.dropWhile fun c => c != '\n').drop 1
    .more [] { s with rest := below, line := s.line + 1, column := 0 }
  else
    let current := s.indents.headD 0
    if current < width then
      .more [⟨.indent, s.line, current, none⟩]
        ({ started with indents := width :: s.indents }.advance width)
    else
      let closed := s.indents.takeWhile fun level => width < level
      let kept := s.indents.dropWhile fun level => width < level
      if kept.headD 0 == width then
        .more (closed.map fun _ => ⟨.dedent, s.line, width, none⟩)
          ({ started with indents := kept }.advance width)
      else .fail (.located .invalidIndentation s.line width)

/-- The end of a line. A line break inside braces is only a gap. -/
def lineBreak (s : Scanner) : Scanner :=
  let next := { s with rest := s.rest.drop 1, line := s.line + 1, column := 0 }
  match s.mode with
  | some .logic => next
  | some .option => { next.leave with atLineStart := true, speakerSeen := false }
  | _ => { next with atLineStart := true, speakerSeen := false }

/-- The end of the source closes every level but the margin. -/
def close (s : Scanner) : Step :=
  .finish (s.indents.dropLast.map fun _ => s.mark .dedent) (s.mark .eof)

/-- A mark, spaces and a name. -/
def named (s : Scanner) (kind : Token.Kind) : Token × Scanner :=
  let gap := (s.rest.drop 2).takeWhile isSpace
  let name := ((s.rest.drop 2).drop gap.length).takeWhile Text.isWord
  (s.carry kind name, s.advance (gap.length + name.length + 2))

/-- A line id or a tag. -/
def marker (s : Scanner) (kind : Token.Kind) : Step :=
  let name := (s.rest.drop 1).takeWhile Text.isMarker
  .more [s.carry kind name] (s.advance (name.length + 1))

/-- An opening bracket. A letter after it starts the name of a mode, which takes the rest of the
line. -/
def variationsStart (s : Scanner) : Step :=
  let gap := (s.rest.drop 1).takeWhile isSpace
  let inside := (s.enter .variations).advance (gap.length + 1)
  match inside.rest with
  | c :: _ =>
      if Text.isAlphabetic c then
        let written := inside.rest.takeWhile fun c => c != '\n'
        let mode := " ".intercalate ((Text.words written).map String.ofList)
        match VariationMode.ofName? mode with
        | some _ =>
            .more [s.mark .bracketOpen, inside.carry .variationsMode mode.toList]
              (inside.advance written.length)
        | none => .fail (.located (.invalidVariationMode mode) inside.line inside.column)
      else .more [s.mark .bracketOpen] inside
  | [] => .more [s.mark .bracketOpen] inside

/-- A character after a backslash. -/
def unescape (c : Char) : Char := if c == 'n' then '\n' else c

/-- A run of text: its characters, how many characters of source they take, and whether it ended
with the colon after a speaker. -/
structure Run where
  chars : List Char
  count : Nat
  speaker : Bool

def Run.cons (c : Char) (width : Nat) (run : Run) : Run :=
  { run with chars := c :: run.chars, count := run.count + width }

/-- Reads text up to a character that ends it, or through a colon while speakers are allowed. -/
def textRun (ends : Char → Bool) (speakers : Bool) : List Char → Run
  | [] => ⟨[], 0, false⟩
  | '\\' :: c :: rest => (textRun ends speakers rest).cons (unescape c) 2
  | ['\\'] => ⟨[], 1, false⟩
  | c :: rest =>
      if ends c then ⟨[], 0, false⟩
      else if c == ':' && speakers then ⟨[], 1, true⟩
      else (textRun ends speakers rest).cons c 1

/-- The characters that end plain text; brackets do so only on an option's line. -/
def endsText (inOption : Bool) (c : Char) : Bool :=
  c == '\n' || c == '$' || c == '#' || c == '\x7b' || (inOption && (c == '[' || c == ']'))

/-- Plain text, or a speaker if a colon follows and none has been read on this line. -/
def text (s : Scanner) : Step :=
  let run := textRun (endsText (s.mode == some .option)) (!s.speakerSeen) s.rest
  let value := Text.trim run.chars
  if run.speaker then
    .more [s.carry .speaker value] { s.advance run.count with speakerSeen := true }
  else .more [s.carry .text value] (s.advance run.count)

/-- Text in quotes: its characters, how many characters of source they and the closing quote take,
and where the source stands after them. -/
structure Quote where
  chars : List Char
  count : Nat
  line : Nat
  column : Nat

def Quote.cons (c : Char) (width : Nat) (quote : Quote) : Quote :=
  { quote with chars := c :: quote.chars, count := quote.count + width }

/-- Reads up to the closing quote, counting lines. -/
def quoteRun : List Char → Nat → Nat → Option Quote
  | [], _, _ => none
  | '"' :: _, line, column => some ⟨[], 1, line, column + 1⟩
  | '\\' :: c :: rest, line, column => (quoteRun rest line (column + 2)).map (·.cons (unescape c) 2)
  | ['\\'], _, _ => none
  | c :: rest, line, column =>
      if c == '\n' then (quoteRun rest (line + 1) 0).map (·.cons c 1)
      else (quoteRun rest line (column + 1)).map (·.cons c 1)

/-- Text in quotes is kept as it stands. -/
def quoted (s : Scanner) : Step :=
  match quoteRun (s.rest.drop 1) s.line (s.column + 1) with
  | some quote =>
      .more [s.carry .text quote.chars]
        { s with rest := s.rest.drop (quote.count + 1), line := quote.line, column := quote.column }
  | none => .fail (.located .unterminatedString s.line s.column)

/-- Dialogue outside braces, standing before the character `c`. -/
def prose (s : Scanner) (c : Char) : Step :=
  let next := (s.rest.drop 1).head?
  if c == '\x7b' then .more [s.mark .braceOpen] ((s.enter .logic).advance 1)
  else if c == '"' then s.quoted
  else if isGap c then .more [] (s.advance 1)
  else if c == '(' then s.variationsStart
  else if c == ')' && s.mode == some .variations then
    .more [s.mark .bracketClose] (s.leave.advance 1)
  else if c == '=' && s.column == 0 && next == some '=' then
    .more [(s.named .block).1] (s.named .block).2
  else if c == '-' && next == some '>' then
    .more ((s.named .divert).1 :: (s.named .divert).2.lineBreakAhead) (s.named .divert).2
  else if c == '<' && next == some '-' then
    .more (s.mark .divertParent :: (s.advance 2).lineBreakAhead) (s.advance 2)
  else if c == '-' && s.mode == some .variations then s.single .minus 0
  else if c == '>' && next == some '>' then s.single .optionsStart 1
  else if c == '*' then .more [s.mark .option] ((s.enter .option).advance 1)
  else if c == '+' then .more [s.mark .stickyOption] ((s.enter .option).advance 1)
  else if c == '>' then .more [s.mark .fallbackOption] ((s.enter .option).advance 1)
  else if c == '[' && s.mode == some .option then s.single .labelOpen 0
  else if c == ']' && s.mode == some .option then s.single .labelClose 0
  else if c == '$' then s.marker .lineId
  else if c == '#' then s.marker .tag
  else s.text

/-- Reads a string literal up to its quote; a backslash keeps the character after it. Gives the
characters and how many characters of source they and the closing quote take. -/
def literalRun (quote : Char) : List Char → Option (List Char × Nat)
  | [] => none
  | '\n' :: _ => none
  | '\\' :: c :: rest => (literalRun quote rest).map fun (chars, count) => (c :: chars, count + 2)
  | ['\\'] => none
  | c :: rest =>
      if c == quote then some ([], 1)
      else (literalRun quote rest).map fun (chars, count) => (c :: chars, count + 1)

/-- Digits, and a point with digits after it. -/
def numberRun (rest : List Char) : List Char :=
  let whole := rest.takeWhile Char.isDigit
  match rest.drop whole.length with
  | '.' :: after =>
      let fraction := after.takeWhile Char.isDigit
      if fraction.isEmpty then whole else whole ++ '.' :: fraction
  | _ => whole

/-- The words with a meaning of their own inside braces, in lower case. -/
def keyword? (word : String) : Option Token.Kind :=
  [("is", Token.Kind.equal), ("isnt", .notEqual), ("or", .or), ("and", .and), ("not", .not),
   ("set", .set), ("trigger", .trigger), ("when", .when), ("null", .null), ("true", .boolean),
   ("false", .boolean)].lookup word

/-- A name or a keyword. Keywords are read in any case of their letters, and a truth value is kept
in lower case. -/
def word (s : Scanner) (name : List Char) : Token :=
  let lower := name.map Char.toLower
  match keyword? (String.ofList lower) with
  | some .boolean => s.carry .boolean lower
  | some kind => s.mark kind
  | none => s.carry .identifier name

def double? : Char → Option Char → Option Token.Kind
  | '=', some '=' => some .equal
  | '!', some '=' => some .notEqual
  | '&', some '&' => some .and
  | '|', some '|' => some .or
  | '>', some '=' => some .greaterOrEqual
  | '<', some '=' => some .lessOrEqual
  | '+', some '=' => some .assignSum
  | '-', some '=' => some .assignDifference
  | '*', some '=' => some .assignProduct
  | '/', some '=' => some .assignQuotient
  | '^', some '=' => some .assignPower
  | '%', some '=' => some .assignModulo
  | _, _ => none

def single? : Char → Option Token.Kind
  | '!' => some .not
  | '>' => some .greater
  | '<' => some .less
  | '=' => some .assign
  | '+' => some .plus
  | '-' => some .minus
  | '*' => some .times
  | '/' => some .divide
  | '^' => some .power
  | '%' => some .modulo
  | ',' => some .comma
  | '(' => some .bracketOpen
  | ')' => some .bracketClose
  | _ => none

def operator (s : Scanner) (c : Char) : Step :=
  match double? c (s.rest.drop 1).head? with
  | some kind => s.single kind 1
  | none =>
      match single? c with
      | some kind => s.single kind 0
      | none => .fail (.located (.unexpectedCharacter c) s.line s.column)

def literal (s : Scanner) (quote : Char) : Step :=
  match literalRun quote (s.rest.drop 1) with
  | some (chars, count) => .more [s.carry .string chars] (s.advance (count + 1))
  | none => .fail (.located .unterminatedString s.line s.column)

/-- The inside of braces, standing before the character `c`. -/
def logic (s : Scanner) (c : Char) : Step :=
  if c == '\x7d' then
    .more (s.mark .braceClose :: (s.leave.advance 1).lineBreakAhead) (s.leave.advance 1)
  else if isGap c then .more [] (s.advance 1)
  else if c == '"' || c == '\'' then s.literal c
  else if c.isDigit then
    .more [s.carry .number (numberRun s.rest)] (s.advance (numberRun s.rest).length)
  else if Text.isAlphabetic c || c == '_' then
    let name := s.rest.takeWhile Text.isWord
    .more [s.word name] (s.advance name.length)
  else s.operator c

def step (s : Scanner) : Step :=
  if s.atLineStart then s.lineStart
  else
    match s.rest with
    | [] => s.close
    | c :: _ =>
        if c == '\n' then .more [] s.lineBreak
        else if s.mode == some .logic then s.logic c
        else s.prose c

/-- What is left to do: two for each character, and one for a line not yet started. -/
def size (s : Scanner) : Nat := 2 * s.rest.length + if s.atLineStart then 1 else 0

end Scanner
end Dialogue
