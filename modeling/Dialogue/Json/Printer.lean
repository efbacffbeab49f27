import Dialogue.Json
import Dialogue.Number.Layout

/-! JSON text: compact on one line, or indented by two spaces. -/
namespace Dialogue.Json

def hexDigit (n : Nat) : Char := if n < 10 then Char.ofNat (48 + n) else Char.ofNat (87 + n)

/-- A character inside quotes: the two that cannot stand there and the control characters are
escaped, all others stand for themselves. -/
def escape (c : Char) : List Char :=
  if c == '"' then ['\\', '"']
  else if c == '\\' then ['\\', '\\']
  else if c == Char.ofNat 0x08 then ['\\', 'b']
  else if c == '\t' then ['\\', 't']
  else if c == '\n' then ['\\', 'n']
  else if c == Char.ofNat 0x0C then ['\\', 'f']
  else if c == '\r' then ['\\', 'r']
  else if c.toNat < 0x20 then
    ['\\', 'u', '0', '0', hexDigit (c.toNat / 16), hexDigit (c.toNat % 16)]
  else [c]

def quote (s : String) : String := "\"" ++ String.ofList (s.toList.flatMap escape) ++ "\""

/-- JSON has no text for numbers that are not finite. -/
def Number.render : Number → String
  | int n => toString n
  | float x => if x.isNaN || x.isInf then "null" else Dialogue.Number.Layout.stored.render x

mutual

/-- The text without any space. -/
def compact : Json → String
  | null => "null"
  | bool b => if b then "true" else "false"
  | num n => n.render
  | str s => quote s
  | arr items => "[" ++ ",".intercalate (compactItems items) ++ "]"
  | obj entries => "\x7b" ++ ",".intercalate (compactEntries entries) ++ "\x7d"

def compactItems : List Json → List String
  | [] => []
  | j :: rest => j.compact :: compactItems rest

def compactEntries : List (String × Json) → List String
  | [] => []
  | (k, j) :: rest => (quote k ++ ":" ++ j.compact) :: compactEntries rest

end

def newline (level : Nat) : String := String.ofList ('\n' :: List.replicate (2 * level) ' ')

/-- Parts between brackets, each on a line of its own. -/
def enclose (opening closing : String) (level : Nat) (parts : List String) : String :=
  if parts.isEmpty then opening ++ closing
  else
    opening ++ newline (level + 1) ++ ("," ++ newline (level + 1)).intercalate parts ++
      newline level ++ closing

mutual

/-- The text with each item and entry on a line of its own, inside `level` levels. -/
def prettyAt (level : Nat) : Json → String
  | arr items => enclose "[" "]" level (prettyItems (level + 1) items)
  | obj entries => enclose "\x7b" "\x7d" level (prettyEntries (level + 1) entries)
  | j => j.compact

def prettyItems (level : Nat) : List Json → List String
  | [] => []
  | j :: rest => prettyAt level j :: prettyItems level rest

def prettyEntries (level : Nat) : List (String × Json) → List String
  | [] => []
  | (k, j) :: rest => (quote k ++ ": " ++ prettyAt level j) :: prettyEntries level rest

end

def pretty (j : Json) : String := prettyAt 0 j

end Dialogue.Json
