import Dialogue.Json.Numeral

/-! JSON text taken apart, but not yet understood: numerals and strings stand as they are written,
and nesting has no limit. -/
namespace Dialogue.Json

/-- A piece of a string as it is written. -/
inductive Piece where
  | char (c : Char)
  /-- a character given by a letter or mark after a backslash -/
  | escaped (c : Char)
  /-- sixteen bits given by four hexadecimal digits -/
  | unit (n : Nat)
deriving DecidableEq

inductive Written where
  | null
  | bool (b : Bool)
  | num (n : Numeral)
  | str (pieces : List Piece)
  | arr (items : List Written)
  | obj (entries : List (List Piece × Written))

namespace Written

instance : Inhabited Written := ⟨null⟩

def isBlank (c : Char) : Bool := c == ' ' || c == '\n' || c == '\t' || c == '\r'

def skip (text : List Char) : List Char := text.dropWhile isBlank

def hexValue? (c : Char) : Option Nat :=
  if c.isDigit then some (c.toNat - 48)
  else if 'a' ≤ c ∧ c ≤ 'f' then some (c.toNat - 87)
  else if 'A' ≤ c ∧ c ≤ 'F' then some (c.toNat - 55)
  else none

def unit? (a b c d : Char) : Option Nat := do
  return (((← hexValue? a) * 16 + (← hexValue? b)) * 16 + (← hexValue? c)) * 16 + (← hexValue? d)

/-- The character that stands after a backslash for another, or for itself. -/
def escaped? (c : Char) : Option Char :=
  [('"', '"'), ('\\', '\\'), ('/', '/'), ('b', Char.ofNat 0x08), ('f', Char.ofNat 0x0C),
   ('n', '\n'), ('r', '\r'), ('t', '\t')].lookup c

/-- The pieces up to the closing quote. Control characters cannot stand for themselves. -/
def pieces? : List Char → Option (List Piece × List Char)
  | [] => none
  | '"' :: rest => some ([], rest)
  | '\\' :: 'u' :: a :: b :: c :: d :: rest => do
      let n ← unit? a b c d
      let (pieces, rest) ← pieces? rest
      return (.unit n :: pieces, rest)
  | '\\' :: c :: rest => do
      let c ← escaped? c
      let (pieces, rest) ← pieces? rest
      return (.escaped c :: pieces, rest)
  | c :: rest =>
      if c.toNat < 0x20 then none
      else do
        let (pieces, rest) ← pieces? rest
        return (.char c :: pieces, rest)

mutual

/-- Every call takes a character or hands on to one that does, so `fuel` of twice the length of the
text suffices. -/
def value? : Nat → List Char → Option (Written × List Char)
  | 0, _ => none
  | fuel + 1, text =>
      match skip text with
      | 'n' :: 'u' :: 'l' :: 'l' :: rest => some (null, rest)
      | 't' :: 'r' :: 'u' :: 'e' :: rest => some (bool true, rest)
      | 'f' :: 'a' :: 'l' :: 's' :: 'e' :: rest => some (bool false, rest)
      | '"' :: rest => (pieces? rest).map fun (pieces, rest) => (str pieces, rest)
      | '[' :: rest =>
          match skip rest with
          | ']' :: rest => some (arr [], rest)
          | rest => (items? fuel rest).map fun (items, rest) => (arr items, rest)
      | '\x7b' :: rest =>
          match skip rest with
          | '\x7d' :: rest => some (obj [], rest)
          | rest => (entries? fuel rest).map fun (entries, rest) => (obj entries, rest)
      | rest => (Numeral.scan? rest).map fun (n, rest) => (num n, rest)

/-- One or more items up to the closing bracket. -/
def items? : Nat → List Char → Option (List Written × List Char)
  | 0, _ => none
  | fuel + 1, text => do
      let (first, rest) ← value? fuel text
      match skip rest with
      | ',' :: rest =>
          let (items, rest) ← items? fuel rest
          return (first :: items, rest)
      | ']' :: rest => return ([first], rest)
      | _ => none

/-- One or more entries up to the closing brace. -/
def entries? : Nat → List Char → Option (List (List Piece × Written) × List Char)
  | 0, _ => none
  | fuel + 1, text =>
      match skip text with
      | '"' :: rest => do
          let (key, rest) ← pieces? rest
          match skip rest with
          | ':' :: rest =>
              let (first, rest) ← value? fuel rest
              match skip rest with
              | ',' :: rest =>
                  let (entries, rest) ← entries? fuel rest
                  return ((key, first) :: entries, rest)
              | '\x7d' :: rest => return ([(key, first)], rest)
              | _ => none
          | _ => none
      | _ => none

end

/-- Takes a whole text apart. -/
def read? (text : String) : Option Written :=
  match value? (2 * text.length + 2) text.toList with
  | some (w, rest) => if (skip rest).isEmpty then some w else none
  | none => none

end Written
end Dialogue.Json
