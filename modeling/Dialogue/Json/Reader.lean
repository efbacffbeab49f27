import Dialogue.Json.Written

/-! The tree that JSON text stands for. Strings are whole characters, numbers are in range, and
arrays and objects nest at most `maxDepth` deep, wherever the reader looks: a record passes over
the values of fields that it does not know. -/
namespace Dialogue.Json

def maxDepth : Nat := 127

def isHigh (unit : Nat) : Bool := 0xD800 ≤ unit && unit < 0xDC00

def isLow (unit : Nat) : Bool := 0xDC00 ≤ unit && unit < 0xE000

/-- The characters that pieces stand for. A high unit and a low one after it are one character,
and neither can stand alone. -/
def Piece.chars? : List Piece → Option (List Char)
  | [] => some []
  | char c :: rest | escaped c :: rest => (chars? rest).map (c :: ·)
  | unit n :: rest =>
      if isHigh n then
        match rest with
        | unit low :: rest =>
            if isLow low then
              (chars? rest).map (Char.ofNat (0x10000 + (n - 0xD800) * 0x400 + (low - 0xDC00)) :: ·)
            else none
        | _ => none
      else if isLow n then none
      else (chars? rest).map (Char.ofNat n :: ·)

def Piece.text? (pieces : List Piece) : Option String := (chars? pieces).map String.ofList

/-- The text of pieces that all stand for themselves. -/
def Piece.plain? (pieces : List Piece) : Option String :=
  (pieces.mapM fun
    | char c => some c
    | _ => none).map String.ofList

/-- What is looked at in a text. -/
inductive Shape where
  | whole
  /-- an object whose keys are written without escapes -/
  | plainKeys
  /-- the fields of a record, in their order where it is an array -/
  | record (fields : List (String × Shape))
  | list (item : Shape)

namespace Shape

instance : Inhabited Shape := ⟨whole⟩

def key? : Shape → List Piece → Option String
  | plainKeys => Piece.plain?
  | _ => Piece.text?

/-- How an entry is looked at, if it is at all. -/
def entry? : Shape → String → Option Shape
  | record fields, key => fields.lookup key
  | _, _ => some whole

/-- How the item at a position is looked at. -/
def item : Shape → Nat → Shape
  | list shape, _ => shape
  | record fields, position => (fields[position]?.map Prod.snd).getD whole
  | _, _ => whole

end Shape

namespace Written

mutual

/-- The tree of what is looked at, in which arrays and objects nest at most `depth` deep. -/
def settle? (shape : Shape) (depth : Nat) : Written → Option Json
  | null => some .null
  | bool b => some (.bool b)
  | num n => n.value?.map .num
  | str pieces => (Piece.text? pieces).map .str
  | arr items =>
      match depth with
      | 0 => none
      | depth + 1 => (settleItems? shape depth 0 items).map .arr
  | obj entries =>
      match depth with
      | 0 => none
      | depth + 1 => (settleEntries? shape depth entries).map .obj

/-- Items from a position on. -/
def settleItems? (shape : Shape) (depth position : Nat) : List Written → Option (List Json)
  | [] => some []
  | w :: rest => do
      let j ← settle? (shape.item position) depth w
      return j :: (← settleItems? shape depth (position + 1) rest)

def settleEntries? (shape : Shape) (depth : Nat) :
    List (List Piece × Written) → Option (List (String × Json))
  | [] => some []
  | (pieces, w) :: rest => do
      let key ← shape.key? pieces
      match shape.entry? key with
      | some inner =>
          let j ← settle? inner depth w
          return (key, j) :: (← settleEntries? shape depth rest)
      | none => settleEntries? shape depth rest

end

end Written

/-- The tree of what is looked at in a text. -/
def readAs? (shape : Shape) (text : String) : Option Json :=
  (Written.read? text).bind (Written.settle? shape maxDepth)

/-- The tree that a text stands for. -/
def read? (text : String) : Option Json := readAs? .whole text

end Dialogue.Json
