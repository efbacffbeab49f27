/-! JSON trees. An object keeps its entries in the order and number in which they were written. -/
namespace Dialogue

namespace Json

/-- A whole number within 64 bits, or a double. -/
inductive Number where
  | int (n : Int)
  | float (x : Float)

end Json

inductive Json where
  | null
  | bool (b : Bool)
  | num (n : Json.Number)
  | str (s : String)
  | arr (items : List Json)
  | obj (entries : List (String × Json))

namespace Json

instance : Inhabited Json := ⟨null⟩

def number (x : Float) : Json := num (.float x)

def integer (n : Int) : Json := num (.int n)

/-- The double that a number stands for. -/
def Number.toFloat : Number → Float
  | int n => Float.ofInt n
  | float x => x

def Number.same : Number → Number → Bool
  | int a, int b => a == b
  | float x, float y => x == y
  | _, _ => false

mutual

/-- Equality of trees, with numbers compared as numbers. -/
def same : Json → Json → Bool
  | null, null => true
  | bool a, bool b => a == b
  | num a, num b => a.same b
  | str a, str b => a == b
  | arr as, arr bs => sameItems as bs
  | obj as, obj bs => sameEntries as bs
  | _, _ => false

def sameItems : List Json → List Json → Bool
  | [], [] => true
  | a :: as, b :: bs => same a b && sameItems as bs
  | _, _ => false

def sameEntries : List (String × Json) → List (String × Json) → Bool
  | [], [] => true
  | (k, a) :: as, (l, b) :: bs => k == l && same a b && sameEntries as bs
  | _, _ => false

end

mutual

/-- How deep arrays and objects nest. -/
def depth : Json → Nat
  | arr items => depthItems items + 1
  | obj entries => depthEntries entries + 1
  | _ => 0

def depthItems : List Json → Nat
  | [] => 0
  | j :: rest => max j.depth (depthItems rest)

def depthEntries : List (String × Json) → Nat
  | [] => 0
  | (_, j) :: rest => max j.depth (depthEntries rest)

end

/-- The value under a key, the first if it is written more than once. -/
def get? (j : Json) (key : String) : Option Json :=
  match j with
  | obj entries => entries.lookup key
  | _ => none

/-- Puts an entry into a list in ascending order of keys, in place of one with its key. -/
def insertEntry (key : String) (j : Json) : List (String × Json) → List (String × Json)
  | [] => [(key, j)]
  | (k, v) :: rest =>
      if key < k then (key, j) :: (k, v) :: rest
      else if key == k then (key, j) :: rest
      else (k, v) :: insertEntry key j rest

mutual

/-- The tree with the keys of every object in ascending order. Of entries with one key the last
is kept. -/
def sorted : Json → Json
  | arr items => arr (sortedItems items)
  | obj entries => obj (sortedEntries [] entries)
  | j => j

def sortedItems : List Json → List Json
  | [] => []
  | j :: rest => j.sorted :: sortedItems rest

def sortedEntries (done : List (String × Json)) : List (String × Json) → List (String × Json)
  | [] => done
  | (k, j) :: rest => sortedEntries (insertEntry k j.sorted done) rest

end

end Json
end Dialogue
