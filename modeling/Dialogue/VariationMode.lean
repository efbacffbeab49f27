/-! The seven ways in which a list of variations picks its next alternative. -/
namespace Dialogue

inductive VariationMode where
  | sequence
  | once
  | cycle
  | shuffle
  | shuffleSequence
  | shuffleOnce
  | shuffleCycle
deriving DecidableEq

namespace VariationMode

/-- Variations without a written mode run in sequence. -/
instance : Inhabited VariationMode := ⟨sequence⟩

def all : List VariationMode :=
  [sequence, once, cycle, shuffle, shuffleSequence, shuffleOnce, shuffleCycle]

def name : VariationMode → String
  | sequence => "sequence"
  | once => "once"
  | cycle => "cycle"
  | shuffle => "shuffle"
  | shuffleSequence => "shuffle sequence"
  | shuffleOnce => "shuffle once"
  | shuffleCycle => "shuffle cycle"

def names : List String := all.map name

def ofName? (text : String) : Option VariationMode := all.find? fun mode => mode.name == text

theorem mem_all (mode : VariationMode) : mode ∈ all := by
  cases mode <;> decide

theorem ofName?_name (mode : VariationMode) : ofName? mode.name = some mode := by
  cases mode <;> decide

theorem name_of_ofName? {text : String} {mode : VariationMode} (h : ofName? text = some mode) :
    mode.name = text := by
  simpa using List.find?_some h

end VariationMode
end Dialogue
