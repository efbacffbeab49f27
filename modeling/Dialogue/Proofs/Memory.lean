import Dialogue.Memory

/-! Laws of the bookkeeping and of the flags of chosen options. A note replaces the one before it
under the same key, and is not seen by what reads another key. -/
namespace Dialogue.Memory

theorem internal_note_self (m : Memory) (key : String) (datum : Datum) :
    (m.note key datum).internal[key]? = some datum := by
  simp [note]

theorem internal_note_of_ne (m : Memory) {key other : String} (datum : Datum)
    (different : key ≠ other) : (m.note key datum).internal[other]? = m.internal[other]? := by
  simp [note, Std.ExtTreeMap.getElem?_insert, different]

theorem note_note (m : Memory) (key : String) (first second : Datum) :
    (m.note key first).note key second = m.note key second := by
  simp only [note, mk.injEq, true_and]
  apply Std.ExtTreeMap.ext_getElem?
  intro other
  simp only [Std.ExtTreeMap.getElem?_insert]
  split <;> rfl

theorem note_comm (m : Memory) {key other : String} (datum entry : Datum)
    (different : key ≠ other) :
    (m.note key datum).note other entry = (m.note other entry).note key datum := by
  simp only [note, mk.injEq, true_and]
  apply Std.ExtTreeMap.ext_getElem?
  intro name
  simp only [Std.ExtTreeMap.getElem?_insert, Std.compare_eq_iff_eq]
  by_cases here : other = name
  · have apart : key ≠ name := fun same => different (same.trans here.symm)
    simp [here, apart]
  · simp [here]

theorem count?_note_self (m : Memory) (key : String) (n : Int64) :
    (m.note key (.count n)).count? key = some n := by
  simp only [count?, internal_note_self]

theorem count?_note_of_ne (m : Memory) {key other : String} (datum : Datum)
    (different : key ≠ other) : (m.note key datum).count? other = m.count? other := by
  simp only [count?, internal_note_of_ne m datum different]

theorem positions_note_of_ne (m : Memory) {key other : String} (datum : Datum)
    (different : key ≠ other) : (m.note key datum).positions other = m.positions other := by
  simp only [positions, internal_note_of_ne m datum different]

theorem get_note_of_ne (m : Memory) {key : String} (datum : Datum)
    (different : key ≠ optionsCount) (name : String) (default : Value) :
    (m.note key datum).get name default = m.get name default := by
  simp only [get, count?_note_of_ne m datum different, values_note]

@[simp] theorem accessed_note (m : Memory) (key : String) (datum : Datum) (index : UInt64) :
    (m.note key datum).accessed index = m.accessed index := rfl

theorem accessed_insert (m : Memory) (index other : UInt64) :
    (m.access.insert index true)[other]?.getD false = (index == other || m.accessed other) := by
  simp only [accessed, Std.ExtTreeMap.getElem?_insert, Std.compare_eq_iff_eq]
  by_cases same : index = other <;> simp [same]

end Dialogue.Memory
