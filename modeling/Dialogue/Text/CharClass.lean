/-! Character classes as ascending closed ranges of code points. -/
namespace Dialogue.Text

/-- Closed ranges of code points, ascending and apart. -/
abbrev CharClass := List (Nat × Nat)

namespace CharClass

/-- Whether a code point lies in one of the ranges. The ranges ascend, so the search ends at
the first range that starts above it. -/
def contains : CharClass → Nat → Bool
  | [], _ => false
  | (low, high) :: rest, n => low ≤ n && (n ≤ high || contains rest n)

/-- Each range is in order and ends before the next one starts. -/
def ascending : CharClass → Bool
  | [] => true
  | [(low, high)] => low ≤ high
  | (low, high) :: (next, end') :: rest =>
      low ≤ high && high + 1 < next && ascending ((next, end') :: rest)

/-- The number of code points in the class. -/
def count : CharClass → Nat
  | [] => 0
  | (low, high) :: rest => high + 1 - low + count rest

end CharClass
end Dialogue.Text
