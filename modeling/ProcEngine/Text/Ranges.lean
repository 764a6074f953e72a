/-!
# Sets of characters as ranges

A property of characters is held as the ascending closed ranges of the code points that have it.
-/

namespace ProcEngine.Text

/-- Bisects the ranges between `low` and `high`. -/
def inRangesFrom (ranges : Array (Nat × Nat)) (code : Nat) : (fuel low high : Nat) → Bool
  | 0, _, _ => false
  | fuel + 1, low, high =>
    if high ≤ low then false
    else
      let middle := (low + high) / 2
      match ranges[middle]? with
      | none => false
      | some (first, last) =>
        if code < first then inRangesFrom ranges code fuel low middle
        else if last < code then inRangesFrom ranges code fuel (middle + 1) high
        else true

def inRanges (ranges : Array (Nat × Nat)) (c : Char) : Bool :=
  inRangesFrom ranges c.toNat (ranges.size + 1) 0 ranges.size

example : (inRanges #[(48, 57), (97, 122)] 'b', inRanges #[(48, 57), (97, 122)] 'B') =
    (true, false) := by
  decide +kernel

end ProcEngine.Text
