/-!
Sets of numbers given by their bounds: the numbers at which the set begins and ends in turn, in
increasing order.
-/

namespace AttrGrammar.Text

/-- Counts the bounds up to `n` by halving: the places before `low` hold such bounds and those from
`high` on do not. The bounds increase. -/
def boundsUpTo (bounds : Array Nat) (n low high : Nat) : Nat :=
  if _ : low < high then
    let middle := (low + high) / 2
    if bounds.getD middle 0 ≤ n then boundsUpTo bounds n (middle + 1) high
    else boundsUpTo bounds n low middle
  else low
termination_by high - low

/-- Whether a number is in the set with the given bounds. -/
def isBetween (bounds : Array Nat) (n : Nat) : Bool :=
  boundsUpTo bounds n 0 bounds.size % 2 == 1

end AttrGrammar.Text
