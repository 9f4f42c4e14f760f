namespace SourceHistory.Text

/-- Whether `n` lies in the set of `bounds`: in ascending order, the first opens an interval, the
second closes it, and so on. An odd number of bounds leaves the last interval open. -/
def inRanges (n : Nat) : (bounds : List Nat) → Bool
  | [] => false
  | [lo] => lo ≤ n
  | lo :: hi :: rest => if n < lo then false else if n < hi then true else inRanges n rest

end SourceHistory.Text
