/-! Sets of characters, given by the code points at which membership changes. -/

namespace Univariate.Text

/-- In ascending order, the first code point inside, the next one outside, the next inside, … -/
structure CharSet where
  changes : List Nat

/-- A character is inside when an odd number of changes lie at or before it. -/
def CharSet.contains (s : CharSet) (c : Char) : Bool :=
  (s.changes.takeWhile (· ≤ c.toNat)).length % 2 == 1

end Univariate.Text
