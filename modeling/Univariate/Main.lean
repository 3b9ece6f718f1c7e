import Univariate.Showcase

/-! Prints the demonstration of the derivative analysis. -/

def main : IO Unit :=
  IO.print (String.ofList (Univariate.Showcase.run 3).printed)
