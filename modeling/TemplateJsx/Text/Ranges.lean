/-!
# Ranges of code points

A class of characters is given as inclusive ranges of code points, in ascending
order.
-/

namespace TemplateJsx

/-- Inclusive ranges of code points. -/
abbrev Ranges := List (Nat × Nat)

def Ranges.cover (ranges : Ranges) (n : Nat) : Bool :=
  ranges.any fun r => r.1 ≤ n && n ≤ r.2

end TemplateJsx
