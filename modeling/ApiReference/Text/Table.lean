import ApiReference.Text.Basic

/-! # Tables of code points -/

namespace ApiReference.Text

/-- Whether a character lies in one of the closed ranges of a table. -/
def inRanges (table : List (Nat × Nat)) (c : Char) : Bool :=
  table.any fun range => range.1 ≤ c.toNat && c.toNat ≤ range.2

end ApiReference.Text
