/-!
# Hexadecimal text

Lower-case hexadecimal digits of a natural number, padded with zeros on the left to a least
width.
-/

namespace JvmCoverage.Text

/-- The lower-case hexadecimal digits of `n`, at least `width` of them. -/
def hex (width n : Nat) : String :=
  let digits := Nat.toDigits 16 n
  String.ofList (List.replicate (width - digits.length) '0' ++ digits)

end JvmCoverage.Text
