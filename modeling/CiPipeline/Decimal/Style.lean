import CiPipeline.Decimal.Shortest

/-!
# Text of finite doubles

A `Style` says where positional writing ends and how ties go; `write` follows it. Positional
text always has a point, so a whole number ends in `.0`.
-/

namespace CiPipeline.Decimal

structure Style where
  tie : Tie
  /-- The powers of ten of the first digit at which a number is written positionally. -/
  positional : Int → Bool

/-- `digits` with the decimal point after the first `point` of them, and zeros where there are no
digits. -/
def positionalText (digits : List Char) (point : Int) : List Char :=
  let whole := digits.take point.toNat ++ List.replicate (point.toNat - digits.length) '0'
  let part := List.replicate (-point).toNat '0' ++ digits.drop point.toNat
  (if whole.isEmpty then ['0'] else whole) ++ '.' :: (if part.isEmpty then ['0'] else part)

/-- One digit before the point, no point without a digit behind it, and a signed exponent. -/
def scientificText (digits : List Char) (power : Int) : List Char :=
  let part := digits.drop 1
  digits.take 1 ++ (if part.isEmpty then [] else '.' :: part) ++
    'e' :: (if power < 0 then '-' else '+') :: ofNat power.natAbs

/-- Trailing zeros move into the exponent. -/
def significantDigits (digits : Nat) : List Char :=
  ((ofNat digits).reverse.dropWhile (· == '0')).reverse

/-- The text of a finite double; the sign of a zero is kept. -/
def Style.write (style : Style) (x : Binary64) : List Char :=
  let magnitude :=
    if x.isZero then ['0', '.', '0']
    else
      let decimal := shortest style.tie x
      let point := (ofNat decimal.digits).length + decimal.exponent
      let digits := significantDigits decimal.digits
      if style.positional (point - 1) then positionalText digits point
      else scientificText digits (point - 1)
  if x.isNegative then '-' :: magnitude else magnitude

end CiPipeline.Decimal
