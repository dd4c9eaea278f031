/-!
# Double-precision floating-point numbers

A value is its 64 bits, so two NaNs with different payloads and the two zeros are different values.
`ieeeEq` is the comparison of the standard: no NaN equals anything, and the two zeros are equal.
`ieeeEq_self_iff` and `eq_of_ieeeEq` say how it differs from equality of bits.
-/

namespace CiPipeline

structure Binary64 where
  bits : UInt64
  deriving DecidableEq, Repr, Inhabited

namespace Binary64

def isNegative (x : Binary64) : Bool := x.bits.toNat.testBit 63

/-- The biased exponent, below 2048. -/
def biasedExponent (x : Binary64) : Nat := (x.bits.toNat >>> 52) % 2048

def fraction (x : Binary64) : Nat := x.bits.toNat % (1 <<< 52)

def isNaN (x : Binary64) : Bool := x.biasedExponent == 2047 && x.fraction != 0

def isInfinite (x : Binary64) : Bool := x.biasedExponent == 2047 && x.fraction == 0

def isFinite (x : Binary64) : Bool := x.biasedExponent != 2047

def isZero (x : Binary64) : Bool := x.biasedExponent == 0 && x.fraction == 0

/-- The magnitude of a finite value is `significand * 2 ^ exponent`. -/
def significand (x : Binary64) : Nat :=
  if x.biasedExponent = 0 then x.fraction else (1 <<< 52) + x.fraction

def exponent (x : Binary64) : Int := (max x.biasedExponent 1 : Nat) - 1075

def ieeeEq (x y : Binary64) : Bool :=
  !x.isNaN && !y.isNaN && (x == y || x.isZero && y.isZero)

theorem ieeeEq_self_iff (x : Binary64) : x.ieeeEq x = true ↔ x.isNaN = false := by
  simp [ieeeEq]

theorem ieeeEq_comm (x y : Binary64) : x.ieeeEq y = y.ieeeEq x := by
  simp [ieeeEq, Bool.and_comm, Bool.and_assoc, BEq.comm]

theorem eq_of_ieeeEq {x y : Binary64} (h : x.ieeeEq y = true) (nonzero : x.isZero = false) :
    x = y := by
  simp only [ieeeEq, nonzero, Bool.false_and, Bool.or_false, Bool.and_eq_true] at h
  exact eq_of_beq h.2

end Binary64
end CiPipeline
