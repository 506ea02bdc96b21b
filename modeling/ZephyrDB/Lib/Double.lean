import Mathlib.Algebra.Group.Nat.Defs
import Mathlib.Data.Rat.Defs
import Mathlib.Algebra.Order.Ring.Unbundled.Rat

/-!
The values of IEEE 754 binary64 bit patterns, as far as comparisons and
conversions of exact values go.
-/

set_option autoImplicit false

namespace Lib

/-- What a bit pattern denotes; both zeros are the one rational. -/
inductive Double where
  | nan
  | inf (negative : Bool)
  | finite (q : ℚ)
  deriving DecidableEq

namespace Double

def scaled (m scale : Int) : ℚ :=
  if 0 ≤ scale then (m * 2 ^ scale.toNat : Int) else mkRat m (2 ^ (-scale).toNat)

def ofBits (bits : UInt64) : Double :=
  let negative : Bool := 2 ^ 63 ≤ bits.toNat
  let exponent : Nat := bits.toNat / 2 ^ 52 % 2 ^ 11
  let fraction : Nat := bits.toNat % 2 ^ 52
  if exponent = 2 ^ 11 - 1 then if fraction = 0 then .inf negative else .nan
  else
    -- a subnormal has no leading one, and the scale of the smallest normals
    let mantissa : Int := if exponent = 0 then fraction else 2 ^ 52 + fraction
    .finite (scaled (if negative then -mantissa else mantissa) (max exponent 1 - 1075))

/-- `==`. -/
def equal : Double → Double → Bool
  | .finite p, .finite q => p == q
  | .inf negative, .inf negative' => negative == negative'
  | _, _ => false

end Double

example : Double.ofBits 0xC000000000000000 = .finite (-2) := by decide +kernel

end Lib
