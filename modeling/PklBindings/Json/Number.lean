/-!
# JSON numbers

A number is kept as it is written. It counts as an integer when it is written as one and fits
into 64 bits with a sign, and otherwise when the binary64 value nearest to it is integral and
fits.
-/

namespace PklBindings.Json

/-- A number literal. -/
inductive Number where
  /-- A literal of digits alone, with its sign. -/
  | integer (value : Int)
  /-- A literal with a fraction or an exponent: `significand * 10 ^ exponent`. -/
  | decimal (significand exponent : Int)
  deriving DecidableEq, Repr

/-- The integer nearest to `num / den`; of two, the even one. -/
def roundHalfEven (num den : Nat) : Nat :=
  let q := num / den
  let r := num % den
  if 2 * r < den then q
  else if den < 2 * r then q + 1
  else if q % 2 = 0 then q else q + 1

/-- The greatest `e` with `2 ^ e ≤ num / den`, for a positive ratio. -/
def ratioLog2 (num den : Nat) : Int :=
  let e : Int := (num.log2 : Int) - den.log2
  if den * Nat.pow 2 e.toNat ≤ num * Nat.pow 2 (-e).toNat then e else e - 1

/-- The binary64 value nearest to a positive ratio, as significand and exponent of two. The
significand has 53 bits, fewer only at the least exponent. Ratios beyond the greatest value are
not cut off. -/
def nearestBinary64 (num den : Nat) : Nat × Int :=
  let q := max (-1074) (ratioLog2 num den - 52)
  (roundHalfEven (num * Nat.pow 2 (-q).toNat) (den * Nat.pow 2 q.toNat), q)

/-- The integer `significand * 2 ^ exponent`, if it is one. -/
def scaled? (significand : Nat) (exponent : Int) : Option Nat :=
  if 0 ≤ exponent then some (significand * Nat.pow 2 exponent.toNat)
  else
    let unit := Nat.pow 2 (-exponent).toNat
    if significand % unit = 0 then some (significand / unit) else none

namespace Number

/-- Whether an integer fits into 64 bits with a sign. -/
def fits (n : Int) : Bool :=
  -0x8000000000000000 ≤ n && n < 0x8000000000000000

/-- The integer that the binary64 value nearest to `significand * 10 ^ exponent` is, if it is
one and fits. Exponents beyond every integer that fits, or so small that the value is zero, are
settled by the number of digits alone. -/
def roundedInteger? (significand exponent : Int) : Option Int :=
  let digits : Int := (Nat.toDigits 10 significand.natAbs).length
  if significand = 0 || digits + exponent < -330 then some 0
  else if 20 < digits + exponent then none
  else
    let (s, e) := nearestBinary64 (significand.natAbs * Nat.pow 10 exponent.toNat)
      (Nat.pow 10 (-exponent).toNat)
    match scaled? s e with
    | none => none
    | some n =>
      let value := significand.sign * n
      if fits value then some value else none

/-- The number as an integer, if it counts as one. -/
def toInteger? : Number → Option Int
  | integer value => if fits value then some value else roundedInteger? value 0
  | decimal significand exponent => roundedInteger? significand exponent

/-- An integer literal that fits stands for itself. -/
theorem toInteger?_integer {n : Int} (h : fits n = true) : toInteger? (integer n) = some n := by
  simp [toInteger?, h]

end Number

end PklBindings.Json
