import SqlCompiler.Number.Power
/-!
# Binary floating point numbers of 64 bits

A number is its bits. Every operation is exact arithmetic on natural numbers followed by one
rounding: `roundRatio` takes a quotient to the nearest number, ties to the even one.
-/

namespace SqlCompiler

/-- A number of the IEEE 754 format binary64, by its bits. -/
structure Binary64 where
  bits : UInt64
deriving DecidableEq, Repr

namespace Binary64

instance : Inhabited Binary64 := ⟨⟨0⟩⟩

def isNegative (x : Binary64) : Bool :=
  x.bits.toNat / twoTo 63 == 1

def biased (x : Binary64) : Nat :=
  x.bits.toNat / twoTo 52 % twoTo 11

def fraction (x : Binary64) : Nat :=
  x.bits.toNat % twoTo 52

def isFinite (x : Binary64) : Bool :=
  x.biased < 2047

def isNaN (x : Binary64) : Bool :=
  x.biased == 2047 && x.fraction != 0

/-- The magnitude of a finite number is `significand * 2 ^ (scale - 1074)`. -/
def significand (x : Binary64) : Nat :=
  if x.biased = 0 then x.fraction else twoTo 52 + x.fraction

def scale (x : Binary64) : Nat :=
  x.biased - 1

/-- The magnitude of a finite number as a quotient. -/
def magnitude (x : Binary64) : Nat × Nat :=
  (x.significand * twoTo x.scale, twoTo 1074)

def isZero (x : Binary64) : Bool :=
  x.isFinite && x.significand == 0

def signBit (negative : Bool) : Nat :=
  if negative then twoTo 63 else 0

def infinity (negative : Bool) : Binary64 :=
  ⟨(signBit negative + 2047 * twoTo 52).toUInt64⟩

def notANumber : Binary64 :=
  ⟨(2047 * twoTo 52 + twoTo 51).toUInt64⟩

def zero (negative : Bool) : Binary64 :=
  ⟨(signBit negative).toUInt64⟩

/-- The integer nearest to `num / den`, the even one of two. -/
def nearestEven (num den : Nat) : Nat :=
  let q := num / den
  let twice := 2 * (num % den)
  if twice < den then q
  else if twice > den then q + 1
  else if q % 2 = 0 then q else q + 1

/-- The exponent `e` for which `2 ^ e ≤ num / den < 2 ^ (e + 1)`, both positive. -/
def floorLog2 (num den : Nat) : Int :=
  let e : Int := (num.log2 : Int) - den.log2
  let below : Bool :=
    if e ≥ 0 then num < den * twoTo e.toNat else num * twoTo (-e).toNat < den
  if below then e - 1 else e

/-- The number `m * 2 ^ q` nearest to `num / den` among those with `m` of at most `precision`
bits and `q` not below `least`. -/
def roundTo (precision : Nat) (least : Int) (num den : Nat) : Nat × Int :=
  let q := max (floorLog2 num den - (precision - 1 : Int)) least
  if q ≥ 0 then (nearestEven num (den * twoTo q.toNat), q)
  else (nearestEven (num * twoTo (-q).toNat) den, q)

/-- The number nearest to `num / den`, the even one of two; infinite beyond the greatest. -/
def roundRatio (negative : Bool) (num den : Nat) : Binary64 :=
  if num = 0 then zero negative
  else
    let (m, q) := roundTo 53 (-1074) num den
    let bits := (q + 1074).toNat * twoTo 52 + m
    if bits ≥ 2047 * twoTo 52 then infinity negative
    else ⟨(signBit negative + bits).toUInt64⟩

def ofNat (n : Nat) : Binary64 :=
  roundRatio false n 1

def ofInt (n : Int) : Binary64 :=
  roundRatio (n < 0) n.natAbs 1

def neg (x : Binary64) : Binary64 :=
  ⟨x.bits ^^^ (twoTo 63).toUInt64⟩

def mul (x y : Binary64) : Binary64 :=
  let (a, b) := x.magnitude
  let (c, d) := y.magnitude
  roundRatio (x.isNegative != y.isNegative) (a * c) (b * d)

def div (x y : Binary64) : Binary64 :=
  let (a, b) := x.magnitude
  let (c, d) := y.magnitude
  roundRatio (x.isNegative != y.isNegative) (a * d) (b * c)

/-- The number nearest to `digits * 10 ^ exponent`. -/
def ofDecimal (negative : Bool) (digits : Nat) (exponent : Int) : Binary64 :=
  if digits = 0 then zero negative
  else if exponent > 400 then infinity negative
  else if exponent + (digits.log2 : Int) < -1100 then zero negative
  else if exponent ≥ 0 then roundRatio negative (digits * tenTo exponent.toNat) 1
  else roundRatio negative digits (tenTo (-exponent).toNat)

/-- The number nearest to `num / den` among those of 32 bits. -/
def roundSingle (negative : Bool) (num den : Nat) : Binary64 :=
  if num = 0 then zero negative
  else
    let (m, q) := roundTo 24 (-149) num den
    if q ≥ 0 then
      let n := m * twoTo q.toNat
      if n ≥ twoTo 128 then infinity negative else roundRatio negative n 1
    else roundRatio negative m (twoTo (-q).toNat)

/-- The number of 32 bits nearest to `digits * 10 ^ exponent`. -/
def ofDecimalSingle (negative : Bool) (digits : Nat) (exponent : Int) : Binary64 :=
  if digits = 0 then zero negative
  else if exponent > 400 then infinity negative
  else if exponent + (digits.log2 : Int) < -1100 then zero negative
  else if exponent ≥ 0 then roundSingle negative (digits * tenTo exponent.toNat) 1
  else roundSingle negative digits (tenTo (-exponent).toNat)

end Binary64

end SqlCompiler
