import SqlCompiler.Number.Binary64
/-!
# Shortest decimal digits

The shortest decimal number that reads back as a given binary one, and among those of one length
the nearest. A grid of decimal numbers hits the interval of reals that round to the number only if
one of the two grid points beside the number does, so those two are tried, from one digit to
seventeen.
-/

namespace SqlCompiler

/-- The number `digits * 10 ^ exponent`. -/
structure Decimal where
  digits : Nat
  exponent : Int
deriving DecidableEq, Repr

/-- What to do with a number that lies in the middle between two decimal ones. -/
inductive Tie where
  | up
  | even
deriving DecidableEq, Repr

namespace Binary64

/-- The reals that round to a positive finite number, as numerators over `den`: from `low` to
`high`, with `value` inside. The ends belong to it when the significand is even. -/
structure Interval where
  low : Nat
  value : Nat
  high : Nat
  den : Nat
  closed : Bool

/-- The numbers below a power of two are half as far apart as those above it. -/
def interval (x : Binary64) : Interval :=
  let m := x.significand
  let unit := twoTo x.scale
  let narrow := m = twoTo 52 ∧ x.scale > 0
  { low := if narrow then (4 * m - 1) * unit else (4 * m - 2) * unit
    value := 4 * m * unit
    high := (4 * m + 2) * unit
    den := 4 * twoTo 1074
    closed := m % 2 = 0 }

def Interval.holds (i : Interval) (p : Int) (d : Nat) : Bool :=
  let point := if p ≥ 0 then d * tenTo p.toNat * i.den else d * i.den
  let widen := if p ≥ 0 then 1 else tenTo (-p).toNat
  if i.closed then i.low * widen ≤ point && point ≤ i.high * widen
  else i.low * widen < point && point < i.high * widen

/-- The greatest `e` with `10 ^ e ≤ num / den`, searched downwards from `start`. -/
def floorLog10 (num den : Nat) (start : Int) : Nat → Int
  | 0 => start
  | fuel + 1 =>
    let reached : Bool :=
      if start ≥ 0 then den * tenTo start.toNat ≤ num else den ≤ num * tenTo (-start).toNat
    if reached then start else floorLog10 num den (start - 1) fuel

/-- The point of the grid `10 ^ p` that stands for the value: of its two neighbours the one that
lies in the interval, and the nearer if both do. -/
def Interval.hit? (i : Interval) (tie : Tie) (p : Int) : Option Nat :=
  let num := if p ≥ 0 then i.value else i.value * tenTo (-p).toNat
  let den := if p ≥ 0 then i.den * tenTo p.toNat else i.den
  let below := num / den
  let twice := 2 * (num % den)
  match i.holds p below, i.holds p (below + 1) with
  | false, false => none
  | true, false => some below
  | false, true => some (below + 1)
  | true, true =>
    if twice < den then some below
    else if twice > den then some (below + 1)
    else match tie with
      | .up => some (below + 1)
      | .even => some (if below % 2 = 0 then below else below + 1)

def stripZeros (digits : Nat) (exponent : Int) : Nat → Decimal
  | 0 => ⟨digits, exponent⟩
  | fuel + 1 =>
    if digits % 10 = 0 then stripZeros (digits / 10) (exponent + 1) fuel else ⟨digits, exponent⟩

/-- The first grid that hits, from `n` digits on. -/
def firstHit (i : Interval) (tie : Tie) (top : Int) (n : Nat) : Nat → Decimal
  | 0 => ⟨i.value / i.den, 0⟩
  | fuel + 1 =>
    let p := top - n + 1
    match i.hit? tie p with
    | some d => stripZeros d p 20
    | none => firstHit i tie top (n + 1) fuel

/-- The shortest digits of a positive finite number. -/
def shortest (tie : Tie) (x : Binary64) : Decimal :=
  let i := x.interval
  let guess := (floorLog2 i.value i.den) * 30103 / 100000 + 1
  let top := floorLog10 i.value i.den guess 4
  firstHit i tie top 1 18

end Binary64

end SqlCompiler
