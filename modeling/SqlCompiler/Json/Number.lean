import SqlCompiler.Json.Written
/-!
# JSON number literals

The digits of a literal are gathered in a significand of 64 bits. Digits that no longer fit count
as powers of ten before the point and as nothing after it, and the significand is then multiplied
or divided by one power of ten, each a rounded operation of its own.
-/

namespace SqlCompiler.Json

def maxSignificand : Nat := UInt64.size - 1

structure Literal where
  negative : Bool
  significand : Nat
  exponent : Int

/-- Gathers digits while the significand has room: the significand, how many digits it took, and
what is left. -/
def gather (significand taken : Nat) : List Char → Nat × Nat × List Char
  | [] => (significand, taken, [])
  | c :: rest =>
    let next := 10 * significand + (c.toNat - '0'.toNat)
    if c.isDigit && next ≤ maxSignificand then gather next (taken + 1) rest
    else (significand, taken, c :: rest)

/-- `10 ^ n` as a rounded number. -/
def roundedTenTo (n : Nat) : Binary64 :=
  Binary64.ofNat (tenTo n)

/-- Divides by powers of ten of at most 308 places each. -/
def divideDown (x : Binary64) (places : Nat) : Nat → Binary64
  | 0 => x
  | fuel + 1 =>
    if places ≤ 308 then x.div (roundedTenTo places)
    else if x.isZero then x
    else divideDown (x.div (roundedTenTo 308)) (places - 308) fuel

/-- The rounded number of a literal; no value beyond the greatest. -/
def Literal.float (l : Literal) : Written :=
  let x := Binary64.ofNat l.significand
  let magnitude : Option Binary64 :=
    if l.exponent < 0 then some (divideDown x l.exponent.natAbs 4)
    else if l.exponent > 308 then (if x.isZero then some x else none)
    else
      let product := x.mul (roundedTenTo l.exponent.toNat)
      if product.isFinite then some product else none
  match magnitude with
  | some m => .scalar (.float (if l.negative then m.neg else m))
  | none => .valueless

/-- The number of a literal without point, exponent or lost digits. The literal `-0` keeps its
sign. -/
def Literal.whole (l : Literal) : Json :=
  if !l.negative then .int l.significand
  else if l.significand = 0 ∨ l.significand > twoTo 63 then
    .float (Binary64.ofNat l.significand).neg
  else .int (-(l.significand : Int))

/-- A literal whose exponent, after the letter, is `tail`. An exponent of 2^31 or more is not
added up: the number is zero or beyond the greatest. -/
def Literal.withExponent? (l : Literal) (tail : List Char) : Option Written :=
  let (negative, digits) := Binary64.cutSign tail
  match Text.natural? digits with
  | none => none
  | some e =>
    if e < twoTo 31 then
      some { l with exponent := if negative then l.exponent - e else l.exponent + e }.float
    else if l.significand ≠ 0 ∧ !negative then some .valueless
    else some (.scalar (.float (Binary64.zero l.negative)))

/-- A literal with a fraction, whose first digit stands at the head of `rest`. -/
def Literal.withFraction? (l : Literal) (rest : List Char) : Option Written :=
  if !(rest.head?.any Char.isDigit) then none
  else
    let (significand, taken, more) := gather l.significand 0 rest
    let l := { l with significand, exponent := l.exponent - taken }
    match more.dropWhile Char.isDigit with
    | [] => some l.float
    | 'e' :: tail | 'E' :: tail => l.withExponent? tail
    | _ => none

/-- The digits before the point. -/
def unsignedNumber? (negative : Bool) (text : List Char) : Option Written :=
  let (significand, _, rest) := gather 0 0 text
  let lost := rest.takeWhile Char.isDigit
  let l : Literal := { negative, significand, exponent := lost.length }
  match rest.dropWhile Char.isDigit with
  | [] => some (if lost.isEmpty then .scalar l.whole else l.float)
  | '.' :: tail => l.withFraction? tail
  | 'e' :: tail | 'E' :: tail => l.withExponent? tail
  | _ => none

/-- The number that a literal stands for, none if the text is no literal. A leading zero stands
alone before the point. -/
def number? (text : List Char) : Option Written :=
  let (negative, digits) := match text with
    | '-' :: rest => (true, rest)
    | _ => (false, text)
  match digits with
  | '0' :: c :: _ => if c.isDigit then none else unsignedNumber? negative digits
  | c :: _ => if c.isDigit then unsignedNumber? negative digits else none
  | [] => none

end SqlCompiler.Json
