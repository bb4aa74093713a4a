import SqlCompiler.Number.Shortest
import SqlCompiler.Text.Scan
/-!
# Numbers as text

Two layouts of the shortest digits, and reading of decimal text. The plain layout never has an
exponent; the layout of JSON keeps a point or an exponent in every number.
-/

namespace SqlCompiler

def natDigits (n : Nat) : List Char :=
  Nat.toDigits 10 n

theorem isDigit_of_mem_natDigits {n : Nat} : ∀ c ∈ natDigits n, c.isDigit = true :=
  fun _ member => Nat.isDigit_of_mem_toDigits (by decide) (by decide) member

theorem not_mem_natDigits {c : Char} (other : c.isDigit = false) (n : Nat) : c ∉ natDigits n := by
  intro member
  rw [isDigit_of_mem_natDigits c member] at other
  cases other

def natText (n : Nat) : String :=
  String.ofList (natDigits n)

def intText (n : Int) : String :=
  if n < 0 then "-" ++ natText n.natAbs else natText n.natAbs

def padded (width n : Nat) : String :=
  let digits := natDigits n
  String.ofList (List.replicate (width - digits.length) '0' ++ digits)

namespace Binary64

/-- Digits with the point after the first `point` of them. -/
def positional (digits : List Char) (point : Int) : List Char :=
  if point ≤ 0 then '0' :: '.' :: (List.replicate (-point).toNat '0' ++ digits)
  else
    let n := point.toNat
    if n ≥ digits.length then digits ++ List.replicate (n - digits.length) '0'
    else digits.take n ++ '.' :: digits.drop n

def signed (x : Binary64) (text : List Char) : String :=
  String.ofList (if x.isNegative then '-' :: text else text)

/-- The plain layout: the shortest digits without an exponent, a whole number without a point. -/
def text (x : Binary64) : String :=
  if x.isNaN then "NaN"
  else if !x.isFinite then x.signed "inf".toList
  else if x.isZero then x.signed "0".toList
  else
    let d := x.shortest .up
    let digits := natDigits d.digits
    x.signed (positional digits (digits.length + d.exponent))

/-- The layout of JSON: positional from 1e-5 up to 1e16 with at least one digit after the point,
else one digit before the point and a signed exponent. What is not finite is `null`. -/
def jsonText (x : Binary64) : String :=
  if !x.isFinite then "null"
  else if x.isZero then x.signed "0.0".toList
  else
    let d := x.shortest .even
    let digits := natDigits d.digits
    let point : Int := digits.length + d.exponent
    if -5 < point ∧ point ≤ 16 then
      let body := positional digits point
      x.signed (if body.contains '.' then body else body ++ ['.', '0'])
    else
      let e := point - 1
      let head := match digits with
        | [] => []
        | [c] => [c]
        | c :: rest => c :: '.' :: rest
      let tail := (if e < 0 then '-' else '+') :: natDigits e.natAbs
      x.signed (head ++ 'e' :: tail)

/-- A sign in front of a text, and the rest; without one the text is positive. -/
def cutSign : List Char → Bool × List Char
  | '-' :: rest => (true, rest)
  | '+' :: rest => (false, rest)
  | text => (false, text)

/-- The exponent after an `e` of either case; a text without one has exponent zero. -/
def exponent? : List Char → Option Int
  | [] => some 0
  | c :: rest =>
    if c = 'e' ∨ c = 'E' then
      let (negative, digits) := cutSign rest
      (Text.natural? digits).map fun n => if negative then -(n : Int) else n
    else none

/-- Digits and exponent of a text such as `12`, `.5`, `3.` or `1.25e-7`. -/
def decimal? (text : List Char) : Option (Nat × Int) :=
  let isDigit := fun c : Char => '0' ≤ c && c ≤ '9'
  let whole := text.takeWhile isDigit
  let rest := text.dropWhile isDigit
  let (part, tail) := match rest with
    | '.' :: more => (more.takeWhile isDigit, more.dropWhile isDigit)
    | _ => ([], rest)
  if whole.isEmpty && part.isEmpty then none
  else (exponent? tail).map fun e => (Text.digitsValue (whole ++ part), e - part.length)

/-- The number that a text writes: an optional sign, then a decimal number, `inf`, `infinity` or
`nan` in any case. `round` takes the decimal number to a binary one. -/
def ofTextWith? (round : Bool → Nat → Int → Binary64) (s : String) : Option Binary64 :=
  let (negative, body) := cutSign s.toList
  let word := String.ofList (body.map fun c =>
    if 'A' ≤ c && c ≤ 'Z' then Char.ofNat (c.toNat + 32) else c)
  if word = "inf" ∨ word = "infinity" then some (infinity negative)
  else if word = "nan" then some notANumber
  else (decimal? body).map fun (digits, e) => round negative digits e

def ofText? : String → Option Binary64 := ofTextWith? ofDecimal

/-- As `ofText?`, by way of the nearest number of 32 bits. -/
def ofTextSingle? : String → Option Binary64 := ofTextWith? ofDecimalSingle

end Binary64

end SqlCompiler
