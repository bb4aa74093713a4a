/-!
# UTF-8

The octets of a text, the machine that reads octets back one at a time, and two uses of it:
`decodeUtf8?` refuses what no text has as its octets, `decodeUtf8Lossy` puts a replacement
character in place of each longest bad run.
-/

namespace SqlCompiler.Text

def utf8OfChar (c : Char) : List UInt8 :=
  let n := c.toNat
  if n < 0x80 then [n.toUInt8]
  else if n < 0x800 then [(0xC0 + n / 0x40).toUInt8, (0x80 + n % 0x40).toUInt8]
  else if n < 0x10000 then
    [(0xE0 + n / 0x1000).toUInt8, (0x80 + n / 0x40 % 0x40).toUInt8, (0x80 + n % 0x40).toUInt8]
  else
    [(0xF0 + n / 0x40000).toUInt8, (0x80 + n / 0x1000 % 0x40).toUInt8,
      (0x80 + n / 0x40 % 0x40).toUInt8, (0x80 + n % 0x40).toUInt8]

def utf8 (text : List Char) : List UInt8 :=
  text.flatMap utf8OfChar

/-- A character of which some octets are read: the octets still owed, the bits so far, and the
least and greatest octet that may come next. -/
structure Utf8Pending where
  owed : Nat
  bits : Nat
  least : UInt8 := 0x80
  greatest : UInt8 := 0xBF

/-- What one octet does between characters: end a character of one octet, start a longer one, or
nothing at all. -/
inductive Utf8Start where
  | char (c : Char)
  | pending (p : Utf8Pending)
  | bad

def Utf8Start.ofOctet (b : UInt8) : Utf8Start :=
  let n := b.toNat
  if n ≤ 0x7F then .char (Char.ofNat n)
  else if n < 0xC2 then .bad
  else if n ≤ 0xDF then .pending { owed := 1, bits := n - 0xC0 }
  else if n = 0xE0 then .pending { owed := 2, bits := 0, least := 0xA0 }
  else if n = 0xED then .pending { owed := 2, bits := 0xD, greatest := 0x9F }
  else if n ≤ 0xEF then .pending { owed := 2, bits := n - 0xE0 }
  else if n = 0xF0 then .pending { owed := 3, bits := 0, least := 0x90 }
  else if n ≤ 0xF3 then .pending { owed := 3, bits := n - 0xF0 }
  else if n = 0xF4 then .pending { owed := 3, bits := 4, greatest := 0x8F }
  else .bad

/-- The bits after one more octet. -/
def Utf8Pending.push (p : Utf8Pending) (b : UInt8) : Nat :=
  p.bits * 0x40 + (b.toNat - 0x80)

/-- Reads octets with at most one character begun. A bad octet inside a character ends it and is
read again as the start of the next one. `bad` says what a bad run gives: a character, or the
end of reading. -/
def readUtf8 (bad : Option Char) : Option Utf8Pending → List UInt8 → Option (List Char)
  | none, [] => some []
  | some _, [] => bad.map fun c => [c]
  | pending, b :: rest =>
    let fresh : Option (List Char) :=
      match Utf8Start.ofOctet b with
      | .char c => (readUtf8 bad none rest).map (c :: ·)
      | .pending p => readUtf8 bad (some p) rest
      | .bad => bad.bind fun c => (readUtf8 bad none rest).map (c :: ·)
    match pending with
    | none => fresh
    | some p =>
      if p.least ≤ b && b ≤ p.greatest then
        if p.owed = 1 then (readUtf8 bad none rest).map (Char.ofNat (p.push b) :: ·)
        else readUtf8 bad (some { owed := p.owed - 1, bits := p.push b }) rest
      else bad.bind fun c => fresh.map (c :: ·)

/-- The text whose octets these are. -/
def decodeUtf8? (octets : List UInt8) : Option String :=
  (readUtf8 none none octets).map String.ofList

/-- The text with U+FFFD for every longest run of octets that cannot be read. -/
def decodeUtf8Lossy (octets : List UInt8) : String :=
  String.ofList ((readUtf8 (some '\uFFFD') none octets).getD [])

def hexDigit (n : Nat) : Char :=
  if n < 10 then Char.ofNat ('0'.toNat + n) else Char.ofNat ('a'.toNat + (n - 10))

def hexOctet (b : UInt8) : List Char :=
  [hexDigit (b.toNat / 16), hexDigit (b.toNat % 16)]

def hex (octets : List UInt8) : String :=
  String.ofList (octets.flatMap hexOctet)

/-- The value of a hexadecimal digit of either case. -/
def hexValue? (c : Char) : Option Nat :=
  if '0' ≤ c && c ≤ '9' then some (c.toNat - '0'.toNat)
  else if 'a' ≤ c && c ≤ 'f' then some (c.toNat - 'a'.toNat + 10)
  else if 'A' ≤ c && c ≤ 'F' then some (c.toNat - 'A'.toNat + 10)
  else none

/-- The octets that a text of hexadecimal digits writes. -/
def ofHex? : List Char → Option (List UInt8)
  | [] => some []
  | [_] => none
  | a :: b :: rest => do
    let high ← hexValue? a
    let low ← hexValue? b
    let octets ← ofHex? rest
    return (16 * high + low).toUInt8 :: octets

end SqlCompiler.Text
