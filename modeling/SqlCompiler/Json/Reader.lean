import SqlCompiler.Json.Number
import SqlCompiler.Text.Utf8
/-!
# Reading JSON

Two machines, each one pass: `lex` cuts a text into tokens, `build` puts tokens together with the
containers that are still open. They refuse what is not well written; whether it has a value is
for `Written.seen?` to say. The open containers are a list, so that a text may nest as deep as it
likes.
-/

namespace SqlCompiler.Json

/-- A part of a quoted text: a character, or a unit of UTF-16 that is written with `\u`. -/
inductive QuotedPart where
  | char (c : Char)
  | unit (n : Nat)

def isHighHalf (n : Nat) : Bool :=
  0xD800 ≤ n && n ≤ 0xDBFF

def isLowHalf (n : Nat) : Bool :=
  0xDC00 ≤ n && n ≤ 0xDFFF

def pairedChar (high low : Nat) : Char :=
  Char.ofNat (0x10000 + (high - 0xD800) * 0x400 + (low - 0xDC00))

/-- The characters of a quoted text, none if half of a surrogate pair has no other half. -/
def quotedChars? : List QuotedPart → Option (List Char)
  | [] => some []
  | .char c :: rest => (quotedChars? rest).map (c :: ·)
  | .unit n :: rest =>
    if isLowHalf n then none
    else if isHighHalf n then
      match rest with
      | .unit low :: rest =>
        if isLowHalf low then (quotedChars? rest).map (pairedChar n low :: ·) else none
      | _ => none
    else (quotedChars? rest).map (Char.ofNat n :: ·)

/-- A piece of JSON text: one of the six marks, a quoted text, or another value that is no
container. -/
inductive Token where
  | mark (c : Char)
  | quoted (s : Option String)
  | word (value : Written)

/-- Where the lexer stands. The characters of the piece it is in are kept latest first. -/
inductive LexState where
  | outside
  | word (chars : List Char)
  | quoted (parts : List QuotedPart)
  | escape (parts : List QuotedPart)
  /-- In the four digits of `\u`. -/
  | unicode (parts : List QuotedPart) (digits : Nat) (value : Nat)

def isMark (c : Char) : Bool :=
  c == '[' || c == ']' || c == '\x7b' || c == '\x7d' || c == ',' || c == ':'

/-- The four characters that may stand between tokens. -/
def isGap (c : Char) : Bool :=
  c == ' ' || c == '\n' || c == '\r' || c == '\t'

/-- What a word stands for, none if it is no word of JSON. -/
def word? (text : List Char) : Option Written :=
  if text = "null".toList then some (.scalar .null)
  else if text = "true".toList then some (.scalar (.bool true))
  else if text = "false".toList then some (.scalar (.bool false))
  else number? text

/-- The character that a letter after a backslash stands for. -/
def escaped? (c : Char) : Option Char :=
  match c with
  | '"' => some '"'
  | '\\' => some '\\'
  | '/' => some '/'
  | 'b' => some '\x08'
  | 'f' => some '\x0c'
  | 'n' => some '\n'
  | 'r' => some '\r'
  | 't' => some '\t'
  | _ => none

/-- The tokens of a text, none if it has a piece that is no token. -/
def lex : LexState → List Char → Option (List Token)
  | .outside, [] => some []
  | .word chars, [] => (word? chars.reverse).map fun w => [.word w]
  | _, [] => none
  | .outside, c :: rest =>
    if isGap c then lex .outside rest
    else if isMark c then (lex .outside rest).map (.mark c :: ·)
    else if c = '"' then lex (.quoted []) rest
    else lex (.word [c]) rest
  | .word chars, c :: rest =>
    if isGap c then do
      let w ← word? chars.reverse
      let ts ← lex .outside rest
      return .word w :: ts
    else if isMark c then do
      let w ← word? chars.reverse
      let ts ← lex .outside rest
      return .word w :: .mark c :: ts
    else lex (.word (c :: chars)) rest
  | .quoted parts, c :: rest =>
    if c = '"' then
      (lex .outside rest).map (.quoted ((quotedChars? parts.reverse).map String.ofList) :: ·)
    else if c = '\\' then lex (.escape parts) rest
    else if c.toNat < 0x20 then none
    else lex (.quoted (.char c :: parts)) rest
  | .escape parts, c :: rest =>
    if c = 'u' then lex (.unicode parts 0 0) rest
    else match escaped? c with
      | some e => lex (.quoted (.char e :: parts)) rest
      | none => none
  | .unicode parts digits value, c :: rest =>
    match Text.hexValue? c with
    | none => none
    | some d =>
      if digits < 3 then lex (.unicode parts (digits + 1) (16 * value + d)) rest
      else lex (.quoted (.unit (16 * value + d) :: parts)) rest

/-! ### Values -/

/-- A container that is still open, with what it holds so far, latest first. -/
inductive Frame where
  | items (before : List Written)
  | members (before : List (Option String × Written)) (name : Option String)

/-- What may come next. -/
inductive Expect where
  | value
  | firstItem
  | firstName
  | name (before : List (Option String × Written))
  | colon (before : List (Option String × Written)) (name : Option String)
  | after (value : Written)

/-- What a token does where a value may start. -/
def startValue (t : Token) (stack : List Frame) : Option (Expect × List Frame) :=
  match t with
  | .word w => some (.after w, stack)
  | .quoted (some s) => some (.after (.scalar (.str s)), stack)
  | .quoted none => some (.after .valueless, stack)
  | .mark '[' => some (.firstItem, stack)
  | .mark '\x7b' => some (.firstName, stack)
  | .mark _ => none

/-- One token. -/
def step (t : Token) : Expect → List Frame → Option (Expect × List Frame)
  | .value, stack => startValue t stack
  | .firstItem, stack =>
    match t with
    | .mark ']' => some (.after (.arr []), stack)
    | _ => startValue t (.items [] :: stack)
  | .firstName, stack =>
    match t with
    | .mark '\x7d' => some (.after (.obj []), stack)
    | .quoted name => some (.colon [] name, stack)
    | _ => none
  | .name before, stack =>
    match t with
    | .quoted name => some (.colon before name, stack)
    | _ => none
  | .colon before name, stack =>
    match t with
    | .mark ':' => some (.value, .members before name :: stack)
    | _ => none
  | .after v, .items before :: stack =>
    match t with
    | .mark ',' => some (.value, .items (v :: before) :: stack)
    | .mark ']' => some (.after (.arr (v :: before).reverse), stack)
    | _ => none
  | .after v, .members before name :: stack =>
    match t with
    | .mark ',' => some (.name ((name, v) :: before), stack)
    | .mark '\x7d' => some (.after (.obj ((name, v) :: before).reverse), stack)
    | _ => none
  | .after _, [] => none

/-- What the tokens write. -/
def build : Expect → List Frame → List Token → Option Written
  | expect, stack, t :: ts =>
    match step t expect stack with
    | some (expect, stack) => build expect stack ts
    | none => none
  | .after v, [], [] => some v
  | _, _, [] => none

/-- What a text writes, all of it; none if it is not well written. -/
def written? (text : String) : Option Written :=
  (lex .outside text.toList).bind (build .value [])

/-- The value that a text writes, all of it. -/
def parse? (text : String) : Option Json :=
  (written? text).bind Written.value?

end SqlCompiler.Json
