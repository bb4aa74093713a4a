import SqlCompiler.Binding
import SqlCompiler.Dialect
import SqlCompiler.Text.Scan
/-!
# Values as literals

The text of a bound value inside a statement. It is meant for logs, never for execution.
-/

namespace SqlCompiler

/-- What stands for a text with a zero character. -/
def nullByteMark : String := "<NullByte>"

/-- What stands for octets that are no text. -/
def invalidUtf8Mark : String := "<InvalidUtf8Byte>"

def quoteText (s : String) : String :=
  if s.toList.contains '\x00' then nullByteMark
  else String.ofList ('\'' :: (Text.doubled '\'' s.toList ++ ['\'']))

/-- Octets that should be a text, between single quotes. -/
def quoteOctets (octets : List UInt8) : String :=
  if octets.contains 0 then nullByteMark
  else match Text.decodeUtf8? octets with
    | some s => quoteText s
    | none => invalidUtf8Mark

namespace Engine

variable (e : Engine)

/-- Octets as a literal; only SQL Server has one. -/
def escapeOctets (octets : List UInt8) : String :=
  match e.dialect with
  | .sqlserver => "0x" ++ Text.hex octets
  | .generic | .mysql | .postgres | .sqlite => "<Buffer[" ++ natText octets.length ++ "]>"

def momentFormat : String :=
  match e.dialect with
  | .sqlserver => "%Y-%m-%d %H:%M:%S%.3f"
  | .generic | .mysql | .postgres | .sqlite => "%Y-%m-%d %H:%M:%S"

/-- A moment as text; SQL Server writes milliseconds. -/
def momentText (d : DateTime) : String :=
  match e.dialect with
  | .sqlserver => d.milliText
  | .generic | .mysql | .postgres | .sqlite => d.text

/-- A bound value as a literal. -/
def escape : Binding → String
  | .typed value _ => escape value
  | .null => "null"
  | .bool b => if b then "1" else "0"
  | .int n => quoteText (intText n)
  | .float x => quoteText x.text
  | .text s => quoteText s
  | .json (.str s) => quoteText s
  | .json document => quoteText document.text
  | .bytes octets => e.escapeOctets octets
  | .date d => quoteText d.text
  | .time t => quoteText t.text
  | .dateTime d => quoteText (e.momentText d)

def escapeParam : Param → String
  | .raw sql => quoteText sql
  | .value b => e.escape b

/-- The literal of a typed value is that of the value inside. -/
theorem escape_bare (value : Binding) : e.escape value.bare = e.escape value := by
  induction value with
  | typed value wire ih => exact ih
  | _ => rfl

end Engine

end SqlCompiler
