import SqlCompiler.Calendar
import SqlCompiler.Json.Printer
/-!
# Bound values

A binding is a value that takes the place of a placeholder. A parameter is what a clause stores:
a binding, or raw SQL that is written into the statement and never bound.
-/

namespace SqlCompiler

/-- The type under which a driver sends a value. -/
inductive WireType where
  | boolean | smallint | integer | bigint | float | double | decimal
  | text | binary | date | time | timestamp | json | uuid
deriving DecidableEq, Repr

namespace WireType

def name : WireType → String
  | boolean => "boolean"
  | smallint => "smallint"
  | integer => "integer"
  | bigint => "bigint"
  | float => "float"
  | double => "double"
  | decimal => "decimal"
  | text => "text"
  | binary => "binary"
  | date => "date"
  | time => "time"
  | timestamp => "timestamp"
  | json => "json"
  | uuid => "uuid"

def all : List WireType :=
  [boolean, smallint, integer, bigint, float, double, decimal, text, binary, date, time,
    timestamp, json, uuid]

def ofName? (name : String) : Option WireType :=
  all.find? fun t => t.name = name

theorem ofName?_name (t : WireType) : ofName? t.name = some t := by
  cases t <;> rfl

end WireType

/-- A value for a placeholder. A typed value says how it is sent; what is sent is the value inside.
Documents are in canonical form. -/
inductive Binding where
  | null
  | bool (b : Bool)
  | int (n : Int)
  | float (x : Binary64)
  | text (s : String)
  | typed (value : Binding) (wire : WireType)
  | json (document : Json)
  | bytes (octets : List UInt8)
  | date (d : Date)
  | time (t : TimeOfDay)
  | dateTime (d : DateTime)

namespace Binding

instance : Inhabited Binding := ⟨null⟩

def fitsInt (n : Int) : Bool :=
  -(twoTo 63) ≤ n && n < twoTo 63

/-- The value inside all typed wrappers. -/
def bare : Binding → Binding
  | typed value _ => value.bare
  | value => value

def isNull (b : Binding) : Bool :=
  match b.bare with
  | null => true
  | _ => false

/-- The JSON document that stands for a value. -/
def toDocument : Binding → Json
  | null => .null
  | bool b => .bool b
  | int n => .int n
  | float x => if x.isFinite then .float x else .null
  | text s => .str s
  | typed value _ => value.toDocument
  | json document => document
  | bytes octets => .str (Text.decodeUtf8Lossy octets)
  | date d => .str d.text
  | time t => .str t.text
  | dateTime d => .str d.text

/-- The value that a document stands for: a container stays a document. -/
def ofDocument : Json → Binding
  | .null => null
  | .bool b => bool b
  | .int n => if fitsInt n then int n else float (Binary64.ofInt n)
  | .float x => float x
  | .str s => text s
  | document => json document

/-- The text of a value's document, as a value. -/
def documentText (b : Binding) : Binding :=
  text b.toDocument.text

theorem bare_typed (b : Binding) (wire : WireType) : (typed b wire).bare = b.bare := rfl

end Binding

/-- What a clause stores for an operand. -/
inductive Param where
  | value (b : Binding)
  | raw (sql : String)

namespace Param

instance : Inhabited Param := ⟨value .null⟩

def binding? : Param → Option Binding
  | value b => some b
  | raw _ => none

def isRaw : Param → Bool
  | value _ => false
  | raw _ => true

end Param

/-- The bindings among parameters, in order. -/
def boundValues (params : List Param) : List Binding :=
  params.filterMap Param.binding?

end SqlCompiler
