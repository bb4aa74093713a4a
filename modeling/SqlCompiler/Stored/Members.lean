import SqlCompiler.Json.Basic
/-!
# Reading members

A record is read from an object, whose members may come in any order and among others, or from an
array of its first members in order. A member that is given twice is refused.
-/

namespace SqlCompiler

/-- How a value comes to its reader. -/
inductive Reading where
  | direct
  /-- After it was kept until the kind of what holds it was known. -/
  | kept
  /-- While several readers are tried on it, one after the other. -/
  | tried
deriving DecidableEq, Repr

abbrev Members := List (String × Json)

namespace Members

def values (name : String) (members : Members) : List Json :=
  members.filterMap fun (other, value) => if other = name then some value else none

def required {A : Type} (members : Members) (name : String) (read : Json → Option A) : Option A :=
  match members.values name with
  | [value] => read value
  | _ => none

def optional {A : Type} (members : Members) (name : String) (default : A)
    (read : Json → Option A) : Option A :=
  match members.values name with
  | [] => some default
  | [value] => read value
  | _ => none

end Members

namespace Json

def record? (names : List String) : Json → Option Members
  | obj members => some members
  | arr items => if items.length ≤ names.length then some (names.zip items) else none
  | _ => none

def members? : Json → Option Members
  | obj members => some members
  | _ => none

def str? : Json → Option String
  | str s => some s
  | _ => none

def bool? : Json → Option Bool
  | bool b => some b
  | _ => none

/-- An integer of 64 bits with a sign. -/
def int64? : Json → Option Int
  | int n => if -(twoTo 63) ≤ n ∧ n < twoTo 63 then some n else none
  | _ => none

/-- An integer of 64 bits without a sign. -/
def nat64? : Json → Option Nat
  | int n => if 0 ≤ n ∧ n < UInt64.size then some n.toNat else none
  | _ => none

def list? {A : Type} (read : Json → Option A) : Json → Option (List A)
  | arr items => items.mapM read
  | _ => none

def nullable? {A : Type} (read : Json → Option A) : Json → Option (Option A)
  | null => some none
  | value => (read value).map some

def strings? : Json → Option (List String) :=
  list? str?

/-- A choice: the name of a variant, alone or with what it holds. -/
def variant? : Json → Option (String × Option Json)
  | str name => some (name, none)
  | obj [(name, value)] => some (name, some value)
  | _ => none

/-- What a variant that holds nothing may be written with: nothing, or null. In a value that was
kept, an empty object is nothing as well. -/
def isNothing (reading : Reading) : Option Json → Bool
  | none => true
  | some null => true
  | some (obj []) => reading = .kept
  | some _ => false

/-- A choice among variants that hold nothing. -/
def choice? {A : Type} (reading : Reading) (ofName? : String → Option A) (j : Json) :
    Option A := do
  let (name, value) ← j.variant?
  if isNothing reading value then ofName? name else none

mutual

/-- How deep containers are nested. -/
def depth : Json → Nat
  | arr items => itemsDepth items + 1
  | obj members => membersDepth members + 1
  | _ => 0

def itemsDepth : List Json → Nat
  | [] => 0
  | item :: items => max item.depth (itemsDepth items)

def membersDepth : List (String × Json) → Nat
  | [] => 0
  | (_, value) :: members => max value.depth (membersDepth members)

end

end Json

end SqlCompiler
