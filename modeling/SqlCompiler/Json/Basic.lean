import SqlCompiler.Number.Decimal
/-!
# JSON values

A value keeps the members of an object in the order of the text, repeated names included. A
*document* is a value in canonical form: names in ascending order, each once, the last value of a
repeated name kept.
-/

namespace SqlCompiler

/-- A JSON value. Integers that fit 64 bits, with or without sign, are kept apart from the other
numbers. -/
inductive Json where
  | null
  | bool (b : Bool)
  | int (n : Int)
  | float (x : Binary64)
  | str (s : String)
  | arr (items : List Json)
  | obj (members : List (String × Json))

namespace Json

instance : Inhabited Json := ⟨null⟩

/-- Sets a member among members in ascending order of names. -/
def insertMember (name : String) (value : Json) : List (String × Json) → List (String × Json)
  | [] => [(name, value)]
  | (other, v) :: rest =>
    if name = other then (name, value) :: rest
    else if name < other then (name, value) :: (other, v) :: rest
    else (other, v) :: insertMember name value rest

mutual

/-- The document that a value writes. -/
def canonical : Json → Json
  | arr items => arr (canonicalItems items)
  | obj members => obj (canonicalMembers [] members)
  | scalar => scalar

def canonicalItems : List Json → List Json
  | [] => []
  | item :: items => item.canonical :: canonicalItems items

def canonicalMembers (sorted : List (String × Json)) :
    List (String × Json) → List (String × Json)
  | [] => sorted
  | (name, value) :: members =>
    canonicalMembers (insertMember name value.canonical sorted) members

end

end Json

end SqlCompiler
