import SqlCompiler.Json.Basic
/-!
# Values as they are written

A text may keep to the grammar of JSON and still hold parts that stand for no value: numbers beyond
the greatest, and texts with half of a surrogate pair. Such parts do no harm where nobody looks.
`seen?` is the value of what is written without the members that an outline passes over.
-/

namespace SqlCompiler.Json

inductive Written where
  | scalar (value : Json)
  /-- Well written, but no value. -/
  | valueless
  | arr (items : List Written)
  /-- A member has no name if its name stands for no text. -/
  | obj (members : List (Option String × Written))

/-- Which parts of a value are looked at, told from place to place: `item` leads to an item of an
array, `member?` to a member of an object unless it is passed over. -/
structure Outline (P : Type) where
  item : P → Nat → P
  member? : P → String → Option P

def Outline.everything : Outline Unit where
  item _ _ := ()
  member? _ _ := some ()

namespace Written

variable {P : Type} (outline : Outline P)

mutual

/-- The value at a place, none if a part that is looked at has none. -/
def seen? (place : P) : Written → Option Json
  | scalar value => some value
  | valueless => none
  | arr items => (seenItems? place 0 items).map .arr
  | obj members => (seenMembers? place members).map .obj

def seenItems? (place : P) (i : Nat) : List Written → Option (List Json)
  | [] => some []
  | item :: items => do
    let first ← seen? (outline.item place i) item
    let rest ← seenItems? place (i + 1) items
    return first :: rest

/-- The name of a member is looked at to find out whether the member is. -/
def seenMembers? (place : P) : List (Option String × Written) → Option (List (String × Json))
  | [] => some []
  | (none, _) :: _ => none
  | (some name, value) :: members =>
    match outline.member? place name with
    | none => seenMembers? place members
    | some inner => do
      let value ← seen? inner value
      let rest ← seenMembers? place members
      return (name, value) :: rest

end

/-- The value of all that is written. -/
def value? (w : Written) : Option Json :=
  w.seen? .everything ()

end Written

end SqlCompiler.Json
