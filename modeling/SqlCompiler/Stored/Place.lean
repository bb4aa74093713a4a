import SqlCompiler.Json.Reader
/-!
# What is looked at in a stored form

A record whose kind is known beforehand is read member by member, and members of no meaning are
passed over as the text goes on: they have to be well written and no more. Every other value is
taken in as a whole before anything in it is looked at.
-/

namespace SqlCompiler

/-- A place in a stored form. -/
inductive Place where
  | whole
  | listOf (item : Place)
  | query
  | aggregate
  | indexHint
  | join
  | union
  | cte
  /-- The two kinds of bodies of a with-expression: a choice, so that no member is passed over. -/
  | cteBody
  | fragment
  | cycle
  | settings
  | description

namespace Place

/-- The members that are looked at, in the order in which an array has them. -/
def members : Place → List (String × Place)
  | whole | listOf _ => []
  | query =>
    [("aggregate", aggregate), ("columns", whole), ("distinct", whole), ("from", whole),
      ("index_hint", indexHint), ("joins", listOf join), ("wheres", whole), ("groups", whole),
      ("havings", whole), ("orders", whole), ("limit", whole), ("offset", whole),
      ("unions", listOf union), ("union_orders", whole), ("union_limit", whole),
      ("union_offset", whole), ("lock", whole), ("expressions", listOf cte),
      ("union_expressions", listOf cte), ("recursion_limit", whole),
      ("union_recursion_limit", whole)]
  | aggregate => [("function", whole), ("columns", whole)]
  | indexHint => [("kind", whole), ("index", whole)]
  | join => [("kind", whole), ("table", whole), ("clause", query)]
  | union => [("query", query), ("all", whole)]
  | cte =>
    [("name", whole), ("columns", whole), ("recursive", whole), ("materialized", whole),
      ("query", cteBody), ("cycle", cycle)]
  | cteBody => [("query", query), ("raw", fragment)]
  | fragment => [("sql", whole), ("bindings", whole)]
  | cycle => [("columns", whole), ("mark_column", whole), ("path_column", whole)]
  | settings => [("table_prefix", whole), ("use_upsert_alias", whole)]
  | description => [("query", query), ("rows", whole), ("values", whole)]

def names (place : Place) : List String :=
  place.members.map Prod.fst

/-- Whether members of other names are passed over. -/
def passesOver : Place → Bool
  | whole | listOf _ | cteBody => false
  | _ => true

def item : Place → Nat → Place
  | listOf inner, _ => inner
  | place, i => (place.members[i]?.map Prod.snd).getD whole

def member? (place : Place) (name : String) : Option Place :=
  match place.members.find? fun (other, _) => other = name with
  | some (_, inner) => some inner
  | none => if place.passesOver then none else some whole

def outline : Json.Outline Place := { item, member? }

/-- Reads a text that stands for the value at a place. -/
def read? {A : Type} (place : Place) (read : Json → Option A) (text : String) : Option A := do
  let written ← Json.written? text
  let value ← written.seen? outline place
  read value

end Place

end SqlCompiler
