import SqlCompiler.Binding
/-!
# Queries

A query is a set of clauses. Every clause type takes as a parameter what stands for a nested
query: `Clauses Query` is what a query holds, and after a pass over the nested queries the same
clauses hold what the pass made of them.
-/

namespace SqlCompiler

/-- A column or a table: a name, a raw fragment with its own bindings, or an aliased sub-query. -/
inductive Term (Q : Type) where
  | name (n : String)
  | raw (sql : String) (bindings : List Binding)
  | sub (query : Q) (aliasName : String)

inductive Conjunction where
  | and | or
deriving DecidableEq, Repr

inductive DatePart where
  | date | time | day | month | year
deriving DecidableEq, Repr

structure FulltextOptions where
  mode : Option String := none
  expanded : Bool := false
  language : Option String := none
deriving DecidableEq, Repr

inductive Predicate (Q : Type) where
  | basic (column : Term Q) (operator : String) (value : Param)
  | raw (sql : String) (bindings : List Binding)
  | expression (sql : String)
  | bitwise (column : Term Q) (operator : String) (value : Param)
  | among (column : Term Q) (values : List Param)
  | amongIntegers (column : Term Q) (values : List Int)
  | null (column : Term Q)
  | between (column : Term Q) (low high : Param)
  | betweenColumns (column low high : Term Q)
  | datePart (part : DatePart) (column : Term Q) (operator : String) (value : Param)
  | compareColumns (first : Term Q) (operator : String) (second : Term Q)
  | nested (query : Q)
  | sub (column : Term Q) (operator : String) (query : Q)
  | hasRows (query : Q)
  | rowValues (columns : List (Term Q)) (operator : String) (values : List Param)
  | jsonBoolean (column operator : String) (value : Bool)
  | jsonContains (column : String) (document : Json)
  | jsonContainsKey (column : String)
  | jsonLength (column operator : String) (value : Param)
  | fulltext (columns : List (Term Q)) (value : Param) (options : FulltextOptions)

structure Where (Q : Type) where
  conjunction : Conjunction := .and
  negated : Bool := false
  predicate : Predicate Q

inductive GroupPredicate (Q : Type) where
  | basic (column : Term Q) (operator : String) (value : Param)
  | raw (sql : String) (bindings : List Binding)
  | expression (sql : String)
  | between (column : Term Q) (low high : Param)
  | null (column : Term Q)
  | nested (query : Q)
  | bitwise (column : Term Q) (operator : String) (value : Param)

structure Having (Q : Type) where
  conjunction : Conjunction := .and
  negated : Bool := false
  predicate : GroupPredicate Q

inductive JoinKind where
  | inner | left | right | cross
deriving DecidableEq, Repr

/-- A joined table. Of its clause, the joins stand beside the table and the conditions after it. -/
structure Join (Q : Type) where
  kind : JoinKind := .inner
  table : Term Q
  clause : Q

inductive Direction where
  | asc | desc
deriving DecidableEq, Repr

inductive Order (Q : Type) where
  | byColumn (column : Term Q) (direction : Direction)
  | raw (sql : String) (bindings : List Binding)
  | random (seed : Option String)

structure UnionMember (Q : Type) where
  query : Q
  all : Bool := false

structure Aggregate (Q : Type) where
  function : String
  columns : List (Term Q)

inductive Distinct where
  | off
  | all
  | on (columns : List String)
deriving DecidableEq, Repr

inductive Lock where
  | update
  | shared
  | raw (sql : String)
deriving DecidableEq, Repr

inductive IndexHintKind where
  | hint | force | ignore
deriving DecidableEq, Repr

structure IndexHint where
  kind : IndexHintKind
  index : String
deriving DecidableEq, Repr

inductive CteBody (Q : Type) where
  | select (query : Q)
  | raw (sql : String) (bindings : List Binding)

/-- Cycle detection of a recursive expression. -/
structure Cycle where
  columns : List String
  markColumn : String
  pathColumn : String
deriving DecidableEq, Repr

structure Cte (Q : Type) where
  name : String
  columns : List String := []
  recursive : Bool := false
  materialized : Option Bool := none
  body : CteBody Q
  cycle : Option Cycle := none

/-- The clauses of a query. Those that begin with `union` belong to the whole union, the others to
its first member. -/
structure Clauses (Q : Type) where
  aggregate : Option (Aggregate Q) := none
  columns : Option (List (Term Q)) := none
  distinct : Distinct := .off
  source : Option (Term Q) := none
  indexHint : Option IndexHint := none
  joins : List (Join Q) := []
  wheres : List (Where Q) := []
  groups : List (Term Q) := []
  havings : List (Having Q) := []
  orders : List (Order Q) := []
  limit : Option Nat := none
  offset : Option Nat := none
  unions : List (UnionMember Q) := []
  unionOrders : List (Order Q) := []
  unionLimit : Option Nat := none
  unionOffset : Option Nat := none
  lock : Option Lock := none
  ctes : List (Cte Q) := []
  unionCtes : List (Cte Q) := []
  recursionLimit : Option Nat := none
  unionRecursionLimit : Option Nat := none

inductive Query where
  | mk (clauses : Clauses Query)

def Query.clauses : Query → Clauses Query
  | mk clauses => clauses

/-- The query without any clause. -/
def Query.empty : Query := .mk {}

instance : Inhabited Query := ⟨.empty⟩

namespace Clauses

variable {Q : Type}

def hasUnions (c : Clauses Q) : Bool :=
  !c.unions.isEmpty

def aggregatesRows (c : Clauses Q) : Bool :=
  c.aggregate.isSome && (c.hasUnions || !c.havings.isEmpty)

end Clauses

end SqlCompiler
