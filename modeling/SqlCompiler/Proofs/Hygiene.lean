import SqlCompiler.Proofs.Nesting
import SqlCompiler.Proofs.Placeholders
import SqlCompiler.Proofs.RowEntries
import SqlCompiler.Query.Bindings
/-!
# Hygienic queries

What a caller owes the compiler. Raw SQL begins and ends outside a literal and holds a placeholder
for each binding stored with it; names, aliases, selectors and operators are clean. Besides, a
clause has no bindings that it does not write: a column that is tested against an empty list, the
order of a union without members, and everything in the clause of a join but joins and conditions.
-/

namespace SqlCompiler

open Substitute

def Param.Hygienic : Param → Prop
  | .value _ => True
  | .raw sql => Holds 0 sql.toList

def Term.Hygienic : Term Query → Prop
  | .name n => Clean n.toList
  | .raw sql bindings => Holds bindings.length sql.toList
  | .sub _ aliasName => Clean aliasName.toList

/-- A column that binds nothing. -/
def Term.Unbound (t : Term Query) : Prop :=
  (t.map Query.bindingLists).bindings = []

def Predicate.Hygienic : Predicate Query → Prop
  | .basic column operator value | .bitwise column operator value
  | .datePart _ column operator value =>
    column.Hygienic ∧ Clean operator.toList ∧ value.Hygienic
  | .raw sql bindings => Holds bindings.length sql.toList
  | .expression sql => Holds 0 sql.toList
  | .among column values =>
    column.Hygienic ∧ (∀ value ∈ values, value.Hygienic) ∧ (values = [] → column.Unbound)
  | .amongIntegers column values => column.Hygienic ∧ (values = [] → column.Unbound)
  | .null column => column.Hygienic
  | .between column low high => column.Hygienic ∧ low.Hygienic ∧ high.Hygienic
  | .betweenColumns column low high => column.Hygienic ∧ low.Hygienic ∧ high.Hygienic
  | .compareColumns first operator second =>
    first.Hygienic ∧ Clean operator.toList ∧ second.Hygienic
  | .nested _ | .hasRows _ => True
  | .sub column operator _ => column.Hygienic ∧ Clean operator.toList
  | .rowValues columns operator values =>
    (∀ column ∈ columns, column.Hygienic) ∧ Clean operator.toList ∧
      ∀ value ∈ values, value.Hygienic
  | .jsonBoolean column operator _ => Clean column.toList ∧ Clean operator.toList
  | .jsonContains column _ | .jsonContainsKey column => Clean column.toList
  | .jsonLength column operator value =>
    Clean column.toList ∧ Clean operator.toList ∧ value.Hygienic
  | .fulltext columns value _ => (∀ column ∈ columns, column.Hygienic) ∧ value.Hygienic

def Where.Hygienic (w : Where Query) : Prop :=
  w.predicate.Hygienic

def GroupPredicate.Hygienic : GroupPredicate Query → Prop
  | .basic column operator value | .bitwise column operator value =>
    column.Hygienic ∧ Clean operator.toList ∧ value.Hygienic
  | .raw sql bindings => Holds bindings.length sql.toList
  | .expression sql => Holds 0 sql.toList
  | .between column low high => column.Hygienic ∧ low.Hygienic ∧ high.Hygienic
  | .null column => column.Hygienic
  | .nested _ => True

def Having.Hygienic (h : Having Query) : Prop :=
  h.predicate.Hygienic

/-- A query of joins and conditions alone. -/
def Query.IsJoinClause (q : Query) : Prop :=
  q.clauses = { joins := q.clauses.joins, wheres := q.clauses.wheres }

def Join.Hygienic (j : Join Query) : Prop :=
  j.table.Hygienic ∧ j.clause.IsJoinClause

def Order.Hygienic : Order Query → Prop
  | .byColumn column _ => column.Hygienic
  | .raw sql bindings => Holds bindings.length sql.toList
  | .random seed => ∀ sql ∈ seed, Holds 0 sql.toList

def Aggregate.Hygienic (a : Aggregate Query) : Prop :=
  Holds 0 a.function.toList ∧ ∀ column ∈ a.columns, column.Hygienic

def Distinct.Hygienic : Distinct → Prop
  | .off | .all => True
  | .on columns => ∀ column ∈ columns, Clean column.toList

def Lock.Hygienic : Lock → Prop
  | .update | .shared => True
  | .raw sql => Holds 0 sql.toList

def IndexHint.Hygienic (hint : IndexHint) : Prop :=
  Holds 0 hint.index.toList

def CteBody.Hygienic : CteBody Query → Prop
  | .select _ => True
  | .raw sql bindings => Holds bindings.length sql.toList

def Cycle.Hygienic (c : Cycle) : Prop :=
  (∀ column ∈ c.columns, Clean column.toList) ∧ Clean c.markColumn.toList ∧
    Clean c.pathColumn.toList

def Cte.Hygienic (c : Cte Query) : Prop :=
  Clean c.name.toList ∧ (∀ column ∈ c.columns, Clean column.toList) ∧ c.body.Hygienic ∧
    ∀ cycle ∈ c.cycle, cycle.Hygienic

structure Clauses.Hygienic (c : Clauses Query) : Prop where
  aggregate : ∀ a ∈ c.aggregate, a.Hygienic
  columns : ∀ terms ∈ c.columns, ∀ t ∈ terms, t.Hygienic
  distinct : c.distinct.Hygienic
  source : ∀ t ∈ c.source, t.Hygienic
  indexHint : ∀ hint ∈ c.indexHint, hint.Hygienic
  joins : ∀ j ∈ c.joins, j.Hygienic
  wheres : ∀ w ∈ c.wheres, w.Hygienic
  groups : ∀ t ∈ c.groups, t.Hygienic
  havings : ∀ h ∈ c.havings, h.Hygienic
  orders : ∀ o ∈ c.orders, o.Hygienic
  unionOrders : ∀ o ∈ c.unionOrders, o.Hygienic
  ordered : c.unions = [] → c.unionOrders = []
  lock : ∀ l ∈ c.lock, l.Hygienic
  ctes : ∀ t ∈ c.ctes, t.Hygienic
  unionCtes : ∀ t ∈ c.unionCtes, t.Hygienic

/-- A query whose clauses are hygienic, and so are those of all queries inside it. -/
def Query.Hygienic (q : Query) : Prop :=
  q.Everywhere Clauses.Hygienic

def Row.Hygienic (row : Row) : Prop :=
  ∀ entry ∈ row.entries, Clean entry.1.toList ∧ entry.2.Hygienic

end SqlCompiler
