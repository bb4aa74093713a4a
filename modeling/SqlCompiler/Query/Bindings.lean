import SqlCompiler.Query.Fold
/-!
# The bindings of a query

The values that a query binds, by category. `flatten` puts the categories one after the other in
the order in which a select statement emits them.
-/

namespace SqlCompiler

inductive BindingCategory where
  | unionCtes | ctes | select | source | join | wheres | groups | havings | orders | union
  | unionOrders
deriving DecidableEq, Repr

namespace BindingCategory

/-- Every category, in the order of `flatten`. -/
def all : List BindingCategory :=
  [unionCtes, ctes, select, source, join, wheres, groups, havings, orders, union, unionOrders]

def name : BindingCategory → String
  | unionCtes => "union_expressions"
  | ctes => "expressions"
  | select => "select"
  | source => "from"
  | join => "join"
  | wheres => "where"
  | groups => "group_by"
  | havings => "having"
  | orders => "order"
  | union => "union"
  | unionOrders => "union_order"

def ofName? (name : String) : Option BindingCategory :=
  all.find? fun c => c.name = name

end BindingCategory

structure BindingLists where
  unionCtes : List Binding := []
  ctes : List Binding := []
  select : List Binding := []
  source : List Binding := []
  join : List Binding := []
  wheres : List Binding := []
  groups : List Binding := []
  havings : List Binding := []
  orders : List Binding := []
  union : List Binding := []
  unionOrders : List Binding := []

namespace BindingLists

def get (b : BindingLists) : BindingCategory → List Binding
  | .unionCtes => b.unionCtes
  | .ctes => b.ctes
  | .select => b.select
  | .source => b.source
  | .join => b.join
  | .wheres => b.wheres
  | .groups => b.groups
  | .havings => b.havings
  | .orders => b.orders
  | .union => b.union
  | .unionOrders => b.unionOrders

/-- The bindings of the given categories, in the given order. -/
def flattenOnly (b : BindingLists) (categories : List BindingCategory) : List Binding :=
  categories.flatMap b.get

/-- The bindings of the categories that are not excluded, in the usual order. -/
def flattenExcept (b : BindingLists) (excluded : List BindingCategory) : List Binding :=
  b.flattenOnly (BindingCategory.all.filter fun c => c ∉ excluded)

def flatten (b : BindingLists) : List Binding :=
  b.flattenOnly BindingCategory.all

/-- The categories that hold a binding, with what they hold. -/
def occupied (b : BindingLists) : List (BindingCategory × List Binding) :=
  (BindingCategory.all.map fun c => (c, b.get c)).filter fun (_, values) => !values.isEmpty

end BindingLists

def Term.bindings : Term BindingLists → List Binding
  | .name _ => []
  | .raw _ bindings => bindings
  | .sub query _ => query.flatten

def Predicate.bindings : Predicate BindingLists → List Binding
  | .basic column _ value
  | .bitwise column _ value
  | .datePart _ column _ value => column.bindings ++ boundValues [value]
  | .raw _ bindings => bindings
  | .expression _ | .jsonBoolean _ _ _ | .jsonContainsKey _ => []
  | .among column values => column.bindings ++ boundValues values
  | .amongIntegers column _ | .null column => column.bindings
  | .between column low high => column.bindings ++ boundValues [low, high]
  | .betweenColumns column low high => column.bindings ++ low.bindings ++ high.bindings
  | .compareColumns first _ second => first.bindings ++ second.bindings
  | .nested query => query.wheres
  | .sub column _ query => column.bindings ++ query.flatten
  | .hasRows query => query.flatten
  | .rowValues columns _ values => columns.flatMap Term.bindings ++ boundValues values
  | .jsonContains _ document => [.text document.text]
  | .jsonLength _ _ value => boundValues [value]
  | .fulltext columns value _ => columns.flatMap Term.bindings ++ boundValues [value]

def Where.bindings (w : Where BindingLists) : List Binding :=
  w.predicate.bindings

def GroupPredicate.bindings : GroupPredicate BindingLists → List Binding
  | .basic column _ value | .bitwise column _ value => column.bindings ++ boundValues [value]
  | .raw _ bindings => bindings
  | .expression _ => []
  | .between column low high => column.bindings ++ boundValues [low, high]
  | .null column => column.bindings
  | .nested query => query.havings

def Having.bindings (h : Having BindingLists) : List Binding :=
  h.predicate.bindings

def Join.bindings (j : Join BindingLists) : List Binding :=
  j.table.bindings ++ j.clause.flatten

def Order.bindings : Order BindingLists → List Binding
  | .byColumn column _ => column.bindings
  | .raw _ bindings => bindings
  | .random _ => []

def Cte.bindings (c : Cte BindingLists) : List Binding :=
  match c.body with
  | .select query => query.flatten
  | .raw _ bindings => bindings

namespace Clauses

/-- The bindings of the selected columns. Names after `distinct on` take the place of the columns
of an aggregate, and an aggregate takes the place of the column list unless it counts the rows of
a sub-query, which keeps it. -/
def selectBindings (c : Clauses BindingLists) : List Binding :=
  let aggregate := match c.aggregate, c.distinct with
    | some _, .on _ => []
    | some a, _ => a.columns.flatMap Term.bindings
    | none, _ => []
  let columns :=
    if c.aggregate.isNone || c.aggregatesRows then (c.columns.getD []).flatMap Term.bindings
    else []
  aggregate ++ columns

def bindingLists (c : Clauses BindingLists) : BindingLists where
  unionCtes := c.unionCtes.flatMap Cte.bindings
  ctes := c.ctes.flatMap Cte.bindings
  select := c.selectBindings
  source := (c.source.map Term.bindings).getD []
  join := c.joins.flatMap Join.bindings
  wheres := c.wheres.flatMap Where.bindings
  groups := c.groups.flatMap Term.bindings
  havings := c.havings.flatMap Having.bindings
  orders := c.orders.flatMap Order.bindings
  union := c.unions.flatMap fun u => u.query.flatten
  unionOrders := c.unionOrders.flatMap Order.bindings

end Clauses

namespace Query

def bindingLists (q : Query) : BindingLists :=
  q.fold Clauses.bindingLists

/-- The values that the select statement of a query binds, in order. -/
def bindings (q : Query) : List Binding :=
  q.bindingLists.flatten

theorem bindingLists_mk (c : Clauses Query) :
    (mk c).bindingLists = (c.map bindingLists).bindingLists :=
  fold_mk Clauses.bindingLists c

end Query

end SqlCompiler
