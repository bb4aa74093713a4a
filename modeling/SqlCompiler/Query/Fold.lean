import SqlCompiler.Query.Clause
/-!
# Passing over a query

`map` changes what stands for the nested queries of a clause. `Query.fold` makes one value of a
query, bottom-up: `fold_mk` says that the clauses are given the values of the nested queries.
Everything computed from a query, its text included, is such a fold.
-/

namespace SqlCompiler

variable {A B : Type}

def Term.map (f : A → B) : Term A → Term B
  | .name n => .name n
  | .raw sql bindings => .raw sql bindings
  | .sub query aliasName => .sub (f query) aliasName

def Predicate.map (f : A → B) : Predicate A → Predicate B
  | .basic column operator value => .basic (column.map f) operator value
  | .raw sql bindings => .raw sql bindings
  | .expression sql => .expression sql
  | .bitwise column operator value => .bitwise (column.map f) operator value
  | .among column values => .among (column.map f) values
  | .amongIntegers column values => .amongIntegers (column.map f) values
  | .null column => .null (column.map f)
  | .between column low high => .between (column.map f) low high
  | .betweenColumns column low high => .betweenColumns (column.map f) (low.map f) (high.map f)
  | .datePart part column operator value => .datePart part (column.map f) operator value
  | .compareColumns first operator second => .compareColumns (first.map f) operator (second.map f)
  | .nested query => .nested (f query)
  | .sub column operator query => .sub (column.map f) operator (f query)
  | .hasRows query => .hasRows (f query)
  | .rowValues columns operator values => .rowValues (columns.map (Term.map f)) operator values
  | .jsonBoolean column operator value => .jsonBoolean column operator value
  | .jsonContains column document => .jsonContains column document
  | .jsonContainsKey column => .jsonContainsKey column
  | .jsonLength column operator value => .jsonLength column operator value
  | .fulltext columns value options => .fulltext (columns.map (Term.map f)) value options

def Where.map (f : A → B) (w : Where A) : Where B :=
  { conjunction := w.conjunction, negated := w.negated, predicate := w.predicate.map f }

def GroupPredicate.map (f : A → B) : GroupPredicate A → GroupPredicate B
  | .basic column operator value => .basic (column.map f) operator value
  | .raw sql bindings => .raw sql bindings
  | .expression sql => .expression sql
  | .between column low high => .between (column.map f) low high
  | .null column => .null (column.map f)
  | .nested query => .nested (f query)
  | .bitwise column operator value => .bitwise (column.map f) operator value

def Having.map (f : A → B) (h : Having A) : Having B :=
  { conjunction := h.conjunction, negated := h.negated, predicate := h.predicate.map f }

def Join.map (f : A → B) (j : Join A) : Join B :=
  { kind := j.kind, table := j.table.map f, clause := f j.clause }

def Order.map (f : A → B) : Order A → Order B
  | .byColumn column direction => .byColumn (column.map f) direction
  | .raw sql bindings => .raw sql bindings
  | .random seed => .random seed

def UnionMember.map (f : A → B) (u : UnionMember A) : UnionMember B :=
  { query := f u.query, all := u.all }

def Aggregate.map (f : A → B) (a : Aggregate A) : Aggregate B :=
  { function := a.function, columns := a.columns.map (Term.map f) }

def CteBody.map (f : A → B) : CteBody A → CteBody B
  | .select query => .select (f query)
  | .raw sql bindings => .raw sql bindings

def Cte.map (f : A → B) (c : Cte A) : Cte B :=
  { name := c.name, columns := c.columns, recursive := c.recursive,
    materialized := c.materialized, body := c.body.map f, cycle := c.cycle }

def Clauses.map (f : A → B) (c : Clauses A) : Clauses B :=
  { aggregate := c.aggregate.map (Aggregate.map f)
    columns := c.columns.map (List.map (Term.map f))
    distinct := c.distinct
    source := c.source.map (Term.map f)
    indexHint := c.indexHint
    joins := c.joins.map (Join.map f)
    wheres := c.wheres.map (Where.map f)
    groups := c.groups.map (Term.map f)
    havings := c.havings.map (Having.map f)
    orders := c.orders.map (Order.map f)
    limit := c.limit
    offset := c.offset
    unions := c.unions.map (UnionMember.map f)
    unionOrders := c.unionOrders.map (Order.map f)
    unionLimit := c.unionLimit
    unionOffset := c.unionOffset
    lock := c.lock
    ctes := c.ctes.map (Cte.map f)
    unionCtes := c.unionCtes.map (Cte.map f)
    recursionLimit := c.recursionLimit
    unionRecursionLimit := c.unionRecursionLimit }

/-! ### The fold -/

mutual

/-- The value of a query, given what clauses over values are worth. -/
def Query.fold (f : Clauses A → A) : Query → A
  | .mk c => f (foldClauses f c)

def foldClauses (f : Clauses A → A) : Clauses Query → Clauses A
  | { aggregate, columns, distinct, source, indexHint, joins, wheres, groups, havings, orders,
      limit, offset, unions, unionOrders, unionLimit, unionOffset, lock, ctes, unionCtes,
      recursionLimit, unionRecursionLimit } =>
    { aggregate := foldAggregate? f aggregate
      columns := foldTerms? f columns
      distinct
      source := foldTerm? f source
      indexHint
      joins := foldJoins f joins
      wheres := foldWheres f wheres
      groups := foldTerms f groups
      havings := foldHavings f havings
      orders := foldOrders f orders
      limit
      offset
      unions := foldUnions f unions
      unionOrders := foldOrders f unionOrders
      unionLimit
      unionOffset
      lock
      ctes := foldCtes f ctes
      unionCtes := foldCtes f unionCtes
      recursionLimit
      unionRecursionLimit }

def foldAggregate? (f : Clauses A → A) : Option (Aggregate Query) → Option (Aggregate A)
  | none => none
  | some { function, columns } => some { function, columns := foldTerms f columns }

def foldTerm (f : Clauses A → A) : Term Query → Term A
  | .name n => .name n
  | .raw sql bindings => .raw sql bindings
  | .sub query aliasName => .sub (query.fold f) aliasName

def foldTerm? (f : Clauses A → A) : Option (Term Query) → Option (Term A)
  | none => none
  | some term => some (foldTerm f term)

def foldTerms (f : Clauses A → A) : List (Term Query) → List (Term A)
  | [] => []
  | term :: terms => foldTerm f term :: foldTerms f terms

def foldTerms? (f : Clauses A → A) : Option (List (Term Query)) → Option (List (Term A))
  | none => none
  | some terms => some (foldTerms f terms)

def foldJoins (f : Clauses A → A) : List (Join Query) → List (Join A)
  | [] => []
  | { kind, table, clause } :: joins =>
    { kind, table := foldTerm f table, clause := clause.fold f } :: foldJoins f joins

def foldPredicate (f : Clauses A → A) : Predicate Query → Predicate A
  | .basic column operator value => .basic (foldTerm f column) operator value
  | .raw sql bindings => .raw sql bindings
  | .expression sql => .expression sql
  | .bitwise column operator value => .bitwise (foldTerm f column) operator value
  | .among column values => .among (foldTerm f column) values
  | .amongIntegers column values => .amongIntegers (foldTerm f column) values
  | .null column => .null (foldTerm f column)
  | .between column low high => .between (foldTerm f column) low high
  | .betweenColumns column low high =>
    .betweenColumns (foldTerm f column) (foldTerm f low) (foldTerm f high)
  | .datePart part column operator value => .datePart part (foldTerm f column) operator value
  | .compareColumns first operator second =>
    .compareColumns (foldTerm f first) operator (foldTerm f second)
  | .nested query => .nested (query.fold f)
  | .sub column operator query => .sub (foldTerm f column) operator (query.fold f)
  | .hasRows query => .hasRows (query.fold f)
  | .rowValues columns operator values => .rowValues (foldTerms f columns) operator values
  | .jsonBoolean column operator value => .jsonBoolean column operator value
  | .jsonContains column document => .jsonContains column document
  | .jsonContainsKey column => .jsonContainsKey column
  | .jsonLength column operator value => .jsonLength column operator value
  | .fulltext columns value options => .fulltext (foldTerms f columns) value options

def foldWheres (f : Clauses A → A) : List (Where Query) → List (Where A)
  | [] => []
  | { conjunction, negated, predicate } :: wheres =>
    { conjunction, negated, predicate := foldPredicate f predicate } :: foldWheres f wheres

def foldGroupPredicate (f : Clauses A → A) : GroupPredicate Query → GroupPredicate A
  | .basic column operator value => .basic (foldTerm f column) operator value
  | .raw sql bindings => .raw sql bindings
  | .expression sql => .expression sql
  | .between column low high => .between (foldTerm f column) low high
  | .null column => .null (foldTerm f column)
  | .nested query => .nested (query.fold f)
  | .bitwise column operator value => .bitwise (foldTerm f column) operator value

def foldHavings (f : Clauses A → A) : List (Having Query) → List (Having A)
  | [] => []
  | { conjunction, negated, predicate } :: havings =>
    { conjunction, negated, predicate := foldGroupPredicate f predicate } :: foldHavings f havings

def foldOrders (f : Clauses A → A) : List (Order Query) → List (Order A)
  | [] => []
  | .byColumn column direction :: orders =>
    .byColumn (foldTerm f column) direction :: foldOrders f orders
  | .raw sql bindings :: orders => .raw sql bindings :: foldOrders f orders
  | .random seed :: orders => .random seed :: foldOrders f orders

def foldUnions (f : Clauses A → A) : List (UnionMember Query) → List (UnionMember A)
  | [] => []
  | { query, all } :: unions => { query := query.fold f, all } :: foldUnions f unions

def foldCteBody (f : Clauses A → A) : CteBody Query → CteBody A
  | .select query => .select (query.fold f)
  | .raw sql bindings => .raw sql bindings

def foldCtes (f : Clauses A → A) : List (Cte Query) → List (Cte A)
  | [] => []
  | { name, columns, recursive, materialized, body, cycle } :: ctes =>
    { name, columns, recursive, materialized, body := foldCteBody f body, cycle } ::
      foldCtes f ctes

end

variable (f : Clauses A → A)

theorem foldTerm_eq (t : Term Query) : foldTerm f t = t.map (Query.fold f) := by
  cases t <;> rfl

theorem foldTerms_eq (ts : List (Term Query)) :
    foldTerms f ts = ts.map (Term.map (Query.fold f)) := by
  induction ts with
  | nil => rfl
  | cons t ts ih => rw [foldTerms, foldTerm_eq, ih]; rfl

theorem foldJoins_eq (js : List (Join Query)) :
    foldJoins f js = js.map (Join.map (Query.fold f)) := by
  induction js with
  | nil => rfl
  | cons j js ih => rw [foldJoins, foldTerm_eq, ih]; rfl

theorem foldPredicate_eq (p : Predicate Query) :
    foldPredicate f p = p.map (Query.fold f) := by
  cases p <;> simp [foldPredicate, Predicate.map, foldTerm_eq, foldTerms_eq]

theorem foldWheres_eq (ws : List (Where Query)) :
    foldWheres f ws = ws.map (Where.map (Query.fold f)) := by
  induction ws with
  | nil => rfl
  | cons w ws ih => rw [foldWheres, foldPredicate_eq, ih]; rfl

theorem foldGroupPredicate_eq (p : GroupPredicate Query) :
    foldGroupPredicate f p = p.map (Query.fold f) := by
  cases p <;> simp [foldGroupPredicate, GroupPredicate.map, foldTerm_eq]

theorem foldHavings_eq (hs : List (Having Query)) :
    foldHavings f hs = hs.map (Having.map (Query.fold f)) := by
  induction hs with
  | nil => rfl
  | cons h hs ih => rw [foldHavings, foldGroupPredicate_eq, ih]; rfl

theorem foldOrders_eq (os : List (Order Query)) :
    foldOrders f os = os.map (Order.map (Query.fold f)) := by
  induction os with
  | nil => rfl
  | cons o os ih => cases o <;> simp [foldOrders, foldTerm_eq, ih, Order.map]

theorem foldUnions_eq (us : List (UnionMember Query)) :
    foldUnions f us = us.map (UnionMember.map (Query.fold f)) := by
  induction us with
  | nil => rfl
  | cons u us ih => rw [foldUnions, ih]; rfl

theorem foldCtes_eq (cs : List (Cte Query)) :
    foldCtes f cs = cs.map (Cte.map (Query.fold f)) := by
  induction cs with
  | nil => rfl
  | cons c cs ih =>
    obtain ⟨name, columns, recursive, materialized, body, cycle⟩ := c
    cases body <;> simp [foldCtes, foldCteBody, ih, Cte.map, CteBody.map]

theorem foldClauses_eq (c : Clauses Query) : foldClauses f c = c.map (Query.fold f) := by
  obtain ⟨aggregate, columns, _, source, _⟩ := c
  cases aggregate <;> cases columns <;> cases source <;>
    simp [foldClauses, Clauses.map, foldAggregate?, foldTerms?, foldTerm?, Aggregate.map,
      foldTerm_eq, foldTerms_eq, foldJoins_eq, foldWheres_eq, foldHavings_eq, foldOrders_eq,
      foldUnions_eq, foldCtes_eq]

/-- A fold gives the clauses the values of the nested queries. -/
theorem Query.fold_mk (c : Clauses Query) :
    (Query.mk c).fold f = f (c.map (Query.fold f)) := by
  rw [Query.fold, foldClauses_eq]

end SqlCompiler
