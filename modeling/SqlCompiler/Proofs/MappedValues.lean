import SqlCompiler.Proofs.QueryErasure
import SqlCompiler.Query.Bindings
/-!
# Queries with other values

A change of values leaves the clauses of a query as they are and goes through every place where a
value is bound, those of the nested queries included. It changes nothing in the words of a
statement, and the bindings are those from before, each one changed.
-/

namespace SqlCompiler

section Values

variable {Q : Type} (v : Binding → Binding)

def Param.mapValues : Param → Param
  | .value b => .value (v b)
  | .raw sql => .raw sql

def Term.mapValues : Term Q → Term Q
  | .name n => .name n
  | .raw sql bindings => .raw sql (bindings.map v)
  | .sub query aliasName => .sub query aliasName

/-- The document that is looked for is none of the values: it is bound as a text of its own. -/
def Predicate.mapValues : Predicate Q → Predicate Q
  | .basic column operator value => .basic (column.mapValues v) operator (value.mapValues v)
  | .raw sql bindings => .raw sql (bindings.map v)
  | .expression sql => .expression sql
  | .bitwise column operator value => .bitwise (column.mapValues v) operator (value.mapValues v)
  | .among column values => .among (column.mapValues v) (values.map (Param.mapValues v))
  | .amongIntegers column values => .amongIntegers (column.mapValues v) values
  | .null column => .null (column.mapValues v)
  | .between column low high =>
    .between (column.mapValues v) (low.mapValues v) (high.mapValues v)
  | .betweenColumns column low high =>
    .betweenColumns (column.mapValues v) (low.mapValues v) (high.mapValues v)
  | .datePart part column operator value =>
    .datePart part (column.mapValues v) operator (value.mapValues v)
  | .compareColumns first operator second =>
    .compareColumns (first.mapValues v) operator (second.mapValues v)
  | .nested query => .nested query
  | .sub column operator query => .sub (column.mapValues v) operator query
  | .hasRows query => .hasRows query
  | .rowValues columns operator values =>
    .rowValues (columns.map (Term.mapValues v)) operator (values.map (Param.mapValues v))
  | .jsonBoolean column operator value => .jsonBoolean column operator value
  | .jsonContains column document => .jsonContains column document
  | .jsonContainsKey column => .jsonContainsKey column
  | .jsonLength column operator value => .jsonLength column operator (value.mapValues v)
  | .fulltext columns value options =>
    .fulltext (columns.map (Term.mapValues v)) (value.mapValues v) options

def Where.mapValues (w : Where Q) : Where Q :=
  { w with predicate := w.predicate.mapValues v }

def GroupPredicate.mapValues : GroupPredicate Q → GroupPredicate Q
  | .basic column operator value => .basic (column.mapValues v) operator (value.mapValues v)
  | .raw sql bindings => .raw sql (bindings.map v)
  | .expression sql => .expression sql
  | .between column low high =>
    .between (column.mapValues v) (low.mapValues v) (high.mapValues v)
  | .null column => .null (column.mapValues v)
  | .nested query => .nested query
  | .bitwise column operator value => .bitwise (column.mapValues v) operator (value.mapValues v)

def Having.mapValues (h : Having Q) : Having Q :=
  { h with predicate := h.predicate.mapValues v }

def Join.mapValues (j : Join Q) : Join Q :=
  { j with table := j.table.mapValues v }

def Order.mapValues : Order Q → Order Q
  | .byColumn column direction => .byColumn (column.mapValues v) direction
  | .raw sql bindings => .raw sql (bindings.map v)
  | .random seed => .random seed

def Aggregate.mapValues (a : Aggregate Q) : Aggregate Q :=
  { a with columns := a.columns.map (Term.mapValues v) }

def CteBody.mapValues : CteBody Q → CteBody Q
  | .select query => .select query
  | .raw sql bindings => .raw sql (bindings.map v)

def Cte.mapValues (c : Cte Q) : Cte Q :=
  { c with body := c.body.mapValues v }

/-- Clauses with their own values changed; the nested queries stay as they are. -/
def Clauses.mapValues (c : Clauses Q) : Clauses Q :=
  { c with
    aggregate := c.aggregate.map (Aggregate.mapValues v)
    columns := c.columns.map (List.map (Term.mapValues v))
    source := c.source.map (Term.mapValues v)
    joins := c.joins.map (Join.mapValues v)
    wheres := c.wheres.map (Where.mapValues v)
    groups := c.groups.map (Term.mapValues v)
    havings := c.havings.map (Having.mapValues v)
    orders := c.orders.map (Order.mapValues v)
    unionOrders := c.unionOrders.map (Order.mapValues v)
    ctes := c.ctes.map (Cte.mapValues v)
    unionCtes := c.unionCtes.map (Cte.mapValues v) }

end Values

/-- A query with all its values changed, those of all nested queries included. -/
def Query.mapValues (v : Binding → Binding) (q : Query) : Query :=
  q.fold fun c => .mk (c.mapValues v)

variable {v w : Binding → Binding}

theorem Query.mapValues_mk (c : Clauses Query) :
    (mk c).mapValues v = mk ((c.map (mapValues v)).mapValues v) :=
  fold_mk (fun c => mk (c.mapValues v)) c

/-! ### Nested queries

What is made of the nested queries may be made before the values change or after.
-/

section Nested

variable {A B : Type} (f : A → B)

@[simp] theorem Term.map_mapValues (t : Term A) :
    (t.mapValues v).map f = (t.map f).mapValues v := by
  cases t <;> rfl

@[simp] theorem Predicate.map_mapValues (p : Predicate A) :
    (p.mapValues v).map f = (p.map f).mapValues v := by
  cases p <;> simp [map, mapValues]

@[simp] theorem Where.map_mapValues (w : Where A) :
    (w.mapValues v).map f = (w.map f).mapValues v := by
  simp [map, mapValues]

@[simp] theorem GroupPredicate.map_mapValues (p : GroupPredicate A) :
    (p.mapValues v).map f = (p.map f).mapValues v := by
  cases p <;> simp [map, mapValues]

@[simp] theorem Having.map_mapValues (h : Having A) :
    (h.mapValues v).map f = (h.map f).mapValues v := by
  simp [map, mapValues]

@[simp] theorem Join.map_mapValues (j : Join A) :
    (j.mapValues v).map f = (j.map f).mapValues v := by
  simp [map, mapValues]

@[simp] theorem Order.map_mapValues (o : Order A) :
    (o.mapValues v).map f = (o.map f).mapValues v := by
  cases o <;> simp [map, mapValues]

@[simp] theorem Aggregate.map_mapValues (a : Aggregate A) :
    (a.mapValues v).map f = (a.map f).mapValues v := by
  simp [map, mapValues]

@[simp] theorem Cte.map_mapValues (c : Cte A) :
    (c.mapValues v).map f = (c.map f).mapValues v := by
  obtain ⟨name, columns, recursive, materialized, body, cycle⟩ := c
  cases body <;> rfl

theorem Clauses.map_mapValues (c : Clauses A) :
    (c.mapValues v).map f = (c.map f).mapValues v := by
  simp [map, mapValues, Function.comp_def]

end Nested

section Composition

variable {Q : Type}

@[simp] theorem Param.mapValues_mapValues (p : Param) :
    (p.mapValues v).mapValues w = p.mapValues fun b => w (v b) := by
  cases p <;> rfl

@[simp] theorem Term.mapValues_mapValues (t : Term Q) :
    (t.mapValues v).mapValues w = t.mapValues fun b => w (v b) := by
  cases t <;> simp [mapValues]

@[simp] theorem Predicate.mapValues_mapValues (p : Predicate Q) :
    (p.mapValues v).mapValues w = p.mapValues fun b => w (v b) := by
  cases p <;> simp [mapValues]

@[simp] theorem Where.mapValues_mapValues (c : Where Q) :
    (c.mapValues v).mapValues w = c.mapValues fun b => w (v b) := by
  simp [mapValues]

@[simp] theorem GroupPredicate.mapValues_mapValues (p : GroupPredicate Q) :
    (p.mapValues v).mapValues w = p.mapValues fun b => w (v b) := by
  cases p <;> simp [mapValues]

@[simp] theorem Having.mapValues_mapValues (h : Having Q) :
    (h.mapValues v).mapValues w = h.mapValues fun b => w (v b) := by
  simp [mapValues]

@[simp] theorem Join.mapValues_mapValues (j : Join Q) :
    (j.mapValues v).mapValues w = j.mapValues fun b => w (v b) := by
  simp [mapValues]

@[simp] theorem Order.mapValues_mapValues (o : Order Q) :
    (o.mapValues v).mapValues w = o.mapValues fun b => w (v b) := by
  cases o <;> simp [mapValues]

@[simp] theorem Aggregate.mapValues_mapValues (a : Aggregate Q) :
    (a.mapValues v).mapValues w = a.mapValues fun b => w (v b) := by
  simp [mapValues]

@[simp] theorem Cte.mapValues_mapValues (c : Cte Q) :
    (c.mapValues v).mapValues w = c.mapValues fun b => w (v b) := by
  obtain ⟨name, columns, recursive, materialized, body, cycle⟩ := c
  cases body <;> simp [mapValues, CteBody.mapValues]

theorem Clauses.mapValues_mapValues (c : Clauses Q) :
    (c.mapValues v).mapValues w = c.mapValues fun b => w (v b) := by
  simp [mapValues, Function.comp_def]

end Composition

theorem Query.mapValues_mapValues (q : Query) :
    (q.mapValues v).mapValues w = q.mapValues fun b => w (v b) := by
  induction q using Query.induct with
  | step c ih =>
    simp only [mapValues_mk, Clauses.map_mapValues, Clauses.map_map, Clauses.mapValues_mapValues,
      Clauses.map_congr ih]

/-! ### Words and bindings -/

section Words

variable {Q : Type}

@[simp] theorem Param.erase_mapValues (p : Param) : (p.mapValues v).erase = p.erase := by
  cases p <;> rfl

@[simp] theorem Term.erase_mapValues (t : Term Q) : (t.mapValues v).erase = t.erase := by
  cases t <;> rfl

@[simp] theorem Predicate.erase_mapValues (p : Predicate Q) : (p.mapValues v).erase = p.erase := by
  cases p <;> simp [mapValues, erase]

@[simp] theorem Where.erase_mapValues (c : Where Q) : (c.mapValues v).erase = c.erase := by
  simp [mapValues, erase]

@[simp] theorem GroupPredicate.erase_mapValues (p : GroupPredicate Q) :
    (p.mapValues v).erase = p.erase := by
  cases p <;> simp [mapValues, erase]

@[simp] theorem Having.erase_mapValues (h : Having Q) : (h.mapValues v).erase = h.erase := by
  simp [mapValues, erase]

@[simp] theorem Join.erase_mapValues (j : Join Q) : (j.mapValues v).erase = j.erase := by
  simp [mapValues, erase]

@[simp] theorem Order.erase_mapValues (o : Order Q) : (o.mapValues v).erase = o.erase := by
  cases o <;> simp [mapValues, erase]

@[simp] theorem Aggregate.erase_mapValues (a : Aggregate Q) :
    (a.mapValues v).erase = a.erase := by
  simp [mapValues, erase]

@[simp] theorem Cte.erase_mapValues (c : Cte Q) : (c.mapValues v).erase = c.erase := by
  obtain ⟨name, columns, recursive, materialized, body, cycle⟩ := c
  cases body <;> rfl

theorem Clauses.erase_mapValues (c : Clauses Q) : (c.mapValues v).erase = c.erase := by
  simp [mapValues, erase, Function.comp_def]

end Words

/-- A query has the same words with any values. -/
theorem Query.erase_mapValues (q : Query) : (q.mapValues v).erase = q.erase := by
  induction q using Query.induct with
  | step c ih =>
    simp only [mapValues_mk, erase_mk, Clauses.map_mapValues, Clauses.map_map,
      Clauses.erase_mapValues, Clauses.map_congr ih]

def BindingLists.mapValues (v : Binding → Binding) (b : BindingLists) : BindingLists where
  unionCtes := b.unionCtes.map v
  ctes := b.ctes.map v
  select := b.select.map v
  source := b.source.map v
  join := b.join.map v
  wheres := b.wheres.map v
  groups := b.groups.map v
  havings := b.havings.map v
  orders := b.orders.map v
  union := b.union.map v
  unionOrders := b.unionOrders.map v

@[simp] theorem BindingLists.flatten_mapValues (b : BindingLists) :
    (b.mapValues v).flatten = b.flatten.map v := by
  simp [flatten, flattenOnly, BindingCategory.all, get, mapValues]

@[simp] theorem boundValues_mapValues (params : List Param) :
    boundValues (params.map (Param.mapValues v)) = (boundValues params).map v := by
  induction params with
  | nil => rfl
  | cons p params ih =>
    cases p with
    | raw sql => exact ih
    | value b => exact congrArg (v b :: ·) ih

section Bindings

/-- The values of a list of clauses change as those of each one do. -/
theorem flatMap_mapValues {A B C : Type} {made : A → B} {changed : B → C}
    {before : A → List Binding} {after : C → List Binding}
    (each : ∀ a, after (changed (made a)) = (before a).map v) (items : List A) :
    ((items.map made).map changed).flatMap after = (items.flatMap before).map v := by
  simp only [List.flatMap_map, List.map_flatMap, each]

@[simp] theorem Term.bindings_mapValues (t : Term BindingLists) :
    ((t.map (BindingLists.mapValues v)).mapValues v).bindings = t.bindings.map v := by
  cases t <;> simp [map, mapValues, bindings]

@[simp] theorem Term.bindings_mapValues_list (ts : List (Term BindingLists)) :
    ((ts.map (map (BindingLists.mapValues v))).map (mapValues v)).flatMap bindings
      = (ts.flatMap bindings).map v :=
  flatMap_mapValues bindings_mapValues ts

theorem Predicate.bindings_mapValues (document : ∀ s, v (.text s) = .text s)
    (p : Predicate BindingLists) :
    ((p.map (BindingLists.mapValues v)).mapValues v).bindings = p.bindings.map v := by
  have one (value : Param) : boundValues [value.mapValues v] = (boundValues [value]).map v :=
    boundValues_mapValues [value]
  have two (low high : Param) :
      boundValues [low.mapValues v, high.mapValues v] = (boundValues [low, high]).map v :=
    boundValues_mapValues [low, high]
  cases p with
  | jsonContains column sought => simp [map, mapValues, bindings, document]
  | nested query => rfl
  | _ => simp [map, mapValues, bindings, one, two, -List.map_map]

theorem Where.bindings_mapValues (document : ∀ s, v (.text s) = .text s) (w : Where BindingLists) :
    ((w.map (BindingLists.mapValues v)).mapValues v).bindings = w.bindings.map v :=
  Predicate.bindings_mapValues document w.predicate

theorem GroupPredicate.bindings_mapValues (p : GroupPredicate BindingLists) :
    ((p.map (BindingLists.mapValues v)).mapValues v).bindings = p.bindings.map v := by
  have one (value : Param) : boundValues [value.mapValues v] = (boundValues [value]).map v :=
    boundValues_mapValues [value]
  have two (low high : Param) :
      boundValues [low.mapValues v, high.mapValues v] = (boundValues [low, high]).map v :=
    boundValues_mapValues [low, high]
  cases p with
  | nested query => rfl
  | _ => simp [map, mapValues, bindings, one, two]

theorem Having.bindings_mapValues (h : Having BindingLists) :
    ((h.map (BindingLists.mapValues v)).mapValues v).bindings = h.bindings.map v :=
  GroupPredicate.bindings_mapValues h.predicate

theorem Join.bindings_mapValues (j : Join BindingLists) :
    ((j.map (BindingLists.mapValues v)).mapValues v).bindings = j.bindings.map v := by
  simp [map, mapValues, bindings]

theorem Order.bindings_mapValues (o : Order BindingLists) :
    ((o.map (BindingLists.mapValues v)).mapValues v).bindings = o.bindings.map v := by
  cases o <;> simp [map, mapValues, bindings]

theorem Cte.bindings_mapValues (c : Cte BindingLists) :
    ((c.map (BindingLists.mapValues v)).mapValues v).bindings = c.bindings.map v := by
  obtain ⟨name, columns, recursive, materialized, body, cycle⟩ := c
  cases body <;> simp [map, mapValues, bindings, CteBody.map, CteBody.mapValues]

theorem Clauses.selectBindings_mapValues (c : Clauses BindingLists) :
    ((c.map (BindingLists.mapValues v)).mapValues v).selectBindings
      = c.selectBindings.map v := by
  have rows : ((c.map (BindingLists.mapValues v)).mapValues v).aggregatesRows
      = c.aggregatesRows := by
    simp [aggregatesRows, hasUnions, map, mapValues]
  have columns : ((((c.columns.map (List.map (Term.map (BindingLists.mapValues v)))).map
      (List.map (Term.mapValues v))).getD []).flatMap Term.bindings)
        = ((c.columns.getD []).flatMap Term.bindings).map v := by
    cases c.columns with
    | none => rfl
    | some ts => exact Term.bindings_mapValues_list ts
  simp only [selectBindings, rows]
  simp only [map, mapValues, columns, List.map_append, apply_ite (List.map v), List.map_nil,
    Option.isNone_map]
  congr 1
  cases c.aggregate with
  | none => rfl
  | some a =>
    cases c.distinct with
    | on names => rfl
    | off | all => exact Term.bindings_mapValues_list a.columns

theorem Clauses.bindingLists_mapValues (document : ∀ s, v (.text s) = .text s)
    (c : Clauses BindingLists) :
    ((c.map (BindingLists.mapValues v)).mapValues v).bindingLists
      = c.bindingLists.mapValues v := by
  have source : (((c.source.map (Term.map (BindingLists.mapValues v))).map
      (Term.mapValues v)).map Term.bindings).getD []
        = ((c.source.map Term.bindings).getD []).map v := by
    cases c.source <;> simp
  have unions : (c.unions.map (UnionMember.map (BindingLists.mapValues v))).flatMap
      (fun u => u.query.flatten) = (c.unions.flatMap fun u => u.query.flatten).map v := by
    simp only [List.flatMap_map, List.map_flatMap, UnionMember.map,
      BindingLists.flatten_mapValues]
  simp only [bindingLists, selectBindings_mapValues, BindingLists.mapValues,
    BindingLists.mk.injEq, true_and]
  exact ⟨flatMap_mapValues Cte.bindings_mapValues c.unionCtes,
    flatMap_mapValues Cte.bindings_mapValues c.ctes, source,
    flatMap_mapValues Join.bindings_mapValues c.joins,
    flatMap_mapValues (Where.bindings_mapValues document) c.wheres,
    Term.bindings_mapValues_list c.groups,
    flatMap_mapValues Having.bindings_mapValues c.havings,
    flatMap_mapValues Order.bindings_mapValues c.orders, unions,
    flatMap_mapValues Order.bindings_mapValues c.unionOrders⟩

end Bindings

/-- A change of values that leaves texts as they are is one of the bindings. -/
theorem Query.bindingLists_mapValues (document : ∀ s, v (.text s) = .text s) (q : Query) :
    (q.mapValues v).bindingLists = q.bindingLists.mapValues v := by
  induction q using Query.induct with
  | step c ih =>
    simp only [mapValues_mk, bindingLists_mk, Clauses.map_mapValues, Clauses.map_map,
      Clauses.map_congr ih]
    rw [← Clauses.map_map, Clauses.bindingLists_mapValues document]

end SqlCompiler
