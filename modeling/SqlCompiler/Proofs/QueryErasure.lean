import SqlCompiler.Proofs.Erasure
import SqlCompiler.Proofs.Nesting
/-!
# Queries without their values

Two queries with the same erasure differ only in what they bind: the values of parameters, the
bindings of raw fragments and the documents that are looked for in other documents.
-/

namespace SqlCompiler

section Erasure

variable {Q : Type}

def Term.erase : Term Q → Term Q
  | .name n => .name n
  | .raw sql _ => .raw sql []
  | .sub query aliasName => .sub query aliasName

def Predicate.erase : Predicate Q → Predicate Q
  | .basic column operator value => .basic column.erase operator value.erase
  | .raw sql _ => .raw sql []
  | .expression sql => .expression sql
  | .bitwise column operator value => .bitwise column.erase operator value.erase
  | .among column values => .among column.erase (values.map Param.erase)
  | .amongIntegers column values => .amongIntegers column.erase values
  | .null column => .null column.erase
  | .between column low high => .between column.erase low.erase high.erase
  | .betweenColumns column low high => .betweenColumns column.erase low.erase high.erase
  | .datePart part column operator value => .datePart part column.erase operator value.erase
  | .compareColumns first operator second => .compareColumns first.erase operator second.erase
  | .nested query => .nested query
  | .sub column operator query => .sub column.erase operator query
  | .hasRows query => .hasRows query
  | .rowValues columns operator values =>
    .rowValues (columns.map Term.erase) operator (values.map Param.erase)
  | .jsonBoolean column operator value => .jsonBoolean column operator value
  | .jsonContains column _ => .jsonContains column .null
  | .jsonContainsKey column => .jsonContainsKey column
  | .jsonLength column operator value => .jsonLength column operator value.erase
  | .fulltext columns value options => .fulltext (columns.map Term.erase) value.erase options

def Where.erase (w : Where Q) : Where Q :=
  { w with predicate := w.predicate.erase }

def GroupPredicate.erase : GroupPredicate Q → GroupPredicate Q
  | .basic column operator value => .basic column.erase operator value.erase
  | .raw sql _ => .raw sql []
  | .expression sql => .expression sql
  | .between column low high => .between column.erase low.erase high.erase
  | .null column => .null column.erase
  | .nested query => .nested query
  | .bitwise column operator value => .bitwise column.erase operator value.erase

def Having.erase (h : Having Q) : Having Q :=
  { h with predicate := h.predicate.erase }

def Join.erase (j : Join Q) : Join Q :=
  { j with table := j.table.erase }

def Order.erase : Order Q → Order Q
  | .byColumn column direction => .byColumn column.erase direction
  | .raw sql _ => .raw sql []
  | .random seed => .random seed

def Aggregate.erase (a : Aggregate Q) : Aggregate Q :=
  { a with columns := a.columns.map Term.erase }

def CteBody.erase : CteBody Q → CteBody Q
  | .select query => .select query
  | .raw sql _ => .raw sql []

def Cte.erase (c : Cte Q) : Cte Q :=
  { c with body := c.body.erase }

/-- Clauses without their own values; the nested queries keep theirs. -/
def Clauses.erase (c : Clauses Q) : Clauses Q :=
  { c with
    aggregate := c.aggregate.map Aggregate.erase
    columns := c.columns.map (List.map Term.erase)
    source := c.source.map Term.erase
    joins := c.joins.map Join.erase
    wheres := c.wheres.map Where.erase
    groups := c.groups.map Term.erase
    havings := c.havings.map Having.erase
    orders := c.orders.map Order.erase
    unionOrders := c.unionOrders.map Order.erase
    ctes := c.ctes.map Cte.erase
    unionCtes := c.unionCtes.map Cte.erase }

end Erasure

/-- A query without its values, those of all nested queries included. -/
def Query.erase (q : Query) : Query :=
  q.fold fun c => .mk c.erase

theorem Query.erase_mk (c : Clauses Query) : (mk c).erase = mk (c.map erase).erase :=
  fold_mk (fun c => mk c.erase) c

/-! ### Nested queries

What is made of the nested queries may be made before the values go or after. -/

section Nested

variable {A B C : Type} {f : Query → A} {g : A → C} {h : Query → B} {k : B → C}

/-- The square of one clause is that of every list of such clauses. -/
theorem map_square {α X Y Z : Type} {before : α → X} {erase : X → X} {after : X → Z} {made : α → Y}
    {other : Y → Z} {erased : Z → Z} {items : List α}
    (same : ∀ item ∈ items, after (erase (before item)) = erased (other (made item))) :
    ((items.map before).map erase).map after = ((items.map made).map other).map erased := by
  simp only [List.map_map]
  exact List.map_congr_left same

theorem map_square? {α X Y Z : Type} {before : α → X} {erase : X → X} {after : X → Z}
    {made : α → Y} {other : Y → Z} {erased : Z → Z} {item? : Option α}
    (same : ∀ item ∈ item?, after (erase (before item)) = erased (other (made item))) :
    ((item?.map before).map erase).map after = ((item?.map made).map other).map erased := by
  cases item? with
  | none => rfl
  | some item => exact congrArg some (same item rfl)

theorem Term.map_erase {t : Term Query} (same : ∀ q ∈ t.queries, g (f q) = k (h q)) :
    (t.map f).erase.map g = ((t.map h).map k).erase := by
  cases t with
  | name n => rfl
  | raw sql values => rfl
  | sub query aliasName =>
    have inner := same query List.mem_cons_self
    simp [Term.map, Term.erase, inner]

theorem Term.map_erase_list {ts : List (Term Query)}
    (same : ∀ q ∈ ts.flatMap Term.queries, g (f q) = k (h q)) :
    ((ts.map (Term.map f)).map Term.erase).map (Term.map g)
      = ((ts.map (Term.map h)).map (Term.map k)).map Term.erase :=
  map_square fun t member => Term.map_erase fun q inside =>
    same q (List.mem_flatMap.mpr ⟨t, member, inside⟩)

theorem Predicate.map_erase {p : Predicate Query} (same : ∀ q ∈ p.queries, g (f q) = k (h q)) :
    (p.map f).erase.map g = ((p.map h).map k).erase := by
  cases p with
  | raw sql values | expression sql | jsonBoolean column operator value
  | jsonContains column document | jsonContainsKey column | jsonLength column operator value => rfl
  | basic column operator value | bitwise column operator value | among column values
  | amongIntegers column values | null column | between column low high
  | datePart part column operator value =>
    simp only [Predicate.map, Predicate.erase, Term.map_erase same]
  | betweenColumns column low high =>
    simp only [Predicate.queries, List.forall_mem_append] at same
    obtain ⟨⟨column, low⟩, high⟩ := same
    simp only [Predicate.map, Predicate.erase, Term.map_erase column, Term.map_erase low,
      Term.map_erase high]
  | compareColumns first operator second =>
    simp only [Predicate.queries, List.forall_mem_append] at same
    simp only [Predicate.map, Predicate.erase, Term.map_erase same.1, Term.map_erase same.2]
  | nested query | hasRows query =>
    have inner := same query List.mem_cons_self
    simp only [Predicate.map, Predicate.erase, inner]
  | sub column operator query =>
    simp only [Predicate.queries, List.forall_mem_append, List.mem_singleton, forall_eq] at same
    simp only [Predicate.map, Predicate.erase, Term.map_erase same.1, same.2]
  | rowValues columns operator values | fulltext columns value options =>
    simp only [Predicate.map, Predicate.erase, Term.map_erase_list same]

theorem GroupPredicate.map_erase {p : GroupPredicate Query}
    (same : ∀ q ∈ p.queries, g (f q) = k (h q)) :
    (p.map f).erase.map g = ((p.map h).map k).erase := by
  cases p with
  | raw sql values | expression sql => rfl
  | basic column operator value | between column low high | null column
  | bitwise column operator value =>
    simp only [GroupPredicate.map, GroupPredicate.erase, Term.map_erase same]
  | nested query =>
    have inner := same query List.mem_cons_self
    simp only [GroupPredicate.map, GroupPredicate.erase, inner]

theorem Join.map_erase {j : Join Query} (same : ∀ q ∈ j.queries, g (f q) = k (h q)) :
    (j.map f).erase.map g = ((j.map h).map k).erase := by
  simp only [Join.queries, List.forall_mem_append, List.mem_singleton, forall_eq] at same
  simp only [Join.map, Join.erase, Term.map_erase same.1, same.2]

theorem Order.map_erase {o : Order Query} (same : ∀ q ∈ o.queries, g (f q) = k (h q)) :
    (o.map f).erase.map g = ((o.map h).map k).erase := by
  cases o with
  | raw sql values | random seed => rfl
  | byColumn column direction => simp only [Order.map, Order.erase, Term.map_erase same]

theorem Cte.map_erase {c : Cte Query} (same : ∀ q ∈ c.queries, g (f q) = k (h q)) :
    (c.map f).erase.map g = ((c.map h).map k).erase := by
  obtain ⟨name, columns, recursive, materialized, body, cycle⟩ := c
  cases body with
  | raw sql values => rfl
  | select query =>
    have inner := same query List.mem_cons_self
    simp only [Cte.map, Cte.erase, CteBody.map, CteBody.erase, inner]

theorem Clauses.map_erase {c : Clauses Query} (same : ∀ q ∈ c.queries, g (f q) = k (h q)) :
    (c.map f).erase.map g = ((c.map h).map k).erase := by
  have inside := Clauses.within (P := fun q => g (f q) = k (h q)) same
  have aggregates : ∀ a ∈ c.aggregate, (a.map f).erase.map g = ((a.map h).map k).erase := by
    intro a member
    simp only [Aggregate.map, Aggregate.erase, Term.map_erase_list (inside.aggregate a member)]
  have wheres : ∀ w ∈ c.wheres, (w.map f).erase.map g = ((w.map h).map k).erase := by
    intro w member
    simp only [Where.map, Where.erase, Predicate.map_erase (inside.wheres w member)]
  have havings : ∀ w ∈ c.havings, (w.map f).erase.map g = ((w.map h).map k).erase := by
    intro w member
    simp only [Having.map, Having.erase, GroupPredicate.map_erase (inside.havings w member)]
  have unions : (c.unions.map (UnionMember.map f)).map (UnionMember.map g)
      = (c.unions.map (UnionMember.map h)).map (UnionMember.map k) := by
    simp only [List.map_map]
    refine List.map_congr_left fun u member => ?_
    simp only [Function.comp_apply, UnionMember.map, inside.unions u member]
  simp only [Clauses.map, Clauses.erase, Clauses.mk.injEq, true_and, and_true]
  exact ⟨map_square? aggregates,
    map_square? fun terms member => Term.map_erase_list (inside.columns terms member),
    map_square? fun t member => Term.map_erase (inside.source t member),
    map_square fun j member => Join.map_erase (inside.joins j member),
    map_square wheres, Term.map_erase_list inside.groups, map_square havings,
    map_square fun o member => Order.map_erase (inside.orders o member), unions,
    map_square fun o member => Order.map_erase (inside.unionOrders o member),
    map_square fun t member => Cte.map_erase (inside.ctes t member),
    map_square fun t member => Cte.map_erase (inside.unionCtes t member)⟩

end Nested

end SqlCompiler
