import Mathlib.Data.List.Basic
import SqlCompiler.Proofs.Reductions
import SqlCompiler.Query.Step
/-!
# What a join shows of its clause

The clause of a join is a whole query, of which the join shows the joins and the conditions. It
collects what every list of the clause holds, so it binds what it shows if the other lists are
empty, and so they are in the joins beside its table, at every depth.
-/

namespace SqlCompiler

open Substitute

/-- The joins and the conditions of a query. -/
def Query.joinClause (q : Query) : Query :=
  .mk { joins := q.clauses.joins, wheres := q.clauses.wheres }

def Join.trimmed (j : Join Query) : Join Query :=
  { j with clause := j.clause.joinClause }

def Clauses.trimmed (c : Clauses Query) : Clauses Query :=
  { c with joins := c.joins.map Join.trimmed }

/-- The clause holds values nowhere but in its joins and its conditions. -/
def Join.ShowsClause (j : Join Query) : Prop :=
  ∀ category, category ≠ .join → category ≠ .wheres → j.clause.bindingLists.get category = []

namespace Query

theorem isJoinClause_joinClause (q : Query) : q.joinClause.IsJoinClause := rfl

theorem bindingLists_joinClause (q : Query) :
    q.joinClause.bindingLists
      = { join := q.bindingLists.join, wheres := q.bindingLists.wheres } := by
  obtain ⟨c⟩ := q
  rw [joinClause, bindingLists_mk, bindingLists_mk]
  rfl

theorem fewer_joinClause (q : Query) : q.joinClause.bindingLists.Fewer q.bindingLists := by
  rw [bindingLists_joinClause]
  intro category
  cases category with
  | join | wheres => exact List.Sublist.refl _
  | _ => exact List.nil_sublist _

end Query

theorem Join.ShowsClause.flatten_eq {j : Join Query} (h : j.ShowsClause) :
    j.clause.joinClause.bindingLists.flatten = j.clause.bindingLists.flatten := by
  refine List.flatMap_congr fun category _ => ?_
  have others := h category
  rw [Query.bindingLists_joinClause]
  cases category with
  | join | wheres => rfl
  | _ => exact (others nofun nofun).symm

/-- Of a compiled clause a join takes the joins and the conditions. -/
theorem Engine.joinSql_congr (e : Engine) (kind : JoinKind) (table : Term Compiled)
    {clause other : Compiled} (joins : clause.joins = other.joins)
    (wheres : clause.wheres = other.wheres) :
    e.joinSql { kind, table, clause } = e.joinSql { kind, table, clause := other } := by
  obtain ⟨select, joins, wheres, havings⟩ := clause
  obtain rfl := joins
  obtain rfl := wheres
  rfl

theorem Engine.joinSql_trimmed (e : Engine) (j : Join Query) :
    e.joinSql (j.trimmed.map (Query.compiled e)) = e.joinSql (j.map (Query.compiled e)) := by
  refine e.joinSql_congr j.kind (j.table.map (Query.compiled e)) ?_ ?_
  · rw [Query.compiled_eq, Query.compiled_eq]
    rfl
  · rw [Query.compiled_eq, Query.compiled_eq]
    rfl

theorem Join.bindings_trimmed (j : Join Query) :
    (j.trimmed.map Query.bindingLists).bindings.Sublist (j.map Query.bindingLists).bindings :=
  (List.Sublist.refl _).append j.clause.fewer_joinClause.flatten

/-- To leave out what no join shows of its clause. -/
def trimming : Reduction where
  reduce := Clauses.trimmed
  compiled_reduce e c := by
    refine Engine.compiled_congr (e := e) (c := c.map (Query.compiled e)) ?_ rfl
    simp only [Clauses.map, Clauses.trimmed, List.map_map]
    exact List.map_congr_left fun j _ => e.joinSql_trimmed j
  fewer_reduce c category := by
    cases category with
    | join =>
      simp only [BindingLists.get, Clauses.bindingLists, Clauses.map, Clauses.trimmed,
        List.flatMap_map]
      exact List.Sublist.flatMap_right _ fun j _ => j.bindings_trimmed
    | _ => exact List.Sublist.refl _

namespace Join

/-- A join without what is not shown of its clause and of those of all joins inside it. -/
def shown (j : Join Query) : Join Query :=
  (j.map trimming.apply).trimmed

theorem joinSql_shown (e : Engine) (j : Join Query) :
    e.joinSql (j.shown.map (Query.compiled e)) = e.joinSql (j.map (Query.compiled e)) := by
  rw [shown, e.joinSql_trimmed, map_map]
  simp only [trimming.compiled_apply]

/-- What is shown of a clause holds no more than the clause. -/
theorem fewer_shown (j : Join Query) :
    j.shown.clause.bindingLists.Fewer j.clause.bindingLists :=
  (Query.fewer_joinClause _).trans (trimming.fewer_apply j.clause)

theorem table_shown (j : Join Query) :
    (j.shown.table.map Query.bindingLists).bindings.Sublist
      (j.table.map Query.bindingLists).bindings := by
  have table : j.shown.table = j.table.map trimming.apply := rfl
  rw [table, Term.map_map]
  exact Term.bindings_fewer fun q _ => trimming.fewer_apply q

theorem bindings_shown (j : Join Query) :
    (j.shown.map Query.bindingLists).bindings.Sublist (j.map Query.bindingLists).bindings :=
  j.table_shown.append j.fewer_shown.flatten

/-- The values behind the table, the joins beside it and the conditions, in this order. -/
theorem bindings_shown_eq (j : Join Query) :
    (j.shown.map Query.bindingLists).bindings
      = (j.shown.table.map Query.bindingLists).bindings ++ j.shown.clause.bindingLists.join
        ++ j.shown.clause.bindingLists.wheres := by
  have clause : j.shown.clause.IsJoinClause := Query.isJoinClause_joinClause _
  rw [List.append_assoc, ← Engine.flatten_of_isJoinClause clause]
  rfl

/-- The joins of a clause without what they do not show. -/
theorem bindings_apply_joins (c : Clauses Query) :
    (trimming.apply (.mk c)).bindingLists.join
      = c.joins.flatMap fun j => (j.shown.map Query.bindingLists).bindings := by
  rw [trimming.apply_mk, Query.bindingLists_mk]
  simp only [Clauses.bindingLists, Clauses.map, trimming, Clauses.trimmed, List.flatMap_map]
  rfl

/-! ### Joins beside joined tables -/

theorem clause_bindings_eq {j : Join Query}
    (same : (j.shown.map Query.bindingLists).bindings = (j.map Query.bindingLists).bindings)
    (category : BindingCategory) :
    j.shown.clause.bindingLists.get category = j.clause.bindingLists.get category :=
  j.fewer_shown.get_eq (append_inj_of_sublist j.table_shown j.fewer_shown.flatten same).2 category

/-- If nothing is missing from what a join shows, it shows its clause. -/
theorem showsClause_of_bindings_eq {j : Join Query}
    (same : (j.shown.map Query.bindingLists).bindings = (j.map Query.bindingLists).bindings) :
    j.ShowsClause := by
  intro category join wheres
  rw [← clause_bindings_eq same category, shown, trimmed, Query.bindingLists_joinClause]
  cases category with
  | join | wheres => contradiction
  | _ => rfl

/-- Nor is anything missing from the joins beside its table. -/
theorem nested_bindings_eq (j : Join Query)
    (same : (j.shown.map Query.bindingLists).bindings = (j.map Query.bindingLists).bindings) :
    ∀ k ∈ j.clause.clauses.joins,
      (k.shown.map Query.bindingLists).bindings = (k.map Query.bindingLists).bindings := by
  obtain ⟨kind, table, ⟨c⟩⟩ := j
  have joins := clause_bindings_eq same .join
  rw [shown, trimmed, Query.bindingLists_joinClause] at joins
  have each : (c.joins.flatMap fun j => (j.shown.map Query.bindingLists).bindings)
      = c.joins.flatMap fun j => (j.map Query.bindingLists).bindings := by
    rw [← bindings_apply_joins]
    refine joins.trans ?_
    simp only [BindingLists.get, Query.bindingLists_mk, Clauses.bindingLists, Clauses.map,
      List.flatMap_map]
  exact flatMap_inj_of_sublist (fun j _ => j.bindings_shown) each

end Join

/-- Every join in a query shows its clause, at every depth. -/
def Query.ShowsJoins (q : Query) : Prop :=
  q.Everywhere fun c => ∀ j ∈ c.joins, j.ShowsClause

theorem Join.ShowsClause.bindings_trimmed_eq {j : Join Query} {f : Query → Query}
    (own : j.ShowsClause) (ih : ∀ q ∈ j.queries, (f q).bindingLists = q.bindingLists) :
    ((j.map f).trimmed.map Query.bindingLists).bindings
      = (j.map Query.bindingLists).bindings := by
  have mapped : (j.map f).map Query.bindingLists = j.map Query.bindingLists := by
    rw [Join.map_map, Join.map_congr ih]
  have clause : (f j.clause).bindingLists = j.clause.bindingLists := congrArg Join.clause mapped
  have shows : (j.map f).ShowsClause := by
    intro category join wheres
    exact (congrArg (·.get category) clause).trans (own category join wheres)
  rw [← mapped]
  exact congrArg (((j.map f).table.map Query.bindingLists).bindings ++ ·) shows.flatten_eq

theorem Query.ShowsJoins.bindingLists_eq {q : Query} (h : q.ShowsJoins) :
    (trimming.apply q).bindingLists = q.bindingLists := by
  refine trimming.bindingLists_apply_eq (fun c f own ih => ?_) h
  have within := Clauses.within ih
  have mapped : c.map (fun q => (f q).bindingLists) = c.map Query.bindingLists :=
    Clauses.map_congr ih
  have joins : (((c.map f).trimmed.map Query.bindingLists).joins).flatMap Join.bindings
      = ((c.map Query.bindingLists).joins).flatMap Join.bindings := by
    simp only [Clauses.map, Clauses.trimmed, List.map_map, List.flatMap_map]
    exact List.flatMap_congr fun j member =>
      (own j member).bindings_trimmed_eq (within.joins j member)
  have others : ((c.map f).trimmed.map Query.bindingLists).bindingLists
      = { (c.map fun q => (f q).bindingLists).bindingLists with
          join := (((c.map f).trimmed.map Query.bindingLists).joins).flatMap Join.bindings } := by
    rw [← Clauses.map_map f Query.bindingLists c]
    rfl
  exact others.trans (by rw [mapped, joins]; rfl)

namespace Engine

variable {e : Engine} (he : Clean e.settings.tablePrefix.toList)
include he

/-- A join binds what it shows if its clause and those of the joins inside it hold values nowhere
but in their joins and conditions. -/
theorem join_matched_iff {j : Join Query} (ht : j.shown.table.Hygienic)
    (hq : ∀ q ∈ j.shown.queries, q.Hygienic) {sql : Sql}
    (ok : e.joinSql (j.map (Query.compiled e)) = .ok sql) :
    Statement.Matched { sql, bindings :=
      (j.shown.table.map Query.bindingLists).bindings ++ j.shown.clause.bindingLists.join
        ++ j.shown.clause.bindingLists.wheres } ∧
    (j.shown.map Query.bindingLists).bindings.Sublist (j.map Query.bindingLists).bindings ∧
    (Statement.Matched { sql, bindings := (j.map Query.bindingLists).bindings }
      ↔ (j.shown.map Query.bindingLists).bindings = (j.map Query.bindingLists).bindings) ∧
    (j.ShowsClause → (∀ q ∈ j.queries, q.ShowsJoins) →
      Statement.Matched { sql, bindings := (j.map Query.bindingLists).bindings }) ∧
    (Statement.Matched { sql, bindings := (j.map Query.bindingLists).bindings } →
      ∀ i ∈ j :: j.clause.allJoins, i.ShowsClause) := by
  have ih : ∀ q ∈ j.shown.queries, q.Parity e := fun q inside => parity_of_hygienic he (hq q inside)
  rw [← Join.joinSql_shown] at ok
  have found := joinSql_binds he ⟨ht, Query.isJoinClause_joinClause _⟩ ih sql ok
  have matched : Statement.Matched { sql, bindings := (j.map Query.bindingLists).bindings } ↔ _ :=
    matched_iff_of_binds found
  refine ⟨?_, j.bindings_shown, matched, fun own inside => ?_, fun all i member => ?_⟩
  · rw [← j.bindings_shown_eq]
    exact matched_of_binds found
  · exact matched.mpr (own.bindings_trimmed_eq fun q member => (inside q member).bindingLists_eq)
  · apply Join.showsClause_of_bindings_eq
    rcases List.mem_cons.mp member with rfl | nested
    · exact matched.mp all
    · exact Query.forall_allJoins Join.nested_bindings_eq (j.nested_bindings_eq (matched.mp all))
        i nested

end Engine

/-- The items of an order. -/
def orderItems : Join Query where
  table := .name "items"
  clause := .mk { wheres :=
    [{ predicate := .compareColumns (.name "items.order_id") "=" (.name "orders.id") }] }

/-- Open orders with their items beside them. -/
def pendingOrders : Join Query where
  kind := .left
  table := .name "orders"
  clause := .mk
    { joins := [orderItems]
      wheres := [{ predicate := .compareColumns (.name "orders.user_id") "=" (.name "users.id") },
        { predicate := .basic (.name "orders.state") "=" (.value (.text "open")) }] }

/-- A property of joins is one of all queries in these orders. -/
theorem everywhere_pendingOrders {P : Clauses Query → Prop} (items : P orderItems.clause.clauses)
    (orders : P pendingOrders.clause.clauses) : pendingOrders.clause.Everywhere P := by
  refine .mk orders fun q inside => ?_
  obtain rfl : q = orderItems.clause := by
    simpa [pendingOrders, Query.clauses, Clauses.queries, Join.queries, orderItems, Where.queries,
      Predicate.queries, Term.queries] using inside
  refine .mk items ?_
  simp [Clauses.queries, Where.queries, Predicate.queries, Term.queries]

theorem pendingOrders_matched : ∃ sql,
    (Engine.mk .sqlite {}).joinSql (pendingOrders.map (Query.compiled (.mk .sqlite {}))) = .ok sql ∧
    Statement.Matched { sql, bindings := (pendingOrders.map Query.bindingLists).bindings } := by
  have asks : pendingOrders.queries = [pendingOrders.clause] := rfl
  have shows : pendingOrders.shown = pendingOrders := rfl
  refine ⟨_, rfl, (Engine.join_matched_iff (e := .mk .sqlite {}) (by decide) (j := pendingOrders)
    ?_ ?_ rfl).2.2.2.1 ?_ ?_⟩
  · exact (by decide : Clean "orders".toList)
  · rw [shows, asks, List.forall_mem_singleton]
    refine everywhere_pendingOrders ?_ ?_
    · constructor <;> simp [orderItems, Query.clauses, Distinct.Hygienic, Term.Hygienic,
        Where.Hygienic, Predicate.Hygienic]
      decide
    · constructor <;> simp [pendingOrders, orderItems, Query.clauses, Distinct.Hygienic,
        Term.Hygienic, Join.Hygienic, Query.IsJoinClause, Where.Hygienic, Predicate.Hygienic,
        Param.Hygienic] <;> decide
  · intro category join wheres
    cases category with
    | join | wheres => contradiction
    | _ => rfl
  · rw [asks, List.forall_mem_singleton]
    refine everywhere_pendingOrders (by simp [orderItems, Query.clauses]) ?_
    simp only [pendingOrders, Query.clauses, List.forall_mem_singleton]
    intro category join wheres
    cases category with
    | join | wheres => contradiction
    | _ => rfl

/-- Orders by their rounded total, in the clause of a join. -/
def roundedOrders : Join Query where
  table := .name "orders"
  clause := .build
    [.whereColumn .and (.name "users.id") "=" (.name "orders.user_id"),
      .groupBy [.raw "round(total, ?)" [.int 2]]]

theorem roundedOrders_unmatched : roundedOrders.clause.Hygienic ∧ ∃ sql,
    (Engine.mk .generic {}).joinSql (roundedOrders.map (Query.compiled (.mk .generic {})))
      = .ok sql ∧
    sql.text = "inner join \"orders\" on \"users\".\"id\" = \"orders\".\"user_id\"" ∧
    (roundedOrders.map Query.bindingLists).bindings = [.int 2] ∧
    ¬ Statement.Matched { sql, bindings := (roundedOrders.map Query.bindingLists).bindings } := by
  have built : roundedOrders.clause = .mk
      { wheres := [{ predicate := .compareColumns (.name "users.id") "=" (.name "orders.user_id") }]
        groups := [.raw "round(total, ?)" [.int 2]] } := rfl
  refine ⟨?_, _, rfl, by decide, rfl, fun matched => ?_⟩
  · rw [built]
    refine .mk ?_ (by simp [Clauses.queries, Where.queries, Predicate.queries, Term.queries])
    constructor <;> simp [Distinct.Hygienic, Term.Hygienic, Where.Hygienic, Predicate.Hygienic] <;>
      decide
  · have none := matched.count
    revert none
    decide

end SqlCompiler
