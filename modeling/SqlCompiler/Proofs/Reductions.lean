import SqlCompiler.Proofs.SelectParity
import SqlCompiler.Statement
import Mathlib.Data.List.Flatten
/-!
# Reductions

A reduction takes parts out of a query that none of its statements shows. What the query compiles
to stays the same and its lists keep their order, but the lists may hold fewer values. If they do,
the statement has values that no placeholder stands for, and in no other case.
-/

namespace SqlCompiler

open Substitute

/-- A statement whose placeholders stand for given values is matched by these and by no others. -/
theorem matched_iff_of_binds {sql : Sql} {values bindings : List Binding} (h : sql.Binds values) :
    Statement.Matched { sql, bindings } ↔ values = bindings := by
  constructor
  · intro matched
    have emitted := h.aligned.values_eq.trans h.bindings_eq
    exact emitted.symm.trans matched.values
  · rintro rfl
    exact matched_of_binds h

/-- Every list of the first is one of the second with some values left out. -/
def BindingLists.Fewer (a b : BindingLists) : Prop :=
  ∀ category, (a.get category).Sublist (b.get category)

theorem BindingLists.Fewer.trans {a b c : BindingLists} (first : a.Fewer b) (second : b.Fewer c) :
    a.Fewer c :=
  fun category => (first category).trans (second category)

theorem BindingLists.Fewer.flatten {a b : BindingLists} (h : a.Fewer b) :
    a.flatten.Sublist b.flatten :=
  List.Sublist.flatMap_right _ fun category _ => h category

/-- Nothing is missing from two lists in a row if it is not missing from either. -/
theorem append_inj_of_sublist {α : Type} {a b c d : List α} (first : a.Sublist b)
    (second : c.Sublist d) (same : a ++ c = b ++ d) : a = b ∧ c = d := by
  have lengths := congrArg List.length same
  simp only [List.length_append] at lengths
  have shorter := first.length_le
  have shorter' := second.length_le
  exact ⟨first.eq_of_length_le (by omega), second.eq_of_length_le (by omega)⟩

theorem flatMap_inj_of_sublist {α β : Type} {f g : α → List β} {items : List α}
    (each : ∀ item ∈ items, (f item).Sublist (g item)) (same : items.flatMap f = items.flatMap g) :
    ∀ item ∈ items, f item = g item := by
  induction items with
  | nil => simp
  | cons item items ih =>
    obtain ⟨first, rest⟩ := List.forall_mem_cons.mp each
    obtain ⟨own, others⟩ := append_inj_of_sublist first (List.Sublist.flatMap_right items rest) same
    exact List.forall_mem_cons.mpr ⟨own, ih rest others⟩

theorem BindingLists.Fewer.get_eq {a b : BindingLists} (h : a.Fewer b)
    (same : a.flatten = b.flatten) (category : BindingCategory) :
    a.get category = b.get category :=
  flatMap_inj_of_sublist (fun category _ => h category) same category (by cases category <;> decide)

section Fewer

variable {f g : Query → BindingLists}

theorem Term.bindings_fewer {t : Term Query} (fewer : ∀ q ∈ t.queries, (f q).Fewer (g q)) :
    (t.map f).bindings.Sublist (t.map g).bindings := by
  cases t with
  | name | raw => exact List.Sublist.refl _
  | sub query aliasName => exact (fewer query List.mem_cons_self).flatten

theorem Term.bindings_fewer_list {ts : List (Term Query)}
    (fewer : ∀ q ∈ ts.flatMap Term.queries, (f q).Fewer (g q)) :
    ((ts.map (Term.map f)).flatMap Term.bindings).Sublist
      ((ts.map (Term.map g)).flatMap Term.bindings) := by
  rw [List.flatMap_map, List.flatMap_map]
  exact List.Sublist.flatMap_right _ fun t member => Term.bindings_fewer fun q inside =>
    fewer q (List.mem_flatMap.mpr ⟨t, member, inside⟩)

theorem Predicate.bindings_fewer {p : Predicate Query}
    (fewer : ∀ q ∈ p.queries, (f q).Fewer (g q)) :
    (p.map f).bindings.Sublist (p.map g).bindings := by
  cases p with
  | raw | expression | jsonBoolean | jsonContains | jsonContainsKey | jsonLength =>
    exact List.Sublist.refl _
  | basic | bitwise | among | between | datePart =>
    exact (Term.bindings_fewer fewer).append_right _
  | amongIntegers | null => exact Term.bindings_fewer fewer
  | betweenColumns column low high =>
    simp only [Predicate.queries, List.forall_mem_append] at fewer
    obtain ⟨⟨column, low⟩, high⟩ := fewer
    exact ((Term.bindings_fewer column).append (Term.bindings_fewer low)).append
      (Term.bindings_fewer high)
  | compareColumns first operator second =>
    simp only [Predicate.queries, List.forall_mem_append] at fewer
    exact (Term.bindings_fewer fewer.1).append (Term.bindings_fewer fewer.2)
  | nested query => exact fewer query List.mem_cons_self .wheres
  | hasRows query => exact (fewer query List.mem_cons_self).flatten
  | sub column operator query =>
    simp only [Predicate.queries, List.forall_mem_append, List.forall_mem_singleton] at fewer
    exact (Term.bindings_fewer fewer.1).append fewer.2.flatten
  | rowValues | fulltext => exact (Term.bindings_fewer_list fewer).append_right _

theorem GroupPredicate.bindings_fewer {p : GroupPredicate Query}
    (fewer : ∀ q ∈ p.queries, (f q).Fewer (g q)) :
    (p.map f).bindings.Sublist (p.map g).bindings := by
  cases p with
  | raw | expression => exact List.Sublist.refl _
  | basic | bitwise | between => exact (Term.bindings_fewer fewer).append_right _
  | null => exact Term.bindings_fewer fewer
  | nested query => exact fewer query List.mem_cons_self .havings

theorem Join.bindings_fewer {j : Join Query} (fewer : ∀ q ∈ j.queries, (f q).Fewer (g q)) :
    (j.map f).bindings.Sublist (j.map g).bindings := by
  simp only [Join.queries, List.forall_mem_append, List.forall_mem_singleton] at fewer
  exact (Term.bindings_fewer fewer.1).append fewer.2.flatten

theorem Order.bindings_fewer {o : Order Query} (fewer : ∀ q ∈ o.queries, (f q).Fewer (g q)) :
    (o.map f).bindings.Sublist (o.map g).bindings := by
  cases o with
  | raw | random => exact List.Sublist.refl _
  | byColumn column direction => exact Term.bindings_fewer fewer

theorem Cte.bindings_fewer {c : Cte Query} (fewer : ∀ q ∈ c.queries, (f q).Fewer (g q)) :
    (c.map f).bindings.Sublist (c.map g).bindings := by
  obtain ⟨name, columns, recursive, materialized, body, cycle⟩ := c
  cases body with
  | raw => exact List.Sublist.refl _
  | select query => exact (fewer query List.mem_cons_self).flatten

theorem Clauses.selectBindings_fewer {c : Clauses Query}
    (fewer : c.Within fun q => (f q).Fewer (g q)) :
    (c.map f).selectBindings.Sublist (c.map g).selectBindings := by
  have columns : (((c.map f).columns.getD []).flatMap Term.bindings).Sublist
      (((c.map g).columns.getD []).flatMap Term.bindings) := by
    cases head : c.columns with
    | none => simp [Clauses.map, head]
    | some terms =>
      simpa [Clauses.map, head] using Term.bindings_fewer_list (fewer.columns terms head)
  have counted : ∀ a ∈ c.aggregate, ((a.map f).columns.flatMap Term.bindings).Sublist
      ((a.map g).columns.flatMap Term.bindings) :=
    fun a member => Term.bindings_fewer_list (fewer.aggregate a member)
  unfold Clauses.selectBindings
  rw [Engine.aggregatesRows_map, Engine.aggregatesRows_map]
  refine List.Sublist.append ?_ ?_
  · cases head : c.aggregate with
    | none => simp [Clauses.map, head]
    | some a => cases distinct : c.distinct <;> simp [Clauses.map, head, distinct, counted a head]
  · simp only [Clauses.map, Option.isNone_map] at columns ⊢
    split
    · exact columns
    · exact List.Sublist.refl _

/-- The lists of clauses hold fewer values if the lists of the queries in them do. -/
theorem Clauses.bindingLists_fewer {c : Clauses Query}
    (fewer : ∀ q ∈ c.queries, (f q).Fewer (g q)) :
    (c.map f).bindingLists.Fewer (c.map g).bindingLists := by
  have inside := Clauses.within fewer
  have listed {α A : Type} {items : List α} {left right : α → A} {bindings : A → List Binding}
      (each : ∀ item ∈ items, (bindings (left item)).Sublist (bindings (right item))) :
      ((items.map left).flatMap bindings).Sublist ((items.map right).flatMap bindings) := by
    rw [List.flatMap_map, List.flatMap_map]
    exact List.Sublist.flatMap_right _ each
  intro category
  cases category with
  | unionCtes => exact listed fun t member => Cte.bindings_fewer (inside.unionCtes t member)
  | ctes => exact listed fun t member => Cte.bindings_fewer (inside.ctes t member)
  | select => exact Clauses.selectBindings_fewer inside
  | source =>
    cases head : c.source with
    | none => simp [BindingLists.get, Clauses.bindingLists, Clauses.map, head]
    | some t =>
      simpa [BindingLists.get, Clauses.bindingLists, Clauses.map, head] using
        Term.bindings_fewer (inside.source t head)
  | join => exact listed fun j member => Join.bindings_fewer (inside.joins j member)
  | wheres => exact listed fun w member => Predicate.bindings_fewer (inside.wheres w member)
  | groups => exact Term.bindings_fewer_list inside.groups
  | havings => exact listed fun h member => GroupPredicate.bindings_fewer (inside.havings h member)
  | orders => exact listed fun o member => Order.bindings_fewer (inside.orders o member)
  | union => exact listed fun u member => (inside.unions u member).flatten
  | unionOrders => exact listed fun o member => Order.bindings_fewer (inside.unionOrders o member)

end Fewer

namespace Engine

variable {e : Engine}

section Congruence

variable {joins : List (Join Compiled)} {wheres : List (Where Compiled)} {c : Clauses Compiled}
  (sameJoins : joins.map e.joinSql = c.joins.map e.joinSql)
  (sameWheres : wheres.map e.whereClause = c.wheres.map e.whereClause)
include sameJoins sameWheres

theorem components_congr : e.components { c with joins, wheres } = e.components c := by
  have each : e.componentSql { c with joins, wheres } = e.componentSql c := by
    funext part
    cases part with
    | joins => exact congrArg (joinOutcomes " ") sameJoins
    | wheres => exact congrArg (fun tests => (conditions tests).map (headed "where ")) sameWheres
    | _ => rfl
  rw [components, each, components]

theorem plainSelect_congr : e.plainSelect { c with joins, wheres } = e.plainSelect c := by
  rw [plainSelect, components_congr sameJoins sameWheres]
  rfl

/-- Joins and conditions that compile to the same are the same for a whole query. -/
theorem compiled_congr : e.compiled { c with joins, wheres } = e.compiled c := by
  have rows (a : Aggregate Compiled) :
      e.rowAggregate { c with joins, wheres } a = e.rowAggregate c a := by
    have inner := plainSelect_congr (e := e)
      (c := { c with
        aggregate := none, ctes := [], unionCtes := [], recursionLimit := none,
        unionRecursionLimit := none }) sameJoins sameWheres
    simp only [rowAggregate, inner]
  have plain := plainSelect_congr sameJoins sameWheres
  have select : e.selectSql { c with joins, wheres } = e.selectSql c := by
    simp only [selectSql, rows, plain]
    rfl
  simp only [compiled, select, sameJoins, sameWheres]

end Congruence

end Engine

/-! ### Reduced queries -/

/-- How to leave out parts of clauses that no compiled query shows. -/
structure Reduction where
  reduce : Clauses Query → Clauses Query
  compiled_reduce : ∀ (e : Engine) (c : Clauses Query),
    e.compiled ((reduce c).map (Query.compiled e)) = e.compiled (c.map (Query.compiled e))
  fewer_reduce : ∀ c : Clauses Query,
    ((reduce c).map Query.bindingLists).bindingLists.Fewer (c.map Query.bindingLists).bindingLists

namespace Reduction

variable (r : Reduction)

/-- The query with its own clauses reduced and those of every query inside it. -/
def apply (q : Query) : Query :=
  q.fold fun c => .mk (r.reduce c)

theorem apply_mk (c : Clauses Query) : r.apply (.mk c) = .mk (r.reduce (c.map r.apply)) :=
  Query.fold_mk (fun c => Query.mk (r.reduce c)) c

@[simp] theorem compiled_apply (e : Engine) (q : Query) :
    (r.apply q).compiled e = q.compiled e := by
  induction q using Query.induct with
  | step c ih =>
    calc (r.apply (.mk c)).compiled e
        = e.compiled ((r.reduce (c.map r.apply)).map (Query.compiled e)) := by
          rw [apply_mk, Query.compiled_eq]
          rfl
      _ = e.compiled ((c.map r.apply).map (Query.compiled e)) := r.compiled_reduce e _
      _ = e.compiled (c.map (Query.compiled e)) := by
          rw [Clauses.map_map, Clauses.map_congr ih]
      _ = (Query.mk c).compiled e := by
          rw [Query.compiled_eq]
          rfl

theorem fewer_apply (q : Query) : (r.apply q).bindingLists.Fewer q.bindingLists := by
  induction q using Query.induct with
  | step c ih =>
    rw [apply_mk, Query.bindingLists_mk, Query.bindingLists_mk]
    refine (r.fewer_reduce _).trans ?_
    rw [Clauses.map_map]
    exact Clauses.bindingLists_fewer ih

theorem bindings_apply (q : Query) : (r.apply q).bindings.Sublist q.bindings :=
  (r.fewer_apply q).flatten

/-- Where the clauses at hand lose no values, no query does. -/
theorem bindingLists_apply_eq {P : Clauses Query → Prop}
    (step : ∀ (c : Clauses Query) (f : Query → Query), P c →
      (∀ q ∈ c.queries, (f q).bindingLists = q.bindingLists) →
      ((r.reduce (c.map f)).map Query.bindingLists).bindingLists
        = (c.map Query.bindingLists).bindingLists)
    {q : Query} (h : q.Everywhere P) : (r.apply q).bindingLists = q.bindingLists := by
  induction h with
  | @mk c own inside ih =>
    rw [apply_mk, Query.bindingLists_mk, Query.bindingLists_mk]
    exact step c r.apply own ih

variable {e : Engine} (he : Clean e.settings.tablePrefix.toList)
include he

/-- A statement binds the values that the reduced query has. -/
theorem binds_apply {q : Query} (hq : (r.apply q).Hygienic) {s : Statement}
    (ok : e.select q = .ok s) : Sql.Binds (r.apply q).bindings s.sql := by
  obtain ⟨sql, compiled, written⟩ := bind_ok ok
  obtain rfl := pure_ok written
  rw [← r.compiled_apply e q] at compiled
  exact (Engine.parity_of_hygienic he hq).select sql compiled

/-- Its own values are these if the reduction leaves none of them out. -/
theorem matched_iff_bindings_apply {q : Query} (hq : (r.apply q).Hygienic) {s : Statement}
    (ok : e.select q = .ok s) : s.Matched ↔ (r.apply q).bindings = q.bindings := by
  have found := r.binds_apply he hq ok
  obtain ⟨sql, compiled, written⟩ := bind_ok ok
  obtain rfl := pure_ok written
  exact matched_iff_of_binds found

end Reduction

end SqlCompiler
