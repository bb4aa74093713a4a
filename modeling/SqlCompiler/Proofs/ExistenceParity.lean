import SqlCompiler.Proofs.SelectParity
/-!
# Tests for rows bind their values

A test for rows is a select around the query, except in SQL Server, which selects a constant in
place of the columns and binds none of them. An aggregate keeps its own columns there: their values
are written and not bound, so that the test binds its values exactly if there are none.
-/

namespace SqlCompiler

open Substitute

/-- The values in the aggregate of a query, as it is written. -/
def Query.aggregated (q : Query) : List Binding :=
  (q.bindingClauses.aggregate.map (Engine.aggregateBindings q.clauses.distinct)).getD []

namespace Engine

variable {e : Engine}

/-- The query for a constant, by which SQL Server tests for rows. -/
def constantRow {A : Type} (e : Engine) (c : Clauses A) : Clauses A :=
  { c with columns := some [.raw ("1 " ++ e.wrapValue "exists") []], limit := some 1 }

theorem sound_constantRow {c : Clauses Query} (h : c.Sound e) : (constantRow e c).Sound e where
  hygienic := { h.hygienic with
    columns := by
      have constant : Clean ("1 " ++ e.wrapValue "exists").toList := by
        rw [String.toList_append, clean_append]
        exact ⟨by decide, clean_wrapValue (by decide)⟩
      simpa [constantRow, Term.Hygienic] using constant.holds }
  within := { h.within with columns := by simp [constantRow, Term.queries] }

/-- The constant takes the place of the columns, and of nothing else. -/
theorem flatten_constantRow (c : Clauses Query) :
    ((constantRow e c).map Query.bindingLists).bindingLists.flatten
      = (Query.mk c).bindingLists.flattenOnly [.unionCtes, .ctes] ++ (Query.mk c).aggregated
        ++ (Query.mk c).bindingLists.flattenExcept [.unionCtes, .ctes, .select] := by
  have select : ((constantRow e c).map Query.bindingLists).selectBindings
      = (Query.mk c).aggregated := by
    unfold Clauses.selectBindings
    cases head : c.aggregate with
    | none =>
      simp [constantRow, Clauses.map, head, Query.aggregated, Query.bindingClauses, Query.clauses,
        Term.map, Term.bindings]
    | some a =>
      cases distinct : c.distinct <;>
        simp [constantRow, Clauses.map, head, distinct, Query.aggregated, Query.bindingClauses,
          Query.clauses, aggregateBindings, Term.map, Term.bindings]
  have lists : ((constantRow e c).map Query.bindingLists).bindingLists
      = { (Query.mk c).bindingLists with
          select := ((constantRow e c).map Query.bindingLists).selectBindings } := by
    rw [Query.bindingLists_mk]
    rfl
  rw [lists, select]
  simp [BindingLists.flatten, BindingLists.flattenExcept, BindingLists.flattenOnly,
    BindingCategory.all, BindingLists.get]

theorem existsBindings_eq (q : Query) (dialect : e.dialect = .sqlserver) :
    e.existsBindings q = q.bindingLists.flattenOnly [.unionCtes, .ctes]
      ++ q.bindingLists.flattenExcept [.unionCtes, .ctes, .select] := by
  simp [existsBindings, dialect, BindingLists.flattenExcept, BindingLists.flattenOnly,
    BindingCategory.all]

variable (he : Clean e.settings.tablePrefix.toList)
include he

/-- Around the select of a query there is only the name of the answer. -/
theorem existsSql_binds {c : Clauses Query} (h : c.Sound e) (dialect : e.dialect ≠ .sqlserver) :
    Yields (Sql.Binds (c.map Query.bindingLists).bindingLists.flatten)
      (e.existsSql (c.map (Query.compiled e))) := by
  have answer : Yields (fun name => (Sql.ofText name).Aligned) (e.wrap "exists") :=
    aligned_wrap he (by decide)
  have wrapped : Yields (Sql.Binds (c.map Query.bindingLists).bindingLists.flatten) (do
      let select ← e.selectSql (c.map (Query.compiled e))
      let name ← e.wrap "exists"
      return "select exists(" ++ select ++ ") as " ++ Sql.ofText name) := by
    refine (selectSql_binds he h).bind fun select found => answer.bind fun name named =>
      yields_pure.mpr ⟨?_, ?_⟩
    · simp +decide [found.aligned, named]
    · simp [found.bindings_eq]
  unfold existsSql
  split
  · next server => exact absurd server dialect
  · exact wrapped

/-- SQL Server writes the values of an aggregate behind those of the with-expressions. -/
theorem existsSql_binds_constantRow {c : Clauses Query} (h : c.Sound e)
    (dialect : e.dialect = .sqlserver) :
    Yields (Sql.Binds ((Query.mk c).bindingLists.flattenOnly [.unionCtes, .ctes]
        ++ (Query.mk c).aggregated
        ++ (Query.mk c).bindingLists.flattenExcept [.unionCtes, .ctes, .select]))
      (e.existsSql (c.map (Query.compiled e))) := by
  rw [← flatten_constantRow (e := e)]
  have constant := selectSql_binds he (sound_constantRow h)
  simpa [existsSql, dialect, constantRow, Clauses.map, Term.map] using constant

/-- A test for rows binds its values where it writes them, unless SQL Server writes those of an
aggregate. -/
theorem hasRows_matched_iff {q : Query} (hq : q.Hygienic) {s : Statement}
    (ok : e.hasRows q = .ok s) :
    s.Matched ↔ (e.dialect = .sqlserver → q.aggregated = []) := by
  obtain ⟨c⟩ := q
  have sound := sound_of_hygienic he hq
  obtain ⟨sql, written, ok⟩ := bind_ok ok
  obtain rfl := pure_ok ok
  by_cases dialect : e.dialect = .sqlserver
  · have found := existsSql_binds_constantRow he sound dialect sql written
    have listed := existsBindings_eq (.mk c) dialect
    constructor
    · intro matched _
      have lengths : sql.bindings.length = (e.existsBindings (.mk c)).length := by
        rw [← found.aligned.values_eq, matched.values]
      rw [found.bindings_eq, listed] at lengths
      simp only [List.length_append] at lengths
      exact List.eq_nil_of_length_eq_zero (by omega)
    · intro none
      rw [none dialect, List.append_nil, ← listed] at found
      exact matched_of_binds found
  · have found := existsSql_binds he sound dialect sql written
    rw [← Query.bindingLists_mk] at found
    have all : e.existsBindings (.mk c) = (Query.mk c).bindingLists.flatten := by
      unfold existsBindings
      split
      · next server => exact absurd server dialect
      all_goals rfl
    rw [all]
    exact ⟨fun _ server => absurd server dialect, fun _ => matched_of_binds found⟩

end Engine

/-- The number of large buyers and of their orders, of which nothing but conditions is bound. -/
def countedBuyers : Query := .mk
  { largeBuyers.clauses with
    aggregate := some { function := "count", columns := [] }
    unions := [{ query := largeOrders, all := true }] }

theorem hygienic_countedBuyers : countedBuyers.Hygienic := by
  obtain ⟨own, inside⟩ := hygienic_largeBuyers
  refine .mk { own with aggregate := ?_, ordered := fun _ => rfl } ?_
  · simp [Aggregate.Hygienic]
    decide
  · have inner : largeOrders.Everywhere Clauses.Hygienic := hygienic_largeOrders
    simpa [Clauses.queries, Aggregate.queries, Term.queries, Where.queries, Predicate.queries,
      largeBuyers, Query.clauses] using inner

theorem countedBuyers_matched :
    ∃ s, (Engine.mk .sqlserver {}).hasRows countedBuyers = .ok s ∧ s.Matched ∧
      s.bindings = [.int 100, .text "open", .int 100, .text "open"] :=
  ⟨_, rfl, (Engine.hasRows_matched_iff (e := .mk .sqlserver {}) (by decide) hygienic_countedBuyers
    rfl).mpr fun _ => rfl, rfl⟩

/-- The number of votes that are not zero, the zero being bound. -/
def castVotes : Query := .mk
  { aggregate := some { function := "count", columns := [.raw "nullif(votes, ?)" [.int 0]] }
    source := some (.name "users") }

theorem castVotes_unmatched : castVotes.Hygienic ∧
    ∃ s, (Engine.mk .sqlserver {}).hasRows castVotes = .ok s ∧
      s.sql.text = "select count(nullif(votes, ?)) as aggregate from [users]" ∧
      s.bindings = [] ∧ ¬ s.Matched := by
  refine ⟨.mk ?_ (by simp [Clauses.queries, Aggregate.queries, Term.queries]), _, rfl, by decide,
    rfl, fun matched => ?_⟩
  · constructor <;> simp [Aggregate.Hygienic, Distinct.Hygienic, Term.Hygienic] <;> decide
  · have one := matched.count
    revert one
    decide

end SqlCompiler
