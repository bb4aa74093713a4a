import Mathlib.Data.List.Basic
import SqlCompiler.Proofs.Reductions
/-!
# Tests for membership in an empty list

Such a test is a constant and does not show its column. Its values are those of the column all the
same, so a statement binds what it shows if no column that is tested so binds anything.
-/

namespace SqlCompiler

open Substitute

section Settled

variable {Q : Type}

/-- The column that is looked for in an empty list. -/
def Predicate.emptyList? : Predicate Q → Option (Term Q)
  | .among column [] | .amongIntegers column [] => some column
  | _ => none

/-- Without the column of a test that does not show it. -/
def Predicate.settled : Predicate Q → Predicate Q
  | .among _ [] => .among (.name "") []
  | .amongIntegers _ [] => .amongIntegers (.name "") []
  | p => p

def Where.settled (w : Where Q) : Where Q :=
  { w with predicate := w.predicate.settled }

def Clauses.settled (c : Clauses Q) : Clauses Q :=
  { c with wheres := c.wheres.map Where.settled }

theorem Predicate.emptyList?_cases {p : Predicate Q} {column : Term Q}
    (empty : p.emptyList? = some column) :
    p = .among column [] ∨ p = .amongIntegers column [] := by
  unfold emptyList? at empty
  split at empty
  · exact .inl (by rw [Option.some.inj empty])
  · exact .inr (by rw [Option.some.inj empty])
  · cases empty

theorem Predicate.settled_map {A B : Type} (f : A → B) (p : Predicate A) :
    (p.map f).settled = p.settled.map f := by
  cases p with
  | among column values | amongIntegers column values => cases values <;> rfl
  | _ => rfl

theorem Predicate.settled_cases (p : Predicate Q) :
    (∃ column, p.emptyList? = some column) ∨ p.settled = p := by
  unfold emptyList? settled
  split
  · exact .inl ⟨_, rfl⟩
  · exact .inl ⟨_, rfl⟩
  · exact .inr rfl

end Settled

/-- A test for membership in an empty list shows no placeholder, so its values are missing unless
its column binds none. -/
theorem Engine.emptyList_matched_iff {e : Engine} {w : Where Query} {column : Term Query}
    (empty : w.predicate.emptyList? = some column) :
    ∃ sql, (e.whereClause (w.map (Query.compiled e))).2 = .ok sql ∧
      (marks false sql.text.toList).count true = 0 ∧
      (Statement.Matched { sql, bindings := (w.map Query.bindingLists).bindings }
        ↔ column.Unbound) := by
  have bound : (w.map Query.bindingLists).bindings = (column.map Query.bindingLists).bindings := by
    rcases Predicate.emptyList?_cases empty with test | test <;>
      simp [Where.map, Where.bindings, test, Predicate.map, Predicate.bindings, boundValues]
  have constant : Sql.Binds [] (emptyListTest w.negated) := by
    cases w.negated <;> exact Sql.binds_ofText (Sql.aligned_ofText.mpr (by decide))
  refine ⟨emptyListTest w.negated, ?_, (matched_of_binds constant).count, ?_⟩
  · rcases Predicate.emptyList?_cases empty with test | test <;>
      simp [whereClause, Where.map, test, Predicate.map, whereTest]
  · rw [matched_iff_of_binds constant, bound]
    exact eq_comm

theorem Engine.whereTest_settled (e : Engine) (negated : Bool) (p : Predicate Query) :
    e.whereTest negated (p.settled.map (Query.compiled e))
      = e.whereTest negated (p.map (Query.compiled e)) := by
  rcases p.settled_cases with ⟨column, empty⟩ | same
  · rcases Predicate.emptyList?_cases empty with rfl | rfl <;> rfl
  · rw [same]

theorem Predicate.bindings_settled (p : Predicate Query) :
    (p.settled.map Query.bindingLists).bindings.Sublist (p.map Query.bindingLists).bindings := by
  rcases p.settled_cases with ⟨column, empty⟩ | same
  · rcases Predicate.emptyList?_cases empty with rfl | rfl <;> exact List.nil_sublist _
  · rw [same]

/-- To leave out the columns that are looked for in empty lists. -/
def settling : Reduction where
  reduce := Clauses.settled
  compiled_reduce e c := by
    refine Engine.compiled_congr (e := e) (c := c.map (Query.compiled e)) rfl ?_
    simp only [Clauses.map, Clauses.settled, List.map_map]
    refine List.map_congr_left fun w _ => Prod.ext rfl ?_
    exact e.whereTest_settled w.negated w.predicate
  fewer_reduce c category := by
    cases category with
    | wheres =>
      simp only [BindingLists.get, Clauses.bindingLists, Clauses.map, Clauses.settled,
        List.flatMap_map]
      exact List.Sublist.flatMap_right _ fun w _ => w.predicate.bindings_settled
    | _ => exact List.Sublist.refl _

/-- A query, and the queries inside it, without the columns that are looked for in empty lists. -/
def Query.settled (q : Query) : Query :=
  settling.apply q

/-! ### Where conditions stand -/

/-- A query collects the values of a condition: it is one of its own conditions, or stands in a
group of them, in a query that one of them tests, behind a join, or in a query that is selected
from. -/
inductive Query.Collects (w : Where Query) : BindingCategory → Query → Prop
  | own {c : Clauses Query} (member : w ∈ c.wheres) : (mk c).Collects w .wheres
  | grouped {c : Clauses Query} {v : Where Query} {q : Query} (member : v ∈ c.wheres)
      (group : v.predicate = .nested q) (inside : q.Collects w .wheres) : (mk c).Collects w .wheres
  | tested {c : Clauses Query} {v : Where Query} {q : Query} {category : BindingCategory}
      (member : v ∈ c.wheres) (apart : v.predicate ≠ .nested q) (test : q ∈ v.queries)
      (inside : q.Collects w category) : (mk c).Collects w .wheres
  | joined {c : Clauses Query} {j : Join Query} {q : Query} {category : BindingCategory}
      (member : j ∈ c.joins) (table : q ∈ j.queries) (inside : q.Collects w category) :
      (mk c).Collects w .join
  | selected {c : Clauses Query} {t : Term Query} {q : Query} {category : BindingCategory}
      (source : t ∈ c.source) (table : q ∈ t.queries) (inside : q.Collects w category) :
      (mk c).Collects w .source

section Missing

variable {f g : Query → BindingLists}

theorem Term.flatten_eq {t : Term Query} (same : (t.map f).bindings = (t.map g).bindings) :
    ∀ q ∈ t.queries, (f q).flatten = (g q).flatten := by
  cases t with
  | name | raw => simp [Term.queries]
  | sub query aliasName => simpa [Term.queries, Term.map, Term.bindings] using same

theorem Term.flatten_eq_list {ts : List (Term Query)}
    (fewer : ∀ q ∈ ts.flatMap Term.queries, (f q).Fewer (g q))
    (same : (ts.map (Term.map f)).flatMap Term.bindings
      = (ts.map (Term.map g)).flatMap Term.bindings) :
    ∀ q ∈ ts.flatMap Term.queries, (f q).flatten = (g q).flatten := by
  rw [List.flatMap_map, List.flatMap_map] at same
  have each := flatMap_inj_of_sublist (fun t member => Term.bindings_fewer fun q inside =>
    fewer q (List.mem_flatMap.mpr ⟨t, member, inside⟩)) same
  intro q member
  obtain ⟨t, among, inside⟩ := List.mem_flatMap.mp member
  exact Term.flatten_eq (each t among) q inside

/-- A condition that misses no values misses none of a query that it tests. -/
theorem Predicate.flatten_eq {p : Predicate Query} (fewer : ∀ q ∈ p.queries, (f q).Fewer (g q))
    (same : (p.map f).bindings = (p.map g).bindings) {q : Query} (inside : q ∈ p.queries)
    (apart : p ≠ .nested q) : (f q).flatten = (g q).flatten := by
  cases p with
  | raw | expression | jsonBoolean | jsonContains | jsonContainsKey | jsonLength => cases inside
  | basic | bitwise | among | between | datePart =>
    exact Term.flatten_eq (List.append_cancel_right same) q inside
  | amongIntegers | null => exact Term.flatten_eq same q inside
  | betweenColumns column low high =>
    simp only [Predicate.queries, List.forall_mem_append] at fewer
    obtain ⟨⟨fewerColumn, fewerLow⟩, fewerHigh⟩ := fewer
    have fewerFirst := Term.bindings_fewer fewerColumn
    obtain ⟨first, high⟩ := append_inj_of_sublist
      (fewerFirst.append (Term.bindings_fewer fewerLow)) (Term.bindings_fewer fewerHigh) same
    obtain ⟨column, low⟩ := append_inj_of_sublist fewerFirst (Term.bindings_fewer fewerLow) first
    simp only [Predicate.queries, List.mem_append] at inside
    rcases inside with (inside | inside) | inside
    · exact Term.flatten_eq column q inside
    · exact Term.flatten_eq low q inside
    · exact Term.flatten_eq high q inside
  | compareColumns first operator second =>
    simp only [Predicate.queries, List.forall_mem_append] at fewer
    obtain ⟨first, second⟩ := append_inj_of_sublist (Term.bindings_fewer fewer.1)
      (Term.bindings_fewer fewer.2) same
    rcases List.mem_append.mp inside with inside | inside
    · exact Term.flatten_eq first q inside
    · exact Term.flatten_eq second q inside
  | nested query =>
    obtain rfl := List.mem_singleton.mp inside
    exact absurd rfl apart
  | hasRows query =>
    obtain rfl := List.mem_singleton.mp inside
    exact same
  | sub column operator query =>
    simp only [Predicate.queries, List.forall_mem_append, List.forall_mem_singleton] at fewer
    obtain ⟨column, select⟩ := append_inj_of_sublist (Term.bindings_fewer fewer.1)
      fewer.2.flatten same
    rcases List.mem_append.mp inside with inside | inside
    · exact Term.flatten_eq column q inside
    · obtain rfl := List.mem_singleton.mp inside
      exact select
  | rowValues | fulltext =>
    exact Term.flatten_eq_list fewer (List.append_cancel_right same) q inside

theorem Join.flatten_eq {j : Join Query} (fewer : ∀ q ∈ j.queries, (f q).Fewer (g q))
    (same : (j.map f).bindings = (j.map g).bindings) :
    ∀ q ∈ j.queries, (f q).flatten = (g q).flatten := by
  simp only [Join.queries, List.forall_mem_append, List.forall_mem_singleton] at fewer ⊢
  obtain ⟨table, clause⟩ := append_inj_of_sublist (Term.bindings_fewer fewer.1)
    fewer.2.flatten same
  exact ⟨Term.flatten_eq table, clause⟩

end Missing

namespace Query

theorem settled_mk (c : Clauses Query) : (mk c).settled = mk (c.map settled).settled :=
  settling.apply_mk c

theorem fewer_settled (q : Query) : q.settled.bindingLists.Fewer q.bindingLists :=
  settling.fewer_apply q

variable {c : Clauses Query}

/-- If the conditions of a query miss no values, none of them does. -/
theorem where_bindings_eq
    (same : (mk c).settled.bindingLists.wheres = (mk c).bindingLists.wheres) {w : Where Query}
    (member : w ∈ c.wheres) :
    (((w.map settled).predicate.settled).map bindingLists).bindings
        = (w.predicate.map bindingLists).bindings ∧
      (w.predicate.map fun q => q.settled.bindingLists).bindings
        = (w.predicate.map bindingLists).bindings := by
  have shown (v : Where Query) :
      ((v.predicate.map settled).settled.map bindingLists).bindings.Sublist
        (v.predicate.map fun q => q.settled.bindingLists).bindings := by
    simpa using (v.predicate.map settled).bindings_settled
  have nested (v : Where Query) :
      (v.predicate.map fun q => q.settled.bindingLists).bindings.Sublist
        (v.predicate.map bindingLists).bindings :=
    Predicate.bindings_fewer fun q _ => q.fewer_settled
  rw [settled_mk, bindingLists_mk, bindingLists_mk] at same
  simp only [Clauses.bindingLists, Clauses.map, Clauses.settled, List.flatMap_map] at same
  have whole := flatMap_inj_of_sublist (fun v _ => (shown v).trans (nested v)) same w member
  refine ⟨whole, (nested w).eq_of_length_le ?_⟩
  rw [← whole]
  exact (shown w).length_le

theorem join_bindings_eq (same : (mk c).settled.bindingLists.join = (mk c).bindingLists.join)
    {j : Join Query} (member : j ∈ c.joins) :
    (j.map fun q => q.settled.bindingLists).bindings = (j.map bindingLists).bindings := by
  rw [settled_mk, bindingLists_mk, bindingLists_mk] at same
  simp only [Clauses.bindingLists, Clauses.map, Clauses.settled, List.flatMap_map,
    Join.map_map] at same
  exact flatMap_inj_of_sublist (fun j _ => Join.bindings_fewer fun q _ => q.fewer_settled) same
    j member

theorem source_bindings_eq
    (same : (mk c).settled.bindingLists.source = (mk c).bindingLists.source) {t : Term Query}
    (member : t ∈ c.source) :
    (t.map fun q => q.settled.bindingLists).bindings = (t.map bindingLists).bindings := by
  rw [settled_mk, bindingLists_mk, bindingLists_mk] at same
  simpa [Clauses.bindingLists, Clauses.map, Clauses.settled, Option.mem_def.mp member] using same

/-- Where no value is missing from what a query collects, no column that is looked for in an empty
list binds any. -/
theorem Collects.unbound {q : Query} {w : Where Query} {category : BindingCategory}
    (h : q.Collects w category)
    (same : q.settled.bindingLists.get category = q.bindingLists.get category)
    {column : Term Query} (empty : w.predicate.emptyList? = some column) : column.Unbound := by
  induction h with
  | @own c member =>
    have missing := (where_bindings_eq same member).1
    rcases Predicate.emptyList?_cases empty with test | test <;>
      simpa [Where.map, test, Predicate.map, Predicate.settled, Predicate.bindings, Term.map,
        Term.bindings, boundValues, Term.Unbound] using missing.symm
  | @grouped c v q member group inside ih =>
    have kept := (where_bindings_eq same member).2
    rw [group] at kept
    exact ih kept
  | @tested c v q category member apart test inside ih =>
    have kept := (where_bindings_eq same member).2
    exact ih (q.fewer_settled.get_eq
      (Predicate.flatten_eq (fun q _ => q.fewer_settled) kept test apart) category)
  | @joined c j q category member table inside ih =>
    have kept := join_bindings_eq same member
    exact ih (q.fewer_settled.get_eq
      (Join.flatten_eq (fun q _ => q.fewer_settled) kept q table) category)
  | @selected c t q category source table inside ih =>
    have kept := source_bindings_eq same source
    exact ih (q.fewer_settled.get_eq (Term.flatten_eq kept q table) category)

/-- No column that is looked for in an empty list binds anything, in no query. -/
def EmptyListsUnbound (q : Query) : Prop :=
  q.Everywhere fun c => ∀ w ∈ c.wheres, ∀ column ∈ w.predicate.emptyList?, column.Unbound

theorem EmptyListsUnbound.bindingLists_eq {q : Query} (h : q.EmptyListsUnbound) :
    q.settled.bindingLists = q.bindingLists := by
  refine settling.bindingLists_apply_eq (fun c f own ih => ?_) h
  have within := Clauses.within ih
  have mapped : c.map (fun q => (f q).bindingLists) = c.map bindingLists := Clauses.map_congr ih
  have kept : ∀ w ∈ c.wheres, (w.predicate.settled.map fun q => (f q).bindingLists).bindings
      = (w.predicate.map bindingLists).bindings := by
    intro w member
    rcases w.predicate.settled_cases with ⟨column, empty⟩ | same
    · have unbound := own w member column empty
      rcases Predicate.emptyList?_cases empty with test | test <;>
        simpa [test, Predicate.settled, Predicate.map, Predicate.bindings, Term.map, Term.bindings,
          boundValues] using unbound.symm
    · rw [same, Predicate.map_congr (within.wheres w member)]
  have wheres : (((c.map f).settled.map bindingLists).wheres).flatMap Where.bindings
      = ((c.map bindingLists).wheres).flatMap Where.bindings := by
    simp only [Clauses.map, Clauses.settled, List.map_map, List.flatMap_map]
    refine List.flatMap_congr fun w member => ?_
    simpa [Where.bindings, Where.map, Where.settled, Predicate.settled_map] using kept w member
  have others : ((c.map f).settled.map bindingLists).bindingLists
      = { (c.map fun q => (f q).bindingLists).bindingLists with
          wheres := (((c.map f).settled.map bindingLists).wheres).flatMap Where.bindings } := by
    rw [← Clauses.map_map f bindingLists c]
    rfl
  exact others.trans (by rw [mapped, wheres]; rfl)

end Query

namespace Engine

variable {e : Engine} (he : Clean e.settings.tablePrefix.toList)
include he

/-- The values of a statement are those that it shows if no column that is looked for in an empty
list binds any, wherever the test stands. -/
theorem emptyLists_matched_iff {q : Query} (hq : q.settled.Hygienic) {s : Statement}
    (ok : e.select q = .ok s) :
    Statement.Matched { s with bindings := q.settled.bindings } ∧
    q.settled.bindings.Sublist q.bindings ∧
    (s.Matched ↔ q.settled.bindings = q.bindings) ∧
    (q.EmptyListsUnbound → s.Matched) ∧
    (s.Matched → ∀ w category, q.Collects w category → ∀ column ∈ w.predicate.emptyList?,
      column.Unbound) := by
  have matched : s.Matched ↔ q.settled.bindings = q.bindings :=
    settling.matched_iff_bindings_apply he hq ok
  refine ⟨matched_of_binds (settling.binds_apply he hq ok), settling.bindings_apply q, matched,
    fun unbound => matched.mpr ?_, fun found w category collects column empty => ?_⟩
  · exact congrArg BindingLists.flatten unbound.bindingLists_eq
  · exact collects.unbound (q.fewer_settled.get_eq (matched.mp found) category) empty

end Engine

/-- Users above a number of votes whose name is in no list. -/
def unlistedVoters : Query := .mk
  { source := some (.name "users")
    wheres := [{ negated := true, predicate := .among (.name "name") [] },
      { predicate := .basic (.name "votes") ">" (.value (.int 100)) }] }

theorem hygienic_unlistedVoters : unlistedVoters.settled.Hygienic := by
  have settled : unlistedVoters.settled = .mk
      { source := some (.name "users")
        wheres := [{ negated := true, predicate := .among (.name "") [] },
          { predicate := .basic (.name "votes") ">" (.value (.int 100)) }] } := rfl
  rw [settled]
  refine .mk ?_ (by simp [Clauses.queries, Term.queries, Where.queries, Predicate.queries])
  constructor <;> simp [Term.Hygienic, Where.Hygienic, Predicate.Hygienic, Param.Hygienic,
    Distinct.Hygienic, Term.Unbound, Term.map, Term.bindings] <;> decide

theorem unlistedVoters_matched : ∃ s, (Engine.mk .mysql {}).select unlistedVoters = .ok s ∧
    s.sql.text = "select * from `users` where 1 = 1 and `votes` > ?" ∧ s.Matched := by
  have unbound : unlistedVoters.EmptyListsUnbound := by
    refine .mk ?_ (by simp [Clauses.queries, Term.queries, Where.queries, Predicate.queries])
    simp [Predicate.emptyList?, Term.Unbound, Term.map, Term.bindings]
  exact ⟨_, rfl, by decide, (Engine.emptyLists_matched_iff (e := .mk .mysql {}) (by decide)
    hygienic_unlistedVoters rfl).2.2.2.1 unbound⟩

/-- Users whose name is another in small letters, of which the list is empty. -/
def unlistedNames : Query := .mk
  { source := some (.name "users")
    wheres := [{ predicate := .among (.raw "lower(?)" [.text "A"]) [] }] }

theorem unlistedNames_unmatched : unlistedNames.settled.Hygienic ∧
    (Term.raw "lower(?)" [.text "A"]).Hygienic ∧
    ∃ s, (Engine.mk .generic {}).select unlistedNames = .ok s ∧
      s.sql.text = "select * from \"users\" where 0 = 1" ∧ s.bindings = [.text "A"] ∧
      ¬ s.Matched := by
  have settled : unlistedNames.settled = .mk
      { source := some (.name "users")
        wheres := [{ predicate := .among (.name "") [] }] } := rfl
  refine ⟨?_, ?_, _, rfl, by decide, rfl, fun matched => ?_⟩
  · rw [settled]
    refine .mk ?_ (by simp [Clauses.queries, Term.queries, Where.queries, Predicate.queries])
    constructor <;> simp [Term.Hygienic, Where.Hygienic, Predicate.Hygienic, Distinct.Hygienic,
      Term.Unbound, Term.map, Term.bindings]
    decide
  · unfold Term.Hygienic
    decide
  · have none := matched.count
    revert none
    decide

end SqlCompiler
