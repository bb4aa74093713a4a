import SqlCompiler.Proofs.AlignedSelects
import SqlCompiler.Statement
/-!
# Select statements bind their values

A hygienic query compiles to parts that are aligned and carry the lists of the query: they bind
them. The values of its select statement are then one for each placeholder, in order.
-/

namespace SqlCompiler

open Substitute

/-- The parts of a compiled query bind what its lists hold for them. -/
structure Compiled.Binds (k : Compiled) (lists : BindingLists) : Prop where
  select : Yields (Sql.Binds lists.flatten) k.select
  joins : BindsAll k.joins lists.join
  wheres : BindsAll (k.wheres.map Prod.snd) lists.wheres
  havings : BindsAll (k.havings.map Prod.snd) lists.havings

/-- The parts that a query compiles to bind the lists of the query. -/
def Query.Parity (e : Engine) (q : Query) : Prop :=
  (q.compiled e).Binds q.bindingLists

/-- Hygienic clauses over queries that bind their lists. -/
structure Clauses.Sound (e : Engine) (c : Clauses Query) : Prop where
  hygienic : c.Hygienic
  within : c.Within (Query.Parity e)

section Parity

variable {k : Compiled} {lists : BindingLists}

theorem Compiled.Aligned.binds (h : k.Aligned) (carried : k.Carries lists) : k.Binds lists where
  select := h.select.binds carried.select
  joins := carried.joins.binds h.joins
  wheres := carried.wheres.binds h.wheres
  havings := carried.havings.binds h.havings

theorem Compiled.Binds.aligned (h : k.Binds lists) : k.Aligned where
  select sql ok := (h.select sql ok).aligned
  joins := h.joins.aligned
  wheres := h.wheres.aligned
  havings := h.havings.aligned

theorem Compiled.Binds.carries (h : k.Binds lists) : k.Carries lists where
  select sql ok := (h.select sql ok).carries
  joins := h.joins.carries
  wheres := h.wheres.carries
  havings := h.havings.carries

end Parity

namespace Clauses.Sound

variable {e : Engine} {c : Clauses Query} (h : c.Sound e)
include h

theorem aligned : c.Within fun q => (q.compiled e).Aligned :=
  Clauses.within fun q member => (h.within.queries q member).aligned

theorem carried : c.Carried e where
  counted := h.hygienic.counted
  within := Clauses.within fun q member => (h.within.queries q member).carries

end Clauses.Sound

/-- The values of a statement belong to its placeholders, one to each and in their order. -/
structure Statement.Matched (s : Statement) : Prop where
  /-- A scan of the text takes exactly the emitted placeholders for placeholders. -/
  places : marks false s.sql.text.toList = s.sql.emitted.map Option.isSome
  /-- From left to right they were emitted for the values. -/
  values : s.sql.emitted.filterMap id = s.bindings
  count : (marks false s.sql.text.toList).count true = s.bindings.length

theorem matched_of_binds {sql : Sql} {values : List Binding} (h : sql.Binds values) :
    Statement.Matched { sql, bindings := values } where
  places := h.aligned.marks_eq
  values := h.aligned.values_eq.trans h.bindings_eq
  count := by
    have lengths : ∀ emitted : List (Option Binding),
        (emitted.map Option.isSome).count true = (emitted.filterMap id).length := by
      intro emitted
      induction emitted with
      | nil => rfl
      | cons value emitted ih => cases value <;> simp [ih]
    rw [h.aligned.marks_eq, lengths, h.aligned.values_eq, h.bindings_eq]

theorem yields_matched {sql : Outcome} {bindings : Except CompileError (List Binding)}
    {values : List Binding} (hs : Yields (Sql.Binds values) sql)
    (hb : Yields (fun found => found = values) bindings) :
    Yields (fun s : Statement => s.Matched ∧ s.bindings = values) (do
      let sql ← sql
      let bindings ← bindings
      return { sql, bindings }) := by
  refine hs.bind fun sql found => hb.bind fun bindings same => ?_
  subst same
  exact yields_pure.mpr ⟨matched_of_binds found, rfl⟩

namespace Engine

variable {e : Engine} (he : Clean e.settings.tablePrefix.toList)
include he

section Column

variable {t : Term Query} (ht : t.Hygienic) (ih : ∀ q ∈ t.queries, q.Parity e)
include ht ih

theorem column_binds :
    Yields (Sql.Binds (t.map Query.bindingLists).bindings)
      (e.column (t.map (Query.compiled e))) :=
  (column_aligned he ht fun q member => (ih q member).aligned).binds
    (column_carries ht.counted fun q member => (ih q member).carries)

theorem table_binds :
    Yields (Sql.Binds (t.map Query.bindingLists).bindings)
      (e.table (t.map (Query.compiled e))) :=
  (table_aligned he ht fun q member => (ih q member).aligned).binds
    (table_carries ht.counted fun q member => (ih q member).carries)

theorem dateTest_binds {operator : String} (ho : Clean operator.toList) {value : Param}
    (hv : value.Hygienic) (part : DatePart) :
    Yields (Sql.Binds ((t.map Query.bindingLists).bindings ++ boundValues [value]))
      (e.dateTest part (t.map (Query.compiled e)) operator value) :=
  (dateTest_aligned he ht (fun q member => (ih q member).aligned) ho hv part).binds
    (dateTest_carries ht.counted (fun q member => (ih q member).carries) operator value part)

end Column

theorem columnList_binds {terms : List (Term Query)} (h : ∀ t ∈ terms, t.Hygienic)
    (ih : ∀ q ∈ terms.flatMap Term.queries, q.Parity e) :
    Yields (Sql.Binds ((terms.map (Term.map Query.bindingLists)).flatMap Term.bindings))
      (e.columnList (terms.map (Term.map (Query.compiled e)))) :=
  (columnList_aligned he h fun q member => (ih q member).aligned).binds
    (columnList_carries (fun t member => (h t member).counted)
      fun q member => (ih q member).carries)

theorem nameList_binds {names : List String} (h : ∀ name ∈ names, Clean name.toList) :
    Yields (Sql.Binds []) (e.nameList names) :=
  (nameList_aligned he h).binds (nameList_carries names)

theorem joinSql_binds {j : Join Query} (hj : j.Hygienic) (ih : ∀ q ∈ j.queries, q.Parity e) :
    Yields (Sql.Binds (j.map Query.bindingLists).bindings)
      (e.joinSql (j.map (Query.compiled e))) :=
  (joinSql_aligned he hj fun q member => (ih q member).aligned).binds
    (joinSql_carries ⟨hj.1.counted, hj.2⟩ fun q member => (ih q member).carries)

section Clauses

variable {c : Clauses Query} (h : c.Sound e)
include h

theorem joinsSql_binds :
    Yields (Sql.Binds (c.map Query.bindingLists).bindingLists.join)
      (e.joinsSql (c.map (Query.compiled e)).joins) :=
  (joinsSql_aligned he h.hygienic.joins h.aligned.joins).binds
    (joinsSql_carries h.carried.counted.joins h.carried.within.joins)

theorem wheresSql_binds :
    Yields (Sql.Binds (c.map Query.bindingLists).bindingLists.wheres)
      (e.wheresSql (c.map (Query.compiled e)).wheres) :=
  (wheresSql_aligned he h.hygienic.wheres h.aligned.wheres).binds
    (wheresSql_carries h.carried.counted.wheres h.carried.within.wheres)

theorem orderList_binds :
    Yields (Sql.Binds (c.map Query.bindingLists).bindingLists.orders)
      (e.orderList (c.map (Query.compiled e)).orders) :=
  (orderList_aligned he h.hygienic.orders h.aligned.orders).binds
    (orderList_carries h.carried.counted.orders h.carried.within.orders)

theorem withCtes_binds {values : List Binding} {sql : Sql} (hs : Sql.Binds values sql) :
    Yields (Sql.Binds ((c.map Query.bindingLists).bindingLists.ctes ++ values))
      (e.withCtes (c.map (Query.compiled e)).ctes sql) :=
  (withCtes_aligned he h.hygienic.ctes h.aligned.ctes hs.aligned).binds
    (withCtes_carries h.carried.counted.ctes h.carried.within.ctes hs.carries)

theorem selectSql_binds :
    Yields (Sql.Binds (c.map Query.bindingLists).bindingLists.flatten)
      (e.selectSql (c.map (Query.compiled e))) :=
  (selectSql_aligned he h.hygienic h.aligned).binds (selectSql_carries h.carried)

end Clauses

/-- Everything that a hygienic query compiles to binds what the query does. -/
theorem parity_of_hygienic {q : Query} (hq : q.Hygienic) : q.Parity e :=
  (aligned_of_hygienic he hq).binds (carried_of_counted hq.counted)

theorem sound_of_hygienic {c : Clauses Query} (hq : (Query.mk c).Hygienic) : c.Sound e := by
  obtain @⟨_, own, inside⟩ := hq
  exact ⟨own, Clauses.within fun q member => parity_of_hygienic he (inside q member)⟩

theorem select_matched {q : Query} (hq : q.Hygienic) {s : Statement} (ok : e.select q = .ok s) :
    s.Matched ∧ s.bindings = q.bindings :=
  yields_matched (parity_of_hygienic he hq).select (yields_ok.mpr rfl) s ok

end Engine

/-- Orders above a total, with a question mark in a literal. -/
def largeOrders : Query := .mk
  { columns := some [.name "user_id"]
    source := some (.name "orders")
    wheres := [{ predicate := .basic (.name "total") ">" (.value (.int 100)) },
      { conjunction := .or, predicate := .raw "note = 'why?' and state = ?" [.text "open"] }] }

/-- The users who placed one of them. -/
def largeBuyers : Query := .mk
  { columns := some [.name "u.id", .raw "? as kind" [.text "buyer"]]
    source := some (.name "users as u")
    wheres := [{ predicate := .sub (.name "u.id") "in" largeOrders }] }

theorem hygienic_largeOrders : largeOrders.Hygienic := by
  refine .mk ?_ (by simp [Clauses.queries, Term.queries, Where.queries, Predicate.queries])
  constructor <;> simp [Distinct.Hygienic, Term.Hygienic, Where.Hygienic, Predicate.Hygienic,
    Param.Hygienic] <;> decide

theorem hygienic_largeBuyers : largeBuyers.Hygienic := by
  refine .mk ?_ ?_
  · constructor <;> simp [Distinct.Hygienic, Term.Hygienic, Where.Hygienic, Predicate.Hygienic] <;>
      decide
  · have inner : largeOrders.Everywhere Clauses.Hygienic := hygienic_largeOrders
    simpa [Clauses.queries, Term.queries, Where.queries, Predicate.queries] using inner

theorem largeBuyers_matched : ∃ s, (Engine.mk .mysql {}).select largeBuyers = .ok s ∧ s.Matched ∧
    s.bindings = [.text "buyer", .int 100, .text "open"] :=
  ⟨_, rfl, (Engine.select_matched (e := .mk .mysql {}) (by decide) hygienic_largeBuyers rfl).1, rfl⟩

end SqlCompiler
