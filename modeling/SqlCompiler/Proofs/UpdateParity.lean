import SqlCompiler.Proofs.AssignmentParity
import SqlCompiler.Proofs.InsertParity
/-!
# Updates and deletes bind their values

The set list of an update stands behind its joins, before them, or around a select of row
identities, depending on the dialect; its values are listed where it stands.
-/

namespace SqlCompiler

open Substitute

/-- Clauses that pick the rows of a named table, and nothing that a write would not write out. -/
structure Clauses.PicksRows (c : Clauses Query) (name : String) : Prop where
  source : c.source = some (.name name)
  aggregate : c.aggregate = none
  groups : c.groups = []
  havings : c.havings = []
  /-- Not every write keeps the order of its rows. -/
  orders : ∀ o ∈ c.orders, (o.map Query.bindingLists).bindings = []
  unions : c.unions = []
  unionCtes : c.unionCtes = []

namespace Clauses

variable {c : Clauses Query} {name : String} (hw : c.PicksRows name)
include hw

theorem PicksRows.orders_eq :
    (c.orders.map (Order.map Query.bindingLists)).flatMap Order.bindings = [] := by
  rw [List.flatMap_map]
  exact List.flatMap_eq_nil_iff.mpr hw.orders

/-- Such clauses bind nothing but with-expressions, columns, joins and conditions. -/
theorem PicksRows.unbound (h : c.Hygienic) {lists : BindingLists}
    (same : lists = (c.map Query.bindingLists).bindingLists) :
    lists.unionCtes = [] ∧ lists.source = [] ∧ lists.groups = [] ∧ lists.havings = [] ∧
      lists.orders = [] ∧ lists.union = [] ∧ lists.unionOrders = [] := by
  have orders := hw.orders_eq
  have unionOrders := h.ordered hw.unions
  simp [same, bindingLists, map, hw.source, hw.groups, hw.havings, hw.unions, hw.unionCtes, orders,
    unionOrders, Term.map, Term.bindings]

end Clauses

namespace Engine

variable {e : Engine} (he : Clean e.settings.tablePrefix.toList)
include he

/-- The query for the rows that a write picks, by one column. -/
def identities {A : Type} (c : Clauses A) (column : String) : Clauses A :=
  { c with columns := some [.name column], ctes := [] }

omit he in
theorem sound_identities {c : Clauses Query} (h : c.Sound e) {column : String}
    (hc : Clean column.toList) : (identities c column).Sound e where
  hygienic := { h.hygienic with
    columns := by simpa [identities, Term.Hygienic] using hc
    ctes := by simp [identities] }
  within := { h.within with
    columns := by simp [identities, Term.queries]
    ctes := by simp [identities] }

/-- What the select of identities binds, whatever their column. -/
def identityBindings (c : Clauses BindingLists) : List Binding :=
  (identities c "").bindingLists.flatten

omit he in
theorem identityBindings_eq {c : Clauses Query} {name : String} (hw : c.PicksRows name)
    (h : c.Hygienic) :
    identityBindings (c.map Query.bindingLists) = (c.map Query.bindingLists).bindingLists.join
      ++ (c.map Query.bindingLists).bindingLists.wheres := by
  have orders := hw.orders_eq
  have unionOrders := h.ordered hw.unions
  simp [identityBindings, BindingLists.flatten, BindingLists.flattenOnly, BindingCategory.all,
    BindingLists.get, Clauses.bindingLists, Clauses.selectBindings, Clauses.map, identities,
    hw.source, hw.aggregate, hw.groups, hw.havings, hw.unions, hw.unionCtes, orders, unionOrders,
    Term.map, Term.bindings]

section Shared

variable {c : Clauses Query} (h : c.Sound e)
include h

theorem finished_binds {values : List Binding} {sql : Sql} (hs : Sql.Binds values sql) :
    Yields (Sql.Binds ((c.map Query.bindingLists).bindingLists.ctes ++ values))
      (e.finished (c.map (Query.compiled e)) sql) := by
  refine withCtes_binds he h ⟨hs.aligned.trimEnd, ?_⟩
  rw [Sql.bindings_trimEnd, hs.bindings_eq]

variable {name : String} (named : c.source = some (.name name))
include named

omit he in
theorem clean_source : Clean name.toList :=
  h.hygienic.source _ named

theorem target_binds :
    Yields (fun table => Sql.Binds [] table ∧ Clean (reference table).toList)
      (e.target (c.map (Query.compiled e)).source) := by
  have clean := clean_wrapTable he (clean_source h named)
  simp only [Clauses.map, named]
  refine yields_ok.mpr ⟨Sql.binds_ofText (Sql.aligned_ofText.mpr clean.holds), ?_⟩
  rw [reference, Sql.text_ofText]
  exact clean_referredTo clean

theorem rowIdSelect_binds {rowId : String} (hr : Clean rowId.toList) :
    Yields (Sql.Binds (identityBindings (c.map Query.bindingLists)))
      (e.rowIdSelect (c.map (Query.compiled e)) rowId) := by
  have there : Yields (fun there : String => Clean there.toList)
      (targetAlias (c.map (Query.compiled e)).source) := by
    simpa [Clauses.map, named, Term.map] using clean_targetAlias (clean_source h named)
  refine there.bind fun there clean => ?_
  have identity : Clean (there ++ "." ++ rowId).toList := by simp +decide [clean, hr]
  exact selectSql_binds he (sound_identities h identity)

omit named in
theorem withOrdersAndLimit_binds {values : List Binding} {sql : Sql} (hs : Sql.Binds values sql) :
    Yields (Sql.Binds (values ++ (c.map Query.bindingLists).bindingLists.orders))
      (e.withOrdersAndLimit (c.map (Query.compiled e)) sql) := by
  refine (orderList_binds he h).bind fun orders found => yields_pure.mpr ?_
  have written : ∀ limit, Sql.Binds [] limit →
      Sql.Binds (values ++ (c.map Query.bindingLists).bindingLists.orders)
        (Sql.join " " (sql.trimEnd :: [orders, limit].filter fun part => !part.isEmpty)) := by
    intro limit bare
    have aligned : ∀ part ∈ [orders, limit], part.Aligned := by simp [found.aligned, bare.aligned]
    have rear : Sql.CarryAll (c.map Query.bindingLists).bindingLists.orders [orders, limit] :=
      ⟨fun part member => (aligned part member).filled,
        by simp [found.bindings_eq, bare.bindings_eq]⟩
    refine ⟨Sql.aligned_join (by decide) fun part member => ?_, ?_⟩
    · rcases List.mem_cons.mp member with rfl | member
      · exact hs.aligned.trimEnd
      · exact aligned part (List.mem_filter.mp member).1
    · rw [Sql.bindings_join, List.flatMap_cons, rear.filter.bindings_eq, Sql.bindings_trimEnd,
        hs.bindings_eq]
  refine written _ ?_
  split
  · exact ⟨by simp +decide [aligned_natText], by simp⟩
  · exact Sql.binds_empty

end Shared

/-! ### Updates -/

omit he in
theorem byRowId_read {c : Clauses Compiled} {rowId : String} (h : e.byRowId? c = some rowId) :
    Clean rowId.toList ∧ (e.dialect = .postgres ∨ e.dialect = .sqlite) := by
  unfold byRowId? at h
  split at h
  · cases h
  · cases d : e.dialect <;> simp only [rowId?, d, reduceCtorEq, Option.some.injEq] at h <;>
      subst h <;> exact ⟨by decide, by simp⟩

omit he in
/-- Only dialects without identities of rows write joins out. -/
theorem dialect_of_joins {c : Clauses Compiled} (h : e.byRowId? c = none)
    (joined : ¬ c.joins.isEmpty = true) :
    e.dialect = .generic ∨ e.dialect = .mysql ∨ e.dialect = .sqlserver := by
  unfold byRowId? at h
  simp only [joined, Bool.false_and, Bool.false_eq_true, if_false] at h
  cases d : e.dialect <;> simp_all [rowId?]

omit he in
theorem join_of_isEmpty {c : Clauses Query} (h : (c.map (Query.compiled e)).joins.isEmpty = true) :
    (c.map Query.bindingLists).bindingLists.join = [] := by
  have none : c.joins = [] := by simpa [Clauses.map] using h
  simp [Clauses.bindingLists, Clauses.map, none]

/-- What MySQL writes behind the conditions of a write without joins. -/
def ordersBehind (e : Engine) (c : Clauses BindingLists) : List Binding :=
  if e.dialect = .mysql ∧ c.joins.isEmpty then c.bindingLists.orders else []

/-- What an update binds behind its with-expressions: the joins stand before the set list or after
it. -/
def assignedBindings (e : Engine) (lists : BindingLists) (set : List Binding) : List Binding :=
  match e.dialect with
  | .generic | .mysql => lists.join ++ set ++ lists.wheres
  | .postgres | .sqlite | .sqlserver => set ++ lists.join ++ lists.wheres

/-- The values of an update behind its with-expressions, as they are written. -/
def updatedBindings (e : Engine) (c : Clauses Query) (set : List Binding) : List Binding :=
  match e.byRowId? (c.map (Query.compiled e)) with
  | some _ => set ++ identityBindings (c.map Query.bindingLists)
  | none => assignedBindings e (c.map Query.bindingLists).bindingLists set
      ++ ordersBehind e (c.map Query.bindingLists)

/-- The values of a delete behind its with-expressions, as they are written. -/
def deletedBindings (e : Engine) (c : Clauses Query) : List Binding :=
  match e.byRowId? (c.map (Query.compiled e)) with
  | some _ => identityBindings (c.map Query.bindingLists)
  | none => (c.map Query.bindingLists).bindingLists.join
      ++ (c.map Query.bindingLists).bindingLists.wheres
      ++ ordersBehind e (c.map Query.bindingLists)

omit he in
theorem ordersBehind_of_joins {c : Clauses Query}
    (joined : ¬ (c.map (Query.compiled e)).joins.isEmpty = true) :
    ordersBehind e (c.map Query.bindingLists) = [] := by
  unfold ordersBehind
  rw [if_neg]
  simpa [Clauses.map] using fun _ => joined

omit he in
/-- Clauses that only pick rows have no orders to bind. -/
theorem ordersBehind_of_picksRows {c : Clauses Query} {name : String} (hw : c.PicksRows name) :
    ordersBehind e (c.map Query.bindingLists) = [] := by
  have orders := hw.orders_eq
  unfold ordersBehind
  split
  · simpa [Clauses.bindingLists, Clauses.map] using orders
  · rfl

variable {c : Clauses Query} (h : c.Sound e)
include h

theorem updateWithJoins_binds
    (dialect : e.dialect = .generic ∨ e.dialect = .mysql ∨ e.dialect = .sqlserver)
    {table columns wheres : Sql} (ht : Sql.Binds [] table) (refers : Clean (reference table).toList)
    (hset : columns.Aligned)
    (hwheres : Sql.Binds (c.map Query.bindingLists).bindingLists.wheres wheres) :
    Yields (Sql.Binds (assignedBindings e (c.map Query.bindingLists).bindingLists columns.bindings))
      (e.updateWithJoins (c.map (Query.compiled e)) table columns wheres) := by
  refine (joinsSql_binds he h).bind fun joins joined => ?_
  have word : (Sql.ofText (reference table)).Aligned := Sql.aligned_ofText.mpr refers.holds
  change Yields _ (if e.dialect = .sqlserver then _ else _)
  split
  · next d =>
    refine yields_pure.mpr ⟨?_, ?_⟩
    · simp +decide [word, hset, ht.aligned, joined.aligned, hwheres.aligned]
    · simp [assignedBindings, d, ht.bindings_eq, joined.bindings_eq, hwheres.bindings_eq]
  · refine yields_pure.mpr ⟨?_, ?_⟩
    · simp +decide [hset, ht.aligned, joined.aligned, hwheres.aligned]
    · rcases dialect with d | d | d <;>
        simp_all [assignedBindings, ht.bindings_eq, joined.bindings_eq, hwheres.bindings_eq]

theorem updateWithoutJoins_binds {table columns wheres : Sql} {values : List Binding}
    (alone : (c.map (Query.compiled e)).joins.isEmpty = true) (ht : Sql.Binds [] table)
    (hset : columns.Aligned) (hwheres : Sql.Binds values wheres) :
    Yields (Sql.Binds (columns.bindings ++ values ++ ordersBehind e (c.map Query.bindingLists)))
      (e.updateWithoutJoins (c.map (Query.compiled e)) table columns wheres) := by
  have written : Sql.Binds (columns.bindings ++ values)
      ("update " ++ table ++ " set " ++ columns ++ " " ++ wheres) := by
    refine ⟨?_, ?_⟩
    · simp +decide [ht.aligned, hset, hwheres.aligned]
    · simp [ht.bindings_eq, hwheres.bindings_eq]
  change Yields _ (if e.dialect = .mysql then _ else _)
  split
  · next d =>
    rw [ordersBehind, if_pos ⟨d, by simpa [Clauses.map] using alone⟩]
    exact withOrdersAndLimit_binds he h written
  · next d =>
    rw [ordersBehind, if_neg fun both => d both.1, List.append_nil]
    exact yields_ok.mpr written

section Named

variable {name : String} (named : c.source = some (.name name))
include named

/-- An update of a named table binds its values where it writes them. -/
theorem updateSql_writes {values : Row} {set : Sql} (found : e.setList values = .ok set)
    (hset : set.Aligned) :
    Yields (Sql.Binds ((c.map Query.bindingLists).bindingLists.ctes
        ++ updatedBindings e c set.bindings))
      (e.updateSql (c.map (Query.compiled e)) values) := by
  have columns : Yields (fun columns => set = columns) (e.setList values) := by simp [found]
  refine (target_binds he h named).bind fun table ⟨bare, refers⟩ => ?_
  refine columns.bind fun columns same => ?_
  subst same
  unfold updatedBindings
  cases picked : e.byRowId? (c.map (Query.compiled e)) with
  | some rowId =>
    have clean := (byRowId_read picked).1
    refine (aligned_wrap he clean).bind fun identity aligned => ?_
    refine (rowIdSelect_binds he h named clean).bind fun select inner => finished_binds he h ?_
    refine ⟨?_, ?_⟩
    · simp +decide [bare.aligned, hset, aligned, inner.aligned]
    · simp [bare.bindings_eq, inner.bindings_eq]
  | none =>
    dsimp only
    refine (wheresSql_binds he h).bind fun wheres tests => ?_
    refine Yields.ite_bind ?_ fun sql written => finished_binds he h written
    split
    · next alone =>
      have none := join_of_isEmpty alone
      have values : assignedBindings e (c.map Query.bindingLists).bindingLists set.bindings
          = set.bindings ++ (c.map Query.bindingLists).bindingLists.wheres := by
        unfold assignedBindings
        split <;> simp [none]
      exact values ▸ updateWithoutJoins_binds he h alone bare hset tests
    · next joined =>
      rw [ordersBehind_of_joins joined, List.append_nil]
      exact updateWithJoins_binds he h (dialect_of_joins picked joined) bare refers hset tests

end Named

variable {name : String} (hw : c.PicksRows name)
include hw

theorem updateSql_binds {values : Row} {set : Sql} (found : e.setList values = .ok set)
    (hset : set.Aligned) :
    Yields (Sql.Binds ((c.map Query.bindingLists).bindingLists.ctes
        ++ assignedBindings e (c.map Query.bindingLists).bindingLists set.bindings))
      (e.updateSql (c.map (Query.compiled e)) values) := by
  have same : updatedBindings e c set.bindings
      = assignedBindings e (c.map Query.bindingLists).bindingLists set.bindings := by
    unfold updatedBindings
    split
    · next rowId picked =>
      rw [identityBindings_eq hw h.hygienic]
      rcases (byRowId_read picked).2 with d | d <;> simp [assignedBindings, d]
    · rw [ordersBehind_of_picksRows hw, List.append_nil]
  exact same ▸ updateSql_writes he h hw.source found hset

omit he hw in
/-- The conditions of the joins, one after the other. -/
theorem joinTests_bindsAll :
    BindsAll (((c.map (Query.compiled e)).joins.flatMap fun j => j.clause.wheres).map Prod.snd)
      ((c.map Query.bindingLists).joins.flatMap fun j => j.clause.wheres) := by
  have each : ∀ j ∈ c.joins, j.clause.Parity e := by
    intro j member
    exact h.within.joins j member _ (by simp [Join.queries])
  simp only [Clauses.map]
  generalize c.joins = joins at each
  induction joins with
  | nil => exact .nil
  | cons j joins ih =>
    obtain ⟨first, others⟩ := List.forall_mem_cons.mp each
    simp only [List.map_cons, List.flatMap_cons, List.map_append]
    exact first.wheres.append (ih others)

omit hw in
theorem updateFromWheres_binds :
    Yields (Sql.Binds ((c.map Query.bindingLists).bindingLists.wheres
        ++ (c.map Query.bindingLists).joins.flatMap fun j => j.clause.wheres))
      (e.updateFromWheres (c.map (Query.compiled e))) := by
  have tests := joinTests_bindsAll h
  refine (wheresSql_binds he h).bind fun own found => ?_
  refine ((bindsAll_tied tests).joinOutcomes (by decide)).bind fun tail after => ?_
  refine (binds_conditions tests).bind fun alone first => yields_pure.mpr ?_
  split
  · next empty =>
    rw [after.carries.eq_nil empty, List.append_nil]
    exact found
  · split
    · next empty =>
      rw [found.carries.eq_nil empty, List.nil_append]
      exact first.behind (by decide)
    · exact found.beside (by decide) after

omit hw in
theorem fromTables_binds :
    Yields (Sql.Binds ((c.map Query.bindingLists).joins.flatMap fun j => j.table.bindings))
      (joinOutcomes ", " ((c.map (Query.compiled e)).joins.map fun j => e.table j.table)) := by
  simp only [Clauses.map, List.map_map, List.flatMap_map]
  refine (bindsAll_map fun j member => ?_).joinOutcomes (by decide)
  have inside := h.within.joins j member
  exact table_binds he (h.hygienic.joins j member).1 fun q inner =>
    inside q (List.mem_append_left _ inner)

theorem updateFromSql_binds {values : Row} {set : Sql} (found : e.setList values = .ok set)
    (hset : set.Aligned) :
    Yields (Sql.Binds ((c.map Query.bindingLists).bindingLists.ctes ++ (set.bindings
        ++ (c.map Query.bindingLists).joins.flatMap (fun j => j.table.bindings)
        ++ (c.map Query.bindingLists).bindingLists.wheres
        ++ (c.map Query.bindingLists).joins.flatMap fun j => j.clause.wheres)))
      (e.updateFromSql (c.map (Query.compiled e)) values) := by
  have columns : Yields (fun columns => set = columns) (e.setList values) := by simp [found]
  unfold updateFromSql
  split
  · refine (target_binds he h hw.source).bind fun table ⟨bare, _⟩ => ?_
    refine columns.bind fun columns same => ?_
    subst same
    refine (fromTables_binds he h).bind fun tables listed => ?_
    have assigned : Sql.Binds
        (set.bindings ++ (c.map Query.bindingLists).joins.flatMap fun j => j.table.bindings)
        (set ++ if (c.map (Query.compiled e)).joins.isEmpty then .empty
          else " from " ++ tables) := by
      split
      · next empty =>
        have none : c.joins = [] := by simpa [Clauses.map] using empty
        simpa [Clauses.map, none, Sql.append_empty] using (⟨hset, rfl⟩ : Sql.Binds set.bindings set)
      · rw [← Sql.append_assoc]
        exact Sql.Binds.beside ⟨hset, rfl⟩ (by decide) listed
    refine (updateFromWheres_binds he h).bind fun wheres tests => finished_binds he h ?_
    have written : ∀ assigned, Sql.Binds
          (set.bindings ++ (c.map Query.bindingLists).joins.flatMap fun j => j.table.bindings)
          assigned →
        Sql.Binds (set.bindings
            ++ (c.map Query.bindingLists).joins.flatMap (fun j => j.table.bindings)
            ++ (c.map Query.bindingLists).bindingLists.wheres
            ++ (c.map Query.bindingLists).joins.flatMap fun j => j.clause.wheres)
          ("update " ++ table ++ " set " ++ assigned ++ " " ++ wheres) := by
      intro assigned found
      refine ⟨?_, ?_⟩
      · simp +decide [bare.aligned, found.aligned, tests.aligned]
      · simp [bare.bindings_eq, found.bindings_eq, tests.bindings_eq]
    simpa [Sql.append_assoc] using written _ assigned
  all_goals exact yields_error

/-! ### Deletes -/

omit he h hw in
theorem clean_deleteVerb (c : Clauses Compiled) : Clean (e.deleteVerb c).toList := by
  unfold deleteVerb
  split
  · split
    · simp +decide [clean_natText]
    · decide
  · decide

omit hw in
theorem deleteWithoutJoins_binds {table wheres : Sql} {values : List Binding}
    (alone : (c.map (Query.compiled e)).joins.isEmpty = true) (ht : Sql.Binds [] table)
    (hwheres : Sql.Binds values wheres) :
    Yields (Sql.Binds (values ++ ordersBehind e (c.map Query.bindingLists)))
      (e.deleteWithoutJoins (c.map (Query.compiled e)) table wheres) := by
  have written : Sql.Binds values
      (e.deleteVerb (c.map (Query.compiled e)) ++ " from " ++ table ++ " " ++ wheres) := by
    refine ⟨?_, ?_⟩
    · simp +decide [Sql.aligned_clean_append (clean_deleteVerb _), ht.aligned, hwheres.aligned]
    · simp [ht.bindings_eq, hwheres.bindings_eq]
  change Yields _ (if e.dialect = .mysql then _ else _)
  split
  · next d =>
    rw [ordersBehind, if_pos ⟨d, by simpa [Clauses.map] using alone⟩]
    exact withOrdersAndLimit_binds he h written
  · next d =>
    rw [ordersBehind, if_neg fun both => d both.1, List.append_nil]
    exact yields_ok.mpr written

omit hw in
theorem deleteWithJoins_binds {table wheres : Sql} {values : List Binding}
    (ht : Sql.Binds [] table) (refers : Clean (reference table).toList)
    (hwheres : Sql.Binds values wheres) :
    Yields (Sql.Binds ((c.map Query.bindingLists).bindingLists.join ++ values))
      (e.deleteWithJoins (c.map (Query.compiled e)) table wheres) := by
  have word : (Sql.ofText (reference table)).Aligned := Sql.aligned_ofText.mpr refers.holds
  refine (joinsSql_binds he h).bind fun joins joined => ?_
  refine yields_pure.mpr ⟨?_, ?_⟩
  · simp +decide [word, ht.aligned, joined.aligned, hwheres.aligned]
  · simp [ht.bindings_eq, joined.bindings_eq, hwheres.bindings_eq]

omit hw in
/-- A delete from a named table binds its values where it writes them. -/
theorem deleteSql_writes (named : c.source = some (.name name)) :
    Yields (Sql.Binds ((c.map Query.bindingLists).bindingLists.ctes ++ deletedBindings e c))
      (e.deleteSql (c.map (Query.compiled e))) := by
  refine (target_binds he h named).bind fun table ⟨bare, refers⟩ => ?_
  unfold deletedBindings
  cases picked : e.byRowId? (c.map (Query.compiled e)) with
  | some rowId =>
    have clean := (byRowId_read picked).1
    refine (aligned_wrap he clean).bind fun identity aligned => ?_
    refine (rowIdSelect_binds he h named clean).bind fun select inner => finished_binds he h ?_
    refine ⟨?_, ?_⟩
    · simp +decide [bare.aligned, aligned, inner.aligned]
    · simp [bare.bindings_eq, inner.bindings_eq]
  | none =>
    dsimp only
    refine (wheresSql_binds he h).bind fun wheres tests => ?_
    refine Yields.ite_bind ?_ fun sql written => finished_binds he h written
    split
    · next alone =>
      rw [join_of_isEmpty alone, List.nil_append]
      exact deleteWithoutJoins_binds he h alone bare tests
    · next joined =>
      rw [ordersBehind_of_joins joined, List.append_nil]
      exact deleteWithJoins_binds he h bare refers tests

theorem deleteSql_binds :
    Yields (Sql.Binds ((c.map Query.bindingLists).bindingLists.ctes
        ++ ((c.map Query.bindingLists).bindingLists.join
          ++ (c.map Query.bindingLists).bindingLists.wheres)))
      (e.deleteSql (c.map (Query.compiled e))) := by
  have same : deletedBindings e c = (c.map Query.bindingLists).bindingLists.join
      ++ (c.map Query.bindingLists).bindingLists.wheres := by
    unfold deletedBindings
    split
    · exact identityBindings_eq hw h.hygienic
    · rw [ordersBehind_of_picksRows hw, List.append_nil]
  exact same ▸ deleteSql_writes he h hw.source

end Engine

/-! ### Statements -/

namespace Engine

variable {e : Engine} {c : Clauses Query} {name : String} (hw : c.PicksRows name)
  (h : c.Hygienic)
include hw h

theorem updateBindings_read (values : Row) :
    Yields (fun bindings => ∃ set, e.setList values = .ok set ∧
        bindings = (c.map Query.bindingLists).bindingLists.ctes
          ++ assignedBindings e (c.map Query.bindingLists).bindingLists set.bindings)
      (e.updateBindings (.mk c) values) := by
  have lists := Query.bindingLists_mk c
  obtain ⟨unionCtes, source, groups, havings, orders, union, unionOrders⟩ := hw.unbound h lists
  intro bindings ok
  obtain ⟨set, found, ok⟩ := bind_ok ok
  obtain rfl := pure_ok ok
  refine ⟨set, found, ?_⟩
  rw [← lists, assignedBindings]
  cases e.dialect <;>
    simp [BindingLists.flattenExcept, BindingLists.flattenOnly, BindingCategory.all,
      BindingLists.get, unionCtes, source, groups, havings, orders, union, unionOrders]

theorem updateFromBindings_read (values : Row) :
    Yields (fun bindings => ∃ set, e.setList values = .ok set ∧
        bindings = (c.map Query.bindingLists).bindingLists.ctes ++ (set.bindings
          ++ (c.map Query.bindingLists).joins.flatMap (fun j => j.table.bindings)
          ++ (c.map Query.bindingLists).bindingLists.wheres
          ++ (c.map Query.bindingLists).joins.flatMap fun j => j.clause.wheres))
      (e.updateFromBindings (.mk c) values) := by
  have lists := Query.bindingLists_mk c
  obtain ⟨unionCtes, source, -⟩ := hw.unbound h lists
  have joins : (Query.mk c).bindingClauses.joins = (c.map Query.bindingLists).joins := rfl
  intro bindings ok
  unfold updateFromBindings at ok
  split at ok
  · obtain ⟨set, found, ok⟩ := bind_ok ok
    obtain rfl := pure_ok ok
    refine ⟨set, found, ?_⟩
    rw [← lists]
    simp [BindingLists.flattenOnly, BindingLists.get, unionCtes, source, joins]
  all_goals cases ok

theorem deleteBindings_eq :
    deleteBindings (.mk c) = (c.map Query.bindingLists).bindingLists.ctes
      ++ ((c.map Query.bindingLists).bindingLists.join
        ++ (c.map Query.bindingLists).bindingLists.wheres) := by
  have lists := Query.bindingLists_mk c
  obtain ⟨unionCtes, source, groups, havings, orders, union, unionOrders⟩ := hw.unbound h lists
  rw [← lists, deleteBindings]
  simp [BindingLists.flattenExcept, BindingLists.flattenOnly, BindingCategory.all,
    BindingLists.get, unionCtes, source, groups, havings, orders, union, unionOrders]

omit hw h in
/-- Every statement that updates or deletes rows of a named table binds its values where it writes
them, whatever stands in its set list. -/
theorem writes_matched (he : Clean e.settings.tablePrefix.toList) {q : Query} (hq : q.Hygienic)
    (hw : q.clauses.PicksRows name) :
    (∀ values : Row, values.UpdateHygienic e →
      Yields Statement.Matched (e.update q values) ∧
      Yields Statement.Matched (e.updateFrom q values)) ∧
    Yields Statement.Matched (e.delete q) := by
  obtain @⟨c, own, inside⟩ := hq
  have within : ∀ q ∈ c.queries, q.Parity e :=
    fun q member => parity_of_hygienic he (inside q member)
  have sound : c.Sound e := ⟨own, Clauses.within within⟩
  replace hw : c.PicksRows name := hw
  refine ⟨fun values hv => ⟨fun s ok => ?_, fun s ok => ?_⟩, fun s ok => ?_⟩
  · obtain ⟨sql, written, ok⟩ := bind_ok ok
    obtain ⟨bindings, listed, ok⟩ := bind_ok ok
    obtain rfl := pure_ok ok
    obtain ⟨set, found, rfl⟩ := updateBindings_read hw own values bindings listed
    have aligned := setList_aligned he hv set found
    exact matched_of_binds (updateSql_binds he sound hw found aligned sql written)
  · obtain ⟨sql, written, ok⟩ := bind_ok ok
    obtain ⟨bindings, listed, ok⟩ := bind_ok ok
    obtain rfl := pure_ok ok
    obtain ⟨set, found, rfl⟩ := updateFromBindings_read hw own values bindings listed
    have aligned := setList_aligned he hv set found
    exact matched_of_binds (updateFromSql_binds he sound hw found aligned sql written)
  · obtain ⟨sql, written, ok⟩ := bind_ok ok
    obtain rfl := pure_ok ok
    rw [deleteBindings_eq hw own]
    exact matched_of_binds (deleteSql_binds he sound hw sql written)

end Engine

def placedByUser : Query := .mk
  { wheres := [{ predicate := .compareColumns (.name "large.user_id") "=" (.name "o.user_id") }] }

/-- The open orders of users who placed a large one. -/
def openOrders : Query := .mk
  { source := some (.name "orders as o")
    joins := [{ table := .sub largeOrders "large", clause := placedByUser }]
    wheres := [{ predicate := .raw "o.note = 'why?' or o.state = ?" [.text "open"] }]
    limit := some 5 }

/-- A document that is set as a whole, a path into it, and a raw value. -/
def orderChanges : Row :=
  .ofList [("o.meta", .value (.json (.obj [("seen", .bool true)]))),
    ("o.meta->tags[0]", .value (.text "late?")), ("o.total", .raw "total + 1")]

theorem hygienic_openOrders : openOrders.Hygienic := by
  refine .mk ?_ ?_
  · constructor <;> simp [Distinct.Hygienic, Term.Hygienic, Where.Hygienic, Predicate.Hygienic,
      Join.Hygienic, Query.IsJoinClause, placedByUser, Query.clauses] <;> decide
  · have inner : largeOrders.Everywhere Clauses.Hygienic := hygienic_largeOrders
    have clause : placedByUser.Everywhere Clauses.Hygienic := by
      refine .mk ?_ (by simp [Clauses.queries, Where.queries, Predicate.queries, Term.queries])
      constructor <;> simp [Distinct.Hygienic, Where.Hygienic, Predicate.Hygienic, Term.Hygienic]
      decide
    simp [Clauses.queries, Term.queries, Where.queries, Predicate.queries, Join.queries, inner,
      clause]

theorem hygienic_orderChanges : orderChanges.UpdateHygienic (.mk .postgres {}) where
  own := by
    simp [orderChanges, Row.Hygienic, Row.ofList, Row.insert, Row.empty, Entries.set,
      Param.Hygienic]
    decide
  documents := by
    intro entry member _ document found
    have names : (Json.obj [("seen", .bool true)]).CleanKeys := ⟨by decide, trivial, trivial⟩
    have each : ∀ entry ∈ orderChanges.entries, ∀ document ∈ UpdateTree.containerDocument? entry.2,
        document = .obj [("seen", .bool true)] := by
      simp [orderChanges, Row.ofList, Row.insert, Row.empty, Entries.set,
        UpdateTree.containerDocument?, Binding.bare]
    exact each entry member document found ▸ names

theorem openOrders_matched :
    (∃ s, (Engine.mk .postgres {}).update openOrders orderChanges = .ok s ∧ s.Matched) ∧
    (∃ s, (Engine.mk .postgres {}).updateFrom openOrders orderChanges = .ok s ∧ s.Matched) ∧
    ∃ s, (Engine.mk .postgres {}).delete openOrders = .ok s ∧ s.Matched := by
  have picked : openOrders.clauses.PicksRows "orders as o" := by
    constructor <;> simp [openOrders, Query.clauses]
  obtain ⟨updates, delete⟩ := Engine.writes_matched (e := .mk .postgres {}) (by decide)
    hygienic_openOrders picked
  obtain ⟨update, updateFrom⟩ := updates _ hygienic_orderChanges
  have updated : ∃ s, (Engine.mk .postgres {}).update openOrders orderChanges = .ok s := ⟨_, rfl⟩
  have updatedFrom : ∃ s, (Engine.mk .postgres {}).updateFrom openOrders orderChanges = .ok s :=
    ⟨_, rfl⟩
  have deleted : ∃ s, (Engine.mk .postgres {}).delete openOrders = .ok s := ⟨_, rfl⟩
  exact ⟨updated.imp fun s ok => ⟨ok, update s ok⟩,
    updatedFrom.imp fun s ok => ⟨ok, updateFrom s ok⟩, deleted.imp fun s ok => ⟨ok, delete s ok⟩⟩

end SqlCompiler
