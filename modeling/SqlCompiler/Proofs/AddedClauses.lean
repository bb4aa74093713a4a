import SqlCompiler.Proofs.UpdateParity
/-!
# Clauses added to a write

A write binds everything that its query holds, apart from the columns, but does not write all of
it. An added clause that the write does write brings as many placeholders as bindings; one that it
does not write leaves the statement as it is and lengthens the list of its bindings all the same.
-/

namespace SqlCompiler

open Substitute

/-- A clause that may be added to the query of a write and that not every write writes. -/
inductive Addition where
  | group (column : Term Query)
  | having (condition : Having Query)
  | order (o : Order Query)
  | union (member : UnionMember Query)
  | unionOrder (o : Order Query)
  | unionCte (expression : Cte Query)

/-- The clauses with one more, behind those of its kind. -/
def Clauses.add (c : Clauses Query) : Addition → Clauses Query
  | .group column => { c with groups := c.groups ++ [column] }
  | .having condition => { c with havings := c.havings ++ [condition] }
  | .order o => { c with orders := c.orders ++ [o] }
  | .union member => { c with unions := c.unions ++ [member] }
  | .unionOrder o => { c with unionOrders := c.unionOrders ++ [o] }
  | .unionCte expression => { c with unionCtes := c.unionCtes ++ [expression] }

namespace Addition

def bindings : Addition → List Binding
  | group column => (column.map Query.bindingLists).bindings
  | having condition => (condition.map Query.bindingLists).bindings
  | order o | unionOrder o => (o.map Query.bindingLists).bindings
  | union member => member.query.bindings
  | unionCte expression => (expression.map Query.bindingLists).bindings

def queries : Addition → List Query
  | group column => column.queries
  | having condition => condition.queries
  | order o | unionOrder o => o.queries
  | union member => [member.query]
  | unionCte expression => expression.queries

/-- Hygienic in itself and in the queries inside it. -/
def Hygienic (x : Addition) : Prop :=
  (match x with
    | group column => column.Hygienic
    | having condition => condition.Hygienic
    | order o | unionOrder o => o.Hygienic
    | union _ => True
    | unionCte expression => expression.Hygienic) ∧
  ∀ q ∈ x.queries, q.Hygienic

end Addition

namespace Engine

/-- Whether a write picks its rows by a select of their identities. -/
def PicksByIdentity (e : Engine) (c : Clauses Query) : Prop :=
  (e.dialect = .postgres ∨ e.dialect = .sqlite) ∧ ¬ (c.joins = [] ∧ c.limit = none)

/-- Whether a write writes a clause that is added to its query: a select of identities writes all
of them, and MySQL the orders of a write without joins. -/
def Writes (e : Engine) (c : Clauses Query) : Addition → Prop
  | .group _ | .having _ | .union _ | .unionCte _ => e.PicksByIdentity c
  | .order _ => e.PicksByIdentity c ∨ e.dialect = .mysql ∧ c.joins = []
  | .unionOrder _ => e.PicksByIdentity c ∧ c.unions ≠ []

end Engine

variable {e : Engine} {c : Clauses Query} {x : Addition}

theorem mem_queries_add {q : Query} : q ∈ (c.add x).queries ↔ q ∈ c.queries ∨ q ∈ x.queries := by
  cases x <;>
    simp only [Clauses.add, Clauses.queries, Addition.queries, List.flatMap_append, List.map_append,
      List.mem_append, List.flatMap_cons, List.flatMap_nil, List.append_nil, List.map_cons,
      List.map_nil] <;>
    grind

theorem hygienic_add (hc : (Query.mk c).Hygienic) (hx : x.Hygienic) (written : e.Writes c x) :
    (Query.mk (c.add x)).Hygienic := by
  have snoc {α : Type} {P : α → Prop} {items : List α} {item : α} (all : ∀ i ∈ items, P i)
      (last : P item) : ∀ i ∈ items ++ [item], P i :=
    List.forall_mem_append.mpr ⟨all, by simpa using last⟩
  obtain @⟨_, own, inside⟩ := hc
  obtain ⟨hx, within⟩ := hx
  have all : ∀ q ∈ (c.add x).queries, q.Hygienic := by
    intro q member
    exact (mem_queries_add.mp member).elim (inside q) (within q)
  refine .mk ?_ all
  cases x with
  | group column => exact { own with groups := snoc own.groups hx }
  | having condition => exact { own with havings := snoc own.havings hx }
  | order o => exact { own with orders := snoc own.orders hx }
  | union member => exact { own with ordered := fun none => by simp [Clauses.add] at none }
  | unionOrder o =>
    exact { own with
      unionOrders := snoc own.unionOrders hx, ordered := fun none => absurd none written.2 }
  | unionCte expression => exact { own with unionCtes := snoc own.unionCtes hx }

/-- The categories of an added clause hold its bindings behind those that were there. -/
theorem length_flattenExcept_add :
    ((Query.mk (c.add x)).bindingLists.flattenExcept [.select]).length
      = ((Query.mk c).bindingLists.flattenExcept [.select]).length + x.bindings.length := by
  rw [Query.bindingLists_mk, Query.bindingLists_mk]
  cases x <;>
    simp [BindingLists.flattenExcept, BindingLists.flattenOnly, BindingCategory.all,
      BindingLists.get, Clauses.bindingLists, Clauses.add, Clauses.map, Addition.bindings,
      UnionMember.map, Query.bindings] <;>
    omega

/-- Values between two parts of the lists, if the parts are all categories but the columns. -/
theorem BindingLists.length_parted (lists : BindingLists) (values : List Binding)
    {before : List BindingCategory}
    (all : (before ++ BindingCategory.all.filter (· ∉ BindingCategory.select :: before)).Perm
      (BindingCategory.all.filter (· ∉ [BindingCategory.select]))) :
    (lists.flattenOnly before ++ values ++ lists.flattenExcept (.select :: before)).length
      = values.length + (lists.flattenExcept [.select]).length := by
  have lengths := (all.flatMap_right lists.get).length_eq
  rw [List.flatMap_append, List.length_append] at lengths
  simp only [BindingLists.flattenExcept, BindingLists.flattenOnly, List.length_append]
  omega

/-- A clause that binds nothing leaves every category as it is, but for the columns, which a query
with unions may list where one without them does not. -/
theorem bindingLists_add (none : x.bindings = []) :
    (Query.mk (c.add x)).bindingLists
      = { (Query.mk c).bindingLists with select := (Query.mk (c.add x)).bindingLists.select } := by
  rw [Query.bindingLists_mk, Query.bindingLists_mk]
  cases x <;>
    simp_all [Clauses.bindingLists, Clauses.add, Clauses.map, Addition.bindings, UnionMember.map,
      Query.bindings]

theorem deleteBindings_add (none : x.bindings = []) :
    Engine.deleteBindings (.mk (c.add x)) = Engine.deleteBindings (.mk c) := by
  unfold Engine.deleteBindings
  rw [bindingLists_add none]
  rfl

theorem updateBindings_add (none : x.bindings = []) (values : Row) :
    e.updateBindings (.mk (c.add x)) values = e.updateBindings (.mk c) values := by
  unfold Engine.updateBindings
  rw [bindingLists_add none]
  cases e.dialect <;> rfl

theorem ctes_add : ((c.add x).map Query.bindingLists).bindingLists.ctes
    = (c.map Query.bindingLists).bindingLists.ctes := by
  cases x <;> rfl

/-- The select of identities binds what a write does, but for the with-expressions of the statement
and with its own columns. -/
theorem length_identityBindings (d : Clauses BindingLists) :
    (Engine.identityBindings d).length + d.bindingLists.ctes.length
      = (Engine.identities d "").selectBindings.length
        + (d.bindingLists.flattenExcept [.select]).length := by
  simp [Engine.identityBindings, Engine.identities, BindingLists.flatten,
    BindingLists.flattenExcept, BindingLists.flattenOnly, BindingCategory.all, BindingLists.get,
    Clauses.bindingLists]
  omega

theorem length_identityBindings_add :
    (Engine.identityBindings ((c.add x).map Query.bindingLists)).length
      = (Engine.identityBindings (c.map Query.bindingLists)).length + x.bindings.length := by
  -- Beside the identity only an aggregate has values, the same with and without the clause.
  have select : (Engine.identities ((c.add x).map Query.bindingLists) "").selectBindings
      = (Engine.identities (c.map Query.bindingLists) "").selectBindings := by
    cases x <;>
      simp [Engine.identities, Clauses.selectBindings, Clauses.add, Clauses.map, Term.bindings]
  have before := length_identityBindings (c.map Query.bindingLists)
  have behind := length_identityBindings ((c.add x).map Query.bindingLists)
  have longer := length_flattenExcept_add (c := c) (x := x)
  rw [Query.bindingLists_mk, Query.bindingLists_mk] at longer
  rw [ctes_add, select] at behind
  omega

namespace Engine

theorem picksByIdentity_iff :
    e.PicksByIdentity c ↔ ∃ rowId, e.byRowId? (c.map (Query.compiled e)) = some rowId := by
  unfold PicksByIdentity byRowId? rowId?
  cases e.dialect <;> cases joins : c.joins <;> cases limit : c.limit <;>
    simp [Clauses.map, joins, limit]

theorem byRowId_add :
    e.byRowId? ((c.add x).map (Query.compiled e)) = e.byRowId? (c.map (Query.compiled e)) := by
  cases x <;> rfl

theorem length_ordersBehind_add {o : Order Query} (last : e.dialect = .mysql ∧ c.joins = []) :
    (ordersBehind e ((c.add (.order o)).map Query.bindingLists)).length
      = (ordersBehind e (c.map Query.bindingLists)).length
        + (Addition.order o).bindings.length := by
  simp [ordersBehind, last, Clauses.add, Clauses.map, Clauses.bindingLists, Addition.bindings]

theorem length_deletedBindings_add (written : e.Writes c x) :
    (deletedBindings e (c.add x)).length = (deletedBindings e c).length + x.bindings.length := by
  unfold deletedBindings
  rw [byRowId_add]
  cases picked : e.byRowId? (c.map (Query.compiled e)) with
  | some rowId => exact length_identityBindings_add
  | none =>
    have none : ¬ e.PicksByIdentity c := by simp [picksByIdentity_iff, picked]
    cases x with
    | order o =>
      have behind := length_ordersBehind_add (o := o) (written.resolve_left none)
      simp only [List.length_append, behind]
      exact (Nat.add_assoc _ _ _).symm
    | unionOrder o => exact absurd written.1 none
    | _ => exact absurd written none

/-- An update binds what a delete does, and its set list. -/
theorem length_updatedBindings (set : List Binding) :
    (updatedBindings e c set).length = set.length + (deletedBindings e c).length := by
  unfold updatedBindings deletedBindings
  cases e.byRowId? (c.map (Query.compiled e)) with
  | some rowId => simp
  | none =>
    unfold assignedBindings
    cases e.dialect <;> simp <;> omega

/-- The order of a union without members is not written. -/
theorem selectSql_of_unionOrders {c : Clauses Compiled} (alone : c.unions = [])
    (orders : List (Order Compiled)) :
    e.selectSql { c with unionOrders := orders } = e.selectSql c := by
  simp only [selectSql, rowAggregate, plainSelect, Clauses.aggregatesRows, Clauses.hasUnions, alone]
  rfl

theorem rowIdSelect_add {o : Order Query} (alone : c.unions = []) (rowId : String) :
    e.rowIdSelect ((c.add (.unionOrder o)).map (Query.compiled e)) rowId
      = e.rowIdSelect (c.map (Query.compiled e)) rowId := by
  have none (target : String) : (identities (c.map (Query.compiled e)) target).unions = [] := by
    simp [identities, Clauses.map, alone]
  have same (target : String) := selectSql_of_unionOrders (e := e) (none target)
    ((c.add (.unionOrder o)).unionOrders.map (Order.map (Query.compiled e)))
  unfold rowIdSelect
  exact bind_congr fun target => same (target ++ "." ++ rowId)

theorem withoutJoins_add {o : Order Query} (dialect : e.dialect ≠ .mysql) :
    e.updateWithoutJoins ((c.add (.order o)).map (Query.compiled e))
        = e.updateWithoutJoins (c.map (Query.compiled e)) ∧
      e.deleteWithoutJoins ((c.add (.order o)).map (Query.compiled e))
        = e.deleteWithoutJoins (c.map (Query.compiled e)) := by
  constructor
  · funext table columns wheres
    simp only [updateWithoutJoins, if_neg dialect]
  · funext table wheres
    simp only [deleteWithoutJoins, if_neg dialect]
    rfl

/-- A clause that is not written leaves the statement as it is, or as it fails. -/
theorem writeSql_add (unwritten : ¬ e.Writes c x) :
    (∀ values, e.updateSql ((c.add x).map (Query.compiled e)) values
      = e.updateSql (c.map (Query.compiled e)) values) ∧
    e.deleteSql ((c.add x).map (Query.compiled e)) = e.deleteSql (c.map (Query.compiled e)) := by
  have row := byRowId_add (e := e) (c := c) (x := x)
  cases picked : e.byRowId? (c.map (Query.compiled e)) with
  | some rowId =>
    rw [picked] at row
    have identity : e.PicksByIdentity c := picksByIdentity_iff.mpr ⟨rowId, picked⟩
    cases x with
    | unionOrder o =>
      have alone : c.unions = [] := by simpa [Writes, identity] using unwritten
      have same := rowIdSelect_add (e := e) (o := o) alone rowId
      simp only [updateSql, deleteSql, row, picked, same]
      exact ⟨fun _ => rfl, rfl⟩
    | order o => exact absurd (.inl identity) unwritten
    | _ => exact absurd identity unwritten
  | none =>
    rw [picked] at row
    cases x with
    | order o =>
      by_cases alone : c.joins = []
      · have dialect : e.dialect ≠ .mysql := fun d => unwritten (.inr ⟨d, alone⟩)
        have same := withoutJoins_add (c := c) (o := o) dialect
        simp only [updateSql, deleteSql, row, picked, same]
        exact ⟨fun _ => rfl, rfl⟩
      · have joined : (c.map (Query.compiled e)).joins.isEmpty = false := by
          simpa [Clauses.map] using alone
        have still : ((c.add (.order o)).map (Query.compiled e)).joins.isEmpty = false := joined
        simp only [updateSql, deleteSql, row, picked, joined, still]
        exact ⟨fun _ => rfl, rfl⟩
    | _ =>
      simp only [updateSql, deleteSql, row, picked]
      exact ⟨fun _ => rfl, rfl⟩

end Engine

/-! ### Placeholders beside bindings -/

namespace Statement

def placeholders (s : Statement) : Nat :=
  (marks false s.sql.text.toList).count true

/-- Other values come with as many more placeholders as there are more of them. -/
def KeepsPace (s s' : Statement) : Prop :=
  s'.bindings ≠ s.bindings →
    s'.placeholders + s.bindings.length = s.placeholders + s'.bindings.length

theorem placeholders_of_binds {values listed : List Binding} {sql : Sql} (h : sql.Binds values) :
    placeholders { sql, bindings := listed } = values.length :=
  (matched_of_binds h).count

/-- Two lists that differ by a clause keep pace if the clause is written, or binds nothing. -/
theorem keepsPace_iff {s s' : Statement} {more : List Binding} {written : Prop}
    (lengths : s'.bindings.length = s.bindings.length + more.length)
    (still : more = [] → s'.bindings = s.bindings)
    (wrote : written → s'.placeholders = s.placeholders + more.length)
    (same : ¬ written → s'.placeholders = s.placeholders) :
    s.KeepsPace s' ↔ more = [] ∨ written := by
  by_cases there : written
  · have count := wrote there
    exact iff_of_true (fun _ => by omega) (.inr there)
  · have count := same there
    rw [or_iff_left there]
    constructor
    · intro pace
      by_cases equal : s'.bindings = s.bindings
      · rw [equal] at lengths
        exact List.eq_nil_of_length_eq_zero (by omega)
      · have := pace equal
        exact List.eq_nil_of_length_eq_zero (by omega)
    · intro none other
      exact absurd (still none) other

end Statement

namespace Engine

theorem length_updateBindings (q : Query) (values : Row) :
    Yields (fun bindings => ∃ set, e.setList values = .ok set ∧
        bindings.length = set.bindings.length + (q.bindingLists.flattenExcept [.select]).length)
      (e.updateBindings q values) := by
  intro bindings ok
  obtain ⟨set, found, ok⟩ := bind_ok ok
  obtain rfl := pure_ok ok
  refine ⟨set, found, ?_⟩
  cases e.dialect <;> exact q.bindingLists.length_parted _ (by decide)

theorem source_add {name : String} (named : c.source = some (.name name)) :
    (c.add x).source = some (.name name) := by
  cases x <;> exact named

section Pace

variable (he : Clean e.settings.tablePrefix.toList) (hq : (Query.mk c).Hygienic) (hx : x.Hygienic)
  {name : String} (named : c.source = some (.name name)) {s s' : Statement}
include he hq hx named

theorem update_keepsPace_iff {values : Row} (hv : values.UpdateHygienic e)
    (ok : e.update (.mk c) values = .ok s) (ok' : e.update (.mk (c.add x)) values = .ok s') :
    s.KeepsPace s' ↔ x.bindings = [] ∨ e.Writes c x := by
  obtain ⟨sql, wrote, ok⟩ := bind_ok ok
  obtain ⟨bindings, listed, ok⟩ := bind_ok ok
  obtain rfl := pure_ok ok
  obtain ⟨sql', wrote', ok'⟩ := bind_ok ok'
  obtain ⟨bindings', listed', ok'⟩ := bind_ok ok'
  obtain rfl := pure_ok ok'
  obtain ⟨set, found, length⟩ := length_updateBindings (.mk c) values bindings listed
  obtain ⟨set', found', length'⟩ := length_updateBindings (.mk (c.add x)) values bindings' listed'
  obtain rfl : set = set' := by simpa using found.symm.trans found'
  have longer := length_flattenExcept_add (c := c) (x := x)
  have lengths : bindings'.length = bindings.length + x.bindings.length := by omega
  refine Statement.keepsPace_iff lengths (fun none => ?_) (fun written => ?_) fun unwritten => ?_
  · rw [updateBindings_add none] at listed'
    exact Except.ok.inj (listed'.symm.trans listed)
  · have aligned := setList_aligned he hv set found
    have sound' := sound_of_hygienic he (hygienic_add hq hx written)
    have binds := updateSql_writes he (sound_of_hygienic he hq) named found aligned sql wrote
    have binds' := updateSql_writes he sound' (source_add named) found aligned sql' wrote'
    rw [Statement.placeholders_of_binds binds, Statement.placeholders_of_binds binds', ctes_add]
    simp only [List.length_append, length_updatedBindings, length_deletedBindings_add written]
    omega
  · have same := (writeSql_add unwritten).1 values
    obtain rfl : sql' = sql := Except.ok.inj (wrote'.symm.trans (same.trans wrote))
    rfl

theorem delete_keepsPace_iff (ok : e.delete (.mk c) = .ok s)
    (ok' : e.delete (.mk (c.add x)) = .ok s') :
    s.KeepsPace s' ↔ x.bindings = [] ∨ e.Writes c x := by
  obtain ⟨sql, wrote, ok⟩ := bind_ok ok
  obtain rfl := pure_ok ok
  obtain ⟨sql', wrote', ok'⟩ := bind_ok ok'
  obtain rfl := pure_ok ok'
  refine Statement.keepsPace_iff length_flattenExcept_add (fun none => ?_) (fun written => ?_)
    fun unwritten => ?_
  · exact deleteBindings_add none
  · have sound' := sound_of_hygienic he (hygienic_add hq hx written)
    have binds := deleteSql_writes he (sound_of_hygienic he hq) named sql wrote
    have binds' := deleteSql_writes he sound' (source_add named) sql' wrote'
    rw [Statement.placeholders_of_binds binds, Statement.placeholders_of_binds binds', ctes_add]
    simp only [List.length_append, length_deletedBindings_add written]
    omega
  · have same := (writeSql_add unwritten).2
    obtain rfl : sql' = sql := Except.ok.inj (wrote'.symm.trans (same.trans wrote))
    rfl

end Pace

/-- Whenever a write with and without an added clause compiles, the two keep pace exactly if the
write writes the clause, or if the clause binds nothing. -/
theorem writes_keepPace_iff (he : Clean e.settings.tablePrefix.toList)
    (hq : (Query.mk c).Hygienic) (hx : x.Hygienic) {name : String}
    (named : c.source = some (.name name)) :
    (∀ values : Row, values.UpdateHygienic e → ∀ s s',
      e.update (.mk c) values = .ok s → e.update (.mk (c.add x)) values = .ok s' →
        (s.KeepsPace s' ↔ x.bindings = [] ∨ e.Writes c x)) ∧
    ∀ s s', e.delete (.mk c) = .ok s → e.delete (.mk (c.add x)) = .ok s' →
      (s.KeepsPace s' ↔ x.bindings = [] ∨ e.Writes c x) := by
  constructor
  · intro values hv s s' ok ok'
    exact update_keepsPace_iff he hq hx named hv ok ok'
  · intro s s' ok ok'
    exact delete_keepsPace_iff he hq hx named ok ok'

end Engine

/-- The first of the orders that are still open. -/
def firstOpen : Clauses Query :=
  { source := some (.name "orders")
    wheres := [{ predicate := .raw "state = ?" [.text "open"] }]
    limit := some 3 }

/-- By their distance from a total. -/
def byDistance : Addition :=
  .order (.raw "abs(total - ?) desc" [.int 100])

def seenLate : Row :=
  .ofList [("note", .value (.text "late?"))]

theorem hygienic_firstOpen : (Query.mk firstOpen).Hygienic := by
  refine .mk ?_ (by simp [firstOpen, Clauses.queries, Term.queries, Where.queries,
    Predicate.queries])
  constructor <;> simp [firstOpen, Distinct.Hygienic, Term.Hygienic, Where.Hygienic,
    Predicate.Hygienic] <;> decide

theorem hygienic_byDistance : byDistance.Hygienic := by
  refine ⟨?_, by simp [byDistance, Addition.queries, Order.queries]⟩
  simp only [byDistance, Order.Hygienic]
  decide

theorem hygienic_seenLate {e : Engine} : seenLate.UpdateHygienic e where
  own := by
    simp [seenLate, Row.Hygienic, Row.ofList, Row.insert, Row.empty, Entries.set, Param.Hygienic]
    decide
  documents := by
    simp [seenLate, Row.ofList, Row.insert, Row.empty, Entries.set, UpdateTree.containerDocument?,
      Binding.bare]

/-- SQLite orders the select of identities. -/
theorem firstOpen_keepsPace :
    ∃ s s', (Engine.mk .sqlite {}).update (.mk firstOpen) seenLate = .ok s ∧
      (Engine.mk .sqlite {}).update (.mk (firstOpen.add byDistance)) seenLate = .ok s' ∧
      s.KeepsPace s' ∧ s'.bindings = [.text "late?", .text "open", .int 100] := by
  have written : (Engine.mk .sqlite {}).Writes firstOpen byDistance :=
    .inl ⟨.inr rfl, by simp [firstOpen]⟩
  obtain ⟨update, -⟩ := Engine.writes_keepPace_iff (e := .mk .sqlite {}) (by decide)
    hygienic_firstOpen hygienic_byDistance rfl
  exact ⟨_, _, rfl, rfl, (update seenLate hygienic_seenLate _ _ rfl rfl).mpr (.inr written), rfl⟩

def everyRow : Clauses Query :=
  { source := some (.name "t") }

def byConstant : Addition :=
  .order (.raw "? desc" [.int 1])

/-- An order that is not written, and bound. -/
theorem everyRow_losesPace :
    ∃ s s', (Engine.mk .generic {}).delete (.mk everyRow) = .ok s ∧
      (Engine.mk .generic {}).delete (.mk (everyRow.add byConstant)) = .ok s' ∧
      s.sql.text = "delete from \"t\"" ∧ s'.sql.text = "delete from \"t\"" ∧
      s.bindings = [] ∧ s'.bindings = [.int 1] ∧ ¬ s.KeepsPace s' := by
  refine ⟨_, _, rfl, rfl, by decide, by decide, rfl, rfl, fun pace => ?_⟩
  have two := pace (show [Binding.int 1] ≠ [] from List.cons_ne_nil _ _)
  revert two
  decide

end SqlCompiler
