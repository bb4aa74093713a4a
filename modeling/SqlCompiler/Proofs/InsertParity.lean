import SqlCompiler.Proofs.SelectParity
/-!
# Inserts and upserts bind their values

The rows of an insert bind their values in the order of the columns of the first row, raw values
left out; an upsert adds those of its assignments.
-/

namespace SqlCompiler

open Substitute

/-- The values of some columns that a row binds. -/
def Row.boundIn (columns : List String) (row : Row) : List Binding :=
  boundValues (columns.filterMap row.get?)

/-- The values that rows bind, row by row in the columns of the first one. -/
def rowBindings : List Row → List Binding
  | [] => []
  | first :: rest => (first :: rest).flatMap (Row.boundIn first.columns)

theorem Row.Hygienic.columns {row : Row} (h : row.Hygienic) :
    ∀ column ∈ row.columns, Clean column.toList :=
  List.forall_mem_map.mpr fun entry member => (h entry member).1

namespace AlignedRows

theorem align_ok {columns : List String} {row : Row} {values : List Param}
    (ok : align columns row = .ok values) : columns.filterMap row.get? = values := by
  unfold align at ok
  split at ok
  · cases ok
  · refine filterMap_of_allOk ok fun column value read => ?_
    split at read
    · next held found => rw [found, Except.ok.inj read]
    · cases read

/-- Rows come out in the columns of the first one. -/
theorem ofRows_ok {first : Row} {rest : List Row} {aligned : AlignedRows}
    (ok : ofRows (first :: rest) = .ok aligned) : aligned.columns = first.columns ∧
      aligned.rows = (first :: rest).map fun row => first.columns.filterMap row.get? := by
  obtain ⟨rows, all, done⟩ := bind_ok ok
  obtain rfl := pure_ok done
  have each := filterMap_of_allOk (g := fun row => some (first.columns.filterMap row.get?)) all
    fun row values read => congrArg some (align_ok read)
  rw [List.filterMap_eq_map'] at each
  exact ⟨rfl, each.symm⟩

end AlignedRows

/-- Aligned rows hold clean columns and hygienic values, and bind what the rows do. -/
theorem ofRows_read {rows : List Row} (h : ∀ row ∈ rows, row.Hygienic) :
    Yields (fun aligned => (∀ column ∈ aligned.columns, Clean column.toList) ∧
        Sql.Binds (rowBindings rows) aligned.valuesSql ∧ aligned.bindings = rowBindings rows)
      (AlignedRows.ofRows rows) := by
  intro aligned ok
  cases rows with
  | nil =>
    obtain rfl := Except.ok.inj ok
    exact ⟨by simp, Sql.binds_empty, rfl⟩
  | cons first rest =>
    obtain ⟨columns, values⟩ := AlignedRows.ofRows_ok ok
    obtain ⟨own, _⟩ := List.forall_mem_cons.mp h
    have hygienic : ∀ row ∈ first :: rest, ∀ value ∈ first.columns.filterMap row.get?,
        value.Hygienic := by
      intro row member value found
      obtain ⟨column, _, read⟩ := List.mem_filterMap.mp found
      exact (h row member _ (Entries.mem_of_get? read)).2
    refine ⟨columns ▸ own.columns, ⟨?_, ?_⟩, ?_⟩
    · rw [AlignedRows.valuesSql, values, List.map_map]
      refine Sql.aligned_join (by decide) (List.forall_mem_map.mpr fun row member => ?_)
      have list := aligned_paramList (hygienic row member)
      simp +decide [Sql.parenthesized, list]
    · have each (row : Row) : (paramList (first.columns.filterMap row.get?)).parenthesized.bindings
          = row.boundIn first.columns := by
        simp [Sql.parenthesized, bindings_paramList, Row.boundIn]
      rw [AlignedRows.valuesSql, values, Sql.bindings_join, List.map_map, List.flatMap_map]
      simp only [Function.comp_apply, each]
      rfl
    · rw [AlignedRows.bindings, values, List.flatMap_map]
      rfl

theorem insertBindings_eq {rows : List Row} (h : ∀ row ∈ rows, row.Hygienic) :
    Yields (fun bindings => bindings = rowBindings rows) (Engine.insertBindings rows) :=
  (ofRows_read h).map fun _ read => read.2.2

theorem rowBindings_of_empty {rows : List Row} (h : rows.all Row.isEmpty = true) :
    rowBindings rows = [] := by
  cases rows with
  | nil => rfl
  | cons first rest =>
    have none : first.columns = [] := by
      have empty := List.all_eq_true.mp h first List.mem_cons_self
      rw [Row.columns, List.isEmpty_iff.mp empty, List.map_nil]
    exact List.flatMap_eq_nil_iff.mpr fun row _ => by simp [Row.boundIn, none, boundValues]

def UpsertAssignment.Hygienic : UpsertAssignment → Prop
  | .inserted column => Clean column.toList
  | .given column value => Clean column.toList ∧ value.Hygienic

namespace Engine

variable {e : Engine} (he : Clean e.settings.tablePrefix.toList) {name : String}
  (hn : Clean name.toList)
include he hn

theorem insertSql_binds {verb : String} (hv : Spacer verb) {rows : List Row}
    (h : ∀ row ∈ rows, row.Hygienic) :
    Yields (Sql.Binds (rowBindings rows)) (e.insertSql verb (some (.name name)) rows) := by
  have table := aligned_wrapTable he hn
  change Yields _ (if rows.all Row.isEmpty then _ else _)
  split
  · next empty =>
    rw [rowBindings_of_empty empty]
    refine yields_pure.mpr ⟨?_, ?_⟩
    · unfold emptyInsert
      split <;> simp +decide [hv, table]
    · simp [emptyInsert]
  · refine (ofRows_read h).bind fun aligned ⟨columns, values, _⟩ => ?_
    refine (nameList_binds he columns).bind fun names listed => yields_pure.mpr ⟨?_, ?_⟩
    · simp +decide [hv, table, listed.aligned, values.aligned]
    · simp [listed.bindings_eq, values.bindings_eq]

theorem insertOrIgnoreSql_binds {rows : List Row} (h : ∀ row ∈ rows, row.Hygienic) :
    Yields (Sql.Binds (rowBindings rows)) (e.insertOrIgnoreSql (some (.name name)) rows) := by
  unfold insertOrIgnoreSql
  split
  · exact yields_error
  · exact yields_error
  · exact insertSql_binds he hn (by decide) h
  · exact insertSql_binds he hn (by decide) h
  · exact (insertSql_binds he hn (by decide) h).map fun sql found =>
      found.before (by decide)

theorem insertGetIdSql_binds {row : Row} (h : row.Hygienic) {sequence : Option String}
    (hs : ∀ key ∈ sequence, Clean key.toList) :
    Yields (Sql.Binds (rowBindings [row])) (e.insertGetIdSql (some (.name name)) row sequence) := by
  have key : Clean (sequence.getD "id").toList := by
    cases sequence with
    | none => decide
    | some key => exact hs key rfl
  have insert := insertSql_binds he hn (by decide : Spacer "insert")
    (List.forall_mem_singleton.mpr h)
  unfold insertGetIdSql
  split
  · exact insert
  · exact insert
  · exact insert
  · refine insert.bind fun sql found => (aligned_wrap he key).bind fun key aligned => ?_
    exact yields_pure.mpr (by simpa using found.beside (by decide) (Sql.binds_ofText aligned))
  · refine insert.bind fun sql found => (aligned_wrap he key).bind fun key aligned => ?_
    refine yields_pure.mpr ⟨?_, ?_⟩
    · simp +decide [found.aligned, aligned]
    · simp [found.bindings_eq]

theorem insertUsingSql_binds {verb : String} (hv : Spacer verb) {columns : List String}
    (hc : ∀ column ∈ columns, Clean column.toList) {values : List Binding} {select : Sql}
    (hs : Sql.Binds values select) :
    Yields (Sql.Binds values) (e.insertUsingSql verb (some (.name name)) columns select) := by
  have table := aligned_wrapTable he hn
  change Yields _ (if columns.all _ then _ else _)
  split
  · refine yields_pure.mpr ⟨?_, ?_⟩
    · simp +decide [hv, table, hs.aligned]
    · simp [hs.bindings_eq]
  · refine (nameList_binds he hc).bind fun names listed => yields_pure.mpr ⟨?_, ?_⟩
    · simp +decide [hv, table, listed.aligned, hs.aligned]
    · simp [listed.bindings_eq, hs.bindings_eq]

theorem insertOrIgnoreUsingSql_binds {columns : List String}
    (hc : ∀ column ∈ columns, Clean column.toList) {values : List Binding} {select : Sql}
    (hs : Sql.Binds values select) :
    Yields (Sql.Binds values)
      (e.insertOrIgnoreUsingSql (some (.name name)) columns select) := by
  unfold insertOrIgnoreUsingSql
  split
  · exact yields_error
  · exact yields_error
  · exact insertUsingSql_binds he hn (by decide) hc hs
  · exact insertUsingSql_binds he hn (by decide) hc hs
  · exact (insertUsingSql_binds he hn (by decide) hc hs).map fun sql found =>
      found.before (by decide)

/-! ### Upserts -/

omit hn in
theorem upsertAssignments_binds {inserted : String → Except CompileError String}
    (hi : ∀ column : String, Clean column.toList →
      Yields (fun sql => (Sql.ofText sql).Aligned) (inserted column))
    {update : List UpsertAssignment} (hu : ∀ assignment ∈ update, assignment.Hygienic) :
    Yields (Sql.Binds (update.flatMap UpsertAssignment.bindings))
      (e.upsertAssignments inserted update) := by
  refine (bindsAll_map fun assignment member => ?_).joinOutcomes (by decide)
  have own := hu assignment member
  cases assignment with
  | inserted column =>
    refine (aligned_wrap he own).bind fun name aligned => ?_
    refine (hi column own).bind fun value found => yields_pure.mpr ⟨?_, rfl⟩
    simp +decide [aligned, found]
  | given column value =>
    refine (aligned_wrap he own.1).bind fun name aligned => yields_pure.mpr ⟨?_, ?_⟩
    · simp +decide [aligned, own.2.aligned]
    · simp [bindings_ofParam, UpsertAssignment.bindings]

omit hn in
theorem insertedBehind_aligned {row column : String} (hr : (Sql.ofText row).Aligned)
    (hc : Clean column.toList) :
    Yields (fun sql => (Sql.ofText sql).Aligned) (e.insertedBehind row column) := by
  refine (aligned_wrap he hc).bind fun name aligned => yields_pure.mpr ?_
  simp +decide [Sql.aligned_ofText_append, Sql.aligned_ofText_append_append, hr, aligned]

section Upserts

variable {rows : List Row} (h : ∀ row ∈ rows, row.Hygienic) {update : List UpsertAssignment}
  (hu : ∀ assignment ∈ update, assignment.Hygienic)
include h hu

theorem mysqlUpsert_binds :
    Yields (Sql.Binds (rowBindings rows ++ update.flatMap UpsertAssignment.bindings))
      (e.mysqlUpsert (some (.name name)) rows update) := by
  refine (insertSql_binds he hn (by decide) h).bind fun insert found => ?_
  split
  · refine (aligned_wrap he (by decide)).bind fun row aligned => ?_
    refine (upsertAssignments_binds he (fun _ => insertedBehind_aligned he aligned) hu).bind
      fun assignments set => yields_pure.mpr ⟨?_, ?_⟩
    · simp +decide [found.aligned, aligned, set.aligned]
    · simp [found.bindings_eq, set.bindings_eq]
  · refine (upsertAssignments_binds he (fun column clean => ?_) hu).bind fun assignments set =>
      yields_pure.mpr (found.beside (by decide) set)
    refine (aligned_wrap he clean).bind fun name aligned => yields_pure.mpr ?_
    simp +decide [Sql.aligned_ofText_append, aligned]

variable {uniqueBy : List String} (hb : ∀ column ∈ uniqueBy, Clean column.toList)
include hb

theorem conflictUpsert_binds :
    Yields (Sql.Binds (rowBindings rows ++ update.flatMap UpsertAssignment.bindings))
      (e.conflictUpsert (some (.name name)) rows uniqueBy update) := by
  have excluded : (Sql.ofText (e.wrapValue "excluded")).Aligned :=
    Sql.aligned_ofText.mpr (clean_wrapValue (by decide)).holds
  unfold conflictUpsert
  split
  · exact yields_error
  · refine (insertSql_binds he hn (by decide) h).bind fun insert found => ?_
    refine (nameList_binds he hb).bind fun unique listed => ?_
    refine (upsertAssignments_binds he (fun _ => insertedBehind_aligned he excluded) hu).bind
      fun assignments set => yields_pure.mpr ⟨?_, ?_⟩
    · simp +decide [found.aligned, listed.aligned, set.aligned]
    · simp [found.bindings_eq, listed.bindings_eq, set.bindings_eq]

omit he h hu hb in
theorem clean_targetAlias :
    Yields (fun there : String => Clean there.toList) (targetAlias (some (.name name))) := by
  refine yields_ok.mpr ?_
  split
  · next cut => simpa using (clean_splitAlias hn cut).2
  · exact hn

theorem mergeUpsert_binds :
    Yields (Sql.Binds (rowBindings rows ++ update.flatMap UpsertAssignment.bindings))
      (e.mergeUpsert (some (.name name)) rows uniqueBy update) := by
  have merged : ∀ column : String, Clean column.toList →
      Yields (fun sql => (Sql.ofText sql).Aligned) (e.wrap (mergeSource ++ "." ++ column)) := by
    intro column clean
    exact aligned_wrap he (by simp +decide [mergeSource, clean])
  change Yields _ (if uniqueBy.isEmpty then _ else _)
  split
  · exact yields_error
  refine (ofRows_read h).bind fun aligned ⟨columns, values, _⟩ => ?_
  change Yields _ (if aligned.columns.isEmpty then _ else _)
  split
  · exact yields_error
  refine (clean_targetAlias hn).bind fun there hthere => ?_
  refine (nameList_binds he columns).bind fun columns listed => ?_
  have table := aligned_wrapTable he hn
  have matched : Yields (Sql.Binds []) (joinOutcomes " and " <| uniqueBy.map fun column => do
      let merged ← e.wrap (mergeSource ++ "." ++ column)
      let own ← e.wrap (there ++ "." ++ column)
      return merged ++ " = " ++ Sql.ofText own) := by
    have unbound : uniqueBy.flatMap (fun _ => ([] : List Binding)) = [] := by simp
    rw [← unbound]
    refine (bindsAll_map fun column member => ?_).joinOutcomes (by decide)
    have own : Clean (there ++ "." ++ column).toList := by simp +decide [hthere, hb column member]
    refine (merged column (hb column member)).bind fun left hleft => ?_
    refine (aligned_wrap he own).bind fun right hright => yields_pure.mpr ⟨?_, rfl⟩
    simp +decide [hleft, hright]
  refine matched.bind fun matched tests => ?_
  refine (upsertAssignments_binds he merged hu).bind fun assignments set => ?_
  have updated : Sql.Binds (update.flatMap UpsertAssignment.bindings)
      (if update.isEmpty then .empty
        else "when matched then update set " ++ assignments ++ " ") := by
    split
    · next empty =>
      rw [List.isEmpty_iff.mp empty]
      exact Sql.binds_empty
    · exact ⟨by simp +decide [set.aligned], by simp [set.bindings_eq]⟩
  have source := aligned_wrapTable he (by decide : Clean mergeSource.toList)
  have written : ∀ updated, Sql.Binds (update.flatMap UpsertAssignment.bindings) updated →
      Sql.Binds (rowBindings rows ++ update.flatMap UpsertAssignment.bindings)
        ("merge " ++ Sql.ofText (e.wrapTable name) ++ " using (values " ++ aligned.valuesSql ++ ") "
          ++ e.wrapTable mergeSource ++ " (" ++ columns ++ ") on " ++ matched ++ " " ++ updated
          ++ "when not matched then insert (" ++ columns ++ ") values (" ++ columns ++ ");") := by
    intro updated found
    refine ⟨?_, ?_⟩
    · simp +decide [table, values.aligned, source, listed.aligned, tests.aligned, found.aligned]
    · simp [values.bindings_eq, listed.bindings_eq, tests.bindings_eq, found.bindings_eq]
  exact yields_pure.mpr (written _ updated)

theorem upsertSql_binds :
    Yields (Sql.Binds (rowBindings rows ++ update.flatMap UpsertAssignment.bindings))
      (e.upsertSql (some (.name name)) rows uniqueBy update) := by
  unfold upsertSql
  split
  · exact yields_error
  · exact mysqlUpsert_binds he hn h hu
  · exact conflictUpsert_binds he hn h hu hb
  · exact conflictUpsert_binds he hn h hu hb
  · exact mergeUpsert_binds he hn h hu hb

end Upserts

/-! ### Statements -/

/-- Every statement that inserts into a named table binds the rows, then the assignments of an
upsert, or what its source binds. -/
theorem inserts_matched {q : Query} (target : q.clauses.source = some (.name name)) :
    (∀ rows : List Row, (∀ row ∈ rows, row.Hygienic) →
      Yields (fun s => s.Matched ∧ s.bindings = rowBindings rows) (e.insert q rows) ∧
      Yields (fun s => s.Matched ∧ s.bindings = rowBindings rows) (e.insertOrIgnore q rows)) ∧
    (∀ (row : Row) (sequence : Option String), row.Hygienic →
      (∀ key ∈ sequence, Clean key.toList) →
      Yields (fun s => s.Matched ∧ s.bindings = rowBindings [row])
        (e.insertGetId q row sequence)) ∧
    (∀ (columns : List String) (source : Query), (∀ column ∈ columns, Clean column.toList) →
      source.Hygienic →
      Yields (fun s => s.Matched ∧ s.bindings = source.bindings)
        (e.insertUsing q columns source) ∧
      Yields (fun s => s.Matched ∧ s.bindings = source.bindings)
        (e.insertOrIgnoreUsing q columns source)) ∧
    (∀ (rows : List Row) (uniqueBy : List String) (update : List UpsertAssignment),
      (∀ row ∈ rows, row.Hygienic) → (∀ column ∈ uniqueBy, Clean column.toList) →
      (∀ assignment ∈ update, assignment.Hygienic) →
      Yields (fun s => s.Matched ∧
          s.bindings = rowBindings rows ++ update.flatMap UpsertAssignment.bindings)
        (e.upsert q rows uniqueBy update)) := by
  have compiled : (q.compiledClauses e).source = some (.name name) := by
    simp [Query.compiledClauses, Clauses.map, target, Term.map]
  refine ⟨fun rows h => ⟨?_, ?_⟩, fun row sequence h hs => ?_,
    fun columns source hc hs => ⟨?_, ?_⟩, fun rows uniqueBy update h hb hu => ?_⟩
  · rw [insert, compiled]
    exact yields_matched (insertSql_binds he hn (by decide) h) (insertBindings_eq h)
  · rw [insertOrIgnore, compiled]
    exact yields_matched (insertOrIgnoreSql_binds he hn h) (insertBindings_eq h)
  · rw [insertGetId, compiled]
    have only := List.forall_mem_singleton.mpr h
    exact yields_matched (insertGetIdSql_binds he hn h hs) (insertBindings_eq only)
  · rw [insertUsing, compiled]
    refine (parity_of_hygienic he hs).select.bind fun select found => ?_
    exact yields_matched (insertUsingSql_binds he hn (by decide) hc found) (yields_ok.mpr rfl)
  · rw [insertOrIgnoreUsing, compiled]
    refine (parity_of_hygienic he hs).select.bind fun select found => ?_
    exact yields_matched (insertOrIgnoreUsingSql_binds he hn hc found) (yields_ok.mpr rfl)
  · rw [upsert, compiled]
    refine yields_matched (upsertSql_binds he hn h hu hb) ?_
    exact (insertBindings_eq h).map fun _ same => same ▸ rfl

end Engine

def stock : Query := .mk { source := some (.name "stock") }

/-- The second row names its columns in another order. -/
def stockRows : List Row :=
  [.ofList [("sku", .value (.text "a?")), ("seen", .raw "now('x')"), ("count", .value (.int 1))],
    .ofList [("count", .value (.int 2)), ("sku", .raw "upper('b')"), ("seen", .value .null)]]

theorem hygienic_stockRows : ∀ row ∈ stockRows, row.Hygienic := by
  intro row member
  simp only [stockRows, List.mem_cons, List.not_mem_nil, or_false] at member
  rcases member with rfl | rfl <;>
    simp [Row.Hygienic, Row.ofList, Row.insert, Row.empty, Entries.set, Param.Hygienic] <;> decide

theorem stock_matched :
    (∃ s, (Engine.mk .sqlite {}).insert stock stockRows = .ok s ∧ s.Matched ∧
      s.bindings = [.text "a?", .int 1, .null, .int 2]) ∧
    (∃ s, (Engine.mk .sqlite {}).insertGetId stock (.ofList [("sku", .value (.text "c"))]) (some "id")
        = .ok s ∧ s.Matched) ∧
    (∃ s, (Engine.mk .sqlite {}).insertOrIgnoreUsing stock ["sku"] largeBuyers = .ok s ∧
      s.Matched ∧ s.bindings = largeBuyers.bindings) ∧
    ∃ s, (Engine.mk .sqlite {}).upsert stock stockRows ["sku"]
        [.inserted "seen", .given "count" (.value (.int 0))] = .ok s ∧ s.Matched ∧
      s.bindings = [.text "a?", .int 1, .null, .int 2, .int 0] := by
  have row : (Row.ofList [("sku", .value (.text "c"))]).Hygienic := by
    simp [Row.Hygienic, Row.ofList, Row.insert, Row.empty, Entries.set, Param.Hygienic]
    decide
  have set : ∀ assignment ∈ [UpsertAssignment.inserted "seen", .given "count" (.value (.int 0))],
      assignment.Hygienic := by
    simp [UpsertAssignment.Hygienic, Param.Hygienic]
    decide
  obtain ⟨rows, one, selected, upsert⟩ := @Engine.inserts_matched (.mk .sqlite {}) (by decide) "stock"
    (by decide) stock rfl
  exact ⟨⟨_, rfl, ((rows _ hygienic_stockRows).1 _ rfl).1, rfl⟩,
    ⟨_, rfl, (one _ (some "id") row (by decide) _ rfl).1⟩,
    ⟨_, rfl, (selected ["sku"] _ (by decide) hygienic_largeBuyers).2 _ rfl⟩,
    ⟨_, rfl, (upsert _ ["sku"] _ hygienic_stockRows (by decide) set _ rfl).1, rfl⟩⟩

end SqlCompiler
