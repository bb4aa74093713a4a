import SqlCompiler.Engine.Update
import SqlCompiler.Proofs.Hygiene
import SqlCompiler.Proofs.SelectErasure
/-!
# Writes do not read values

Inserts, upserts, updates of whole columns and deletes compile to the same words, or fail with the
same error, whatever their rows and clauses bind.
-/

namespace SqlCompiler

theorem Entries.get?_map {A B : Type} (f : A → B) (name : String) (entries : List (String × A)) :
    get? name (entries.map fun entry => (entry.1, f entry.2)) = (get? name entries).map f := by
  induction entries with
  | nil => rfl
  | cons entry rest ih =>
    simp only [List.map_cons, get?, ih]
    split <;> rfl

theorem Entries.set_map {A B : Type} (f : A → B) (name : String) (value : A)
    (entries : List (String × A)) :
    set name (f value) (entries.map fun entry => (entry.1, f entry.2))
      = (set name value entries).map fun entry => (entry.1, f entry.2) := by
  induction entries with
  | nil => rfl
  | cons entry rest ih =>
    simp only [List.map_cons, set, ih]
    split <;> rfl

namespace Row

/-- A row with its columns and raw values, but none of its bound ones. -/
def erase (row : Row) : Row where
  entries := row.entries.map fun entry => (entry.1, entry.2.erase)
  nodup := by simpa [Function.comp_def] using row.nodup

@[simp] theorem columns_erase (row : Row) : row.erase.columns = row.columns := by
  simp [columns, erase, Function.comp_def]

@[simp] theorem isEmpty_erase (row : Row) : row.erase.isEmpty = row.isEmpty := by
  simp [isEmpty, erase]

@[simp] theorem get?_erase (row : Row) (column : String) :
    row.erase.get? column = (row.get? column).map Param.erase :=
  Entries.get?_map Param.erase column row.entries

end Row

namespace AlignedRows

def erase (a : AlignedRows) : AlignedRows :=
  { a with rows := a.rows.map (List.map Param.erase) }

theorem align_erase (columns : List String) (row : Row) :
    align columns row.erase = (align columns row).map (List.map Param.erase) := by
  have count : row.erase.entries.length = row.entries.length := by simp [Row.erase]
  unfold align
  rw [count]
  split
  · rfl
  · rw [← allOk_map, List.map_map]
    refine congrArg allOk (List.map_congr_left fun column _ => ?_)
    rw [Row.get?_erase, Function.comp_apply]
    cases row.get? column <;> rfl

theorem ofRows_erase (rows : List Row) : ofRows (rows.map Row.erase) = (ofRows rows).map erase := by
  cases rows with
  | nil => rfl
  | cons first rest =>
    have each : ((first :: rest).map Row.erase).map (align first.columns)
        = ((first :: rest).map (align first.columns)).map (Except.map (List.map Param.erase)) := by
      simp only [List.map_map]
      exact List.map_congr_left fun row _ => align_erase first.columns row
    change (allOk (((first :: rest).map Row.erase).map (align first.erase.columns)) >>= fun rows =>
      (pure { columns := first.erase.columns, rows } : Except CompileError AlignedRows)) = _
    rw [Row.columns_erase, each, allOk_map]
    simp [ofRows, erase]

@[simp] theorem valuesSql_erase (a : AlignedRows) : a.erase.valuesSql = a.valuesSql.erase := by
  simp [valuesSql, erase, Function.comp_def]

end AlignedRows

def UpsertAssignment.erase : UpsertAssignment → UpsertAssignment
  | .inserted column => .inserted column
  | .given column value => .given column value.erase

namespace Engine

variable (e : Engine)

theorem target_erase (source : Option (Term Compiled)) :
    e.target ((source.map (Term.map Compiled.erase)).map Term.erase)
      = (e.target source).map Sql.erase := by
  cases source with
  | none => rfl
  | some source => exact e.table_erase source

theorem targetAlias_erase (source : Option (Term Compiled)) :
    targetAlias ((source.map (Term.map Compiled.erase)).map Term.erase) = targetAlias source := by
  cases source with
  | none => rfl
  | some source => cases source <;> rfl

theorem emptyInsert_erase (verb : String) (table : Sql) :
    e.emptyInsert verb table.erase = (e.emptyInsert verb table).erase := by
  simp [emptyInsert]

variable (source : Option (Term Compiled)) (rows : List Row)

theorem insertSql_erase (verb : String) :
    e.insertSql verb ((source.map (Term.map Compiled.erase)).map Term.erase) (rows.map Row.erase)
      = (e.insertSql verb source rows).map Sql.erase := by
  have empty : (rows.map Row.erase).all Row.isEmpty = rows.all Row.isEmpty := by
    simp [List.all_map, Function.comp_def]
  refine bind_erase (e.target_erase source) fun table => ?_
  rw [empty]
  split
  · rw [emptyInsert_erase]
    rfl
  · rw [AlignedRows.ofRows_erase, bind_of_map, map_of_bind]
    refine congrArg (AlignedRows.ofRows rows >>= ·) (funext fun aligned => ?_)
    exact bind_erase (e.nameList_erase aligned.columns).symm fun columns => by simp

theorem insertOrIgnoreSql_erase :
    e.insertOrIgnoreSql ((source.map (Term.map Compiled.erase)).map Term.erase)
      (rows.map Row.erase) = (e.insertOrIgnoreSql source rows).map Sql.erase := by
  unfold insertOrIgnoreSql
  split <;> simp [insertSql_erase, -Option.map_map]

theorem insertGetIdSql_erase (row : Row) (sequence : Option String) :
    e.insertGetIdSql ((source.map (Term.map Compiled.erase)).map Term.erase) row.erase sequence
      = (e.insertGetIdSql source row sequence).map Sql.erase := by
  have insert := e.insertSql_erase source [row] "insert"
  rw [List.map_singleton] at insert
  unfold insertGetIdSql
  split <;> simp [insert, -Option.map_map]

variable (update : List UpsertAssignment)

omit source rows in
theorem upsertAssignments_erase (inserted : String → Except CompileError String) :
    e.upsertAssignments inserted (update.map UpsertAssignment.erase)
      = (e.upsertAssignments inserted update).map Sql.erase := by
  have each : (update.map UpsertAssignment.erase).map (e.upsertAssignment inserted)
      = (update.map (e.upsertAssignment inserted)).map (Except.map Sql.erase) := by
    simp only [List.map_map]
    refine List.map_congr_left fun assignment _ => ?_
    cases assignment <;> simp [UpsertAssignment.erase, upsertAssignment]
  rw [upsertAssignments, each, joinOutcomes_erase, upsertAssignments]

theorem mysqlUpsert_erase :
    e.mysqlUpsert ((source.map (Term.map Compiled.erase)).map Term.erase) (rows.map Row.erase)
      (update.map UpsertAssignment.erase) = (e.mysqlUpsert source rows update).map Sql.erase := by
  refine bind_erase (e.insertSql_erase source rows "insert") fun insert => ?_
  split <;> simp [upsertAssignments_erase]

theorem conflictUpsert_erase (uniqueBy : List String) :
    e.conflictUpsert ((source.map (Term.map Compiled.erase)).map Term.erase) (rows.map Row.erase)
      uniqueBy (update.map UpsertAssignment.erase)
      = (e.conflictUpsert source rows uniqueBy update).map Sql.erase := by
  unfold conflictUpsert
  split
  · rfl
  · refine bind_erase (e.insertSql_erase source rows "insert") fun insert => ?_
    refine bind_erase (e.nameList_erase uniqueBy).symm fun unique => ?_
    simp [upsertAssignments_erase]

theorem mergeUpsert_erase (uniqueBy : List String) :
    e.mergeUpsert ((source.map (Term.map Compiled.erase)).map Term.erase) (rows.map Row.erase)
      uniqueBy (update.map UpsertAssignment.erase)
      = (e.mergeUpsert source rows uniqueBy update).map Sql.erase := by
  -- The test for rows that are there already is about names alone.
  have matched : ∀ there : String, (joinOutcomes " and " <| uniqueBy.map fun column => do
        let merged ← e.wrap (mergeSource ++ "." ++ column)
        let own ← e.wrap (there ++ "." ++ column)
        return merged ++ " = " ++ Sql.ofText own)
      = Except.map Sql.erase (joinOutcomes " and " <| uniqueBy.map fun column => do
        let merged ← e.wrap (mergeSource ++ "." ++ column)
        let own ← e.wrap (there ++ "." ++ column)
        return merged ++ " = " ++ Sql.ofText own) := by
    intro there
    rw [← joinOutcomes_erase, List.map_map]
    congr 1
    exact List.map_congr_left fun column _ => by simp
  change (if uniqueBy.isEmpty then _ else _)
    = Except.map Sql.erase (if uniqueBy.isEmpty then _ else _)
  split
  · rfl
  rw [AlignedRows.ofRows_erase, bind_of_map, map_of_bind]
  refine congrArg (AlignedRows.ofRows rows >>= ·) (funext fun aligned => ?_)
  change (if aligned.columns.isEmpty then _ else _)
    = Except.map Sql.erase (if aligned.columns.isEmpty then _ else _)
  split
  · rfl
  rw [targetAlias_erase, map_of_bind]
  refine congrArg (targetAlias source >>= ·) (funext fun there => ?_)
  refine bind_erase (e.nameList_erase aligned.columns).symm fun columns => ?_
  refine bind_erase (e.target_erase source) fun table => ?_
  refine bind_erase (matched there) fun tests => ?_
  refine bind_erase (e.upsertAssignments_erase update _) fun assignments => ?_
  simp

theorem upsertSql_erase (uniqueBy : List String) :
    e.upsertSql ((source.map (Term.map Compiled.erase)).map Term.erase) (rows.map Row.erase)
      uniqueBy (update.map UpsertAssignment.erase)
      = (e.upsertSql source rows uniqueBy update).map Sql.erase := by
  unfold upsertSql
  split
  · rfl
  · exact e.mysqlUpsert_erase source rows update
  · exact e.conflictUpsert_erase source rows update uniqueBy
  · exact e.conflictUpsert_erase source rows update uniqueBy
  · exact e.mergeUpsert_erase source rows update uniqueBy

end Engine

theorem hasArrow_unqualified {key : String} (h : Text.hasArrow key.toList = false) :
    Text.hasArrow (Name.unqualified key).toList = false := by
  unfold Name.unqualified
  rw [Text.cutArrow?_eq_none h]
  dsimp only
  split
  · next name cut =>
    rw [String.toList_ofList]
    exact Text.hasArrow_of_infix (Text.cutLast?_suffix cut).isInfix h
  · exact h

theorem Row.insert_erase (row : Row) (column : String) (value : Param) :
    row.erase.insert column value.erase = (row.insert column value).erase :=
  Row.ext (Entries.set_map Param.erase column value row.entries)

theorem Row.ofList_erase (entries : List (String × Param)) :
    Row.ofList (entries.map fun entry => (entry.1, entry.2.erase))
      = (Row.ofList entries).erase := by
  have grow : ∀ (entries : List (String × Param)) (row : Row),
      (entries.map fun entry => (entry.1, entry.2.erase)).foldl
          (fun r entry => r.insert entry.1 entry.2) row.erase
        = (entries.foldl (fun r entry => r.insert entry.1 entry.2) row).erase := by
    intro entries
    induction entries with
    | nil => exact fun row => rfl
    | cons entry rest ih =>
      intro row
      have next := ih (row.insert entry.1 entry.2)
      rw [← Row.insert_erase] at next
      exact next
  exact grow entries .empty

/-- A row that sets columns as a whole. -/
def Row.SetsColumns (values : Row) : Prop :=
  ∀ key ∈ values.columns, Text.hasArrow key.toList = false

namespace UpdateTree

theorem splitKey?_eq_none {key : String} (h : Text.hasArrow key.toList = false) :
    splitKey? key = none := by
  rw [splitKey?, Text.cutArrow?_eq_none h]
  rfl

theorem ofRow_eq_nil {row : Row} (h : row.SetsColumns) : ofRow row = .ok [] := by
  have paths : pathColumns row = [] := by
    refine List.filterMap_eq_nil_iff.mpr fun key member => ?_
    rw [splitKey?_eq_none (h key member)]
    rfl
  have bases : ∀ entries, baseTrees [] entries = .ok [] := by
    intro entries
    induction entries with
    | nil => rfl
    | cons entry rest ih => simp [baseTrees, ih]
  have added : ∀ entries : List (String × Param),
      (∀ key ∈ entries.map Prod.fst, Text.hasArrow key.toList = false) →
      addPaths [] entries = .ok [] := by
    intro entries whole
    induction entries with
    | nil => rfl
    | cons entry rest ih =>
      obtain ⟨own, others⟩ := List.forall_mem_cons.mp whole
      rw [addPaths, splitKey?_eq_none own]
      exact ih others
  rw [ofRow, paths, bases]
  exact added row.entries h

end UpdateTree

namespace Engine

variable (e : Engine)

theorem updateRow_erase (values : Row) :
    e.updateRow values.erase = (e.updateRow values).erase := by
  have renamed := Row.ofList_erase
    (values.entries.map fun entry => (e.updateColumnName entry.1, entry.2))
  rw [List.map_map] at renamed
  unfold updateRow
  rw [← renamed, Row.erase, List.map_map]
  rfl

theorem hasArrow_updateColumnName {key : String} (h : Text.hasArrow key.toList = false) :
    Text.hasArrow (e.updateColumnName key).toList = false := by
  unfold updateColumnName
  split
  · exact h
  · exact h
  all_goals exact hasArrow_unqualified h

theorem updateRow_setsColumns {values : Row} (h : values.SetsColumns) :
    (e.updateRow values).SetsColumns := by
  refine List.forall_mem_map.mpr (Row.forall_ofList
    (P := fun entry => Text.hasArrow entry.1.toList = false) (List.forall_mem_map.mpr ?_))
  exact fun entry member => e.hasArrow_updateColumnName (h entry.1 (List.mem_map_of_mem member))

theorem assignments_erase (done : List String) (entries : List (String × Param)) :
    e.assignments [] done (entries.map fun entry => (entry.1, entry.2.erase))
      = (e.assignments [] done entries).map (List.map Sql.erase) := by
  induction entries with
  | nil => rfl
  | cons entry rest ih =>
    simp [assignments, Entries.get?, ih]

theorem setList_erase {values : Row} (h : values.SetsColumns) :
    e.setList values.erase = (e.setList values).map Sql.erase := by
  have whole := e.updateRow_setsColumns h
  have bare : (e.updateRow values).erase.SetsColumns := by
    simpa [Row.SetsColumns] using whole
  have parts := e.assignments_erase [] (e.updateRow values).entries
  simp only [setList, updateRow_erase, UpdateTree.ofRow_eq_nil whole, UpdateTree.ofRow_eq_nil bare,
    bind_of_ok]
  rw [Row.erase, parts]
  simp

/-! ### Updates and deletes -/

variable (c : Clauses Compiled)

theorem finished_erase (sql : Sql) :
    e.finished (c.map Compiled.erase).erase sql.erase = (e.finished c sql).map Sql.erase := by
  rw [finished, ← Sql.erase_trimEnd]
  exact e.withCtes_erase c.ctes sql.trimEnd

theorem byRowId?_erase : e.byRowId? (c.map Compiled.erase).erase = e.byRowId? c := by
  simp [byRowId?, Clauses.map, Clauses.erase]

theorem rowIdSelect_erase (rowId : String) :
    e.rowIdSelect (c.map Compiled.erase).erase rowId
      = (e.rowIdSelect c rowId).map Sql.erase := by
  have there : targetAlias (c.map Compiled.erase).erase.source = targetAlias c.source :=
    targetAlias_erase c.source
  rw [rowIdSelect, there, rowIdSelect, map_of_bind]
  exact congrArg (targetAlias c.source >>= ·) (funext fun there =>
    e.selectSql_erase { c with columns := some [.name (there ++ "." ++ rowId)], ctes := [] })

theorem withOrdersAndLimit_erase (sql : Sql) :
    e.withOrdersAndLimit (c.map Compiled.erase).erase sql.erase
      = (e.withOrdersAndLimit c sql).map Sql.erase := by
  refine bind_erase (e.orderList_erase c.orders) fun orders => ?_
  have written : ∀ limit : Sql, limit.erase = limit →
      Sql.join " " (sql.erase.trimEnd :: [orders.erase, limit].filter fun part => !part.isEmpty)
        = (Sql.join " "
            (sql.trimEnd :: [orders, limit].filter fun part => !part.isEmpty)).erase := by
    intro limit bare
    have rear := Sql.filter_erase [orders, limit]
    rw [List.map_cons, List.map_singleton, bare] at rear
    rw [rear]
    simp
  refine congrArg pure (written _ ?_)
  split <;> simp

theorem updateWithoutJoins_erase (table columns wheres : Sql) :
    e.updateWithoutJoins (c.map Compiled.erase).erase table.erase columns.erase wheres.erase
      = (e.updateWithoutJoins c table columns wheres).map Sql.erase := by
  have written := e.withOrdersAndLimit_erase c
    ("update " ++ table ++ " set " ++ columns ++ " " ++ wheres)
  simp only [updateWithoutJoins]
  split
  · simpa using written
  · simp

theorem updateWithJoins_erase (table columns wheres : Sql) :
    e.updateWithJoins (c.map Compiled.erase).erase table.erase columns.erase wheres.erase
      = (e.updateWithJoins c table columns wheres).map Sql.erase := by
  refine bind_erase (e.joinsSql_erase c.joins) fun joins => ?_
  simp [reference]

theorem updateSql_erase {values : Row} (h : values.SetsColumns) :
    e.updateSql (c.map Compiled.erase).erase values.erase
      = (e.updateSql c values).map Sql.erase := by
  have joined : (c.map Compiled.erase).erase.joins.isEmpty = c.joins.isEmpty := by
    simp [Clauses.map, Clauses.erase]
  refine bind_erase (e.target_erase c.source) fun table => ?_
  refine bind_erase (e.setList_erase h) fun columns => ?_
  rw [byRowId?_erase]
  split
  · next rowId _ =>
    rw [map_of_bind]
    refine congrArg (e.wrap rowId >>= ·) (funext fun name => ?_)
    refine bind_erase (e.rowIdSelect_erase c rowId) fun select => ?_
    rw [← finished_erase]
    simp
  · refine bind_erase (e.wheresSql_erase c.wheres) fun wheres => ?_
    rw [joined]
    split
    · exact bind_erase (e.updateWithoutJoins_erase c table columns wheres) (e.finished_erase c)
    · exact bind_erase (e.updateWithJoins_erase c table columns wheres) (e.finished_erase c)

theorem deleteVerb_erase : e.deleteVerb (c.map Compiled.erase).erase = e.deleteVerb c := rfl

theorem deleteWithoutJoins_erase (table wheres : Sql) :
    e.deleteWithoutJoins (c.map Compiled.erase).erase table.erase wheres.erase
      = (e.deleteWithoutJoins c table wheres).map Sql.erase := by
  have written := e.withOrdersAndLimit_erase c
    (e.deleteVerb c ++ " from " ++ table ++ " " ++ wheres)
  simp only [deleteWithoutJoins, deleteVerb_erase]
  split
  · simpa using written
  · simp

theorem deleteWithJoins_erase (table wheres : Sql) :
    e.deleteWithJoins (c.map Compiled.erase).erase table.erase wheres.erase
      = (e.deleteWithJoins c table wheres).map Sql.erase := by
  refine bind_erase (e.joinsSql_erase c.joins) fun joins => ?_
  simp [reference]

theorem deleteSql_erase :
    e.deleteSql (c.map Compiled.erase).erase = (e.deleteSql c).map Sql.erase := by
  have joined : (c.map Compiled.erase).erase.joins.isEmpty = c.joins.isEmpty := by
    simp [Clauses.map, Clauses.erase]
  refine bind_erase (e.target_erase c.source) fun table => ?_
  rw [byRowId?_erase]
  split
  · next rowId _ =>
    rw [map_of_bind]
    refine congrArg (e.wrap rowId >>= ·) (funext fun name => ?_)
    refine bind_erase (e.rowIdSelect_erase c rowId) fun select => ?_
    rw [← finished_erase]
    simp
  · refine bind_erase (e.wheresSql_erase c.wheres) fun wheres => ?_
    rw [joined]
    split
    · exact bind_erase (e.deleteWithoutJoins_erase c table wheres) (e.finished_erase c)
    · exact bind_erase (e.deleteWithJoins_erase c table wheres) (e.finished_erase c)

/-! ### Statements -/

omit c in
/-- No bound value reaches the words of a statement or decides between them and an error. -/
theorem sameWords_of_erase_eq {q₁ q₂ : Query} (hq : q₁.erase = q₂.erase) :
    SameWords (q₁.compiled e).select (q₂.compiled e).select ∧
    SameWords (e.existsSql (q₁.compiledClauses e)) (e.existsSql (q₂.compiledClauses e)) ∧
    SameWords (e.deleteSql (q₁.compiledClauses e)) (e.deleteSql (q₂.compiledClauses e)) ∧
    (∀ rows₁ rows₂ : List Row, rows₁.map Row.erase = rows₂.map Row.erase →
      SameWords (e.insertSql "insert" (q₁.compiledClauses e).source rows₁)
        (e.insertSql "insert" (q₂.compiledClauses e).source rows₂) ∧
      SameWords (e.insertOrIgnoreSql (q₁.compiledClauses e).source rows₁)
        (e.insertOrIgnoreSql (q₂.compiledClauses e).source rows₂) ∧
      ∀ (uniqueBy : List String) (update₁ update₂ : List UpsertAssignment),
        update₁.map UpsertAssignment.erase = update₂.map UpsertAssignment.erase →
        SameWords (e.upsertSql (q₁.compiledClauses e).source rows₁ uniqueBy update₁)
          (e.upsertSql (q₂.compiledClauses e).source rows₂ uniqueBy update₂)) ∧
    ∀ row₁ row₂ : Row, row₁.erase = row₂.erase →
      (∀ sequence : Option String,
        SameWords (e.insertGetIdSql (q₁.compiledClauses e).source row₁ sequence)
          (e.insertGetIdSql (q₂.compiledClauses e).source row₂ sequence)) ∧
      (row₁.SetsColumns → SameWords (e.updateSql (q₁.compiledClauses e) row₁)
        (e.updateSql (q₂.compiledClauses e) row₂)) := by
  have clauses : ((q₁.compiledClauses e).map Compiled.erase).erase
      = ((q₂.compiledClauses e).map Compiled.erase).erase := by
    rw [← Query.compiledClauses_erase, ← Query.compiledClauses_erase, hq]
  have source : (((q₁.compiledClauses e).source.map (Term.map Compiled.erase)).map Term.erase)
      = ((q₂.compiledClauses e).source.map (Term.map Compiled.erase)).map Term.erase :=
    congrArg Clauses.source clauses
  have compiled : (q₁.compiled e).erase = (q₂.compiled e).erase := by
    rw [← Query.compiled_erase, ← Query.compiled_erase, hq]
  refine ⟨?_, ?_, ?_, fun rows₁ rows₂ rows => ⟨?_, ?_, fun uniqueBy update₁ update₂ update => ?_⟩,
    fun row₁ row₂ row => ⟨fun sequence => ?_, fun whole => ?_⟩⟩
  · exact sameWords_of_erased rfl (congrArg Compiled.select compiled)
  · exact sameWords_of_erased (existsSql_erase e _) (clauses ▸ existsSql_erase e _)
  · exact sameWords_of_erased (deleteSql_erase e _) (clauses ▸ deleteSql_erase e _)
  · exact sameWords_of_erased (insertSql_erase e _ rows₁ "insert")
      (source ▸ rows ▸ insertSql_erase e _ rows₂ "insert")
  · exact sameWords_of_erased (insertOrIgnoreSql_erase e _ rows₁)
      (source ▸ rows ▸ insertOrIgnoreSql_erase e _ rows₂)
  · exact sameWords_of_erased (upsertSql_erase e _ rows₁ update₁ uniqueBy)
      (source ▸ rows ▸ update ▸ upsertSql_erase e _ rows₂ update₂ uniqueBy)
  · exact sameWords_of_erased (insertGetIdSql_erase e _ row₁ sequence)
      (source ▸ row ▸ insertGetIdSql_erase e _ row₂ sequence)
  · have others : row₂.SetsColumns := by
      rw [Row.SetsColumns, ← Row.columns_erase, ← row, Row.columns_erase]
      exact whole
    exact sameWords_of_erased (updateSql_erase e _ whole)
      (clauses ▸ row ▸ updateSql_erase e _ others)

end Engine

/-- The messages of a user that mention a word, among labels. -/
def mentions (user word : Binding) (labels : Json) : Query := .mk
  { source := some (.name "messages")
    wheres := [{ predicate := .basic (.name "user_id") "=" (.value user) },
      { predicate := .raw "body like ?" [word] },
      { predicate := .jsonContains "labels" labels }] }

def message (body : Binding) : Row :=
  .ofList [("messages.body", .value body), ("messages.sent", .raw "now()")]

theorem setsColumns_message (body : Binding) : (message body).SetsColumns := by
  simp [Row.SetsColumns, Row.columns, message, Row.ofList, Row.insert, Row.empty, Entries.set]
  decide

theorem mentions_sameWords :
    SameWords ((mentions (.int 7) (.text "lunch") .null).compiled (.mk .mysql {})).select
      ((mentions (.text "7 or 1 = 1") (.text "'; drop table messages") (.str "'?")).compiled
        (.mk .mysql {})).select ∧
    SameWords
      (Engine.upsertSql (.mk .mysql {})
        ((mentions (.int 7) (.text "lunch") .null).compiledClauses (.mk .mysql {})).source
        [message (.text "hello")] ["id"] [.given "body" (.value (.text "hello"))])
      (Engine.upsertSql (.mk .mysql {})
        ((mentions .null .null .null).compiledClauses (.mk .mysql {})).source
        [message (.text "'), ('")] ["id"] [.given "body" (.value .null)]) ∧
    SameWords
      (Engine.updateSql (.mk .mysql {})
        ((mentions (.int 7) (.text "lunch") .null).compiledClauses (.mk .mysql {}))
        (message (.text "hello")))
      (Engine.updateSql (.mk .mysql {})
        ((mentions .null .null .null).compiledClauses (.mk .mysql {}))
        (message (.text "', admin = '1"))) ∧
    ∃ sql, ((mentions (.int 7) (.text "lunch") .null).compiled (.mk .mysql {})).select = .ok sql :=
  have apart := Engine.sameWords_of_erase_eq (.mk .mysql {})
    (rfl : (mentions (.int 7) (.text "lunch") .null).erase = (mentions .null .null .null).erase)
  ⟨(Engine.sameWords_of_erase_eq (.mk .mysql {}) rfl).1,
    (apart.2.2.2.1 _ _ rfl).2.2 ["id"] _ _ rfl,
    (apart.2.2.2.2 _ _ rfl).2 (setsColumns_message _), ⟨_, rfl⟩⟩

end SqlCompiler
