import SqlCompiler.Proofs.RowBounds
import SqlCompiler.Proofs.TargetColumns
/-!
# Writes that name their target again

A joined delete names its target again behind the word `delete`, and so does a joined update of
SQL Server; where rows go by their identity, the select statement inside yields a column of the
target; a merge compares columns of the target. These are the words that a write uses for its
target, and they are the target's own just when its name allows.
-/

namespace SqlCompiler

namespace Sql

variable {a b sql : Sql} {words : String}

/-- The words stand somewhere in the statement. -/
def Shows (sql : Sql) (words : String) : Prop :=
  words.toList <:+: sql.text.toList

theorem shows_text (sql : Sql) : sql.Shows sql.text :=
  List.infix_refl _

theorem Shows.left (shown : a.Shows words) (b : Sql) : (a ++ b).Shows words := by
  rw [Shows, text_append, String.toList_append]
  exact shown.trans (List.prefix_append _ _).isInfix

theorem Shows.right (shown : b.Shows words) (a : Sql) : (a ++ b).Shows words := by
  rw [Shows, text_append, String.toList_append]
  exact shown.trans (List.suffix_append _ _).isInfix

theorem Shows.of_text (shown : a.Shows words) (front behind : String)
    (text : sql.text = front ++ a.text ++ behind) : sql.Shows words := by
  rw [Shows, text, String.toList_append, String.toList_append]
  exact shown.trans (List.infix_append _ _ _)

theorem Shows.join {parts : List Sql} (sep : String) (member : a ∈ parts) (shown : a.Shows words) :
    (Sql.join sep parts).Shows words := by
  fun_induction Sql.join sep parts with
  | case1 => cases member
  | case2 part => exact List.mem_singleton.mp member ▸ shown
  | case3 part parts _ ih =>
    rcases List.mem_cons.mp member with rfl | inside
    · exact (shown.left _).left _
    · exact (ih inside).right _

theorem join_front (sep : String) (a : Sql) (parts : List Sql) :
    ∃ behind, (Sql.join sep (a :: parts)).text = a.text ++ behind := by
  cases parts with
  | nil => exact ⟨"", (String.append_empty).symm⟩
  | cons part parts => exact ⟨sep ++ (Sql.join sep (part :: parts)).text, by simp [Sql.join]⟩

/-- The first two parts that are not empty stand side by side. -/
theorem spaced_front (parts : List Sql) (solid : a.text ≠ "") (solid' : b.text ≠ "") :
    ∃ behind, (spaced (empty :: a :: b :: parts)).text = a.text ++ " " ++ b.text ++ behind := by
  have first : a.isEmpty = false := by simpa using mt isEmpty_iff.mp solid
  have second : b.isEmpty = false := by simpa using mt isEmpty_iff.mp solid'
  obtain ⟨behind, text⟩ := join_front " " b (parts.filter fun part => !part.isEmpty)
  refine ⟨behind, ?_⟩
  have kept : (empty :: a :: b :: parts).filter (fun part => !part.isEmpty)
      = a :: b :: parts.filter fun part => !part.isEmpty := by
    have nothing : empty.isEmpty = true := rfl
    simp [first, second, nothing]
  rw [spaced, kept, Sql.join, text_append, text_append, text, text_ofText]
  · simp [String.append_assoc]
  · simp

/-- Words that end in a character that is not blank are not trimmed. -/
theorem Shows.trimEnd (shown : sql.Shows words) {front : List Char} {c : Char}
    (ends : words.toList = front ++ [c]) (solid : Text.isBlank c = false) :
    sql.trimEnd.Shows words := by
  obtain ⟨before, behind, text⟩ := shown
  refine ⟨before, Text.trimEnd behind, ?_⟩
  have cut : before ++ words.toList ++ behind = (before ++ front) ++ c :: behind := by
    simp [ends]
  rw [text_trimEnd, ← text, cut, trimEnd_solid solid, ends]
  simp

end Sql

namespace Engine

variable {e : Engine} {c : Clauses Compiled} {sql s : Sql} {name rowId words : String}

theorem withCtes_shows {ctes : List (Cte Compiled)} (ok : e.withCtes ctes sql = .ok s)
    (shown : sql.Shows words) : s.Shows words := by
  obtain rfl | ⟨head, text⟩ := withCtes_text ok
  · exact shown
  · exact shown.of_text ("with " ++ head ++ " ") "" (by simp [text])

theorem finished_shows (ok : e.finished c sql = .ok s) (shown : sql.Shows words)
    {front : List Char} {last : Char} (ends : words.toList = front ++ [last])
    (solid : Text.isBlank last = false) : s.Shows words :=
  withCtes_shows ok (shown.trimEnd ends solid)

/-- A quoted table ends in its quotes or in a star. -/
theorem wrapTable_solid (e : Engine) (name : String) : ∃ front last,
    (e.wrapTable name).toList = front ++ [last] ∧ Text.isBlank last = false := by
  have quoted (part : List Char) : ∃ front last, e.quote part = front ++ [last] ∧
      Text.isBlank last = false := by
    rw [quote, QuoteMarks.quote]
    split
    · exact ⟨[], '*', rfl, by decide⟩
    · exact ⟨e.dialect.quoteMarks.opening :: Text.doubled e.dialect.quoteMarks.closing part, _, rfl,
        by cases e.dialect <;> decide⟩
  have behind (before : List Char) (part : List Char) : ∃ front last,
      before ++ e.quote part = front ++ [last] ∧ Text.isBlank last = false := by
    obtain ⟨front, last, shape, solid⟩ := quoted part
    exact ⟨before ++ front, last, by rw [shape, List.append_assoc], solid⟩
  obtain ⟨segments, aliasName, spelt⟩ := Name.exists_spells name.toList
  rw [wrapTable, String.toList_ofList]
  cases spelt with
  | bare unparted spelt =>
    rw [Name.splitAlias?_eq_none_iff.mpr unparted]
    dsimp only
    rw [plainTable_eq spelt, Name.prefixLast_eq spelt.filled]
    by_cases alone : segments.dropLast = []
    · simpa [alone, Name.dotted] using quoted _
    · have filled : segments.dropLast.map e.quote ≠ [] := mt List.map_eq_nil_iff.mp alone
      rw [List.map_append, Name.dotted_append filled (by simp)]
      simpa [Name.dotted] using behind (Name.dotted (segments.dropLast.map e.quote) ++ ['.']) _
  | aliased aliased spelt =>
    rw [Name.splitAlias?_eq_some_iff.mpr aliased]
    exact behind _ _

theorem finished_shows_table (ok : e.finished c sql = .ok s)
    (shown : sql.Shows (words ++ e.wrapTable name)) : s.Shows (words ++ e.wrapTable name) := by
  obtain ⟨front, last, ends, solid⟩ := e.wrapTable_solid name
  have whole : (words ++ e.wrapTable name).toList = (words.toList ++ front) ++ [last] := by
    rw [String.toList_append, ends, List.append_assoc]
  exact finished_shows ok shown whole solid

/-! ### References in a write -/

theorem target_of_ok (named : c.source = some (.name name)) {table : Sql}
    (ok : e.target c.source = .ok table) : table = Sql.ofText (e.wrapTable name) := by
  rw [named] at ok
  exact (Except.ok.inj ok).symm

theorem reference_table (table : String) :
    reference (Sql.ofText table) = Name.referredTo table := by
  rw [reference, Sql.text_ofText]

theorem byRowId?_of_none (direct : e.rowId? = none) : e.byRowId? c = none := by
  rw [byRowId?, direct, ite_self]

section Joined

variable (named : c.source = some (.name name)) (joined : c.joins ≠ [])
include named joined

theorem deleteSql_shows (direct : e.rowId? = none) (ok : e.deleteSql c = .ok s) :
    s.Shows ("delete " ++ Name.referredTo (e.wrapTable name) ++ " from " ++ e.wrapTable name) := by
  have several : ¬ c.joins.isEmpty = true := by simpa using joined
  obtain ⟨table, tableOk, ok⟩ := bind_ok ok
  obtain rfl := target_of_ok named tableOk
  rw [byRowId?_of_none direct] at ok
  obtain ⟨wheres, -, ok⟩ := bind_ok ok
  rw [if_neg several] at ok
  obtain ⟨sql, written, ok⟩ := bind_ok ok
  obtain ⟨joins, -, written⟩ := bind_ok written
  obtain rfl := pure_ok written
  refine finished_shows_table ok ?_
  have words := Sql.shows_text ("delete " ++ Sql.ofText (Name.referredTo (e.wrapTable name))
    ++ " from " ++ Sql.ofText (e.wrapTable name))
  simp only [Sql.text_append, Sql.text_ofText] at words
  rw [reference_table]
  exact ((words.left _).left _).left _

theorem updateSql_shows (dialect : e.dialect = .sqlserver) {values : Row}
    (ok : e.updateSql c values = .ok s) : ∃ set, e.setList values = .ok set ∧
      s.Shows ("update " ++ Name.referredTo (e.wrapTable name) ++ " set " ++ set.text ++ " from "
        ++ e.wrapTable name) := by
  have several : ¬ c.joins.isEmpty = true := by simpa using joined
  have direct : e.rowId? = none := by rw [rowId?, dialect]
  obtain ⟨table, tableOk, ok⟩ := bind_ok ok
  obtain rfl := target_of_ok named tableOk
  obtain ⟨set, setOk, ok⟩ := bind_ok ok
  rw [byRowId?_of_none direct] at ok
  obtain ⟨wheres, -, ok⟩ := bind_ok ok
  rw [if_neg several] at ok
  obtain ⟨sql, written, ok⟩ := bind_ok ok
  obtain ⟨joins, -, written⟩ := bind_ok written
  rw [if_pos dialect] at written
  obtain rfl := pure_ok written
  refine ⟨set, setOk, finished_shows_table ok ?_⟩
  have words := Sql.shows_text ("update " ++ Sql.ofText (Name.referredTo (e.wrapTable name))
    ++ " set " ++ set ++ " from " ++ Sql.ofText (e.wrapTable name))
  simp only [Sql.text_append, Sql.text_ofText] at words
  rw [reference_table]
  exact (((words.left _).left _).left _).left _

end Joined

theorem columnList_singleton {column : String} (ok : e.columnList [.name column] = .ok sql) :
    ∃ written, e.wrap column = .ok written ∧ sql = Sql.ofText written := by
  obtain ⟨parts, all, rfl⟩ := map_ok ok
  obtain ⟨part, rfl, partOk⟩ := List.map_eq_singleton_iff.mp (allOk_eq_ok.mp all).symm
  obtain ⟨written, wrapped, rfl⟩ := map_ok partOk.symm
  exact ⟨written, wrapped, rfl⟩

theorem topSql_of_rowId (identity : e.rowId? = some rowId) : e.topSql c = "" := by
  obtain dialect | dialect := dialect_of_rowId identity <;> simp [topSql, dialect]

theorem lockHint_of_rowId (identity : e.rowId? = some rowId) (lock : Option Lock) :
    e.lockHint lock = "" := by
  obtain dialect | dialect := dialect_of_rowId identity <;> simp [lockHint, dialect]

theorem selectSql_of_none (counted : c.aggregate = none) : e.selectSql c = e.plainSelect c := by
  rw [selectSql, counted]

section Identities

variable (named : c.source = some (.name name)) (identity : e.rowId? = some rowId)
include named identity

theorem components_shows {column : String} (counted : c.aggregate = none)
    (columns : c.columns = some [.name column]) (ok : e.components c = .ok sql) :
    ∃ keyword written, e.selectKeyword c.distinct = .ok keyword ∧ e.wrap column = .ok written ∧
      sql.Shows (keyword.text ++ written ++ " from " ++ e.wrapTable name) := by
  obtain ⟨values, all, rfl⟩ := map_ok ok
  have listed := allOk_eq_ok.mp all
  obtain ⟨aggregate, values, rfl, aggregateOk, listed⟩ := List.map_eq_cons_iff.mp listed.symm
  obtain ⟨selected, values, rfl, selectedOk, listed⟩ := List.map_eq_cons_iff.mp listed
  obtain ⟨source, rest, rfl, sourceOk, -⟩ := List.map_eq_cons_iff.mp listed
  simp only [componentSql, counted, named] at aggregateOk selectedOk sourceOk
  obtain rfl := Except.ok.inj aggregateOk
  obtain ⟨table, tableOk, sourceOk⟩ := bind_ok sourceOk.symm
  obtain rfl := Except.ok.inj tableOk
  obtain rfl := pure_ok sourceOk
  obtain ⟨keyword, keywordOk, selectedOk⟩ := bind_ok selectedOk.symm
  obtain ⟨list, listOk, selectedOk⟩ := bind_ok selectedOk
  obtain rfl := pure_ok selectedOk
  rw [columns] at listOk
  obtain ⟨written, wrapped, rfl⟩ := columnList_singleton listOk
  have top : e.topSql c = "" := topSql_of_rowId identity
  have hint : e.lockHint c.lock = "" := lockHint_of_rowId identity c.lock
  have keywordSolid := selectKeyword_solid keywordOk
  refine ⟨keyword, written, keywordOk, wrapped, ?_⟩
  obtain ⟨behind, text⟩ := Sql.spaced_front rest
    (show (keyword ++ Sql.ofText (e.topSql c) ++ Sql.ofText written).text ≠ "" by
      simp [keywordSolid])
    (show ("from " ++ Sql.ofText (e.wrapTable name) ++ Sql.ofText (e.lockHint c.lock)).text ≠ "" by
      simp)
  refine ⟨[], behind.toList, ?_⟩
  rw [text]
  simp [top, hint]

theorem plainSelect_shows {column : String} (counted : c.aggregate = none)
    (columns : c.columns = some [.name column]) (ok : e.plainSelect c = .ok sql) :
    ∃ keyword written, e.selectKeyword c.distinct = .ok keyword ∧ e.wrap column = .ok written ∧
      sql.Shows (keyword.text ++ written ++ " from " ++ e.wrapTable name) := by
  unfold plainSelect at ok
  obtain ⟨own, ownOk, ok⟩ := bind_ok ok
  obtain ⟨body, bodyOk, ok⟩ := bind_ok ok
  rw [limitRecursion?_eq identity, ite_self] at bodyOk
  obtain ⟨keyword, written, keywordOk, wrapped, shown⟩ :=
    components_shows named identity counted columns ownOk
  have shown := withCtes_shows bodyOk shown
  refine ⟨keyword, written, keywordOk, wrapped, ?_⟩
  split at ok
  · obtain ⟨unions, -, ok⟩ := bind_ok ok
    rw [limitRecursion?_eq identity] at ok
    obtain ⟨opening, -, text⟩ := wrapUnion_text identity body
    exact withCtes_shows ok (((shown.of_text _ _ text).left _).left _)
  · exact withCtes_shows ok shown

/-- The select statement for the identities of rows yields a column of the target. -/
theorem rowIdSelect_shows (counted : c.aggregate = none) (ok : e.rowIdSelect c rowId = .ok sql) :
    ∃ keyword column, e.selectKeyword c.distinct = .ok keyword ∧
      e.targetColumn name rowId = .ok column ∧
      sql.Shows (keyword.text ++ column ++ " from " ++ e.wrapTable name) := by
  obtain ⟨target, targetOk, ok⟩ := bind_ok ok
  have column : e.targetColumn name rowId = e.wrap (target ++ "." ++ rowId) := by
    rw [targetColumn, ← named, targetOk]
    rfl
  rw [column]
  have ok := (selectSql_of_none (c := { c with
    columns := some [.name (target ++ "." ++ rowId)], ctes := [] }) counted).symm.trans ok
  exact plainSelect_shows (c := { c with
    columns := some [.name (target ++ "." ++ rowId)], ctes := [] }) named identity counted rfl ok

end Identities

/-- The rows of the write are those whose identity the select statement yields. -/
def ByIdentity (e : Engine) (c : Clauses Compiled) (rowId : String) (s : Sql) : Prop :=
  ∃ own select, e.wrap rowId = .ok own ∧ e.rowIdSelect c rowId = .ok select ∧
    s.Shows (" where " ++ own ++ " in (" ++ select.text ++ ")")

theorem byRowId?_of_some (identity : e.rowId? = some rowId)
    (picked : c.joins ≠ [] ∨ c.limit ≠ none) : e.byRowId? c = some rowId := by
  rw [byRowId?, if_neg, identity]
  rcases picked with joined | limited
  · simp [joined]
  · simp [limited]

theorem finished_byIdentity {own : String} {select write : Sql} (wrapped : e.wrap rowId = .ok own)
    (selectOk : e.rowIdSelect c rowId = .ok select)
    (ok : e.finished c (write ++ " where " ++ Sql.ofText own ++ " in (" ++ select ++ ")") = .ok s) :
    e.ByIdentity c rowId s := by
  have ends : (" where " ++ own ++ " in (" ++ select.text ++ ")").toList
      = (" where " ++ own ++ " in (" ++ select.text).toList ++ [')'] := by simp
  refine ⟨own, select, wrapped, selectOk, finished_shows ok ?_ ends rfl⟩
  exact ⟨write.text.toList, [], by simp⟩

theorem deleteSql_byIdentity (identity : e.rowId? = some rowId)
    (picked : c.joins ≠ [] ∨ c.limit ≠ none) (ok : e.deleteSql c = .ok s) :
    e.ByIdentity c rowId s := by
  obtain ⟨table, -, ok⟩ := bind_ok ok
  rw [byRowId?_of_some identity picked] at ok
  obtain ⟨own, wrapped, ok⟩ := bind_ok ok
  obtain ⟨select, selectOk, ok⟩ := bind_ok ok
  exact finished_byIdentity wrapped selectOk ok

theorem updateSql_byIdentity (identity : e.rowId? = some rowId)
    (picked : c.joins ≠ [] ∨ c.limit ≠ none) {values : Row} (ok : e.updateSql c values = .ok s) :
    e.ByIdentity c rowId s := by
  obtain ⟨table, -, ok⟩ := bind_ok ok
  obtain ⟨set, -, ok⟩ := bind_ok ok
  rw [byRowId?_of_some identity picked] at ok
  obtain ⟨own, wrapped, ok⟩ := bind_ok ok
  obtain ⟨select, selectOk, ok⟩ := bind_ok ok
  exact finished_byIdentity wrapped selectOk ok

/-- A merge compares each unique column of the merged rows with that of the target. -/
def Compares (e : Engine) (name : String) (uniqueBy : List String) (s : Sql) : Prop :=
  ∀ column ∈ uniqueBy, ∃ merged own, e.wrap (mergeSource ++ "." ++ column) = .ok merged ∧
    e.targetColumn name column = .ok own ∧ s.Shows (merged ++ " = " ++ own)

theorem Compares.left {uniqueBy : List String} (h : e.Compares name uniqueBy sql) (b : Sql) :
    e.Compares name uniqueBy (sql ++ b) := by
  intro column member
  obtain ⟨merged, own, mergedOk, ownOk, shown⟩ := h column member
  exact ⟨merged, own, mergedOk, ownOk, shown.left b⟩

theorem Compares.right {uniqueBy : List String} (h : e.Compares name uniqueBy sql) (a : Sql) :
    e.Compares name uniqueBy (a ++ sql) := by
  intro column member
  obtain ⟨merged, own, mergedOk, ownOk, shown⟩ := h column member
  exact ⟨merged, own, mergedOk, ownOk, shown.right a⟩

theorem matched_compares {there : String} {uniqueBy : List String}
    (target : targetAlias (some (.name name)) = .ok there) :
    Yields (e.Compares name uniqueBy) (joinOutcomes " and " <| uniqueBy.map fun column => do
      let merged ← e.wrap (mergeSource ++ "." ++ column)
      let own ← e.wrap (there ++ "." ++ column)
      return merged ++ " = " ++ Sql.ofText own) := by
  intro sql ok column member
  obtain ⟨parts, all, rfl⟩ := map_ok ok
  have listed := allOk_eq_ok.mp all
  obtain ⟨part, inside, partOk⟩ := List.mem_map.mp (listed ▸ List.mem_map_of_mem member)
  obtain ⟨merged, mergedOk, rest⟩ := bind_ok partOk.symm
  obtain ⟨own, ownOk, last⟩ := bind_ok rest
  obtain rfl := pure_ok last
  refine ⟨merged, own, mergedOk, ?_, Sql.Shows.join " and " inside ?_⟩
  · rw [targetColumn, target]
    exact ownOk
  · have words := Sql.shows_text (Sql.ofText merged ++ " = " ++ Sql.ofText own)
    simpa only [Sql.text_append, Sql.text_ofText] using words

theorem mergeUpsert_compares (named : c.source = some (.name name)) (rows : List Row)
    (uniqueBy : List String) (update : List UpsertAssignment) :
    Yields (e.Compares name uniqueBy) (e.mergeUpsert c.source rows uniqueBy update) := by
  have any {α : Type} (x : Except CompileError α) : Yields (fun _ => True) x := fun _ _ => trivial
  have itself {α : Type} (x : Except CompileError α) : Yields (fun a => x = .ok a) x :=
    fun _ ok => ok
  rw [named]
  change Yields _ (if uniqueBy.isEmpty then _ else _)
  split
  · exact yields_error
  refine (any _).bind fun aligned _ => ?_
  change Yields _ (if aligned.columns.isEmpty then _ else _)
  split
  · exact yields_error
  refine (itself _).bind fun there target => ?_
  refine (any _).bind fun columns _ => ?_
  refine (any _).bind fun table _ => ?_
  refine (matched_compares target).bind fun matched compares => ?_
  refine (any _).bind fun assignments _ => ?_
  have written (updated : Sql) : e.Compares name uniqueBy
      ("merge " ++ table ++ " using (values " ++ aligned.valuesSql ++ ") "
        ++ e.wrapTable mergeSource ++ " (" ++ columns ++ ") on " ++ matched ++ " " ++ updated
        ++ "when not matched then insert (" ++ columns ++ ") values (" ++ columns ++ ");") :=
    (((((((compares.right _).left _).left _).left _).left _).left _).left _).left _
  split <;> exact yields_pure.mpr (written _)

/-! ### Writes to a named target -/

theorem deleteSql_of_ok {q : Query} {s : Statement} (ok : e.delete q = .ok s) :
    e.deleteSql (q.compiledClauses e) = .ok s.sql := by
  obtain ⟨sql, sqlOk, last⟩ := bind_ok ok
  obtain rfl := pure_ok last
  exact sqlOk

theorem updateSql_of_ok {q : Query} {values : Row} {s : Statement}
    (ok : e.update q values = .ok s) :
    e.updateSql (q.compiledClauses e) values = .ok s.sql := by
  obtain ⟨sql, sqlOk, ok⟩ := bind_ok ok
  obtain ⟨bindings, -, last⟩ := bind_ok ok
  obtain rfl := pure_ok last
  exact sqlOk

/-- Where the writes of a query refer back to its target. -/
structure RefersBack (e : Engine) (q : Query) (name : String) : Prop where
  joinedDelete : q.clauses.joins ≠ [] → e.rowId? = none → ∀ s, e.delete q = .ok s →
    s.sql.Shows
      ("delete " ++ Name.referredTo (e.wrapTable name) ++ " from " ++ e.wrapTable name)
  joinedUpdate : q.clauses.joins ≠ [] → e.dialect = .sqlserver → ∀ values s,
    e.update q values = .ok s → ∃ set, e.setList values = .ok set ∧
      s.sql.Shows ("update " ++ Name.referredTo (e.wrapTable name) ++ " set " ++ set.text
        ++ " from " ++ e.wrapTable name)
  byIdentity : q.clauses.joins ≠ [] ∨ q.clauses.limit ≠ none → ∀ rowId,
    e.rowId? = some rowId → q.clauses.aggregate = none →
    ∀ s, e.delete q = .ok s ∨ (∃ values, e.update q values = .ok s) →
      ∃ own select keyword column, e.wrap rowId = .ok own ∧
        s.sql.Shows (" where " ++ own ++ " in (" ++ select ++ ")") ∧
        e.selectKeyword q.clauses.distinct = .ok keyword ∧
        e.targetColumn name rowId = .ok column ∧
        (keyword.text ++ column ++ " from " ++ e.wrapTable name).toList <:+: select.toList
  merge : e.dialect = .sqlserver → ∀ rows uniqueBy update s,
    e.upsert q rows uniqueBy update = .ok s → e.Compares name uniqueBy s.sql

theorem ByIdentity.shows (named : c.source = some (.name name)) (identity : e.rowId? = some rowId)
    (counted : c.aggregate = none) (h : e.ByIdentity c rowId s) :
    ∃ own select keyword column, e.wrap rowId = .ok own ∧
      s.Shows (" where " ++ own ++ " in (" ++ select ++ ")") ∧
      e.selectKeyword c.distinct = .ok keyword ∧ e.targetColumn name rowId = .ok column ∧
      (keyword.text ++ column ++ " from " ++ e.wrapTable name).toList <:+: select.toList := by
  obtain ⟨own, select, wrapped, selectOk, shown⟩ := h
  obtain ⟨keyword, column, keywordOk, columnOk, inside⟩ :=
    rowIdSelect_shows named identity counted selectOk
  exact ⟨own, select.text, keyword, column, wrapped, shown, keywordOk, columnOk, inside⟩

theorem refersBack {q : Query} (named : q.clauses.source = some (.name name)) :
    e.RefersBack q name := by
  have source : (q.compiledClauses e).source = some (.name name) := by
    rw [Query.compiledClauses, Clauses.map, named]
    rfl
  have joins : q.clauses.joins ≠ [] → (q.compiledClauses e).joins ≠ [] := fun joined =>
    mt List.map_eq_nil_iff.mp joined
  have aggregate : q.clauses.aggregate = none → (q.compiledClauses e).aggregate = none :=
    fun counted => by rw [Query.compiledClauses, Clauses.map, counted]; rfl
  constructor
  · intro joined direct s ok
    exact deleteSql_shows source (joins joined) direct (deleteSql_of_ok ok)
  · intro joined dialect values s ok
    exact updateSql_shows source (joins joined) dialect (updateSql_of_ok ok)
  · intro picked rowId identity counted s written
    have picked : (q.compiledClauses e).joins ≠ [] ∨ (q.compiledClauses e).limit ≠ none :=
      picked.imp_left joins
    have rows : e.ByIdentity (q.compiledClauses e) rowId s.sql := by
      rcases written with ok | ⟨values, ok⟩
      · exact deleteSql_byIdentity identity picked (deleteSql_of_ok ok)
      · exact updateSql_byIdentity identity picked (updateSql_of_ok ok)
    exact rows.shows source identity (aggregate counted)
  · intro dialect rows uniqueBy update s ok
    obtain ⟨sql, sqlOk, ok⟩ := bind_ok ok
    obtain ⟨bindings, -, last⟩ := bind_ok ok
    obtain rfl := pure_ok last
    rw [upsertSql, dialect] at sqlOk
    exact mergeUpsert_compares source rows uniqueBy update sql sqlOk

/-- The words by which the writes of a query refer back to its target are the target's own alias or
name just when no word before an alias comes up inside of it, or, in front of a column, when its
name is requoted as it was. -/
theorem writes_nameTarget_iff (e : Engine) {name : String} {segments : List (List Char)}
    {aliasName : Option (List Char)} (spelt : Name.Spells name.toList segments aliasName) :
    (∀ q : Query, q.clauses.source = some (.name name) → e.RefersBack q name) ∧
    (Name.referredTo (e.wrapTable name) = e.ownName name ↔
      ¬ Name.asWord <:+: e.settings.tablePrefix.toList ++ Name.called segments aliasName) ∧
    ∀ (column : String) (columns : List (List Char)), Name.Plain column.toList columns →
      (e.targetColumn name column = .ok (e.ownColumn name columns) ↔
        Name.Requoted e.settings.tablePrefix.toList name.toList aliasName) :=
  ⟨fun _ => refersBack, referredTo_wrapTable_iff spelt, fun _ _ => targetColumn_eq_iff spelt⟩

/-- The first rows of a target. -/
def firstRows (target : String) : Query :=
  .mk { source := some (.name target), limit := some 5 }

/-- An aliased table in a schema. -/
theorem aliasedUsers_named :
    (∀ q : Query, q.clauses.source = some (.name "public.users as u") →
      RefersBack ⟨.postgres, { tablePrefix := "app_" }⟩ q "public.users as u") ∧
    Name.referredTo (wrapTable ⟨.postgres, { tablePrefix := "app_" }⟩ "public.users as u")
      = "\"app_u\"" ∧
    targetColumn ⟨.postgres, { tablePrefix := "app_" }⟩ "public.users as u" "ctid"
      = .ok "\"app_u\".\"ctid\"" := by
  have cut : Name.splitAlias? "public.users as u".toList
      = some ("public.users".toList, "u".toList) := by decide
  have spelt : Name.Spells "public.users as u".toList ["public".toList, "users".toList]
      (some "u".toList) :=
    .aliased (Name.splitAlias?_eq_some_iff.mp cut) (Name.segments_iff.mpr (by decide))
  have plain : Name.Plain "ctid".toList ["ctid".toList] :=
    ⟨Name.segments_iff.mpr (by decide), Name.splitAlias?_eq_none_iff.mp (by decide),
      mt Text.hasArrow_iff.mpr (by decide)⟩
  have alone : Name.Requoted "app_".toList "public.users as u".toList (some "u".toList) :=
    ⟨mt Text.hasArrow_iff.mpr (by decide), Name.splitAlias?_eq_none_iff.mp (by decide),
      .inl (by decide)⟩
  obtain ⟨writes, called, column⟩ :=
    writes_nameTarget_iff ⟨.postgres, { tablePrefix := "app_" }⟩ spelt
  have word : ¬ Name.asWord <:+: "app_".toList ++ Name.called ["public".toList, "users".toList]
      (some "u".toList) := by
    rw [← Text.afterLast?_eq_none_iff Name.asWord_solid]
    decide
  exact ⟨writes, called.mpr word, (column "ctid" _ plain).mpr alone⟩

/-- The same table without its alias: the prefix goes to the schema. -/
theorem schemaUsers_missed :
    (∃ s, delete ⟨.postgres, { tablePrefix := "app_" }⟩ (firstRows "public.users") = .ok s ∧
      s.sql.text = "delete from \"public\".\"app_users\" where \"ctid\" in "
        ++ "(select \"app_public\".\"users\".\"ctid\" from \"public\".\"app_users\" limit 5)") ∧
    ownName ⟨.postgres, { tablePrefix := "app_" }⟩ "public.users" = "\"public\".\"app_users\"" ∧
    targetColumn ⟨.postgres, { tablePrefix := "app_" }⟩ "public.users" "ctid"
      ≠ .ok (ownColumn ⟨.postgres, { tablePrefix := "app_" }⟩ "public.users" ["ctid".toList]) := by
  refine ⟨⟨_, rfl, by decide⟩, by decide, ?_⟩
  decide

end Engine

end SqlCompiler
