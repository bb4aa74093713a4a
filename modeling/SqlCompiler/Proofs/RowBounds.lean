import SqlCompiler.Proofs.SelectParity
import SqlCompiler.Statement
/-!
# Row limits of writes

A write with a limit carries it in its own text: behind its conditions, before its table, or in the
select statement that yields the identities of its rows. Where a dialect has no limit in writes, the
write is that of the query without one.
-/

namespace SqlCompiler

/-- A select statement with its limit, and `tail` behind the limit. That of a union is in its first
member, that of an aggregate over rows in the statement below it. -/
inductive LimitedSelect (n : Nat) (tail : String) : String → Prop
  | own (body : String) : LimitedSelect n tail (body ++ " limit " ++ natText n ++ tail)
  | first {opening select : String} (unions : String) :
      opening = "(" ∨ opening = "select * from (" → LimitedSelect n tail select →
      LimitedSelect n tail (opening ++ select ++ ")" ++ " " ++ unions)
  | counted {select : String} (head name : String) : LimitedSelect n tail select →
      LimitedSelect n tail (head ++ " from (" ++ select ++ ") as " ++ name)
  | behind {select : String} (ctes : String) : LimitedSelect n tail select →
      LimitedSelect n tail ("with " ++ ctes ++ " " ++ select)

/-- A write that carries the limit `n`: at its end, before its table, or in the select statement for
the identities of its rows. In the first member of a union, or below an aggregate, a limit does not
say how many rows are written. -/
inductive RowBound (n : Nat) (tail : String) : String → Prop
  | limit (write : String) : RowBound n tail (write ++ " limit " ++ natText n)
  | top (rest : String) : RowBound n tail ("delete top (" ++ natText n ++ ") from" ++ rest)
  | identities {select : String} (write : String) : LimitedSelect n tail select →
      RowBound n tail (write ++ " in (" ++ select ++ ")")
  | behind {write : String} (ctes : String) : RowBound n tail write →
      RowBound n tail ("with " ++ ctes ++ " " ++ write)

variable {n : Nat} {tail text : String}

theorem LimitedSelect.mentions (bound : LimitedSelect n tail text) :
    ∀ c ∈ natDigits n, c ∈ text.toList := by
  intro c digit
  induction bound with
  | own body => simp [natText, digit]
  | first unions opened select ih | counted head name select ih | behind ctes select ih => simp [ih]

theorem RowBound.mentions (bound : RowBound n tail text) : ∀ c ∈ natDigits n, c ∈ text.toList := by
  intro c digit
  induction bound with
  | limit write | top rest => simp [natText, digit]
  | identities write select => simp [select.mentions c digit]
  | behind ctes write ih => simp [ih]

namespace Engine

variable {e : Engine} {c : Clauses Compiled} {sql : Sql}

/-! ### Limited select statements -/

/-- What stands behind the limit of a select statement. -/
def behindLimit (e : Engine) (c : Clauses Compiled) : String :=
  Sql.behind (e.offsetSql c.paging) ++ Sql.behind ((c.lock.map e.lockSql).getD "")

theorem withCtes_text {ctes : List (Cte Compiled)} {s : Sql} (ok : e.withCtes ctes sql = .ok s) :
    s = sql ∨ ∃ head, s.text = "with " ++ head ++ " " ++ sql.text := by
  unfold withCtes at ok
  split at ok
  · exact .inl (Except.ok.inj ok).symm
  · right
    obtain ⟨head, headOk, done⟩ := bind_ok ok
    obtain rfl := pure_ok done
    unfold ctesSql at headOk
    split at headOk
    · contradiction
    · obtain ⟨statements, -, done⟩ := bind_ok headOk
      obtain rfl := pure_ok done
      refine ⟨(if ctes.any Cte.recursive then e.recursiveKeyword else "") ++ statements.text, ?_⟩
      simp [String.append_assoc]

theorem selectKeyword_select {distinct : Distinct} (ok : e.selectKeyword distinct = .ok sql) :
    ∃ rear, sql.text = "select" ++ rear := by
  unfold selectKeyword at ok
  split at ok
  · obtain ⟨names, -, done⟩ := bind_ok ok
    obtain rfl := pure_ok done
    exact ⟨" distinct on (" ++ names.text ++ ") ", by simp [← String.append_assoc]⟩
  · obtain rfl := Except.ok.inj ok
    exact ⟨" ", Sql.text_ofText _⟩
  · obtain rfl := Except.ok.inj ok
    exact ⟨" distinct ", Sql.text_ofText _⟩

theorem selectKeyword_solid {distinct : Distinct} (ok : e.selectKeyword distinct = .ok sql) :
    sql.text ≠ "" := by
  obtain ⟨rear, text⟩ := selectKeyword_select ok
  simp [text]

theorem columnsSql_select (ok : e.columnsSql c = .ok sql) :
    ∃ rear, sql.text = "select" ++ rear := by
  obtain ⟨keyword, keywordOk, rest⟩ := bind_ok ok
  obtain ⟨columns, -, done⟩ := bind_ok rest
  obtain rfl := pure_ok done
  obtain ⟨rear, text⟩ := selectKeyword_select keywordOk
  exact ⟨rear ++ e.topSql c ++ columns.text, by simp [text, String.append_assoc]⟩

theorem aggregateSql_select (distinct : Distinct) (a : Aggregate Compiled) :
    Yields (fun sql => ∃ rear, sql.text = "select" ++ rear) (e.aggregateSql distinct a) := by
  have columns : Yields (fun _ => True)
      (if a.columns.isEmpty then .ok (Sql.ofText "*") else e.columnList a.columns) :=
    fun _ _ => trivial
  have word (counted : Sql) : ∃ rear,
      ("select " ++ a.function ++ "(" ++ counted ++ ") as aggregate" : Sql).text
        = "select" ++ rear :=
    ⟨" " ++ a.function ++ "(" ++ counted.text ++ ") as aggregate", by simp [← String.append_assoc]⟩
  refine columns.ite_bind fun columns _ => ?_
  cases distinct with
  | off | all => exact yields_pure.mpr (word _)
  | on names =>
    intro sql ok
    obtain ⟨counted, -, done⟩ := bind_ok ok
    obtain rfl := pure_ok done
    exact word _

/-- The parts of a select statement before its limit. -/
def frontComponents : List Component :=
  [.aggregate, .columns, .source, .indexHint, .joins, .wheres, .groups, .havings, .orders]

/-- What a select statement begins with is never empty, so that its limit stands behind it. -/
theorem front_solid {front : List Sql}
    (ok : front.map .ok = frontComponents.map (e.componentSql c)) :
    ∃ part ∈ front, part.text ≠ "" := by
  have there (part : Component) (member : part ∈ frontComponents) :
      ∃ sql ∈ front, e.componentSql c part = .ok sql := by
    have compiled := List.mem_map_of_mem (f := e.componentSql c) member
    rw [← ok] at compiled
    obtain ⟨sql, inside, same⟩ := List.mem_map.mp compiled
    exact ⟨sql, inside, same.symm⟩
  cases counted : c.aggregate with
  | some a =>
    obtain ⟨sql, inside, ok⟩ := there .aggregate (by decide)
    rw [componentSql, counted] at ok
    obtain ⟨rear, text⟩ := aggregateSql_select _ _ sql ok
    exact ⟨sql, inside, by simp [text]⟩
  | none =>
    obtain ⟨sql, inside, ok⟩ := there .columns (by decide)
    rw [componentSql, counted] at ok
    obtain ⟨rear, text⟩ := columnsSql_select ok
    exact ⟨sql, inside, by simp [text]⟩

theorem lock_text (ok : e.componentSql c .lock = .ok sql) :
    sql.text = (c.lock.map e.lockSql).getD "" := by
  unfold componentSql at ok
  cases held : c.lock with
  | none =>
    rw [held] at ok
    obtain rfl := Except.ok.inj ok
    rfl
  | some lock =>
    rw [held] at ok
    obtain rfl := Except.ok.inj ok
    exact Sql.text_ofText _

theorem components_text (dialect : e.dialect ≠ .sqlserver) (limited : c.limit = some n)
    (ok : e.components c = .ok sql) :
    ∃ body, sql.text = body ++ " limit " ++ natText n ++ e.behindLimit c := by
  obtain ⟨values, all, rfl⟩ := map_ok ok
  have listed := allOk_eq_ok.mp all
  rw [selectComponents, if_neg dialect, List.map_append, List.map_append] at listed
  obtain ⟨before, ends, rfl, beforeOk, endOk⟩ := List.map_eq_append_iff.mp listed.symm
  obtain ⟨front, paging, rfl, frontOk, pagingOk⟩ := List.map_eq_append_iff.mp beforeOk
  obtain ⟨lock, rfl, lockOk⟩ := List.map_eq_singleton_iff.mp endOk
  obtain ⟨limit, rest, rfl, limitOk, restOk⟩ := List.map_eq_cons_iff.mp pagingOk
  obtain ⟨offset, rfl, offsetOk⟩ := List.map_eq_singleton_iff.mp restOk
  obtain rfl := Except.ok.inj limitOk
  obtain rfl := Except.ok.inj offsetOk
  have solid := front_solid frontOk
  have more (parts : List Sql) : ∃ part ∈ front ++ parts, part.text ≠ "" :=
    solid.imp fun part there => ⟨List.mem_append_left _ there.1, there.2⟩
  have cut : ∀ limit offset : Sql,
      front ++ [limit, offset] ++ [lock] = front ++ [limit] ++ [offset] ++ [lock] := by simp
  have shown : Sql.behind (e.limitSql c.paging) = " limit " ++ natText n := by
    have text : e.limitSql c.paging = "limit " ++ natText n := by
      simp [limitSql, Clauses.paging, limited]
    rw [Sql.behind, text, if_neg (by simp), ← String.append_assoc]
    rfl
  refine ⟨(Sql.spaced front).text, ?_⟩
  rw [cut, Sql.text_spaced_concat (by simpa using more [_, _]), Sql.text_spaced_concat (more _),
    Sql.text_spaced_concat solid, Sql.text_ofText, Sql.text_ofText, lock_text lockOk.symm, shown,
    behindLimit]
  simp only [String.append_assoc]

theorem withCtes_limited {ctes : List (Cte Compiled)} {s : Sql} (ok : e.withCtes ctes sql = .ok s)
    (bound : LimitedSelect n tail sql.text) : LimitedSelect n tail s.text := by
  obtain rfl | ⟨head, text⟩ := withCtes_text ok
  · exact bound
  · rw [text]
    exact .behind head bound

/-- The identities of rows: Postgres and SQLite write no limit of recursion. -/
theorem dialect_of_rowId {rowId : String} (identity : e.rowId? = some rowId) :
    e.dialect = .postgres ∨ e.dialect = .sqlite := by
  unfold rowId? at identity
  split at identity
  · next dialect => exact .inl dialect
  · next dialect => exact .inr dialect
  all_goals cases identity

section Identities

variable {rowId : String} (identity : e.rowId? = some rowId)
include identity

theorem limitRecursion?_eq (limit : Option Nat) (sql : Sql) :
    e.limitRecursion? limit sql = sql := by
  obtain dialect | dialect := dialect_of_rowId identity
  all_goals
    unfold limitRecursion? limitRecursion
    rw [dialect]
    cases limit <;> rfl

theorem wrapUnion_text (sql : Sql) : ∃ opening, (opening = "(" ∨ opening = "select * from (") ∧
    (e.wrapUnion sql).text = opening ++ sql.text ++ ")" := by
  obtain dialect | dialect := dialect_of_rowId identity
  · refine ⟨_, .inl rfl, ?_⟩
    simp [wrapUnion, dialect, Sql.parenthesized, String.append_assoc]
  · refine ⟨_, .inr rfl, ?_⟩
    simp [wrapUnion, dialect, Sql.parenthesized, ← String.append_assoc]

theorem components_limited (limited : c.limit = some n) (ok : e.components c = .ok sql) :
    LimitedSelect n (e.behindLimit c) sql.text := by
  have dialect : e.dialect ≠ .sqlserver := by
    obtain dialect | dialect := dialect_of_rowId identity <;> simp [dialect]
  obtain ⟨body, text⟩ := components_text dialect limited ok
  rw [text]
  exact .own body

theorem plainSelect_limited (limited : c.limit = some n) (ok : e.plainSelect c = .ok sql) :
    LimitedSelect n (e.behindLimit c) sql.text := by
  unfold plainSelect at ok
  obtain ⟨own, ownOk, ok⟩ := bind_ok ok
  obtain ⟨body, bodyOk, ok⟩ := bind_ok ok
  rw [limitRecursion?_eq identity, ite_self] at bodyOk
  have bound := withCtes_limited bodyOk (components_limited identity limited ownOk)
  split at ok
  · obtain ⟨unions, -, ok⟩ := bind_ok ok
    rw [limitRecursion?_eq identity] at ok
    apply withCtes_limited ok
    obtain ⟨opening, opened, wrapped⟩ := wrapUnion_text identity body
    rw [Sql.text_append, Sql.text_append, wrapped, Sql.text_ofText]
    exact .first unions.text opened bound
  · exact withCtes_limited ok bound

theorem rowAggregate_limited {a : Aggregate Compiled} (limited : c.limit = some n)
    (ok : e.rowAggregate c a = .ok sql) : LimitedSelect n (e.behindLimit c) sql.text := by
  obtain ⟨head, -, ok⟩ := bind_ok ok
  obtain ⟨inner, innerOk, ok⟩ := bind_ok ok
  dsimp only at ok
  rw [limitRecursion?_eq identity] at ok
  apply withCtes_limited ok
  have rows : (rowsOf c).limit = some n := limited
  have bound := plainSelect_limited identity rows innerOk
  simp only [Sql.text_append, Sql.text_ofText]
  exact bound.counted head.text (e.wrapTable "temp_table")

theorem selectSql_limited (limited : c.limit = some n) (ok : e.selectSql c = .ok sql) :
    LimitedSelect n (e.behindLimit c) sql.text := by
  unfold selectSql at ok
  split at ok
  · split at ok
    · exact rowAggregate_limited identity limited ok
    · exact plainSelect_limited identity limited ok
  · exact plainSelect_limited identity limited ok

theorem rowIdSelect_limited (limited : c.limit = some n) (ok : e.rowIdSelect c rowId = .ok sql) :
    LimitedSelect n (e.behindLimit c) sql.text := by
  obtain ⟨target, -, ok⟩ := bind_ok ok
  have identities : Clauses.limit { c with
      columns := some [.name (target ++ "." ++ rowId)], ctes := [] } = some n := limited
  have bound := selectSql_limited identity identities ok
  exact bound

end Identities

/-! ### Bounded writes -/

theorem not_isBlank_of_isDigit {c : Char} (digit : c.isDigit = true) : Text.isBlank c = false := by
  simp only [Char.isDigit, Bool.and_eq_true, decide_eq_true_eq, ge_iff_le,
    UInt32.le_iff_toNat_le] at digit
  have low : 48 ≤ c.toNat := digit.1
  have high : c.toNat ≤ 57 := digit.2
  simp [Text.isBlank]
  omega

theorem natText_solid (n : Nat) : ∃ front c, (natText n).toList = front ++ [c] ∧
    Text.isBlank c = false := by
  have some : natDigits n ≠ [] := Nat.toDigits_ne_nil
  refine ⟨(natDigits n).dropLast, (natDigits n).getLast some, ?_, ?_⟩
  · rw [natText, String.toList_ofList, List.dropLast_concat_getLast]
  · have member := List.getLast_mem some
    exact not_isBlank_of_isDigit (isDigit_of_mem_natDigits _ member)

theorem finished_bounded {s : Sql} (ok : e.finished c sql = .ok s)
    (bound : RowBound n tail sql.trimEnd.text) : RowBound n tail s.text := by
  obtain rfl | ⟨head, text⟩ := withCtes_text ok
  · exact bound
  · rw [text]
    exact .behind head bound

theorem withOrdersAndLimit_text (limited : c.limit = some n) {s : Sql}
    (ok : e.withOrdersAndLimit c sql = .ok s) :
    ∃ write, s.text = write ++ " limit " ++ natText n := by
  unfold withOrdersAndLimit at ok
  rw [limited] at ok
  obtain ⟨orders, -, done⟩ := bind_ok ok
  obtain rfl := pure_ok done
  have shown : (Sql.ofText "limit " ++ Sql.ofText (natText n)).isEmpty = false := by
    apply Bool.eq_false_iff.mpr
    rw [Ne, Sql.isEmpty_iff]
    simp
  have last (part : Sql) (solid : part.isEmpty = false) :
      [orders, part].filter (fun part => !part.isEmpty)
        = [orders].filter (fun part => !part.isEmpty) ++ [part] := by
    rw [← List.singleton_append, List.filter_append]
    simp [solid]
  have words (text : String) : text ++ " " ++ "limit " = text ++ " limit " := by
    rw [String.append_assoc]
    rfl
  refine ⟨(Sql.join " " (sql.trimEnd :: [orders].filter fun part => !part.isEmpty)).text, ?_⟩
  rw [last _ shown, Sql.text_join_concat, Sql.text_append, Sql.text_ofText, Sql.text_ofText,
    ← String.append_assoc, words]

theorem withOrdersAndLimit_bounded (limited : c.limit = some n) {s t : Sql}
    (ok : e.withOrdersAndLimit c sql = .ok s) (finished : e.finished c s = .ok t) :
    RowBound n tail t.text := by
  obtain ⟨write, text⟩ := withOrdersAndLimit_text limited ok
  obtain ⟨front, last, ends, solid⟩ := natText_solid n
  have whole : s.text.toList = ((write ++ " limit ").toList ++ front) ++ [last] := by
    rw [text, String.toList_append, ends, List.append_assoc]
  apply finished_bounded finished
  rw [Sql.text_trimEnd_of_solid whole solid, text]
  exact .limit write

/-- A write that goes by the identities of its rows. -/
theorem byIdentity_bounded {rowId : String} (identity : e.rowId? = some rowId)
    (limited : c.limit = some n) {write select s : Sql}
    (selectOk : e.rowIdSelect c rowId = .ok select)
    (ok : e.finished c (write ++ Sql.ofText " in (" ++ select ++ Sql.ofText ")") = .ok s) :
    RowBound n (e.behindLimit c) s.text := by
  apply finished_bounded ok
  have bound := rowIdSelect_limited identity limited selectOk
  have ends : (write ++ " in (" ++ select ++ ")").text.toList
      = (write ++ " in (" ++ select).text.toList ++ [')'] := by
    simp
  rw [Sql.text_trimEnd_of_solid ends rfl]
  simpa [String.append_assoc] using RowBound.identities write.text bound

variable (e) {Q : Type}

/-- Whether an update keeps to a limit. -/
def BoundsUpdates (c : Clauses Q) : Prop :=
  match e.dialect with
  | .postgres | .sqlite => True
  | .mysql => c.joins = []
  | .generic | .sqlserver => False

/-- Whether a delete keeps to a limit. SQL Server does for some rows of a table alone. -/
def BoundsDeletes (c : Clauses Q) : Prop :=
  match e.dialect with
  | .postgres | .sqlite => True
  | .mysql => c.joins = []
  | .sqlserver => c.joins = [] ∧ c.limit ≠ some 0 ∧ c.offset.getD 0 = 0
  | .generic => False

/-- Whether writes have no limit at all. -/
def TakesNoLimit (c : Clauses Q) : Prop :=
  match e.dialect with
  | .generic => True
  | .mysql => c.joins ≠ []
  | .postgres | .sqlite | .sqlserver => False

section Maps

variable {e} {B : Type} {c : Clauses Q} (f : Q → B)

theorem boundsUpdates_map : e.BoundsUpdates (c.map f) ↔ e.BoundsUpdates c := by
  unfold BoundsUpdates
  simp [Clauses.map]

theorem boundsDeletes_map : e.BoundsDeletes (c.map f) ↔ e.BoundsDeletes c := by
  unfold BoundsDeletes
  simp [Clauses.map]

theorem takesNoLimit_map : e.TakesNoLimit (c.map f) ↔ e.TakesNoLimit c := by
  unfold TakesNoLimit
  simp [Clauses.map]

end Maps

variable {e}

/-- Of the dialects without identities only MySQL bounds an update. -/
theorem mysql_of_boundsUpdates {c : Clauses Q} (identity : e.rowId? = none)
    (bounds : e.BoundsUpdates c) : e.dialect = .mysql ∧ c.joins = [] := by
  cases dialect : e.dialect <;> simp_all [rowId?, BoundsUpdates]

theorem dialect_of_boundsDeletes {c : Clauses Q} (identity : e.rowId? = none)
    (bounds : e.BoundsDeletes c) : c.joins = [] ∧ (e.dialect = .mysql ∨
      e.dialect = .sqlserver ∧ c.limit ≠ some 0 ∧ c.offset.getD 0 = 0) := by
  cases dialect : e.dialect <;> simp_all [rowId?, BoundsDeletes]

theorem updateSql_bounded {values : Row} (limited : c.limit = some n) (bounds : e.BoundsUpdates c)
    (ok : e.updateSql c values = .ok sql) : RowBound n (e.behindLimit c) sql.text := by
  obtain ⟨table, -, ok⟩ := bind_ok ok
  obtain ⟨columns, -, ok⟩ := bind_ok ok
  have byRowId : e.byRowId? c = e.rowId? := by simp [byRowId?, limited]
  rw [byRowId] at ok
  cases identity : e.rowId? with
  | some rowId =>
    rw [identity] at ok
    obtain ⟨name, -, ok⟩ := bind_ok ok
    obtain ⟨select, selectOk, ok⟩ := bind_ok ok
    exact byIdentity_bounded identity limited selectOk ok
  | none =>
    rw [identity] at ok
    obtain ⟨wheres, -, ok⟩ := bind_ok ok
    obtain ⟨dialect, alone⟩ := mysql_of_boundsUpdates identity bounds
    rw [alone, List.isEmpty_nil, if_pos rfl] at ok
    obtain ⟨write, writeOk, ok⟩ := bind_ok ok
    rw [updateWithoutJoins, if_pos dialect] at writeOk
    exact withOrdersAndLimit_bounded limited writeOk ok

theorem deleteTop_bounded (dialect : e.dialect = .sqlserver) (limited : c.limit = some n)
    (positive : c.limit ≠ some 0) (start : c.offset.getD 0 = 0) {rest s : Sql}
    (ok : e.finished c (Sql.ofText (e.deleteVerb c) ++ (Sql.ofText " from " ++ rest)) = .ok s) :
    RowBound n tail s.text := by
  have more : n > 0 := by
    rw [limited] at positive
    exact Nat.pos_of_ne_zero fun zero => positive (congrArg some zero)
  have verb : e.deleteVerb c = "delete top (" ++ natText n ++ ")" := by
    simp [deleteVerb, dialect, limited, start, more]
  have text : (Sql.ofText (e.deleteVerb c) ++ (Sql.ofText " from " ++ rest)).text.toList
      = ("delete top (" ++ natText n ++ ") fro").toList ++ 'm' :: ' ' :: rest.text.toList := by
    rw [verb]
    simp
  apply finished_bounded ok
  have kept : (Sql.ofText (e.deleteVerb c) ++ (Sql.ofText " from " ++ rest)).trimEnd.text
      = "delete top (" ++ natText n ++ ") from"
        ++ String.ofList (Text.trimEnd (' ' :: rest.text.toList)) := by
    apply String.toList_inj.mp
    rw [Sql.text_trimEnd, text, Sql.trimEnd_solid rfl]
    simp
  rw [kept]
  exact .top _

theorem deleteSql_bounded (limited : c.limit = some n) (bounds : e.BoundsDeletes c)
    (ok : e.deleteSql c = .ok sql) : RowBound n (e.behindLimit c) sql.text := by
  obtain ⟨table, -, ok⟩ := bind_ok ok
  have byRowId : e.byRowId? c = e.rowId? := by simp [byRowId?, limited]
  rw [byRowId] at ok
  cases identity : e.rowId? with
  | some rowId =>
    rw [identity] at ok
    obtain ⟨name, -, ok⟩ := bind_ok ok
    obtain ⟨select, selectOk, ok⟩ := bind_ok ok
    exact byIdentity_bounded identity limited selectOk ok
  | none =>
    rw [identity] at ok
    obtain ⟨wheres, -, ok⟩ := bind_ok ok
    obtain ⟨alone, server⟩ := dialect_of_boundsDeletes identity bounds
    rw [alone, List.isEmpty_nil, if_pos rfl] at ok
    obtain ⟨write, writeOk, ok⟩ := bind_ok ok
    obtain dialect | ⟨dialect, positive, start⟩ := server
    · rw [deleteWithoutJoins, if_pos dialect] at writeOk
      exact withOrdersAndLimit_bounded limited writeOk ok
    · rw [deleteWithoutJoins, if_neg (by simp [dialect])] at writeOk
      obtain rfl := Except.ok.inj writeOk
      simp only [Sql.append_assoc] at ok
      exact deleteTop_bounded dialect limited positive start ok

/-! ### Writes without a limit -/

theorem rowId_of_takesNoLimit {c : Clauses Q} (free : e.TakesNoLimit c) : e.rowId? = none := by
  cases dialect : e.dialect <;> simp_all [rowId?, TakesNoLimit]

theorem byRowId_of_takesNoLimit (free : e.TakesNoLimit c) (limit : Option Nat) :
    e.byRowId? { c with limit } = none := by
  rw [byRowId?, rowId_of_takesNoLimit free, ite_self]

theorem not_mysql_of_takesNoLimit {c : Clauses Q} (free : e.TakesNoLimit c)
    (alone : c.joins.isEmpty = true) : ¬ e.dialect = .mysql := by
  cases dialect : e.dialect <;> simp_all [TakesNoLimit]

theorem deleteVerb_of_takesNoLimit (free : e.TakesNoLimit c) (limit : Option Nat) :
    e.deleteVerb { c with limit } = "delete" := by
  cases dialect : e.dialect <;> simp_all [deleteVerb, TakesNoLimit]

theorem updateSql_of_takesNoLimit (free : e.TakesNoLimit c) (limit : Option Nat) (values : Row) :
    e.updateSql { c with limit } values = e.updateSql c values := by
  unfold updateSql
  rw [byRowId_of_takesNoLimit free, byRowId_of_takesNoLimit free c.limit]
  by_cases alone : c.joins.isEmpty = true
  · simp only [updateWithoutJoins, if_neg (not_mysql_of_takesNoLimit free alone), alone]
    rfl
  · simp only [if_neg alone]
    rfl

theorem deleteSql_of_takesNoLimit (free : e.TakesNoLimit c) (limit : Option Nat) :
    e.deleteSql { c with limit } = e.deleteSql c := by
  unfold deleteSql
  rw [byRowId_of_takesNoLimit free, byRowId_of_takesNoLimit free c.limit]
  by_cases alone : c.joins.isEmpty = true
  · simp only [deleteWithoutJoins, if_neg (not_mysql_of_takesNoLimit free alone), alone,
      deleteVerb_of_takesNoLimit free]
    rfl
  · simp only [if_neg alone]
    rfl

/-- Where a dialect bounds its writes, those that compile carry the limit of the query. Where it has
no limit in writes, they are those of the query without one. -/
theorem writes_bounded {c : Clauses Query} (limited : c.limit = some n) :
    (e.BoundsUpdates c → ∀ values s, e.update (.mk c) values = .ok s →
      RowBound n (e.behindLimit (c.map (Query.compiled e))) s.sql.text) ∧
    (e.BoundsDeletes c → ∀ s, e.delete (.mk c) = .ok s →
      RowBound n (e.behindLimit (c.map (Query.compiled e))) s.sql.text) ∧
    (e.TakesNoLimit c →
      (∀ values, e.update (.mk c) values = e.update (.mk { c with limit := none }) values) ∧
      e.delete (.mk c) = e.delete (.mk { c with limit := none })) := by
  refine ⟨?_, ?_, ?_⟩
  · intro bounds values s ok
    obtain ⟨sql, sqlOk, ok⟩ := bind_ok ok
    obtain ⟨bindings, -, done⟩ := bind_ok ok
    obtain rfl := pure_ok done
    exact updateSql_bounded limited ((boundsUpdates_map _).mpr bounds) sqlOk
  · intro bounds s ok
    obtain ⟨sql, sqlOk, done⟩ := bind_ok ok
    obtain rfl := pure_ok done
    exact deleteSql_bounded limited ((boundsDeletes_map _).mpr bounds) sqlOk
  · intro free
    have inner := (takesNoLimit_map (Query.compiled e)).mpr free
    have lists : (Query.mk { c with limit := none }).bindingLists = (Query.mk c).bindingLists := by
      rw [Query.bindingLists_mk, Query.bindingLists_mk]
      rfl
    constructor
    · intro values
      have same := updateSql_of_takesNoLimit inner none values
      unfold update updateBindings
      rw [lists]
      exact congrArg (· >>= _) same.symm
    · have same := deleteSql_of_takesNoLimit inner none
      unfold delete deleteBindings
      rw [lists]
      exact congrArg (· >>= _) same.symm

end Engine

def firstUsers : Clauses Query :=
  { source := some (.name "users"), limit := some 5 }

theorem firstUsers_bounded :
    (∃ s, (Engine.mk .postgres {}).update (.mk firstUsers) (.ofList [("seen", .value .null)])
        = .ok s ∧ RowBound 5 "" s.sql.text) ∧
    (∃ s, (Engine.mk .sqlserver {}).delete (.mk firstUsers) = .ok s ∧ RowBound 5 "" s.sql.text) ∧
    (Engine.mk .generic {}).delete (.mk firstUsers)
      = (Engine.mk .generic {}).delete (.mk { firstUsers with limit := none }) := by
  have updated : ∃ s, (Engine.mk .postgres {}).update (.mk firstUsers)
      (.ofList [("seen", .value .null)]) = .ok s := ⟨_, rfl⟩
  have deleted : ∃ s, (Engine.mk .sqlserver {}).delete (.mk firstUsers) = .ok s := ⟨_, rfl⟩
  have limited : firstUsers.limit = some 5 := rfl
  refine ⟨updated.imp fun s ok => ⟨ok, ?_⟩, deleted.imp fun s ok => ⟨ok, ?_⟩, ?_⟩
  · exact (Engine.writes_bounded (e := .mk .postgres {}) limited).1 trivial _ s ok
  · exact (Engine.writes_bounded (e := .mk .sqlserver {}) limited).2.1 ⟨rfl, by decide, rfl⟩ s ok
  · exact ((Engine.writes_bounded (e := .mk .generic {}) limited).2.2 trivial).2

theorem firstUsers_unbounded : firstUsers.limit = some 5 ∧
    ∃ s, (Engine.mk .generic {}).delete (.mk firstUsers) = .ok s ∧
      s.sql.text = "delete from \"users\"" ∧ ∀ tail, ¬ RowBound 5 tail s.sql.text := by
  refine ⟨rfl, _, rfl, by decide, fun tail bound => ?_⟩
  have digit := bound.mentions '5' (by decide)
  revert digit
  decide

end SqlCompiler
