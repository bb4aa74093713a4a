import Mathlib.Data.List.Forall2
import Mathlib.Data.List.Perm.Subperm
import SqlCompiler.Proofs.RowEntries
import SqlCompiler.Statement
/-!
# Rows aligned by name

A batch of rows can be aligned just when all of them name the same columns, and then every value
stands under the column that it was given for. The order in which a row names its columns counts in
the first row only.
-/

namespace SqlCompiler

/-- Rows that name the same columns. -/
def Row.SameColumns (row other : Row) : Prop :=
  ∀ column, column ∈ row.columns ↔ column ∈ other.columns

/-- Batches that differ in nothing but the order of the entries in rows behind the first. -/
inductive Reordered : List Row → List Row → Prop
  | nil : Reordered [] []
  | cons (first : Row) {rest rest' : List Row} :
      List.Forall₂ (fun row row' => row.entries.Perm row'.entries) rest rest' →
      Reordered (first :: rest) (first :: rest')

theorem allOk_map_eq_ok_iff {ε α β : Type} {f : α → Except ε β} {g : α → Option β}
    (same : ∀ a b, f a = .ok b ↔ g a = some b) {items : List α} {values : List β} :
    allOk (items.map f) = .ok values ↔ items.map g = values.map some := by
  rw [allOk_eq_ok]
  induction items generalizing values with
  | nil => simp
  | cons item items ih =>
    cases values with
    | nil => simp
    | cons value values => simp [same, ih]

namespace AlignedRows

/-- Aligned rows that have, row by row, the values of a batch for the columns of its first row. -/
structure ByName (rows : List Row) (aligned : AlignedRows) : Prop where
  columns_eq : ∀ first ∈ rows.head?, aligned.columns = first.columns
  length_eq : aligned.rows.length = rows.length
  width_eq : ∀ values ∈ aligned.rows, values.length = aligned.columns.length
  getElem?_eq : ∀ (i j : Nat) row values column, rows[i]? = some row →
    aligned.rows[i]? = some values → aligned.columns[j]? = some column →
    values[j]? = row.get? column

variable {columns : List String} {row first : Row} {rest rows rows' : List Row}
  {values : List Param} {aligned : AlignedRows}

theorem align_eq_ok_iff : align columns row = .ok values ↔
    row.columns.length = columns.length ∧ columns.map row.get? = values.map some := by
  rw [align, Row.columns, List.length_map]
  split
  · next other => simp [other]
  · next same =>
    rw [and_iff_right (not_not.mp same)]
    refine allOk_map_eq_ok_iff fun column value => ?_
    cases row.get? column <;> simp

/-- Only lengths and look-ups are checked; columns that are distinct are then the same. -/
theorem align_ok_iff (distinct : columns.Nodup) : (∃ values, align columns row = .ok values) ↔
    ∀ column, column ∈ row.columns ↔ column ∈ columns := by
  constructor
  · rintro ⟨values, ok⟩
    obtain ⟨length, read⟩ := align_eq_ok_iff.mp ok
    have inside : columns ⊆ row.columns := by
      intro column member
      have found : row.get? column ∈ values.map some := read ▸ List.mem_map_of_mem member
      obtain ⟨value, -, same⟩ := List.mem_map.mp found
      exact List.mem_map_of_mem (Entries.mem_of_get? same.symm)
    have perm := (distinct.subperm inside).perm_of_length_le (Nat.le_of_eq length)
    exact fun column => perm.mem_iff.symm
  · intro same
    have perm := (List.perm_ext_iff_of_nodup row.nodup distinct).mpr same
    have there (column : String) (member : column ∈ columns) :
        ∃ value, row.get? column = some value := by
      obtain ⟨entry, inside, rfl⟩ := List.mem_map.mp ((same column).mpr member)
      exact ⟨entry.2, (Entries.get?_eq_some_iff row.nodup).mpr inside⟩
    choose! value found using there
    refine ⟨columns.map value, align_eq_ok_iff.mpr ⟨perm.length_eq, ?_⟩⟩
    rw [List.map_map]
    exact List.map_congr_left found

theorem align_perm {row' : Row} (perm : row.entries.Perm row'.entries) :
    align columns row = align columns row' := by
  have read : row.get? = row'.get? := funext (Entries.get?_perm perm row.nodup)
  rw [align, align, perm.length_eq, read]

theorem ofRows_eq_ok_iff : ofRows (first :: rest) = .ok aligned ↔
    aligned.columns = first.columns ∧
      (first :: rest).map (align first.columns) = aligned.rows.map .ok := by
  obtain ⟨columns, rows⟩ := aligned
  rw [← allOk_eq_ok, ofRows]
  cases allOk ((first :: rest).map (align first.columns)) with
  | error e => simp [bind, Except.bind]
  | ok rows => simp [bind, Except.bind, pure, Except.pure, eq_comm]

theorem ofRows_ok_iff : (∃ aligned, ofRows rows = .ok aligned) ↔
    ∀ first ∈ rows.head?, ∀ row ∈ rows, row.SameColumns first := by
  cases rows with
  | nil => simp [ofRows]
  | cons first rest =>
    have each (row : Row) : (∃ values, align first.columns row = .ok values) ↔
        row.SameColumns first := align_ok_iff first.nodup
    simp only [List.head?_cons, Option.mem_some_iff, forall_eq', ← each]
    constructor
    · rintro ⟨aligned, ok⟩ row member
      obtain ⟨-, all⟩ := ofRows_eq_ok_iff.mp ok
      have one := List.mem_map_of_mem (f := align first.columns) member
      rw [all] at one
      obtain ⟨values, -, same⟩ := List.mem_map.mp one
      exact ⟨values, same.symm⟩
    · intro every
      choose! values read using every
      exact ⟨⟨first.columns, (first :: rest).map values⟩, ofRows_eq_ok_iff.mpr
        ⟨rfl, by rw [List.map_map]; exact List.map_congr_left read⟩⟩

theorem ofRows_byName (ok : ofRows rows = .ok aligned) : ByName rows aligned := by
  cases rows with
  | nil =>
    obtain rfl := Except.ok.inj ok
    exact ⟨by simp, rfl, by simp, by simp⟩
  | cons first rest =>
    obtain ⟨columns, all⟩ := ofRows_eq_ok_iff.mp ok
    have length := congrArg List.length all
    have each (i : Nat) (values : List Param) (at_ : aligned.rows[i]? = some values) :
        ∃ row, (first :: rest)[i]? = some row ∧ align first.columns row = .ok values := by
      have here := congrArg (·[i]?) all
      simp only [List.getElem?_map, at_] at here
      exact Option.map_eq_some_iff.mp here
    refine ⟨?_, by simpa using length.symm, ?_, ?_⟩
    · simp [columns]
    · intro values member
      obtain ⟨i, at_⟩ := List.getElem?_of_mem member
      obtain ⟨row, -, read⟩ := each i values at_
      have width := congrArg List.length (align_eq_ok_iff.mp read).2
      simpa [columns] using width.symm
    · intro i j row values column own at_ named
      obtain ⟨row', own', read⟩ := each i values at_
      obtain rfl := Option.some.inj (own.symm.trans own')
      have value := congrArg (·[j]?) (align_eq_ok_iff.mp read).2
      rw [columns] at named
      simp only [List.getElem?_map, named] at value
      obtain ⟨held, here, same⟩ := Option.map_eq_some_iff.mp value.symm
      exact here.trans same

end AlignedRows

/-! ### Reordered rows -/

variable {rows rows' : List Row}

/-- What does not see the order of the entries of a row is the same for both batches. -/
theorem Reordered.map_eq {β : Type} {f : Row → β} (reordered : Reordered rows rows')
    (same : ∀ row row', row.entries.Perm row'.entries → f row = f row') :
    rows.map f = rows'.map f := by
  cases reordered with
  | nil => rfl
  | cons first perms =>
    rw [List.map_cons, List.map_cons, List.cons.injEq, eq_self, true_and]
    induction perms with
    | nil => rfl
    | cons perm _ ih => rw [List.map_cons, List.map_cons, same _ _ perm, ih]

theorem Reordered.ofRows_eq (reordered : Reordered rows rows') :
    AlignedRows.ofRows rows = AlignedRows.ofRows rows' := by
  have each (columns : List String) := reordered.map_eq (f := AlignedRows.align columns)
    fun _ _ => AlignedRows.align_perm
  cases reordered with
  | nil => rfl
  | cons first perms => rw [AlignedRows.ofRows, AlignedRows.ofRows, each]

theorem Reordered.all_isEmpty (reordered : Reordered rows rows') :
    rows.all Row.isEmpty = rows'.all Row.isEmpty := by
  have each := reordered.map_eq (f := Row.isEmpty) fun _ _ perm => perm.isEmpty_eq
  rw [← Function.id_comp Row.isEmpty, ← List.all_map, ← List.all_map, each]

namespace Engine

variable (reordered : Reordered rows rows') (e : Engine)
include reordered

theorem insertSql_reordered (verb : String) (source : Option (Term Compiled)) :
    e.insertSql verb source rows = e.insertSql verb source rows' := by
  rw [insertSql, insertSql, reordered.all_isEmpty, reordered.ofRows_eq]

theorem upsertSql_reordered (source : Option (Term Compiled)) (uniqueBy : List String)
    (update : List UpsertAssignment) :
    e.upsertSql source rows uniqueBy update = e.upsertSql source rows' uniqueBy update := by
  have insert := insertSql_reordered reordered e "insert" source
  unfold upsertSql
  cases e.dialect with
  | generic => rfl
  | mysql => simp only [mysqlUpsert, insert]
  | postgres | sqlite => simp only [conflictUpsert, insert]
  | sqlserver => simp only [mergeUpsert, reordered.ofRows_eq]

end Engine

/-- A batch is aligned just when its rows name the same columns, and then by their names. An insert
or an upsert is the same, or fails for the same reason, in whatever order the rows behind the first
name their columns. -/
theorem batches_alignedByName (reordered : Reordered rows rows') :
    ((∃ aligned, AlignedRows.ofRows rows = .ok aligned) ↔
      ∀ first ∈ rows.head?, ∀ row ∈ rows, row.SameColumns first) ∧
    (∀ aligned, AlignedRows.ofRows rows = .ok aligned → aligned.ByName rows) ∧
    ∀ (e : Engine) (q : Query), e.insert q rows = e.insert q rows' ∧
      ∀ uniqueBy update, e.upsert q rows uniqueBy update = e.upsert q rows' uniqueBy update := by
  have aligned := reordered.ofRows_eq
  refine ⟨AlignedRows.ofRows_ok_iff, fun _ => AlignedRows.ofRows_byName, fun e q => ⟨?_, ?_⟩⟩
  · rw [Engine.insert, Engine.insert, Engine.insertSql_reordered reordered, Engine.insertBindings,
      Engine.insertBindings, aligned]
  · intro uniqueBy update
    rw [Engine.upsert, Engine.upsert, Engine.upsertSql_reordered reordered, Engine.upsertBindings,
      Engine.upsertBindings, Engine.insertBindings, Engine.insertBindings, aligned]

def stocked : Query := .mk { source := some (.name "stock") }

def deliveries : List Row :=
  [.ofList [("sku", .value (.text "a")), ("count", .value (.int 1)), ("seen", .raw "now()")],
    .ofList [("count", .value (.int 2)), ("sku", .value (.text "b")), ("seen", .raw "now()")]]

/-- The second row names its columns as the first does. -/
def orderedDeliveries : List Row :=
  [.ofList [("sku", .value (.text "a")), ("count", .value (.int 1)), ("seen", .raw "now()")],
    .ofList [("sku", .value (.text "b")), ("count", .value (.int 2)), ("seen", .raw "now()")]]

theorem deliveries_aligned : Reordered deliveries orderedDeliveries ∧
    (∃ aligned, AlignedRows.ofRows deliveries = .ok aligned ∧ aligned.ByName deliveries) ∧
    (∃ s, (Engine.mk .sqlite {}).insert stocked deliveries = .ok s ∧
      (Engine.mk .sqlite {}).insert stocked orderedDeliveries = .ok s ∧
      s.sql.text = "insert into \"stock\" (\"sku\", \"count\", \"seen\") "
        ++ "values (?, ?, now()), (?, ?, now())" ∧
      s.bindings = [.text "a", .int 1, .text "b", .int 2]) ∧
    ∃ s, (Engine.mk .sqlserver {}).upsert stocked deliveries ["sku"] [.inserted "count"] = .ok s ∧
      (Engine.mk .sqlserver {}).upsert stocked orderedDeliveries ["sku"] [.inserted "count"]
        = .ok s := by
  have reordered : Reordered deliveries orderedDeliveries :=
    .cons _ (.cons (List.Perm.swap _ _ _) .nil)
  obtain ⟨-, byName, writes⟩ := batches_alignedByName reordered
  have inserted := (writes (.mk .sqlite {}) stocked).1
  have merged := (writes (.mk .sqlserver {}) stocked).2 ["sku"] [.inserted "count"]
  exact ⟨reordered, ⟨_, rfl, byName _ rfl⟩, ⟨_, rfl, inserted.symm.trans rfl, by decide, rfl⟩,
    ⟨_, rfl, merged.symm.trans rfl⟩⟩

end SqlCompiler
