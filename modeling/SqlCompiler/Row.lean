import SqlCompiler.Binding
/-!
# Rows

A row gives each of its columns one parameter, in the order in which the columns were first named.
-/

namespace SqlCompiler

namespace Entries

variable {A : Type}

/-- The value of a name. -/
def get? (name : String) : List (String × A) → Option A
  | [] => none
  | (other, value) :: rest => if other = name then some value else get? name rest

/-- Gives a name a value: in its place if it is there, else at the end. -/
def set (name : String) (value : A) : List (String × A) → List (String × A)
  | [] => [(name, value)]
  | (other, v) :: rest =>
    if other = name then (name, value) :: rest else (other, v) :: set name value rest

theorem mem_names_set {name : String} {value : A} {entries : List (String × A)} {n : String} :
    n ∈ (set name value entries).map Prod.fst ↔ n = name ∨ n ∈ entries.map Prod.fst := by
  induction entries with
  | nil => simp [set]
  | cons entry rest ih =>
    rw [set]
    split
    · next h => subst h; simp
    · simp only [List.map_cons, List.mem_cons, ih]
      grind

theorem nodup_set {name : String} {value : A} {entries : List (String × A)}
    (h : (entries.map Prod.fst).Nodup) : ((set name value entries).map Prod.fst).Nodup := by
  induction entries with
  | nil => simp [set]
  | cons entry rest ih =>
    simp only [List.map_cons, List.nodup_cons] at h
    rw [set]
    split
    · next hn => subst hn; simpa using h
    · next hn =>
      simp only [List.map_cons, List.nodup_cons]
      refine ⟨?_, ih h.2⟩
      rw [mem_names_set]
      rintro (rfl | hm)
      · exact hn rfl
      · exact h.1 hm

theorem get?_set_self (name : String) (value : A) (entries : List (String × A)) :
    get? name (set name value entries) = some value := by
  induction entries with
  | nil => simp [set, get?]
  | cons entry rest ih =>
    rw [set]
    split
    · simp [get?]
    · next h => simp [get?, h, ih]

theorem get?_set_of_ne {name other : String} (h : other ≠ name) (value : A)
    (entries : List (String × A)) : get? other (set name value entries) = get? other entries := by
  induction entries with
  | nil => simp [set, get?, Ne.symm h]
  | cons entry rest ih =>
    rw [set]
    split
    · next hn => simp [get?, hn, Ne.symm h]
    · simp [get?, ih]

end Entries

structure Row where
  entries : List (String × Param)
  nodup : (entries.map Prod.fst).Nodup

namespace Row

def empty : Row := ⟨[], by simp⟩

instance : Inhabited Row := ⟨empty⟩

def columns (r : Row) : List String :=
  r.entries.map Prod.fst

def isEmpty (r : Row) : Bool :=
  r.entries.isEmpty

def get? (r : Row) (column : String) : Option Param :=
  Entries.get? column r.entries

/-- The row with a column set; a new column comes last. -/
def insert (r : Row) (column : String) (value : Param) : Row :=
  ⟨Entries.set column value r.entries, Entries.nodup_set r.nodup⟩

/-- The row of some entries; a repeated column keeps its first place and its last value. -/
def ofList (entries : List (String × Param)) : Row :=
  entries.foldl (fun r (column, value) => r.insert column value) empty

end Row

end SqlCompiler
