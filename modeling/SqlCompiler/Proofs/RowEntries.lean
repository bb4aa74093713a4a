import Mathlib.Data.List.Induction
import SqlCompiler.Row
/-!
# Entries of rows

What a name finds among entries, and what a row makes of the entries it is built from: its columns
are the names without repetitions, and a column holds the last of its values.
-/

namespace SqlCompiler

theorem eraseDups_concat {α : Type} [DecidableEq α] (as : List α) (a : α) :
    (as ++ [a]).eraseDups = if a ∈ as then as.eraseDups else as.eraseDups ++ [a] := by
  rw [List.eraseDups_append]
  split
  · next member => simp [List.removeAll, member]
  · next fresh => simp [List.removeAll, fresh, List.eraseDups_cons]

theorem eraseDups_map_eraseDups {α β : Type} [DecidableEq α] [DecidableEq β] (f : α → β)
    (as : List α) :
    (as.eraseDups.map f).eraseDups = (as.map f).eraseDups := by
  induction as using List.reverseRecOn with
  | nil => rfl
  | append_singleton as a ih =>
    rw [eraseDups_concat, List.map_append, List.map_singleton, eraseDups_concat]
    split
    · next member => rw [if_pos (List.mem_map_of_mem member), ih]
    · rw [List.map_append, List.map_singleton, eraseDups_concat, ih]
      simp

namespace Entries

variable {A : Type} {name : String} {value : A} {entries entries' : List (String × A)}

theorem mem_of_get? (h : get? name entries = some value) : (name, value) ∈ entries := by
  induction entries with
  | nil => simp [get?] at h
  | cons entry rest ih =>
    obtain ⟨other, held⟩ := entry
    rw [get?] at h
    split at h
    · next same => simp_all
    · exact List.mem_cons_of_mem _ (ih h)

theorem get?_eq_some_iff (distinct : (entries.map Prod.fst).Nodup) :
    get? name entries = some value ↔ (name, value) ∈ entries := by
  refine ⟨mem_of_get?, fun member => ?_⟩
  induction entries with
  | nil => cases member
  | cons entry rest ih =>
    obtain ⟨other, held⟩ := entry
    obtain ⟨fresh, distinct⟩ := List.nodup_cons.mp distinct
    rw [get?]
    rcases List.mem_cons.mp member with same | member
    · obtain ⟨rfl, rfl⟩ := Prod.mk.inj same
      rw [if_pos rfl]
    · have apart : other ≠ name := by
        rintro rfl
        exact fresh (List.mem_map.mpr ⟨_, member, rfl⟩)
      rw [if_neg apart]
      exact ih distinct member

theorem get?_eq_none_iff : get? name entries = none ↔ name ∉ entries.map Prod.fst := by
  induction entries with
  | nil => simp [get?]
  | cons entry rest ih =>
    obtain ⟨other, held⟩ := entry
    rw [get?]
    split
    · next same => simp [same]
    · next apart => rw [ih, List.map_cons, List.mem_cons, not_or, and_iff_right (Ne.symm apart)]

/-- The order of distinct entries does not matter. -/
theorem get?_perm (perm : entries.Perm entries') (distinct : (entries.map Prod.fst).Nodup)
    (name : String) : get? name entries = get? name entries' := by
  have distinct' : (entries'.map Prod.fst).Nodup := (perm.map Prod.fst).nodup_iff.mp distinct
  ext value
  rw [get?_eq_some_iff distinct, get?_eq_some_iff distinct', perm.mem_iff]

theorem mem_set {entry : String × A} (h : entry ∈ set name value entries) :
    entry = (name, value) ∨ entry ∈ entries := by
  induction entries with
  | nil => simpa [set] using h
  | cons first rest ih =>
    obtain ⟨other, held⟩ := first
    rw [set] at h
    split at h
    · rcases List.mem_cons.mp h with h | h
      · exact .inl h
      · exact .inr (List.mem_cons_of_mem _ h)
    · rcases List.mem_cons.mp h with h | h
      · exact .inr (List.mem_cons.mpr (.inl h))
      · exact (ih h).imp_right (List.mem_cons_of_mem _)

/-- An entry that is set to what it has stays as it is. -/
theorem set_get? (found : get? name entries = some value) : set name value entries = entries := by
  induction entries with
  | nil => cases found
  | cons entry rest ih =>
    obtain ⟨other, held⟩ := entry
    rw [get?] at found
    rw [set]
    split
    · next same =>
      rw [if_pos same] at found
      rw [same, Option.some.inj found]
    · next apart =>
      rw [if_neg apart] at found
      rw [ih found]

theorem names_set : (set name value entries).map Prod.fst
    = if name ∈ entries.map Prod.fst then entries.map Prod.fst
      else entries.map Prod.fst ++ [name] := by
  induction entries with
  | nil => simp [set]
  | cons entry rest ih =>
    obtain ⟨other, held⟩ := entry
    rw [set]
    split
    · next same => simp [same]
    · next apart =>
      rw [List.map_cons, ih]
      by_cases member : name ∈ rest.map Prod.fst <;> simp [member, Ne.symm apart]

theorem filter_set_of_pos {p : String → Bool} (kept : p name = true) :
    (set name value entries).filter (fun entry => p entry.1)
      = set name value (entries.filter fun entry => p entry.1) := by
  induction entries with
  | nil => simp [set, kept]
  | cons entry rest ih =>
    obtain ⟨other, held⟩ := entry
    rw [set]
    split
    · next same => simp [same, kept, set]
    · next apart =>
      by_cases own : p other = true <;> simp [own, set, apart, ih]

theorem filter_set_of_neg {p : String → Bool} (dropped : p name = false) :
    (set name value entries).filter (fun entry => p entry.1)
      = entries.filter fun entry => p entry.1 := by
  induction entries with
  | nil => simp [set, dropped]
  | cons entry rest ih =>
    obtain ⟨other, held⟩ := entry
    rw [set]
    split
    · next same => simp [same, dropped]
    · simp only [List.filter_cons, ih]

theorem get?_filter {p : String → Bool} (kept : p name = true) :
    get? name (entries.filter fun entry => p entry.1) = get? name entries := by
  induction entries with
  | nil => rfl
  | cons entry rest ih =>
    obtain ⟨other, held⟩ := entry
    by_cases same : other = name
    · simp [same, kept, get?]
    · by_cases own : p other = true <;> simp [own, get?, same, ih]

theorem filter_eq_singleton (distinct : (entries.map Prod.fst).Nodup)
    (found : get? name entries = some value) :
    entries.filter (fun entry => entry.1 = name) = [(name, value)] := by
  induction entries with
  | nil => cases found
  | cons entry rest ih =>
    obtain ⟨other, held⟩ := entry
    obtain ⟨fresh, distinct⟩ := List.nodup_cons.mp distinct
    rw [get?] at found
    by_cases same : other = name
    · rw [if_pos same] at found
      have none : rest.filter (fun entry => entry.1 = name) = [] :=
        List.filter_eq_nil_iff.mpr fun entry member own =>
          fresh (List.mem_map.mpr ⟨entry, member, (of_decide_eq_true own).trans same.symm⟩)
      rw [List.filter_cons_of_pos (by simpa using same), none, same, Option.some.inj found]
    · rw [if_neg same] at found
      rw [List.filter_cons_of_neg (by simpa using same), ih distinct found]

end Entries

namespace Row

variable {entries : List (String × Param)}

theorem ext {a b : Row} (h : a.entries = b.entries) : a = b := by
  cases a
  cases b
  exact (Row.mk.injEq ..).mpr h

theorem entries_insert (row : Row) (column : String) (value : Param) :
    (row.insert column value).entries = Entries.set column value row.entries :=
  rfl

theorem ofList_concat (entries : List (String × Param)) (column : String) (value : Param) :
    ofList (entries ++ [(column, value)]) = (ofList entries).insert column value := by
  simp [ofList]

/-- Whatever holds of all entries of a list holds of those of its row. -/
theorem forall_ofList {P : String × Param → Prop} (h : ∀ entry ∈ entries, P entry) :
    ∀ entry ∈ (ofList entries).entries, P entry := by
  induction entries using List.reverseRecOn with
  | nil => simp [ofList, empty]
  | append_singleton entries entry ih =>
    obtain ⟨front, last⟩ := List.forall_mem_append.mp h
    rw [ofList_concat]
    intro entry' member
    rcases Entries.mem_set member with rfl | member
    · exact last _ (List.mem_singleton_self _)
    · exact ih front entry' member

theorem columns_ofList (entries : List (String × Param)) :
    (ofList entries).columns = (entries.map Prod.fst).eraseDups := by
  induction entries using List.reverseRecOn with
  | nil => rfl
  | append_singleton entries entry ih =>
    rw [columns] at ih
    rw [ofList_concat, columns, entries_insert, Entries.names_set, ih, List.map_append,
      List.map_singleton, eraseDups_concat]
    simp only [List.mem_eraseDups]

/-- A column holds its last value. -/
theorem get?_ofList (entries : List (String × Param)) (column : String) :
    (ofList entries).get? column = Entries.get? column entries.reverse := by
  induction entries using List.reverseRecOn with
  | nil => rfl
  | append_singleton entries entry ih =>
    obtain ⟨other, value⟩ := entry
    rw [ofList_concat, List.reverse_append, List.reverse_singleton, List.singleton_append,
      Entries.get?]
    split
    · next same =>
      rw [same]
      exact Entries.get?_set_self ..
    · next apart => exact (Entries.get?_set_of_ne (Ne.symm apart) ..).trans ih

/-- The entries of some columns are gathered without those of the others. -/
theorem ofList_filter (p : String → Bool) (entries : List (String × Param)) :
    (ofList (entries.filter fun entry => p entry.1)).entries
      = (ofList entries).entries.filter fun entry => p entry.1 := by
  induction entries using List.reverseRecOn with
  | nil => rfl
  | append_singleton entries entry ih =>
    obtain ⟨column, value⟩ := entry
    rw [List.filter_append, ofList_concat, entries_insert]
    by_cases own : p column = true
    · rw [List.filter_cons_of_pos (by exact own), List.filter_nil, ofList_concat,
        entries_insert, ih, Entries.filter_set_of_pos own]
    · rw [List.filter_cons_of_neg (by exact own), List.filter_nil, List.append_nil, ih,
        Entries.filter_set_of_neg (Bool.eq_false_iff.mpr own)]

end Row

end SqlCompiler
