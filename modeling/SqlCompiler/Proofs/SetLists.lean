import Mathlib.Data.List.Forall2
import SqlCompiler.Proofs.Emission
import SqlCompiler.Proofs.RowEntries
import SqlCompiler.Engine.Assignment
/-!
# Set lists

The set list of an update assigns each column once, in the order in which the row first names it.
A column with a path gets one document, and that is built from all its keys and from nothing else:
the trees of a row, cut down to one column, are the trees of the row cut down to that column.
-/

namespace SqlCompiler

namespace UpdateTree

variable {root key : String} {row row' : Row} {tree : UpdateTree}
  {entries : List (String × Param)} {columns columns' : List String}
  {trees trees' : List (String × UpdateTree)}

/-- The entries that update a column, as a whole or through a path. -/
def ofRoot (root : String) (entries : List (String × Param)) : List (String × Param) :=
  entries.filter fun entry => rootOf entry.1 = root

theorem rootOf_of_none (plain : splitKey? key = none) : rootOf key = key := by
  rw [rootOf, plain]

theorem rootOf_of_some {path : List Char} (cut : splitKey? key = some (root, path)) :
    rootOf key = root := by
  rw [rootOf, cut]

theorem mem_ofRoot {entry : String × Param} :
    entry ∈ ofRoot root entries ↔ entry ∈ entries ∧ rootOf entry.1 = root := by
  simp [ofRoot]

theorem ofRoot_cons_of_pos (value : Param) (own : rootOf key = root) :
    ofRoot root ((key, value) :: entries) = (key, value) :: ofRoot root entries :=
  List.filter_cons_of_pos (by simpa using own)

theorem ofRoot_cons_of_neg (value : Param) (other : rootOf key ≠ root) :
    ofRoot root ((key, value) :: entries) = ofRoot root entries :=
  List.filter_cons_of_neg (by simpa using other)

theorem mem_pathColumns : root ∈ pathColumns row ↔
    ∃ entry ∈ row.entries, ∃ path, splitKey? entry.1 = some (root, path) := by
  simp [pathColumns, Row.columns]

theorem mem_pathColumns_ofList : root ∈ pathColumns (.ofList entries) ↔
    ∃ entry ∈ ofRoot root entries, splitKey? entry.1 ≠ none := by
  rw [pathColumns, Row.columns_ofList]
  constructor
  · intro found
    obtain ⟨key, named, found⟩ := List.mem_filterMap.mp found
    obtain ⟨⟨column, path⟩, cut, rfl⟩ := Option.map_eq_some_iff.mp found
    obtain ⟨entry, member, rfl⟩ := List.mem_map.mp (List.mem_eraseDups.mp named)
    exact ⟨entry, mem_ofRoot.mpr ⟨member, rootOf_of_some cut⟩, cut ▸ Option.some_ne_none _⟩
  · rintro ⟨entry, member, path⟩
    obtain ⟨inside, rfl⟩ := mem_ofRoot.mp member
    obtain ⟨⟨column, path⟩, cut⟩ := Option.ne_none_iff_exists'.mp path
    refine List.mem_filterMap.mpr ⟨entry.1,
      List.mem_eraseDups.mpr (List.mem_map_of_mem inside), ?_⟩
    rw [cut, rootOf_of_some cut]
    rfl

/-- A column without paths holds its last value. -/
theorem getLast?_ofRoot {value : Param} (whole : splitKey? root = none)
    (plain : ∀ entry ∈ ofRoot root entries, splitKey? entry.1 = none)
    (held : Entries.get? root entries.reverse = some value) :
    (ofRoot root entries).getLast? = some (root, value) := by
  have own : Entries.get? root (ofRoot root entries).reverse = some value := by
    rw [ofRoot, ← List.filter_reverse,
      Entries.get?_filter (p := fun key => rootOf key = root)
        (decide_eq_true (rootOf_of_none whole)), held]
  rw [List.getLast?_eq_head?_reverse]
  cases last : (ofRoot root entries).reverse with
  | nil =>
    rw [last] at own
    cases own
  | cons entry rest =>
    have member : entry ∈ ofRoot root entries :=
      List.mem_reverse.mp (last ▸ List.mem_cons_self)
    obtain ⟨key, held⟩ := entry
    obtain rfl : key = root :=
      (rootOf_of_none (plain _ member)).symm.trans (mem_ofRoot.mp member).2
    rw [last, Entries.get?, if_pos rfl] at own
    rw [Option.some.inj own]
    rfl

theorem addPaths_cons_of_none (value : Param) (plain : splitKey? key = none) :
    addPaths trees ((key, value) :: entries) = addPaths trees entries := by
  simp only [addPaths, plain]

/-- What a column without a tree starts from. -/
def freshRoot : List PathStep → UpdateTree
  | [] => fresh
  | step :: _ => containerFor step

theorem addPaths_cons_of_some (value : Param) {column : String} {path : List Char}
    (cut : splitKey? key = some (column, path)) :
    addPaths trees ((key, value) :: entries) = (do
      let steps ← JsonPath.steps path
      let tree ← (insert value steps ((Entries.get? column trees).getD (freshRoot steps))).result
      addPaths (Entries.set column tree trees) entries) := by
  simp only [addPaths, cut]
  congr 1

/-- The trees of the column alone. -/
def onlyRoot (root : String) (trees : List (String × UpdateTree)) : List (String × UpdateTree) :=
  trees.filter fun entry => entry.1 = root

/-- Whether the base of a key is left out depends only on the column that the key belongs to. -/
theorem baseless_iff {key : String} (same : root ∈ columns ↔ root ∈ columns')
    (own : rootOf key = root) :
    ((splitKey? key).isSome ∨ key ∉ columns) ↔ ((splitKey? key).isSome ∨ key ∉ columns') := by
  cases cut : splitKey? key with
  | some parts => simp
  | none =>
    obtain rfl : key = root := (rootOf_of_none cut).symm.trans own
    simpa using not_congr same

theorem baseTrees_ofRoot (same : root ∈ columns ↔ root ∈ columns')
    (ok : baseTrees columns entries = .ok trees) :
    baseTrees columns' (ofRoot root entries) = .ok (onlyRoot root trees) := by
  induction entries generalizing trees with
  | nil =>
    cases ok
    rfl
  | cons entry rest ih =>
    obtain ⟨key, value⟩ := entry
    rw [baseTrees] at ok
    by_cases own : rootOf key = root
    · rw [ofRoot_cons_of_pos value own, baseTrees]
      split at ok
      · next skip =>
        rw [if_pos ((baseless_iff same own).mp skip)]
        exact ih ok
      · next whole =>
        have plain : splitKey? key = none := by simpa using (not_or.mp whole).1
        obtain rfl : key = root := (rootOf_of_none plain).symm.trans own
        rw [if_neg (mt (baseless_iff same own).mpr whole)]
        split at ok
        · cases ok
        · obtain ⟨others, inner, done⟩ := bind_ok ok
          obtain rfl := pure_ok done
          rw [ih inner, onlyRoot, onlyRoot, List.filter_cons_of_pos (by simp)]
          rfl
    · rw [ofRoot_cons_of_neg value own]
      split at ok
      · exact ih ok
      · next whole =>
        have plain : splitKey? key = none := by simpa using (not_or.mp whole).1
        have other : key ≠ root := rootOf_of_none plain ▸ own
        split at ok
        · cases ok
        · obtain ⟨others, inner, done⟩ := bind_ok ok
          obtain rfl := pure_ok done
          rw [ih inner, onlyRoot, onlyRoot, List.filter_cons_of_neg (by simpa using other)]

theorem onlyRoot_set_self (root : String) (tree : UpdateTree)
    (trees : List (String × UpdateTree)) :
    onlyRoot root (Entries.set root tree trees) = Entries.set root tree (onlyRoot root trees) :=
  Entries.filter_set_of_pos (p := fun name => decide (name = root)) (decide_eq_true rfl)

theorem onlyRoot_set_of_ne {column : String} (apart : column ≠ root) (tree : UpdateTree)
    (trees : List (String × UpdateTree)) :
    onlyRoot root (Entries.set column tree trees) = onlyRoot root trees :=
  Entries.filter_set_of_neg (p := fun name => decide (name = root)) (decide_eq_false apart)

theorem get?_onlyRoot (root : String) (trees : List (String × UpdateTree)) :
    Entries.get? root (onlyRoot root trees) = Entries.get? root trees :=
  Entries.get?_filter (p := fun name => decide (name = root)) (decide_eq_true rfl)

theorem addPaths_ofRoot (ok : addPaths trees entries = .ok trees') :
    addPaths (onlyRoot root trees) (ofRoot root entries) = .ok (onlyRoot root trees') := by
  induction entries generalizing trees with
  | nil =>
    obtain rfl := Except.ok.inj ok
    rfl
  | cons entry rest ih =>
    obtain ⟨key, value⟩ := entry
    cases cut : splitKey? key with
    | none =>
      rw [addPaths_cons_of_none value cut] at ok
      by_cases own : rootOf key = root
      · rw [ofRoot_cons_of_pos value own, addPaths_cons_of_none value cut, ih ok]
      · rw [ofRoot_cons_of_neg value own, ih ok]
    | some parts =>
      obtain ⟨column, path⟩ := parts
      rw [addPaths_cons_of_some value cut] at ok
      obtain ⟨steps, read, ok⟩ := bind_ok ok
      obtain ⟨tree, inserted, ok⟩ := bind_ok ok
      have behind := ih ok
      have here : rootOf key = column := rootOf_of_some cut
      by_cases own : column = root
      · subst own
        rw [onlyRoot_set_self] at behind
        rw [ofRoot_cons_of_pos value here, addPaths_cons_of_some value cut, read]
        show ((insert value steps _).result >>= _) = _
        rw [get?_onlyRoot, inserted]
        exact behind
      · rw [onlyRoot_set_of_ne own] at behind
        rw [ofRoot_cons_of_neg value (here ▸ own), behind]

theorem names_baseTrees (ok : baseTrees columns entries = .ok trees) :
    (trees.map Prod.fst).Sublist (entries.map Prod.fst) ∧
      ∀ name ∈ trees.map Prod.fst, name ∈ columns := by
  induction entries generalizing trees with
  | nil =>
    obtain rfl := Except.ok.inj ok
    exact ⟨List.Sublist.refl _, by simp⟩
  | cons entry rest ih =>
    obtain ⟨key, value⟩ := entry
    rw [baseTrees] at ok
    split at ok
    · exact ⟨(ih ok).1.cons _, (ih ok).2⟩
    · next whole =>
      split at ok
      · cases ok
      · obtain ⟨others, inner, done⟩ := bind_ok ok
        obtain rfl := pure_ok done
        have present : key ∈ columns := not_not.mp (not_or.mp whole).2
        exact ⟨(ih inner).1.cons_cons _, List.forall_mem_cons.mpr ⟨present, (ih inner).2⟩⟩

theorem names_addPaths (ok : addPaths trees entries = .ok trees') :
    ((trees.map Prod.fst).Nodup → (trees'.map Prod.fst).Nodup) ∧
      ∀ name, name ∈ trees'.map Prod.fst ↔ name ∈ trees.map Prod.fst ∨
        ∃ entry ∈ entries, ∃ path, splitKey? entry.1 = some (name, path) := by
  induction entries generalizing trees with
  | nil =>
    obtain rfl := Except.ok.inj ok
    exact ⟨id, by simp⟩
  | cons entry rest ih =>
    obtain ⟨key, value⟩ := entry
    cases cut : splitKey? key with
    | none =>
      rw [addPaths_cons_of_none value cut] at ok
      obtain ⟨distinct, names⟩ := ih ok
      exact ⟨distinct, fun name => by simp [names, cut]⟩
    | some parts =>
      obtain ⟨column, path⟩ := parts
      rw [addPaths_cons_of_some value cut] at ok
      obtain ⟨steps, -, ok⟩ := bind_ok ok
      obtain ⟨tree, -, ok⟩ := bind_ok ok
      obtain ⟨distinct, names⟩ := ih ok
      refine ⟨fun apart => distinct (Entries.nodup_set apart), fun name => ?_⟩
      rw [names, Entries.mem_names_set]
      simp only [List.mem_cons, exists_eq_or_imp, cut, Option.some.injEq, Prod.mk.injEq]
      have here : (∃ path', column = name ∧ path = path') ↔ name = column := by simp [eq_comm]
      rw [here, or_comm (a := name = column), or_assoc]

/-- The trees of a row are those of the columns that its paths reach into, one for each. -/
theorem names_ofRow (ok : ofRow row = .ok trees) :
    (trees.map Prod.fst).Nodup ∧ ∀ name, name ∈ trees.map Prod.fst ↔ name ∈ pathColumns row := by
  obtain ⟨bases, based, ok⟩ := bind_ok ok
  obtain ⟨kept, among⟩ := names_baseTrees based
  obtain ⟨distinct, names⟩ := names_addPaths ok
  refine ⟨distinct (kept.nodup row.nodup), fun name => ?_⟩
  rw [names, ← mem_pathColumns]
  exact ⟨fun found => found.elim (among name) id, .inr⟩

/-- A row that is cut down to one of the columns with paths has the tree of that column. -/
theorem ofRow_ofRoot (ok : ofRow row = .ok trees) (found : Entries.get? root trees = some tree)
    (own : row'.entries = ofRoot root row.entries) : ofRow row' = .ok [(root, tree)] := by
  have distinct := (names_ofRow ok).1
  obtain ⟨bases, based, ok⟩ := bind_ok ok
  have same : root ∈ pathColumns row ↔ root ∈ pathColumns row' := by
    rw [mem_pathColumns, mem_pathColumns, own]
    constructor
    · rintro ⟨entry, member, path, cut⟩
      exact ⟨entry, mem_ofRoot.mpr ⟨member, rootOf_of_some cut⟩, path, cut⟩
    · rintro ⟨entry, member, path, cut⟩
      exact ⟨entry, (mem_ofRoot.mp member).1, path, cut⟩
  rw [ofRow, own, baseTrees_ofRoot same based]
  have own : onlyRoot root trees = [(root, tree)] := Entries.filter_eq_singleton distinct found
  show addPaths _ _ = _
  rw [addPaths_ofRoot ok, own]

end UpdateTree

/-! ### Assignments -/

namespace Sql

variable {field : String}

theorem text_join_eq (sep : String) (parts : List Sql) :
    (join sep parts).text = sep.intercalate (parts.map text) := by
  fun_induction join sep parts with
  | case1 => rfl
  | case2 part => simp
  | case3 part parts several ih =>
    cases parts with
    | nil => exact absurd rfl several
    | cons second parts =>
      rw [text_append, text_append, text_ofText, ih, List.map_cons, List.map_cons, List.map_cons,
        String.intercalate_cons_cons]

/-- The words of an assignment to a field. -/
def Assigns (field : String) (sql : Sql) : Prop :=
  ∃ value, sql.text = field ++ " = " ++ value

theorem assigns_words (value : String) {words : String} (split : words = " = " ++ value) :
    Assigns field (ofText field ++ ofText words) :=
  ⟨value, by simp [split, String.append_assoc]⟩

theorem Assigns.append {a : Sql} (assigns : Assigns field a) (b : Sql) :
    Assigns field (a ++ b) := by
  obtain ⟨value, words⟩ := assigns
  exact ⟨value ++ b.text, by rw [text_append, words, String.append_assoc]⟩

theorem assigns_value (value : Sql) : Assigns field (ofText field ++ " = " ++ value) :=
  (assigns_words "" String.append_empty.symm).append value

end Sql

namespace Engine

open UpdateTree

variable {e : Engine} {values : Row} {root : String} {tree : UpdateTree} {part : Sql}

/-- Every dialect assigns a document to the column in quotes. -/
theorem treeAssignment_assigns (ok : e.treeAssignment root tree = .ok part) :
    ∃ field, e.wrap root = .ok field ∧ Sql.Assigns field part := by
  have call {field : String} (call : String) {words : String} (split : words = " = " ++ call)
      {inner between list close : Sql} :
      Sql.Assigns field (Sql.ofText field ++ words ++ inner ++ between ++ list ++ close) :=
    ((((Sql.assigns_words call split).append inner).append between).append list).append close
  unfold treeAssignment at ok
  split at ok
  · cases ok
  all_goals obtain ⟨field, wrapped, ok⟩ := bind_ok ok; refine ⟨field, wrapped, ?_⟩
  · obtain ⟨writes, -, ok⟩ := bind_ok ok
    cases empty : writes.isEmpty
    · rw [empty] at ok
      obtain rfl := pure_ok ok
      exact call "json_set(" rfl
    · rw [empty] at ok
      obtain rfl := pure_ok ok
      exact Sql.assigns_value _
  · obtain rfl := pure_ok ok
    exact Sql.assigns_value _
  · cases patch : tree.isPatch
    · rw [patch] at ok
      obtain ⟨writes, -, ok⟩ := bind_ok ok
      obtain rfl := pure_ok ok
      exact call "json_set(ifnull(" rfl
    · rw [patch] at ok
      obtain ⟨document, -, ok⟩ := bind_ok ok
      obtain rfl := pure_ok ok
      exact call "json_patch(ifnull(" rfl
  · obtain rfl := pure_ok ok
    exact Sql.assigns_value _

/-- The entries of a row under the names that the dialect gives their keys. -/
def namedEntries (e : Engine) (values : Row) : List (String × Param) :=
  values.entries.map fun (key, value) => (e.updateColumnName key, value)

/-- The assignment of a column, which depends on the entries of the column only. -/
structure Assignment (e : Engine) (entries : List (String × Param)) (root : String) (part : Sql) :
    Prop where
  assigns : ∃ field, e.wrap root = .ok field ∧ Sql.Assigns field part
  plain : (∀ entry ∈ ofRoot root entries, splitKey? entry.1 = none) → ∃ field value,
    e.wrap root = .ok field ∧ (ofRoot root entries).getLast? = some (root, value) ∧
      part = field ++ " = " ++ Sql.ofParam value
  document : (∃ entry ∈ ofRoot root entries, splitKey? entry.1 ≠ none) → ∃ tree,
    ofRow (.ofList (ofRoot root entries)) = .ok [(root, tree)] ∧
      e.treeAssignment root tree = .ok part

/-- What the assignments of a row make of a column: that of its tree, or that of its only entry. -/
def Assigned (e : Engine) (trees : List (String × UpdateTree)) (entries : List (String × Param))
    (root : String) (part : Sql) : Prop :=
  match Entries.get? root trees with
  | some tree => e.treeAssignment root tree = .ok part
  | none => splitKey? root = none ∧ ∃ field value, e.wrap root = .ok field ∧
      (root, value) ∈ entries ∧ part = field ++ " = " ++ Sql.ofParam value

theorem Assigned.mono {trees : List (String × UpdateTree)}
    {entries entries' : List (String × Param)} (within : ∀ entry ∈ entries, entry ∈ entries')
    (h : e.Assigned trees entries root part) :
    e.Assigned trees entries' root part := by
  unfold Assigned at h ⊢
  split at h
  · exact h
  · obtain ⟨whole, field, value, wrapped, member, words⟩ := h
    exact ⟨whole, field, value, wrapped, within _ member, words⟩

/-- Under the name of a column without a tree a row updates the column as a whole. -/
theorem splitKey?_of_get?_eq_none {row : Row} {trees : List (String × UpdateTree)}
    {entry : String × Param} (gathered : ofRow row = .ok trees) (member : entry ∈ row.entries)
    (none : Entries.get? (rootOf entry.1) trees = none) : splitKey? entry.1 = .none := by
  cases cut : splitKey? entry.1 with
  | none => rfl
  | some parts =>
    obtain ⟨column, path⟩ := parts
    rw [rootOf_of_some cut, Entries.get?_eq_none_iff, (names_ofRow gathered).2] at none
    exact absurd (mem_pathColumns.mpr ⟨entry, member, path, cut⟩) none

theorem assignment_of_assigned {entries : List (String × Param)}
    {trees : List (String × UpdateTree)} (gathered : ofRow (.ofList entries) = .ok trees)
    (h : e.Assigned trees (Row.ofList entries).entries root part) :
    e.Assignment entries root part := by
  have reached : Entries.get? root trees ≠ none ↔
      ∃ entry ∈ ofRoot root entries, splitKey? entry.1 ≠ none := by
    rw [← mem_pathColumns_ofList, ← (names_ofRow gathered).2, not_iff_comm,
      Entries.get?_eq_none_iff]
  unfold Assigned at h
  split at h
  · next tree found =>
    have some : Entries.get? root trees ≠ none := found ▸ Option.some_ne_none tree
    obtain ⟨entry, member, path⟩ := reached.mp some
    have alone : ofRow (.ofList (ofRoot root entries)) = .ok [(root, tree)] :=
      ofRow_ofRoot gathered found (Row.ofList_filter (fun key => rootOf key = root) entries)
    exact ⟨treeAssignment_assigns h, fun plain => absurd (plain entry member) path,
      fun _ => ⟨tree, alone, h⟩⟩
  · next none =>
    obtain ⟨whole, field, value, wrapped, member, rfl⟩ := h
    have held : Entries.get? root entries.reverse = some value := by
      rw [← Row.get?_ofList]
      exact (Entries.get?_eq_some_iff (Row.ofList entries).nodup).mpr member
    exact ⟨⟨field, wrapped, Sql.assigns_value _⟩,
      fun plain => ⟨field, value, wrapped, getLast?_ofRoot whole plain held, rfl⟩,
      fun path => absurd none (reached.mpr path)⟩

/-- The columns that are left when one more is done. -/
theorem eraseDups_undone {root : String} {roots done : List String} (undone : root ∉ done) :
    ((root :: roots).filter (· ∉ done)).eraseDups
      = root :: (roots.filter (· ∉ root :: done)).eraseDups := by
  have narrower : (roots.filter (· ∉ done)).filter (fun other => !other == root)
      = roots.filter (· ∉ root :: done) := by
    rw [List.filter_filter]
    exact List.filter_congr fun other _ => by simp [beq_eq_decide]
  rw [List.filter_cons_of_pos (by simpa using undone), List.eraseDups_cons, narrower]

/-- A column without a tree is its own key, so no later key belongs to it. -/
theorem rootOf_ne_of_plain {trees : List (String × UpdateTree)} {key : String}
    {rest : List (String × Param)} (found : Entries.get? (rootOf key) trees = none)
    (whole : splitKey? key = none) (fresh : key ∉ rest.map Prod.fst)
    (plain : ∀ entry ∈ rest, Entries.get? (rootOf entry.1) trees = none →
      splitKey? entry.1 = none) :
    ∀ root ∈ rest.map fun entry => rootOf entry.1, root ≠ rootOf key := by
  rw [List.forall_mem_map]
  intro entry inside same
  have single := rootOf_of_none (plain entry inside (same ▸ found))
  refine fresh (List.mem_map.mpr ⟨entry, inside, ?_⟩)
  rw [← rootOf_of_none whole, ← same, single]

/-- The columns that are not done yet are assigned once each. -/
theorem assignments_assigned {trees : List (String × UpdateTree)} {done : List String}
    {entries : List (String × Param)} {parts : List Sql}
    (distinct : (entries.map Prod.fst).Nodup)
    (plain : ∀ entry ∈ entries, Entries.get? (rootOf entry.1) trees = none →
      splitKey? entry.1 = none)
    (treed : ∀ root ∈ done, Entries.get? root trees ≠ none)
    (ok : e.assignments trees done entries = .ok parts) :
    List.Forall₂ (e.Assigned trees entries)
      ((entries.map fun entry => rootOf entry.1).filter (· ∉ done)).eraseDups parts := by
  induction entries generalizing done parts with
  | nil =>
    obtain rfl := Except.ok.inj ok
    exact .nil
  | cons entry rest ih =>
    obtain ⟨key, value⟩ := entry
    obtain ⟨fresh, distinct⟩ := List.nodup_cons.mp distinct
    obtain ⟨own, others⟩ := List.forall_mem_cons.mp plain
    have wider {root : String} {part : Sql} (h : e.Assigned trees rest root part) :
        e.Assigned trees ((key, value) :: rest) root part :=
      h.mono fun entry member => List.mem_cons_of_mem _ member
    rw [assignments] at ok
    rw [List.map_cons]
    cases found : Entries.get? (rootOf key) trees with
    | some tree =>
      simp only [found] at ok
      split at ok
      · next member =>
        rw [List.filter_cons_of_neg (by simpa using member)]
        exact (ih distinct others treed ok).imp fun _ _ => wider
      · next undone =>
        obtain ⟨first, assigned, ok⟩ := bind_ok ok
        obtain ⟨behind, inner, last⟩ := bind_ok ok
        obtain rfl := pure_ok last
        have here : e.Assigned trees ((key, value) :: rest) (rootOf key) first := by
          rw [Assigned, found]
          exact assigned
        have treed : ∀ root ∈ rootOf key :: done, Entries.get? root trees ≠ none :=
          List.forall_mem_cons.mpr ⟨found ▸ Option.some_ne_none tree, treed⟩
        rw [eraseDups_undone undone]
        exact .cons here ((ih distinct others treed inner).imp fun _ _ => wider)
    | none =>
      simp only [found] at ok
      obtain ⟨column, wrapped, ok⟩ := bind_ok ok
      obtain ⟨behind, inner, last⟩ := bind_ok ok
      obtain rfl := pure_ok last
      have whole : splitKey? key = none := own found
      have here : e.Assigned trees ((key, value) :: rest) (rootOf key)
          (column ++ " = " ++ Sql.ofParam value) := by
        rw [Assigned, found, rootOf_of_none whole]
        exact ⟨whole, column, value, wrapped, List.mem_cons_self, rfl⟩
      have undone : rootOf key ∉ done := fun member => treed _ member found
      have same : (rest.map fun entry => rootOf entry.1).filter (· ∉ rootOf key :: done)
          = (rest.map fun entry => rootOf entry.1).filter (· ∉ done) := by
        have apart := rootOf_ne_of_plain found whole fresh others
        exact List.filter_congr fun root member => by simp [apart root member]
      rw [eraseDups_undone undone, same]
      exact .cons here ((ih distinct others treed inner).imp fun _ _ => wider)

/-- A document with two paths into it and a name that is given twice. -/
def profile : Row :=
  .ofList [("users.meta->a", .value (.int 1)), ("users.name", .value (.text "Ada")),
    ("meta", .value (.json (.obj [("b", .null)]))), ("name", .raw "upper(login)"),
    ("meta->c[0]", .value (.int 2))]

end Engine

end SqlCompiler
