import SqlCompiler.Proofs.KeyedTrees
/-!
# What stands in the document of a tree

The document of a keyed tree has at every path what the tree has there. A tree has a document if all
its leaves are bound.
-/

namespace SqlCompiler

namespace Json

def child? : Json → PathStep → Option Json
  | obj members, .key k => Entries.get? k members
  | arr items, .index i => items[i]?
  | _, _ => none

def get? : Json → List PathStep → Option Json
  | document, [] => some document
  | document, step :: rest => (document.child? step).bind fun child => child.get? rest

/-- The values right inside a container. -/
def values : Json → List Json
  | obj members => members.map Prod.snd
  | arr items => items
  | null | bool _ | int _ | float _ | str _ => []

/-- Whether a document and all that is in it have a property. -/
inductive Throughout (P : Json → Prop) : Json → Prop
  | intro {document : Json} (own : P document)
      (each : ∀ value ∈ document.values, Throughout P value) : Throughout P document

theorem throughout_iff {P : Json → Prop} {document : Json} :
    document.Throughout P ↔ P document ∧ ∀ value ∈ document.values, value.Throughout P :=
  ⟨fun ⟨own, each⟩ => ⟨own, each⟩, fun ⟨own, each⟩ => ⟨own, each⟩⟩

theorem throughout_scalar {P : Json → Prop} {document : Json} (scalar : document.values = []) :
    document.Throughout P ↔ P document := by
  rw [throughout_iff, scalar]
  simp

theorem throughout_arr {P : Json → Prop} {items : List Json} :
    (arr items).Throughout P ↔ P (arr items) ∧ ∀ item ∈ items, item.Throughout P :=
  throughout_iff

theorem throughout_obj {P : Json → Prop} {members : List (String × Json)} :
    (obj members).Throughout P ↔ P (obj members) ∧ ∀ member ∈ members, member.2.Throughout P := by
  rw [throughout_iff, values, List.forall_mem_map]

theorem get?_insertMember_self (name : String) (value : Json) (members : List (String × Json)) :
    Entries.get? name (insertMember name value members) = some value := by
  induction members with
  | nil => simp [insertMember, Entries.get?]
  | cons member members ih =>
    obtain ⟨other, held⟩ := member
    rw [insertMember]
    split
    · simp [Entries.get?]
    · next apart =>
      split
      · simp [Entries.get?]
      · simp [Entries.get?, Ne.symm apart, ih]

theorem get?_insertMember_of_ne {k name : String} (apart : k ≠ name) (value : Json)
    (members : List (String × Json)) :
    Entries.get? k (insertMember name value members) = Entries.get? k members := by
  induction members with
  | nil => simp [insertMember, Entries.get?, Ne.symm apart]
  | cons member members ih =>
    obtain ⟨other, held⟩ := member
    rw [insertMember]
    split
    · next same =>
      subst same
      simp [Entries.get?, Ne.symm apart]
    · split
      · simp [Entries.get?, Ne.symm apart]
      · simp [Entries.get?, ih]

end Json

namespace UpdateTree

section Members

variable {members : List (String × UpdateTree)} {sorted result : List (String × Json)}

theorem documentMembers_cons_ok {name : String} {tree : UpdateTree}
    (done : documentMembers sorted ((name, tree) :: members) = .ok result) :
    ∃ value, tree.toDocument = .ok value ∧
      documentMembers (Json.insertMember name value sorted) members = .ok result := by
  rw [documentMembers] at done
  exact bind_ok done

theorem sorted_documentMembers (done : documentMembers sorted members = .ok result)
    (ascending : Json.Sorted sorted) : Json.Sorted result := by
  induction members generalizing sorted with
  | nil => exact Except.ok.inj done ▸ ascending
  | cons member members ih =>
    obtain ⟨value, -, rest⟩ := documentMembers_cons_ok done
    exact ih rest (Json.sorted_insertMember ascending _ _)

theorem documentMembers_each (done : documentMembers sorted members = .ok result) :
    ∀ member ∈ members, ∃ value, member.2.toDocument = .ok value := by
  induction members generalizing sorted with
  | nil => simp
  | cons member members ih =>
    obtain ⟨value, own, rest⟩ := documentMembers_cons_ok done
    exact List.forall_mem_cons.mpr ⟨⟨value, own⟩, ih rest⟩

/-- A name stands for the document of the member that it stands for. -/
theorem get?_documentMembers (done : documentMembers sorted members = .ok result)
    (distinct : (members.map Prod.fst).Nodup) (k : String) :
    Entries.get? k result = (Entries.get? k members).elim (Entries.get? k sorted)
      fun tree => tree.toDocument.toOption := by
  induction members generalizing sorted with
  | nil => exact Except.ok.inj done ▸ rfl
  | cons member members ih =>
    obtain ⟨name, tree⟩ := member
    obtain ⟨fresh, distinct⟩ := List.nodup_cons.mp distinct
    obtain ⟨value, own, rest⟩ := documentMembers_cons_ok done
    rw [ih rest distinct, Entries.get?]
    split
    · next same =>
      subst same
      have absent : Entries.get? name members = none := by
        cases found : Entries.get? name members with
        | none => rfl
        | some other =>
          exact absurd (List.mem_map.mpr ⟨_, Entries.mem_of_get? found, rfl⟩) fresh
      rw [absent, Option.elim_none, Json.get?_insertMember_self, Option.elim_some, own]
      rfl
    · next apart => rw [Json.get?_insertMember_of_ne (Ne.symm apart)]

theorem mem_documentMembers (done : documentMembers [] members = .ok result)
    (distinct : (members.map Prod.fst).Nodup) {k : String} {value : Json} :
    (k, value) ∈ result ↔ ∃ tree, (k, tree) ∈ members ∧ tree.toDocument = .ok value := by
  have names : (result.map Prod.fst).Nodup := (sorted_documentMembers done .nil).distinct
  rw [← Entries.get?_eq_some_iff names, get?_documentMembers done distinct]
  simp only [← Entries.get?_eq_some_iff distinct]
  cases Entries.get? k members with
  | none => simp [Entries.get?]
  | some tree => cases h : tree.toDocument <;> simp [Except.toOption, h]

theorem documentMembers_ok (each : ∀ member ∈ members, ∃ value, member.2.toDocument = .ok value)
    (sorted : List (String × Json)) : ∃ result, documentMembers sorted members = .ok result := by
  induction members generalizing sorted with
  | nil => exact ⟨sorted, rfl⟩
  | cons member members ih =>
    obtain ⟨⟨value, own⟩, others⟩ := List.forall_mem_cons.mp each
    obtain ⟨result, rest⟩ := ih others (Json.insertMember member.1 value sorted)
    refine ⟨result, ?_⟩
    rw [documentMembers, own]
    exact rest

end Members

section Items

variable {slots : List (Nat × UpdateTree)} {items : List Json} {next : Nat}

theorem documentItems_cons_ok {i : Nat} {tree : UpdateTree}
    (done : documentItems next ((i, tree) :: slots) = .ok items) :
    ∃ item rest, tree.toDocument = .ok item ∧ documentItems (i + 1) slots = .ok rest ∧
      items = List.replicate (i - next) .null ++ item :: rest := by
  rw [documentItems] at done
  obtain ⟨item, own, behind⟩ := bind_ok done
  obtain ⟨rest, others, same⟩ := bind_ok behind
  exact ⟨item, rest, own, others, (pure_ok same).symm⟩

/-- An index stands for the document of the slot that it stands for. -/
theorem getElem?_documentItems (done : documentItems next slots = .ok items)
    (ascending : Ascending slots) (above : ∀ slot ∈ slots, next ≤ slot.1) {i : Nat}
    {tree : UpdateTree} (inside : (i, tree) ∈ slots) :
    ∃ item, tree.toDocument = .ok item ∧ items[i - next]? = some item := by
  induction slots generalizing next items with
  | nil => cases inside
  | cons slot slots ih =>
    obtain ⟨j, first⟩ := slot
    obtain ⟨before, ascending⟩ := List.pairwise_cons.mp ascending
    obtain ⟨item, rest, own, others, rfl⟩ := documentItems_cons_ok done
    have start : next ≤ j := above _ List.mem_cons_self
    rcases List.mem_cons.mp inside with same | inside
    · obtain ⟨rfl, rfl⟩ := Prod.mk.inj same
      exact ⟨item, own, by simp⟩
    · have behind : j < i := before _ inside
      obtain ⟨inner, done, found⟩ := ih others ascending before inside
      refine ⟨inner, done, ?_⟩
      have place : i - next = (i - (j + 1) + 1) + (j - next) := by omega
      rw [List.getElem?_append_right (by simp; omega), List.length_replicate, place,
        Nat.add_sub_cancel, List.getElem?_cons_succ, found]

theorem documentItems_ok (each : ∀ slot ∈ slots, ∃ item, slot.2.toDocument = .ok item)
    (next : Nat) : ∃ items, documentItems next slots = .ok items := by
  induction slots generalizing next with
  | nil => exact ⟨[], rfl⟩
  | cons slot slots ih =>
    obtain ⟨⟨item, own⟩, others⟩ := List.forall_mem_cons.mp each
    obtain ⟨items, rest⟩ := ih others (slot.1 + 1)
    refine ⟨List.replicate (slot.1 - next) .null ++ item :: items, ?_⟩
    rw [documentItems, own]
    show (do let items ← documentItems (slot.1 + 1) slots; _) = _
    rw [rest]
    rfl

end Items

/-! ### Trees -/

variable {P : Param → Prop} {tree : UpdateTree}

/-- Whether all leaves of a tree have a property. -/
def Leaves (P : Param → Prop) (tree : UpdateTree) : Prop :=
  ∀ path value, tree.get? path = some (leaf value) → P value

theorem Leaves.child (leaves : tree.Leaves P) {step : PathStep} {child : UpdateTree}
    (found : tree.child? step = some child) : child.Leaves P := by
  intro path value below
  refine leaves (step :: path) value ?_
  rw [get?_cons, found]
  exact below

theorem get?_leaf {value other : Param} {path : List PathStep} :
    (leaf value).get? path = some (leaf other) ↔ path = [] ∧ value = other := by
  cases path with
  | nil => simp [get?]
  | cons step path => cases step <;> simp [get?, child?]

@[simp] theorem leaves_leaf {value : Param} : (leaf value).Leaves P ↔ P value := by
  simp [Leaves, get?_leaf]

/-- The leaves of a container are those of its children. -/
theorem Keyed.leaves_iff (keyed : tree.Keyed) (container : ∀ value, tree ≠ leaf value) :
    tree.Leaves P ↔ ∀ child ∈ tree.children, child.2.Leaves P := by
  constructor
  · rintro leaves ⟨step, child⟩ inside
    exact leaves.child (keyed.mem_children_iff.mp inside)
  · intro each path value found
    cases path with
    | nil => exact absurd (Option.some.inj found) (container value)
    | cons step path =>
      rw [get?_cons] at found
      obtain ⟨child, here, below⟩ := Option.bind_eq_some_iff.mp found
      exact each _ (keyed.mem_children_iff.mpr here) path value below

theorem Keyed.leaves_object {members : List (String × UpdateTree)}
    (keyed : (object members).Keyed) :
    (object members).Leaves P ↔ ∀ member ∈ members, member.2.Leaves P := by
  rw [keyed.leaves_iff nofun, children, List.forall_mem_map]

/-- A tree without raw SQL. -/
def Bound (tree : UpdateTree) : Prop :=
  tree.Leaves fun value => ∃ b, value = .value b

/-- A bound tree has a document. -/
theorem Keyed.toDocument_ok (keyed : tree.Keyed) (bound : tree.Bound) :
    ∃ document, tree.toDocument = .ok document := by
  induction keyed with
  | @intro tree own below ih =>
    have each (step : PathStep) (child : UpdateTree) (inside : (step, child) ∈ tree.children) :
        ∃ document, child.toDocument = .ok document := by
      have keyed : tree.Keyed := ⟨own, below⟩
      exact ih _ inside (bound.child (keyed.mem_children_iff.mp inside))
    cases tree with
    | leaf value =>
      obtain ⟨b, rfl⟩ := bound [] value rfl
      exact ⟨b.toDocument, rfl⟩
    | object members =>
      have inner : ∀ member ∈ members, ∃ value, member.2.toDocument = .ok value :=
        fun member inside => each (.key member.1) _ (mem_children_object.mpr ⟨_, inside, rfl⟩)
      obtain ⟨result, done⟩ := documentMembers_ok inner []
      exact ⟨.obj result, by rw [toDocument, done]; rfl⟩
    | array slots =>
      have inner : ∀ slot ∈ slots, ∃ item, slot.2.toDocument = .ok item :=
        fun slot inside => each (.index slot.1) _ (mem_children_array.mpr ⟨_, inside, rfl⟩)
      obtain ⟨items, done⟩ := documentItems_ok inner 0
      exact ⟨.arr items, by rw [toDocument, done]; rfl⟩

/-- Behind a step, the document of a tree has the document of what the tree has there. -/
theorem Keyed.child?_toDocument {child : UpdateTree} (keyed : tree.Keyed) {document : Json}
    (done : tree.toDocument = .ok document) {step : PathStep}
    (found : tree.child? step = some child) :
    ∃ inner, child.toDocument = .ok inner ∧ document.child? step = some inner := by
  cases tree with
  | leaf value => cases step <;> cases found
  | object members =>
    cases step with
    | index i => cases found
    | key k =>
      rw [toDocument] at done
      obtain ⟨result, listed, rfl⟩ := map_ok done
      have distinct := (keyed_object.mp keyed).1
      replace found : Entries.get? k members = some child := found
      obtain ⟨inner, own⟩ : ∃ inner, child.toDocument = .ok inner :=
        documentMembers_each listed _ (Entries.mem_of_get? found)
      refine ⟨inner, own, ?_⟩
      show Entries.get? k result = some inner
      rw [get?_documentMembers listed distinct, found, Option.elim_some, own]
      rfl
  | array slots =>
    cases step with
    | key k => cases found
    | index i =>
      rw [toDocument] at done
      obtain ⟨items, listed, rfl⟩ := map_ok done
      exact getElem?_documentItems listed (keyed_array.mp keyed).1 (fun _ _ => Nat.zero_le _)
        (mem_of_slot found)

/-- At a path, the document of a tree has the document of what the tree has there. -/
theorem Keyed.get?_toDocument {sub : UpdateTree} (keyed : tree.Keyed) {document : Json}
    (done : tree.toDocument = .ok document) {path : List PathStep}
    (found : tree.get? path = some sub) :
    ∃ inner, sub.toDocument = .ok inner ∧ document.get? path = some inner := by
  induction path generalizing tree document with
  | nil =>
    obtain rfl := Option.some.inj found
    exact ⟨document, done, rfl⟩
  | cons step path ih =>
    rw [get?_cons] at found
    obtain ⟨child, here, below⟩ := Option.bind_eq_some_iff.mp found
    obtain ⟨middle, own, held⟩ := keyed.child?_toDocument done here
    obtain ⟨inner, last, deep⟩ := ih (keyed.child here) own below
    refine ⟨inner, last, ?_⟩
    rw [Json.get?, held]
    exact deep

end UpdateTree

end SqlCompiler
