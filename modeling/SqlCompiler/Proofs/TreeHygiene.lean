import SqlCompiler.Proofs.Hygiene
import SqlCompiler.Proofs.Outcomes
import SqlCompiler.Proofs.PathLiterals
import SqlCompiler.UpdateTree
/-!
# Hygienic update trees

A row with clean keys and hygienic values is gathered into trees with clean keys and hygienic
leaves. The documents that a tree starts from bring keys of their own.
-/

namespace SqlCompiler

open Substitute

mutual

/-- Whether all names in a document are clean. -/
def Json.CleanKeys : Json → Prop
  | .obj members => Json.CleanMembers members
  | .arr items => Json.CleanItems items
  | .null | .bool _ | .int _ | .float _ | .str _ => True

def Json.CleanMembers : List (String × Json) → Prop
  | [] => True
  | (name, value) :: members => Clean name.toList ∧ Json.CleanKeys value ∧ Json.CleanMembers members

def Json.CleanItems : List Json → Prop
  | [] => True
  | item :: items => Json.CleanKeys item ∧ Json.CleanItems items

end

namespace UpdateTree

mutual

def Hygienic : UpdateTree → Prop
  | object members => HygienicMembers members
  | array slots => HygienicSlots slots
  | leaf value => value.Hygienic

def HygienicMembers : List (String × UpdateTree) → Prop
  | [] => True
  | (k, tree) :: members => Clean k.toList ∧ Hygienic tree ∧ HygienicMembers members

def HygienicSlots : List (Nat × UpdateTree) → Prop
  | [] => True
  | (_, tree) :: slots => Hygienic tree ∧ HygienicSlots slots

end

theorem hygienicMembers_iff {members : List (String × UpdateTree)} :
    HygienicMembers members ↔ ∀ member ∈ members, Clean member.1.toList ∧ member.2.Hygienic := by
  induction members with
  | nil => simp [HygienicMembers]
  | cons member members ih => simp [HygienicMembers, ih, and_assoc]

theorem hygienicSlots_iff {slots : List (Nat × UpdateTree)} :
    HygienicSlots slots ↔ ∀ slot ∈ slots, slot.2.Hygienic := by
  induction slots with
  | nil => simp [HygienicSlots]
  | cons slot slots ih => simp [HygienicSlots, ih]

theorem hygienic_fresh : fresh.Hygienic := trivial

theorem hygienic_containerFor (step : PathStep) : (containerFor step).Hygienic := by
  cases step <;> trivial

theorem hygienic_opened {step : PathStep} {tree : UpdateTree} (h : tree.Hygienic) :
    (tree.opened step).Hygienic := by
  cases tree with
  | leaf value => exact hygienic_containerFor step
  | object members => exact h
  | array slots => exact h

theorem mem_setSlot {i : Nat} {tree : UpdateTree} {slots : List (Nat × UpdateTree)}
    {slot : Nat × UpdateTree} (h : slot ∈ setSlot i tree slots) :
    slot = (i, tree) ∨ slot ∈ slots := by
  induction slots with
  | nil => simpa [setSlot] using h
  | cons first rest ih =>
    obtain ⟨j, held⟩ := first
    rw [setSlot] at h
    split at h
    · simpa using h
    · split at h
      · rcases List.mem_cons.mp h with h | h
        · exact .inl h
        · exact .inr (List.mem_cons_of_mem _ h)
      · rcases List.mem_cons.mp h with h | h
        · exact .inr (List.mem_cons.mpr (.inl h))
        · exact (ih h).imp_right (List.mem_cons_of_mem _)

theorem mem_of_slot {i : Nat} {tree : UpdateTree} {slots : List (Nat × UpdateTree)}
    (h : slot? i slots = some tree) : (i, tree) ∈ slots := by
  induction slots with
  | nil => simp [slot?] at h
  | cons first rest ih =>
    obtain ⟨j, held⟩ := first
    rw [slot?] at h
    split at h
    · next same => simp_all
    · exact List.mem_cons_of_mem _ (ih h)

theorem hygienic_insert {value : Param} (hv : value.Hygienic) {steps : List PathStep}
    (hs : ∀ step ∈ steps, step.Clean) {tree : UpdateTree} (ht : tree.Hygienic) :
    (insert value steps tree).tree.Hygienic := by
  induction steps generalizing tree with
  | nil => exact hv
  | cons step rest ih =>
    obtain ⟨first, others⟩ := List.forall_mem_cons.mp hs
    have opened : (tree.opened step).Hygienic := hygienic_opened ht
    unfold insert
    split
    · next k members same =>
      rw [same] at opened
      have each := hygienicMembers_iff.mp opened
      have child : ((Entries.get? k members).getD fresh).Hygienic := by
        cases found : Entries.get? k members with
        | none => exact hygienic_fresh
        | some held => exact (each _ (Entries.mem_of_get? found)).2
      refine hygienicMembers_iff.mpr fun member inside => ?_
      rcases Entries.mem_set inside with rfl | inside
      · exact ⟨first, ih others child⟩
      · exact each member inside
    · next i slots same =>
      rw [same] at opened
      have each := hygienicSlots_iff.mp opened
      have child : ((slot? i slots).getD fresh).Hygienic := by
        cases found : slot? i slots with
        | none => exact hygienic_fresh
        | some held => exact each _ (mem_of_slot found)
      refine hygienicSlots_iff.mpr fun slot inside => ?_
      rcases mem_setSlot inside with rfl | inside
      · exact ih others child
      · exact each slot inside
    · exact opened

mutual

theorem hygienic_ofDocument :
    ∀ {document : Json}, document.CleanKeys → (ofDocument document).Hygienic
  | .obj _, h => hygienic_ofMembers h
  | .arr _, h => hygienic_ofItems h
  | .null, _ | .bool _, _ | .int _, _ | .float _, _ | .str _, _ => trivial

theorem hygienic_ofMembers : ∀ {members : List (String × Json)}, Json.CleanMembers members →
    HygienicMembers (ofMembers members)
  | [], _ => trivial
  | (_, _) :: _, h => ⟨h.1, hygienic_ofDocument h.2.1, hygienic_ofMembers h.2.2⟩

theorem hygienic_ofItems : ∀ {items : List Json} {i : Nat}, Json.CleanItems items →
    HygienicSlots (ofItems i items)
  | [], _, _ => trivial
  | _ :: _, _, h => ⟨hygienic_ofDocument h.1, hygienic_ofItems h.2⟩

end

theorem clean_splitKey {key column : String} {path : List Char} (h : Clean key.toList)
    (cut : splitKey? key = some (column, path)) : Clean column.toList ∧ Clean path := by
  obtain ⟨⟨before, after⟩, found, same⟩ := Option.map_eq_some_iff.mp cut
  simp only [Prod.mk.injEq] at same
  obtain ⟨rfl, rfl⟩ := same
  simpa using clean_cutArrow h found

/-- Trees of columns with clean names. -/
def AllHygienic (trees : List (String × UpdateTree)) : Prop :=
  ∀ entry ∈ trees, Clean entry.1.toList ∧ entry.2.Hygienic

theorem baseTrees_hygienic {columns : List String} {entries : List (String × Param)}
    (hc : ∀ entry ∈ entries, Clean entry.1.toList)
    (hd : ∀ entry ∈ entries, entry.1 ∈ columns → ∀ document ∈ containerDocument? entry.2,
      document.CleanKeys) : Yields AllHygienic (baseTrees columns entries) := by
  induction entries with
  | nil => exact yields_ok.mpr (by simp [AllHygienic])
  | cons entry rest ih =>
    obtain ⟨key, value⟩ := entry
    obtain ⟨own, others⟩ := List.forall_mem_cons.mp hc
    obtain ⟨base, bases⟩ := List.forall_mem_cons.mp hd
    unfold baseTrees
    split
    · exact ih others bases
    · next reached =>
      split
      · exact yields_error
      · next document found =>
        refine (ih others bases).bind fun trees each => yields_pure.mpr ?_
        have inside : key ∈ columns := Decidable.not_not.mp fun out => reached (.inr out)
        have tree := hygienic_ofDocument (base inside document found)
        exact List.forall_mem_cons.mpr ⟨⟨own, tree⟩, each⟩

theorem addPaths_hygienic {trees : List (String × UpdateTree)} (ht : AllHygienic trees)
    {entries : List (String × Param)}
    (h : ∀ entry ∈ entries, Clean entry.1.toList ∧ entry.2.Hygienic) :
    Yields AllHygienic (addPaths trees entries) := by
  induction entries generalizing trees with
  | nil => exact yields_ok.mpr ht
  | cons entry rest ih =>
    obtain ⟨key, value⟩ := entry
    obtain ⟨own, others⟩ := List.forall_mem_cons.mp h
    unfold addPaths
    split
    · exact ih ht others
    · next column path cut =>
      have parts := clean_splitKey own.1 cut
      have read : Yields (fun steps => ∀ step ∈ steps, step.Clean) (JsonPath.steps path) :=
        fun steps ok => JsonPath.clean_steps parts.2 ok
      refine read.bind fun steps clean => ?_
      have inserted (root : UpdateTree) (hroot : root.Hygienic) :
          Yields Hygienic (insert value steps ((Entries.get? column trees).getD root)).result := by
        have tree : ((Entries.get? column trees).getD root).Hygienic := by
          cases found : Entries.get? column trees with
          | none => exact hroot
          | some tree => exact (ht _ (Entries.mem_of_get? found)).2
        unfold Insertion.result
        split
        · exact yields_ok.mpr (hygienic_insert own.2 clean tree)
        · exact yields_error
      have kept (tree : UpdateTree) (hygienic : tree.Hygienic) :
          Yields AllHygienic (addPaths (Entries.set column tree trees) rest) := by
        refine ih (fun other member => ?_) others
        rcases Entries.mem_set member with rfl | member
        · exact ⟨parts.1, hygienic⟩
        · exact ht other member
      cases steps with
      | nil => exact (inserted fresh hygienic_fresh).bind kept
      | cons step _ => exact (inserted _ (hygienic_containerFor step)).bind kept

theorem ofRow_hygienic {row : Row} (h : row.Hygienic)
    (hd : ∀ entry ∈ row.entries, entry.1 ∈ pathColumns row →
      ∀ document ∈ containerDocument? entry.2, document.CleanKeys) :
    Yields AllHygienic (ofRow row) :=
  (baseTrees_hygienic (fun entry member => (h entry member).1) hd).bind
    fun _ bases => addPaths_hygienic bases h

end UpdateTree

end SqlCompiler
