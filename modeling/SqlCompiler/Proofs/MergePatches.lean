import SqlCompiler.Proofs.TreeDocuments
/-!
# Trees that are patches

A merge with a document takes away the members that are null there, and replaces arrays as a whole.
The trees that count as patches have objects and bound leaves only, none of them null. A leaf may
still be a document of its own, or a number that JSON cannot write: what the merge does is up to
these leaves, and to them alone.
-/

namespace SqlCompiler

/-- No null in a document, and no array. -/
def Json.Mergeable (document : Json) : Prop :=
  document.Throughout fun value => value ≠ .null ∧ ∀ items, value ≠ .arr items

namespace Json

theorem mergeable_obj {members : List (String × Json)} :
    (obj members).Mergeable ↔ ∀ member ∈ members, member.2.Mergeable := by
  simp [Mergeable, throughout_obj]

theorem mergeable_scalar {document : Json} (scalar : document.values = [])
    (own : document ≠ .null ∧ ∀ items, document ≠ .arr items) : document.Mergeable :=
  (throughout_scalar scalar).mpr own

theorem not_mergeable_null : ¬ null.Mergeable := by
  intro h
  exact (throughout_iff.mp h).1.1 rfl

end Json

namespace Binding

/-- A value other than a number that JSON cannot write, or a document with nulls or arrays. -/
def Mergeable (b : Binding) : Prop :=
  (∀ x, b.bare = float x → x.isFinite = true) ∧
    ∀ document, b.bare = json document → document.Mergeable

theorem mergeable_toDocument_iff {b : Binding} (notNull : b.isNull = false) :
    b.toDocument.Mergeable ↔ b.Mergeable := by
  induction b with
  | null => cases notNull
  | typed value wire ih => exact ih notNull
  | json document => simp [toDocument, Mergeable, bare]
  | float x =>
    have number : (Json.float x).Mergeable := Json.mergeable_scalar rfl ⟨nofun, nofun⟩
    by_cases finite : x.isFinite = true <;>
      simp [toDocument, Mergeable, bare, finite, Json.not_mergeable_null, number]
  | bool | int | text | bytes | date | time | dateTime =>
    refine iff_of_true (Json.mergeable_scalar rfl ?_) ⟨nofun, nofun⟩
    simp [toDocument]

end Binding

namespace UpdateTree

/-- The members of a patch are patches, or bound values other than null. -/
theorem patchMembers_iff {members : List (String × UpdateTree)} :
    patchMembers members = true ↔ ∀ member ∈ members,
      (∃ b, member.2 = leaf (.value b) ∧ b.isNull = false) ∨ member.2.isPatch = true := by
  induction members with
  | nil => simp [patchMembers]
  | cons member members ih =>
    obtain ⟨name, tree⟩ := member
    rw [List.forall_mem_cons, ← ih]
    cases tree with
    | object inner => simp [patchMembers, isPatch]
    | array slots => simp [patchMembers, isPatch]
    | leaf value => cases value <;> simp [patchMembers, isPatch]

/-- A patch has an object for its document. It is merged as it is if all bound leaves are. -/
theorem patch_mergeable_iff {tree : UpdateTree} (keyed : tree.Keyed)
    (patch : tree.isPatch = true) :
    ∃ members, tree.toDocument = .ok (.obj members) ∧
      ((Json.obj members).Mergeable ↔ tree.Leaves fun value => ∀ b, value = .value b → b.Mergeable)
      := by
  induction keyed with
  | @intro tree own below ih =>
    cases tree with
    | array slots => cases patch
    | leaf value => cases patch
    | object members =>
      have keyed : (object members).Keyed := ⟨own, below⟩
      have each : ∀ member ∈ members, ∃ value, member.2.toDocument = .ok value ∧
          (value.Mergeable ↔ member.2.Leaves fun value => ∀ b, value = .value b → b.Mergeable) := by
        intro member inside
        -- a bound value is merged by itself, anything else is a patch again
        rcases patchMembers_iff.mp patch member inside with ⟨b, same, notNull⟩ | inner
        · rw [same]
          exact ⟨b.toDocument, rfl, by simp [Binding.mergeable_toDocument_iff notNull]⟩
        · obtain ⟨document, done, same⟩ :=
            ih _ (mem_children_object.mpr ⟨member, inside, rfl⟩) inner
          exact ⟨.obj document, done, same⟩
      obtain ⟨result, listed⟩ := documentMembers_ok (fun member inside =>
        (each member inside).imp fun value both => both.1) []
      refine ⟨result, by rw [toDocument, listed]; rfl, ?_⟩
      rw [Json.mergeable_obj, keyed.leaves_object]
      constructor
      · rintro all ⟨name, child⟩ inside
        obtain ⟨value, done, same⟩ := each _ inside
        exact same.mp (all _ ((mem_documentMembers listed own).mpr ⟨child, inside, done⟩))
      · rintro leaves ⟨name, value⟩ found
        obtain ⟨child, inside, done⟩ := (mem_documentMembers listed own).mp found
        obtain ⟨document, again, same⟩ := each _ inside
        obtain rfl : value = document := Except.ok.inj (done.symm.trans again)
        exact same.mpr (leaves _ inside)

/-- An address with a document of its own among its members. -/
def movedAddress : UpdateTree :=
  object [("name", leaf (.value (.typed (.text "Ada") .text))),
    ("address", object [("zip", leaf (.value (.int 10121))),
      ("geo", leaf (.value (.json (.obj [("city", .str "Turin")]))))])]

theorem movedAddress_mergeable :
    movedAddress.Keyed ∧ movedAddress.isPatch = true ∧
      ∃ members, movedAddress.toDocument = .ok (.obj members) ∧ (Json.obj members).Mergeable := by
  have keyed : movedAddress.Keyed := by simp [movedAddress, keyed_object, keyed_leaf]
  have patch : movedAddress.isPatch = true := by
    simp [movedAddress, isPatch, patchMembers, Binding.isNull, Binding.bare]
  obtain ⟨members, done, same⟩ := patch_mergeable_iff keyed patch
  refine ⟨keyed, patch, members, done, same.mpr ?_⟩
  have city : (Json.str "Turin").Mergeable := Json.mergeable_scalar rfl (by simp)
  have inner := (keyed_object.mp keyed).2
  simp only [movedAddress, List.forall_mem_cons] at inner ⊢
  rw [keyed.leaves_object]
  simp [inner.2.1.leaves_object, Binding.Mergeable, Binding.bare,
    Json.mergeable_obj, city]

/-- A street that a document of its own takes back, and tags as another. -/
def clearedStreet : UpdateTree :=
  object [("address", leaf (.value (.json (.obj [("street", .null)])))),
    ("tags", leaf (.value (.json (.arr [.str "moved"]))))]

/-- The tree counts as a patch, with a null and an array in its document. -/
theorem clearedStreet_unmergeable :
    clearedStreet.Keyed ∧ clearedStreet.isPatch = true ∧
      clearedStreet.toDocument
        = .ok (.obj [("address", .obj [("street", .null)]), ("tags", .arr [.str "moved"])]) ∧
      ¬ (Json.obj [("address", .obj [("street", .null)]), ("tags", .arr [.str "moved"])]).Mergeable
      := by
  have keyed : clearedStreet.Keyed := by simp [clearedStreet, keyed_object, keyed_leaf]
  have patch : clearedStreet.isPatch = true := by
    simp [clearedStreet, isPatch, patchMembers, Binding.isNull, Binding.bare]
  refine ⟨keyed, patch, rfl, ?_⟩
  simp [Json.mergeable_obj, Json.not_mergeable_null]

end UpdateTree

end SqlCompiler
