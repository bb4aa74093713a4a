import SqlCompiler.Proofs.InsertionFrame
import SqlCompiler.Proofs.TreeHygiene
/-!
# Keyed trees

The containers of an update tree are maps: a name stands for one member of an object, and the slots
of an array are in the order of their indexes. The trees that a row is gathered into are keyed, and
an insertion into a keyed tree that fails leaves it as it was.
-/

namespace SqlCompiler

namespace Json

/-- Members in ascending order of their names. -/
def Sorted (members : List (String × Json)) : Prop :=
  members.Pairwise fun member other => member.1 < other.1

theorem Sorted.distinct {members : List (String × Json)} (sorted : Sorted members) :
    (members.map Prod.fst).Nodup := by
  refine List.pairwise_map.mpr (sorted.imp fun {member other} before same => ?_)
  rw [same] at before
  exact String.lt_irrefl _ before

theorem mem_insertMember {name : String} {value : Json} {members : List (String × Json)}
    {member : String × Json} (h : member ∈ insertMember name value members) :
    member = (name, value) ∨ member ∈ members := by
  induction members with
  | nil => simpa [insertMember] using h
  | cons first rest ih =>
    obtain ⟨other, held⟩ := first
    rw [insertMember] at h
    split at h
    · rcases List.mem_cons.mp h with h | h
      · exact .inl h
      · exact .inr (List.mem_cons_of_mem _ h)
    · split at h
      · exact List.mem_cons.mp h
      · rcases List.mem_cons.mp h with h | h
        · exact .inr (List.mem_cons.mpr (.inl h))
        · exact (ih h).imp_right (List.mem_cons_of_mem _)

theorem sorted_insertMember {members : List (String × Json)} (sorted : Sorted members)
    (name : String) (value : Json) : Sorted (insertMember name value members) := by
  induction members with
  | nil => exact List.pairwise_singleton _ _
  | cons first rest ih =>
    obtain ⟨other, held⟩ := first
    obtain ⟨before, behind⟩ := List.pairwise_cons.mp sorted
    rw [insertMember]
    split
    · next same => exact List.pairwise_cons.mpr ⟨same ▸ before, behind⟩
    · next apart =>
      split
      · next below =>
        refine List.pairwise_cons.mpr ⟨fun member inside => ?_, sorted⟩
        rcases List.mem_cons.mp inside with rfl | inside
        · exact below
        · exact String.lt_trans below (before member inside)
      · next above =>
        have above : other < name := by grind
        refine List.pairwise_cons.mpr ⟨fun member inside => ?_, ih behind⟩
        rcases mem_insertMember inside with rfl | inside
        · exact above
        · exact before member inside

/-- A document whose objects have each name once. -/
inductive Keyed : Json → Prop
  | null : Keyed null
  | bool (b : Bool) : Keyed (bool b)
  | int (n : Int) : Keyed (int n)
  | float (x : Binary64) : Keyed (float x)
  | str (s : String) : Keyed (str s)
  | arr {items : List Json} (each : ∀ item ∈ items, Keyed item) : Keyed (arr items)
  | obj {members : List (String × Json)} (distinct : (members.map Prod.fst).Nodup)
      (each : ∀ member ∈ members, Keyed member.2) : Keyed (obj members)

mutual

theorem keyed_canonical : ∀ document : Json, document.canonical.Keyed
  | null => .null
  | bool b => .bool b
  | int n => .int n
  | float x => .float x
  | str s => .str s
  | arr items => .arr (keyed_canonicalItems items)
  | obj members => by
    obtain ⟨sorted, each⟩ := keyed_canonicalMembers members [] .nil (by simp)
    exact .obj sorted.distinct each

theorem keyed_canonicalItems : ∀ items : List Json, ∀ item ∈ canonicalItems items, item.Keyed
  | [] => by simp [canonicalItems]
  | item :: items => List.forall_mem_cons.mpr ⟨keyed_canonical item, keyed_canonicalItems items⟩

theorem keyed_canonicalMembers : ∀ members sorted : List (String × Json),
    Sorted sorted → (∀ member ∈ sorted, member.2.Keyed) →
      Sorted (canonicalMembers sorted members) ∧
      ∀ member ∈ canonicalMembers sorted members, member.2.Keyed
  | [], _, ascending, each => ⟨ascending, each⟩
  | (name, value) :: members, _, ascending, each => by
    refine keyed_canonicalMembers members _ (sorted_insertMember ascending name _) ?_
    intro member inside
    rcases mem_insertMember inside with rfl | inside
    · exact keyed_canonical value
    · exact each member inside

end

end Json

namespace UpdateTree

variable {i : Nat} {tree : UpdateTree} {slots : List (Nat × UpdateTree)}

/-- Slots in the order of their indexes, each index once. -/
def Ascending (slots : List (Nat × UpdateTree)) : Prop :=
  slots.Pairwise fun slot other => slot.1 < other.1

theorem slot?_eq_some_iff (ascending : Ascending slots) :
    slot? i slots = some tree ↔ (i, tree) ∈ slots := by
  refine ⟨mem_of_slot, fun member => ?_⟩
  induction slots with
  | nil => cases member
  | cons slot rest ih =>
    obtain ⟨j, held⟩ := slot
    obtain ⟨before, ascending⟩ := List.pairwise_cons.mp ascending
    rw [slot?]
    rcases List.mem_cons.mp member with same | member
    · obtain ⟨rfl, rfl⟩ := Prod.mk.inj same
      rw [if_pos rfl]
    · have below : j < i := before _ member
      rw [if_neg (Nat.ne_of_lt below)]
      exact ih ascending member

theorem setSlot_slot? (ascending : Ascending slots) (found : slot? i slots = some tree) :
    setSlot i tree slots = slots := by
  induction slots with
  | nil => cases found
  | cons slot rest ih =>
    obtain ⟨j, held⟩ := slot
    obtain ⟨before, ascending⟩ := List.pairwise_cons.mp ascending
    rw [slot?] at found
    rw [setSlot]
    by_cases same : j = i
    · rw [if_pos same] at found
      rw [if_neg (by omega), if_pos same.symm, same, Option.some.inj found]
    · rw [if_neg same] at found
      have below : j < i := before _ (mem_of_slot found)
      rw [if_neg (by omega), if_neg (Ne.symm same), ih ascending found]

theorem ascending_setSlot (ascending : Ascending slots) : Ascending (setSlot i tree slots) := by
  induction slots with
  | nil => exact List.pairwise_singleton _ _
  | cons slot rest ih =>
    obtain ⟨j, held⟩ := slot
    obtain ⟨before, behind⟩ := List.pairwise_cons.mp ascending
    rw [setSlot]
    split
    · next below =>
      refine List.pairwise_cons.mpr ⟨fun other member => ?_, ascending⟩
      rcases List.mem_cons.mp member with rfl | member
      · exact below
      · exact Nat.lt_trans below (before other member)
    · split
      · next same => exact List.pairwise_cons.mpr ⟨same ▸ before, behind⟩
      · refine List.pairwise_cons.mpr ⟨fun other member => ?_, ih behind⟩
        rcases mem_setSlot member with rfl | member
        · show j < i
          omega
        · exact before other member

/-! ### Trees of maps -/

/-- A container that tells its children apart. -/
def Separates : UpdateTree → Prop
  | object members => (members.map Prod.fst).Nodup
  | array slots => Ascending slots
  | leaf _ => True

/-- A tree all of whose containers tell their children apart. -/
inductive Keyed : UpdateTree → Prop
  | intro {tree : UpdateTree} (own : tree.Separates)
      (below : ∀ child ∈ tree.children, Keyed child.2) : Keyed tree

theorem keyed_leaf (value : Param) : (leaf value).Keyed :=
  ⟨trivial, by simp [children]⟩

theorem mem_children_object {members : List (String × UpdateTree)} {child : PathStep × UpdateTree} :
    child ∈ (object members).children ↔ ∃ member ∈ members, (.key member.1, member.2) = child :=
  List.mem_map

theorem mem_children_array {child : PathStep × UpdateTree} :
    child ∈ (array slots).children ↔ ∃ slot ∈ slots, (.index slot.1, slot.2) = child :=
  List.mem_map

theorem keyed_object {members : List (String × UpdateTree)} :
    (object members).Keyed ↔ (members.map Prod.fst).Nodup ∧ ∀ member ∈ members, member.2.Keyed := by
  constructor
  · rintro ⟨own, below⟩
    exact ⟨own, fun member inside => below _ (mem_children_object.mpr ⟨member, inside, rfl⟩)⟩
  · rintro ⟨own, below⟩
    refine ⟨own, fun child found => ?_⟩
    obtain ⟨member, inside, rfl⟩ := mem_children_object.mp found
    exact below member inside

theorem keyed_array :
    (array slots).Keyed ↔ Ascending slots ∧ ∀ slot ∈ slots, slot.2.Keyed := by
  constructor
  · rintro ⟨own, below⟩
    exact ⟨own, fun slot inside => below _ (mem_children_array.mpr ⟨slot, inside, rfl⟩)⟩
  · rintro ⟨own, below⟩
    refine ⟨own, fun child found => ?_⟩
    obtain ⟨slot, inside, rfl⟩ := mem_children_array.mp found
    exact below slot inside

theorem keyed_containerFor (step : PathStep) : (containerFor step).Keyed := by
  cases step with
  | key k => exact keyed_object.mpr ⟨.nil, by simp⟩
  | index i => exact keyed_array.mpr ⟨.nil, by simp⟩

theorem Keyed.opened {tree : UpdateTree} (keyed : tree.Keyed) (step : PathStep) :
    (tree.opened step).Keyed := by
  cases tree with
  | leaf value => exact keyed_containerFor step
  | object members => exact keyed
  | array slots => exact keyed

/-- In a keyed tree every child is found behind its step. -/
theorem Keyed.mem_children_iff {tree child : UpdateTree} (keyed : tree.Keyed) {step : PathStep} :
    (step, child) ∈ tree.children ↔ tree.child? step = some child := by
  cases tree with
  | leaf value => cases step <;> simp [children, child?]
  | object members =>
    have found (k : String) : Entries.get? k members = some child ↔ (k, child) ∈ members :=
      Entries.get?_eq_some_iff (keyed_object.mp keyed).1
    cases step with
    | key k => simp [children, child?, found]
    | index i => simp [children, child?]
  | array slots =>
    have found (i : Nat) : slot? i slots = some child ↔ (i, child) ∈ slots :=
      slot?_eq_some_iff (keyed_array.mp keyed).1
    cases step with
    | key k => simp [children, child?]
    | index i => simp [children, child?, found]

theorem Keyed.child {tree child : UpdateTree} (keyed : tree.Keyed) {step : PathStep}
    (found : tree.child? step = some child) : child.Keyed := by
  have member := keyed.mem_children_iff.mpr found
  obtain ⟨-, below⟩ := keyed
  exact below _ member

variable {value : Param} {path : List PathStep}

theorem insert_key (k : String) (members : List (String × UpdateTree)) :
    insert value (.key k :: path) (object members)
      = (insert value path ((Entries.get? k members).getD fresh)).within
          fun child => object (Entries.set k child members) := by
  simp only [insert, opened]

theorem insert_index (i : Nat) (slots : List (Nat × UpdateTree)) :
    insert value (.index i :: path) (array slots)
      = (insert value path ((slot? i slots).getD fresh)).within
          fun child => array (setSlot i child slots) := by
  simp only [insert, opened]

/-- An insertion opens what it goes through, so that a leaf is as good as an empty container. -/
theorem insert_cons_leaf (step : PathStep) (old : Param) :
    insert value (step :: path) (leaf old) = insert value (step :: path) (containerFor step) := by
  cases step <;> rfl

/-- A leaf makes room for whatever the path needs. -/
theorem insert_leaf (value : Param) (path : List PathStep) (old : Param) :
    (insert value path (leaf old)).error = none := by
  induction path generalizing old with
  | nil => rfl
  | cons step path ih =>
    rw [insert_cons_leaf]
    cases step with
    | key k =>
      rw [containerFor, insert_key]
      exact ih _
    | index i =>
      rw [containerFor, insert_index]
      exact ih _

/-- A container of another kind than a step needs. -/
def Refuses : UpdateTree → PathStep → Prop
  | object _, .index _ | array _, .key _ => True
  | object _, .key _ | array _, .index _ | leaf _, _ => False

/-- A step of a path comes to a container that refuses it. -/
def Blocked (tree : UpdateTree) (path : List PathStep) (step : PathStep) : Prop :=
  ∃ front rest sub, path = front ++ step :: rest ∧ tree.get? front = some sub ∧ sub.Refuses step

theorem blocked_nil {tree : UpdateTree} {step : PathStep} : ¬ tree.Blocked [] step := by
  rintro ⟨front, rest, sub, same, -⟩
  simp at same

/-- A path is blocked at its first step, or behind it. -/
theorem blocked_cons {tree : UpdateTree} {first step : PathStep} :
    tree.Blocked (first :: path) step ↔ tree.Refuses first ∧ step = first ∨
      ∃ child, tree.child? first = some child ∧ child.Blocked path step := by
  constructor
  · rintro ⟨front, rest, sub, same, found, refused⟩
    cases front with
    | nil =>
      obtain ⟨rfl, -⟩ := List.cons.inj same
      obtain rfl := Option.some.inj found
      exact .inl ⟨refused, rfl⟩
    | cons other front =>
      obtain ⟨rfl, behind⟩ := List.cons.inj same
      rw [get?_cons] at found
      obtain ⟨child, here, below⟩ := Option.bind_eq_some_iff.mp found
      exact .inr ⟨child, here, front, rest, sub, behind, below, refused⟩
  · rintro (⟨refused, rfl⟩ | ⟨child, here, front, rest, sub, rfl, below, refused⟩)
    · exact ⟨[], path, tree, rfl, rfl, refused⟩
    · refine ⟨first :: front, rest, sub, rfl, ?_, refused⟩
      rw [get?_cons, here]
      exact below

/-- An insertion fails where its path is blocked, and only there. -/
theorem insert_error_iff {tree : UpdateTree} {error : CompileError} :
    (insert value path tree).error = some error ↔
      ∃ step, tree.Blocked path step ∧ error = .invalid (.pathKind step.text) := by
  induction path generalizing tree with
  | nil => simp [UpdateTree.insert, blocked_nil]
  | cons first path ih =>
    simp only [blocked_cons]
    cases tree with
    | leaf old =>
      rw [insert_leaf]
      cases first <;> simp [Refuses, child?]
    | object members =>
      cases first with
      | index i => simp [UpdateTree.insert, opened, Refuses, child?, eq_comm]
      | key k =>
        rw [insert_key]
        show (insert value path _).error = some error ↔ _
        cases found : Entries.get? k members with
        | none => simp [fresh, insert_leaf, Refuses, child?, found]
        | some child => simp [ih, Refuses, child?, found]
    | array slots =>
      cases first with
      | key k => simp [UpdateTree.insert, opened, Refuses, child?, eq_comm]
      | index i =>
        rw [insert_index]
        show (insert value path _).error = some error ↔ _
        cases found : slot? i slots with
        | none => simp [fresh, insert_leaf, Refuses, child?, found]
        | some child => simp [ih, Refuses, child?, found]

/-- A failed insertion has come to a container of another kind than its path needs. Up to there it
went through children that it found, for in a fresh one it would not have failed, and has put them
back where they were. -/
theorem Keyed.tree_insert_eq {tree : UpdateTree} (keyed : tree.Keyed)
    (failed : (insert value path tree).error ≠ none) : (insert value path tree).tree = tree := by
  induction path generalizing tree with
  | nil => exact absurd rfl failed
  | cons step path ih =>
    cases tree with
    | leaf old => exact absurd (insert_leaf value _ old) failed
    | object members =>
      cases step with
      | index i => rfl
      | key k =>
        rw [insert_key] at failed ⊢
        cases found : Entries.get? k members with
        | none =>
          rw [found] at failed
          exact absurd (insert_leaf value path _) failed
        | some child =>
          rw [found] at failed
          have inner : child.Keyed := keyed.child
            (show (object members).child? (.key k) = _ from found)
          have same := ih inner failed
          show object (Entries.set k (insert value path child).tree members) = object members
          rw [same, Entries.set_get? found]
    | array slots =>
      cases step with
      | key k => rfl
      | index i =>
        rw [insert_index] at failed ⊢
        cases found : slot? i slots with
        | none =>
          rw [found] at failed
          exact absurd (insert_leaf value path _) failed
        | some child =>
          rw [found] at failed
          have inner : child.Keyed := keyed.child
            (show (array slots).child? (.index i) = _ from found)
          have same := ih inner failed
          show array (setSlot i (insert value path child).tree slots) = array slots
          rw [same, setSlot_slot? (keyed_array.mp keyed).1 found]

theorem keyed_fresh : fresh.Keyed := keyed_leaf _

theorem Keyed.object_set {k : String} {child : UpdateTree} {members : List (String × UpdateTree)}
    (keyed : (object members).Keyed) (below : child.Keyed) :
    (object (Entries.set k child members)).Keyed := by
  obtain ⟨distinct, each⟩ := keyed_object.mp keyed
  refine keyed_object.mpr ⟨Entries.nodup_set distinct, fun member inside => ?_⟩
  rcases Entries.mem_set inside with rfl | inside
  · exact below
  · exact each member inside

theorem Keyed.array_set {i : Nat} {child : UpdateTree} (keyed : (array slots).Keyed)
    (below : child.Keyed) : (array (setSlot i child slots)).Keyed := by
  obtain ⟨ascending, each⟩ := keyed_array.mp keyed
  refine keyed_array.mpr ⟨ascending_setSlot ascending, fun slot inside => ?_⟩
  rcases mem_setSlot inside with rfl | inside
  · exact below
  · exact each slot inside

theorem Keyed.getD {tree : UpdateTree} (keyed : tree.Keyed) (step : PathStep) :
    ((tree.child? step).getD fresh).Keyed := by
  cases found : tree.child? step with
  | none => exact keyed_fresh
  | some child => exact keyed.child found

theorem Keyed.insert {tree : UpdateTree} (keyed : tree.Keyed) :
    (insert value path tree).tree.Keyed := by
  induction path generalizing tree with
  | nil => exact keyed_leaf value
  | cons step path ih =>
    have opened := keyed.opened step
    unfold UpdateTree.insert
    split
    · next k members same =>
      rw [same] at opened
      exact opened.object_set (ih (opened.getD (.key k)))
    · next i slots same =>
      rw [same] at opened
      exact opened.array_set (ih (opened.getD (.index i)))
    · exact opened

/-! ### Trees of a row -/

theorem ofMembers_eq (members : List (String × Json)) :
    ofMembers members = members.map fun member => (member.1, ofDocument member.2) := by
  induction members with
  | nil => rfl
  | cons member members ih => rw [ofMembers, ih, List.map_cons]

theorem mem_ofItems {i : Nat} {items : List Json} {slot : Nat × UpdateTree}
    (h : slot ∈ ofItems i items) : i ≤ slot.1 ∧ ∃ item ∈ items, ofDocument item = slot.2 := by
  induction items generalizing i with
  | nil => cases h
  | cons item items ih =>
    rcases List.mem_cons.mp h with rfl | h
    · exact ⟨Nat.le_refl i, item, List.mem_cons_self, rfl⟩
    · obtain ⟨above, other, inside, same⟩ := ih h
      exact ⟨by omega, other, List.mem_cons_of_mem _ inside, same⟩

theorem ascending_ofItems (i : Nat) (items : List Json) : Ascending (ofItems i items) := by
  induction items generalizing i with
  | nil => exact .nil
  | cons item items ih =>
    exact List.pairwise_cons.mpr ⟨fun slot inside => (mem_ofItems inside).1, ih (i + 1)⟩

theorem keyed_ofDocument {document : Json} (keyed : document.Keyed) :
    (ofDocument document).Keyed := by
  induction keyed with
  | null | bool | int | float | str => exact keyed_leaf _
  | arr each ih =>
    refine keyed_array.mpr ⟨ascending_ofItems 0 _, fun slot inside => ?_⟩
    obtain ⟨-, item, inside, same⟩ := mem_ofItems inside
    exact same ▸ ih item inside
  | @obj members distinct each ih =>
    rw [ofDocument, ofMembers_eq]
    refine keyed_object.mpr ⟨by simpa [Function.comp_def] using distinct, fun member found => ?_⟩
    obtain ⟨source, inside, rfl⟩ := List.mem_map.mp found
    exact ih source inside

/-- The documents among some parameters are in canonical form. -/
def CanonicalDocuments (entries : List (String × Param)) : Prop :=
  ∀ entry ∈ entries, ∀ document ∈ containerDocument? entry.2, document.canonical = document

theorem baseTrees_keyed {columns : List String} {entries : List (String × Param)}
    (documents : CanonicalDocuments entries) :
    Yields (fun trees => ∀ entry ∈ trees, entry.2.Keyed) (baseTrees columns entries) := by
  induction entries with
  | nil => exact yields_ok.mpr (by simp)
  | cons entry rest ih =>
    obtain ⟨own, others⟩ := List.forall_mem_cons.mp documents
    unfold baseTrees
    split
    · exact ih others
    · split
      · exact yields_error
      · next document found =>
        have tree : (ofDocument document).Keyed :=
          keyed_ofDocument (own document found ▸ Json.keyed_canonical document)
        exact (ih others).bind fun trees each =>
          yields_pure.mpr (List.forall_mem_cons.mpr ⟨tree, each⟩)

theorem addPaths_keyed {trees : List (String × UpdateTree)} (each : ∀ entry ∈ trees, entry.2.Keyed)
    (entries : List (String × Param)) :
    Yields (fun trees => ∀ entry ∈ trees, entry.2.Keyed) (addPaths trees entries) := by
  induction entries generalizing trees with
  | nil => exact yields_ok.mpr each
  | cons entry rest ih =>
    unfold addPaths
    split
    · exact ih each
    · next column path cut =>
      have inserted (steps : List PathStep) (root : UpdateTree) (keyed : root.Keyed) :
          Yields Keyed
            (UpdateTree.insert entry.2 steps ((Entries.get? column trees).getD root)).result := by
        have tree : ((Entries.get? column trees).getD root).Keyed := by
          cases found : Entries.get? column trees with
          | none => exact keyed
          | some tree => exact each _ (Entries.mem_of_get? found)
        unfold Insertion.result
        split
        · exact yields_ok.mpr tree.insert
        · exact yields_error
      have kept (tree : UpdateTree) (keyed : tree.Keyed) :
          Yields (fun trees => ∀ entry ∈ trees, entry.2.Keyed)
            (addPaths (Entries.set column tree trees) rest) := by
        refine ih fun other member => ?_
        rcases Entries.mem_set member with rfl | member
        · exact keyed
        · exact each other member
      have any : Yields (fun _ => True) (JsonPath.steps path) := fun _ _ => trivial
      refine any.bind fun steps _ => ?_
      cases steps with
      | nil => exact (inserted [] fresh keyed_fresh).bind kept
      | cons step steps =>
        exact (inserted (step :: steps) _ (keyed_containerFor step)).bind kept

/-- Whatever a row is gathered into is keyed. -/
theorem ofRow_keyed {row : Row} (documents : CanonicalDocuments row.entries) :
    Yields (fun trees => ∀ entry ∈ trees, entry.2.Keyed) (ofRow row) :=
  (baseTrees_keyed documents).bind fun _ bases => addPaths_keyed bases row.entries

/-- An insertion that fails leaves the tree as it was, however deep it came. It fails at the steps
that come to a container of another kind, and into a leaf every insertion succeeds. -/
theorem insert_atomic {tree : UpdateTree} (keyed : tree.Keyed) (value : Param)
    (path : List PathStep) :
    ((UpdateTree.insert value path tree).error ≠ none →
        (UpdateTree.insert value path tree).tree = tree) ∧
      (∀ error, (UpdateTree.insert value path tree).error = some error ↔
        ∃ step, tree.Blocked path step ∧ error = .invalid (.pathKind step.text)) ∧
      ∀ old, (UpdateTree.insert value path (leaf old)).error = none :=
  ⟨keyed.tree_insert_eq, fun _ => insert_error_iff, insert_leaf value path⟩

/-- A list of addresses, the second of which is an object. -/
def twoAddresses : UpdateTree :=
  object [("name", leaf (.value (.text "Ada"))),
    ("addresses", array [(0, leaf (.value .null)),
      (2, object [("city", leaf (.value (.text "Turin")))])])]

/-- The last step but one takes the object for an array. -/
theorem twoAddresses_kept :
    (UpdateTree.insert (.raw "now()") [.key "addresses", .index 2, .index 0, .key "at"]
        twoAddresses).error = some (.invalid (.pathKind "[0]")) ∧
      (UpdateTree.insert (.raw "now()") [.key "addresses", .index 2, .index 0, .key "at"]
        twoAddresses).tree = twoAddresses := by
  have keyed : twoAddresses.Keyed := by
    simp [twoAddresses, keyed_object, keyed_array, keyed_leaf, Ascending]
  have failed : (UpdateTree.insert (.raw "now()") [.key "addresses", .index 2, .index 0, .key "at"]
      twoAddresses).error = some (.invalid (.pathKind "[0]")) := rfl
  refine ⟨failed, (insert_atomic keyed _ _).1 ?_⟩
  rw [failed]
  exact Option.some_ne_none _

end UpdateTree

end SqlCompiler
