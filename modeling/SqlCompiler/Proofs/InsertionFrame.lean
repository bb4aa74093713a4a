import SqlCompiler.Proofs.InsertionOrder
import SqlCompiler.Proofs.RowEntries
/-!
# What an insertion changes

An insertion puts its parameter at the end of its path, makes a container of every tree on the way
and leaves everything beside the path as it is. One step into the tree is described by `Stepped`;
the statements about whole paths follow from it by induction on the path.
-/

namespace SqlCompiler.UpdateTree

/-- The children of a tree, but for the one behind a step. -/
def besides (step : PathStep) (tree : UpdateTree) : List (PathStep × UpdateTree) :=
  tree.children.filter fun child => child.1 ≠ step

/-- A container of the kind that a step needs. -/
def Takes (tree : UpdateTree) : PathStep → Prop
  | .key _ => ∃ members, tree = object members
  | .index _ => ∃ slots, tree = array slots

theorem filter_setSlot (i : Nat) (child : UpdateTree) (slots : List (Nat × UpdateTree)) :
    (setSlot i child slots).filter (fun slot => slot.1 ≠ i)
      = slots.filter fun slot => slot.1 ≠ i := by
  induction slots with
  | nil => simp [setSlot]
  | cons slot slots ih =>
    rw [setSlot]
    split
    · simp
    · split
      · next same => simp [same]
      · simp only [List.filter_cons, ih]

theorem besides_object (k : String) (members : List (String × UpdateTree)) :
    (object members).besides (.key k)
      = (members.filter fun member => member.1 ≠ k).map
        fun member => (.key member.1, member.2) := by
  rw [besides, children, List.filter_map]
  simp [Function.comp_def]

theorem besides_array (i : Nat) (slots : List (Nat × UpdateTree)) :
    (array slots).besides (.index i)
      = (slots.filter fun slot => slot.1 ≠ i).map fun slot => (.index slot.1, slot.2) := by
  rw [besides, children, List.filter_map]
  simp [Function.comp_def]

/-- A tree before and after something was done to the child behind a step. -/
structure Stepped (step : PathStep) (before after child : UpdateTree) : Prop where
  takes : after.Takes step
  child_eq : after.child? step = some child
  others : ∀ other, other ≠ step → after.child? other = before.child? other
  besides_eq : after.besides step = before.besides step

theorem stepped_object (k : String) (members : List (String × UpdateTree)) (child : UpdateTree) :
    Stepped (.key k) (object members) (object (Entries.set k child members)) child := by
  refine ⟨⟨_, rfl⟩, Entries.get?_set_self k child members, ?_, ?_⟩
  · intro other apart
    cases other with
    | key j => exact Entries.get?_set_of_ne (fun same => apart (congrArg PathStep.key same)) _ _
    | index i => rfl
  · rw [besides_object, besides_object,
      Entries.filter_set_of_neg (p := fun key => decide (key ≠ k)) (by simp)]

theorem stepped_array (i : Nat) (slots : List (Nat × UpdateTree)) (child : UpdateTree) :
    Stepped (.index i) (array slots) (array (setSlot i child slots)) child := by
  refine ⟨⟨_, rfl⟩, slot?_setSlot_self i child slots, ?_, ?_⟩
  · intro other apart
    cases other with
    | key k => rfl
    | index j =>
      exact slot?_setSlot_of_ne (fun same => apart (congrArg PathStep.index same.symm)) _ _
  · rw [besides_array, besides_array, filter_setSlot]

/-- A leaf has as few children as the container that takes its place. -/
theorem Stepped.of_container {step : PathStep} {after child : UpdateTree}
    (h : Stepped step (containerFor step) after child) (value : Param) :
    Stepped step (leaf value) after child := by
  have childless (other : PathStep) : (containerFor step).child? other = none := by
    cases step <;> cases other <;> rfl
  have bare : (containerFor step).besides step = [] := by cases step <;> rfl
  obtain ⟨takes, child_eq, others, besides_eq⟩ := h
  exact ⟨takes, child_eq, fun other apart => (others other apart).trans (childless other),
    besides_eq.trans bare⟩

/-- An insertion goes on in the child behind its first step, or in a fresh one. -/
theorem put_cons {value : Param} {step : PathStep} {path : List PathStep}
    {before after : UpdateTree} (done : put value (step :: path) before = .ok after) :
    ∃ child, put value path ((before.child? step).getD fresh) = .ok child ∧
      Stepped step before after child := by
  have key (k : String) (members : List (String × UpdateTree))
      (done : put value (.key k :: path) (object members) = .ok after) :
      ∃ child, put value path ((Entries.get? k members).getD fresh) = .ok child ∧
        Stepped (.key k) (object members) after child := by
    rw [put_key] at done
    obtain ⟨child, inner, rfl⟩ := map_ok done
    exact ⟨child, inner, stepped_object k members child⟩
  have index (i : Nat) (slots : List (Nat × UpdateTree))
      (done : put value (.index i :: path) (array slots) = .ok after) :
      ∃ child, put value path ((slot? i slots).getD fresh) = .ok child ∧
        Stepped (.index i) (array slots) after child := by
    rw [put_index] at done
    obtain ⟨child, inner, rfl⟩ := map_ok done
    exact ⟨child, inner, stepped_array i slots child⟩
  cases before with
  | object members =>
    cases step with
    | key k => exact key k members done
    | index i => cases done
  | array slots =>
    cases step with
    | key k => cases done
    | index i => exact index i slots done
  | leaf old =>
    rw [← put_opened] at done
    cases step with
    | key k =>
      obtain ⟨child, inner, stepped⟩ := key k [] done
      exact ⟨child, inner, stepped.of_container old⟩
    | index i =>
      obtain ⟨child, inner, stepped⟩ := index i [] done
      exact ⟨child, inner, stepped.of_container old⟩

section Paths

variable {value : Param} {path : List PathStep} {before after : UpdateTree}

theorem get?_cons (tree : UpdateTree) (step : PathStep) (path : List PathStep) :
    tree.get? (step :: path) = (tree.child? step).bind fun child => child.get? path := rfl

/-- Nothing but itself is found in a fresh member. -/
theorem get?_fresh_getD (found : Option UpdateTree) {path : List PathStep} (deep : path ≠ []) :
    (found.getD fresh).get? path = found.bind fun child => child.get? path := by
  cases found with
  | some child => rfl
  | none =>
    obtain ⟨step, rest, rfl⟩ := List.exists_cons_of_ne_nil deep
    cases step <;> rfl

theorem get?_put_self (done : put value path before = .ok after) :
    after.get? path = some (leaf value) := by
  induction path generalizing before after with
  | nil =>
    obtain rfl := pure_ok done
    rfl
  | cons step path ih =>
    obtain ⟨child, inner, stepped⟩ := put_cons done
    rw [get?_cons, stepped.child_eq]
    exact ih inner

/-- What is neither on the path nor behind its end stays where it is. -/
theorem get?_put_of_apart (done : put value path before = .ok after) {other : List PathStep}
    (ahead : ¬ path <+: other) (behind : ¬ other <+: path) :
    after.get? other = before.get? other := by
  induction path generalizing before after other with
  | nil => exact absurd List.nil_prefix ahead
  | cons step path ih =>
    obtain ⟨child, inner, stepped⟩ := put_cons done
    cases other with
    | nil => exact absurd List.nil_prefix behind
    | cons first other =>
      rw [get?_cons, get?_cons]
      by_cases same : first = step
      · subst same
        rw [List.prefix_cons_inj] at ahead behind
        have deep : other ≠ [] := by
          rintro rfl
          exact behind List.nil_prefix
        rw [stepped.child_eq]
        exact (ih inner ahead behind).trans (get?_fresh_getD _ deep)
      · rw [stepped.others first same]

/-- Every tree on the way is made a container for the next step, and keeps its other children. -/
theorem put_container (done : put value path before = .ok after) {front rest : List PathStep}
    {step : PathStep} (way : path = front ++ step :: rest) :
    ∃ container, after.get? front = some container ∧ container.Takes step ∧
      container.besides step = ((before.get? front).map (besides step)).getD [] := by
  subst way
  induction front generalizing before after with
  | nil =>
    obtain ⟨child, -, stepped⟩ := put_cons done
    exact ⟨after, rfl, stepped.takes, stepped.besides_eq⟩
  | cons first front ih =>
    obtain ⟨child, inner, stepped⟩ := put_cons done
    obtain ⟨container, found, takes, others⟩ := ih inner
    refine ⟨container, ?_, takes, ?_⟩
    · rw [get?_cons, stepped.child_eq]
      exact found
    · rw [others, get?_cons]
      cases before.child? first with
      | some old => rfl
      | none =>
        cases front with
        | nil => cases step <;> rfl
        | cons next front => cases next <;> rfl

end Paths

/-- A successful insertion sets the leaf at the end of its path, changes nothing apart from the
path, and leaves on the way there containers of the kinds that the path needs, with all the other
children that they had. -/
theorem insert_frames {value : Param} {path : List PathStep} {before after : UpdateTree}
    (done : (insert value path before).result = .ok after) :
    after.get? path = some (leaf value) ∧
    (∀ other, ¬ path <+: other → ¬ other <+: path → after.get? other = before.get? other) ∧
    ∀ front step rest, path = front ++ step :: rest →
      ∃ container, after.get? front = some container ∧ container.Takes step ∧
        container.besides step = ((before.get? front).map (besides step)).getD [] := by
  replace done : put value path before = .ok after := done
  refine ⟨get?_put_self done, ?_, ?_⟩
  · intro other ahead behind
    exact get?_put_of_apart done ahead behind
  · intro front step rest way
    exact put_container done way

/-- A document with a plain member where a list of tags is wanted. -/
def taggedProfile : UpdateTree :=
  object [("name", leaf (.value (.text "Ada"))), ("tags", leaf (.value (.text "none"))),
    ("address", object [("city", leaf (.value (.text "Turin")))])]

/-- The tag goes into a list in the place of the plain member; name and address stay. -/
theorem taggedProfile_frames :
    ∃ after, (insert (.raw "now()") [.key "tags", .index 2, .key "at"] taggedProfile).result
        = .ok after ∧
      after.get? [.key "tags", .index 2, .key "at"] = some (leaf (.raw "now()")) ∧
      after.get? [.key "address", .key "city"] = some (leaf (.value (.text "Turin"))) ∧
      ∃ container, after.get? [.key "tags"] = some container ∧ container.Takes (.index 2) ∧
        container.besides (.index 2) = [] := by
  have placed : (insert (.raw "now()") [.key "tags", .index 2, .key "at"] taggedProfile).result
      = .ok _ := rfl
  obtain ⟨self, apart, way⟩ := insert_frames placed
  refine ⟨_, rfl, self, ?_, ?_⟩
  · exact apart [.key "address", .key "city"] (by decide) (by decide)
  · exact way [.key "tags"] (.index 2) [.key "at"] rfl

end SqlCompiler.UpdateTree
