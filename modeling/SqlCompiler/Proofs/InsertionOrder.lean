import SqlCompiler.UpdateTree
/-!
# The order of insertions

Two insertions into a tree, neither of which reaches into what the other sets, may be made in
either order: both orders fail, or both give the same tree up to the order of the members of its
objects. The updates of a row may therefore come in any order.
-/

namespace SqlCompiler

/-- Two results that both fail, or are worth values that are related. -/
inductive Agree {ε α : Type} (R : α → α → Prop) : Except ε α → Except ε α → Prop
  | ok {a b : α} (h : R a b) : Agree R (.ok a) (.ok b)
  | error (e e' : ε) : Agree R (.error e) (.error e')

section Agree

variable {ε α β : Type} {R : α → α → Prop} {S : β → β → Prop}

theorem Agree.refl (h : ∀ a, R a a) (x : Except ε α) : Agree R x x := by
  cases x with
  | error e => exact .error e e
  | ok a => exact .ok (h a)

theorem Agree.trans (h : ∀ a b c, R a b → R b c → R a c) {x y z : Except ε α} (hxy : Agree R x y)
    (hyz : Agree R y z) : Agree R x z := by
  cases hxy with
  | ok hab => cases hyz with | ok hbc => exact .ok (h _ _ _ hab hbc)
  | error => cases hyz with | error => exact .error _ _

theorem Agree.bind {x y : Except ε α} {f g : α → Except ε β} (h : Agree R x y)
    (next : ∀ a b, R a b → Agree S (f a) (g b)) : Agree S (x >>= f) (y >>= g) := by
  cases h with
  | ok h => exact next _ _ h
  | error e e' => exact .error e e'

theorem Agree.map {x y : Except ε α} {f g : α → β} (h : Agree R x y)
    (next : ∀ a b, R a b → S (f a) (g b)) : Agree S (x.map f) (y.map g) := by
  cases h with
  | ok h => exact .ok (next _ _ h)
  | error e e' => exact .error e e'

end Agree

namespace UpdateTree

mutual

/-- Trees that differ at most in the order of the members of their objects. -/
inductive Same : UpdateTree → UpdateTree → Prop
  | object {members members' : List (String × UpdateTree)} (h : SameMembers members members') :
      Same (object members) (object members')
  | array {slots slots' : List (Nat × UpdateTree)} (h : SameSlots slots slots') :
      Same (array slots) (array slots')
  | leaf (value : Param) : Same (leaf value) (leaf value)

/-- Members of different names may change places. -/
inductive SameMembers : List (String × UpdateTree) → List (String × UpdateTree) → Prop
  | nil : SameMembers [] []
  | cons {k : String} {t t' : UpdateTree} {members members' : List (String × UpdateTree)}
      (h : Same t t') (rest : SameMembers members members') :
      SameMembers ((k, t) :: members) ((k, t') :: members')
  | swap {k j : String} (h : k ≠ j) (t u : UpdateTree) (members : List (String × UpdateTree)) :
      SameMembers ((k, t) :: (j, u) :: members) ((j, u) :: (k, t) :: members)
  | trans {a b c : List (String × UpdateTree)} (first : SameMembers a b)
      (second : SameMembers b c) : SameMembers a c

inductive SameSlots : List (Nat × UpdateTree) → List (Nat × UpdateTree) → Prop
  | nil : SameSlots [] []
  | cons {i : Nat} {t t' : UpdateTree} {slots slots' : List (Nat × UpdateTree)}
      (h : Same t t') (rest : SameSlots slots slots') :
      SameSlots ((i, t) :: slots) ((i, t') :: slots')

end

mutual

theorem Same.refl : ∀ tree : UpdateTree, Same tree tree
  | .object members => .object (SameMembers.refl members)
  | .array slots => .array (SameSlots.refl slots)
  | .leaf value => .leaf value

theorem SameMembers.refl : ∀ members : List (String × UpdateTree), SameMembers members members
  | [] => .nil
  | (_, tree) :: members => .cons (Same.refl tree) (SameMembers.refl members)

theorem SameSlots.refl : ∀ slots : List (Nat × UpdateTree), SameSlots slots slots
  | [] => .nil
  | (_, tree) :: slots => .cons (Same.refl tree) (SameSlots.refl slots)

end

mutual

theorem Same.trans {a b c : UpdateTree} : Same a b → Same b c → Same a c
  | .object first, .object second => .object (first.trans second)
  | .array first, .array second => .array (SameSlots.trans first second)
  | .leaf _, .leaf value => .leaf value

theorem SameSlots.trans {a b c : List (Nat × UpdateTree)} :
    SameSlots a b → SameSlots b c → SameSlots a c
  | .nil, .nil => .nil
  | .cons head rest, .cons head' rest' => .cons (head.trans head') (rest.trans rest')

end

/-! ### Members and slots -/

theorem rel_refl (found : Option UpdateTree) : Option.Rel Same found found := by
  cases found with
  | none => exact .none
  | some tree => exact .some (.refl tree)

theorem rel_trans {a b c : Option UpdateTree} (first : Option.Rel Same a b)
    (second : Option.Rel Same b c) : Option.Rel Same a c := by
  obtain h | _ := first
  · obtain h' | _ := second
    exact .some (h.trans h')
  · exact second

theorem rel_get?_cons {k j : String} {t t' : UpdateTree}
    {members members' : List (String × UpdateTree)} (h : Same t t')
    (rest : Option.Rel Same (Entries.get? k members) (Entries.get? k members')) :
    Option.Rel Same (Entries.get? k ((j, t) :: members))
      (Entries.get? k ((j, t') :: members')) := by
  simp only [Entries.get?]
  split
  · exact .some h
  · exact rest

theorem get?_swap (k : String) {i j : String} (h : i ≠ j) (t u : UpdateTree)
    (members : List (String × UpdateTree)) :
    Entries.get? k ((i, t) :: (j, u) :: members)
      = Entries.get? k ((j, u) :: (i, t) :: members) := by
  simp only [Entries.get?]
  grind

theorem SameMembers.get? (k : String) {members members' : List (String × UpdateTree)} :
    SameMembers members members' →
      Option.Rel Same (Entries.get? k members) (Entries.get? k members')
  | .nil => .none
  | .cons h rest => rel_get?_cons h (rest.get? k)
  | .swap h t u members => get?_swap k h t u members ▸ rel_refl _
  | .trans first second => rel_trans (first.get? k) (second.get? k)

/-- What an insertion finds where it goes on. -/
theorem SameMembers.child (k : String) {members members' : List (String × UpdateTree)}
    (h : SameMembers members members') :
    Same ((Entries.get? k members).getD fresh) ((Entries.get? k members').getD fresh) := by
  have found := h.get? k
  revert found
  generalize Entries.get? k members = a, Entries.get? k members' = b
  rintro (h | _)
  · exact h
  · exact .leaf _

theorem sameMembers_set_cons {k j : String} {t t' u u' : UpdateTree}
    {members members' : List (String × UpdateTree)} (ht : Same t t') (hu : Same u u')
    (same : SameMembers members members')
    (rest : SameMembers (Entries.set k t members) (Entries.set k t' members')) :
    SameMembers (Entries.set k t ((j, u) :: members)) (Entries.set k t' ((j, u') :: members')) := by
  simp only [Entries.set]
  split
  · exact .cons ht same
  · exact .cons hu rest

/-- The same tree up to order, in the same place. -/
theorem sameMembers_set (k : String) {t t' : UpdateTree} (ht : Same t t') :
    ∀ members : List (String × UpdateTree),
      SameMembers (Entries.set k t members) (Entries.set k t' members)
  | [] => .cons ht .nil
  | (_, u) :: members =>
    sameMembers_set_cons ht (.refl u) (.refl members) (sameMembers_set k ht members)

theorem sameMembers_set_swap (k : String) {t t' : UpdateTree} (ht : Same t t') {i j : String}
    (h : i ≠ j) (u w : UpdateTree) (members : List (String × UpdateTree)) :
    SameMembers (Entries.set k t ((i, u) :: (j, w) :: members))
      (Entries.set k t' ((j, w) :: (i, u) :: members)) := by
  by_cases first : i = k
  · have second : j ≠ k := fun same => h (first.trans same.symm)
    simp only [Entries.set, first, second, if_true, if_false]
    exact .trans (.cons ht (.refl _)) (.swap (Ne.symm second) _ _ _)
  · by_cases second : j = k
    · simp only [Entries.set, first, second, if_true, if_false]
      exact .trans (.cons (.refl _) (.cons ht (.refl _))) (.swap first _ _ _)
    · simp only [Entries.set, first, second, if_false]
      exact .trans (.cons (.refl _) (.cons (.refl _) (sameMembers_set k ht members)))
        (.swap h _ _ _)

theorem SameMembers.set (k : String) {t t' : UpdateTree} (ht : Same t t')
    {members members' : List (String × UpdateTree)} :
    SameMembers members members' →
      SameMembers (Entries.set k t members) (Entries.set k t' members')
  | .nil => .cons ht .nil
  | .cons h rest => sameMembers_set_cons ht h rest (rest.set k ht)
  | .swap h u w members => sameMembers_set_swap k ht h u w members
  | .trans first second => .trans (first.set k (.refl t)) (second.set k ht)

theorem sameMembers_set_comm {k j : String} (h : k ≠ j) (t u : UpdateTree) :
    ∀ members : List (String × UpdateTree),
      SameMembers (Entries.set j u (Entries.set k t members))
        (Entries.set k t (Entries.set j u members))
  | [] => by simpa [Entries.set, h, h.symm] using SameMembers.swap h t u []
  | (i, w) :: members => by
    have rest := sameMembers_set_comm h t u members
    by_cases first : i = k
    · simpa [Entries.set, first, h] using SameMembers.refl _
    · by_cases second : i = j
      · simpa [Entries.set, second, h.symm] using SameMembers.refl _
      · simpa [Entries.set, first, second] using SameMembers.cons (.refl w) rest

theorem set_set (k : String) (t u : UpdateTree) (members : List (String × UpdateTree)) :
    Entries.set k u (Entries.set k t members) = Entries.set k u members := by
  induction members with
  | nil => simp [Entries.set]
  | cons member members ih =>
    simp only [Entries.set]
    split <;> simp_all [Entries.set]

theorem SameSlots.child (i : Nat) {slots slots' : List (Nat × UpdateTree)} :
    SameSlots slots slots' → Same ((slot? i slots).getD fresh) ((slot? i slots').getD fresh)
  | .nil => .leaf _
  | .cons h rest => by
    simp only [slot?]
    split
    · exact h
    · exact rest.child i

theorem SameSlots.set (i : Nat) {t t' : UpdateTree} (ht : Same t t')
    {slots slots' : List (Nat × UpdateTree)} :
    SameSlots slots slots' → SameSlots (setSlot i t slots) (setSlot i t' slots')
  | .nil => .cons ht .nil
  | .cons h rest => by
    simp only [setSlot]
    split
    · exact .cons ht (.cons h rest)
    · split
      · exact .cons ht rest
      · exact .cons h (rest.set i ht)

theorem slot?_setSlot_self (i : Nat) (t : UpdateTree) (slots : List (Nat × UpdateTree)) :
    slot? i (setSlot i t slots) = some t := by
  induction slots with
  | nil => simp [setSlot, slot?]
  | cons slot slots ih =>
    simp only [setSlot]
    grind [slot?]

theorem slot?_setSlot_of_ne {i j : Nat} (h : i ≠ j) (t : UpdateTree)
    (slots : List (Nat × UpdateTree)) : slot? j (setSlot i t slots) = slot? j slots := by
  induction slots with
  | nil => simp [setSlot, slot?, h]
  | cons slot slots ih =>
    simp only [setSlot]
    grind [slot?]

theorem setSlot_setSlot (i : Nat) (t u : UpdateTree) (slots : List (Nat × UpdateTree)) :
    setSlot i u (setSlot i t slots) = setSlot i u slots := by
  induction slots with
  | nil => simp [setSlot]
  | cons slot slots ih =>
    simp only [setSlot]
    grind [setSlot]

theorem setSlot_comm {i j : Nat} (h : i ≠ j) (t u : UpdateTree)
    (slots : List (Nat × UpdateTree)) :
    setSlot j u (setSlot i t slots) = setSlot i t (setSlot j u slots) := by
  induction slots with
  | nil => grind [setSlot]
  | cons slot slots ih =>
    simp only [setSlot]
    grind [setSlot]

/-! ### Insertions -/

/-- The tree with a parameter at the end of a path. -/
def put (value : Param) (path : List PathStep) (tree : UpdateTree) :
    Except CompileError UpdateTree :=
  (insert value path tree).result

section Put

variable (value : Param) (path : List PathStep)

/-- An insertion opens what it goes through. -/
theorem put_opened (step : PathStep) (tree : UpdateTree) :
    put value (step :: path) (tree.opened step) = put value (step :: path) tree := by
  cases tree with
  | leaf => cases step <;> rfl
  | object members => rfl
  | array slots => rfl

theorem put_key (k : String) (members : List (String × UpdateTree)) :
    put value (.key k :: path) (object members)
      = (put value path ((Entries.get? k members).getD fresh)).map
          fun child => object (Entries.set k child members) := by
  simp only [put, insert, opened, Insertion.within, Insertion.result]
  split <;> rfl

theorem put_index (i : Nat) (slots : List (Nat × UpdateTree)) :
    put value (.index i :: path) (array slots)
      = (put value path ((slot? i slots).getD fresh)).map
          fun child => array (setSlot i child slots) := by
  simp only [put, insert, opened, Insertion.within, Insertion.result]
  split <;> rfl

end Put

/-- Insertions do not look at the order of members. -/
theorem put_same (value : Param) (path : List PathStep) {t t' : UpdateTree} (h : Same t t') :
    Agree Same (put value path t) (put value path t') := by
  induction path generalizing t t' with
  | nil => exact .ok (.leaf value)
  | cons step path ih =>
    cases h with
    | leaf old => exact .refl .refl _
    | object h =>
      cases step with
      | key k =>
        rw [put_key, put_key]
        exact (ih (h.child k)).map fun _ _ child => .object (h.set k child)
      | index i => exact .error _ _
    | array h =>
      cases step with
      | key k => exact .error _ _
      | index i =>
        rw [put_index, put_index]
        exact (ih (h.child i)).map fun _ _ child => .array (h.set i child)

section Both

variable {v w : Param} {p q : List PathStep}

/-- Under a name, an insertion goes on with what the one before it left there. -/
theorem put_put_key (k : String) (members : List (String × UpdateTree)) :
    (put v (.key k :: p) (object members) >>= put w (.key k :: q))
      = (put v p ((Entries.get? k members).getD fresh) >>= put w q).map
          fun child => object (Entries.set k child members) := by
  rw [put_key]
  cases put v p ((Entries.get? k members).getD fresh) with
  | error e => rfl
  | ok child =>
    change put w (.key k :: q) (object (Entries.set k child members)) = (put w q child).map _
    simp only [put_key, Entries.get?_set_self, Option.getD_some, set_set]

theorem put_put_index (i : Nat) (slots : List (Nat × UpdateTree)) :
    (put v (.index i :: p) (array slots) >>= put w (.index i :: q))
      = (put v p ((slot? i slots).getD fresh) >>= put w q).map
          fun child => array (setSlot i child slots) := by
  rw [put_index]
  cases put v p ((slot? i slots).getD fresh) with
  | error e => rfl
  | ok child =>
    change put w (.index i :: q) (array (setSlot i child slots)) = (put w q child).map _
    simp only [put_index, slot?_setSlot_self, Option.getD_some, setSlot_setSlot]

/-- Under two names, neither insertion sees the other. -/
theorem put_put_keys {k j : String} (h : k ≠ j) (members : List (String × UpdateTree)) :
    (put v (.key k :: p) (object members) >>= put w (.key j :: q))
      = do
        let first ← put v p ((Entries.get? k members).getD fresh)
        let second ← put w q ((Entries.get? j members).getD fresh)
        return object (Entries.set j second (Entries.set k first members)) := by
  rw [put_key]
  cases put v p ((Entries.get? k members).getD fresh) with
  | error e => rfl
  | ok first =>
    change put w (.key j :: q) (object (Entries.set k first members)) = _
    rw [put_key, Entries.get?_set_of_ne h.symm]
    cases put w q ((Entries.get? j members).getD fresh) <;> rfl

theorem put_put_indexes {i j : Nat} (h : i ≠ j) (slots : List (Nat × UpdateTree)) :
    (put v (.index i :: p) (array slots) >>= put w (.index j :: q))
      = do
        let first ← put v p ((slot? i slots).getD fresh)
        let second ← put w q ((slot? j slots).getD fresh)
        return array (setSlot j second (setSlot i first slots)) := by
  rw [put_index]
  cases put v p ((slot? i slots).getD fresh) with
  | error e => rfl
  | ok first =>
    change put w (.index j :: q) (array (setSlot i first slots)) = _
    rw [put_index, slot?_setSlot_of_ne h]
    cases put w q ((slot? j slots).getD fresh) <;> rfl

/-- No container has both members and slots. -/
theorem put_mixed (k : String) (i : Nat) (tree : UpdateTree) :
    (∃ e, (put v (.key k :: p) tree >>= put w (.index i :: q)) = .error e) ∧
    ∃ e, (put w (.index i :: q) tree >>= put v (.key k :: p)) = .error e := by
  have members (m : List (String × UpdateTree)) :
      ∃ e, (put v (.key k :: p) (object m) >>= put w (.index i :: q)) = .error e := by
    rw [put_key]
    cases put v p ((Entries.get? k m).getD fresh) with
    | error e => exact ⟨e, rfl⟩
    | ok child => exact ⟨_, rfl⟩
  have slots (s : List (Nat × UpdateTree)) :
      ∃ e, (put w (.index i :: q) (array s) >>= put v (.key k :: p)) = .error e := by
    rw [put_index]
    cases put w q ((slot? i s).getD fresh) with
    | error e => exact ⟨e, rfl⟩
    | ok child => exact ⟨_, rfl⟩
  cases tree with
  | object m => exact ⟨members m, _, rfl⟩
  | array s => exact ⟨⟨_, rfl⟩, slots s⟩
  | leaf value =>
    rw [← put_opened v p, ← put_opened w q]
    exact ⟨members [], slots []⟩

section Step

variable (inner : ∀ tree, Agree Same (put v p tree >>= put w q) (put w q tree >>= put v p))
include inner

theorem put_comm_key (k : String) (members : List (String × UpdateTree)) :
    Agree Same (put v (.key k :: p) (object members) >>= put w (.key k :: q))
      (put w (.key k :: q) (object members) >>= put v (.key k :: p)) := by
  rw [put_put_key, put_put_key]
  exact (inner _).map fun _ _ child => .object (sameMembers_set k child members)

theorem put_comm_index (i : Nat) (slots : List (Nat × UpdateTree)) :
    Agree Same (put v (.index i :: p) (array slots) >>= put w (.index i :: q))
      (put w (.index i :: q) (array slots) >>= put v (.index i :: p)) := by
  rw [put_put_index, put_put_index]
  exact (inner _).map fun _ _ child => .array ((SameSlots.refl slots).set i child)

end Step

theorem put_comm_keys {k j : String} (h : k ≠ j) (members : List (String × UpdateTree)) :
    Agree Same (put v (.key k :: p) (object members) >>= put w (.key j :: q))
      (put w (.key j :: q) (object members) >>= put v (.key k :: p)) := by
  rw [put_put_keys h, put_put_keys h.symm]
  cases put v p ((Entries.get? k members).getD fresh) <;>
    cases put w q ((Entries.get? j members).getD fresh)
  case ok.ok first second => exact .ok (.object (sameMembers_set_comm h first second members))
  all_goals exact .error _ _

theorem put_comm_indexes {i j : Nat} (h : i ≠ j) (slots : List (Nat × UpdateTree)) :
    Agree Same (put v (.index i :: p) (array slots) >>= put w (.index j :: q))
      (put w (.index j :: q) (array slots) >>= put v (.index i :: p)) := by
  rw [put_put_indexes h, put_put_indexes h.symm]
  cases put v p ((slot? i slots).getD fresh) <;> cases put w q ((slot? j slots).getD fresh)
  case ok.ok first second => exact .ok (setSlot_comm h first second slots ▸ .refl _)
  all_goals exact .error _ _

/-- Two insertions, neither of which passes through what the other sets, may be made in either
order. -/
theorem put_comm (hp : ¬ p <+: q) (hq : ¬ q <+: p) (tree : UpdateTree) :
    Agree Same (put v p tree >>= put w q) (put w q tree >>= put v p) := by
  induction p generalizing q tree with
  | nil => exact absurd List.nil_prefix hp
  | cons step p ih =>
    cases q with
    | nil => exact absurd List.nil_prefix hq
    | cons step' q =>
      have inner (same : step = step') (tree : UpdateTree) :
          Agree Same (put v p tree >>= put w q) (put w q tree >>= put v p) := by
        subst same
        exact ih (fun h => hp ((List.prefix_cons_inj step).mpr h))
          (fun h => hq ((List.prefix_cons_inj step).mpr h)) tree
      cases step with
      | key k =>
        cases step' with
        | key j =>
          have members (m : List (String × UpdateTree)) :
              Agree Same (put v (.key k :: p) (object m) >>= put w (.key j :: q))
                (put w (.key j :: q) (object m) >>= put v (.key k :: p)) := by
            by_cases same : k = j
            · subst same
              exact put_comm_key (inner rfl) k m
            · exact put_comm_keys same m
          cases tree with
          | object m => exact members m
          | array slots => exact .error _ _
          | leaf value =>
            rw [← put_opened v p (.key k), ← put_opened w q (.key j)]
            exact members []
        | index i =>
          obtain ⟨⟨e, first⟩, e', second⟩ := put_mixed (v := v) (w := w) (p := p) (q := q) k i tree
          rw [first, second]
          exact .error e e'
      | index i =>
        cases step' with
        | key k =>
          obtain ⟨⟨e, first⟩, e', second⟩ := put_mixed (v := w) (w := v) (p := q) (q := p) k i tree
          rw [first, second]
          exact .error e' e
        | index j =>
          have slots (s : List (Nat × UpdateTree)) :
              Agree Same (put v (.index i :: p) (array s) >>= put w (.index j :: q))
                (put w (.index j :: q) (array s) >>= put v (.index i :: p)) := by
            by_cases same : i = j
            · subst same
              exact put_comm_index (inner rfl) i s
            · exact put_comm_indexes same s
          cases tree with
          | object members => exact .error _ _
          | array s => exact slots s
          | leaf value =>
            rw [← put_opened v p (.index i), ← put_opened w q (.index j)]
            exact slots []

end Both

end UpdateTree

end SqlCompiler
