import SqlCompiler.Proofs.InsertionOrder
/-!
# The order of a row

The updates of a row's JSON columns are gathered in the order of the row, the documents that are
set as a whole before the paths into them. If no path of a column reaches into what another one
sets, every order of the row gathers the same updates.
-/

namespace SqlCompiler

theorem bind_error {ε α β : Type} {x : Except ε α} {f : α → Except ε β} {e : ε}
    (h : (x >>= f) = .error e) : x = .error e ∨ ∃ a, x = .ok a ∧ f a = .error e := by
  cases x with
  | error e' => exact .inl (Except.error.inj h ▸ rfl)
  | ok a => exact .inr ⟨a, rfl, h⟩

theorem map_error {ε α β : Type} {x : Except ε α} {f : α → β} {e : ε}
    (h : x.map f = .error e) : x = .error e := by
  cases x with
  | error e' => exact Except.error.inj h ▸ rfl
  | ok a => cases h

theorem Json.insertMember_comm {k j : String} (h : k ≠ j) (v w : Json)
    (members : List (String × Json)) :
    insertMember j w (insertMember k v members) = insertMember k v (insertMember j w members) := by
  induction members with
  | nil => grind [insertMember]
  | cons member members ih =>
    simp only [insertMember]
    grind [insertMember]

namespace UpdateTree

mutual

/-- Nothing but raw SQL keeps a tree from having a document. -/
theorem toDocument_error {e : CompileError} : ∀ {tree : UpdateTree},
    tree.toDocument = .error e → e = .invalid .rawInDocument
  | .object members, h => documentMembers_error (map_error h)
  | .array slots, h => documentItems_error (map_error h)
  | .leaf (.value b), h => by simp [toDocument] at h
  | .leaf (.raw sql), h => by simpa [toDocument] using h.symm

theorem documentMembers_error {e : CompileError} : ∀ {members : List (String × UpdateTree)}
    {sorted : List (String × Json)}, documentMembers sorted members = .error e →
      e = .invalid .rawInDocument
  | [], sorted, h => by simp [documentMembers] at h
  | (name, tree) :: members, sorted, h => by
    rw [documentMembers] at h
    obtain here | ⟨value, -, behind⟩ := bind_error h
    · exact toDocument_error here
    · exact documentMembers_error behind

theorem documentItems_error {e : CompileError} : ∀ {slots : List (Nat × UpdateTree)} {next : Nat},
    documentItems next slots = .error e → e = .invalid .rawInDocument
  | [], next, h => by simp [documentItems] at h
  | (i, tree) :: slots, next, h => by
    rw [documentItems] at h
    obtain here | ⟨item, -, behind⟩ := bind_error h
    · exact toDocument_error here
    · obtain rest | ⟨items, -, done⟩ := bind_error behind
      · exact documentItems_error rest
      · cases done

end

theorem documentMembers_swap {k j : String} (h : k ≠ j) (t u : UpdateTree)
    (members : List (String × UpdateTree)) (sorted : List (String × Json)) :
    documentMembers sorted ((k, t) :: (j, u) :: members)
      = documentMembers sorted ((j, u) :: (k, t) :: members) := by
  simp only [documentMembers]
  cases first : t.toDocument with
  | error e =>
    obtain rfl := toDocument_error first
    cases second : u.toDocument with
    | error e' =>
      obtain rfl := toDocument_error second
      rfl
    | ok w => rfl
  | ok v =>
    cases second : u.toDocument with
    | error e' => rfl
    | ok w =>
      change documentMembers (Json.insertMember j w (Json.insertMember k v sorted)) members
        = documentMembers (Json.insertMember k v (Json.insertMember j w sorted)) members
      rw [Json.insertMember_comm h]

mutual

/-- The document of a tree has its members by name, whatever their order in the tree. -/
theorem Same.toDocument_eq {t t' : UpdateTree} : Same t t' → t.toDocument = t'.toDocument
  | .object h => by rw [toDocument, toDocument, h.documentMembers_eq []]
  | .array h => by rw [toDocument, toDocument, h.documentItems_eq 0]
  | .leaf _ => rfl

theorem SameMembers.documentMembers_eq {members members' : List (String × UpdateTree)} :
    SameMembers members members' → ∀ sorted,
      documentMembers sorted members = documentMembers sorted members'
  | .nil, sorted => rfl
  | .cons h rest, sorted => by
    rw [documentMembers, documentMembers, h.toDocument_eq]
    exact bind_congr fun value => rest.documentMembers_eq _
  | .swap h t u members, sorted => documentMembers_swap h t u members sorted
  | .trans first second, sorted =>
    (first.documentMembers_eq sorted).trans (second.documentMembers_eq sorted)

theorem SameSlots.documentItems_eq {slots slots' : List (Nat × UpdateTree)} :
    SameSlots slots slots' → ∀ next, documentItems next slots = documentItems next slots'
  | .nil, next => rfl
  | .cons h rest, next => by
    rw [documentItems, documentItems, h.toDocument_eq, rest.documentItems_eq]

end

theorem SameMembers.perm {members members' : List (String × UpdateTree)} :
    SameMembers members members' → (members.map Prod.fst).Perm (members'.map Prod.fst)
  | .nil => .nil
  | .cons _ rest => rest.perm.cons _
  | .swap _ _ _ _ => .swap _ _ _
  | .trans first second => first.perm.trans second.perm

theorem baseTrees_congr {columns columns' : List String}
    (h : ∀ column, column ∈ columns ↔ column ∈ columns') (entries : List (String × Param)) :
    baseTrees columns entries = baseTrees columns' entries := by
  induction entries with
  | nil => rfl
  | cons entry entries ih => simp only [baseTrees, h, ih]

theorem baseTrees_perm {columns : List String} {entries entries' : List (String × Param)}
    (perm : entries.Perm entries') (nodup : (entries.map Prod.fst).Nodup) :
    Agree SameMembers (baseTrees columns entries) (baseTrees columns entries') := by
  induction perm with
  | nil => exact .ok .nil
  | cons entry perm ih =>
    have rest := ih (List.nodup_cons.mp nodup).2
    simp only [baseTrees]
    split
    · exact rest
    · split
      · exact .error _ _
      · exact rest.bind fun _ _ same => .ok (.cons (.refl _) same)
  | swap entry entry' entries =>
    have other : entry'.1 ≠ entry.1 := by
      simp only [List.map_cons, List.nodup_cons, List.mem_cons, not_or] at nodup
      exact nodup.1.1
    by_cases skip : (splitKey? entry.1).isSome ∨ entry.1 ∉ columns
    · simpa [baseTrees, skip] using Agree.refl SameMembers.refl _
    by_cases skip' : (splitKey? entry'.1).isSome ∨ entry'.1 ∉ columns
    · simpa [baseTrees, skip'] using Agree.refl SameMembers.refl _
    simp only [baseTrees, if_neg skip, if_neg skip']
    cases containerDocument? entry.2 <;> cases containerDocument? entry'.2 <;>
      cases baseTrees columns entries
    case some.some.ok document document' trees => exact .ok (.swap other _ _ _)
    all_goals exact .error _ _
  | trans first second ih ih' =>
    exact (ih nodup).trans (fun _ _ _ => .trans) (ih' ((first.map _).nodup_iff.mp nodup))

/-! ### Paths and rows -/

/-- What one entry of a row does to the trees of the columns, as to an object that holds them. -/
def putEntry (tree : UpdateTree) (entry : String × Param) : Except CompileError UpdateTree :=
  match splitKey? entry.1 with
  | none => .ok tree
  | some (column, path) => do
    let steps ← JsonPath.steps path
    put entry.2 (.key column :: steps) tree

/-- A root of the kind that the first step needs is as good as a fresh member, which that step
opens. -/
theorem insert_root (value : Param) {steps : List PathStep} {root : UpdateTree}
    (h : ∀ step rest, steps = step :: rest → root = containerFor step)
    (tree? : Option UpdateTree) :
    (insert value steps (tree?.getD root)).result = put value steps (tree?.getD fresh) := by
  cases tree? with
  | some tree => rfl
  | none =>
    cases steps with
    | nil => rfl
    | cons step steps =>
      rw [h step steps rfl]
      exact put_opened value steps step fresh

theorem addPaths_eq (trees : List (String × UpdateTree)) (entries : List (String × Param)) :
    (addPaths trees entries).map object = entries.foldlM putEntry (object trees) := by
  induction entries generalizing trees with
  | nil => rfl
  | cons entry entries ih =>
    rw [addPaths.eq_def, List.foldlM_cons, putEntry]
    dsimp only
    cases splitKey? entry.1 with
    | none => exact ih trees
    | some found =>
      obtain ⟨column, path⟩ := found
      dsimp only
      cases JsonPath.steps path with
      | error e => rfl
      | ok steps =>
        change Except.map object (Bind.bind (insert _ _ _).result _) = put _ _ _ >>= _
        rw [insert_root entry.2 (by rintro step rest rfl; rfl), put_key]
        cases put entry.2 steps ((Entries.get? column trees).getD fresh) with
        | error e => rfl
        | ok child => exact ih (Entries.set column child trees)

/-- The column and the steps of a key with a path, if the path can be read. -/
def place? (key : String) : Option (String × List PathStep) :=
  (splitKey? key).bind fun (column, path) => (JsonPath.steps path).toOption.map (column, ·)

/-- Within a column, neither key reaches into what the other one sets. -/
def KeysApart (key other : String) : Prop :=
  ∀ here ∈ place? key, ∀ there ∈ place? other, here.1 = there.1 →
    ¬ here.2 <+: there.2 ∧ ¬ there.2 <+: here.2

instance (key other : String) : Decidable (KeysApart key other) :=
  inferInstanceAs (Decidable (∀ here ∈ place? key, ∀ there ∈ place? other, here.1 = there.1 →
    ¬ here.2 <+: there.2 ∧ ¬ there.2 <+: here.2))

theorem KeysApart.symm {key other : String} (h : KeysApart key other) : KeysApart other key :=
  fun here at_ there at_' same => (h there at_' here at_ same.symm).symm

/-- An entry without a path does nothing, one with a path that cannot be read always fails, and
every other one is an insertion. -/
theorem putEntry_cases (entry : String × Param) :
    (∀ tree, putEntry tree entry = .ok tree) ∨
    (∃ e, ∀ tree, putEntry tree entry = .error e) ∨
    ∃ column steps, place? entry.1 = some (column, steps) ∧
      ∀ tree, putEntry tree entry = put entry.2 (.key column :: steps) tree := by
  unfold putEntry place?
  cases splitKey? entry.1 with
  | none => exact .inl fun _ => rfl
  | some found =>
    obtain ⟨column, path⟩ := found
    refine .inr ?_
    dsimp only [Option.bind_some]
    cases JsonPath.steps path with
    | error e => exact .inl ⟨e, fun _ => rfl⟩
    | ok steps => exact .inr ⟨column, steps, rfl, fun _ => rfl⟩

theorem putEntry_same (entry : String × Param) {t t' : UpdateTree} (h : Same t t') :
    Agree Same (putEntry t entry) (putEntry t' entry) := by
  obtain idle | ⟨e, fails⟩ | ⟨column, steps, -, puts⟩ := putEntry_cases entry
  · rw [idle, idle]
    exact .ok h
  · rw [fails, fails]
    exact .error e e
  · rw [puts, puts]
    exact put_same entry.2 (.key column :: steps) h

theorem putEntry_comm {entry entry' : String × Param} (h : KeysApart entry.1 entry'.1)
    (tree : UpdateTree) :
    Agree Same (putEntry tree entry >>= (putEntry · entry'))
      (putEntry tree entry' >>= (putEntry · entry)) := by
  -- An entry that always fails does so before the other one or after it.
  have failing {x : Except CompileError UpdateTree} {e : CompileError} :
      ∃ e', (x >>= fun _ => (.error e : Except CompileError UpdateTree)) = .error e' := by
    cases x with
    | error e' => exact ⟨e', rfl⟩
    | ok _ => exact ⟨e, rfl⟩
  obtain idle | ⟨e, fails⟩ | ⟨column, steps, place, puts⟩ := putEntry_cases entry
  · simp only [idle]
    change Agree Same (putEntry tree entry') (putEntry tree entry' >>= pure)
    rw [bind_pure]
    exact Agree.refl Same.refl _
  · obtain ⟨e', last⟩ := failing (x := putEntry tree entry') (e := e)
    simp only [fails, last]
    exact .error e e'
  obtain idle' | ⟨e, fails'⟩ | ⟨column', steps', place', puts'⟩ := putEntry_cases entry'
  · simp only [idle']
    change Agree Same (putEntry tree entry >>= pure) (putEntry tree entry)
    rw [bind_pure]
    exact Agree.refl Same.refl _
  · obtain ⟨e', last⟩ := failing (x := putEntry tree entry) (e := e)
    simp only [fails', last]
    exact .error e' e
  · simp only [puts, puts']
    have apart := h _ place _ place'
    refine put_comm (fun before => ?_) (fun before => ?_) tree
    · obtain ⟨same, before⟩ := List.cons_prefix_cons.mp before
      exact (apart (PathStep.key.inj same)).1 before
    · obtain ⟨same, before⟩ := List.cons_prefix_cons.mp before
      exact (apart (PathStep.key.inj same).symm).2 before

theorem putEntries_same (entries : List (String × Param)) {t t' : UpdateTree} (h : Same t t') :
    Agree Same (entries.foldlM putEntry t) (entries.foldlM putEntry t') := by
  induction entries generalizing t t' with
  | nil => exact .ok h
  | cons entry entries ih =>
    rw [List.foldlM_cons, List.foldlM_cons]
    exact (putEntry_same entry h).bind fun _ _ same => ih same

/-- Entries that keep apart may come in any order. -/
theorem putEntries_perm {entries entries' : List (String × Param)} (perm : entries.Perm entries')
    (apart : (entries.map Prod.fst).Pairwise KeysApart) {t t' : UpdateTree} (h : Same t t') :
    Agree Same (entries.foldlM putEntry t) (entries'.foldlM putEntry t') := by
  induction perm generalizing t t' with
  | nil => exact .ok h
  | cons entry perm ih =>
    rw [List.foldlM_cons, List.foldlM_cons]
    exact (putEntry_same entry h).bind fun _ _ same => ih (List.pairwise_cons.mp apart).2 same
  | swap entry entry' entries =>
    have pair : KeysApart entry'.1 entry.1 := by
      simp only [List.map_cons, List.pairwise_cons, List.mem_cons] at apart
      exact apart.1 entry.1 (.inl rfl)
    have swapped : Agree Same ((entry' :: entry :: entries).foldlM putEntry t)
        ((entry :: entry' :: entries).foldlM putEntry t) := by
      simp only [List.foldlM_cons, ← bind_assoc]
      exact (putEntry_comm pair t).bind fun _ _ same => putEntries_same entries same
    exact swapped.trans (fun _ _ _ => .trans) (putEntries_same _ h)
  | trans first second ih ih' =>
    have apart' := ((first.map Prod.fst).pairwise_iff fun h => KeysApart.symm h).mp apart
    exact (ih apart (.refl t)).trans (fun _ _ _ => .trans) (ih' apart' h)

/-- No key of a row reaches into what another one of its column sets through a path. -/
def PathsApart (row : Row) : Prop :=
  row.columns.Pairwise KeysApart

instance (row : Row) : Decidable (PathsApart row) :=
  inferInstanceAs (Decidable (row.columns.Pairwise KeysApart))

theorem gathered_perm {row row' : Row} (perm : row.entries.Perm row'.entries)
    (apart : PathsApart row) : Agree SameMembers (ofRow row) (ofRow row') := by
  have columns (column : String) : column ∈ pathColumns row ↔ column ∈ pathColumns row' := by
    have same := ((perm.map Prod.fst).filterMap fun key => (splitKey? key).map Prod.fst)
    exact same.mem_iff
  unfold ofRow
  rw [← baseTrees_congr columns]
  refine (baseTrees_perm perm row.nodup).bind fun trees trees' same => ?_
  have paths := putEntries_perm perm apart (.object same)
  rw [← addPaths_eq, ← addPaths_eq] at paths
  revert paths
  cases addPaths trees row.entries <;> cases addPaths trees' row'.entries <;> intro paths
  · exact .error _ _
  · cases paths
  · cases paths
  · cases paths with
    | ok h => cases h with | object h => exact .ok h

/-- The order of a row makes no difference to what is gathered from it, but for the order of the
members of objects: either the updates of both rows cannot be gathered, or they are for the same
columns and have the same documents. -/
theorem ofRow_perm {row row' : Row} (perm : row.entries.Perm row'.entries)
    (apart : PathsApart row) :
    (∃ e e', ofRow row = .error e ∧ ofRow row' = .error e') ∨
    ∃ trees trees', ofRow row = .ok trees ∧ ofRow row' = .ok trees' ∧
      (trees.map Prod.fst).Perm (trees'.map Prod.fst) ∧
      ∀ column tree, Entries.get? column trees = some tree →
        ∃ tree', Entries.get? column trees' = some tree' ∧ Same tree tree' ∧
          tree.toDocument = tree'.toDocument := by
  have gathered := gathered_perm perm apart
  revert gathered
  generalize ofRow row = x, ofRow row' = y
  rintro (⟨same⟩ | ⟨e, e'⟩)
  · refine .inr ⟨_, _, rfl, rfl, same.perm, fun column tree found => ?_⟩
    have found' := same.get? column
    rw [found] at found'
    generalize Entries.get? column _ = tree? at found'
    cases found' with
    | some h => exact ⟨_, rfl, h, h.toDocument_eq⟩
  · exact .inl ⟨e, e', rfl, rfl⟩

end UpdateTree

/-- A path before the document that it reaches into, one behind it, and one of another column. -/
def profileChanges : Row :=
  .ofList [("profile->address->city", .value (.text "Ghent")),
    ("profile", .value (.json (.obj [("address", .str "unknown"), ("tags", .arr [.str "new"])]))),
    ("flags->beta", .value (.bool true)), ("profile->tags[1]", .value (.text "seen"))]

def reversedChanges : Row :=
  .ofList [("profile->tags[1]", .value (.text "seen")), ("flags->beta", .value (.bool true)),
    ("profile", .value (.json (.obj [("address", .str "unknown"), ("tags", .arr [.str "new"])]))),
    ("profile->address->city", .value (.text "Ghent"))]

theorem reversedChanges_gathered :
    ∃ trees trees', UpdateTree.ofRow profileChanges = .ok trees ∧
      UpdateTree.ofRow reversedChanges = .ok trees' ∧
      trees.map Prod.fst = ["profile", "flags"] ∧
      (trees.map Prod.fst).Perm (trees'.map Prod.fst) ∧
      ∀ column tree, Entries.get? column trees = some tree →
        ∃ tree', Entries.get? column trees' = some tree' ∧ UpdateTree.Same tree tree' ∧
          tree.toDocument = tree'.toDocument := by
  have perm : profileChanges.entries.Perm reversedChanges.entries :=
    (List.reverse_perm _).symm
  obtain ⟨e, e', fails, -⟩ | ⟨trees, trees', gathered, gathered', names, same⟩ :=
    UpdateTree.ofRow_perm perm (by decide)
  · cases fails
  · refine ⟨trees, trees', gathered, gathered', ?_, names, same⟩
    cases gathered
    rfl

end SqlCompiler
