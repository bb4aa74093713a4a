import SqlCompiler.Proofs.WriteReplay
/-!
# Scripts of writes

The writes of an update tree are a script that builds its document in an empty container. Each write
comes after the container that it goes into, and each bound value is in one write and no other.
-/

namespace SqlCompiler

namespace UpdateTree

mutual

theorem nodeWrites_append (front path : List PathStep) : ∀ tree, nodeWrites (front ++ path) tree
    = (nodeWrites path tree).map (List.map (PathWrite.below front))
  | leaf (.raw _) => rfl
  | leaf (.value _) => rfl
  | object members => by
    rw [nodeWrites, nodeWrites]
    split
    · cases documentMembers [] members <;> rfl
    · rw [memberWrites_append]
      cases memberWrites path members <;> rfl
  | array slots => by
    rw [nodeWrites, nodeWrites, slotWrites_append]
    cases slotWrites path slots <;> rfl

theorem memberWrites_append (front path : List PathStep) : ∀ members,
    memberWrites (front ++ path) members
      = (memberWrites path members).map (List.map (PathWrite.below front))
  | [] => rfl
  | (k, tree) :: members => by
    rw [memberWrites, memberWrites, List.append_assoc, nodeWrites_append, memberWrites_append]
    cases nodeWrites (path ++ [.key k]) tree with
    | error e => rfl
    | ok first => cases memberWrites path members with
      | error e => rfl
      | ok rest => exact congrArg Except.ok List.map_append.symm

theorem slotWrites_append (front path : List PathStep) : ∀ slots,
    slotWrites (front ++ path) slots
      = (slotWrites path slots).map (List.map (PathWrite.below front))
  | [] => rfl
  | (i, tree) :: slots => by
    rw [slotWrites, slotWrites, List.append_assoc, nodeWrites_append, slotWrites_append]
    cases nodeWrites (path ++ [.index i]) tree with
    | error e => rfl
    | ok first => cases slotWrites path slots with
      | error e => rfl
      | ok rest => exact congrArg Except.ok List.map_append.symm

end

/-- The writes of several nodes, each behind its step. -/
def childWrites : List (PathStep × UpdateTree) → Except CompileError (List PathWrite)
  | [] => .ok []
  | (step, tree) :: rest => do
    let first ← nodeWrites [] tree
    let others ← childWrites rest
    return first.map (.below [step]) ++ others

theorem childWrites_cons_ok {step : PathStep} {tree : UpdateTree}
    {rest : List (PathStep × UpdateTree)} {writes : List PathWrite}
    (ok : childWrites ((step, tree) :: rest) = .ok writes) :
    ∃ first others, nodeWrites [] tree = .ok first ∧ childWrites rest = .ok others ∧
      writes = first.map (.below [step]) ++ others := by
  rw [childWrites] at ok
  obtain ⟨first, own, behind⟩ := bind_ok ok
  obtain ⟨others, done, same⟩ := bind_ok behind
  exact ⟨first, others, own, done, (pure_ok same).symm⟩

theorem childWrites_ok {nodes : List (PathStep × UpdateTree)}
    (each : ∀ node ∈ nodes, ∃ writes, nodeWrites [] node.2 = .ok writes) :
    ∃ writes, childWrites nodes = .ok writes := by
  induction nodes with
  | nil => exact ⟨[], rfl⟩
  | cons node nodes ih =>
    obtain ⟨⟨first, own⟩, others⟩ := List.forall_mem_cons.mp each
    obtain ⟨rest, done⟩ := ih others
    refine ⟨first.map (.below [node.1]) ++ rest, ?_⟩
    rw [childWrites, own, done]
    rfl

theorem nodeWrites_step (step : PathStep) (tree : UpdateTree) :
    nodeWrites [step] tree = (nodeWrites [] tree).map (List.map (PathWrite.below [step])) :=
  nodeWrites_append [step] [] tree

theorem memberWrites_eq (members : List (String × UpdateTree)) :
    memberWrites [] members = childWrites (object members).children := by
  induction members with
  | nil => rfl
  | cons member members ih =>
    obtain ⟨k, tree⟩ := member
    show _ = childWrites ((.key k, tree) :: (object members).children)
    rw [memberWrites, List.nil_append, nodeWrites_step, ih, childWrites]
    cases nodeWrites [] tree <;> rfl

theorem slotWrites_eq (slots : List (Nat × UpdateTree)) :
    slotWrites [] slots = childWrites (array slots).children := by
  induction slots with
  | nil => rfl
  | cons slot slots ih =>
    obtain ⟨i, tree⟩ := slot
    show _ = childWrites ((.index i, tree) :: (array slots).children)
    rw [slotWrites, List.nil_append, nodeWrites_step, ih, childWrites]
    cases nodeWrites [] tree <;> rfl

/-- Below its root, a tree writes its children one after the other. -/
theorem writes_eq (tree : UpdateTree) : tree.writes = childWrites tree.children := by
  cases tree with
  | object members => exact memberWrites_eq members
  | array slots => exact slotWrites_eq slots
  | leaf value => rfl

/-- What the writes of a node are. -/
inductive NodeScript : UpdateTree → List PathWrite → Prop
  | raw (sql : String) : NodeScript (leaf (.raw sql)) [.raw [] sql]
  | value (b : Binding) : NodeScript (leaf (.value b)) [.value [] b]
  | patch {tree : UpdateTree} {document : Json} (done : tree.toDocument = .ok document) :
    NodeScript tree [.patch [] document]
  | container {tree : UpdateTree} {rest : List PathWrite} (inner : ∀ value, tree ≠ leaf value)
    (ok : childWrites tree.children = .ok rest) :
    NodeScript tree (.container [] tree.isArray :: rest)

theorem nodeScript {tree : UpdateTree} {writes : List PathWrite}
    (ok : nodeWrites [] tree = .ok writes) : NodeScript tree writes := by
  cases tree with
  | leaf value =>
    cases value with
    | raw sql => exact Except.ok.inj ok ▸ .raw sql
    | value b => exact Except.ok.inj ok ▸ .value b
  | object members =>
    rw [nodeWrites] at ok
    split at ok
    · obtain ⟨sorted, listed, rfl⟩ := map_ok ok
      exact .patch (by rw [toDocument, listed]; rfl)
    · obtain ⟨rest, done, rfl⟩ := map_ok ok
      exact .container nofun (memberWrites_eq members ▸ done)
  | array slots =>
    rw [nodeWrites] at ok
    obtain ⟨rest, done, rfl⟩ := map_ok ok
    exact .container nofun (slotWrites_eq slots ▸ done)

/-- A bound tree has its writes. -/
theorem Keyed.nodeWrites_ok {tree : UpdateTree} (keyed : tree.Keyed) (bound : tree.Bound) :
    ∃ writes, nodeWrites [] tree = .ok writes := by
  induction keyed with
  | @intro tree own below ih =>
    have keyed : tree.Keyed := ⟨own, below⟩
    obtain ⟨rest, done⟩ : ∃ rest, childWrites tree.children = .ok rest :=
      childWrites_ok fun child inside =>
        ih child inside (bound.child (keyed.mem_children_iff.mp inside))
    cases tree with
    | leaf value =>
      obtain ⟨b, rfl⟩ := leaves_leaf.mp bound
      exact ⟨[.value [] b], rfl⟩
    | object members =>
      rw [nodeWrites]
      split
      · obtain ⟨document, whole⟩ := keyed.toDocument_ok bound
        rw [toDocument] at whole
        obtain ⟨sorted, listed, -⟩ := map_ok whole
        exact ⟨[.patch [] (.obj sorted)], by rw [listed]; rfl⟩
      · exact ⟨.container [] false :: rest, by rw [memberWrites_eq, done]; rfl⟩
    | array slots =>
      exact ⟨.container [] true :: rest, by rw [nodeWrites, slotWrites_eq, done]; rfl⟩

/-! ### What the writes build and bind -/

theorem nodeScript_root {tree : UpdateTree} {writes : List PathWrite}
    (script : NodeScript tree writes) : ∃ first rest, writes = first :: rest ∧ first.path = [] := by
  cases script with
  | raw | value | patch | container => exact ⟨_, _, rfl, rfl⟩

/-- Wherever a node is written, its document comes to be there. -/
def Rebuilt (tree : UpdateTree) : Prop :=
  ∀ writes document, nodeWrites [] tree = .ok writes → tree.toDocument = .ok document →
    ∀ old, PathWrite.replay writes old = some document

theorem Rebuilt.behind {tree : UpdateTree} (rebuilt : tree.Rebuilt) {writes : List PathWrite}
    {value document after : Json} {step : PathStep} (ok : nodeWrites [] tree = .ok writes)
    (done : tree.toDocument = .ok value) (set : document.set? step value = some after) :
    PathWrite.replay (writes.map (.below [step])) document = some after := by
  obtain ⟨first, rest, rfl, root⟩ := nodeScript_root (nodeScript ok)
  exact PathWrite.replay_behind root (rebuilt _ _ ok done) set

theorem replay_members {members : List (String × UpdateTree)}
    (each : ∀ child ∈ (object members).children, child.2.Rebuilt) {writes : List PathWrite}
    (ok : childWrites (object members).children = .ok writes) {sorted result : List (String × Json)}
    (listed : documentMembers sorted members = .ok result) :
    PathWrite.replay writes (.obj sorted) = some (.obj result) := by
  induction members generalizing sorted writes with
  | nil =>
    obtain rfl := Except.ok.inj ok
    obtain rfl := Except.ok.inj listed
    rfl
  | cons member members ih =>
    obtain ⟨k, tree⟩ := member
    obtain ⟨own, others⟩ := List.forall_mem_cons.mp each
    obtain ⟨first, rest, now, behind, rfl⟩ := childWrites_cons_ok ok
    obtain ⟨value, done, listed⟩ := documentMembers_cons_ok listed
    rw [PathWrite.replay_append, own.behind now done rfl, Option.bind_some]
    exact ih others behind listed

/-- The items so far reach up to the slots that are still to come. -/
theorem replay_slots {slots : List (Nat × UpdateTree)} (ascending : Ascending slots)
    (each : ∀ child ∈ (array slots).children, child.2.Rebuilt) {writes : List PathWrite}
    (ok : childWrites (array slots).children = .ok writes) {before items : List Json}
    (above : ∀ slot ∈ slots, before.length ≤ slot.1)
    (listed : documentItems before.length slots = .ok items) :
    PathWrite.replay writes (.arr before) = some (.arr (before ++ items)) := by
  induction slots generalizing before items writes with
  | nil =>
    obtain rfl := Except.ok.inj ok
    obtain rfl := Except.ok.inj listed
    simp [PathWrite.replay]
  | cons slot slots ih =>
    obtain ⟨i, tree⟩ := slot
    obtain ⟨own, others⟩ := List.forall_mem_cons.mp each
    obtain ⟨later, ascending⟩ := List.pairwise_cons.mp ascending
    obtain ⟨first, rest, now, behind, rfl⟩ := childWrites_cons_ok ok
    obtain ⟨item, inner, done, further, rfl⟩ := documentItems_cons_ok listed
    have reach : before.length ≤ i := above _ List.mem_cons_self
    have set : (Json.arr before).set? (.index i) item = some (.arr
        (before ++ List.replicate (i - before.length) .null ++ [item])) := by
      rw [Json.set?, Json.setItem_of_le reach]
    have length : (before ++ List.replicate (i - before.length) Json.null ++ [item]).length
        = i + 1 := by
      simp
      omega
    rw [PathWrite.replay_append, own.behind now done set, Option.bind_some,
      ih ascending others behind (length ▸ later) (length.symm ▸ further)]
    simp

/-- The children of a container, written into an empty one, build its document. -/
theorem Keyed.replay_children {tree : UpdateTree} (keyed : tree.Keyed)
    (inner : ∀ value, tree ≠ leaf value) (each : ∀ child ∈ tree.children, child.2.Rebuilt)
    {writes : List PathWrite} (ok : childWrites tree.children = .ok writes) {document : Json}
    (done : tree.toDocument = .ok document) :
    PathWrite.replay writes (.emptyContainer tree.isArray) = some document := by
  cases tree with
  | leaf value => exact absurd rfl (inner value)
  | object members =>
    rw [toDocument] at done
    obtain ⟨result, listed, rfl⟩ := map_ok done
    exact replay_members each ok listed
  | array slots =>
    rw [toDocument] at done
    obtain ⟨items, listed, rfl⟩ := map_ok done
    show PathWrite.replay writes (.arr []) = some (.arr ([] ++ items))
    exact replay_slots (keyed_array.mp keyed).1 each ok (fun _ _ => Nat.zero_le _) listed

theorem Keyed.rebuilt {tree : UpdateTree} (keyed : tree.Keyed) : tree.Rebuilt := by
  induction keyed with
  | @intro tree own below ih =>
    intro writes document ok done old
    cases nodeScript ok with
    | raw sql => cases done
    | value b => exact congrArg some (Except.ok.inj done)
    | patch same => exact congrArg some (Except.ok.inj (same.symm.trans done))
    | @container _ rest inner behind =>
      exact Keyed.replay_children ⟨own, below⟩ inner ih behind done

theorem grounded_children {nodes : List (PathStep × UpdateTree)}
    (each : ∀ node ∈ nodes, ∀ writes, nodeWrites [] node.2 = .ok writes →
      ∃ first rest, writes = first :: rest ∧ first.path = [] ∧
        PathWrite.Grounded first.opened rest)
    {writes : List PathWrite} (ok : childWrites nodes = .ok writes) :
    PathWrite.Grounded [[]] writes := by
  induction nodes generalizing writes with
  | nil => exact Except.ok.inj ok ▸ trivial
  | cons node nodes ih =>
    obtain ⟨own, others⟩ := List.forall_mem_cons.mp each
    obtain ⟨front, behind, now, later, rfl⟩ := childWrites_cons_ok ok
    obtain ⟨first, rest, rfl, root, inner⟩ := own _ now
    refine .append ⟨⟨[], List.mem_singleton_self _, node.1, ?_⟩, ?_⟩ (ih others later)
    · rw [PathWrite.path_below, root, List.append_nil, List.nil_append]
    · rw [PathWrite.opened_below]
      exact (inner.below [node.1]).mono (List.subset_append_left _ _)

/-- Behind the first write of a node, all go into what it has left, or into each other. -/
theorem Keyed.grounded {tree : UpdateTree} (keyed : tree.Keyed) {writes : List PathWrite}
    (ok : nodeWrites [] tree = .ok writes) :
    ∃ first rest, writes = first :: rest ∧ first.path = [] ∧
      PathWrite.Grounded first.opened rest := by
  induction keyed generalizing writes with
  | intro own below ih =>
    cases nodeScript ok with
    | raw | value | patch => exact ⟨_, [], rfl, rfl, trivial⟩
    | container inner behind =>
      exact ⟨_, _, rfl, rfl, grounded_children (fun child inside _ => ih child inside) behind⟩

theorem Keyed.distinct {tree : UpdateTree} (keyed : tree.Keyed) :
    (tree.children.map Prod.fst).Nodup := by
  cases tree with
  | leaf value => exact .nil
  | object members =>
    refine List.pairwise_map.mpr (List.pairwise_map.mpr ?_)
    exact (List.pairwise_map.mp (keyed_object.mp keyed).1).imp fun apart same =>
      apart (PathStep.key.inj same)
  | array slots =>
    refine List.pairwise_map.mpr (List.pairwise_map.mpr ?_)
    exact (keyed_array.mp keyed).1.imp fun before same =>
      Nat.ne_of_lt before (PathStep.index.inj same)

section Covers

variable {nodes : List (PathStep × UpdateTree)} {writes : List PathWrite} {step : PathStep}

theorem childWrites_covers_of_absent (absent : step ∉ nodes.map Prod.fst)
    (ok : childWrites nodes = .ok writes) (path : List PathStep) :
    writes.filter (PathWrite.covers (step :: path)) = [] := by
  induction nodes generalizing writes with
  | nil => exact Except.ok.inj ok ▸ rfl
  | cons node nodes ih =>
    obtain ⟨apart, absent⟩ := not_or.mp (mt List.mem_cons.mpr absent)
    obtain ⟨first, others, -, later, rfl⟩ := childWrites_cons_ok ok
    rw [List.filter_append, PathWrite.filter_covers_below, if_neg (Ne.symm apart), ih absent later,
      List.append_nil]

/-- Behind a step, only the writes of the child there reach to a path. -/
theorem childWrites_covers (distinct : (nodes.map Prod.fst).Nodup)
    (ok : childWrites nodes = .ok writes) {child : UpdateTree} (inside : (step, child) ∈ nodes)
    (path : List PathStep) :
    ∃ own, nodeWrites [] child = .ok own ∧ writes.filter (PathWrite.covers (step :: path))
      = (own.filter (PathWrite.covers path)).map (PathWrite.below [step]) := by
  induction nodes generalizing writes with
  | nil => cases inside
  | cons node nodes ih =>
    obtain ⟨fresh, distinct⟩ := List.nodup_cons.mp distinct
    obtain ⟨first, others, now, later, rfl⟩ := childWrites_cons_ok ok
    rw [List.filter_append, PathWrite.filter_covers_below]
    rcases List.mem_cons.mp inside with rfl | inside
    · refine ⟨first, now, ?_⟩
      rw [if_pos rfl, childWrites_covers_of_absent fresh later, List.append_nil]
    · have apart : node.1 ≠ step := by
        rintro rfl
        exact fresh (List.mem_map.mpr ⟨_, inside, rfl⟩)
      rw [if_neg apart, List.nil_append]
      exact ih distinct later inside

end Covers

/-- Whether each bound value of a node is bound by one of its writes, and by no other. -/
def BoundOnce (tree : UpdateTree) : Prop :=
  ∀ writes path b, nodeWrites [] tree = .ok writes → tree.get? path = some (leaf (.value b)) →
    ∃ write, writes.filter (PathWrite.covers path) = [write] ∧ write.Binds path b

theorem Keyed.children_boundOnce {tree : UpdateTree} (keyed : tree.Keyed)
    (inner : ∀ value, tree ≠ leaf value) (each : ∀ child ∈ tree.children, child.2.BoundOnce)
    {writes : List PathWrite} (ok : childWrites tree.children = .ok writes) {path : List PathStep}
    {b : Binding} (found : tree.get? path = some (leaf (.value b))) :
    ∃ write, writes.filter (PathWrite.covers path) = [write] ∧ write.Binds path b := by
  cases path with
  | nil => exact absurd (Option.some.inj found) (inner _)
  | cons step path =>
    rw [get?_cons] at found
    obtain ⟨child, here, deep⟩ := Option.bind_eq_some_iff.mp found
    have inside := keyed.mem_children_iff.mpr here
    obtain ⟨part, now, same⟩ := childWrites_covers keyed.distinct ok inside path
    obtain ⟨write, only, binds⟩ := each _ inside _ _ _ now deep
    refine ⟨write.below [step], ?_, binds.below [step]⟩
    rw [same, only]
    rfl

theorem Keyed.boundOnce {tree : UpdateTree} (keyed : tree.Keyed) : tree.BoundOnce := by
  induction keyed with
  | @intro tree own below ih =>
    have keyed : tree.Keyed := ⟨own, below⟩
    intro writes path b ok found
    cases nodeScript ok with
    | raw sql => cases (get?_leaf.mp found).2
    | value held =>
      obtain ⟨rfl, same⟩ := get?_leaf.mp found
      exact ⟨_, rfl, rfl, Param.value.inj same⟩
    | patch done =>
      obtain ⟨document, same, held⟩ := keyed.get?_toDocument done found
      exact ⟨_, rfl, path, rfl, Except.ok.inj same ▸ held⟩
    | container inner behind =>
      exact keyed.children_boundOnce inner ih behind found

/-! ### The script of a tree -/

/-- What a script of writes promises about a tree. -/
structure Script (tree : UpdateTree) (writes : List PathWrite) : Prop where
  /-- The container that a write goes into is the root, or an earlier write has left it. -/
  grounded : ∀ before write after, writes = before ++ write :: after →
    ∃ parent step, write.path = parent ++ [step] ∧
      (parent = [] ∨ ∃ isArray, .container parent isArray ∈ before)
  /-- Each bound value is bound by one write. -/
  bound : ∀ path b, tree.get? path = some (leaf (.value b)) →
    ∃ write, writes.filter (PathWrite.covers path) = [write] ∧ write.Binds path b
  /-- Written into an empty container, they make up the document of the tree. -/
  replayed : ∃ document, tree.toDocument = .ok document ∧
    PathWrite.replay writes (.emptyContainer tree.isArray) = some document

/-- An update with a gap in an array and an address that is a patch. -/
def profileUpdate : UpdateTree :=
  object [("name", leaf (.value (.text "Ada"))),
    ("tags", array [(1, leaf (.value .null))]),
    ("address", object [("city", leaf (.value (.text "Turin")))])]

def profileWrites : List PathWrite :=
  [.value [.key "name"] (.text "Ada"), .container [.key "tags"] true,
    .value [.key "tags", .index 1] .null, .patch [.key "address"] (.obj [("city", .str "Turin")])]

end UpdateTree

end SqlCompiler
