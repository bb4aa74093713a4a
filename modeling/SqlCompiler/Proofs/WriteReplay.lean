import SqlCompiler.Engine.Assignment
import SqlCompiler.Proofs.TreeDocuments
/-!
# Replaying writes

What a sequence of writes makes of an empty container: a bound document is put at its path, a patch
as well, and a container is made. Every write needs the container that it goes into.
-/

namespace SqlCompiler

namespace Json

/-- Sets an item, with nulls in the gap before it. -/
def setItem (value : Json) : Nat → List Json → List Json
  | 0, items => value :: items.tail
  | i + 1, items => items.headD .null :: setItem value i items.tail

/-- Sets what is behind a step, in a container of the kind that the step needs. -/
def set? (document : Json) (step : PathStep) (value : Json) : Option Json :=
  match document, step with
  | obj members, .key k => some (obj (insertMember k value members))
  | arr items, .index i => some (arr (setItem value i items))
  | _, _ => none

/-- Puts a value at the end of a path all of whose containers are there. -/
def put? (value : Json) : List PathStep → Json → Option Json
  | [], _ => some value
  | step :: rest, document =>
    (put? value rest ((document.child? step).getD .null)).bind fun child =>
      document.set? step child

/-- An empty array or an empty object. -/
def emptyContainer (isArray : Bool) : Json :=
  if isArray then arr [] else obj []

theorem insertMember_insertMember (name : String) (value other : Json)
    (members : List (String × Json)) :
    insertMember name other (insertMember name value members)
      = insertMember name other members := by
  induction members with
  | nil => simp [insertMember]
  | cons member members ih =>
    obtain ⟨first, held⟩ := member
    by_cases same : name = first
    · simp [insertMember, same]
    · by_cases below : name < first
      · simp [insertMember, same, below]
      · simp [insertMember, same, below, ih]

theorem setItem_setItem (i : Nat) (value other : Json) (items : List Json) :
    setItem other i (setItem value i items) = setItem other i items := by
  induction i generalizing items with
  | zero => rfl
  | succ i ih => simp [setItem, ih]

theorem getElem?_setItem (i : Nat) (value : Json) (items : List Json) :
    (setItem value i items)[i]? = some value := by
  induction i generalizing items with
  | zero => rfl
  | succ i ih => simp [setItem, ih]

/-- Behind the last item, an item is set after nulls. -/
theorem setItem_of_le {i : Nat} {items : List Json} (above : items.length ≤ i) (value : Json) :
    setItem value i items = items ++ List.replicate (i - items.length) .null ++ [value] := by
  induction i generalizing items with
  | zero =>
    obtain rfl := List.length_eq_zero_iff.mp (Nat.le_zero.mp above)
    rfl
  | succ i ih =>
    cases items with
    | nil => simpa [setItem, List.replicate_succ] using @ih [] (Nat.zero_le i)
    | cons item items => simpa [setItem] using ih (Nat.le_of_succ_le_succ above)

section Steps

variable {document after value : Json} {step : PathStep}

theorem child?_of_set? (done : document.set? step value = some after) :
    after.child? step = some value := by
  unfold set? at done
  split at done
  · obtain rfl := Option.some.inj done
    exact get?_insertMember_self _ _ _
  · obtain rfl := Option.some.inj done
    exact getElem?_setItem _ _ _
  · cases done

/-- What is set twice is as if set once. -/
theorem set?_of_set? (done : document.set? step value = some after) (other : Json) :
    after.set? step other = document.set? step other := by
  unfold set? at done
  split at done
  · obtain rfl := Option.some.inj done
    exact congrArg (some <| obj ·) (insertMember_insertMember _ _ _ _)
  · obtain rfl := Option.some.inj done
    exact congrArg (some <| arr ·) (setItem_setItem _ _ _ _)
  · cases done

/-- Whether something can be set is up to the container. -/
theorem set?_ok (done : document.set? step value = some after) (other : Json) :
    ∃ result, document.set? step other = some result := by
  unfold set? at done ⊢
  split at done
  · exact ⟨_, rfl⟩
  · exact ⟨_, rfl⟩
  · cases done

theorem put?_of_set? (done : document.set? step value = some after) (inner : Json)
    (path : List PathStep) :
    put? inner (step :: path) after = (put? inner path value).bind fun child =>
      document.set? step child := by
  rw [put?, child?_of_set? done, Option.getD_some]
  simp only [set?_of_set? done]

end Steps

end Json

/-! ### Replaying writes -/

namespace PathWrite

def path : PathWrite → List PathStep
  | raw path _ | value path _ | patch path _ | container path _ => path

/-- The same write, in a document that is behind a path itself. -/
def below (front : List PathStep) : PathWrite → PathWrite
  | raw path sql => raw (front ++ path) sql
  | value path b => value (front ++ path) b
  | patch path document => patch (front ++ path) document
  | container path isArray => container (front ++ path) isArray

/-- The document that a write binds. -/
def document? : PathWrite → Option Json
  | value _ b => some b.toDocument
  | patch _ document => some document
  | raw .. | container .. => none

/-- What a write leaves at its path if the column has nothing there. What raw SQL leaves is not
known. -/
def placed? : PathWrite → Option Json
  | container _ isArray => some (.emptyContainer isArray)
  | write => write.document?

/-- The document after some writes, if each goes into a container that is there. -/
def replay : List PathWrite → Json → Option Json
  | [], document => some document
  | write :: rest, document =>
    write.placed?.bind fun value => (Json.put? value write.path document).bind (replay rest)

@[simp] theorem path_below (front : List PathStep) (write : PathWrite) :
    (write.below front).path = front ++ write.path := by
  cases write <;> rfl

@[simp] theorem placed?_below (front : List PathStep) (write : PathWrite) :
    (write.below front).placed? = write.placed? := by
  cases write <;> rfl

theorem replay_append (writes others : List PathWrite) (document : Json) :
    replay (writes ++ others) document = (replay writes document).bind (replay others) := by
  induction writes generalizing document with
  | nil => rfl
  | cons write writes ih =>
    simp only [List.cons_append, replay, funext ih, Option.bind_assoc]

/-- What is written below a step builds what the writes build by themselves, behind the step. -/
theorem replay_below {document after value : Json} {step : PathStep}
    (done : document.set? step value = some after) (writes : List PathWrite) :
    replay (writes.map (below [step])) after
      = (replay writes value).bind fun child => document.set? step child := by
  induction writes generalizing after value with
  | nil => exact done.symm
  | cons write writes ih =>
    simp only [List.map_cons, replay, placed?_below, path_below, List.singleton_append,
      Json.put?_of_set? done]
    cases write.placed? with
    | none => rfl
    | some placed =>
      rw [Option.bind_some, Option.bind_some]
      cases Json.put? placed write.path value with
      | none => rfl
      | some inner =>
        -- the write has changed only what is behind the step, and the rest goes on from there
        obtain ⟨next, again⟩ := Json.set?_ok done inner
        rw [Option.bind_some, Option.bind_some, again, Option.bind_some, ih again]

/-- A script that starts at its root can be put behind a step. -/
theorem replay_behind {document after value : Json} {step : PathStep} {first : PathWrite}
    {rest : List PathWrite} (root : first.path = [])
    (built : ∀ old, replay (first :: rest) old = some value)
    (done : document.set? step value = some after) :
    replay ((first :: rest).map (below [step])) document = some after := by
  obtain ⟨start, placed, others⟩ := Option.bind_eq_some_iff.mp (built .null)
  rw [root, Json.put?, Option.bind_some] at others
  obtain ⟨middle, begun⟩ := Json.set?_ok done start
  rw [List.map_cons, replay, placed?_below, placed, path_below, root, Option.bind_some,
    List.append_nil, Json.put?, Json.put?, Option.bind_some, begun, Option.bind_some,
    replay_below begun, others, Option.bind_some, done]

/-- The path of the container that a write leaves. -/
def opened : PathWrite → List (List PathStep)
  | container path _ => [path]
  | raw .. | value .. | patch .. => []

/-- Whether each write goes right into a container at one of some paths, or into one that a write
before it has left. -/
def Grounded : List (List PathStep) → List PathWrite → Prop
  | _, [] => True
  | parents, write :: rest =>
    (∃ parent ∈ parents, ∃ step, write.path = parent ++ [step]) ∧
      Grounded (write.opened ++ parents) rest

variable {parents : List (List PathStep)} {writes : List PathWrite}

theorem opened_below (front : List PathStep) (write : PathWrite) :
    (write.below front).opened = write.opened.map (front ++ ·) := by
  cases write <;> rfl

theorem mem_opened {write : PathWrite} {path : List PathStep} :
    path ∈ write.opened ↔ ∃ isArray, write = container path isArray := by
  cases write <;> simp [opened, eq_comm]

theorem Grounded.mono (grounded : Grounded parents writes) {more : List (List PathStep)}
    (sub : parents ⊆ more) : Grounded more writes := by
  induction writes generalizing parents more with
  | nil => trivial
  | cons write writes ih =>
    obtain ⟨⟨parent, inside, own⟩, rest⟩ := grounded
    refine ⟨⟨parent, sub inside, own⟩, ih rest fun path member => ?_⟩
    exact List.mem_append.mpr ((List.mem_append.mp member).imp_right fun held => sub held)

theorem Grounded.append {others : List PathWrite} (grounded : Grounded parents writes)
    (further : Grounded parents others) : Grounded parents (writes ++ others) := by
  induction writes generalizing parents with
  | nil => exact further
  | cons write writes ih =>
    exact ⟨grounded.1, ih grounded.2 (further.mono (List.subset_append_right _ _))⟩

theorem Grounded.below (grounded : Grounded parents writes) (front : List PathStep) :
    Grounded (parents.map (front ++ ·)) (writes.map (below front)) := by
  induction writes generalizing parents with
  | nil => trivial
  | cons write writes ih =>
    obtain ⟨⟨parent, inside, step, own⟩, rest⟩ := grounded
    refine ⟨⟨front ++ parent, List.mem_map_of_mem inside, step, ?_⟩, ?_⟩
    · rw [path_below, own, List.append_assoc]
    · rw [opened_below, ← List.map_append]
      exact ih rest

/-- Each write of a grounded script has its container among those before it. -/
theorem Grounded.parent {before after : List PathWrite} {write : PathWrite}
    (grounded : Grounded parents (before ++ write :: after)) :
    ∃ parent step, write.path = parent ++ [step] ∧
      (parent ∈ parents ∨ ∃ isArray, container parent isArray ∈ before) := by
  induction before generalizing parents with
  | nil =>
    obtain ⟨⟨parent, inside, step, own⟩, -⟩ := grounded
    exact ⟨parent, step, own, .inl inside⟩
  | cons first before ih =>
    obtain ⟨parent, step, own, held⟩ := ih grounded.2
    refine ⟨parent, step, own, ?_⟩
    rcases held with held | ⟨isArray, held⟩
    · refine (List.mem_append.mp held).symm.imp_right fun held => ?_
      obtain ⟨isArray, rfl⟩ := mem_opened.mp held
      exact ⟨isArray, List.mem_cons_self⟩
    · exact .inr ⟨isArray, List.mem_cons_of_mem _ held⟩

/-- Whether a write binds a document that reaches to a path. -/
def covers (path : List PathStep) : PathWrite → Bool
  | value front _ | patch front _ => front.isPrefixOf path
  | raw .. | container .. => false

/-- A write that binds a value at a path, alone or inside a patch. -/
def Binds (path : List PathStep) (b : Binding) : PathWrite → Prop
  | value front held => front = path ∧ held = b
  | patch front document => ∃ rest, path = front ++ rest ∧ document.get? rest = some b.toDocument
  | raw .. | container .. => False

theorem covers_below (step other : PathStep) (path : List PathStep) (write : PathWrite) :
    (write.below [other]).covers (step :: path) = (other == step && write.covers path) := by
  cases write with
  | raw | container => simp [below, covers]
  | value | patch => rfl

theorem filter_covers_below (step other : PathStep) (path : List PathStep)
    (writes : List PathWrite) :
    (writes.map (below [other])).filter (covers (step :: path))
      = if other = step then (writes.filter (covers path)).map (below [step]) else [] := by
  rw [List.filter_map]
  split
  · next same =>
    subst same
    simp [Function.comp_def, covers_below]
  · next apart => simp [Function.comp_def, covers_below, apart]

theorem Binds.below {path : List PathStep} {b : Binding} {write : PathWrite}
    (binds : write.Binds path b) (front : List PathStep) :
    (write.below front).Binds (front ++ path) b := by
  cases write with
  | raw | container => cases binds
  | value => exact ⟨congrArg _ binds.1, binds.2⟩
  | patch own document =>
    obtain ⟨rest, rfl, held⟩ := binds
    exact ⟨rest, (List.append_assoc _ _ _).symm, held⟩

end PathWrite

/-- The text that a write binds. -/
def PathWrite.boundText? (write : PathWrite) : Option Binding :=
  write.document?.map fun document => .text document.text

theorem WriteWords.bindings_write {words : WriteWords} (known : words ∈ [mysql, sqlite])
    (field : String) (write : PathWrite) :
    (words.write field write).bindings = write.boundText?.toList := by
  have slot (b : Binding) : (Sql.ofParam (.value b)).bindings = [b] := rfl
  have known : words = mysql ∨ words = sqlite := by simpa using known
  rcases known with rfl | rfl <;> cases write <;>
    simp [WriteWords.write, WriteWords.bound, mysql, sqlite, PathWrite.boundText?,
      PathWrite.document?, Binding.documentText, slot, apply_ite Sql.bindings]

end SqlCompiler
