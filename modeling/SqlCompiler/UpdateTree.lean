import SqlCompiler.JsonPath.Basic
import SqlCompiler.Row
/-!
# Trees of JSON updates

All updates of one JSON column are gathered in a tree: containers that have to be there, and
parameters at the leaves. Members of an object are in the order in which they came, slots of an
array in the order of their indexes.
-/

namespace SqlCompiler

inductive UpdateTree where
  | object (members : List (String × UpdateTree))
  | array (slots : List (Nat × UpdateTree))
  | leaf (value : Param)

namespace UpdateTree

instance : Inhabited UpdateTree := ⟨leaf default⟩

def slot? (i : Nat) : List (Nat × UpdateTree) → Option UpdateTree
  | [] => none
  | (j, tree) :: rest => if j = i then some tree else slot? i rest

/-- Sets a slot among slots in ascending order. -/
def setSlot (i : Nat) (tree : UpdateTree) : List (Nat × UpdateTree) → List (Nat × UpdateTree)
  | [] => [(i, tree)]
  | (j, t) :: rest =>
    if i < j then (i, tree) :: (j, t) :: rest
    else if i = j then (i, tree) :: rest
    else (j, t) :: setSlot i tree rest

/-- An empty container of the kind that a step needs. -/
def containerFor : PathStep → UpdateTree
  | .key _ => object []
  | .index _ => array []

/-- What a new member or slot holds before it is set. -/
def fresh : UpdateTree := leaf (.value .null)

/-- A leaf makes room for the container that a step needs; a container stays. -/
def opened (step : PathStep) : UpdateTree → UpdateTree
  | leaf _ => containerFor step
  | tree => tree

/-- What an insertion leaves behind, and the error that cut it short if there was one. -/
structure Insertion where
  tree : UpdateTree
  error : Option CompileError := none

namespace Insertion

/-- The same insertion, seen from around the tree. -/
def within (i : Insertion) (around : UpdateTree → UpdateTree) : Insertion :=
  { i with tree := around i.tree }

/-- The tree of an insertion that was not cut short. -/
def result (i : Insertion) : Except CompileError UpdateTree :=
  match i.error with
  | none => .ok i.tree
  | some error => .error error

end Insertion

/-- Puts a parameter at the end of a path. Leaves on the way become containers; a container of the
other kind is an error. -/
def insert (value : Param) : List PathStep → UpdateTree → Insertion
  | [], _ => { tree := leaf value }
  | step :: rest, tree =>
    match step, tree.opened step with
    | .key k, object members =>
      (insert value rest ((Entries.get? k members).getD fresh)).within fun child =>
        object (Entries.set k child members)
    | .index i, array slots =>
      (insert value rest ((slot? i slots).getD fresh)).within fun child =>
        array (setSlot i child slots)
    | _, tree => { tree, error := some (.invalid (.pathKind step.text)) }

mutual

/-- The tree of a document, with its scalars at the leaves. -/
def ofDocument : Json → UpdateTree
  | .obj members => object (ofMembers members)
  | .arr items => array (ofItems 0 items)
  | .null => leaf (.value .null)
  | .bool b => leaf (.value (.ofDocument (.bool b)))
  | .int n => leaf (.value (.ofDocument (.int n)))
  | .float x => leaf (.value (.ofDocument (.float x)))
  | .str s => leaf (.value (.ofDocument (.str s)))

def ofMembers : List (String × Json) → List (String × UpdateTree)
  | [] => []
  | (name, value) :: members => (name, ofDocument value) :: ofMembers members

def ofItems (i : Nat) : List Json → List (Nat × UpdateTree)
  | [] => []
  | item :: items => (i, ofDocument item) :: ofItems (i + 1) items

end

def children : UpdateTree → List (PathStep × UpdateTree)
  | object members => members.map fun (k, tree) => (.key k, tree)
  | array slots => slots.map fun (i, tree) => (.index i, tree)
  | leaf _ => []

def child? : UpdateTree → PathStep → Option UpdateTree
  | object members, .key k => Entries.get? k members
  | array slots, .index i => slot? i slots
  | _, _ => none

def get? : UpdateTree → List PathStep → Option UpdateTree
  | tree, [] => some tree
  | tree, step :: rest => (tree.child? step).bind fun child => child.get? rest

def isArray : UpdateTree → Bool
  | array _ => true
  | _ => false

mutual

/-- The document of a tree: members by name, nulls in the gaps between slots. Raw SQL has none. -/
def toDocument : UpdateTree → Except CompileError Json
  | object members => (documentMembers [] members).map .obj
  | array slots => (documentItems 0 slots).map .arr
  | leaf (.value b) => .ok b.toDocument
  | leaf (.raw _) => .error (.invalid .rawInDocument)

def documentMembers (sorted : List (String × Json)) :
    List (String × UpdateTree) → Except CompileError (List (String × Json))
  | [] => .ok sorted
  | (name, tree) :: members => do
    let value ← toDocument tree
    documentMembers (Json.insertMember name value sorted) members

def documentItems (next : Nat) : List (Nat × UpdateTree) → Except CompileError (List Json)
  | [] => .ok []
  | (i, tree) :: slots => do
    let item ← toDocument tree
    let items ← documentItems (i + 1) slots
    return List.replicate (i - next) .null ++ item :: items

end

mutual

/-- Whether a merge with the document of the tree sets just its leaves: objects only, with bound
values that are not null. -/
def isPatch : UpdateTree → Bool
  | object members => patchMembers members
  | array _ | leaf _ => false

def patchMembers : List (String × UpdateTree) → Bool
  | [] => true
  | (_, object inner) :: members => patchMembers inner && patchMembers members
  | (_, array _) :: _ => false
  | (_, leaf (.value b)) :: members => !b.isNull && patchMembers members
  | (_, leaf (.raw _)) :: _ => false

end

/-- The document of a bound value that is a container. -/
def containerDocument? : Param → Option Json
  | .value b =>
    match b.bare with
    | .json (.obj members) => some (.obj members)
    | .json (.arr items) => some (.arr items)
    | _ => none
  | .raw _ => none

def splitKey? (key : String) : Option (String × List Char) :=
  (Text.cutArrow? key.toList).map fun (column, path) => (String.ofList column, path)

/-- The column that a key updates, as a whole or through a path. -/
def rootOf (key : String) : String :=
  match splitKey? key with
  | some (column, _) => column
  | none => key

/-- The columns that some key of the row reaches into. -/
def pathColumns (row : Row) : List String :=
  row.columns.filterMap fun key => (splitKey? key).map Prod.fst

/-- The trees of the columns that are updated as a whole beside a path: their documents. -/
def baseTrees (columns : List String) :
    List (String × Param) → Except CompileError (List (String × UpdateTree))
  | [] => .ok []
  | (key, value) :: rest =>
    if (splitKey? key).isSome ∨ key ∉ columns then baseTrees columns rest
    else
      match containerDocument? value with
      | none => .error (.invalid (.wholeAndPath key))
      | some document => do
        let trees ← baseTrees columns rest
        return (key, ofDocument document) :: trees

/-- Puts the values of the keys with paths into the trees of their columns. -/
def addPaths (trees : List (String × UpdateTree)) :
    List (String × Param) → Except CompileError (List (String × UpdateTree))
  | [] => .ok trees
  | (key, value) :: rest =>
    match splitKey? key with
    | none => addPaths trees rest
    | some (column, path) => do
      let steps ← JsonPath.steps path
      let root := match steps with
        | [] => fresh
        | step :: _ => containerFor step
      let tree ← (insert value steps ((Entries.get? column trees).getD root)).result
      addPaths (Entries.set column tree trees) rest

/-- One tree for every column that some key of the row reaches into. -/
def ofRow (row : Row) : Except CompileError (List (String × UpdateTree)) := do
  let bases ← baseTrees (pathColumns row) row.entries
  addPaths bases row.entries

end UpdateTree

end SqlCompiler
