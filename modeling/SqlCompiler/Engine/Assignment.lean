import SqlCompiler.Engine.Compiled
import SqlCompiler.UpdateTree
/-!
# Assignments of an update

The set list of an update: one assignment for each column, in the order in which the row first
names it. All updates inside one JSON column make up one assignment: a sequence of writes in MySQL
and SQLite, nested calls in Postgres and SQL Server.
-/

namespace SqlCompiler

/-- One write of a sequence into a document, at a path. -/
inductive PathWrite where
  | raw (path : List PathStep) (sql : String)
  | value (path : List PathStep) (b : Binding)
  /-- What is there, merged with a document. -/
  | patch (path : List PathStep) (document : Json)
  /-- The container that is there, or an empty one. -/
  | container (path : List PathStep) (isArray : Bool)

namespace UpdateTree

mutual

/-- The writes that set a node at a path: a container comes before what it holds, and an object
that is a patch takes one write. -/
def nodeWrites (path : List PathStep) : UpdateTree → Except CompileError (List PathWrite)
  | leaf (.raw sql) => .ok [.raw path sql]
  | leaf (.value b) => .ok [.value path b]
  | object members =>
    if patchMembers members then
      (documentMembers [] members).map fun sorted => [.patch path (.obj sorted)]
    else (memberWrites path members).map fun writes => .container path false :: writes
  | array slots => (slotWrites path slots).map fun writes => .container path true :: writes

def memberWrites (path : List PathStep) :
    List (String × UpdateTree) → Except CompileError (List PathWrite)
  | [] => .ok []
  | (k, tree) :: members => do
    let first ← nodeWrites (path ++ [.key k]) tree
    let rest ← memberWrites path members
    return first ++ rest

def slotWrites (path : List PathStep) :
    List (Nat × UpdateTree) → Except CompileError (List PathWrite)
  | [] => .ok []
  | (i, tree) :: slots => do
    let first ← nodeWrites (path ++ [.index i]) tree
    let rest ← slotWrites path slots
    return first ++ rest

end

/-- The writes that set everything in a tree, below its root. -/
def writes : UpdateTree → Except CompileError (List PathWrite)
  | object members => memberWrites [] members
  | array slots => slotWrites [] slots
  | leaf _ => .ok []

/-- `jsonb_set` around a document, at one step, with a value. -/
def jsonbSet (document : Sql) (step : PathStep) (value : Sql) : Sql :=
  "jsonb_set(" ++ document ++ ", " ++ JsonPath.arrayLiteral [step] ++ ", " ++ value ++ ")"

/-- The container of a field at a path, or an empty one. -/
def jsonbAt (field : String) (path : List PathStep) (isArray : Bool) : Sql :=
  "coalesce(" ++ field ++ "::jsonb #> " ++ JsonPath.arrayLiteral path ++ ", "
    ++ (if isArray then "'[]'::jsonb" else "'\x7b\x7d'::jsonb") ++ ")"

mutual

/-- The new value of a node at a path of the field. -/
def jsonbValue (field : String) (path : List PathStep) : UpdateTree → Sql
  | leaf (.raw sql) => sql
  | leaf (.value b) => Sql.ofParam (.value b.documentText) ++ "::jsonb"
  | object members => jsonbMembers field path (jsonbAt field path false) members
  | array slots => jsonbSlots field path (jsonbAt field path true) slots

def jsonbMembers (field : String) (path : List PathStep) (document : Sql) :
    List (String × UpdateTree) → Sql
  | [] => document
  | (k, tree) :: members =>
    jsonbMembers field path
      (jsonbSet document (.key k) (jsonbValue field (path ++ [.key k]) tree)) members

def jsonbSlots (field : String) (path : List PathStep) (document : Sql) :
    List (Nat × UpdateTree) → Sql
  | [] => document
  | (i, tree) :: slots =>
    jsonbSlots field path
      (jsonbSet document (.index i) (jsonbValue field (path ++ [.index i]) tree)) slots

end

/-- Where `json_modify` writes: at a key, or at an index if the array reaches that far and behind
its end if not. -/
def modifyTarget (field : String) (path : List PathStep) : PathStep → String
  | .key k => JsonPath.writeLiteral (path ++ [.key k])
  | .index i =>
    let parent := String.ofList (JsonPath.stepsText path)
    "case when (select count(*) from openjson(" ++ field ++ ", '" ++ parent ++ "')) > "
      ++ natText i ++ " then " ++ JsonPath.writeLiteral (path ++ [.index i])
      ++ " else 'append " ++ parent ++ "' end"

/-- `json_modify` of a document at a target. -/
def jsonModify (document : Sql) (target : String) (value : Sql) : Sql :=
  "json_modify(" ++ document ++ ", " ++ target ++ ", " ++ value ++ ")"

/-- A null is first cleared to a text and then set in strict mode, since a null in lax mode takes
the key away. -/
def modifyLeaf (field : String) (path : List PathStep) (document : Sql) (step : PathStep) :
    Param → Sql
  | .raw sql => jsonModify document (modifyTarget field path step) sql
  | .value b =>
    if b.isNull then
      jsonModify (jsonModify document (modifyTarget field path step) "''")
        (JsonPath.strictLiteral (path ++ [step])) "null"
    else jsonModify document (modifyTarget field path step) (Sql.ofParam (.value b))

/-- The document with the container at a step there, or an empty one. -/
def modifyContainer (field : String) (path : List PathStep) (document : Sql) (step : PathStep)
    (isArray : Bool) : Sql :=
  jsonModify document (modifyTarget field path step)
    ("json_query(isnull(json_query(" ++ field ++ ", " ++ JsonPath.writeLiteral (path ++ [step])
      ++ "), " ++ (if isArray then "'[]'" else "'\x7b\x7d'") ++ "))")

mutual

/-- The document with a node set at a step after a path. -/
def modifyNode (field : String) (path : List PathStep) (document : Sql) (step : PathStep) :
    UpdateTree → Sql
  | leaf value => modifyLeaf field path document step value
  | object members =>
    modifyMembers field (path ++ [step]) (modifyContainer field path document step false) members
  | array slots =>
    modifySlots field (path ++ [step]) (modifyContainer field path document step true) slots

def modifyMembers (field : String) (path : List PathStep) (document : Sql) :
    List (String × UpdateTree) → Sql
  | [] => document
  | (k, tree) :: members =>
    modifyMembers field path (modifyNode field path document (.key k) tree) members

def modifySlots (field : String) (path : List PathStep) (document : Sql) :
    List (Nat × UpdateTree) → Sql
  | [] => document
  | (i, tree) :: slots =>
    modifySlots field path (modifyNode field path document (.index i) tree) slots

end

end UpdateTree

/-- How a dialect with a sequence of writes says them. -/
structure WriteWords where
  emptyObject : String
  emptyArray : String
  /-- Around a bound document. -/
  document : Sql → Sql
  /-- A merge of what is there with a bound document. -/
  merge : Sql → Sql → Sql
  /-- What is there, or an empty container. -/
  orEmpty : Sql → Sql → Sql

def WriteWords.mysql : WriteWords where
  emptyObject := "json_object()"
  emptyArray := "json_array()"
  document slot := "cast(" ++ slot ++ " as json)"
  merge there patch := "json_merge_patch(ifnull(" ++ there ++ ", json_object()), " ++ patch ++ ")"
  orEmpty there empty := "ifnull(" ++ there ++ ", " ++ empty ++ ")"

def WriteWords.sqlite : WriteWords where
  emptyObject := "'\x7b\x7d'"
  emptyArray := "'[]'"
  document slot := "json(" ++ slot ++ ")"
  merge there patch := "json_patch(ifnull(" ++ there ++ ", '\x7b\x7d'), " ++ patch ++ ")"
  orEmpty there empty := "json(ifnull(" ++ there ++ ", " ++ empty ++ "))"

namespace WriteWords

/-- A bound text of a document. -/
def bound (w : WriteWords) (text : Binding) : Sql :=
  w.document (Sql.ofParam (.value text))

/-- A write as two arguments of a function: the path and the new value. -/
def write (w : WriteWords) (field : String) : PathWrite → Sql
  | .raw path sql => JsonPath.writeLiteral path ++ ", " ++ Sql.ofText sql
  | .value path b => JsonPath.writeLiteral path ++ ", " ++ w.bound b.documentText
  | .patch path document =>
    let literal := JsonPath.writeLiteral path
    literal ++ ", " ++ w.merge ("json_extract(" ++ field ++ ", " ++ literal ++ ")")
      (w.bound (.text document.text))
  | .container path isArray =>
    let literal := JsonPath.writeLiteral path
    literal ++ ", " ++ w.orEmpty ("json_extract(" ++ field ++ ", " ++ literal ++ ")")
      (if isArray then w.emptyArray else w.emptyObject)

def writeList (w : WriteWords) (field : String) (tree : UpdateTree) :
    Except CompileError (List Sql) :=
  tree.writes.map fun writes => writes.map (w.write field)

end WriteWords

/-! ### Assignments -/

namespace Engine

variable (e : Engine)

def treeAssignment (column : String) (tree : UpdateTree) : Outcome :=
  match e.dialect with
  | .generic => .error (.unsupported .jsonUpdates)
  | .mysql => do
    let field ← e.wrap column
    let writes ← WriteWords.mysql.writeList field tree
    let base := "ifnull(" ++ field ++ ", "
      ++ (if tree.isArray then "json_array()" else "json_object()") ++ ")"
    if writes.isEmpty then return field ++ " = " ++ base
    return field ++ " = json_set(" ++ base ++ ", " ++ Sql.join ", " writes ++ ")"
  | .postgres => do
    let field ← e.wrap column
    let base := "coalesce(" ++ field ++ "::jsonb, "
      ++ (if tree.isArray then "'[]'::jsonb" else "'\x7b\x7d'::jsonb") ++ ")"
    let value := match tree with
      | .object members => UpdateTree.jsonbMembers field [] base members
      | .array slots => UpdateTree.jsonbSlots field [] base slots
      | .leaf _ => base
    return field ++ " = " ++ value
  | .sqlite => do
    let field ← e.wrap column
    if tree.isPatch then
      let document ← tree.toDocument
      return field ++ " = json_patch(ifnull(" ++ field ++ ", json('\x7b\x7d')), "
        ++ WriteWords.sqlite.bound (.text document.text) ++ ")"
    let writes ← WriteWords.sqlite.writeList field tree
    return field ++ " = json_set(ifnull(" ++ field ++ ", "
      ++ (if tree.isArray then "json('[]')" else "json('\x7b\x7d')") ++ "), "
      ++ Sql.join ", " writes ++ ")"
  | .sqlserver => do
    let field ← e.wrap column
    let base := "isnull(" ++ field ++ ", " ++ (if tree.isArray then "'[]'" else "'\x7b\x7d'") ++ ")"
    let value := match tree with
      | .object members => UpdateTree.modifyMembers field [] base members
      | .array slots => UpdateTree.modifySlots field [] base slots
      | .leaf _ => base
    return field ++ " = " ++ value

def updateColumnName (key : String) : String :=
  match e.dialect with
  | .generic | .mysql => key
  | .postgres | .sqlite | .sqlserver => Name.unqualified key

/-- The row with the names of its columns as the dialect sets them. -/
def updateRow (values : Row) : Row :=
  .ofList (values.entries.map fun (key, value) => (e.updateColumnName key, value))

/-- The assignments of entries; a column with a tree is assigned where it first comes up, unless it
is among those `done`. -/
def assignments (trees : List (String × UpdateTree)) (done : List String) :
    List (String × Param) → Except CompileError (List Sql)
  | [] => .ok []
  | (key, value) :: rest =>
    let root := UpdateTree.rootOf key
    match Entries.get? root trees with
    | some tree =>
      if root ∈ done then assignments trees done rest
      else do
        let first ← e.treeAssignment root tree
        let others ← assignments trees (root :: done) rest
        return first :: others
    | none => do
      let column ← e.wrap key
      let others ← assignments trees done rest
      return (column ++ " = " ++ Sql.ofParam value) :: others

def setList (values : Row) : Outcome := do
  let row := e.updateRow values
  let trees ← UpdateTree.ofRow row
  let parts ← e.assignments trees [] row.entries
  return Sql.join ", " parts

end Engine

end SqlCompiler
