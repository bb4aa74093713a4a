import SqlCompiler.Stored.Encode
import SqlCompiler.Stored.Members
import SqlCompiler.Stored.Place
/-!
# Reading the stored form

The other direction of `Stored.Encode`. Members may be left out where there is a default, and
members of no meaning are passed over. How a value comes to its reader matters for two spellings of
a choice only.
-/

namespace SqlCompiler

def Conjunction.ofName? : String → Option Conjunction
  | "and" => some .and
  | "or" => some .or
  | _ => none

def DatePart.ofName? : String → Option DatePart
  | "date" => some .date
  | "time" => some .time
  | "day" => some .day
  | "month" => some .month
  | "year" => some .year
  | _ => none

def JoinKind.ofName? : String → Option JoinKind
  | "inner" => some .inner
  | "left" => some .left
  | "right" => some .right
  | "cross" => some .cross
  | _ => none

def Direction.ofName? : String → Option Direction
  | "asc" => some .asc
  | "desc" => some .desc
  | _ => none

def IndexHintKind.ofName? : String → Option IndexHintKind
  | "hint" => some .hint
  | "force" => some .force
  | "ignore" => some .ignore
  | _ => none

/-- The wire types given by the members `wire_type`. -/
def wireTypesIn (members : Members) : List (Option WireType) :=
  (members.values "wire_type").map (Json.choice? .tried WireType.ofName?)

mutual

/-- The binding of a stored value. What is no typed value is taken as it is, a container as a
document. -/
def Binding.ofStored : Json → Binding
  | .null => .null
  | .bool b => .bool b
  | .int n => if Binding.fitsInt n then .int n else .float (Binary64.ofInt n)
  | .float x => .float x
  | .str s => .text s
  | .arr [value, wire] =>
    match wire.choice? .tried WireType.ofName? with
    | some wire => .typed (Binding.ofStored value) wire
    | none => .json (Json.arr [value, wire]).canonical
  | .arr items => .json (Json.arr items).canonical
  | .obj members =>
    match bindingsIn members, wireTypesIn members with
    | [value], [some wire] => .typed value wire
    | _, _ => .json (Json.obj members).canonical

/-- The bindings given by the members `value`. -/
def bindingsIn : Members → List Binding
  | [] => []
  | (name, value) :: members =>
    if name = "value" then Binding.ofStored value :: bindingsIn members else bindingsIn members

end

def readBindings? : Json → Option (List Binding) :=
  Json.list? fun j => some (Binding.ofStored j)

/-- The text of the member `raw`, if that is what makes an object raw SQL. -/
def rawIn? (members : Members) : Option String :=
  members.required "raw" Json.str?

/-- The parameter of a stored value: raw SQL if it can be read so, else a binding. -/
def Param.ofStored (j : Json) : Param :=
  match j.members?.bind rawIn? with
  | some sql => .raw sql
  | none => .value (.ofStored j)

def readParams? : Json → Option (List Param) :=
  Json.list? fun j => some (Param.ofStored j)

def Row.ofStored? (j : Json) : Option Row :=
  j.members?.map fun members => .ofList (members.map fun (name, value) => (name, .ofStored value))

def UpsertAssignment.ofStored? : Json → Option UpsertAssignment
  | .str column => some (.inserted column)
  | .arr [.str column, value] => some (.given column (.ofStored value))
  | _ => none

def Settings.ofStored? (j : Json) : Option Settings := do
  let members ← j.record? Place.settings.names
  let tablePrefix ← members.optional "table_prefix" "" Json.str?
  let upsertAlias ← members.optional "use_upsert_alias" false Json.bool?
  return { tablePrefix, upsertAlias }

def Dialect.ofStored? (j : Json) : Option Dialect :=
  j.choice? .direct Dialect.ofName?

/-! ### Clauses -/

/-- How nested queries are read. -/
abbrev ReadQuery (Q : Type) := Reading → Json → Option Q

variable {Q : Type} (query? : ReadQuery Q)

def Term.ofStored? : Json → Option (Term Q)
  | .str n => some (.name n)
  | .obj members =>
    let raw : Option (Term Q) := do
      let sql ← rawIn? members
      let bindings ← Members.optional members "bindings" [] readBindings?
      return .raw sql bindings
    let sub : Option (Term Q) := do
      let query ← Members.required members "sub" (query? .tried)
      let aliasName ← Members.required members "alias" Json.str?
      return .sub query aliasName
    raw.or sub
  | _ => none

def readTerms? : Json → Option (List (Term Q)) :=
  Json.list? (Term.ofStored? query?)

def FulltextOptions.ofStored? (j : Json) : Option FulltextOptions := do
  let members ← j.record? ["mode", "expanded", "language"]
  let mode ← members.optional "mode" none (Json.nullable? Json.str?)
  let expanded ← members.optional "expanded" false Json.bool?
  let language ← members.optional "language" none (Json.nullable? Json.str?)
  return { mode, expanded, language }

/-- The kinds of predicates, in order. -/
def predicateKinds : List String :=
  ["Basic", "Raw", "Expression", "Bitwise", "In", "InRaw", "Null", "Between", "BetweenColumns",
    "Date", "Column", "Nested", "Sub", "Exists", "RowValues", "JsonBoolean", "JsonContains",
    "JsonContainsKey", "JsonLength", "Fulltext"]

/-- The predicate of a kind, from its operands. -/
def Predicate.ofStored? (kind : String) (m : Members) : Option (Predicate Q) :=
  let term (name : String) : Option (Term Q) := m.required name (Term.ofStored? query?)
  let terms (name : String) : Option (List (Term Q)) := m.required name (readTerms? query?)
  let text (name : String) : Option String := m.required name Json.str?
  let param (name : String) : Option Param := m.required name fun j => some (.ofStored j)
  let params (name : String) : Option (List Param) := m.required name readParams?
  let nested (name : String) : Option Q := m.required name (query? .kept)
  match kind with
  | "Basic" => do return .basic (← term "column") (← text "operator") (← param "value")
  | "Raw" => do return .raw (← text "sql") (← m.optional "bindings" [] readBindings?)
  | "Expression" => do return .expression (← text "expression")
  | "Bitwise" => do return .bitwise (← term "column") (← text "operator") (← param "value")
  | "In" => do return .among (← term "column") (← params "values")
  | "InRaw" => do
    return .amongIntegers (← term "column") (← m.required "values" (Json.list? Json.int64?))
  | "Null" => do return .null (← term "column")
  | "Between" => do return .between (← term "column") (← param "min") (← param "max")
  | "BetweenColumns" => do
    return .betweenColumns (← term "column") (← term "min") (← term "max")
  | "Date" => do
    let part ← m.required "part" (Json.choice? .kept DatePart.ofName?)
    return .datePart part (← term "column") (← text "operator") (← param "value")
  | "Column" => do
    return .compareColumns (← term "first") (← text "operator") (← term "second")
  | "Nested" => do return .nested (← nested "query")
  | "Sub" => do return .sub (← term "column") (← text "operator") (← nested "query")
  | "Exists" => do return .hasRows (← nested "query")
  | "RowValues" => do
    return .rowValues (← terms "columns") (← text "operator") (← params "values")
  | "JsonBoolean" => do
    return .jsonBoolean (← text "column") (← text "operator") (← m.required "value" Json.bool?)
  | "JsonContains" => do
    let document ← m.required "value" fun j => some j.canonical
    return .jsonContains (← text "column") document
  | "JsonContainsKey" => do return .jsonContainsKey (← text "column")
  | "JsonLength" => do
    return .jsonLength (← text "column") (← text "operator") (← param "value")
  | "Fulltext" => do
    let options ← m.optional "options" {} FulltextOptions.ofStored?
    return .fulltext (← terms "columns") (← param "value") options
  | _ => none

/-- The kinds of having predicates, in order. -/
def groupPredicateKinds : List String :=
  ["Basic", "Raw", "Expression", "Between", "Null", "Nested", "Bitwise"]

/-- The having predicate of a kind, from its operands. -/
def GroupPredicate.ofStored? (kind : String) (m : Members) : Option (GroupPredicate Q) :=
  let term (name : String) : Option (Term Q) := m.required name (Term.ofStored? query?)
  let text (name : String) : Option String := m.required name Json.str?
  let param (name : String) : Option Param := m.required name fun j => some (.ofStored j)
  match kind with
  | "Basic" => do return .basic (← term "column") (← text "operator") (← param "value")
  | "Raw" => do return .raw (← text "sql") (← m.optional "bindings" [] readBindings?)
  | "Expression" => do return .expression (← text "expression")
  | "Between" => do return .between (← term "column") (← param "min") (← param "max")
  | "Null" => do return .null (← term "column")
  | "Nested" => do return .nested (← m.required "query" (query? .kept))
  | "Bitwise" => do return .bitwise (← term "column") (← text "operator") (← param "value")
  | _ => none

/-- The name of a kind; a value that is not read at once may give its place among the kinds. -/
def kind? (reading : Reading) (kinds : List String) : Json → Option String
  | .str name => if name ∈ kinds then some name else none
  | .int n => if reading ≠ .direct ∧ 0 ≤ n then kinds[n.toNat]? else none
  | _ => none

/-- Reads a condition; its operands are kept until its kind is known. -/
def condition? {P : Type} (reading : Reading) (kinds : List String)
    (predicate? : String → Members → Option P) (j : Json) :
    Option (Conjunction × Bool × P) := do
  let members ← j.members?
  let conjunction ←
    members.optional "boolean" .and (Json.choice? reading Conjunction.ofName?)
  let negated ← members.optional "not" false Json.bool?
  let kind ← members.required "type" (kind? .tried kinds)
  let predicate ← predicate? kind members
  return (conjunction, negated, predicate)

def Where.ofStored? (reading : Reading) (j : Json) : Option (Where Q) :=
  (condition? reading predicateKinds (Predicate.ofStored? query?) j).map
    fun (conjunction, negated, predicate) => { conjunction, negated, predicate }

def Having.ofStored? (reading : Reading) (j : Json) : Option (Having Q) :=
  (condition? reading groupPredicateKinds (GroupPredicate.ofStored? query?) j).map
    fun (conjunction, negated, predicate) => { conjunction, negated, predicate }

def Join.ofStored? (empty : Q) (reading : Reading) (j : Json) : Option (Join Q) := do
  let members ← j.record? Place.join.names
  let kind ← members.optional "kind" .inner (Json.choice? reading JoinKind.ofName?)
  let table ← members.required "table" (Term.ofStored? query?)
  let clause ← members.optional "clause" empty (query? reading)
  return { kind, table, clause }

/-- The members that an order of some kind has. -/
def orderNames : String → List String
  | "column" => ["column", "direction"]
  | "raw" => ["sql", "bindings"]
  | _ => ["seed"]

def orderKinds : List String := ["column", "raw", "random"]

def readOrder? (kind : String) (m : Members) : Option (Order Q) :=
  match kind with
  | "column" => do
    let column ← m.required "column" (Term.ofStored? query?)
    let direction ← m.optional "direction" .asc (Json.choice? .kept Direction.ofName?)
    return .byColumn column direction
  | "raw" => do
    return .raw (← m.required "sql" Json.str?) (← m.optional "bindings" [] readBindings?)
  | "random" => do return .random (← m.optional "seed" none (Json.nullable? Json.str?))
  | _ => none

/-- An order is an object with its kind among the members, or an array that begins with it. -/
def Order.ofStored? (reading : Reading) : Json → Option (Order Q)
  | .obj members => do
    let kind ← Members.required members "type" (kind? reading orderKinds)
    readOrder? query? kind members
  | .arr (tag :: items) => do
    let kind ← kind? reading orderKinds tag
    let members ← (Json.arr items).record? (orderNames kind)
    readOrder? query? kind members
  | _ => none

def UnionMember.ofStored? (reading : Reading) (j : Json) : Option (UnionMember Q) := do
  let members ← j.record? Place.union.names
  let query ← members.required "query" (query? reading)
  let all ← members.optional "all" false Json.bool?
  return { query, all }

def Aggregate.ofStored? (j : Json) : Option (Aggregate Q) := do
  let members ← j.record? Place.aggregate.names
  let function ← members.required "function" Json.str?
  let columns ← members.required "columns" (readTerms? query?)
  return { function, columns }

def Distinct.ofStored? (reading : Reading) (j : Json) : Option Distinct := do
  match ← j.variant? with
  | ("off", value) => if Json.isNothing reading value then some .off else none
  | ("all", value) => if Json.isNothing reading value then some .all else none
  | ("on", some columns) => columns.strings?.map .on
  | _ => none

def Lock.ofStored? (reading : Reading) (j : Json) : Option Lock := do
  match ← j.variant? with
  | ("update", value) => if Json.isNothing reading value then some .update else none
  | ("shared", value) => if Json.isNothing reading value then some .shared else none
  | ("raw", some sql) => sql.str?.map .raw
  | _ => none

def IndexHint.ofStored? (reading : Reading) (j : Json) : Option IndexHint := do
  let members ← j.record? Place.indexHint.names
  let kind ← members.required "kind" (Json.choice? reading IndexHintKind.ofName?)
  let index ← members.required "index" Json.str?
  return { kind, index }

def CteBody.ofStored? (reading : Reading) (j : Json) : Option (CteBody Q) := do
  match ← j.variant? with
  | ("query", some query) => (query? reading query).map .select
  | ("raw", some fragment) => do
    let members ← fragment.record? Place.fragment.names
    let sql ← members.required "sql" Json.str?
    let bindings ← members.optional "bindings" [] readBindings?
    return .raw sql bindings
  | _ => none

def Cycle.ofStored? (j : Json) : Option Cycle := do
  let members ← j.record? Place.cycle.names
  let columns ← members.required "columns" Json.strings?
  let markColumn ← members.required "mark_column" Json.str?
  let pathColumn ← members.required "path_column" Json.str?
  return { columns, markColumn, pathColumn }

def Cte.ofStored? (reading : Reading) (j : Json) : Option (Cte Q) := do
  let members ← j.record? Place.cte.names
  let name ← members.required "name" Json.str?
  let columns ← members.optional "columns" [] Json.strings?
  let recursive ← members.optional "recursive" false Json.bool?
  let materialized ← members.optional "materialized" none (Json.nullable? Json.bool?)
  let body ← members.required "query" (CteBody.ofStored? query? reading)
  let cycle ← members.optional "cycle" none (Json.nullable? Cycle.ofStored?)
  return { name, columns, recursive, materialized, body, cycle }

/-- Every clause may be left out. -/
def Clauses.ofStored? (empty : Q) (reading : Reading) (j : Json) : Option (Clauses Q) := do
  let m ← j.record? Place.query.names
  let terms := Json.list? (Term.ofStored? query?)
  let orders := Json.list? (Order.ofStored? query? reading)
  let ctes := Json.list? (Cte.ofStored? query? reading)
  let count := Json.nullable? Json.nat64?
  return {
    aggregate := ← m.optional "aggregate" none (Json.nullable? (Aggregate.ofStored? query?))
    columns := ← m.optional "columns" none (Json.nullable? terms)
    distinct := ← m.optional "distinct" .off (Distinct.ofStored? reading)
    source := ← m.optional "from" none (Json.nullable? (Term.ofStored? query?))
    indexHint := ← m.optional "index_hint" none (Json.nullable? (IndexHint.ofStored? reading))
    joins := ← m.optional "joins" [] (Json.list? (Join.ofStored? query? empty reading))
    wheres := ← m.optional "wheres" [] (Json.list? (Where.ofStored? query? reading))
    groups := ← m.optional "groups" [] terms
    havings := ← m.optional "havings" [] (Json.list? (Having.ofStored? query? reading))
    orders := ← m.optional "orders" [] orders
    limit := ← m.optional "limit" none count
    offset := ← m.optional "offset" none count
    unions := ← m.optional "unions" [] (Json.list? (UnionMember.ofStored? query? reading))
    unionOrders := ← m.optional "union_orders" [] orders
    unionLimit := ← m.optional "union_limit" none count
    unionOffset := ← m.optional "union_offset" none count
    lock := ← m.optional "lock" none (Json.nullable? (Lock.ofStored? reading))
    ctes := ← m.optional "expressions" [] ctes
    unionCtes := ← m.optional "union_expressions" [] ctes
    recursionLimit := ← m.optional "recursion_limit" none count
    unionRecursionLimit := ← m.optional "union_recursion_limit" none count }

/-- Reads a query whose containers are nested at most `depth` deep. -/
def Query.ofStoredWithin? : Nat → ReadQuery Query
  | 0, _, _ => none
  | depth + 1, reading, j =>
    (Clauses.ofStored? (Query.ofStoredWithin? depth) .empty reading j).map .mk

/-- The query of a stored form. -/
def Query.ofStored? (reading : Reading) (j : Json) : Option Query :=
  Query.ofStoredWithin? (j.depth + 1) reading j

end SqlCompiler
