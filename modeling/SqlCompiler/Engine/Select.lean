import SqlCompiler.Engine.Condition
import SqlCompiler.Query.Fold
/-!
# Select statements

The clauses of a query are compiled one by one and put in the order of the dialect. Around them
come with-expressions, union members and the limit of recursion. `Query.compiled` does this for a
query with everything nested in it.
-/

namespace SqlCompiler

def JoinKind.sql : JoinKind → String
  | inner => "inner"
  | left => "left"
  | right => "right"
  | cross => "cross"

def Direction.sql : Direction → String
  | asc => "asc"
  | desc => "desc"

/-- Order, limit and offset, of a query or of a whole union. -/
structure Paging where
  orders : List (Order Compiled)
  limit : Option Nat
  offset : Option Nat

namespace Paging

def skips (p : Paging) : Bool :=
  p.offset.getD 0 > 0

end Paging

namespace Clauses

def paging (c : Clauses Compiled) : Paging :=
  { orders := c.orders, limit := c.limit, offset := c.offset }

def unionPaging (c : Clauses Compiled) : Paging :=
  { orders := c.unionOrders, limit := c.unionLimit, offset := c.unionOffset }

end Clauses

inductive Component where
  | aggregate | columns | source | indexHint | joins | wheres | groups | havings | orders | limit
  | offset | lock
deriving DecidableEq, Repr

/-- The parts in the order of the dialect: SQL Server has the offset before the limit. -/
def Engine.selectComponents (e : Engine) : List Component :=
  [.aggregate, .columns, .source, .indexHint, .joins, .wheres, .groups, .havings, .orders]
    ++ (if e.dialect = .sqlserver then [.offset, .limit] else [.limit, .offset]) ++ [.lock]

/-- Where the word `select` opens the statement itself: at the parenthesis depth `base` at which
the statement starts, after a blank or an opening parenthesis. `behind` characters are read. -/
def selectOffset? (base depth : Nat) (previous : Char) (behind : Nat) : List Char → Option Nat
  | [] => none
  | c :: rest =>
    if c = '(' then selectOffset? base (depth + 1) c (behind + 1) rest
    else if c = ')' then selectOffset? base (depth - 1) c (behind + 1) rest
    else if depth = base ∧ (previous = ' ' ∨ previous = '(')
        ∧ (Text.dropLead? "select".toList (c :: rest)).isSome then some behind
    else selectOffset? base depth c (behind + 1) rest

/-- Where the word `select` opens a statement that may stand in parentheses. -/
def statementSelect? (sql : List Char) : Option Nat :=
  selectOffset? (sql.takeWhile (· = '(')).length 0 ' ' 0 sql

namespace Engine

variable (e : Engine)

/-- The aggregate of a query. Columns after `distinct on` take the place of its own. -/
def aggregateSql (distinct : Distinct) (a : Aggregate Compiled) : Outcome := do
  let columns : Sql ← if a.columns.isEmpty then .ok "*" else e.columnList a.columns
  let counted : Sql ← match distinct with
    | .on names => (e.nameList names).map fun names => "distinct " ++ names
    | .all => .ok (if columns.text = "*" then columns else "distinct " ++ columns)
    | .off => .ok columns
  return "select " ++ a.function ++ "(" ++ counted ++ ") as aggregate"

/-- The first rows only, where the dialect says so before the columns. -/
def topSql (c : Clauses Compiled) : String :=
  match e.dialect, c.limit with
  | .sqlserver, some limit =>
    if limit > 0 ∧ c.offset.getD 0 = 0 then "top " ++ natText limit ++ " " else ""
  | _, _ => ""

def selectKeyword (distinct : Distinct) : Outcome :=
  match e.dialect, distinct with
  | .postgres, .on names => do
    let names ← e.nameList names
    return "select distinct on (" ++ names ++ ") "
  | _, .off => .ok "select "
  | _, _ => .ok "select distinct "

/-- The columns of a query; without any, all of them. -/
def columnsSql (c : Clauses Compiled) : Outcome := do
  let keyword ← e.selectKeyword c.distinct
  let columns ← e.columnList <| match c.columns with
    | some (column :: columns) => column :: columns
    | _ => [.name "*"]
  return keyword ++ e.topSql c ++ columns

/-- SQL Server locks rows by hints behind the table. -/
def lockHint (lock : Option Lock) : String :=
  match e.dialect, lock with
  | .sqlserver, some .update => " with(rowlock,updlock,holdlock)"
  | .sqlserver, some .shared => " with(rowlock,holdlock)"
  | .sqlserver, some (.raw sql) => " " ++ sql
  | _, _ => ""

def sourceSql (lock : Option Lock) (source : Term Compiled) : Outcome := do
  let table ← e.table source
  return "from " ++ table ++ e.lockHint lock

def indexHintSql (hint : IndexHint) : Outcome :=
  match e.dialect, hint.kind with
  | .generic, _ | .postgres, _ => .error (.unsupported .indexHints)
  | .mysql, .hint => .ok ("use index (" ++ hint.index ++ ")")
  | .mysql, .force => .ok ("force index (" ++ hint.index ++ ")")
  | .mysql, .ignore => .ok ("ignore index (" ++ hint.index ++ ")")
  | .sqlite, .force => .ok ("indexed by " ++ hint.index)
  | .sqlserver, .force => .ok ("with (index(" ++ hint.index ++ "))")
  | .sqlite, _ | .sqlserver, _ => .ok .empty

/-- A joined table. Joins of its own clause stand beside it in parentheses. -/
def joinSql (j : Join Compiled) : Outcome := do
  let table ← e.table j.table
  let target : Sql ←
    if j.clause.joins.isEmpty then .ok table
    else do
      let inner ← joinOutcomes " " j.clause.joins
      .ok ("(" ++ table ++ " " ++ inner ++ ")")
  let on ← conditions j.clause.wheres
  let joined := j.kind.sql ++ " join " ++ target
  return if on.isEmpty then joined else joined ++ " on " ++ on

def joinsSql (joins : List (Join Compiled)) : Outcome :=
  joinOutcomes " " (joins.map e.joinSql)

/-- A keyword before what is not empty. -/
def headed (keyword : String) (sql : Sql) : Sql :=
  if sql.isEmpty then .empty else keyword ++ sql

def wheresSql (wheres : List (Where Compiled)) : Outcome :=
  (conditions (wheres.map e.whereClause)).map (headed "where ")

def groupsSql (groups : List (Term Compiled)) : Outcome :=
  if groups.isEmpty then .ok .empty
  else (e.columnList groups).map fun groups => "group by " ++ groups

def havingsSql (havings : List (Having Compiled)) : Outcome :=
  (conditions (havings.map e.havingClause)).map (headed "having ")

/-- A random order; only MySQL takes a seed. -/
def randomSql (seed : Option String) : String :=
  match e.dialect with
  | .mysql => "RAND(" ++ seed.getD "" ++ ")"
  | .sqlserver => "NEWID()"
  | .generic | .postgres | .sqlite => "RANDOM()"

def orderSql : Order Compiled → Outcome
  | .byColumn column direction => do
    let column ← e.column column
    return column ++ " " ++ direction.sql
  | .raw sql bindings => .ok (.ofFragment sql bindings)
  | .random seed => .ok (e.randomSql seed)

def orderList (orders : List (Order Compiled)) : Outcome :=
  if orders.isEmpty then .ok .empty
  else (joinOutcomes ", " (orders.map e.orderSql)).map fun orders => "order by " ++ orders

/-- An order that changes nothing, where one is required. -/
def anyOrder : Sql := "order by (SELECT 0)"

/-- SQL Server skips rows only of an ordered result. -/
def ordersSql (p : Paging) : Outcome :=
  if e.dialect = .sqlserver ∧ p.orders.isEmpty ∧ p.skips then .ok anyOrder
  else e.orderList p.orders

def limitSql (p : Paging) : String :=
  match e.dialect, p.limit with
  | .sqlserver, some limit =>
    if limit > 0 ∧ p.skips then "fetch next " ++ natText limit ++ " rows only" else ""
  | _, some limit => "limit " ++ natText limit
  | _, none => ""

def offsetSql (p : Paging) : String :=
  match e.dialect, p.offset with
  | .sqlserver, some offset => if offset > 0 then "offset " ++ natText offset ++ " rows" else ""
  | _, some offset => "offset " ++ natText offset
  | _, none => ""

/-- Limit and offset in the order of the dialect. -/
def pagingSql (p : Paging) : List Sql :=
  if e.dialect = .sqlserver then [e.offsetSql p, e.limitSql p] else [e.limitSql p, e.offsetSql p]

def lockSql (lock : Lock) : String :=
  match e.dialect, lock with
  | .sqlite, _ | .sqlserver, _ => ""
  | _, .raw sql => sql
  | .mysql, .update | .postgres, .update => "for update"
  | .mysql, .shared => "lock in share mode"
  | .postgres, .shared => "for share"
  | .generic, _ => ""

/-! ### With-expressions and unions -/

def materializedSql (materialized : Option Bool) : String :=
  match e.dialect, materialized with
  | .postgres, some true | .sqlite, some true => "materialized "
  | .postgres, some false | .sqlite, some false => "not materialized "
  | _, _ => ""

/-- Only Postgres detects cycles. -/
def cycleSql (cycle : Cycle) : Outcome :=
  match e.dialect with
  | .postgres => do
    let columns ← e.nameList cycle.columns
    let mark ← e.wrap cycle.markColumn
    let path ← e.wrap cycle.pathColumn
    return " cycle " ++ columns ++ " set " ++ mark ++ " using " ++ path
  | _ => .error (.unsupported .cycleDetection)

def cteSql (c : Cte Compiled) : Outcome := do
  let columns : Sql ←
    if c.columns.isEmpty then .ok .empty
    else (e.nameList c.columns).map fun columns => columns.parenthesized ++ " "
  let body : Sql ← match c.body with
    | .select query => query.select
    | .raw sql bindings => .ok (.ofFragment sql bindings)
  let cycle : Sql ← match c.cycle with
    | some cycle => e.cycleSql cycle
    | none => .ok .empty
  return e.wrapTable c.name ++ " " ++ columns ++ "as " ++ e.materializedSql c.materialized
    ++ body.parenthesized ++ cycle

/-- The keyword of recursion; SQL Server has none. -/
def recursiveKeyword : String :=
  if e.dialect = .sqlserver then "" else "recursive "

def ctesSql (ctes : List (Cte Compiled)) : Outcome :=
  if ctes.isEmpty then .ok .empty
  else do
    let statements ← joinOutcomes ", " (ctes.map e.cteSql)
    return "with " ++ (if ctes.any Cte.recursive then e.recursiveKeyword else "") ++ statements

def withCtes (ctes : List (Cte Compiled)) (sql : Sql) : Outcome :=
  if ctes.isEmpty then .ok sql
  else do
    let ctes ← e.ctesSql ctes
    return ctes ++ " " ++ sql

/-- A statement with a limit on the depth of recursion: in MySQL a hint behind its own `select`,
in SQL Server an option at its end. -/
def limitRecursion (sql : Sql) (limit : Nat) : Sql :=
  match e.dialect with
  | .mysql =>
    match statementSelect? sql.text.toList with
    | some behind =>
      sql.insertAt (behind + "select".length)
        (" /*+ SET_VAR(cte_max_recursion_depth=" ++ natText limit ++ ") */")
    | none => sql
  | .sqlserver => sql ++ " option (maxrecursion " ++ natText limit ++ ")"
  | .generic | .postgres | .sqlite => sql

def limitRecursion? (limit : Option Nat) (sql : Sql) : Sql :=
  match limit with
  | some limit => e.limitRecursion sql limit
  | none => sql

def wrapUnion (sql : Sql) : Sql :=
  match e.dialect with
  | .generic | .mysql | .postgres => sql.parenthesized
  | .sqlite => "select * from " ++ sql.parenthesized
  | .sqlserver => "select * from " ++ sql.parenthesized ++ " as " ++ e.wrapTable "temp_table"

def unionMember (u : UnionMember Compiled) : Outcome :=
  u.query.select.map fun select => (if u.all then "union all " else "union ") ++ e.wrapUnion select

def unionPagingSql (p : Paging) : Except CompileError (List Sql) := do
  if e.dialect = .sqlserver then
    if p.limit.isNone && p.offset.isNone then
      let orders ← e.orderList p.orders
      return [orders]
    let orders ← if p.orders.isEmpty then .ok anyOrder else e.orderList p.orders
    let offset := "offset " ++ natText (p.offset.getD 0) ++ " rows"
    let fetch := match p.limit with
      | some limit => "fetch next " ++ natText limit ++ " rows only"
      | none => ""
    return [orders, offset, fetch]
  let orders ← e.ordersSql p
  return orders :: e.pagingSql p

def unionsSql (c : Clauses Compiled) : Outcome := do
  let members ← allOk (c.unions.map e.unionMember)
  let paging ← e.unionPagingSql c.unionPaging
  return Sql.join " " (members ++ paging.filter fun part => !part.isEmpty)

/-! ### Whole statements -/

/-- A clause of the query, empty where the query has none. -/
def componentSql (c : Clauses Compiled) : Component → Outcome
  | .aggregate =>
    match c.aggregate with
    | some a => e.aggregateSql c.distinct a
    | none => .ok .empty
  | .columns => if c.aggregate.isNone then e.columnsSql c else .ok .empty
  | .source =>
    match c.source with
    | some source => e.sourceSql c.lock source
    | none => .ok .empty
  | .indexHint =>
    match c.indexHint with
    | some hint => e.indexHintSql hint
    | none => .ok .empty
  | .joins => e.joinsSql c.joins
  | .wheres => e.wheresSql c.wheres
  | .groups => e.groupsSql c.groups
  | .havings => e.havingsSql c.havings
  | .orders => e.ordersSql c.paging
  | .limit => .ok (e.limitSql c.paging)
  | .offset => .ok (e.offsetSql c.paging)
  | .lock =>
    match c.lock with
    | some lock => .ok (e.lockSql lock)
    | none => .ok .empty

/-- The clauses of one select, in the order of the dialect. -/
def components (c : Clauses Compiled) : Outcome :=
  (allOk (e.selectComponents.map (e.componentSql c))).map Sql.spaced

/-- A select statement whose aggregate, if it has one, is its head. -/
def plainSelect (c : Clauses Compiled) : Outcome := do
  let body ← e.components c
  let body ← e.withCtes c.ctes
    (if c.hasUnions then body else e.limitRecursion? c.recursionLimit body)
  let body : Sql ←
    if c.hasUnions then do
      let unions ← e.unionsSql c
      .ok (e.limitRecursion? (c.unionRecursionLimit <|> c.recursionLimit)
        (e.wrapUnion body ++ " " ++ unions))
    else .ok body
  e.withCtes c.unionCtes body

/-- An aggregate over the rows of the query without it. -/
def rowAggregate (c : Clauses Compiled) (a : Aggregate Compiled) : Outcome := do
  let head ← e.aggregateSql c.distinct a
  let inner ← e.plainSelect
    { c with
      aggregate := none, ctes := [], unionCtes := [], recursionLimit := none,
      unionRecursionLimit := none }
  let sql : Sql := head ++ " from (" ++ inner ++ ") as " ++ e.wrapTable "temp_table"
  e.withCtes (c.unionCtes ++ c.ctes)
    (e.limitRecursion? (c.unionRecursionLimit <|> c.recursionLimit) sql)

def selectSql (c : Clauses Compiled) : Outcome :=
  match c.aggregate with
  | some a => if c.aggregatesRows then e.rowAggregate c a else e.plainSelect c
  | none => e.plainSelect c

/-- What a query is for the queries around it. -/
def compiled (c : Clauses Compiled) : Compiled where
  select := e.selectSql c
  joins := c.joins.map e.joinSql
  wheres := c.wheres.map e.whereClause
  havings := c.havings.map e.havingClause

/-- Whether a query has rows. SQL Server asks for the first row of a constant. -/
def existsSql (c : Clauses Compiled) : Outcome :=
  match e.dialect with
  | .sqlserver =>
    e.selectSql
      { c with
        columns := some [.raw ("1 " ++ e.wrapValue "exists") []]
        limit := some 1 }
  | _ => do
    let select ← e.selectSql c
    let name ← e.wrap "exists"
    return "select exists(" ++ select ++ ") as " ++ name

end Engine

/-- A query compiled with everything nested in it. -/
def Query.compiled (e : Engine) (q : Query) : Compiled :=
  q.fold e.compiled

/-- The clauses of a query with their nested queries compiled. -/
def Query.compiledClauses (e : Engine) (q : Query) : Clauses Compiled :=
  q.clauses.map (Query.compiled e)

theorem Query.compiled_eq (e : Engine) (q : Query) :
    q.compiled e = e.compiled (q.compiledClauses e) := by
  cases q
  exact Query.fold_mk e.compiled _

end SqlCompiler
