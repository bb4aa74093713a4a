import SqlCompiler.Engine.Insert
import SqlCompiler.Query.Fold
/-!
# The stored form of a query

Every clause has a JSON form, in which a query can be kept. Members are written in one fixed
order, defaults included.
-/

namespace SqlCompiler

def Json.ofStrings (texts : List String) : Json :=
  .arr (texts.map .str)

def Json.ofOption {A : Type} (f : A → Json) : Option A → Json
  | some a => f a
  | none => .null

def Json.ofNat (n : Nat) : Json := .int n

namespace Conjunction

def name : Conjunction → String
  | and => "and"
  | or => "or"

end Conjunction

namespace DatePart

def name : DatePart → String
  | date => "date"
  | time => "time"
  | day => "day"
  | month => "month"
  | year => "year"

end DatePart

namespace JoinKind

def name : JoinKind → String
  | inner => "inner"
  | left => "left"
  | right => "right"
  | cross => "cross"

end JoinKind

namespace Direction

def name : Direction → String
  | asc => "asc"
  | desc => "desc"

end Direction

namespace IndexHintKind

def name : IndexHintKind → String
  | hint => "hint"
  | force => "force"
  | ignore => "ignore"

end IndexHintKind

/-- Octets are numbers, moments exact texts. -/
def Binding.stored : Binding → Json
  | null => .null
  | bool b => .bool b
  | int n => .int n
  | float x => .float x
  | text s => .str s
  | typed value wire => .obj [("value", value.stored), ("wire_type", .str wire.name)]
  | json document => document
  | bytes octets => .arr (octets.map fun b => .int b.toNat)
  | date d => .str d.text
  | time t => .str t.exactText
  | dateTime d => .str d.exactText

def storedBindings (bindings : List Binding) : Json :=
  .arr (bindings.map Binding.stored)

def Param.stored : Param → Json
  | value b => b.stored
  | raw sql => .obj [("raw", .str sql)]

def storedParams (params : List Param) : Json :=
  .arr (params.map Param.stored)

def Row.stored (row : Row) : Json :=
  .obj (row.entries.map fun (column, value) => (column, value.stored))

def UpsertAssignment.stored : UpsertAssignment → Json
  | inserted column => .str column
  | given column value => .arr [.str column, value.stored]

def Settings.stored (s : Settings) : Json :=
  .obj [("table_prefix", .str s.tablePrefix), ("use_upsert_alias", .bool s.upsertAlias)]

/-! ### Clauses -/

def Term.stored : Term Json → Json
  | .name n => .str n
  | .raw sql bindings => .obj [("raw", .str sql), ("bindings", storedBindings bindings)]
  | .sub query aliasName => .obj [("sub", query), ("alias", .str aliasName)]

def storedTerms (terms : List (Term Json)) : Json :=
  .arr (terms.map Term.stored)

def FulltextOptions.stored (o : FulltextOptions) : Json :=
  .obj [("mode", .ofOption .str o.mode), ("expanded", .bool o.expanded),
    ("language", .ofOption .str o.language)]

def Predicate.stored : Predicate Json → String × List (String × Json)
  | .basic column operator value =>
    ("Basic", [("column", column.stored), ("operator", .str operator), ("value", value.stored)])
  | .raw sql bindings => ("Raw", [("sql", .str sql), ("bindings", storedBindings bindings)])
  | .expression sql => ("Expression", [("expression", .str sql)])
  | .bitwise column operator value =>
    ("Bitwise", [("column", column.stored), ("operator", .str operator), ("value", value.stored)])
  | .among column values =>
    ("In", [("column", column.stored), ("values", storedParams values)])
  | .amongIntegers column values =>
    ("InRaw", [("column", column.stored), ("values", .arr (values.map .int))])
  | .null column => ("Null", [("column", column.stored)])
  | .between column low high =>
    ("Between", [("column", column.stored), ("min", low.stored), ("max", high.stored)])
  | .betweenColumns column low high =>
    ("BetweenColumns", [("column", column.stored), ("min", low.stored), ("max", high.stored)])
  | .datePart part column operator value =>
    ("Date", [("part", .str part.name), ("column", column.stored), ("operator", .str operator),
      ("value", value.stored)])
  | .compareColumns first operator second =>
    ("Column", [("first", first.stored), ("operator", .str operator), ("second", second.stored)])
  | .nested query => ("Nested", [("query", query)])
  | .sub column operator query =>
    ("Sub", [("column", column.stored), ("operator", .str operator), ("query", query)])
  | .hasRows query => ("Exists", [("query", query)])
  | .rowValues columns operator values =>
    ("RowValues", [("columns", storedTerms columns), ("operator", .str operator),
      ("values", storedParams values)])
  | .jsonBoolean column operator value =>
    ("JsonBoolean", [("column", .str column), ("operator", .str operator), ("value", .bool value)])
  | .jsonContains column document =>
    ("JsonContains", [("column", .str column), ("value", document)])
  | .jsonContainsKey column => ("JsonContainsKey", [("column", .str column)])
  | .jsonLength column operator value =>
    ("JsonLength", [("column", .str column), ("operator", .str operator),
      ("value", value.stored)])
  | .fulltext columns value options =>
    ("Fulltext", [("columns", storedTerms columns), ("value", value.stored),
      ("options", options.stored)])

def GroupPredicate.stored : GroupPredicate Json → String × List (String × Json)
  | .basic column operator value =>
    ("Basic", [("column", column.stored), ("operator", .str operator), ("value", value.stored)])
  | .raw sql bindings => ("Raw", [("sql", .str sql), ("bindings", storedBindings bindings)])
  | .expression sql => ("Expression", [("expression", .str sql)])
  | .between column low high =>
    ("Between", [("column", column.stored), ("min", low.stored), ("max", high.stored)])
  | .null column => ("Null", [("column", column.stored)])
  | .nested query => ("Nested", [("query", query)])
  | .bitwise column operator value =>
    ("Bitwise", [("column", column.stored), ("operator", .str operator), ("value", value.stored)])

/-- A condition is one object: how it is tied, whether it is negated, its kind and operands. -/
def storedCondition (conjunction : Conjunction) (negated : Bool)
    (predicate : String × List (String × Json)) : Json :=
  .obj (("boolean", .str conjunction.name) :: ("not", .bool negated) ::
    ("type", .str predicate.1) :: predicate.2)

def Where.stored (w : Where Json) : Json :=
  storedCondition w.conjunction w.negated w.predicate.stored

def Having.stored (h : Having Json) : Json :=
  storedCondition h.conjunction h.negated h.predicate.stored

def Join.stored (j : Join Json) : Json :=
  .obj [("kind", .str j.kind.name), ("table", j.table.stored), ("clause", j.clause)]

def Order.stored : Order Json → Json
  | .byColumn column direction =>
    .obj [("type", .str "column"), ("column", column.stored), ("direction", .str direction.name)]
  | .raw sql bindings =>
    .obj [("type", .str "raw"), ("sql", .str sql), ("bindings", storedBindings bindings)]
  | .random seed => .obj [("type", .str "random"), ("seed", .ofOption .str seed)]

def UnionMember.stored (u : UnionMember Json) : Json :=
  .obj [("query", u.query), ("all", .bool u.all)]

def Aggregate.stored (a : Aggregate Json) : Json :=
  .obj [("function", .str a.function), ("columns", storedTerms a.columns)]

def Distinct.stored : Distinct → Json
  | off => .str "off"
  | all => .str "all"
  | on columns => .obj [("on", .ofStrings columns)]

def Lock.stored : Lock → Json
  | update => .str "update"
  | shared => .str "shared"
  | raw sql => .obj [("raw", .str sql)]

def IndexHint.stored (h : IndexHint) : Json :=
  .obj [("kind", .str h.kind.name), ("index", .str h.index)]

def CteBody.stored : CteBody Json → Json
  | .select query => .obj [("query", query)]
  | .raw sql bindings =>
    .obj [("raw", .obj [("sql", .str sql), ("bindings", storedBindings bindings)])]

def Cycle.stored (c : Cycle) : Json :=
  .obj [("columns", .ofStrings c.columns), ("mark_column", .str c.markColumn),
    ("path_column", .str c.pathColumn)]

def Cte.stored (c : Cte Json) : Json :=
  .obj [("name", .str c.name), ("columns", .ofStrings c.columns),
    ("recursive", .bool c.recursive), ("materialized", .ofOption .bool c.materialized),
    ("query", c.body.stored), ("cycle", .ofOption Cycle.stored c.cycle)]

def Clauses.stored (c : Clauses Json) : Json :=
  .obj [
    ("aggregate", .ofOption Aggregate.stored c.aggregate),
    ("columns", .ofOption storedTerms c.columns),
    ("distinct", c.distinct.stored),
    ("from", .ofOption Term.stored c.source),
    ("index_hint", .ofOption IndexHint.stored c.indexHint),
    ("joins", .arr (c.joins.map Join.stored)),
    ("wheres", .arr (c.wheres.map Where.stored)),
    ("groups", storedTerms c.groups),
    ("havings", .arr (c.havings.map Having.stored)),
    ("orders", .arr (c.orders.map Order.stored)),
    ("limit", .ofOption .ofNat c.limit),
    ("offset", .ofOption .ofNat c.offset),
    ("unions", .arr (c.unions.map UnionMember.stored)),
    ("union_orders", .arr (c.unionOrders.map Order.stored)),
    ("union_limit", .ofOption .ofNat c.unionLimit),
    ("union_offset", .ofOption .ofNat c.unionOffset),
    ("lock", .ofOption Lock.stored c.lock),
    ("expressions", .arr (c.ctes.map Cte.stored)),
    ("union_expressions", .arr (c.unionCtes.map Cte.stored)),
    ("recursion_limit", .ofOption .ofNat c.recursionLimit),
    ("union_recursion_limit", .ofOption .ofNat c.unionRecursionLimit)]

def Query.stored (q : Query) : Json :=
  q.fold Clauses.stored

end SqlCompiler
