import SqlCompiler.Query.Clause
import SqlCompiler.Text.LowerCase
import SqlCompiler.Text.Scan
/-!
# Building queries

A query is built step by step. A step adds or replaces a clause; once a query has union members,
order, paging, with-expressions and recursion limits go to the union as a whole. Operators are
made lower-case, and a comparison turns into the predicate that fits its operands.
-/

namespace SqlCompiler

/-- One step of a build. Steps inside a step build a query of their own. -/
inductive Step where
  | source (table : Term Query)
  | select (columns : List (Term Query))
  | addSelect (columns : List (Term Query))
  | distinct (rows : Distinct)
  | aggregate (function : String) (columns : List (Term Query))
  | indexHint (kind : IndexHintKind) (index : String)
  | join (kind : JoinKind) (table : Term Query) (clause : List Step)
  | groupBy (columns : List (Term Query))
  | orderBy (order : Order Query)
  | reorder
  | limit (n : Nat)
  | offset (n : Nat)
  | page (number size : Nat)
  | union (query : Query) (all : Bool)
  | cte (expression : Cte Query)
  | recursionLimit (n : Nat)
  | lock (mode : Lock)
  | where (conjunction : Conjunction) (column : Term Query) (operator : String) (value : Param)
  | whereNot (column : Term Query) (operator : String) (value : Param)
  | whereRaw (conjunction : Conjunction) (sql : String) (bindings : List Binding)
  | whereExpression (sql : String)
  | whereIn (conjunction : Conjunction) (negated : Bool) (column : Term Query)
      (values : List Param)
  | whereIntegerIn (negated : Bool) (column : Term Query) (values : List Int)
  | whereNull (conjunction : Conjunction) (negated : Bool) (column : Term Query)
  | whereBetween (negated : Bool) (column : Term Query) (low high : Param)
  | whereBetweenColumns (column low high : Term Query)
  | whereDate (part : DatePart) (column : Term Query) (operator : String) (value : Param)
  | whereColumn (conjunction : Conjunction) (first : Term Query) (operator : String)
      (second : Term Query)
  | whereNested (conjunction : Conjunction) (negated : Bool) (steps : List Step)
  | whereSub (column : Term Query) (operator : String) (query : Query)
  | whereExists (conjunction : Conjunction) (negated : Bool) (query : Query)
  | whereRowValues (columns : List (Term Query)) (operator : String) (values : List Param)
  | whereJsonContains (negated : Bool) (column : String) (document : Json)
  | whereJsonContainsKey (negated : Bool) (column : String)
  | whereJsonLength (column operator : String) (value : Param)
  | whereFulltext (columns : List (Term Query)) (value : Param) (options : FulltextOptions)
  | having (conjunction : Conjunction) (column : Term Query) (operator : String) (value : Param)
  | havingRaw (sql : String) (bindings : List Binding)
  | havingExpression (sql : String)
  | havingBetween (column : Term Query) (low high : Param)
  | havingNull (negated : Bool) (column : Term Query)
  | havingNested (steps : List Step)

/-- The bitwise operators that every dialect has. -/
def bitwiseOperators : List String := ["&", "|", "^", "<<", ">>", "&~"]

/-- Whether an operator compares for equality or its opposite, so that null needs other words. -/
def isEquality (operator : String) : Bool :=
  operator ∈ ["=", "!=", "<>"]

/-- What `column operator value` tests, and whether the test is negated: a null value is tested
with `is null`, a boolean at a JSON path as a JSON boolean. -/
def Predicate.comparison (column : Term Query) (operator : String) (value : Param) :
    Bool × Predicate Query :=
  let nullValue := match value with
    | .value b => b.isNull
    | .raw _ => false
  if nullValue && isEquality operator then (operator ≠ "=", .null column)
  else
    let plain : Bool × Predicate Query :=
      if operator ∈ bitwiseOperators then (false, .bitwise column operator value)
      else (false, .basic column operator value)
    match column, value with
    | .name name, .value (.bool b) =>
      if Text.hasArrow name.toList then (false, .jsonBoolean name operator b) else plain
    | _, _ => plain

def GroupPredicate.comparison (column : Term Query) (operator : String) (value : Param) :
    GroupPredicate Query :=
  if operator ∈ bitwiseOperators then .bitwise column operator value
  else .basic column operator value

namespace Clauses

def addWhere (c : Clauses Query) (conjunction : Conjunction) (negated : Bool)
    (predicate : Predicate Query) : Clauses Query :=
  { c with wheres := c.wheres ++ [{ conjunction, negated, predicate }] }

/-- Adds the condition `column operator value`. -/
def addComparison (c : Clauses Query) (conjunction : Conjunction) (column : Term Query)
    (operator : String) (value : Param) : Clauses Query :=
  let (negated, predicate) := Predicate.comparison column (Text.lowerCase operator) value
  c.addWhere conjunction negated predicate

def addHaving (c : Clauses Query) (conjunction : Conjunction) (negated : Bool)
    (predicate : GroupPredicate Query) : Clauses Query :=
  { c with havings := c.havings ++ [{ conjunction, negated, predicate }] }

def addOrder (c : Clauses Query) (order : Order Query) : Clauses Query :=
  if c.hasUnions then { c with unionOrders := c.unionOrders ++ [order] }
  else { c with orders := c.orders ++ [order] }

def setLimit (c : Clauses Query) (n : Nat) : Clauses Query :=
  if c.hasUnions then { c with unionLimit := some n } else { c with limit := some n }

def setOffset (c : Clauses Query) (n : Nat) : Clauses Query :=
  if c.hasUnions then { c with unionOffset := some n } else { c with offset := some n }

def addCte (c : Clauses Query) (expression : Cte Query) : Clauses Query :=
  if c.hasUnions then { c with unionCtes := c.unionCtes ++ [expression] }
  else { c with ctes := c.ctes ++ [expression] }

def setRecursionLimit (c : Clauses Query) (n : Nat) : Clauses Query :=
  if c.hasUnions then { c with unionRecursionLimit := some n }
  else { c with recursionLimit := some n }

end Clauses

mutual

/-- The clauses after a step. A group of conditions is added only if it has any. -/
def Step.apply (c : Clauses Query) : Step → Clauses Query
  | .source table => { c with source := some table }
  | .select columns => { c with columns := some columns }
  | .addSelect columns => { c with columns := some (c.columns.getD [] ++ columns) }
  | .distinct rows => { c with distinct := rows }
  | .aggregate function columns => { c with aggregate := some { function, columns } }
  | .indexHint kind index => { c with indexHint := some { kind, index } }
  | .join kind table steps =>
    { c with joins := c.joins ++ [{ kind, table, clause := .mk (Step.applyAll {} steps) }] }
  | .groupBy columns => { c with groups := c.groups ++ columns }
  | .orderBy order => c.addOrder order
  | .reorder => { c with orders := [], unionOrders := [] }
  | .limit n => c.setLimit n
  | .offset n => c.setOffset n
  | .page number size => (c.setOffset ((number - 1) * size)).setLimit size
  | .union query all => { c with unions := c.unions ++ [{ query, all }] }
  | .cte expression => c.addCte expression
  | .recursionLimit n => c.setRecursionLimit n
  | .lock mode => { c with lock := some mode }
  | .where conjunction column operator value => c.addComparison conjunction column operator value
  | .whereNot column operator value =>
    c.addWhere .and true
      (.nested (.mk (Clauses.addComparison {} .and column operator value)))
  | .whereRaw conjunction sql bindings => c.addWhere conjunction false (.raw sql bindings)
  | .whereExpression sql => c.addWhere .and false (.expression sql)
  | .whereIn conjunction negated column values =>
    c.addWhere conjunction negated (.among column values)
  | .whereIntegerIn negated column values =>
    c.addWhere .and negated (.amongIntegers column values)
  | .whereNull conjunction negated column => c.addWhere conjunction negated (.null column)
  | .whereBetween negated column low high => c.addWhere .and negated (.between column low high)
  | .whereBetweenColumns column low high =>
    c.addWhere .and false (.betweenColumns column low high)
  | .whereDate part column operator value =>
    c.addWhere .and false (.datePart part column (Text.lowerCase operator) value)
  | .whereColumn conjunction first operator second =>
    c.addWhere conjunction false (.compareColumns first (Text.lowerCase operator) second)
  | .whereNested conjunction negated steps =>
    let inner := Step.applyAll {} steps
    if inner.wheres.isEmpty then c else c.addWhere conjunction negated (.nested (.mk inner))
  | .whereSub column operator query =>
    c.addWhere .and false (.sub column (Text.lowerCase operator) query)
  | .whereExists conjunction negated query => c.addWhere conjunction negated (.hasRows query)
  | .whereRowValues columns operator values =>
    c.addWhere .and false (.rowValues columns (Text.lowerCase operator) values)
  | .whereJsonContains negated column document =>
    c.addWhere .and negated (.jsonContains column document)
  | .whereJsonContainsKey negated column => c.addWhere .and negated (.jsonContainsKey column)
  | .whereJsonLength column operator value =>
    c.addWhere .and false (.jsonLength column (Text.lowerCase operator) value)
  | .whereFulltext columns value options =>
    c.addWhere .and false (.fulltext columns value options)
  | .having conjunction column operator value =>
    c.addHaving conjunction false
      (GroupPredicate.comparison column (Text.lowerCase operator) value)
  | .havingRaw sql bindings => c.addHaving .and false (.raw sql bindings)
  | .havingExpression sql => c.addHaving .and false (.expression sql)
  | .havingBetween column low high => c.addHaving .and false (.between column low high)
  | .havingNull negated column => c.addHaving .and negated (.null column)
  | .havingNested steps =>
    let inner := Step.applyAll {} steps
    if inner.havings.isEmpty then c else c.addHaving .and false (.nested (.mk inner))

def Step.applyAll (c : Clauses Query) : List Step → Clauses Query
  | [] => c
  | step :: steps => Step.applyAll (step.apply c) steps

end

namespace Step

/-- A joined table with one condition between two columns. -/
def joinOn (kind : JoinKind) (table first : Term Query) (operator : String)
    (second : Term Query) : Step :=
  .join kind table [.whereColumn .and first operator second]

end Step

namespace Query

def build (steps : List Step) : Query :=
  .mk (Step.applyAll {} steps)

def apply (q : Query) (step : Step) : Query :=
  .mk (step.apply q.clauses)

end Query

end SqlCompiler
