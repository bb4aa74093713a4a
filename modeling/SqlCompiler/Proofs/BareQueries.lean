import SqlCompiler.Proofs.BuiltQueries
import SqlCompiler.Proofs.MappedValues
/-!
# Queries without wrappers

A typed value says how it is sent; what a statement is made of is the value inside. One place in a
build looks at a value as it comes: at a JSON path a bare boolean is compared as JSON, and one with
a type is bound like any other value. Steps that are the same but for wrappers, this difference
apart, build queries that are the same but for wrappers.
-/

namespace SqlCompiler

@[simp] theorem Binding.bare_bare (b : Binding) : b.bare.bare = b.bare := by
  induction b with
  | typed value wire ih => exact ih
  | _ => rfl

@[simp] theorem Binding.isNull_bare (b : Binding) : b.bare.isNull = b.isNull := by
  rw [isNull, bare_bare, isNull]

/-- A query with every value taken out of its wrappers. -/
def Query.bare (q : Query) : Query :=
  q.mapValues Binding.bare

theorem Query.bare_bare (q : Query) : q.bare.bare = q.bare := by
  simp only [bare, mapValues_mapValues, Binding.bare_bare]

def Term.bare (t : Term Query) : Term Query :=
  (t.map Query.bare).mapValues Binding.bare

def Param.bare (p : Param) : Param :=
  p.mapValues Binding.bare

def Predicate.bare (p : Predicate Query) : Predicate Query :=
  (p.map Query.bare).mapValues Binding.bare

def GroupPredicate.bare (p : GroupPredicate Query) : GroupPredicate Query :=
  (p.map Query.bare).mapValues Binding.bare

def Order.bare (o : Order Query) : Order Query :=
  (o.map Query.bare).mapValues Binding.bare

def Cte.bare (c : Cte Query) : Cte Query :=
  (c.map Query.bare).mapValues Binding.bare

/-- Clauses with every value taken out of its wrappers, those of the nested queries included. -/
def Clauses.bare (c : Clauses Query) : Clauses Query :=
  (c.map Query.bare).mapValues Binding.bare

theorem Query.bare_mk (c : Clauses Query) : (mk c).bare = mk c.bare :=
  mapValues_mk c

@[simp] theorem Term.bare_bare (t : Term Query) : t.bare.bare = t.bare := by
  simp only [bare, map_mapValues, map_map, mapValues_mapValues, Binding.bare_bare, Query.bare_bare]

@[simp] theorem Term.bare_bare_list (ts : List (Term Query)) :
    (ts.map bare).map bare = ts.map bare := by
  simp

@[simp] theorem Order.bare_bare (o : Order Query) : o.bare.bare = o.bare := by
  simp only [bare, map_mapValues, map_map, mapValues_mapValues, Binding.bare_bare, Query.bare_bare]

@[simp] theorem Cte.bare_bare (c : Cte Query) : c.bare.bare = c.bare := by
  simp only [bare, map_mapValues, map_map, mapValues_mapValues, Binding.bare_bare, Query.bare_bare]

/-- Whether a column is a path into a document. -/
def Term.isJsonPath : Term Query → Bool
  | .name n => Text.hasArrow n.toList
  | .raw _ _ | .sub _ _ => false

/-- A value without its wrappers, but that a boolean keeps one if it has any. -/
def Binding.bareButFlag (b : Binding) : Binding :=
  match b, b.bare with
  | .bool flag, _ => .bool flag
  | _, .bool flag => .typed (.bool flag) .boolean
  | _, inner => inner

/-- The value of a comparison without the wrappers that make no difference to it. -/
def Param.compared (column : Term Query) : Param → Param
  | .value b => .value (if column.isJsonPath then b.bareButFlag else b.bare)
  | .raw sql => .raw sql

mutual

/-- A step without the wrappers around its values, those in the queries handed to it included; a
comparison with the value at a JSON path keeps whether a boolean has any. -/
def Step.unwrapped : Step → Step
  | .source table => .source table.bare
  | .select columns => .select (columns.map Term.bare)
  | .addSelect columns => .addSelect (columns.map Term.bare)
  | .distinct rows => .distinct rows
  | .aggregate function columns => .aggregate function (columns.map Term.bare)
  | .indexHint kind index => .indexHint kind index
  | .join kind table steps => .join kind table.bare (Step.unwrappedAll steps)
  | .groupBy columns => .groupBy (columns.map Term.bare)
  | .orderBy order => .orderBy order.bare
  | .reorder => .reorder
  | .limit n => .limit n
  | .offset n => .offset n
  | .page number size => .page number size
  | .union query all => .union query.bare all
  | .cte expression => .cte expression.bare
  | .recursionLimit n => .recursionLimit n
  | .lock mode => .lock mode
  | .where conjunction column operator value =>
    .where conjunction column.bare operator (value.compared column)
  | .whereNot column operator value => .whereNot column.bare operator (value.compared column)
  | .whereRaw conjunction sql bindings => .whereRaw conjunction sql (bindings.map Binding.bare)
  | .whereExpression sql => .whereExpression sql
  | .whereIn conjunction negated column values =>
    .whereIn conjunction negated column.bare (values.map Param.bare)
  | .whereIntegerIn negated column values => .whereIntegerIn negated column.bare values
  | .whereNull conjunction negated column => .whereNull conjunction negated column.bare
  | .whereBetween negated column low high =>
    .whereBetween negated column.bare low.bare high.bare
  | .whereBetweenColumns column low high =>
    .whereBetweenColumns column.bare low.bare high.bare
  | .whereDate part column operator value => .whereDate part column.bare operator value.bare
  | .whereColumn conjunction first operator second =>
    .whereColumn conjunction first.bare operator second.bare
  | .whereNested conjunction negated steps =>
    .whereNested conjunction negated (Step.unwrappedAll steps)
  | .whereSub column operator query => .whereSub column.bare operator query.bare
  | .whereExists conjunction negated query => .whereExists conjunction negated query.bare
  | .whereRowValues columns operator values =>
    .whereRowValues (columns.map Term.bare) operator (values.map Param.bare)
  | .whereJsonContains negated column document => .whereJsonContains negated column document
  | .whereJsonContainsKey negated column => .whereJsonContainsKey negated column
  | .whereJsonLength column operator value => .whereJsonLength column operator value.bare
  | .whereFulltext columns value options =>
    .whereFulltext (columns.map Term.bare) value.bare options
  | .having conjunction column operator value =>
    .having conjunction column.bare operator value.bare
  | .havingRaw sql bindings => .havingRaw sql (bindings.map Binding.bare)
  | .havingExpression sql => .havingExpression sql
  | .havingBetween column low high => .havingBetween column.bare low.bare high.bare
  | .havingNull negated column => .havingNull negated column.bare
  | .havingNested steps => .havingNested (Step.unwrappedAll steps)

def Step.unwrappedAll : List Step → List Step
  | [] => []
  | step :: steps => step.unwrapped :: Step.unwrappedAll steps

end

/-! ### Comparisons -/

/-- The test of a comparison that does not look at its value. -/
def Predicate.plain (column : Term Query) (operator : String) (value : Param) :
    Predicate Query :=
  if operator ∈ bitwiseOperators then .bitwise column operator value
  else .basic column operator value

theorem Predicate.comparison_raw (column : Term Query) (operator sql : String) :
    comparison column operator (.raw sql) = (false, plain column operator (.raw sql)) := by
  cases column <;> simp [comparison, plain, apply_ite (Prod.mk false)]

theorem Predicate.comparison_flag {name : String} (path : Text.hasArrow name.toList = true)
    (operator : String) (flag : Bool) :
    comparison (.name name) operator (.value (.bool flag))
      = (false, .jsonBoolean name operator flag) := by
  simp [comparison, Binding.isNull, Binding.bare, path]

/-- A value is looked at only to see if it is null, unless it is a bare boolean at a JSON path. -/
theorem Predicate.comparison_plain {column : Term Query} {b : Binding}
    (noFlag : column.isJsonPath = true → ∀ flag, b ≠ .bool flag) (operator : String) :
    comparison column operator (.value b)
      = if b.isNull && isEquality operator then (decide (operator ≠ "="), .null column)
        else (false, plain column operator (.value b)) := by
  simp only [comparison]
  refine ite_congr rfl (fun _ => rfl) fun _ => ?_
  split
  · next value name flag bound =>
    have noPath : ¬ Text.hasArrow name.toList = true :=
      fun path => noFlag path flag (Param.value.inj bound)
    simp [plain, noPath, apply_ite (Prod.mk false)]
  · simp [plain, apply_ite (Prod.mk false)]

theorem Binding.bareButFlag_of_typed {b : Binding} {flag : Bool} (inside : b.bare = .bool flag)
    (typed : ∀ other, b ≠ .bool other) : b.bareButFlag = .typed (.bool flag) .boolean := by
  unfold bareButFlag
  split <;> simp_all

theorem Binding.bareButFlag_of_noFlag {b : Binding} (noFlag : ∀ flag, b.bare ≠ .bool flag) :
    b.bareButFlag = b.bare := by
  unfold bareButFlag
  split <;> simp_all [bare]

/-- A value is a bare boolean or not, and if not, there is a boolean inside or not. -/
theorem Binding.flag_cases (b : Binding) :
    (∃ flag, b = .bool flag) ∨
    (∃ flag, b.bare = .bool flag ∧ ∀ other, b ≠ .bool other) ∨ ∀ flag, b.bare ≠ .bool flag := by
  cases b with
  | bool flag => exact .inl ⟨flag, rfl⟩
  | typed value wire =>
    rw [bare_typed]
    cases inside : value.bare with
    | bool flag => exact .inr (.inl ⟨flag, rfl, by simp⟩)
    | _ => exact .inr (.inr (by simp))
  | _ => exact .inr (.inr (by simp [bare]))

theorem Binding.bare_bareButFlag (b : Binding) : b.bareButFlag.bare = b.bare := by
  rcases b.flag_cases with ⟨flag, rfl⟩ | ⟨flag, inside, typed⟩ | noFlag
  · rfl
  · rw [bareButFlag_of_typed inside typed, inside]
    rfl
  · rw [bareButFlag_of_noFlag noFlag, bare_bare]

/-- A value is a boolean without its needless wrappers exactly if it was one with them. -/
theorem Binding.bareButFlag_eq_bool_iff {b : Binding} {flag : Bool} :
    b.bareButFlag = .bool flag ↔ b = .bool flag := by
  rcases b.flag_cases with ⟨other, rfl⟩ | ⟨inner, inside, typed⟩ | noFlag
  · rfl
  · simp [bareButFlag_of_typed inside typed, typed flag]
  · have other : b ≠ .bool flag := fun same => noFlag flag (by rw [same]; rfl)
    simp [bareButFlag_of_noFlag noFlag, noFlag flag, other]

/-- Values that are the same inside are so without needless wrappers exactly if both are bare
booleans or neither is one. -/
theorem Binding.bareButFlag_eq_iff {a b : Binding} (same : a.bare = b.bare) :
    a.bareButFlag = b.bareButFlag ↔ ((∃ flag, a = .bool flag) ↔ ∃ flag, b = .bool flag) := by
  constructor
  · intro kept
    refine exists_congr fun flag => ?_
    rw [← bareButFlag_eq_bool_iff, kept, bareButFlag_eq_bool_iff]
  · intro alike
    rcases a.flag_cases with ⟨flag, rfl⟩ | ⟨flag, inside, typed⟩ | noFlag
    · obtain ⟨other, rfl⟩ := alike.mp ⟨flag, rfl⟩
      rw [show flag = other from bool.inj same]
    · have typed' (other : Bool) (bare : b = .bool other) : False := by
        obtain ⟨found, form⟩ := alike.mpr ⟨other, bare⟩
        exact typed found form
      rw [bareButFlag_of_typed inside typed, bareButFlag_of_typed (same ▸ inside) typed']
    · rw [bareButFlag_of_noFlag noFlag, bareButFlag_of_noFlag (same ▸ noFlag), same]

theorem Param.bare_compared (column : Term Query) (p : Param) :
    (p.compared column).bare = p.bare := by
  cases p with
  | raw sql => rfl
  | value b =>
    cases path : column.isJsonPath <;>
      simp [compared, bare, mapValues, path, Binding.bare_bareButFlag]

theorem Term.isJsonPath_bare (column : Term Query) :
    column.bare.isJsonPath = column.isJsonPath := by
  cases column <;> rfl

theorem Predicate.bare_plain {column column' : Term Query} {value value' : Param}
    (columns : column.bare = column'.bare) (values : value.bare = value'.bare) (operator : String) :
    (plain column operator value).bare = (plain column' operator value').bare := by
  unfold plain
  split
  · show Predicate.bitwise column.bare operator value.bare
      = .bitwise column'.bare operator value'.bare
    rw [columns, values]
  · show Predicate.basic column.bare operator value.bare
      = .basic column'.bare operator value'.bare
    rw [columns, values]

/-- A comparison is the same test without the wrappers that make no difference to it. -/
theorem Predicate.comparison_compared (column : Term Query) (operator : String) (value : Param) :
    (comparison column operator value).1
        = (comparison column.bare operator (value.compared column)).1 ∧
      (comparison column operator value).2.bare
        = (comparison column.bare operator (value.compared column)).2.bare := by
  have values := Param.bare_compared column value
  cases value with
  | raw sql =>
    rw [comparison_raw, Param.compared, comparison_raw]
    exact ⟨rfl, bare_plain column.bare_bare.symm rfl operator⟩
  | value b =>
    by_cases flagged : column.isJsonPath = true ∧ ∃ flag, b = .bool flag
    · obtain ⟨path, flag, rfl⟩ := flagged
      cases column with
      | raw sql bindings | sub query aliasName => cases path
      | name name =>
        have same : (Param.value (.bool flag)).compared (.name name) = .value (.bool flag) := by
          simp [Param.compared, path, Binding.bareButFlag]
        rw [same]
        exact ⟨rfl, rfl⟩
    · have noFlag (path : column.isJsonPath = true) (flag : Bool) : b ≠ .bool flag :=
        fun same => flagged ⟨path, flag, same⟩
      obtain ⟨c, form, null, noFlag'⟩ : ∃ c, (Param.value b).compared column = .value c ∧
          c.isNull = b.isNull ∧ (column.bare.isJsonPath = true → ∀ flag, c ≠ .bool flag) := by
        refine ⟨_, rfl, ?_, ?_⟩
        · split
          · rw [Binding.isNull, Binding.bare_bareButFlag, Binding.isNull]
          · exact b.isNull_bare
        · intro path flag
          rw [Term.isJsonPath_bare] at path
          rw [if_pos path, ne_eq, Binding.bareButFlag_eq_bool_iff]
          exact noFlag path flag
      rw [form] at values ⊢
      rw [comparison_plain noFlag, comparison_plain noFlag', null]
      split
      · exact ⟨rfl, congrArg Predicate.null column.bare_bare.symm⟩
      · exact ⟨rfl, bare_plain column.bare_bare.symm values.symm operator⟩

/-! ### One step, and all of them -/

namespace Clauses

@[simp] theorem bare_addWhere (c : Clauses Query) (conjunction : Conjunction) (negated : Bool)
    (predicate : Predicate Query) :
    (c.addWhere conjunction negated predicate).bare
      = c.bare.addWhere conjunction negated predicate.bare := by
  simp [bare, addWhere, map, mapValues, Where.map, Where.mapValues, Predicate.bare]

@[simp] theorem bare_addHaving (c : Clauses Query) (conjunction : Conjunction) (negated : Bool)
    (predicate : GroupPredicate Query) :
    (c.addHaving conjunction negated predicate).bare
      = c.bare.addHaving conjunction negated predicate.bare := by
  simp [bare, addHaving, map, mapValues, Having.map, Having.mapValues, GroupPredicate.bare]

@[simp] theorem hasUnions_bare (c : Clauses Query) : c.bare.hasUnions = c.hasUnions := by
  simp [hasUnions, bare, map, mapValues]

@[simp] theorem bare_addOrder (c : Clauses Query) (order : Order Query) :
    (c.addOrder order).bare = c.bare.addOrder order.bare := by
  unfold addOrder
  rw [hasUnions_bare]
  split <;> simp [bare, map, mapValues, Order.bare]

@[simp] theorem bare_addCte (c : Clauses Query) (expression : Cte Query) :
    (c.addCte expression).bare = c.bare.addCte expression.bare := by
  unfold addCte
  rw [hasUnions_bare]
  split <;> simp [bare, map, mapValues, Cte.bare]

@[simp] theorem bare_setLimit (c : Clauses Query) (n : Nat) :
    (c.setLimit n).bare = c.bare.setLimit n := by
  unfold setLimit
  rw [hasUnions_bare]
  split <;> rfl

@[simp] theorem bare_setOffset (c : Clauses Query) (n : Nat) :
    (c.setOffset n).bare = c.bare.setOffset n := by
  unfold setOffset
  rw [hasUnions_bare]
  split <;> rfl

@[simp] theorem bare_setRecursionLimit (c : Clauses Query) (n : Nat) :
    (c.setRecursionLimit n).bare = c.bare.setRecursionLimit n := by
  unfold setRecursionLimit
  rw [hasUnions_bare]
  split <;> rfl

theorem bare_source (c : Clauses Query) (table : Term Query) :
    ({ c with source := some table } : Clauses Query).bare
      = { c.bare with source := some table.bare } :=
  rfl

theorem bare_columns (c : Clauses Query) (columns : List (Term Query)) :
    ({ c with columns := some columns } : Clauses Query).bare
      = { c.bare with columns := some (columns.map Term.bare) } := by
  simp [bare, map, mapValues, Term.bare, Function.comp_def]

theorem bare_moreColumns (c : Clauses Query) (columns : List (Term Query)) :
    ({ c with columns := some (c.columns.getD [] ++ columns) } : Clauses Query).bare
      = { c.bare with columns := some (c.bare.columns.getD [] ++ columns.map Term.bare) } := by
  rw [bare_columns, List.map_append]
  cases found : c.columns <;> simp [bare, map, mapValues, found, Term.bare, Function.comp_def]

theorem bare_aggregate (c : Clauses Query) (function : String) (columns : List (Term Query)) :
    ({ c with aggregate := some { function, columns } } : Clauses Query).bare
      = { c.bare with aggregate := some { function, columns := columns.map Term.bare } } := by
  simp [bare, map, mapValues, Aggregate.map, Aggregate.mapValues, Term.bare, Function.comp_def]

theorem bare_join (c : Clauses Query) (kind : JoinKind) (table : Term Query)
    (clause : Clauses Query) :
    ({ c with joins := c.joins ++ [{ kind, table, clause := .mk clause }] } : Clauses Query).bare
      = { c.bare with
          joins := c.bare.joins
            ++ [{ kind, table := table.bare, clause := .mk clause.bare }] } := by
  simp [bare, map, mapValues, Join.map, Join.mapValues, Term.bare, Query.bare_mk]

theorem bare_groups (c : Clauses Query) (columns : List (Term Query)) :
    ({ c with groups := c.groups ++ columns } : Clauses Query).bare
      = { c.bare with groups := c.bare.groups ++ columns.map Term.bare } := by
  simp [bare, map, mapValues, Term.bare, Function.comp_def]

theorem bare_unions (c : Clauses Query) (query : Query) (all : Bool) :
    ({ c with unions := c.unions ++ [{ query, all }] } : Clauses Query).bare
      = { c.bare with unions := c.bare.unions ++ [{ query := query.bare, all }] } := by
  simp [bare, map, mapValues, UnionMember.map]

/-- What tells whether there are conditions is left. -/
theorem isEmpty_of_bare {c d : Clauses Query} (same : c.bare = d.bare) :
    c.wheres.isEmpty = d.wheres.isEmpty ∧ c.havings.isEmpty = d.havings.isEmpty := by
  have wheres := congrArg (fun c : Clauses Query => c.wheres.isEmpty) same
  have havings := congrArg (fun c : Clauses Query => c.havings.isEmpty) same
  simp only [bare, map, mapValues, List.isEmpty_map] at wheres havings
  exact ⟨wheres, havings⟩

variable {c d : Clauses Query} (same : c.bare = d.bare)
include same

theorem bare_addWhere_congr {p r : Predicate Query} (test : p.bare = r.bare)
    (conjunction : Conjunction) (negated : Bool) :
    (c.addWhere conjunction negated p).bare = (d.addWhere conjunction negated r).bare := by
  rw [bare_addWhere, bare_addWhere, same, test]

theorem bare_addHaving_congr {p r : GroupPredicate Query} (test : p.bare = r.bare)
    (conjunction : Conjunction) (negated : Bool) :
    (c.addHaving conjunction negated p).bare = (d.addHaving conjunction negated r).bare := by
  rw [bare_addHaving, bare_addHaving, same, test]

theorem bare_addComparison (conjunction : Conjunction) (column : Term Query) (operator : String)
    (value : Param) :
    (c.addComparison conjunction column operator value).bare
      = (d.addComparison conjunction column.bare operator (value.compared column)).bare := by
  obtain ⟨negated, predicate⟩ :=
    Predicate.comparison_compared column (Text.lowerCase operator) value
  simp only [addComparison, negated]
  exact bare_addWhere_congr same predicate _ _

end Clauses

theorem Predicate.bare_bare (p : Predicate Query) : p.bare.bare = p.bare := by
  simp only [bare, map_mapValues, map_map, mapValues_mapValues, Binding.bare_bare, Query.bare_bare]

theorem GroupPredicate.bare_bare (p : GroupPredicate Query) : p.bare.bare = p.bare := by
  simp only [bare, map_mapValues, map_map, mapValues_mapValues, Binding.bare_bare, Query.bare_bare]

theorem Predicate.bare_nested {c d : Clauses Query} (same : c.bare = d.bare) :
    (nested (.mk c)).bare = (nested (.mk d)).bare := by
  simp only [bare, map, mapValues, Query.bare_mk, same]

theorem Predicate.bare_rowValues (columns : List (Term Query)) (operator : String)
    (values : List Param) :
    (rowValues columns operator values).bare
      = (rowValues (columns.map Term.bare) operator (values.map Param.bare)).bare := by
  simp [bare, map, mapValues, Term.bare, Param.bare, Query.bare_bare]

theorem Predicate.bare_fulltext (columns : List (Term Query)) (value : Param)
    (options : FulltextOptions) :
    (fulltext columns value options).bare
      = (fulltext (columns.map Term.bare) value.bare options).bare := by
  simp [bare, map, mapValues, Term.bare, Param.bare, Query.bare_bare]

theorem GroupPredicate.bare_nested {c d : Clauses Query} (same : c.bare = d.bare) :
    (nested (.mk c)).bare = (nested (.mk d)).bare := by
  simp only [bare, map, mapValues, Query.bare_mk, same]

theorem GroupPredicate.bare_comparison (column : Term Query) (operator : String)
    (value : Param) :
    (comparison column operator value).bare
      = (comparison column.bare operator value.bare).bare := by
  unfold comparison
  split <;> simp [bare, map, mapValues, Term.bare, Param.bare, Query.bare_bare]

section Steps

open Clauses

mutual

/-- A step without its wrappers, on clauses that are the same without theirs, leaves the same. -/
theorem Step.bare_apply {c d : Clauses Query} (same : c.bare = d.bare) :
    ∀ s : Step, (s.apply c).bare = (s.unwrapped.apply d).bare
  | .source table => by simp only [apply, unwrapped, bare_source, same, Term.bare_bare]
  | .select columns => by
    simp only [apply, unwrapped, bare_columns, same, Term.bare_bare_list]
  | .addSelect columns => by
    simp only [apply, unwrapped, bare_moreColumns, same, Term.bare_bare_list]
  | .distinct rows => congrArg (fun c : Clauses Query => { c with distinct := rows }) same
  | .aggregate function columns => by
    simp only [apply, unwrapped, bare_aggregate, same, Term.bare_bare_list]
  | .indexHint kind index =>
    congrArg (fun c : Clauses Query => { c with indexHint := some { kind, index } }) same
  | .join kind table steps => by
    have clause := Step.bare_applyAll (c := {}) (d := {}) rfl steps
    simp only [apply, unwrapped, bare_join, same, Term.bare_bare, clause]
  | .groupBy columns => by
    simp only [apply, unwrapped, bare_groups, same, Term.bare_bare_list]
  | .orderBy order => by
    simp only [apply, unwrapped, bare_addOrder, same, Order.bare_bare]
  | .reorder =>
    congrArg (fun c : Clauses Query => { c with orders := [], unionOrders := [] }) same
  | .limit n => by simp only [apply, unwrapped, bare_setLimit, same]
  | .offset n => by simp only [apply, unwrapped, bare_setOffset, same]
  | .page number size => by simp only [apply, unwrapped, bare_setLimit, bare_setOffset, same]
  | .union query all => by simp only [apply, unwrapped, bare_unions, same, Query.bare_bare]
  | .cte expression => by simp only [apply, unwrapped, bare_addCte, same, Cte.bare_bare]
  | .recursionLimit n => by simp only [apply, unwrapped, bare_setRecursionLimit, same]
  | .lock mode => congrArg (fun c : Clauses Query => { c with lock := some mode }) same
  | .where conjunction column operator value =>
    bare_addComparison same conjunction column operator value
  | .whereNot column operator value =>
    bare_addWhere_congr same
      (Predicate.bare_nested (bare_addComparison rfl .and column operator value)) .and true
  | .whereRaw conjunction sql bindings =>
    bare_addWhere_congr same (Predicate.bare_bare (.raw sql bindings)).symm conjunction false
  | .whereExpression sql => bare_addWhere_congr same rfl .and false
  | .whereIn conjunction negated column values =>
    bare_addWhere_congr same (Predicate.bare_bare (.among column values)).symm conjunction negated
  | .whereIntegerIn negated column values =>
    bare_addWhere_congr same (Predicate.bare_bare (.amongIntegers column values)).symm .and negated
  | .whereNull conjunction negated column =>
    bare_addWhere_congr same (Predicate.bare_bare (.null column)).symm conjunction negated
  | .whereBetween negated column low high =>
    bare_addWhere_congr same (Predicate.bare_bare (.between column low high)).symm .and negated
  | .whereBetweenColumns column low high =>
    bare_addWhere_congr same (Predicate.bare_bare (.betweenColumns column low high)).symm .and false
  | .whereDate part column operator value =>
    bare_addWhere_congr same (Predicate.bare_bare (.datePart part column _ value)).symm .and false
  | .whereColumn conjunction first operator second =>
    bare_addWhere_congr same (Predicate.bare_bare (.compareColumns first _ second)).symm
      conjunction false
  | .whereNested conjunction negated steps => by
    have inner := Step.bare_applyAll (c := {}) (d := {}) rfl steps
    simp only [apply, unwrapped, (isEmpty_of_bare inner).1]
    split
    · exact same
    · exact bare_addWhere_congr same (Predicate.bare_nested inner) conjunction negated
  | .whereSub column operator query =>
    bare_addWhere_congr same (Predicate.bare_bare (.sub column _ query)).symm .and false
  | .whereExists conjunction negated query =>
    bare_addWhere_congr same (Predicate.bare_bare (.hasRows query)).symm conjunction negated
  | .whereRowValues columns operator values =>
    bare_addWhere_congr same (Predicate.bare_rowValues columns _ values) .and false
  | .whereJsonContains negated column document => bare_addWhere_congr same rfl .and negated
  | .whereJsonContainsKey negated column => bare_addWhere_congr same rfl .and negated
  | .whereJsonLength column operator value =>
    bare_addWhere_congr same (Predicate.bare_bare (.jsonLength column _ value)).symm .and false
  | .whereFulltext columns value options =>
    bare_addWhere_congr same (Predicate.bare_fulltext columns value options) .and false
  | .having conjunction column operator value =>
    bare_addHaving_congr same (GroupPredicate.bare_comparison column _ value) conjunction false
  | .havingRaw sql bindings =>
    bare_addHaving_congr same (GroupPredicate.bare_bare (.raw sql bindings)).symm .and false
  | .havingExpression sql => bare_addHaving_congr same rfl .and false
  | .havingBetween column low high =>
    bare_addHaving_congr same (GroupPredicate.bare_bare (.between column low high)).symm .and false
  | .havingNull negated column =>
    bare_addHaving_congr same (GroupPredicate.bare_bare (.null column)).symm .and negated
  | .havingNested steps => by
    have inner := Step.bare_applyAll (c := {}) (d := {}) rfl steps
    simp only [apply, unwrapped, (isEmpty_of_bare inner).2]
    split
    · exact same
    · exact bare_addHaving_congr same (GroupPredicate.bare_nested inner) .and false

theorem Step.bare_applyAll {c d : Clauses Query} (same : c.bare = d.bare) :
    ∀ steps : List Step,
      (Step.applyAll c steps).bare = (Step.applyAll d (Step.unwrappedAll steps)).bare
  | [] => same
  | step :: steps => Step.bare_applyAll (Step.bare_apply same step) steps

end

end Steps

/-- Two queries that are built by steps which are the same without wrappers. -/
inductive Query.BuiltAlike : Query → Query → Prop
  | empty : Query.empty.BuiltAlike Query.empty
  | step {q r : Query} (before : q.BuiltAlike r) (s t : Step) (same : s.unwrapped = t.unwrapped) :
      (q.apply s).BuiltAlike (r.apply t)

/-- Queries that are built alike are the same without wrappers. -/
theorem Query.BuiltAlike.bare_eq {q r : Query} (h : q.BuiltAlike r) : q.bare = r.bare := by
  induction h with
  | empty => rfl
  | @step q r _ s t same before =>
    obtain ⟨c⟩ := q
    obtain ⟨d⟩ := r
    rw [bare_mk, bare_mk, mk.injEq] at before
    show (mk (s.apply c)).bare = (mk (t.apply d)).bare
    rw [bare_mk, bare_mk, Step.bare_apply before s, same, ← Step.bare_apply rfl t]

theorem Query.BuiltAlike.steps {q r : Query} (h : q.BuiltAlike r) {ss ts : List Step}
    (same : Step.unwrappedAll ss = Step.unwrappedAll ts) :
    (Query.mk (Step.applyAll q.clauses ss)).BuiltAlike (.mk (Step.applyAll r.clauses ts)) := by
  induction ss generalizing q r ts with
  | nil =>
    cases ts with
    | nil =>
      cases q
      cases r
      exact h
    | cons t ts => cases same
  | cons s ss ih =>
    cases ts with
    | nil => cases same
    | cons t ts =>
      obtain ⟨first, rest⟩ := List.cons.inj same
      exact ih (.step h s t first) rest

theorem builtAlike_build {ss ts : List Step}
    (same : Step.unwrappedAll ss = Step.unwrappedAll ts) :
    (Query.build ss).BuiltAlike (Query.build ts) :=
  Query.BuiltAlike.empty.steps same

end SqlCompiler
