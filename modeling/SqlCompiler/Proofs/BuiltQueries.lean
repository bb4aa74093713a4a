import SqlCompiler.Proofs.Nesting
import SqlCompiler.Query.Step
/-!
# Queries that are built

Whatever the steps of a build and whatever the queries handed to them, the query that comes out has
its clauses where its parts look for them: nothing belongs to a union that is not there, no group
is empty, nulls and bits are tested by predicates of their own. `Clauses.Normal` is this invariant;
a step keeps it, and so does a whole build. Once a query has union members, later steps leave its
first member as it is.
-/

namespace SqlCompiler

mutual

/-- The queries handed to a step, those handed to the steps inside it included. -/
def Step.given : Step → List Query
  | .source table => table.queries
  | .select columns | .addSelect columns | .aggregate _ columns | .groupBy columns =>
    columns.flatMap Term.queries
  | .join _ table clause => table.queries ++ Step.givenAll clause
  | .orderBy order => order.queries
  | .union query _ | .whereExists _ _ query => [query]
  | .cte expression => expression.queries
  | .where _ column _ _ | .whereNot column _ _ | .whereIn _ _ column _
  | .whereIntegerIn _ column _ | .whereNull _ _ column | .whereBetween _ column _ _
  | .whereDate _ column _ _ | .having _ column _ _ | .havingBetween column _ _
  | .havingNull _ column => column.queries
  | .whereBetweenColumns column low high => column.queries ++ low.queries ++ high.queries
  | .whereColumn _ first _ second => first.queries ++ second.queries
  | .whereNested _ _ steps | .havingNested steps => Step.givenAll steps
  | .whereSub column _ query => column.queries ++ [query]
  | .whereRowValues columns _ _ | .whereFulltext columns _ _ => columns.flatMap Term.queries
  | .distinct _ | .indexHint _ _ | .reorder | .limit _ | .offset _ | .page _ _
  | .recursionLimit _ | .lock _ | .whereRaw _ _ _ | .whereExpression _ | .whereJsonContains _ _ _
  | .whereJsonContainsKey _ _ | .whereJsonLength _ _ _ | .havingRaw _ _ | .havingExpression _ => []

def Step.givenAll : List Step → List Query
  | [] => []
  | step :: steps => step.given ++ Step.givenAll steps

end

/-- A query that comes from the empty one by steps, to which only such queries were handed. -/
inductive Query.Built : Query → Prop
  | empty : Query.empty.Built
  | step {q : Query} (before : q.Built) (step : Step) (given : ∀ r ∈ step.given, r.Built) :
      (q.apply step).Built

/-- A null value is not compared for equality, a comparison of bits is one as such, and a group
has conditions. -/
def Predicate.Normal : Predicate Query → Prop
  | .basic _ operator value =>
    (∀ b, value = .value b → b.bare = .null → operator ∉ ["=", "!=", "<>"]) ∧
      operator ∉ bitwiseOperators
  | .bitwise _ operator _ => operator ∈ bitwiseOperators
  | .nested query => query.clauses.wheres ≠ []
  | _ => True

def GroupPredicate.Normal : GroupPredicate Query → Prop
  | .basic _ operator _ => operator ∉ bitwiseOperators
  | .bitwise _ operator _ => operator ∈ bitwiseOperators
  | .nested query => query.clauses.havings ≠ []
  | _ => True

structure Clauses.Normal (c : Clauses Query) : Prop where
  unionOrders : c.unions = [] → c.unionOrders = []
  unionLimit : c.unions = [] → c.unionLimit = none
  unionOffset : c.unions = [] → c.unionOffset = none
  unionCtes : c.unions = [] → c.unionCtes = []
  unionRecursionLimit : c.unions = [] → c.unionRecursionLimit = none
  wheres : ∀ w ∈ c.wheres, w.predicate.Normal
  havings : ∀ h ∈ c.havings, h.predicate.Normal

/-- Normal clauses over queries that are normal everywhere. -/
structure Clauses.Settled (c : Clauses Query) : Prop where
  own : c.Normal
  inside : c.Within (Query.Everywhere Clauses.Normal)

theorem Clauses.Settled.everywhere {c : Clauses Query} (h : c.Settled) :
    (Query.mk c).Everywhere Clauses.Normal :=
  .mk h.own h.inside.queries

theorem settled_of_everywhere {c : Clauses Query}
    (h : (Query.mk c).Everywhere Clauses.Normal) : c.Settled := by
  obtain @⟨_, own, inside⟩ := h
  exact ⟨own, Clauses.within inside⟩

theorem settled_empty : ({} : Clauses Query).Settled := by
  refine ⟨?_, Clauses.within (by simp [Clauses.queries])⟩
  constructor <;> simp

/-! ### Steps -/

theorem normal_plain {column : Term Query} {operator : String} {value : Param}
    {test : Bool × Predicate Query}
    (plain : test = if operator ∈ bitwiseOperators then (false, .bitwise column operator value)
      else (false, .basic column operator value))
    (noNull : ∀ b, value = .value b → b.bare = .null → operator ∉ ["=", "!=", "<>"]) :
    test.2.Normal ∧ test.2.queries = column.queries := by
  subst plain
  split
  · next bits => exact ⟨bits, rfl⟩
  · next noBits => exact ⟨⟨noNull, noBits⟩, rfl⟩

theorem normal_comparison (column : Term Query) (operator : String) (value : Param) :
    (Predicate.comparison column operator value).2.Normal ∧
      (Predicate.comparison column operator value).2.queries = column.queries := by
  unfold Predicate.comparison
  cases value with
  | raw sql => cases column <;> exact normal_plain rfl (by simp)
  | value b =>
    simp only
    split
    · exact ⟨trivial, rfl⟩
    · next bound =>
      have noNull (other : Binding) (same : Param.value b = .value other)
          (null : other.bare = .null) : operator ∉ ["=", "!=", "<>"] := by
        cases same
        intro equality
        apply bound
        simpa [Binding.isNull, null, isEquality] using equality
      split
      · split
        · exact ⟨trivial, rfl⟩
        · exact normal_plain rfl noNull
      · exact normal_plain rfl noNull

theorem normal_groupComparison (column : Term Query) (operator : String) (value : Param) :
    (GroupPredicate.comparison column operator value).Normal ∧
      (GroupPredicate.comparison column operator value).queries = column.queries := by
  unfold GroupPredicate.comparison
  split
  · next bits => exact ⟨bits, rfl⟩
  · next noBits => exact ⟨noBits, rfl⟩

theorem forall_mem_concat {α : Type} {P : α → Prop} {items : List α} {last : α}
    (h : ∀ item ∈ items, P item) (own : P last) : ∀ item ∈ items ++ [last], P item :=
  List.forall_mem_append.mpr ⟨h, List.forall_mem_singleton.mpr own⟩

section Adding

variable {c : Clauses Query} (h : c.Settled)
include h

theorem settled_addWhere {conjunction : Conjunction} {negated : Bool} {predicate : Predicate Query}
    (inside : ∀ q ∈ predicate.queries, q.Everywhere Clauses.Normal) (normal : predicate.Normal) :
    (c.addWhere conjunction negated predicate).Settled := by
  refine ⟨{ h.own with wheres := ?_ }, { h.inside with wheres := ?_ }⟩
  · exact forall_mem_concat h.own.wheres normal
  · exact forall_mem_concat h.inside.wheres inside

theorem settled_addComparison {column : Term Query}
    (inside : ∀ q ∈ column.queries, q.Everywhere Clauses.Normal) (conjunction : Conjunction)
    (operator : String) (value : Param) :
    (c.addComparison conjunction column operator value).Settled := by
  obtain ⟨normal, within⟩ := normal_comparison column (Text.lowerCase operator) value
  exact settled_addWhere h (within ▸ inside) normal

theorem settled_addHaving {conjunction : Conjunction} {negated : Bool}
    {predicate : GroupPredicate Query}
    (inside : ∀ q ∈ predicate.queries, q.Everywhere Clauses.Normal) (normal : predicate.Normal) :
    (c.addHaving conjunction negated predicate).Settled := by
  refine ⟨{ h.own with havings := ?_ }, { h.inside with havings := ?_ }⟩
  · exact forall_mem_concat h.own.havings normal
  · exact forall_mem_concat h.inside.havings inside

omit h in
/-- What belongs to a union is kept from queries without one. -/
theorem absurd_of_hasUnions {P : Prop} (united : c.hasUnions = true) (none : c.unions = []) :
    P := by
  simp [Clauses.hasUnions, none] at united

theorem settled_addOrder {order : Order Query}
    (inside : ∀ q ∈ order.queries, q.Everywhere Clauses.Normal) : (c.addOrder order).Settled := by
  unfold Clauses.addOrder
  split
  · next united =>
    refine ⟨{ h.own with unionOrders := fun none => absurd_of_hasUnions united none },
      { h.inside with unionOrders := ?_ }⟩
    exact forall_mem_concat h.inside.unionOrders inside
  · refine ⟨{ h.own with }, { h.inside with orders := ?_ }⟩
    exact forall_mem_concat h.inside.orders inside

theorem settled_addCte {expression : Cte Query}
    (inside : ∀ q ∈ expression.queries, q.Everywhere Clauses.Normal) :
    (c.addCte expression).Settled := by
  unfold Clauses.addCte
  split
  · next united =>
    refine ⟨{ h.own with unionCtes := fun none => absurd_of_hasUnions united none },
      { h.inside with unionCtes := ?_ }⟩
    exact forall_mem_concat h.inside.unionCtes inside
  · refine ⟨{ h.own with }, { h.inside with ctes := ?_ }⟩
    exact forall_mem_concat h.inside.ctes inside

theorem settled_setLimit (n : Nat) : (c.setLimit n).Settled := by
  unfold Clauses.setLimit
  split
  · next united =>
    exact ⟨{ h.own with unionLimit := fun none => absurd_of_hasUnions united none },
      { h.inside with }⟩
  · exact ⟨{ h.own with }, { h.inside with }⟩

theorem settled_setOffset (n : Nat) : (c.setOffset n).Settled := by
  unfold Clauses.setOffset
  split
  · next united =>
    exact ⟨{ h.own with unionOffset := fun none => absurd_of_hasUnions united none },
      { h.inside with }⟩
  · exact ⟨{ h.own with }, { h.inside with }⟩

theorem settled_setRecursionLimit (n : Nat) : (c.setRecursionLimit n).Settled := by
  unfold Clauses.setRecursionLimit
  split
  · next united =>
    exact ⟨{ h.own with unionRecursionLimit := fun none => absurd_of_hasUnions united none },
      { h.inside with }⟩
  · exact ⟨{ h.own with }, { h.inside with }⟩

theorem settled_union {query : Query} (inside : query.Everywhere Clauses.Normal) (all : Bool) :
    ({ c with unions := c.unions ++ [⟨query, all⟩] } : Clauses Query).Settled := by
  have united {P : Prop} (none : c.unions ++ [⟨query, all⟩] = []) : P := by simp at none
  refine ⟨{ h.own with
    unionOrders := united, unionLimit := united, unionOffset := united, unionCtes := united,
    unionRecursionLimit := united }, { h.inside with unions := ?_ }⟩
  exact forall_mem_concat h.inside.unions inside

end Adding

mutual

/-- A step to which normal queries are handed keeps the invariant; so do the steps inside it. -/
theorem Step.settled_apply {c : Clauses Query} (h : c.Settled) : ∀ step : Step,
    (∀ q ∈ step.given, q.Everywhere Clauses.Normal) → (step.apply c).Settled
  | .source table, given =>
    ⟨{ h.own with }, { h.inside with source := fun t same => by cases same; exact given }⟩
  | .select columns, given =>
    ⟨{ h.own with }, { h.inside with columns := fun t same => by cases same; exact given }⟩
  | .addSelect columns, given => by
    refine ⟨{ h.own with }, { h.inside with columns := ?_ }⟩
    rintro _ ⟨⟩
    rw [List.flatMap_append]
    refine List.forall_mem_append.mpr ⟨?_, given⟩
    cases chosen : c.columns with
    | none => simp
    | some before => exact h.inside.columns before chosen
  | .distinct rows, given => ⟨{ h.own with }, { h.inside with }⟩
  | .aggregate function columns, given =>
    ⟨{ h.own with }, { h.inside with aggregate := fun t same => by cases same; exact given }⟩
  | .indexHint kind index, given => ⟨{ h.own with }, { h.inside with }⟩
  | .join kind table clause, given => by
    obtain ⟨outer, inner⟩ := List.forall_mem_append.mp given
    have built := (Step.settled_applyAll settled_empty clause inner).everywhere
    refine ⟨{ h.own with }, { h.inside with joins := ?_ }⟩
    refine forall_mem_concat h.inside.joins ?_
    exact forall_mem_concat outer built
  | .groupBy columns, given => by
    have all := List.forall_mem_append.mpr ⟨h.inside.groups, given⟩
    refine ⟨{ h.own with }, { h.inside with groups := ?_ }⟩
    simpa only [Step.apply, Step.given, List.flatMap_append] using all
  | .orderBy order, given => settled_addOrder h given
  | .reorder, _ =>
    ⟨{ h.own with unionOrders := fun _ => rfl },
      { h.inside with
        orders := List.forall_mem_nil _
        unionOrders := List.forall_mem_nil _ }⟩
  | .limit n, given => settled_setLimit h n
  | .offset n, given => settled_setOffset h n
  | .page number size, given => settled_setLimit (settled_setOffset h _) size
  | .union query all, given => settled_union h (given query List.mem_cons_self) all
  | .cte expression, given => settled_addCte h given
  | .recursionLimit n, given => settled_setRecursionLimit h n
  | .lock mode, given => ⟨{ h.own with }, { h.inside with }⟩
  | .where conjunction column operator value, given =>
    settled_addComparison h given conjunction operator value
  | .whereNot column operator value, given => by
    have built := (settled_addComparison settled_empty given .and operator value).everywhere
    refine settled_addWhere h (List.forall_mem_singleton.mpr built) ?_
    simp [Predicate.Normal, Clauses.addComparison, Clauses.addWhere, Query.clauses]
  | .whereRaw conjunction sql bindings, given => settled_addWhere h given trivial
  | .whereExpression sql, given => settled_addWhere h given trivial
  | .whereIn conjunction negated column values, given => settled_addWhere h given trivial
  | .whereIntegerIn negated column values, given => settled_addWhere h given trivial
  | .whereNull conjunction negated column, given => settled_addWhere h given trivial
  | .whereBetween negated column low high, given => settled_addWhere h given trivial
  | .whereBetweenColumns column low high, given => settled_addWhere h given trivial
  | .whereDate part column operator value, given => settled_addWhere h given trivial
  | .whereColumn conjunction first operator second, given =>
    settled_addWhere h given trivial
  | .whereNested conjunction negated steps, given => by
    have built := (Step.settled_applyAll settled_empty steps given).everywhere
    simp only [Step.apply]
    split
    · exact h
    · next some =>
      refine settled_addWhere h (List.forall_mem_singleton.mpr built) ?_
      simpa [Predicate.Normal, Query.clauses] using some
  | .whereSub column operator query, given => settled_addWhere h given trivial
  | .whereExists conjunction negated query, given => settled_addWhere h given trivial
  | .whereRowValues columns operator values, given => settled_addWhere h given trivial
  | .whereJsonContains negated column document, given => settled_addWhere h given trivial
  | .whereJsonContainsKey negated column, given => settled_addWhere h given trivial
  | .whereJsonLength column operator value, given => settled_addWhere h given trivial
  | .whereFulltext columns value options, given => settled_addWhere h given trivial
  | .having conjunction column operator value, given => by
    obtain ⟨normal, within⟩ := normal_groupComparison column (Text.lowerCase operator) value
    exact settled_addHaving h (within ▸ given) normal
  | .havingRaw sql bindings, given => settled_addHaving h given trivial
  | .havingExpression sql, given => settled_addHaving h given trivial
  | .havingBetween column low high, given => settled_addHaving h given trivial
  | .havingNull negated column, given => settled_addHaving h given trivial
  | .havingNested steps, given => by
    have built := (Step.settled_applyAll settled_empty steps given).everywhere
    simp only [Step.apply]
    split
    · exact h
    · next some =>
      refine settled_addHaving h (List.forall_mem_singleton.mpr built) ?_
      simpa [GroupPredicate.Normal, Query.clauses] using some

theorem Step.settled_applyAll {c : Clauses Query} (h : c.Settled) : ∀ steps : List Step,
    (∀ q ∈ Step.givenAll steps, q.Everywhere Clauses.Normal) → (Step.applyAll c steps).Settled
  | [], _ => h
  | step :: steps, given => by
    obtain ⟨first, rest⟩ := List.forall_mem_append.mp given
    exact Step.settled_applyAll (Step.settled_apply h step first) steps rest

end

/-- Whether a step drops the orders that were there. -/
def Step.isReorder : Step → Bool
  | .reorder => true
  | _ => false

/-- What belongs to the first member of a union is in `d` as it was in `c`, but that a reorder
drops its orders. -/
structure Clauses.KeepsFirst (c d : Clauses Query) (reordered : Bool) : Prop where
  united : d.hasUnions = true
  orders : d.orders = if reordered then [] else c.orders
  limit : d.limit = c.limit
  offset : d.offset = c.offset
  ctes : d.ctes = c.ctes
  recursionLimit : d.recursionLimit = c.recursionLimit

theorem keepsFirst_refl {c : Clauses Query} (united : c.hasUnions = true) :
    c.KeepsFirst c false :=
  ⟨united, rfl, rfl, rfl, rfl, rfl⟩

theorem Clauses.KeepsFirst.trans {c d e : Clauses Query} {early late : Bool}
    (first : c.KeepsFirst d early) (second : d.KeepsFirst e late) :
    c.KeepsFirst e (early || late) where
  united := second.united
  orders := by
    rw [second.orders, first.orders]
    cases early <;> cases late <;> rfl
  limit := second.limit.trans first.limit
  offset := second.offset.trans first.offset
  ctes := second.ctes.trans first.ctes
  recursionLimit := second.recursionLimit.trans first.recursionLimit

theorem Step.keepsFirst {c : Clauses Query} (united : c.hasUnions = true) (step : Step) :
    c.KeepsFirst (step.apply c) step.isReorder := by
  have same := keepsFirst_refl united
  cases step with
  | reorder => exact { same with orders := rfl }
  | union query all => exact { same with united := by simp [Step.apply, Clauses.hasUnions] }
  | orderBy | limit | offset | page | cte | recursionLimit =>
    constructor <;>
      simp_all [Step.apply, Step.isReorder, Clauses.addOrder, Clauses.setLimit, Clauses.setOffset,
        Clauses.addCte, Clauses.setRecursionLimit, Clauses.hasUnions]
  | whereNested conjunction negated steps =>
    simp only [Step.apply]
    split
    · exact same
    · exact { same with }
  | havingNested steps =>
    simp only [Step.apply]
    split
    · exact same
    · exact { same with }
  | _ => exact { same with }

theorem Step.keepsFirst_applyAll {c : Clauses Query} (united : c.hasUnions = true)
    (later : List Step) : c.KeepsFirst (Step.applyAll c later) (later.any Step.isReorder) := by
  induction later generalizing c with
  | nil => exact keepsFirst_refl united
  | cons step later ih =>
    have first := step.keepsFirst united
    exact first.trans (ih first.united)

/-! ### Built queries -/

theorem Query.Built.steps {q : Query} (h : q.Built) (steps : List Step)
    (given : ∀ r ∈ Step.givenAll steps, r.Built) :
    (Query.mk (Step.applyAll q.clauses steps)).Built := by
  induction steps generalizing q with
  | nil =>
    cases q
    exact h
  | cons step steps ih =>
    obtain ⟨first, rest⟩ := List.forall_mem_append.mp given
    exact ih (.step h step first) rest

theorem built_build {steps : List Step} (given : ∀ r ∈ Step.givenAll steps, r.Built) :
    (Query.build steps).Built :=
  Query.Built.empty.steps steps given

/-- Every step keeps a query normal at every level, if those that are given to it are. -/
theorem Query.Built.everywhere_normal {q : Query} (h : q.Built) : q.Everywhere Clauses.Normal := by
  induction h with
  | empty => exact settled_empty.everywhere
  | @step q _ step _ before given =>
    cases q
    exact (Step.settled_apply (settled_of_everywhere before) step given).everywhere

/-- A built query is normal at every level, and once it has union members no later step changes
what belongs to the first one, but that a reorder drops its orders. -/
theorem Query.Built.normal_everywhere {q : Query} (h : q.Built) :
    q.Everywhere Clauses.Normal ∧ ∀ later : List Step, q.clauses.hasUnions = true →
      q.clauses.KeepsFirst (Step.applyAll q.clauses later) (later.any Step.isReorder) :=
  ⟨h.everywhere_normal, fun later united => Step.keepsFirst_applyAll united later⟩

/-- A group of conditions on a null and on bits, an order, and a union with a limit. -/
def usersAndArchive : Query :=
  .build [.source (.name "users"),
    .whereNested .and true
      [.where .and (.name "deleted_at") "=" (.value (.typed .null .date)),
        .where .or (.name "flags") "&" (.value (.int 4))],
    .orderBy (.byColumn (.name "name") .asc),
    .union (.build [.source (.name "archive")]) true,
    .limit 3]

/-- An offset goes to the whole union, a reorder drops the orders of its first member too. -/
theorem usersAndArchive_normal : usersAndArchive.Built ∧
    usersAndArchive.clauses.hasUnions = true ∧ usersAndArchive.Everywhere Clauses.Normal ∧
    usersAndArchive.clauses.KeepsFirst
      (Step.applyAll usersAndArchive.clauses [.offset 2, .reorder]) true := by
  have archive : (Query.build [.source (.name "archive")]).Built :=
    built_build fun _ member => nomatch member
  have built : usersAndArchive.Built := built_build fun r member => by
    obtain rfl : r = Query.build [.source (.name "archive")] := by
      simpa [Step.givenAll, Step.given, Term.queries, Order.queries] using member
    exact archive
  have united : usersAndArchive.clauses.hasUnions = true := rfl
  obtain ⟨normal, kept⟩ := built.normal_everywhere
  exact ⟨built, united, normal, kept [.offset 2, .reorder] united⟩

end SqlCompiler
