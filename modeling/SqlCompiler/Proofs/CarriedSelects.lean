import SqlCompiler.Proofs.CarriedClauses
/-!
# What select statements carry

The parts of a select statement stand in the order in which the categories of bindings are
flattened, whatever the dialect. By induction on a counted query its select statement carries what
the query binds, with everything nested in it.
-/

namespace SqlCompiler

namespace Engine

variable {e : Engine}

/-- What a part of a select statement binds. -/
def componentBindings (c : Clauses BindingLists) : Component → List Binding
  | .aggregate => (c.aggregate.map (aggregateBindings c.distinct)).getD []
  | .columns => if c.aggregate.isNone then (c.columns.getD []).flatMap Term.bindings else []
  | .source => (c.source.map Term.bindings).getD []
  | .joins => c.joins.flatMap Join.bindings
  | .wheres => c.wheres.flatMap Where.bindings
  | .groups => c.groups.flatMap Term.bindings
  | .havings => c.havings.flatMap Having.bindings
  | .orders => c.orders.flatMap Order.bindings
  | .indexHint | .limit | .offset | .lock => []

theorem componentSql_carries {c : Clauses Query} (h : c.Carried e) (part : Component) :
    Yields (Sql.Carries (componentBindings (c.map Query.bindingLists) part))
      (e.componentSql (c.map (Query.compiled e)) part) := by
  cases part with
  | aggregate =>
    simp only [componentSql, componentBindings, Clauses.map]
    cases head : c.aggregate with
    | none => exact yields_ok.mpr Sql.carries_empty
    | some a =>
      exact aggregateSql_carries _ (h.counted.aggregate a head) (h.within.aggregate a head)
  | columns =>
    have columns := columnsSql_carries h
    simp only [componentSql, componentBindings]
    cases none : c.aggregate with
    | none => simpa [Clauses.map, none] using columns
    | some a => simpa [Clauses.map, none] using Sql.carries_empty
  | source =>
    simp only [componentSql, componentBindings, Clauses.map]
    cases source : c.source with
    | none => exact yields_ok.mpr Sql.carries_empty
    | some t => exact sourceSql_carries _ (h.counted.source t source) (h.within.source t source)
  | indexHint =>
    simp only [componentSql, componentBindings, Clauses.map]
    cases c.indexHint with
    | none => exact yields_ok.mpr Sql.carries_empty
    | some hint => exact indexHintSql_carries hint
  | joins => exact joinsSql_carries h.counted.joins h.within.joins
  | wheres => exact wheresSql_carries h.counted.wheres h.within.wheres
  | groups => exact groupsSql_carries h.counted.groups h.within.groups
  | havings => exact havingsSql_carries h.counted.havings h.within.havings
  | orders => exact ordersSql_carries h.counted.orders h.within.orders _ _
  | limit => exact yields_ok.mpr (Sql.carries_ofText _)
  | offset => exact yields_ok.mpr (Sql.carries_ofText _)
  | lock =>
    simp only [componentSql, componentBindings, Clauses.map]
    cases c.lock with
    | none => exact yields_ok.mpr Sql.carries_empty
    | some lock => exact yields_ok.mpr (Sql.carries_ofText _)

/-- The bindings of a single select, without with-expressions and unions. -/
def bodyBindings (c : Clauses BindingLists) : List Binding :=
  componentBindings c .aggregate ++ componentBindings c .columns ++ c.bindingLists.source
    ++ c.bindingLists.join ++ c.bindingLists.wheres ++ c.bindingLists.groups
    ++ c.bindingLists.havings ++ c.bindingLists.orders

theorem components_carries {c : Clauses Query} (h : c.Carried e) :
    Yields (Sql.Carries (bodyBindings (c.map Query.bindingLists)))
      (e.components (c.map (Query.compiled e))) := by
  have order : e.selectComponents.flatMap (componentBindings (c.map Query.bindingLists))
      = bodyBindings (c.map Query.bindingLists) := by
    unfold selectComponents
    split <;> simp [componentBindings, bodyBindings, Clauses.bindingLists]
  have parts : CarriesAll (e.selectComponents.map (e.componentSql (c.map (Query.compiled e))))
      (e.selectComponents.flatMap (componentBindings (c.map Query.bindingLists))) :=
    carriesAll_map fun part _ => componentSql_carries h part
  rw [← order]
  exact parts.allOk.map fun parts found => found.filter.join " "

theorem aggregatesRows_map {A B : Type} (f : A → B) (c : Clauses A) :
    (c.map f).aggregatesRows = c.aggregatesRows := by
  simp [Clauses.aggregatesRows, Clauses.hasUnions, Clauses.map]

/-- An aggregate that is the head of the statement takes the place of its columns. -/
theorem flatten_of_plain {c : Clauses BindingLists} (plain : c.aggregatesRows = false) :
    c.bindingLists.flatten = c.bindingLists.unionCtes ++ c.bindingLists.ctes ++ bodyBindings c
      ++ c.bindingLists.union ++ c.bindingLists.unionOrders := by
  have select : c.selectBindings
      = componentBindings c .aggregate ++ componentBindings c .columns := by
    unfold Clauses.selectBindings
    cases head : c.aggregate with
    | none => simp [componentBindings, head]
    | some a =>
      cases distinct : c.distinct <;>
        simp [componentBindings, aggregateBindings, head, distinct, plain]
  have lists : c.bindingLists.select = c.selectBindings := rfl
  simp [BindingLists.flatten, BindingLists.flattenOnly, BindingCategory.all, BindingLists.get,
    lists, select, bodyBindings]

theorem plainSelect_carries {c : Clauses Query} (h : c.Carried e)
    (plain : c.aggregatesRows = false) :
    Yields (Sql.Carries (c.map Query.bindingLists).bindingLists.flatten)
      (e.plainSelect (c.map (Query.compiled e))) := by
  rw [flatten_of_plain (by rwa [aggregatesRows_map])]
  refine (components_carries h).bind fun body found => ?_
  have limited : Sql.Carries (bodyBindings (c.map Query.bindingLists))
      (if (c.map (Query.compiled e)).hasUnions then body
        else e.limitRecursion? (c.map (Query.compiled e)).recursionLimit body) := by
    split
    · exact found
    · exact limitRecursion?_carries found _
  refine (withCtes_carries h.counted.ctes h.within.ctes limited).bind fun body found => ?_
  split
  · refine (unionsSql_carries h).bind fun unions after => ?_
    have whole := ((wrapUnion_carries (e := e) found).before " ").append after
    have limited := limitRecursion?_carries (e := e) whole
      (c.unionRecursionLimit <|> c.recursionLimit)
    simp only [List.append_assoc] at limited ⊢
    exact withCtes_carries h.counted.unionCtes h.within.unionCtes limited
  · next alone =>
    have none : c.unions = [] := by
      simpa [Clauses.hasUnions, Clauses.map] using alone
    have union : (c.map Query.bindingLists).bindingLists.union = [] := by
      simp [Clauses.bindingLists, Clauses.map, none]
    have unionOrders : (c.map Query.bindingLists).bindingLists.unionOrders = [] := by
      simp [Clauses.bindingLists, Clauses.map, h.counted.ordered none]
    rw [union, unionOrders, List.append_nil, List.append_nil, List.append_assoc]
    exact withCtes_carries h.counted.unionCtes h.within.unionCtes found

/-- The query whose rows an aggregate counts. -/
def rowsOf {A : Type} (c : Clauses A) : Clauses A :=
  { c with
    aggregate := none, ctes := [], unionCtes := [], recursionLimit := none,
    unionRecursionLimit := none }

theorem carried_rowsOf {c : Clauses Query} (h : c.Carried e) : (rowsOf c).Carried e where
  counted := { h.counted with
    aggregate := by simp [rowsOf], ctes := by simp [rowsOf], unionCtes := by simp [rowsOf] }
  within := { h.within with
    aggregate := by simp [rowsOf], ctes := by simp [rowsOf], unionCtes := by simp [rowsOf] }

theorem flatten_of_rows {c : Clauses BindingLists} {a : Aggregate BindingLists}
    (head : c.aggregate = some a) (rows : c.aggregatesRows = true) :
    c.bindingLists.flatten = c.bindingLists.unionCtes ++ c.bindingLists.ctes
      ++ (aggregateBindings c.distinct a ++ (rowsOf c).bindingLists.flatten) := by
  have select : c.selectBindings
      = aggregateBindings c.distinct a ++ (rowsOf c).selectBindings := by
    unfold Clauses.selectBindings
    cases distinct : c.distinct <;> simp [aggregateBindings, head, rows, rowsOf, distinct]
  have lists : c.bindingLists.select = c.selectBindings := rfl
  have inner : (rowsOf c).bindingLists = { c.bindingLists with
      unionCtes := [], ctes := [], select := (rowsOf c).selectBindings } := rfl
  rw [inner]
  simp [BindingLists.flatten, BindingLists.flattenOnly, BindingCategory.all, BindingLists.get,
    lists, select]

theorem rowAggregate_carries {c : Clauses Query} (h : c.Carried e) {a : Aggregate Query}
    (head : c.aggregate = some a) (rows : c.aggregatesRows = true) :
    Yields (Sql.Carries (c.map Query.bindingLists).bindingLists.flatten)
      (e.rowAggregate (c.map (Query.compiled e)) (a.map (Query.compiled e))) := by
  have mapped : (c.map Query.bindingLists).aggregate = some (a.map Query.bindingLists) := by
    simp [Clauses.map, head]
  rw [flatten_of_rows mapped (by rwa [aggregatesRows_map])]
  refine (aggregateSql_carries _ (h.counted.aggregate a head)
    (h.within.aggregate a head)).bind fun head found => ?_
  refine (plainSelect_carries (carried_rowsOf h) rfl).bind fun inner counted => ?_
  have whole : Sql.Carries _ (head ++ " from (" ++ inner ++ ") as " ++ e.wrapTable "temp_table") :=
    (((found.before " from (").append counted).before ") as ").before _
  have limited := limitRecursion?_carries (e := e) whole
    (c.unionRecursionLimit <|> c.recursionLimit)
  have each : ∀ t ∈ c.unionCtes ++ c.ctes, t.body.Counted :=
    List.forall_mem_append.mpr ⟨h.counted.unionCtes, h.counted.ctes⟩
  have inside : ∀ t ∈ c.unionCtes ++ c.ctes, ∀ q ∈ t.queries, q.Carried e :=
    List.forall_mem_append.mpr ⟨h.within.unionCtes, h.within.ctes⟩
  have all := withCtes_carries each inside limited
  rw [List.map_append, List.map_append, List.flatMap_append] at all
  exact all

theorem selectSql_carries {c : Clauses Query} (h : c.Carried e) :
    Yields (Sql.Carries (c.map Query.bindingLists).bindingLists.flatten)
      (e.selectSql (c.map (Query.compiled e))) := by
  cases head : c.aggregate with
  | none =>
    have plain := plainSelect_carries h (by simp [Clauses.aggregatesRows, head])
    simpa [selectSql, Clauses.map, head] using plain
  | some a =>
    have mapped : (c.map (Query.compiled e)).aggregate = some (a.map (Query.compiled e)) := by
      simp [Clauses.map, head]
    rw [selectSql, mapped]
    simp only [aggregatesRows_map]
    split
    · next rows => exact rowAggregate_carries h head rows
    · next rows => exact plainSelect_carries h (by simpa using rows)

/-- Everything that a counted query compiles to carries what the query binds. -/
theorem carried_of_counted {q : Query} (hq : q.Counted) : q.Carried e := by
  induction hq with
  | @mk c own inside ih =>
    have carried : c.Carried e := ⟨own, Clauses.within ih⟩
    rw [Query.Carried, Query.compiled_eq, Query.bindingLists_mk]
    exact {
      select := selectSql_carries carried
      joins := joins_carriesAll carried.counted.joins carried.within.joins
      wheres := wheres_carriesAll carried.counted.wheres carried.within.wheres
      havings := havings_carriesAll carried.counted.havings carried.within.havings }

end Engine

end SqlCompiler
