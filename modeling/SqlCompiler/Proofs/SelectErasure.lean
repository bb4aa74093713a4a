import SqlCompiler.Engine.Select
import SqlCompiler.Proofs.QueryErasure
/-!
# Select statements do not read values

A clause without values, over queries compiled without values, compiles to its words: every clause,
every dialect and every error looks at whether an operand is bound, never at what it is bound to.
-/

namespace SqlCompiler

@[simp] theorem erase_negate (negated : Bool) (sql : Sql) :
    (negate negated sql).erase = negate negated sql.erase := by
  cases negated <;> simp [negate]

namespace Engine

variable (e : Engine)

theorem column_erase (t : Term Compiled) :
    e.column (t.map Compiled.erase).erase = (e.column t).map Sql.erase := by
  cases t <;> simp [Term.map, Term.erase, column, Compiled.erase]

theorem table_erase (t : Term Compiled) :
    e.table (t.map Compiled.erase).erase = (e.table t).map Sql.erase := by
  cases t <;> simp [Term.map, Term.erase, table, Compiled.erase]

theorem columnList_erase (columns : List (Term Compiled)) :
    e.columnList ((columns.map (Term.map Compiled.erase)).map Term.erase)
      = (e.columnList columns).map Sql.erase := by
  rw [columnList, map_erased e.column_erase, joinOutcomes_erase, columnList]

/-- A list of names has no values. -/
theorem nameList_erase (names : List String) :
    (e.nameList names).map Sql.erase = e.nameList names := by
  have bare : ((names.map Term.name).map (Term.map Compiled.erase)).map Term.erase
      = names.map Term.name := by
    simp only [List.map_map]
    rfl
  rw [nameList, ← columnList_erase, bare]

theorem comparison_erase (column : Term Compiled) (operator : String) (value : Param) :
    e.comparison (column.map Compiled.erase).erase operator value.erase
      = (e.comparison column operator value).map Sql.erase := by
  simp [comparison, column_erase]

theorem bitwise_erase (column : Term Compiled) (operator : String) (value : Param) :
    e.bitwise (column.map Compiled.erase).erase operator value.erase
      = (e.bitwise column operator value).map Sql.erase := by
  unfold bitwise
  split
  · simp [column_erase]
  · simp [column_erase]
  all_goals exact comparison_erase e column operator value

theorem nullTest_erase (column : Term Compiled) (negated : Bool) :
    e.nullTest (column.map Compiled.erase).erase negated
      = (e.nullTest column negated).map Sql.erase := by
  have plain : (do
        let column ← e.column (column.map Compiled.erase).erase
        return column ++ " " ++ nullKeyword negated : Outcome)
      = Except.map Sql.erase (do
        let column ← e.column column
        return column ++ " " ++ nullKeyword negated) := by
    simp [column_erase]
  cases column with
  | name n =>
    cases d : e.dialect with
    | mysql =>
      simp only [nullTest, d, Term.map, Term.erase]
      split
      · rfl
      · exact plain
    | generic | postgres | sqlite | sqlserver =>
      simp only [nullTest, d, Term.map, Term.erase]
      exact plain
  | raw sql values => simpa [nullTest, Term.map, Term.erase] using plain
  | sub query aliasName => simpa [nullTest, Term.map, Term.erase] using plain

theorem dateTest_erase (part : DatePart) (column : Term Compiled) (operator : String)
    (value : Param) : e.dateTest part (column.map Compiled.erase).erase operator value.erase
      = (e.dateTest part column operator value).map Sql.erase := by
  cases d : e.dialect <;> cases part <;> simp [dateTest, column_erase, d]

theorem jsonContainsTest_erase (selector : String) (value : Sql) :
    e.jsonContainsTest selector value.erase
      = (e.jsonContainsTest selector value).map Sql.erase := by
  unfold jsonContainsTest
  cases d : e.dialect <;> simp

theorem jsonLengthTest_erase (selector operator : String) (value : Sql) :
    e.jsonLengthTest selector operator value.erase
      = (e.jsonLengthTest selector operator value).map Sql.erase := by
  unfold jsonLengthTest
  cases d : e.dialect <;> simp

theorem matchTest_erase (columns : List (Term Compiled)) (value : Param)
    (options : FulltextOptions) :
    e.matchTest ((columns.map (Term.map Compiled.erase)).map Term.erase) value.erase options
      = (e.matchTest columns value options).map Sql.erase := by
  simp [matchTest, columnList_erase, -List.map_map]

theorem vectorTest_erase (columns : List (Term Compiled)) (value : Param)
    (options : FulltextOptions) :
    e.vectorTest ((columns.map (Term.map Compiled.erase)).map Term.erase) value.erase options
      = (e.vectorTest columns value options).map Sql.erase := by
  have written : ∀ language function : Sql, language.erase = language →
      function.erase = function → (do
        let vectors ← joinOutcomes " || " <|
          ((columns.map (Term.map Compiled.erase)).map Term.erase).map fun column =>
            (e.column column).map fun column =>
              "to_tsvector('" ++ language ++ "', " ++ column ++ ")"
        return "(" ++ vectors ++ ") @@ " ++ function ++ "('" ++ language ++ "', "
          ++ Sql.ofParam value.erase ++ ")" : Outcome)
      = Except.map Sql.erase (do
        let vectors ← joinOutcomes " || " <| columns.map fun column =>
          (e.column column).map fun column => "to_tsvector('" ++ language ++ "', " ++ column ++ ")"
        return "(" ++ vectors ++ ") @@ " ++ function ++ "('" ++ language ++ "', "
          ++ Sql.ofParam value ++ ")") := by
    intro language function plain named
    refine bind_erase ?_ fun vectors => by simp [plain, named]
    rw [← joinOutcomes_erase]
    simp [Function.comp_def, column_erase, plain]
  refine written _ _ ?_ ?_
  · split
    · simp
    · rfl
  · split <;> rfl

theorem fulltextTest_erase (columns : List (Term Compiled)) (value : Param)
    (options : FulltextOptions) :
    e.fulltextTest ((columns.map (Term.map Compiled.erase)).map Term.erase) value.erase options
      = (e.fulltextTest columns value options).map Sql.erase := by
  unfold fulltextTest
  split
  · exact matchTest_erase e columns value options
  · exact vectorTest_erase e columns value options
  all_goals rfl

@[simp] theorem emptyListTest_erase (negated : Bool) :
    (emptyListTest negated).erase = emptyListTest negated := by
  cases negated <;> rfl

theorem listTest_erase (column : Term Compiled) (negated : Bool) (values : Sql) :
    e.listTest (column.map Compiled.erase).erase negated values.erase
      = (e.listTest column negated values).map Sql.erase := by
  simp [listTest, column_erase]

theorem rangeTest_erase (column : Term Compiled) (negated : Bool) (low high : Param) :
    e.rangeTest (column.map Compiled.erase).erase negated low.erase high.erase
      = (e.rangeTest column negated low high).map Sql.erase := by
  simp [rangeTest, column_erase]

theorem group_erase (flaw : Flaw) (negated : Bool) (members : List (Conjunction × Outcome)) :
    group flaw negated (members.map eraseCondition)
      = (group flaw negated members).map Sql.erase := by
  simp [group]

theorem whereTest_erase (negated : Bool) (p : Predicate Compiled) :
    e.whereTest negated (p.map Compiled.erase).erase
      = (e.whereTest negated p).map Sql.erase := by
  cases p with
  | basic column operator value =>
    simp [whereTest, Predicate.map, Predicate.erase, comparison_erase, bitwise_erase]
  | raw sql values => simp [whereTest, Predicate.map, Predicate.erase]
  | expression sql => simp [whereTest, Predicate.map, Predicate.erase]
  | bitwise column operator value =>
    simp [whereTest, Predicate.map, Predicate.erase, bitwise_erase]
  | among column values =>
    simp [whereTest, Predicate.map, Predicate.erase, ← erase_paramList, listTest_erase]
  | amongIntegers column values =>
    have bare : (Sql.join ", " (values.map fun n => Sql.ofText (intText n))).erase
        = Sql.join ", " (values.map fun n => Sql.ofText (intText n)) := by
      simp [Function.comp_def]
    have tested := e.listTest_erase column negated
      (Sql.join ", " (values.map fun n => Sql.ofText (intText n)))
    rw [bare] at tested
    simp [whereTest, Predicate.map, Predicate.erase, tested]
  | null column => exact e.nullTest_erase column negated
  | between column low high => exact e.rangeTest_erase column negated low high
  | betweenColumns column low high =>
    simp [whereTest, Predicate.map, Predicate.erase, column_erase]
  | datePart part column operator value =>
    simp [whereTest, Predicate.map, Predicate.erase, dateTest_erase]
  | compareColumns first operator second =>
    simp [whereTest, Predicate.map, Predicate.erase, column_erase]
  | nested query => exact group_erase .emptyWhereGroup negated query.wheres
  | sub column operator query =>
    simp [whereTest, Predicate.map, Predicate.erase, column_erase, Compiled.erase]
  | hasRows query => simp [whereTest, Predicate.map, Predicate.erase, Compiled.erase]
  | rowValues columns operator values =>
    simp [whereTest, Predicate.map, Predicate.erase, columnList_erase, -List.map_map]
  | jsonBoolean column operator value => simp [whereTest, Predicate.map, Predicate.erase]
  | jsonContains column document =>
    have tested := e.jsonContainsTest_erase column (.ofParam (.value (.text document.text)))
    have slot : (Sql.ofParam (.value (.text document.text))).erase
        = Sql.ofParam (.value (.text Json.null.text)) := rfl
    rw [slot] at tested
    simp [whereTest, Predicate.map, Predicate.erase, tested]
  | jsonContainsKey column => simp [whereTest, Predicate.map, Predicate.erase]
  | jsonLength column operator value =>
    simp [whereTest, Predicate.map, Predicate.erase, ← Sql.erase_ofParam, jsonLengthTest_erase]
  | fulltext columns value options =>
    simp [whereTest, Predicate.map, Predicate.erase, fulltextTest_erase, -List.map_map]

theorem whereClause_erase (w : Where Compiled) :
    e.whereClause (w.map Compiled.erase).erase = eraseCondition (e.whereClause w) :=
  congrArg (w.conjunction, ·) (e.whereTest_erase w.negated w.predicate)

theorem havingBitwise_erase (column : Term Compiled) (operator : String) (value : Param) :
    e.havingBitwise (column.map Compiled.erase).erase operator value.erase
      = (e.havingBitwise column operator value).map Sql.erase := by
  simp [havingBitwise, column_erase]

theorem havingTest_erase (negated : Bool) (p : GroupPredicate Compiled) :
    e.havingTest negated (p.map Compiled.erase).erase
      = (e.havingTest negated p).map Sql.erase := by
  cases p with
  | basic column operator value =>
    simp [havingTest, GroupPredicate.map, GroupPredicate.erase, column_erase, havingBitwise_erase]
  | raw sql values => simp [havingTest, GroupPredicate.map, GroupPredicate.erase]
  | expression sql => simp [havingTest, GroupPredicate.map, GroupPredicate.erase]
  | between column low high => exact e.rangeTest_erase column negated low high
  | null column => simp [havingTest, GroupPredicate.map, GroupPredicate.erase, column_erase]
  | nested query => exact group_erase .emptyHavingGroup negated query.havings
  | bitwise column operator value =>
    simp [havingTest, GroupPredicate.map, GroupPredicate.erase, havingBitwise_erase]

theorem havingClause_erase (h : Having Compiled) :
    e.havingClause (h.map Compiled.erase).erase = eraseCondition (e.havingClause h) :=
  congrArg (h.conjunction, ·) (e.havingTest_erase h.negated h.predicate)

/-! ### Clauses -/

theorem aggregateSql_erase (distinct : Distinct) (a : Aggregate Compiled) :
    e.aggregateSql distinct (a.map Compiled.erase).erase
      = (e.aggregateSql distinct a).map Sql.erase := by
  cases distinct with
  | off => simp [aggregateSql, Aggregate.map, Aggregate.erase, columnList_erase, -List.map_map]
  | all => simp [aggregateSql, Aggregate.map, Aggregate.erase, columnList_erase, -List.map_map]
  | on names =>
    simp only [aggregateSql]
    rw [← e.nameList_erase names]
    simp [Aggregate.map, Aggregate.erase, columnList_erase, -List.map_map]

theorem selectKeyword_erase (distinct : Distinct) :
    (e.selectKeyword distinct).map Sql.erase = e.selectKeyword distinct := by
  unfold selectKeyword
  split
  · exact (bind_erase (e.nameList_erase _).symm fun names => by simp).symm
  · rfl
  · rfl

theorem columnsSql_erase (c : Clauses Compiled) :
    e.columnsSql (c.map Compiled.erase).erase = (e.columnsSql c).map Sql.erase := by
  have top : e.topSql (c.map Compiled.erase).erase = e.topSql c := rfl
  refine bind_erase (e.selectKeyword_erase c.distinct).symm fun keyword => ?_
  refine bind_erase ?_ fun columns => by simp [top]
  simp only [Clauses.map, Clauses.erase]
  rcases c.columns with _ | _ | ⟨column, columns⟩
  · exact (e.nameList_erase ["*"]).symm
  · exact (e.nameList_erase ["*"]).symm
  · exact e.columnList_erase (column :: columns)

theorem sourceSql_erase (lock : Option Lock) (source : Term Compiled) :
    e.sourceSql lock (source.map Compiled.erase).erase
      = (e.sourceSql lock source).map Sql.erase := by
  simp [sourceSql, table_erase]

theorem indexHintSql_erase (hint : IndexHint) :
    (e.indexHintSql hint).map Sql.erase = e.indexHintSql hint := by
  unfold indexHintSql
  split <;> simp

theorem joinSql_erase (j : Join Compiled) :
    e.joinSql (j.map Compiled.erase).erase = (e.joinSql j).map Sql.erase := by
  simp [joinSql, Join.map, Join.erase, Compiled.erase, table_erase]

theorem joinsSql_erase (joins : List (Join Compiled)) :
    e.joinsSql ((joins.map (Join.map Compiled.erase)).map Join.erase)
      = (e.joinsSql joins).map Sql.erase := by
  rw [joinsSql, map_erased e.joinSql_erase, joinOutcomes_erase, joinsSql]

@[simp] theorem headed_erase (keyword : String) (sql : Sql) :
    headed keyword sql.erase = (headed keyword sql).erase := by
  simp [headed]

theorem wheresSql_erase (wheres : List (Where Compiled)) :
    e.wheresSql ((wheres.map (Where.map Compiled.erase)).map Where.erase)
      = (e.wheresSql wheres).map Sql.erase := by
  rw [wheresSql, map_erased e.whereClause_erase, conditions_erase, wheresSql]
  simp

theorem groupsSql_erase (groups : List (Term Compiled)) :
    e.groupsSql ((groups.map (Term.map Compiled.erase)).map Term.erase)
      = (e.groupsSql groups).map Sql.erase := by
  simp [groupsSql, columnList_erase, -List.map_map]

theorem havingsSql_erase (havings : List (Having Compiled)) :
    e.havingsSql ((havings.map (Having.map Compiled.erase)).map Having.erase)
      = (e.havingsSql havings).map Sql.erase := by
  rw [havingsSql, map_erased e.havingClause_erase, conditions_erase, havingsSql]
  simp

theorem orderSql_erase (o : Order Compiled) :
    e.orderSql (o.map Compiled.erase).erase = (e.orderSql o).map Sql.erase := by
  cases o <;> simp [orderSql, Order.map, Order.erase, column_erase]

theorem orderList_erase (orders : List (Order Compiled)) :
    e.orderList ((orders.map (Order.map Compiled.erase)).map Order.erase)
      = (e.orderList orders).map Sql.erase := by
  rw [orderList, map_erased e.orderSql_erase, joinOutcomes_erase, orderList]
  simp

theorem ordersSql_erase (orders : List (Order Compiled)) (limit offset : Option Nat) :
    e.ordersSql ⟨(orders.map (Order.map Compiled.erase)).map Order.erase, limit, offset⟩
      = (e.ordersSql ⟨orders, limit, offset⟩).map Sql.erase := by
  simp [ordersSql, orderList_erase, Paging.skips, anyOrder, -List.map_map]

theorem cycleSql_erase (cycle : Cycle) : (e.cycleSql cycle).map Sql.erase = e.cycleSql cycle := by
  unfold cycleSql
  split
  · exact (bind_erase (e.nameList_erase _).symm fun columns => by simp).symm
  · rfl

theorem cteSql_erase (c : Cte Compiled) :
    e.cteSql (c.map Compiled.erase).erase = (e.cteSql c).map Sql.erase := by
  obtain ⟨name, columns, recursive, materialized, body, cycle⟩ := c
  simp only [Cte.map, Cte.erase, cteSql]
  rw [← e.nameList_erase columns]
  cases cycle with
  | none => cases body <;> simp [CteBody.map, CteBody.erase, Compiled.erase]
  | some cycle =>
    dsimp only
    rw [← e.cycleSql_erase cycle]
    cases body <;> simp [CteBody.map, CteBody.erase, Compiled.erase]

theorem ctesSql_erase (ctes : List (Cte Compiled)) :
    e.ctesSql ((ctes.map (Cte.map Compiled.erase)).map Cte.erase)
      = (e.ctesSql ctes).map Sql.erase := by
  have recursive : ((ctes.map (Cte.map Compiled.erase)).map Cte.erase).any Cte.recursive
      = ctes.any Cte.recursive := by
    simp only [List.any_map]
    rfl
  rw [ctesSql, map_erased e.cteSql_erase, joinOutcomes_erase, recursive, ctesSql]
  simp

theorem withCtes_erase (ctes : List (Cte Compiled)) (sql : Sql) :
    e.withCtes ((ctes.map (Cte.map Compiled.erase)).map Cte.erase) sql.erase
      = (e.withCtes ctes sql).map Sql.erase := by
  simp [withCtes, ctesSql_erase, -List.map_map]

theorem limitRecursion_erase (sql : Sql) (limit : Nat) :
    e.limitRecursion sql.erase limit = (e.limitRecursion sql limit).erase := by
  unfold limitRecursion
  split
  · rw [Sql.text_erase]
    split <;> simp
  all_goals simp

theorem limitRecursion?_erase (limit : Option Nat) (sql : Sql) :
    e.limitRecursion? limit sql.erase = (e.limitRecursion? limit sql).erase := by
  cases limit with
  | none => rfl
  | some limit => exact e.limitRecursion_erase sql limit

theorem wrapUnion_erase (sql : Sql) : e.wrapUnion sql.erase = (e.wrapUnion sql).erase := by
  unfold wrapUnion
  split <;> simp

theorem unionMember_erase (u : UnionMember Compiled) :
    e.unionMember (u.map Compiled.erase) = (e.unionMember u).map Sql.erase := by
  have query : (u.map Compiled.erase).query.select = u.query.select.map Sql.erase := rfl
  have all : (u.map Compiled.erase).all = u.all := rfl
  simp [unionMember, query, all, wrapUnion_erase]

theorem pagingSql_erase (orders others : List (Order Compiled)) (limit offset : Option Nat) :
    e.pagingSql ⟨others, limit, offset⟩
      = (e.pagingSql ⟨orders, limit, offset⟩).map Sql.erase := by
  unfold pagingSql
  split <;> rfl

theorem unionPagingSql_erase (orders : List (Order Compiled)) (limit offset : Option Nat) :
    e.unionPagingSql ⟨(orders.map (Order.map Compiled.erase)).map Order.erase, limit, offset⟩
      = (e.unionPagingSql ⟨orders, limit, offset⟩).map (List.map Sql.erase) := by
  have paging := e.pagingSql_erase orders ((orders.map (Order.map Compiled.erase)).map Order.erase)
    limit offset
  cases limit <;> simp [unionPagingSql, orderList_erase, ordersSql_erase, paging, anyOrder,
    -List.map_map]

theorem unionsSql_erase (c : Clauses Compiled) :
    e.unionsSql (c.map Compiled.erase).erase = (e.unionsSql c).map Sql.erase := by
  have members : (c.unions.map (UnionMember.map Compiled.erase)).map e.unionMember
      = (c.unions.map e.unionMember).map (Except.map Sql.erase) := by
    simp only [List.map_map]
    exact List.map_congr_left fun u _ => e.unionMember_erase u
  have paging := e.unionPagingSql_erase c.unionOrders c.unionLimit c.unionOffset
  simp only [unionsSql, Clauses.unionPaging, Clauses.map, Clauses.erase, members, paging,
    allOk_map]
  simp [-List.map_map]

/-! ### Whole statements -/

theorem componentSql_erase (c : Clauses Compiled) (part : Component) :
    e.componentSql (c.map Compiled.erase).erase part = (e.componentSql c part).map Sql.erase := by
  cases part with
  | aggregate =>
    simp only [componentSql, Clauses.map, Clauses.erase]
    cases c.aggregate with
    | none => rfl
    | some a => exact e.aggregateSql_erase c.distinct a
  | columns =>
    have aggregate : (c.map Compiled.erase).erase.aggregate.isNone = c.aggregate.isNone := by
      simp [Clauses.map, Clauses.erase]
    simp [componentSql, aggregate, columnsSql_erase]
  | source =>
    simp only [componentSql, Clauses.map, Clauses.erase]
    cases c.source with
    | none => rfl
    | some source => exact e.sourceSql_erase c.lock source
  | indexHint =>
    simp only [componentSql, Clauses.map, Clauses.erase]
    cases c.indexHint with
    | none => rfl
    | some hint => exact (e.indexHintSql_erase hint).symm
  | joins => exact e.joinsSql_erase c.joins
  | wheres => exact e.wheresSql_erase c.wheres
  | groups => exact e.groupsSql_erase c.groups
  | havings => exact e.havingsSql_erase c.havings
  | orders => exact e.ordersSql_erase c.orders c.limit c.offset
  | limit => rfl
  | offset => rfl
  | lock =>
    simp only [componentSql, Clauses.map, Clauses.erase]
    cases c.lock with
    | none => rfl
    | some lock => rfl

theorem components_erase (c : Clauses Compiled) :
    e.components (c.map Compiled.erase).erase = (e.components c).map Sql.erase := by
  have each : e.selectComponents.map (e.componentSql (c.map Compiled.erase).erase)
      = (e.selectComponents.map (e.componentSql c)).map (Except.map Sql.erase) := by
    rw [List.map_map]
    exact List.map_congr_left fun part _ => e.componentSql_erase c part
  simp [components, each, -List.map_map]

theorem plainSelect_erase (c : Clauses Compiled) :
    e.plainSelect (c.map Compiled.erase).erase = (e.plainSelect c).map Sql.erase := by
  have unions : (c.map Compiled.erase).erase.hasUnions = c.hasUnions := by
    simp [Clauses.hasUnions, Clauses.map, Clauses.erase]
  refine bind_erase (e.components_erase c) fun body => ?_
  rw [unions]
  have limited : (if c.hasUnions then body.erase
        else e.limitRecursion? (c.map Compiled.erase).erase.recursionLimit body.erase)
      = (if c.hasUnions then body else e.limitRecursion? c.recursionLimit body).erase := by
    rw [limitRecursion?_erase, Sql.erase_ite]
    rfl
  rw [limited]
  refine bind_erase (e.withCtes_erase c.ctes _) fun body => ?_
  split
  · refine bind_erase (e.unionsSql_erase c) fun unions => ?_
    have whole : e.limitRecursion? (c.unionRecursionLimit <|> c.recursionLimit)
          (e.wrapUnion body.erase ++ " " ++ unions.erase)
        = (e.limitRecursion? (c.unionRecursionLimit <|> c.recursionLimit)
          (e.wrapUnion body ++ " " ++ unions)).erase := by
      rw [← limitRecursion?_erase, wrapUnion_erase]
      simp
    change e.withCtes _ (e.limitRecursion? (c.unionRecursionLimit <|> c.recursionLimit)
      (e.wrapUnion body.erase ++ " " ++ unions.erase)) = _
    rw [whole]
    exact e.withCtes_erase c.unionCtes _
  · exact e.withCtes_erase c.unionCtes body

theorem rowAggregate_erase (c : Clauses Compiled) (a : Aggregate Compiled) :
    e.rowAggregate (c.map Compiled.erase).erase (a.map Compiled.erase).erase
      = (e.rowAggregate c a).map Sql.erase := by
  refine bind_erase (e.aggregateSql_erase c.distinct a) fun head => ?_
  refine bind_erase (e.plainSelect_erase { c with
    aggregate := none, ctes := [], unionCtes := [], recursionLimit := none,
    unionRecursionLimit := none }) fun inner => ?_
  have whole : e.limitRecursion? (c.unionRecursionLimit <|> c.recursionLimit)
        (head.erase ++ " from (" ++ inner.erase ++ ") as " ++ e.wrapTable "temp_table")
      = (e.limitRecursion? (c.unionRecursionLimit <|> c.recursionLimit)
        (head ++ " from (" ++ inner ++ ") as " ++ e.wrapTable "temp_table")).erase := by
    rw [← limitRecursion?_erase]
    simp
  have ctes := e.withCtes_erase (c.unionCtes ++ c.ctes)
  simp only [List.map_append] at ctes
  change e.withCtes _ (e.limitRecursion? (c.unionRecursionLimit <|> c.recursionLimit)
    (head.erase ++ " from (" ++ inner.erase ++ ") as " ++ e.wrapTable "temp_table")) = _
  rw [whole]
  exact ctes _

theorem selectSql_erase (c : Clauses Compiled) :
    e.selectSql (c.map Compiled.erase).erase = (e.selectSql c).map Sql.erase := by
  have rows : (c.map Compiled.erase).erase.aggregatesRows = c.aggregatesRows := by
    simp [Clauses.aggregatesRows, Clauses.hasUnions, Clauses.map, Clauses.erase]
  have aggregate : (c.map Compiled.erase).erase.aggregate
      = (c.aggregate.map (Aggregate.map Compiled.erase)).map Aggregate.erase := rfl
  rw [selectSql, aggregate, rows, selectSql]
  cases c.aggregate with
  | none => exact e.plainSelect_erase c
  | some a =>
    simp only [Option.map_some]
    split
    · exact e.rowAggregate_erase c a
    · exact e.plainSelect_erase c

theorem compiled_erase (c : Clauses Compiled) :
    e.compiled (c.map Compiled.erase).erase = (e.compiled c).erase := by
  simp only [compiled, Compiled.erase, selectSql_erase, Compiled.mk.injEq, true_and]
  exact ⟨map_erased e.joinSql_erase, map_erased e.whereClause_erase,
    map_erased e.havingClause_erase⟩

theorem existsSql_erase (c : Clauses Compiled) :
    e.existsSql (c.map Compiled.erase).erase = (e.existsSql c).map Sql.erase := by
  unfold existsSql
  split
  · exact e.selectSql_erase { c with
      columns := some [.raw ("1 " ++ e.wrapValue "exists") []], limit := some 1 }
  · exact bind_erase (e.selectSql_erase c) fun select => by simp

end Engine

namespace Query

variable (e : Engine)

/-- A query without its values compiles to what the query does, without its values. -/
theorem compiled_erase (q : Query) : q.erase.compiled e = (q.compiled e).erase := by
  induction q using Query.induct with
  | step c ih =>
    rw [erase_mk, compiled_eq, compiled_eq, ← Engine.compiled_erase]
    exact congrArg e.compiled (Clauses.map_erase ih)

theorem compiledClauses_erase (q : Query) :
    q.erase.compiledClauses e = ((q.compiledClauses e).map Compiled.erase).erase := by
  obtain ⟨c⟩ := q
  rw [erase_mk]
  exact Clauses.map_erase fun q _ => compiled_erase e q

end Query

end SqlCompiler
