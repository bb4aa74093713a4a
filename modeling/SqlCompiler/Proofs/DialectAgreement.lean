import SqlCompiler.Engine.Select
import SqlCompiler.Proofs.AliasSeparators
import SqlCompiler.Proofs.Nesting
/-!
# Where dialects agree

Postgres and SQLite have words of their own for JSON selectors and tests, for full text, dates and
bits, for locks, index hints and with-expressions, SQLite for unions too. A query that shares its
words with the generic dialect has none of these at any level, and is compiled as there: to the
same statement or to the same error.
-/

namespace SqlCompiler

section Shared

variable {Q : Type}

/-- A column whose name selects nothing inside a document. -/
def Term.Arrowless : Term Q → Prop
  | .name n => Text.hasArrow n.toList = false
  | .raw _ _ => True
  | .sub _ aliasName => Text.hasArrow aliasName.toList = false

def Arrowless (names : List String) : Prop :=
  ∀ name ∈ names, Text.hasArrow name.toList = false

/-- An operator on columns that the dialect writes as the generic one does: SQLite any, Postgres
one that compares neither patterns nor bits. -/
def Dialect.SharesOperator (d : Dialect) (operator : String) : Prop :=
  d = .postgres →
    Text.contains "like".toList (Text.lowerCase operator).toList = false ∧
      operator ∉ (Engine.mk .postgres {}).bitwiseOperators

def Predicate.Shared (d : Dialect) : Predicate Q → Prop
  | .basic column operator _ => column.Arrowless ∧ d.SharesOperator operator
  | .bitwise column _ _ => column.Arrowless ∧ d ≠ .postgres
  | .raw _ _ | .expression _ | .nested _ | .hasRows _ => True
  | .among column _ | .amongIntegers column _ | .null column | .between column _ _
  | .sub column _ _ => column.Arrowless
  | .betweenColumns column low high => column.Arrowless ∧ low.Arrowless ∧ high.Arrowless
  | .compareColumns first _ second => first.Arrowless ∧ second.Arrowless
  | .rowValues columns _ _ => ∀ column ∈ columns, column.Arrowless
  | .datePart _ _ _ _ | .jsonBoolean _ _ _ | .jsonContains _ _ | .jsonContainsKey _
  | .jsonLength _ _ _ | .fulltext _ _ _ => False

def GroupPredicate.Shared (d : Dialect) : GroupPredicate Q → Prop
  | .basic column operator _ => column.Arrowless ∧ d.SharesOperator operator
  | .between column _ _ | .null column | .bitwise column _ _ => column.Arrowless
  | .raw _ _ | .expression _ | .nested _ => True

def Distinct.Shared (d : Dialect) : Distinct → Prop
  | .off | .all => True
  | .on names => Arrowless names ∧ d ≠ .postgres

def Order.Shared : Order Q → Prop
  | .byColumn column _ => column.Arrowless
  | .raw _ _ | .random _ => True

structure Cte.Shared (c : Cte Q) : Prop where
  columns : Arrowless c.columns
  materialized : c.materialized = none
  cycle : c.cycle = none

/-- Clauses in which a dialect, Postgres or SQLite, has no words of its own. -/
structure Clauses.Shared (d : Dialect) (c : Clauses Q) : Prop where
  aggregate : ∀ a ∈ c.aggregate, ∀ t ∈ a.columns, t.Arrowless
  columns : ∀ terms ∈ c.columns, ∀ t ∈ terms, t.Arrowless
  distinct : c.distinct.Shared d
  indexHint : c.indexHint = none
  wheres : ∀ w ∈ c.wheres, w.predicate.Shared d
  groups : ∀ t ∈ c.groups, t.Arrowless
  havings : ∀ h ∈ c.havings, h.predicate.Shared d
  orders : ∀ o ∈ c.orders, o.Shared
  unions : d = .sqlite → c.unions = []
  unionOrders : ∀ o ∈ c.unionOrders, o.Shared
  lock : c.lock = none
  ctes : ∀ t ∈ c.ctes, t.Shared
  unionCtes : ∀ t ∈ c.unionCtes, t.Shared

end Shared

/-- The generic engine with the same settings. -/
def Engine.generic (e : Engine) : Engine :=
  { e with dialect := .generic }

namespace Engine

@[simp] theorem dialect_generic (e : Engine) : e.generic.dialect = .generic := rfl

variable {e : Engine} (he : e.dialect = .postgres ∨ e.dialect = .sqlite)
include he

theorem quote_generic : e.quote = e.generic.quote := by
  funext part
  unfold quote
  rcases he with he | he <;> rw [he] <;> rfl

theorem quoteTable_generic : e.quoteTable = e.generic.quoteTable := by
  funext part
  exact congrFun (quote_generic he) _

theorem plainColumn_generic (name : List Char) :
    e.plainColumn name = e.generic.plainColumn name := by
  unfold plainColumn columnParts
  rw [quote_generic he, quoteTable_generic he]

theorem tableParts_generic (parts : List (List Char)) :
    e.tableParts parts = e.generic.tableParts parts := by
  induction parts with
  | nil => rfl
  | cons schema rest ih =>
    cases rest with
    | nil => exact congrArg (fun quoted => [quoted]) (congrFun (quoteTable_generic he) schema)
    | cons next rest =>
      show e.quote schema :: e.tableParts (next :: rest)
        = e.generic.quote schema :: e.generic.tableParts (next :: rest)
      rw [ih, quote_generic he]

theorem wrapTable_generic (name : String) : e.wrapTable name = e.generic.wrapTable name := by
  unfold wrapTable plainTable
  simp only [tableParts_generic he, quoteTable_generic he]

theorem wrap_generic {name : String} (h : Text.hasArrow name.toList = false) :
    e.wrap name = e.generic.wrap name := by
  have part {column : List Char} (inside : column <+: name.toList) :
      e.wrapUnaliased column = e.generic.wrapUnaliased column := by
    have arrowless := Text.hasArrow_of_infix inside.isInfix h
    simp [wrapUnaliased, arrowless, plainColumn_generic he]
  unfold wrap wrapAliased
  split
  · next column aliasName cut =>
    rw [part (Name.splitAlias?_prefix cut), quote_generic he]
    rfl
  · exact part (List.prefix_refl _)

/-! ### Columns, conditions and clauses -/

theorem column_generic {t : Term Compiled} (ht : t.Arrowless) :
    e.column t = e.generic.column t := by
  cases t with
  | name n => exact congrArg (Except.map Sql.ofText) (wrap_generic he ht)
  | raw sql bindings => rfl
  | sub query aliasName =>
    have same := wrap_generic he ht
    simp only [column, same]

theorem table_generic (t : Term Compiled) : e.table t = e.generic.table t := by
  unfold table
  simp only [wrapTable_generic he]

theorem columnList_generic {terms : List (Term Compiled)} (h : ∀ t ∈ terms, t.Arrowless) :
    e.columnList terms = e.generic.columnList terms := by
  have each : terms.map e.column = terms.map e.generic.column :=
    List.map_congr_left fun t member => column_generic he (h t member)
  unfold columnList
  rw [each]

theorem nameList_generic {names : List String} (h : Arrowless names) :
    e.nameList names = e.generic.nameList names :=
  columnList_generic he (List.forall_mem_map.mpr h)

theorem listTest_generic {column : Term Compiled} (hc : column.Arrowless) (negated : Bool)
    (values : Sql) :
    e.listTest column negated values = e.generic.listTest column negated values := by
  unfold listTest
  rw [column_generic he hc]

theorem rangeTest_generic {column : Term Compiled} (hc : column.Arrowless) (negated : Bool)
    (low high : Param) :
    e.rangeTest column negated low high = e.generic.rangeTest column negated low high := by
  unfold rangeTest
  rw [column_generic he hc]

theorem nullTest_generic {column : Term Compiled} (hc : column.Arrowless) (negated : Bool) :
    e.nullTest column negated = e.generic.nullTest column negated := by
  have same := column_generic he hc
  rcases he with he | he <;> simp only [nullTest, dialect_generic, he, same]

theorem comparison_generic {column : Term Compiled} (hc : column.Arrowless) {operator : String}
    (ho : e.dialect.SharesOperator operator) (value : Param) :
    e.comparison column operator value = e.generic.comparison column operator value := by
  have plain : ¬ (e.dialect = .postgres ∧
      Text.contains "like".toList (Text.lowerCase operator).toList = true) := by
    rintro ⟨postgres, like⟩
    rw [(ho postgres).1] at like
    cases like
  have same := column_generic he hc
  simp only [comparison, same, plain, dialect_generic, reduceCtorEq, false_and, ↓reduceIte]

theorem bitwise_generic {column : Term Compiled} (hc : column.Arrowless)
    (notPostgres : e.dialect ≠ .postgres) (operator : String) (value : Param) :
    e.bitwise column operator value = e.generic.bitwise column operator value := by
  have shared : e.dialect.SharesOperator operator := fun postgres => absurd postgres notPostgres
  have same := comparison_generic he hc shared value
  have sqlite : e.dialect = .sqlite := he.resolve_left notPostgres
  simp only [bitwise, dialect_generic, sqlite, same]

theorem havingBitwise_generic {column : Term Compiled} (hc : column.Arrowless) (operator : String)
    (value : Param) :
    e.havingBitwise column operator value = e.generic.havingBitwise column operator value := by
  unfold havingBitwise
  rw [column_generic he hc]

/-- The operators that a dialect shares are bitwise for both or for none. -/
theorem mem_bitwiseOperators_generic {operator : String}
    (ho : e.dialect.SharesOperator operator) :
    operator ∈ e.bitwiseOperators ↔ operator ∈ e.generic.bitwiseOperators := by
  rcases he with postgres | sqlite
  · have none := (ho postgres).2
    simp_all [bitwiseOperators]
  · simp [bitwiseOperators, sqlite]

theorem whereTest_generic {p : Predicate Compiled} (hp : p.Shared e.dialect) (negated : Bool) :
    e.whereTest negated p = e.generic.whereTest negated p := by
  cases p with
  | basic column operator value =>
    obtain ⟨hc, ho⟩ := hp
    have bits := mem_bitwiseOperators_generic he ho
    have compared := comparison_generic he hc ho value
    by_cases bit : operator ∈ e.bitwiseOperators
    · have notPostgres : e.dialect ≠ .postgres := fun postgres =>
        (ho postgres).2 (by simpa [bitwiseOperators, postgres] using bit)
      have same := bitwise_generic he hc notPostgres operator value
      simp only [whereTest, bit, bits.mp bit, ↓reduceIte, same]
    · simp only [whereTest, bit, mt bits.mpr bit, ↓reduceIte, compared]
  | bitwise column operator value =>
    obtain ⟨hc, notPostgres⟩ := hp
    exact congrArg (Except.map (negate negated)) (bitwise_generic he hc notPostgres operator value)
  | raw | expression | nested | hasRows => rfl
  | among column values =>
    simp only [whereTest, listTest_generic he hp]
  | amongIntegers column values =>
    simp only [whereTest, listTest_generic he hp]
  | null column => exact nullTest_generic he hp negated
  | between column low high => exact rangeTest_generic he hp negated low high
  | betweenColumns column low high =>
    obtain ⟨hc, hl, hh⟩ := hp
    simp only [whereTest, column_generic he hc, column_generic he hl, column_generic he hh]
  | compareColumns first operator second =>
    obtain ⟨hf, hs⟩ := hp
    simp only [whereTest, column_generic he hf, column_generic he hs]
  | sub column operator query =>
    simp only [whereTest, column_generic he hp]
  | rowValues columns operator values =>
    simp only [whereTest, columnList_generic he hp]
  | datePart | jsonBoolean | jsonContains | jsonContainsKey | jsonLength | fulltext => cases hp

theorem havingTest_generic {p : GroupPredicate Compiled} (hp : p.Shared e.dialect)
    (negated : Bool) : e.havingTest negated p = e.generic.havingTest negated p := by
  cases p with
  | basic column operator value =>
    obtain ⟨hc, ho⟩ := hp
    have bits := mem_bitwiseOperators_generic he ho
    simp only [havingTest, bits, havingBitwise_generic he hc, column_generic he hc]
  | raw | expression | nested => rfl
  | between column low high => exact rangeTest_generic he hp negated low high
  | null column => simp only [havingTest, column_generic he hp]
  | bitwise column operator value => simp only [havingTest, havingBitwise_generic he hp]

theorem whereClauses_generic {wheres : List (Where Compiled)}
    (h : ∀ w ∈ wheres, w.predicate.Shared e.dialect) :
    wheres.map e.whereClause = wheres.map e.generic.whereClause :=
  List.map_congr_left fun w member =>
    congrArg (Prod.mk w.conjunction) (whereTest_generic he (h w member) w.negated)

theorem havingClauses_generic {havings : List (Having Compiled)}
    (h : ∀ w ∈ havings, w.predicate.Shared e.dialect) :
    havings.map e.havingClause = havings.map e.generic.havingClause :=
  List.map_congr_left fun w member =>
    congrArg (Prod.mk w.conjunction) (havingTest_generic he (h w member) w.negated)

theorem aggregateSql_generic {distinct : Distinct} (hd : distinct.Shared e.dialect)
    {a : Aggregate Compiled} (ha : ∀ t ∈ a.columns, t.Arrowless) :
    e.aggregateSql distinct a = e.generic.aggregateSql distinct a := by
  have same := columnList_generic he ha
  cases distinct with
  | off | all => simp only [aggregateSql, same]
  | on names => simp only [aggregateSql, same, nameList_generic he hd.1]

theorem selectKeyword_generic {distinct : Distinct} (hd : distinct.Shared e.dialect) :
    e.selectKeyword distinct = e.generic.selectKeyword distinct := by
  rcases he with he | he <;> cases distinct with
  | off | all => simp only [selectKeyword, dialect_generic, he]
  | on names => first | exact absurd he hd.2 | simp only [selectKeyword, dialect_generic, he]

theorem columnsSql_generic {c : Clauses Compiled} (hd : c.distinct.Shared e.dialect)
    (hc : ∀ terms ∈ c.columns, ∀ t ∈ terms, t.Arrowless) :
    e.columnsSql c = e.generic.columnsSql c := by
  have top : e.topSql c = e.generic.topSql c := by
    rcases he with he | he <;> simp only [topSql, dialect_generic, he]
  have star : e.columnList [.name "*"] = e.generic.columnList [.name "*"] :=
    columnList_generic he (List.forall_mem_singleton.mpr (by decide : Text.hasArrow _ = false))
  unfold columnsSql
  rw [selectKeyword_generic he hd, top]
  split
  · next column columns chosen => rw [columnList_generic he (hc _ chosen)]
  · rw [star]

theorem sourceSql_generic (source : Term Compiled) :
    e.sourceSql none source = e.generic.sourceSql none source := by
  have hint : e.lockHint none = e.generic.lockHint none := by
    rcases he with he | he <;> simp only [lockHint, dialect_generic, he]
  unfold sourceSql
  rw [table_generic he, hint]

theorem joinSql_generic (j : Join Compiled) : e.joinSql j = e.generic.joinSql j := by
  simp only [joinSql, table_generic he]

theorem orderSql_generic {o : Order Compiled} (ho : o.Shared) :
    e.orderSql o = e.generic.orderSql o := by
  cases o with
  | byColumn column direction => simp only [orderSql, column_generic he ho]
  | raw sql bindings => rfl
  | random seed => rcases he with he | he <;> simp only [orderSql, randomSql, dialect_generic, he]

theorem orderList_generic {orders : List (Order Compiled)} (ho : ∀ o ∈ orders, o.Shared) :
    e.orderList orders = e.generic.orderList orders := by
  have each : orders.map e.orderSql = orders.map e.generic.orderSql :=
    List.map_congr_left fun o member => orderSql_generic he (ho o member)
  unfold orderList
  rw [each]

theorem ordersSql_generic {p : Paging} (ho : ∀ o ∈ p.orders, o.Shared) :
    e.ordersSql p = e.generic.ordersSql p := by
  have same := orderList_generic he ho
  rcases he with he | he <;> simp [ordersSql, he, same]

theorem limitSql_generic (p : Paging) : e.limitSql p = e.generic.limitSql p := by
  unfold limitSql
  cases p.limit <;> rcases he with he | he <;> simp only [dialect_generic, he]

theorem offsetSql_generic (p : Paging) : e.offsetSql p = e.generic.offsetSql p := by
  unfold offsetSql
  cases p.offset <;> rcases he with he | he <;> simp only [dialect_generic, he]

theorem cteSql_generic {c : Cte Compiled} (hc : c.Shared) : e.cteSql c = e.generic.cteSql c := by
  have keyword : e.materializedSql none = e.generic.materializedSql none := by
    rcases he with he | he <;> simp only [materializedSql, dialect_generic, he]
  simp only [cteSql, hc.cycle, hc.materialized, keyword, nameList_generic he hc.columns,
    wrapTable_generic he]

theorem withCtes_generic {ctes : List (Cte Compiled)} (hc : ∀ t ∈ ctes, t.Shared) (sql : Sql) :
    e.withCtes ctes sql = e.generic.withCtes ctes sql := by
  have each : ctes.map e.cteSql = ctes.map e.generic.cteSql :=
    List.map_congr_left fun t member => cteSql_generic he (hc t member)
  have keyword : e.recursiveKeyword = e.generic.recursiveKeyword := by
    rcases he with he | he <;> simp [recursiveKeyword, he]
  unfold withCtes ctesSql
  rw [each, keyword]

theorem limitRecursion?_generic (limit : Option Nat) (sql : Sql) :
    e.limitRecursion? limit sql = e.generic.limitRecursion? limit sql := by
  cases limit with
  | none => rfl
  | some limit =>
    rcases he with he | he <;> simp only [limitRecursion?, limitRecursion, dialect_generic, he]

/-! ### Whole statements -/

theorem unionsSql_generic {c : Clauses Compiled} (postgres : e.dialect = .postgres)
    (ho : ∀ o ∈ c.unionOrders, o.Shared) : e.unionsSql c = e.generic.unionsSql c := by
  have member (u : UnionMember Compiled) : e.unionMember u = e.generic.unionMember u := by
    simp only [unionMember, wrapUnion, postgres, dialect_generic]
  have paging : e.unionPagingSql c.unionPaging = e.generic.unionPagingSql c.unionPaging := by
    have same := ordersSql_generic he (p := c.unionPaging) ho
    simp [unionPagingSql, pagingSql, postgres, same, limitSql_generic he, offsetSql_generic he]
  unfold unionsSql
  rw [funext member, paging]

theorem componentSql_generic {c : Clauses Compiled} (h : c.Shared e.dialect) (part : Component) :
    e.componentSql c part = e.generic.componentSql c part := by
  cases part with
  | aggregate =>
    unfold componentSql
    cases chosen : c.aggregate with
    | none => rfl
    | some a => exact aggregateSql_generic he h.distinct (h.aggregate a chosen)
  | columns => simp only [componentSql, columnsSql_generic he h.distinct h.columns]
  | source => simp only [componentSql, h.lock, sourceSql_generic he]
  | indexHint => simp only [componentSql, h.indexHint]
  | joins =>
    have each : e.joinSql = e.generic.joinSql := funext (joinSql_generic he)
    simp only [componentSql, joinsSql, each]
  | wheres => simp only [componentSql, wheresSql, whereClauses_generic he h.wheres]
  | groups =>
    simp only [componentSql, groupsSql, columnList_generic he h.groups]
  | havings => simp only [componentSql, havingsSql, havingClauses_generic he h.havings]
  | orders => exact ordersSql_generic he h.orders
  | limit => simp only [componentSql, limitSql_generic he]
  | offset => simp only [componentSql, offsetSql_generic he]
  | lock => simp only [componentSql, h.lock]

theorem components_generic {c : Clauses Compiled} (h : c.Shared e.dialect) :
    e.components c = e.generic.components c := by
  have parts : e.selectComponents = e.generic.selectComponents := by
    rcases he with he | he <;> simp [selectComponents, he]
  have each : e.componentSql c = e.generic.componentSql c := funext (componentSql_generic he h)
  unfold components
  rw [parts, each]

theorem plainSelect_generic {c : Clauses Compiled} (h : c.Shared e.dialect) :
    e.plainSelect c = e.generic.plainSelect c := by
  unfold plainSelect
  simp only [components_generic he h, withCtes_generic he h.ctes, withCtes_generic he h.unionCtes,
    limitRecursion?_generic he]
  cases united : c.hasUnions with
  | false => rfl
  | true =>
    have postgres : e.dialect = .postgres := he.resolve_right fun sqlite => by
      simp [Clauses.hasUnions, h.unions sqlite] at united
    simp only [wrapUnion, postgres, dialect_generic, unionsSql_generic he postgres h.unionOrders]

theorem rowAggregate_generic {c : Clauses Compiled} (h : c.Shared e.dialect)
    {a : Aggregate Compiled} (ha : ∀ t ∈ a.columns, t.Arrowless) :
    e.rowAggregate c a = e.generic.rowAggregate c a := by
  have rows := plainSelect_generic he (c := { c with
    aggregate := none, ctes := [], unionCtes := [], recursionLimit := none,
    unionRecursionLimit := none }) { h with
      aggregate := by simp
      ctes := by simp
      unionCtes := by simp }
  have ctes := withCtes_generic he (List.forall_mem_append.mpr ⟨h.unionCtes, h.ctes⟩)
  simp only [rowAggregate, rows, ctes, aggregateSql_generic he h.distinct ha,
    limitRecursion?_generic he, wrapTable_generic he]

theorem selectSql_generic {c : Clauses Compiled} (h : c.Shared e.dialect) :
    e.selectSql c = e.generic.selectSql c := by
  unfold selectSql
  cases chosen : c.aggregate with
  | none => exact plainSelect_generic he h
  | some a => simp only [rowAggregate_generic he h (h.aggregate a chosen), plainSelect_generic he h]

theorem compiled_generic {c : Clauses Compiled} (h : c.Shared e.dialect) :
    e.compiled c = e.generic.compiled c := by
  unfold compiled
  rw [selectSql_generic he h, funext (joinSql_generic he), whereClauses_generic he h.wheres,
    havingClauses_generic he h.havings]

end Engine

section Map

variable {A B : Type} (f : A → B) {d : Dialect}

theorem arrowless_map {t : Term A} : (t.map f).Arrowless ↔ t.Arrowless := by
  cases t <;> rfl

theorem arrowless_map_list {ts : List (Term A)} :
    (∀ t ∈ ts.map (Term.map f), t.Arrowless) ↔ ∀ t ∈ ts, t.Arrowless := by
  simp [arrowless_map]

theorem shared_predicate_map {p : Predicate A} : (p.map f).Shared d ↔ p.Shared d := by
  cases p <;> simp [Predicate.map, Predicate.Shared, arrowless_map]

theorem shared_groupPredicate_map {p : GroupPredicate A} : (p.map f).Shared d ↔ p.Shared d := by
  cases p <;> simp [GroupPredicate.map, GroupPredicate.Shared, arrowless_map]

theorem shared_order_map {o : Order A} : (o.map f).Shared ↔ o.Shared := by
  cases o <;> simp [Order.map, Order.Shared, arrowless_map]

/-- What a clause shares does not depend on the values of the queries inside it. -/
theorem Clauses.Shared.map {c : Clauses A} (h : c.Shared d) : (c.map f).Shared d where
  aggregate := by
    have own := h.aggregate
    simp_all [Clauses.map, Aggregate.map, arrowless_map]
  columns := by
    have own := h.columns
    simp_all [Clauses.map, arrowless_map]
  distinct := h.distinct
  indexHint := h.indexHint
  wheres := List.forall_mem_map.mpr fun w member => (shared_predicate_map f).mpr (h.wheres w member)
  groups := (arrowless_map_list f).mpr h.groups
  havings := List.forall_mem_map.mpr fun w member =>
    (shared_groupPredicate_map f).mpr (h.havings w member)
  orders := List.forall_mem_map.mpr fun o member => (shared_order_map f).mpr (h.orders o member)
  unions sqlite := List.map_eq_nil_iff.mpr (h.unions sqlite)
  unionOrders := List.forall_mem_map.mpr fun o member =>
    (shared_order_map f).mpr (h.unionOrders o member)
  lock := h.lock
  ctes := List.forall_mem_map.mpr fun t member => { h.ctes t member with }
  unionCtes := List.forall_mem_map.mpr fun t member => { h.unionCtes t member with }

end Map

variable {e : Engine} (he : e.dialect = .postgres ∨ e.dialect = .sqlite) {q : Query}
  (h : q.Everywhere (Clauses.Shared e.dialect))
include he h

/-- All that a query is for those around it is the same in both dialects. -/
theorem Query.compiled_generic : q.compiled e = q.compiled e.generic := by
  induction h with
  | @mk c own inside ih =>
    have clauses : c.map (Query.compiled e) = c.map (Query.compiled e.generic) :=
      Clauses.map_congr ih
    rw [Query.compiled_eq, Query.compiled_eq]
    unfold Query.compiledClauses Query.clauses
    rw [clauses]
    exact Engine.compiled_generic he (own.map _)

/-- A query that shares its words with the generic dialect compiles as there, in Postgres and in
SQLite: to the same statement or to the same error. -/
theorem Query.select_generic : (q.compiled e).select = (q.compiled e.generic).select :=
  congrArg Compiled.select (Query.compiled_generic he h)

omit he h

/-- Flags of archived posts, compared bit by bit and with a pattern. -/
def archivedFlags : Query :=
  .mk {
    distinct := .on ["kind"]
    source := some (.name "archive")
    wheres := [{ predicate := .bitwise (.name "flags") "&" (.value (.int 4)) },
      { negated := true, predicate := .basic (.name "title") "LIKE" (.value (.text "%draft%")) }] }

/-- The lists that a post is in. -/
def postLists : Query :=
  .mk {
    source := some (.name "lists")
    wheres := [{ predicate := .compareColumns (.name "lists.post") "=" (.name "p.id") }] }

/-- Posts that are in no list, and a union with all that are archived. -/
def unlistedPosts : Query :=
  .mk {
    columns := some [.name "p.title", .raw "count(?)" [.int 1]]
    source := some (.name "posts as p")
    wheres := [{ negated := true, predicate := .hasRows postLists }]
    orders := [.random none]
    unions := [{ query := .mk { source := some (.name "archive") }, all := true }] }

/-- SQLite shares what compares bits and patterns, Postgres what makes a union. -/
theorem archivedFlags_unlistedPosts_select :
    (archivedFlags.Everywhere (Clauses.Shared .sqlite) ∧
      (archivedFlags.compiled { dialect := .sqlite }).select
        = (archivedFlags.compiled { dialect := .generic }).select) ∧
    unlistedPosts.Everywhere (Clauses.Shared .postgres) ∧
      (unlistedPosts.compiled { dialect := .postgres }).select
        = (unlistedPosts.compiled { dialect := .generic }).select := by
  have flags : archivedFlags.Everywhere (Clauses.Shared .sqlite) := by
    refine .mk ?_ (by simp [Clauses.queries, Where.queries, Predicate.queries, Term.queries])
    constructor <;> simp [Predicate.Shared, Term.Arrowless, Dialect.SharesOperator,
      Distinct.Shared, Arrowless] <;> decide
  have archive : (Query.mk { source := some (.name "archive") }).Everywhere
      (Clauses.Shared .postgres) := by
    refine .mk ?_ (by simp [Clauses.queries, Term.queries])
    constructor <;> simp [Distinct.Shared]
  have lists : postLists.Everywhere (Clauses.Shared .postgres) := by
    refine .mk ?_ (by simp [Clauses.queries, Where.queries, Predicate.queries, Term.queries])
    constructor <;> simp [Distinct.Shared, Predicate.Shared, Term.Arrowless]
    decide
  have posts : unlistedPosts.Everywhere (Clauses.Shared .postgres) := by
    refine .mk ?_ ?_
    · constructor <;> simp [Distinct.Shared, Predicate.Shared, Term.Arrowless, Order.Shared]
      decide
    · simpa [Clauses.queries, Where.queries, Predicate.queries, Term.queries, Order.queries]
        using ⟨lists, archive⟩
  exact ⟨⟨flags, Query.select_generic (.inr rfl) flags⟩, posts,
    Query.select_generic (.inl rfl) posts⟩

end SqlCompiler
