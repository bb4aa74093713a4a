import SqlCompiler.Proofs.Erasure
import SqlCompiler.Proofs.RowBounds
/-!
# Windows of rows

A page of a result is a window: rows to skip, and rows to take of those behind them. SQL Server
states it in three forms at two places of a select statement, generic SQL behind its order. Around
the page both statements stay as they are, whatever the limit and the offset are.
-/

namespace SqlCompiler

/-- Rows to skip, and how many to take of those that follow; without a number, all. -/
structure Window where
  skip : Nat
  take : Option Nat
deriving DecidableEq, Repr

/-- A select statement without its page: with-expressions, the columns and all clauses before the
order, the terms of the order, and what stands behind the page. -/
structure Frame where
  opening : String
  distinct : Bool
  body : String
  orders : Option String
  closing : String
deriving DecidableEq, Repr

namespace Frame

variable (f : Frame)

def keyword : String :=
  if f.distinct then "select distinct " else "select "

def ordered : String :=
  f.orders.elim "" fun terms => " order by " ++ terms

/-- An order in any case, if only one that changes nothing. -/
def mustOrder : String :=
  " order by " ++ f.orders.getD "(SELECT 0)"

/-- The statement with `first` before its columns and `last` behind its clauses. -/
def around (first last : String) : String :=
  f.opening ++ f.keyword ++ first ++ f.body ++ last ++ f.closing

end Frame

/-- The forms of a page in SQL Server. Rows are skipped only behind an order, and `top` stands
alone. -/
inductive ServerPage where
  | all
  | top (n : Nat)
  | offset (o : Nat)
  | fetch (o n : Nat)
deriving DecidableEq, Repr

namespace ServerPage

def window : ServerPage → Window
  | all => ⟨0, none⟩
  | top n => ⟨0, some n⟩
  | offset o => ⟨o, none⟩
  | fetch o n => ⟨o, some n⟩

def write (f : Frame) : ServerPage → String
  | all => f.around "" f.ordered
  | top n => f.around ("top " ++ natText n ++ " ") f.ordered
  | offset o => f.around "" (f.mustOrder ++ " offset " ++ natText o ++ " rows")
  | fetch o n => f.around ""
      (f.mustOrder ++ " offset " ++ natText o ++ " rows" ++ " fetch next " ++ natText n
        ++ " rows only")

end ServerPage

/-- A page in generic SQL. -/
structure GenericPage where
  limit : Option Nat
  offset : Option Nat
deriving DecidableEq, Repr

namespace GenericPage

def window (p : GenericPage) : Window :=
  ⟨p.offset.getD 0, p.limit⟩

def write (f : Frame) (p : GenericPage) : String :=
  f.around "" (f.ordered ++ p.limit.elim "" (fun n => " limit " ++ natText n)
    ++ p.offset.elim "" fun o => " offset " ++ natText o)

end GenericPage

namespace Sql

/-- Parts behind other words, each after a blank. -/
def trailing (parts : List Sql) : String :=
  parts.foldr (fun part rest => behind part.text ++ rest) ""

theorem trailing_nil : trailing [] = "" := rfl

theorem trailing_cons (part : Sql) (parts : List Sql) :
    trailing (part :: parts) = behind part.text ++ trailing parts := rfl

theorem trailing_append (a b : List Sql) : trailing (a ++ b) = trailing a ++ trailing b := by
  induction a with
  | nil => simp [trailing]
  | cons part a ih => simpa [trailing, String.append_assoc] using ih

theorem text_spaced_cons {first : Sql} (solid : first.text ≠ "") (parts : List Sql) :
    (spaced (first :: parts)).text = first.text ++ trailing parts := by
  induction parts using List.reverseRecOn with
  | nil =>
    have kept : first.isEmpty = false := by simpa using mt isEmpty_iff.mp solid
    simp [spaced, kept, join, trailing]
  | append_singleton parts last ih =>
    rw [← List.cons_append, text_spaced_concat ⟨first, List.mem_cons_self, solid⟩, ih,
      trailing_append, String.append_assoc]
    simp [trailing]

end Sql

namespace Engine

variable {e : Engine} {c : Clauses Compiled}

/-! ### The frame of a query -/

/-- The clauses between the columns and the order. -/
def middleComponents : List Component :=
  [.source, .indexHint, .joins, .wheres, .groups, .havings]

/-- With-expressions with the blank behind them. -/
def lead (ctes : Sql) : String :=
  if ctes.isEmpty then "" else ctes.text ++ " "

/-- SQL Server writes the limit of recursion at the end of a statement. -/
def recursionOption (e : Engine) (limit : Option Nat) : String :=
  match e.dialect, limit with
  | .sqlserver, some limit => " option (maxrecursion " ++ natText limit ++ ")"
  | _, _ => ""

/-- What a select statement without unions and without an aggregate is around its page. -/
def frame (e : Engine) (c : Clauses Compiled) : Except CompileError Frame := do
  let columns ← e.columnList <| match c.columns with
    | some (column :: columns) => column :: columns
    | _ => [.name "*"]
  let body ← allOk (middleComponents.map (e.componentSql c))
  let orders ← joinOutcomes ", " (c.orders.map e.orderSql)
  let ctes ← e.ctesSql c.ctes
  let unionCtes ← e.ctesSql c.unionCtes
  return {
    opening := lead unionCtes ++ lead ctes
    distinct := c.distinct ≠ .off
    body := columns.text ++ Sql.trailing body
    orders := if c.orders.isEmpty then none else some orders.text
    closing := Sql.behind ((c.lock.map e.lockSql).getD "") ++ e.recursionOption c.recursionLimit }

theorem selectKeyword_eq (dialect : e.dialect ≠ .postgres) (distinct : Distinct) :
    e.selectKeyword distinct
      = .ok (Sql.ofText (if distinct ≠ .off then "select distinct " else "select ")) := by
  cases distinct with
  | off => simp [selectKeyword]
  | all => simp [selectKeyword]
  | on names => simp [selectKeyword, dialect]

/-- A statement behind its with-expressions. -/
def behindCtes (ctes sql : Sql) : Sql :=
  if ctes.isEmpty then sql else ctes ++ " " ++ sql

theorem behindCtes_text (ctes sql : Sql) : (behindCtes ctes sql).text = lead ctes ++ sql.text := by
  unfold behindCtes lead
  split <;> simp [String.append_assoc]

theorem withCtes_eq (ctes : List (Cte Compiled)) (sql : Sql) :
    e.withCtes ctes sql = (e.ctesSql ctes).map (behindCtes · sql) := by
  unfold withCtes
  by_cases none : ctes.isEmpty
  · rw [if_pos none, ctesSql, if_pos none]
    rfl
  · rw [if_neg none]
    cases written : e.ctesSql ctes with
    | error error => rfl
    | ok s =>
      have solid : s.isEmpty = false := by
        rw [ctesSql, if_neg none] at written
        obtain ⟨statements, -, done⟩ := bind_ok written
        obtain rfl := pure_ok done
        exact Bool.eq_false_iff.mpr (mt Sql.isEmpty_iff.mp (by simp))
      simp only [bind_of_ok, map_of_ok, behindCtes, solid]
      rfl

theorem ordersSql_eq (p : Paging) :
    e.ordersSql p = (joinOutcomes ", " (p.orders.map e.orderSql)).map fun terms =>
      if p.orders.isEmpty then (if e.dialect = .sqlserver ∧ p.skips then anyOrder else .empty)
      else "order by " ++ terms := by
  unfold ordersSql orderList
  by_cases none : p.orders.isEmpty
  · obtain nothing := List.isEmpty_iff.mp none
    simp [nothing, joinOutcomes, allOk, apply_ite Except.ok]
  · simp [none]

/-- Without an aggregate, the parts of a select statement are its columns, the clauses up to the
order, the page and the lock. -/
theorem components_eq (plain : c.aggregate = none) :
    e.components c = do
      let columns ← e.columnsSql c
      let body ← allOk (middleComponents.map (e.componentSql c))
      let orders ← e.ordersSql c.paging
      let lock ← e.componentSql c .lock
      return Sql.spaced (columns :: (body ++ orders :: (e.pagingSql c.paging ++ [lock]))) := by
  have parts : e.selectComponents.map (e.componentSql c)
      = .ok .empty :: e.columnsSql c :: (middleComponents.map (e.componentSql c) ++
          e.ordersSql c.paging
            :: ((e.pagingSql c.paging).map .ok ++ [e.componentSql c .lock])) := by
    unfold selectComponents pagingSql
    split <;> simp [middleComponents, componentSql, plain]
  have page : allOk ((e.pagingSql c.paging).map .ok : List Outcome) = .ok (e.pagingSql c.paging) :=
    allOk_eq_ok.mpr rfl
  have spaced (rest : List Sql) : Sql.spaced (.empty :: rest) = Sql.spaced rest := rfl
  rw [components, parts]
  simp only [allOk_cons, allOk_append, page, bind_of_ok, map_of_map, map_of_bind, spaced]
  rfl

theorem limitRecursion?_text (dialect : e.dialect ≠ .mysql) (limit : Option Nat) (sql : Sql) :
    (e.limitRecursion? limit sql).text = sql.text ++ e.recursionOption limit := by
  unfold limitRecursion? limitRecursion recursionOption
  cases limit with
  | none => cases e.dialect <;> simp
  | some limit =>
    cases written : e.dialect with
    | mysql => exact (dialect written).elim
    | sqlserver => simp [String.append_assoc]
    | generic | postgres | sqlite => simp

theorem plainSelect_text (single : c.unions = []) :
    (e.plainSelect c).map Sql.text = do
      let body ← e.components c
      let ctes ← e.ctesSql c.ctes
      let unionCtes ← e.ctesSql c.unionCtes
      return lead unionCtes ++ (lead ctes ++ (e.limitRecursion? c.recursionLimit body).text) := by
  have alone : c.hasUnions = false := by simp [Clauses.hasUnions, single]
  rw [plainSelect, alone]
  simp only [Bool.false_eq_true, if_false, map_of_bind, bind_of_ok, withCtes_eq, bind_of_map,
    map_of_map, behindCtes_text]
  rfl

/-- The order of a query, behind the clauses before it. -/
theorem behind_orders (p : Paging) (f : Frame) (terms : Sql)
    (shown : f.orders = if p.orders.isEmpty then none else some terms.text) :
    Sql.behind (Sql.text
        (if p.orders.isEmpty then (if e.dialect = .sqlserver ∧ p.skips then anyOrder else .empty)
          else "order by " ++ terms))
      = if e.dialect = .sqlserver ∧ p.skips then f.mustOrder else f.ordered := by
  unfold Frame.mustOrder Frame.ordered
  rw [shown]
  by_cases none : p.orders.isEmpty
  · rw [if_pos none, if_pos none]
    split <;> rfl
  · have blank : " " ++ ("order by " ++ terms.text) = " order by " ++ terms.text := by
      rw [← String.append_assoc]
      rfl
    rw [if_neg none, if_neg none, Sql.text_append, Sql.text_ofText, Sql.behind, if_neg (by simp),
      blank]
    split <;> rfl

/-- The statement of a query without unions and without an aggregate around its page. -/
theorem selectSql_text (dialect : e.dialect = .sqlserver ∨ e.dialect = .generic)
    (single : c.unions = []) (plain : c.aggregate = none) :
    (e.selectSql c).map Sql.text = (e.frame c).map fun f =>
      f.around (e.topSql c)
        ((if e.dialect = .sqlserver ∧ c.paging.skips then f.mustOrder else f.ordered)
          ++ Sql.trailing (e.pagingSql c.paging)) := by
  have notPostgres : e.dialect ≠ .postgres := by rcases dialect with h | h <;> simp [h]
  have notMysql : e.dialect ≠ .mysql := by rcases dialect with h | h <;> simp [h]
  have select : e.selectSql c = e.plainSelect c := by rw [selectSql, plain]
  obtain ⟨lock, lockOk⟩ : ∃ lock, e.componentSql c .lock = .ok lock := by
    cases held : c.lock <;> exact ⟨_, by rw [componentSql, held]⟩
  rw [select, plainSelect_text single, components_eq plain, frame, columnsSql,
    selectKeyword_eq notPostgres, ordersSql_eq]
  simp only [limitRecursion?_text notMysql, lockOk, bind_of_ok, bind_assoc, pure_bind, bind_of_map,
    map_of_bind, map_of_pure]
  refine congrArg (_ >>= ·) (funext fun columns => congrArg (_ >>= ·) (funext fun body =>
    congrArg (_ >>= ·) (funext fun terms => congrArg (_ >>= ·) (funext fun ctes =>
    congrArg (_ >>= ·) (funext fun unionCtes => congrArg pure ?_)))))
  have solid (sql : Sql) : (Sql.ofText (if c.distinct ≠ .off then "select distinct " else "select ")
      ++ Sql.ofText (e.topSql c) ++ sql).text ≠ "" := by
    split <;> simp
  generalize built : Frame.mk _ _ _ _ _ = f
  have shown : f.orders = if c.paging.orders.isEmpty then none else some terms.text := by
    rw [← built]
    rfl
  rw [Sql.text_spaced_cons (solid columns), Sql.trailing_append, Sql.trailing_cons,
    Sql.trailing_append, Sql.trailing_cons, lock_text lockOk, behind_orders c.paging f terms shown,
    ← built]
  simp only [Frame.around, Frame.keyword, Sql.text_append, Sql.text_ofText, String.append_assoc,
    decide_eq_true_eq, Sql.trailing_nil, String.empty_append]

/-! ### Pages -/

theorem serverPage_unskipped (dialect : e.dialect = .sqlserver) (start : c.offset.getD 0 = 0) :
    ∃ page : ServerPage, page.window = ⟨0, c.limit.filter (0 < ·)⟩ ∧ ∀ f : Frame,
      f.around (e.topSql c) (f.ordered ++ Sql.trailing (e.pagingSql c.paging)) = page.write f := by
  have unskipped : c.paging.skips = false := by simp [Paging.skips, Clauses.paging, start]
  have offset : e.offsetSql c.paging = "" := by
    unfold offsetSql Clauses.paging
    cases given : c.offset <;> simp_all
  have limit : e.limitSql c.paging = "" := by
    unfold limitSql
    cases c.paging.limit <;> simp [dialect, unskipped]
  have page : Sql.trailing (e.pagingSql c.paging) = "" := by
    simp [pagingSql, dialect, offset, limit, Sql.trailing_cons, Sql.behind, Sql.trailing_nil]
  simp only [page, String.append_empty]
  cases taken : c.limit.filter (0 < ·) with
  | none =>
    have first : e.topSql c = "" := by
      unfold topSql
      cases given : c.limit <;> simp_all
    exact ⟨.all, rfl, fun f => by rw [first]; rfl⟩
  | some n =>
    obtain ⟨given, positive⟩ := Option.filter_eq_some_iff.mp taken
    have first : e.topSql c = "top " ++ natText n ++ " " := by simp_all [topSql]
    exact ⟨.top n, rfl, fun f => by rw [first]; rfl⟩

theorem serverPage_skipped (dialect : e.dialect = .sqlserver) {o : Nat} (given : c.offset = some o)
    (more : 0 < o) :
    ∃ page : ServerPage, page.window = ⟨o, c.limit.filter (0 < ·)⟩ ∧ ∀ f : Frame,
      f.around (e.topSql c) (f.mustOrder ++ Sql.trailing (e.pagingSql c.paging))
        = page.write f := by
  have skipped : c.paging.skips = true := by simp [Paging.skips, Clauses.paging, given, more]
  have first : e.topSql c = "" := by
    unfold topSql
    cases c.limit <;> simp [dialect, given, Nat.ne_of_gt more]
  have offset : e.offsetSql c.paging = "offset " ++ natText o ++ " rows" := by
    rw [offsetSql, dialect, Clauses.paging, given]
    exact if_pos more
  simp only [first, pagingSql, if_pos dialect, offset, Sql.trailing_cons, Sql.trailing_nil,
    Sql.text_ofText]
  cases taken : c.limit.filter (0 < ·) with
  | none =>
    have limit : e.limitSql c.paging = "" := by
      unfold limitSql Clauses.paging
      cases given : c.limit <;> simp_all
    refine ⟨.offset o, rfl, fun f => ?_⟩
    simp [limit, Sql.behind, ServerPage.write, ← String.append_assoc]
  | some n =>
    obtain ⟨given, positive⟩ := Option.filter_eq_some_iff.mp taken
    have limit : e.limitSql c.paging = "fetch next " ++ natText n ++ " rows only" := by
      simp_all [limitSql, Clauses.paging]
    refine ⟨.fetch o n, rfl, fun f => ?_⟩
    simp [limit, Sql.behind, ServerPage.write, ← String.append_assoc]

theorem serverPage_text (dialect : e.dialect = .sqlserver) (c : Clauses Compiled) :
    ∃ page : ServerPage, page.window = ⟨c.offset.getD 0, c.limit.filter (0 < ·)⟩ ∧ ∀ f : Frame,
      f.around (e.topSql c)
        ((if e.dialect = .sqlserver ∧ c.paging.skips then f.mustOrder else f.ordered)
          ++ Sql.trailing (e.pagingSql c.paging)) = page.write f := by
  by_cases start : c.offset.getD 0 = 0
  · have unskipped : ¬ (e.dialect = .sqlserver ∧ c.paging.skips) := by
      simp [Paging.skips, Clauses.paging, start]
    simp only [if_neg unskipped, start]
    exact serverPage_unskipped dialect start
  · obtain ⟨o, given⟩ : ∃ o, c.offset = some o := by
      cases given : c.offset <;> simp_all
    have more : 0 < o := Nat.pos_of_ne_zero (by simpa [given] using start)
    have skipped : e.dialect = .sqlserver ∧ c.paging.skips :=
      ⟨dialect, by simp [Paging.skips, Clauses.paging, given, more]⟩
    simp only [if_pos skipped, given, Option.getD_some]
    exact serverPage_skipped dialect given more

theorem genericPage_text (dialect : e.dialect = .generic) (c : Clauses Compiled) (f : Frame) :
    f.around (e.topSql c)
        ((if e.dialect = .sqlserver ∧ c.paging.skips then f.mustOrder else f.ordered)
          ++ Sql.trailing (e.pagingSql c.paging))
      = (GenericPage.mk c.limit c.offset).write f := by
  have first : e.topSql c = "" := by simp [topSql, dialect]
  have limit : e.limitSql c.paging = c.limit.elim "" fun n => "limit " ++ natText n := by
    cases limit : c.limit <;> simp [limitSql, dialect, Clauses.paging, limit]
  have offset : e.offsetSql c.paging = c.offset.elim "" fun o => "offset " ++ natText o := by
    cases offset : c.offset <;> simp [offsetSql, dialect, Clauses.paging, offset]
  have unskipped : ¬ (e.dialect = .sqlserver ∧ c.paging.skips) := by simp [dialect]
  have plain : ¬ e.dialect = .sqlserver := by simp [dialect]
  simp only [first, pagingSql, limit, offset, if_neg unskipped, if_neg plain, Sql.trailing_cons,
    Sql.trailing_nil, Sql.text_ofText]
  cases c.limit <;> cases c.offset <;>
    simp [GenericPage.write, Sql.behind, ← String.append_assoc]

theorem select_paged (dialect : e.dialect = .sqlserver ∨ e.dialect = .generic)
    {c : Clauses Query} (single : c.unions = []) (plain : c.aggregate = none)
    (limit offset : Option Nat) :
    ((Query.mk { c with limit, offset }).compiled e).select.map Sql.text
      = (e.frame (c.map (Query.compiled e))).map fun f =>
        let paged := { c.map (Query.compiled e) with limit, offset }
        f.around (e.topSql paged)
          ((if e.dialect = .sqlserver ∧ paged.paging.skips then f.mustOrder else f.ordered)
            ++ Sql.trailing (e.pagingSql paged.paging)) := by
  rw [Query.compiled_eq]
  exact selectSql_text dialect (congrArg (List.map _) single) (congrArg (Option.map _) plain)

/-- SQL Server and generic SQL state pages of the same statement. They state the same window of
its rows unless the limit is zero, which SQL Server takes for none. -/
theorem select_windows (server generic : Engine) (hs : server.dialect = .sqlserver)
    (hg : generic.dialect = .generic) {c : Clauses Query} (single : c.unions = [])
    (plain : c.aggregate = none) :
    ∃ serverFrame genericFrame : Except CompileError Frame,
      ∀ limit offset, ∃ (serverPage : ServerPage) (genericPage : GenericPage),
        ((Query.mk { c with limit, offset }).compiled server).select.map Sql.text
          = serverFrame.map serverPage.write ∧
        ((Query.mk { c with limit, offset }).compiled generic).select.map Sql.text
          = genericFrame.map genericPage.write ∧
        genericPage.window = ⟨offset.getD 0, limit⟩ ∧
        serverPage.window = ⟨offset.getD 0, limit.filter (0 < ·)⟩ ∧
        (serverPage.window = genericPage.window ↔ limit ≠ some 0) := by
  refine ⟨server.frame (c.map (Query.compiled server)),
    generic.frame (c.map (Query.compiled generic)), fun limit offset => ?_⟩
  obtain ⟨page, window, written⟩ :=
    serverPage_text hs { c.map (Query.compiled server) with limit, offset }
  refine ⟨page, ⟨limit, offset⟩, ?_, ?_, rfl, window, ?_⟩
  · rw [select_paged (.inl hs) single plain]
    exact congrArg (Except.map · _) (funext written)
  · rw [select_paged (.inr hg) single plain]
    exact congrArg (Except.map · _)
      (funext (genericPage_text hg { c.map (Query.compiled generic) with limit, offset }))
  · rw [window]
    rcases limit with _ | _ | n <;> simp [GenericPage.window]

end Engine

def usersByName : Clauses Query :=
  { source := some (.name "users"), orders := [.byColumn (.name "name") .asc] }

theorem usersByName_windows : usersByName.unions = [] ∧ usersByName.aggregate = none ∧
    ∃ f : Except CompileError Frame,
      (∃ page : ServerPage, page.window = ⟨20, some 10⟩ ∧
        ((Query.mk { usersByName with limit := some 10, offset := some 20 }).compiled
          (.mk .sqlserver {})).select.map Sql.text = f.map page.write) ∧
      ∃ page : ServerPage, page.window = ⟨0, some 10⟩ ∧
        ((Query.mk { usersByName with limit := some 10, offset := none }).compiled
          (.mk .sqlserver {})).select.map Sql.text = f.map page.write := by
  obtain ⟨f, _, pages⟩ := Engine.select_windows (.mk .sqlserver {}) (.mk .generic {}) rfl rfl
    (c := usersByName) rfl rfl
  obtain ⟨behind, _, behindText, -, -, behindWindow, -⟩ := pages (some 10) (some 20)
  obtain ⟨first, _, firstText, -, -, firstWindow, -⟩ := pages (some 10) none
  exact ⟨rfl, rfl, f, ⟨behind, behindWindow, behindText⟩, first, firstWindow, firstText⟩

def noUsers : Clauses Query :=
  { source := some (.name "users"), limit := some 0 }

/-- The select statement of all columns of a table, without its page. -/
def wholeTable (table : String) : Frame :=
  { opening := "", distinct := false, body := "* from " ++ table, orders := none, closing := "" }

/-- Of a page without rows SQL Server says nothing, and no page of no rows is written like that. -/
theorem noUsers_unlimited : noUsers.unions = [] ∧ noUsers.aggregate = none ∧
    ((Query.mk noUsers).compiled (.mk .generic {})).select.map Sql.text
      = .ok ((GenericPage.mk (some 0) none).write (wholeTable "\"users\"")) ∧
    (GenericPage.mk (some 0) none).window = ⟨0, some 0⟩ ∧
    ((Query.mk noUsers).compiled (.mk .sqlserver {})).select.map Sql.text
      = .ok "select * from [users]" ∧
    ∀ page : ServerPage, page.write (wholeTable "[users]") = "select * from [users]" →
      page.window ≠ ⟨0, some 0⟩ := by
  refine ⟨rfl, rfl, rfl, rfl, rfl, fun page written window => ?_⟩
  cases page with
  | all => cases window
  | offset o => cases window
  | top n =>
    cases window
    revert written
    decide
  | fetch o n =>
    cases window
    revert written
    decide

end SqlCompiler
