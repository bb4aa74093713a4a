import SqlCompiler.Proofs.BuiltQueries
import SqlCompiler.Proofs.PageWindows
import SqlCompiler.Proofs.SelectReader
/-!
# Limits of recursion

A limit of recursion leaves a mark in a select statement: SQL Server has an option at its end,
MySQL a hint behind the `select` of the statement itself. The mark comes before or behind the
with-expressions, the other members of a union and the count of their rows, as the query has them.
-/

namespace SqlCompiler

namespace Engine

variable {e : Engine} {c : Clauses Compiled}

/-- With-expressions before a statement, with a blank behind them. -/
def ctesText (e : Engine) (ctes : List (Cte Compiled)) : Except CompileError String :=
  (e.ctesSql ctes).map lead

/-- What stands before the `select` of a query's own first member. -/
def memberFront (e : Engine) (c : Clauses Compiled) : Except CompileError String :=
  (e.ctesText c.ctes).map fun ctes => if c.hasUnions then "(" ++ ctes else ctes

/-- What stands before the `select` that opens the block of a statement itself. -/
def front (e : Engine) (c : Clauses Compiled) : Except CompileError String :=
  if c.aggregatesRows then e.ctesText (c.unionCtes ++ c.ctes)
  else do
    let ctes ← e.ctesText c.unionCtes
    let member ← e.memberFront c
    return ctes ++ member

/-- The parts of a select statement that its limits of recursion are put between. -/
structure Opened where
  outer : Sql
  own : Sql
  body : Sql
  unions : Option Sql

namespace Opened

def select (e : Engine) (o : Opened) (limit : Option Nat) : Sql :=
  behindCtes o.outer <| match o.unions with
    | none => behindCtes o.own (e.limitRecursion? limit o.body)
    | some unions =>
      e.limitRecursion? limit (e.wrapUnion (behindCtes o.own o.body) ++ " " ++ unions)

end Opened

def unionTail (e : Engine) (c : Clauses Compiled) : Except CompileError (Option Sql) :=
  if c.hasUnions then (e.unionsSql c).map some else .ok none

def plainOpened (e : Engine) (c : Clauses Compiled) : Except CompileError Opened := do
  let body ← e.components c
  let own ← e.ctesSql c.ctes
  let unions ← e.unionTail c
  let outer ← e.ctesSql c.unionCtes
  return { outer, own, body, unions }

def rowsOpened (e : Engine) (c : Clauses Compiled) (a : Aggregate Compiled) :
    Except CompileError Opened := do
  let head ← e.aggregateSql c.distinct a
  let inner ← e.plainSelect (rowsOf c)
  let outer ← e.ctesSql (c.unionCtes ++ c.ctes)
  return {
    outer, own := .empty, unions := none
    body := head ++ " from (" ++ inner ++ ") as " ++ e.wrapTable "temp_table" }

def opened (e : Engine) (c : Clauses Compiled) : Except CompileError Opened :=
  match c.aggregate with
  | some a => if c.aggregatesRows then e.rowsOpened c a else e.plainOpened c
  | none => e.plainOpened c

/-- The limit of recursion that a statement shows. -/
def recursion (c : Clauses Compiled) : Option Nat :=
  if c.hasUnions ∨ c.aggregatesRows then c.unionRecursionLimit <|> c.recursionLimit
  else c.recursionLimit

theorem plainSelect_opened (own : c.aggregatesRows = false) :
    e.plainSelect c = (e.plainOpened c).map fun o => o.select e (recursion c) := by
  unfold plainSelect plainOpened unionTail recursion
  simp only [withCtes_eq, map_of_bind, bind_of_map, own]
  refine congrArg (_ >>= ·) (funext fun body => congrArg (_ >>= ·) (funext fun ctes => ?_))
  cases members : c.hasUnions with
  | false =>
    simp only [Bool.false_eq_true, false_or, if_false, bind_of_ok]
    rfl
  | true =>
    simp only [true_or, if_true, bind_of_ok, bind_of_map]
    rfl

theorem rowAggregate_opened {a : Aggregate Compiled} (rows : c.aggregatesRows = true) :
    e.rowAggregate c a = (e.rowsOpened c a).map fun o => o.select e (recursion c) := by
  unfold rowAggregate rowsOpened recursion
  simp only [withCtes_eq, map_of_bind, rows, or_true, if_true]
  rfl

theorem selectSql_opened (c : Clauses Compiled) :
    e.selectSql c = (e.opened c).map fun o => o.select e (recursion c) := by
  unfold selectSql opened
  cases counted : c.aggregate with
  | none => exact plainSelect_opened (by simp [Clauses.aggregatesRows, counted])
  | some a =>
    cases rows : c.aggregatesRows with
    | false => exact plainSelect_opened rows
    | true => exact rowAggregate_opened rows

theorem opened_limits (c : Clauses Compiled) (own whole : Option Nat) :
    e.opened { c with recursionLimit := own, unionRecursionLimit := whole } = e.opened c := rfl

theorem lead_shape {ctes : List (Cte Compiled)} {s : Sql} (ok : e.ctesSql ctes = .ok s) :
    lead s = "" ∨ ∃ words, lead s = "with " ++ words ++ " " := by
  unfold ctesSql at ok
  split at ok
  · obtain rfl := Except.ok.inj ok
    exact .inl rfl
  · obtain ⟨statements, -, done⟩ := bind_ok ok
    obtain rfl := pure_ok done
    refine .inr ⟨(if ctes.any Cte.recursive then e.recursiveKeyword else "") ++ statements.text, ?_⟩
    rw [lead, if_neg (mt Sql.isEmpty_iff.mp (by simp))]
    simp [String.append_assoc]

theorem components_select {sql : Sql} (ok : e.components c = .ok sql) :
    ∃ rear, sql.text = "select" ++ rear := by
  obtain ⟨values, all, rfl⟩ := map_ok ok
  have listed := allOk_eq_ok.mp all
  rw [selectComponents] at listed
  obtain ⟨head, others, rfl, headOk, listed⟩ := List.map_eq_cons_iff.mp listed.symm
  obtain ⟨columns, rest, rfl, columnsOk, -⟩ := List.map_eq_cons_iff.mp listed
  have opens (first : Sql) (parts : List Sql) (word : ∃ rear, first.text = "select" ++ rear) :
      ∃ rear, (Sql.spaced (first :: parts)).text = "select" ++ rear := by
    obtain ⟨rear, text⟩ := word
    rw [Sql.text_spaced_cons (by simp [text]), text]
    exact ⟨rear ++ Sql.trailing parts, String.append_assoc⟩
  cases counted : c.aggregate with
  | none =>
    simp only [componentSql, counted, Option.isNone_none, if_true] at headOk columnsOk
    obtain rfl := Except.ok.inj headOk
    exact opens columns rest (columnsSql_select columnsOk.symm)
  | some a =>
    rw [componentSql, counted] at headOk
    exact opens head (columns :: rest) (aggregateSql_select _ _ head headOk.symm)

/-- What a statement opens with, read off its clauses. -/
structure Opens (e : Engine) (c : Clauses Compiled) (o : Opened) : Prop where
  body : ∃ rear, o.body.text = "select" ++ rear
  outer : lead o.outer = "" ∨ ∃ words, lead o.outer = "with " ++ words ++ " "
  own : lead o.own = "" ∨ ∃ words, lead o.own = "with " ++ words ++ " "
  unions : o.unions.isSome = (c.hasUnions && !c.aggregatesRows)
  front : e.front c
    = .ok (lead o.outer ++ ((if o.unions.isSome then "(" else "") ++ lead o.own))
  member : c.aggregatesRows = false →
    e.memberFront c = .ok ((if o.unions.isSome then "(" else "") ++ lead o.own)

theorem plainOpened_opens (own : c.aggregatesRows = false) {o : Opened}
    (ok : e.plainOpened c = .ok o) : Opens e c o := by
  obtain ⟨body, bodyOk, ok⟩ := bind_ok ok
  obtain ⟨ctes, ctesOk, ok⟩ := bind_ok ok
  obtain ⟨unions, unionsOk, ok⟩ := bind_ok ok
  obtain ⟨outer, outerOk, done⟩ := bind_ok ok
  obtain rfl := pure_ok done
  have members : unions.isSome = c.hasUnions := by
    unfold unionTail at unionsOk
    cases some : c.hasUnions with
    | false =>
      rw [some] at unionsOk
      obtain rfl := Except.ok.inj unionsOk
      rfl
    | true =>
      rw [some] at unionsOk
      obtain ⟨sql, -, rfl⟩ := map_ok unionsOk
      rfl
  have member : e.memberFront c = .ok ((if unions.isSome then "(" else "") ++ lead ctes) := by
    rw [memberFront, ctesText, ctesOk, members]
    cases c.hasUnions <;> simp
  exact {
    body := components_select bodyOk
    outer := lead_shape outerOk
    own := lead_shape ctesOk
    unions := by simp [members, own]
    front := by simp [front, own, ctesText, outerOk, member]
    member := fun _ => member }

theorem rowsOpened_opens {a : Aggregate Compiled} (rows : c.aggregatesRows = true) {o : Opened}
    (ok : e.rowsOpened c a = .ok o) : Opens e c o := by
  obtain ⟨head, headOk, ok⟩ := bind_ok ok
  obtain ⟨inner, -, ok⟩ := bind_ok ok
  obtain ⟨outer, outerOk, done⟩ := bind_ok ok
  obtain rfl := pure_ok done
  obtain ⟨rear, text⟩ := aggregateSql_select _ _ head headOk
  exact {
    body := ⟨rear ++ " from (" ++ inner.text ++ ") as " ++ e.wrapTable "temp_table", by
      simp [text, String.append_assoc]⟩
    outer := lead_shape outerOk
    own := .inl rfl
    unions := by simp [rows]
    front := by simp [front, rows, ctesText, outerOk, lead, Sql.isEmpty, Sql.empty]
    member := fun own => by rw [rows] at own; cases own }

theorem opened_opens {o : Opened} (ok : e.opened c = .ok o) : Opens e c o := by
  unfold opened at ok
  cases counted : c.aggregate with
  | none =>
    rw [counted] at ok
    exact plainOpened_opens (by simp [Clauses.aggregatesRows, counted]) ok
  | some a =>
    rw [counted] at ok
    cases rows : c.aggregatesRows with
    | false => exact plainOpened_opens rows (by simpa [rows] using ok)
    | true => exact rowsOpened_opens (a := a) rows (by simpa [rows] using ok)

/-- A with-expression whose name is one word, and whose columns and body close what they open. -/
structure PlainCte (e : Engine) (cte : Cte Compiled) : Prop where
  name : Word (e.wrapTable cte.name).toList
  columns : Yields (fun names => Paired names.text.toList) (e.nameList cte.columns)
  body : Yields (fun body => Paired body.text.toList) (match cte.body with
    | .select query => query.select
    | .raw sql bindings => .ok (.ofFragment sql bindings))

theorem cteSql_outline (dialect : e.dialect = .mysql) {cte : Cte Compiled}
    (plain : e.PlainCte cte) :
    Yields (fun sql => Outline ' ' sql.text.toList) (e.cteSql cte) := by
  have listed : Yields (fun columns => Outline ' ' columns.text.toList)
      (if cte.columns.isEmpty then .ok Sql.empty
        else (e.nameList cte.columns).map fun columns => columns.parenthesized ++ " ") := by
    split
    · exact yields_ok.mpr (.nil ' ')
    · refine plain.columns.map fun names paired => ?_
      simpa [Sql.parenthesized] using paired.outline.append outline_blank
  have keyword : Outline ' ' ("as".toList ++ [' ']) :=
    (Word.outline (by decide)).append outline_blank
  have written (columns body : Sql) (flat : Outline ' ' columns.text.toList)
      (paired : Paired body.text.toList) : Outline ' ' (Sql.text
        (e.wrapTable cte.name ++ " " ++ columns ++ "as " ++ e.materializedSql cte.materialized
          ++ body.parenthesized ++ Sql.empty)).toList := by
    have group := keyword.append paired.outline
    have whole := plain.name.outline.append (outline_blank.append (flat.append group))
    have none : Sql.empty.text = "" := rfl
    simpa [Sql.parenthesized, materializedSql, dialect, none] using whole
  refine listed.ite_bind fun columns flat => ?_
  have paired := plain.body
  cases given : cte.body with
  | select query =>
    rw [given] at paired
    refine paired.bind fun body paired => ?_
    cases cte.cycle with
    | none => exact yields_pure.mpr (written columns body flat paired)
    | some cycle => simp [cycleSql, dialect]
  | raw sql bindings =>
    rw [given] at paired
    cases cte.cycle with
    | none => exact yields_pure.mpr (written columns _ flat (paired _ rfl))
    | some cycle => simp [cycleSql, dialect]

theorem outline_join {parts : List Sql} (each : ∀ part ∈ parts, Outline ' ' part.text.toList) :
    Outline ' ' (Sql.join ", " parts).text.toList := by
  have comma : Outline ' ' [',', ' '] :=
    .char (by decide) (fun _ => by decide) (outline_blank.anywhere ',')
  fun_induction Sql.join ", " parts with
  | case1 => exact .nil ' '
  | case2 part => exact each part List.mem_cons_self
  | case3 part parts _ ih =>
    obtain ⟨own, rest⟩ := List.forall_mem_cons.mp each
    simpa using own.append (comma.append (ih rest))

/-- The hint stands where it belongs if with-expressions of the first member are plain. -/
theorem quiet_memberFront (dialect : e.dialect = .mysql) (members : c.hasUnions = true)
    (plain : ∀ cte ∈ c.ctes, e.PlainCte cte) {member : String}
    (written : e.memberFront c = .ok member) : Quiet member.toList := by
  obtain ⟨ctes, led, rfl⟩ := map_ok written
  obtain ⟨s, ctesOk, rfl⟩ := map_ok led
  rw [if_pos members, String.toList_append]
  refine quiet_of_outline (Outline.anywhere ?_ '(')
  unfold ctesSql at ctesOk
  split at ctesOk
  · obtain rfl := Except.ok.inj ctesOk
    exact .nil ' '
  · obtain ⟨statements, statementsOk, done⟩ := bind_ok ctesOk
    obtain rfl := pure_ok done
    obtain ⟨parts, all, rfl⟩ := map_ok statementsOk
    have each : ∀ part ∈ parts, Outline ' ' part.text.toList := by
      intro part member
      have there : Except.ok part ∈ c.ctes.map e.cteSql := by
        rw [allOk_eq_ok.mp all]
        exact List.mem_map_of_mem member
      obtain ⟨cte, own, ok⟩ := List.mem_map.mp there
      exact cteSql_outline dialect (plain cte own) part ok
    have keyword : Outline ' ' (Sql.ofText
        (if c.ctes.any Cte.recursive then e.recursiveKeyword else "")).text.toList := by
      rw [Sql.text_ofText, recursiveKeyword, dialect]
      split
      · have recursive : Word "recursive".toList := by decide
        exact recursive.outline.append outline_blank
      · exact .nil ' '
    have word : Outline ' ' ("with".toList ++ [' ']) :=
      (Word.outline (by decide)).append outline_blank
    have whole := word.append (keyword.append ((outline_join each).append outline_blank))
    rw [lead, if_neg (mt Sql.isEmpty_iff.mp (by simp))]
    simpa using whole

/-! ### Marked statements -/

variable {o : Opened}

theorem select_text (o : Opened) (limit : Option Nat) :
    (o.select e limit).text = lead o.outer ++ match o.unions with
      | none => lead o.own ++ (e.limitRecursion? limit o.body).text
      | some unions => (e.limitRecursion? limit
          (e.wrapUnion (behindCtes o.own o.body) ++ " " ++ unions)).text := by
  rw [Opened.select, behindCtes_text]
  cases o.unions with
  | none => rw [behindCtes_text]
  | some unions => rfl

theorem select_option (dialect : e.dialect = .sqlserver) (o : Opened) (n : Nat) :
    (o.select e (some n)).text
      = (o.select e none).text ++ " option (maxrecursion " ++ natText n ++ ")" := by
  have option (sql : Sql) : (e.limitRecursion? (some n) sql).text
      = sql.text ++ " option (maxrecursion " ++ natText n ++ ")" := by
    simp [limitRecursion?, limitRecursion, dialect, String.append_assoc]
  rw [select_text, select_text]
  cases o.unions with
  | none =>
    simp only [option, String.append_assoc]
    rfl
  | some unions =>
    simp only [option, String.append_assoc]
    rfl

/-- With-expressions are words with a blank behind them, so that a block can open there. -/
theorem opensBlock_lead (shape : lead o.own = "" ∨ ∃ words, lead o.own = "with " ++ words ++ " ") :
    (lead o.own).toList.head? ≠ some '(' ∧ OpensBlock ((lead o.own).toList.getLast?.getD '(') := by
  rcases shape with none | ⟨words, text⟩
  · rw [none]
    exact ⟨by simp, .inr rfl⟩
  · have blank : " ".toList = [' '] := rfl
    rw [text, String.toList_append, String.toList_append, blank, List.getLast?_concat]
    exact ⟨by simp, .inl rfl⟩

theorem ownHint_iff (dialect : e.dialect = .mysql) {sql : Sql} {rear : String}
    (text : sql.text = "select" ++ rear) (m n : Nat) :
    (e.limitRecursion sql m).text = "select" ++ recursionHint n ++ rear ↔ m = n := by
  have bare : sql.text = "" ++ "select" ++ rear := by
    rw [text]
    rfl
  have marked := limitRecursion_text_iff dialect bare m n
  have found : statementSelect? sql.text.toList = some 0 := by
    rw [text, String.toList_append]
    exact statementSelect?_own _
  rw [found] at marked
  simpa using marked

theorem memberHint_iff (dialect : e.dialect = .mysql) {sql : Sql} {own rear : String}
    (start : own.toList.head? ≠ some '(') (last : OpensBlock (own.toList.getLast?.getD '('))
    (text : sql.text = "(" ++ own ++ "select" ++ rear) (m n : Nat) :
    (e.limitRecursion sql m).text = "(" ++ own ++ "select" ++ recursionHint n ++ rear ↔
      m = n ∧ Quiet ("(" ++ own).toList := by
  have front : ("(" ++ own).toList = '(' :: own.toList := String.toList_append
  have whole : sql.text.toList = '(' :: own.toList ++ ("select".toList ++ rear.toList) := by
    rw [text, String.toList_append, String.toList_append, front, List.append_assoc]
  rw [limitRecursion_text_iff dialect text, whole, front, statementSelect?_member start last]

/-- Where the hint stands in a statement of MySQL. -/
theorem select_hint_iff (dialect : e.dialect = .mysql) (opens : Opens e c o) :
    ∃ rear,
      (o.select e none).text
        = lead o.outer ++ ((if o.unions.isSome then "(" else "") ++ lead o.own) ++ "select"
          ++ rear ∧
      ∀ m n, (o.select e (some m)).text
          = lead o.outer ++ ((if o.unions.isSome then "(" else "") ++ lead o.own) ++ "select"
            ++ recursionHint n ++ rear ↔
        m = n ∧ (o.unions.isSome = true → Quiet ("(" ++ lead o.own).toList) := by
  obtain ⟨rear, body⟩ := opens.body
  obtain ⟨start, last⟩ := opensBlock_lead opens.own
  cases members : o.unions with
  | none =>
    refine ⟨rear, ?_, fun m n => ?_⟩
    · rw [select_text, members]
      simp [limitRecursion?, body, String.append_assoc]
    · rw [select_text, members]
      simp only [limitRecursion?, ← ownHint_iff dialect body m n, Option.isSome_none,
        Bool.false_eq_true, if_false, String.append_assoc, String.empty_append, false_imp_iff,
        and_true, String.append_right_inj]
  | some unions =>
    have text : (e.wrapUnion (behindCtes o.own o.body) ++ " " ++ unions : Sql).text
        = "(" ++ lead o.own ++ "select" ++ (rear ++ ") " ++ unions.text) := by
      simp [wrapUnion, dialect, Sql.parenthesized, behindCtes_text, body, ← String.append_assoc]
    refine ⟨rear ++ ") " ++ unions.text, ?_, fun m n => ?_⟩
    · rw [select_text, members]
      simp only [limitRecursion?, text, Option.isSome_some, if_true, String.append_assoc]
    · have marked := memberHint_iff dialect start last text m n
      rw [select_text, members]
      simp only [limitRecursion?, Option.isSome_some, if_true, true_imp_iff, String.append_assoc,
        String.append_right_inj] at marked ⊢
      exact marked

end Engine

/-! ### Limits set in a build -/

namespace Clauses

/-- A query without limits of recursion of its own. -/
def unlimited (c : Clauses Query) : Clauses Query :=
  { c with recursionLimit := none, unionRecursionLimit := none }

/-- The limit that is shown after `n` was set: one of a union that is not there goes before it in
an aggregate over rows. -/
def shownLimit (c : Clauses Query) (n : Nat) : Nat :=
  if c.aggregatesRows ∧ ¬ c.hasUnions then c.unionRecursionLimit.getD n else n

theorem shownLimit_of_normal {c : Clauses Query} (h : c.Normal) (n : Nat) :
    c.shownLimit n = n := by
  unfold shownLimit
  split
  · next alone =>
    have none : c.unionRecursionLimit = none :=
      h.unionRecursionLimit (by simpa [hasUnions] using alone.2)
    rw [none, Option.getD_none]
  · rfl

end Clauses

namespace Engine

variable {e : Engine}

theorem select_unlimited (c : Clauses Query) :
    ((Query.mk c.unlimited).compiled e).select
      = (e.opened (c.map (Query.compiled e))).map fun o => o.select e none := by
  rw [Query.compiled_eq]
  refine (selectSql_opened _).trans ?_
  have none : recursion (c.unlimited.map (Query.compiled e)) = none := by
    unfold recursion
    split <;> rfl
  exact none ▸ rfl

theorem hasUnions_map (c : Clauses Query) :
    (c.map (Query.compiled e)).hasUnions = c.hasUnions := by
  simp [Clauses.hasUnions, Clauses.map]

theorem recursion_limited (c : Clauses Query) (n : Nat) :
    recursion ((c.setRecursionLimit n).map (Query.compiled e)) = some (c.shownLimit n) := by
  generalize limited : (c.setRecursionLimit n).map (Query.compiled e) = d
  unfold Clauses.setRecursionLimit at limited
  have rows : d.aggregatesRows = c.aggregatesRows := by
    rw [← limited, aggregatesRows_map]
    split <;> rfl
  have members : d.hasUnions = c.hasUnions := by
    rw [← limited, hasUnions_map]
    split <;> rfl
  have own : d.recursionLimit = if c.hasUnions then c.recursionLimit else some n := by
    rw [← limited]
    split <;> rfl
  have whole : d.unionRecursionLimit = if c.hasUnions then some n else c.unionRecursionLimit := by
    rw [← limited]
    split <;> rfl
  rw [recursion, rows, members, own, whole, Clauses.shownLimit]
  cases c.hasUnions <;> cases c.aggregatesRows <;> cases c.unionRecursionLimit <;> simp

theorem select_limited (c : Clauses Query) (n : Nat) :
    (((Query.mk c).apply (.recursionLimit n)).compiled e).select
      = (e.opened (c.map (Query.compiled e))).map fun o => o.select e (some (c.shownLimit n)) := by
  have same : e.opened ((c.setRecursionLimit n).map (Query.compiled e))
      = e.opened (c.map (Query.compiled e)) := by
    unfold Clauses.setRecursionLimit
    split <;> exact opened_limits (c.map (Query.compiled e)) _ _
  rw [Query.compiled_eq, ← recursion_limited (e := e), ← same]
  exact selectSql_opened _

/-- Setting a limit of recursion marks a statement once, and nothing else changes. In SQL Server
the mark is at its end, in MySQL behind the `select` of the statement itself: always if that is
the only one or counts the rows of a union, and behind the first member's with-expressions exactly
if nothing in them is taken for it. -/
theorem select_recursionLimit (c : Clauses Query) (n : Nat) :
    (∀ error, ((Query.mk c.unlimited).compiled e).select = .error error ↔
      (((Query.mk c).apply (.recursionLimit n)).compiled e).select = .error error) ∧
    ∀ sql, ((Query.mk c.unlimited).compiled e).select = .ok sql →
      ∃ limited, (((Query.mk c).apply (.recursionLimit n)).compiled e).select = .ok limited ∧
        (e.dialect = .sqlserver →
          (limited.text = sql.text ++ " option (maxrecursion " ++ natText n ++ ")" ↔
            c.shownLimit n = n)) ∧
        (e.dialect = .mysql → ∃ front rear,
          e.front (c.map (Query.compiled e)) = .ok front ∧
          sql.text = front ++ "select" ++ rear ∧
          (limited.text = front ++ "select" ++ recursionHint n ++ rear ↔
            c.shownLimit n = n ∧ (c.hasUnions = true → c.aggregatesRows = false →
              ∀ member, e.memberFront (c.map (Query.compiled e)) = .ok member →
                Quiet member.toList))) := by
  rw [select_unlimited, select_limited]
  cases ok : e.opened (c.map (Query.compiled e)) with
  | error error => simp
  | ok o =>
    have opens := opened_opens ok
    refine ⟨by simp, fun sql done => ?_⟩
    obtain rfl := Except.ok.inj done
    refine ⟨_, rfl, fun dialect => ?_, fun dialect => ?_⟩
    · rw [select_option dialect]
      simp only [String.append_assoc, String.append_right_inj, String.append_left_inj, natText_inj]
    · obtain ⟨rear, free, marked⟩ := select_hint_iff dialect opens
      refine ⟨_, rear, opens.front, free, (marked _ n).trans (and_congr_right fun _ => ?_)⟩
      have members := opens.unions
      rw [hasUnions_map, aggregatesRows_map] at members
      constructor
      · intro quiet some own member written
        have first : o.unions.isSome = true := by simp [members, some, own]
        rw [opens.member (by rwa [aggregatesRows_map]), first] at written
        obtain rfl := Except.ok.inj written
        exact quiet first
      · intro quiet first
        have both : c.hasUnions = true ∧ c.aggregatesRows = false := by
          simpa [first] using members
        have written := opens.member (by rw [aggregatesRows_map, both.2])
        rw [first] at written
        exact quiet both.1 both.2 _ written

/-- A built query has no limit of a union that is not there, so the limit that is set is the one
that SQL Server is given. -/
theorem built_select_option {c : Clauses Query} (built : (Query.mk c).Built)
    (dialect : e.dialect = .sqlserver) (n : Nat) :
    (((Query.mk c).apply (.recursionLimit n)).compiled e).select.map Sql.text
      = ((Query.mk c.unlimited).compiled e).select.map fun sql =>
          sql.text ++ " option (maxrecursion " ++ natText n ++ ")" := by
  obtain @⟨_, normal, -⟩ := built.everywhere_normal
  rw [select_limited, select_unlimited, Clauses.shownLimit_of_normal normal]
  cases e.opened (c.map (Query.compiled e)) with
  | error error => rfl
  | ok o => exact congrArg Except.ok (select_option dialect o n)

end Engine

/-- The rows of a named expression, and other rows. -/
def treeUnion (name : String) : Clauses Query :=
  { source := some (.name "tree")
    ctes := [{ name, body := .raw "select 1" [] }]
    unions := [{ query := .mk { source := some (.name "other") }, all := true }] }

theorem treeUnion_marked :
    ∃ sql limited,
      ((Query.mk (treeUnion "tree").unlimited).compiled (.mk .mysql {})).select = .ok sql ∧
      (((Query.mk (treeUnion "tree")).apply (.recursionLimit 50)).compiled (.mk .mysql {})).select
        = .ok limited ∧
      ∃ front rear, sql.text = front ++ "select" ++ rear ∧
        limited.text = front ++ "select" ++ Engine.recursionHint 50 ++ rear := by
  obtain ⟨-, found⟩ := Engine.select_recursionLimit (e := .mk .mysql {}) (treeUnion "tree") 50
  obtain ⟨limited, limitedOk, -, marked⟩ := found _ rfl
  obtain ⟨front, rear, -, text, iff⟩ := marked rfl
  refine ⟨_, limited, rfl, limitedOk, front, rear, text,
    iff.mpr ⟨rfl, fun _ _ member written => Engine.quiet_memberFront rfl rfl ?_ written⟩⟩
  intro cte own
  obtain rfl := List.mem_singleton.mp own
  have name : Word "`tree`".toList := by decide
  have columns : Flat "".toList := by decide
  have body : Flat "select 1".toList := by decide
  exact ⟨name, yields_ok.mpr columns.paired, yields_ok.mpr body.paired⟩

/-- The hint stands in a name. -/
theorem selectTree_mismarked :
    ∃ sql limited,
      ((Query.mk (treeUnion "a select b").unlimited).compiled (.mk .mysql {})).select = .ok sql ∧
      (((Query.mk (treeUnion "a select b")).apply (.recursionLimit 50)).compiled
        (.mk .mysql {})).select = .ok limited ∧
      sql.text = "(with `a select b` as (select 1) select * from `tree`) union all "
        ++ "(select * from `other`)" ∧
      limited.text = "(with `a select" ++ Engine.recursionHint 50 ++ " b` as (select 1) "
        ++ "select * from `tree`) union all (select * from `other`)" ∧
      limited.text ≠ "(with `a select b` as (select 1) select" ++ Engine.recursionHint 50
        ++ " * from `tree`) union all (select * from `other`)" :=
  ⟨_, _, rfl, rfl, rfl, rfl, by decide⟩

end SqlCompiler
