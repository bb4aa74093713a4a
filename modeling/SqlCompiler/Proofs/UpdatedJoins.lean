import Mathlib.Data.List.Basic
import SqlCompiler.Proofs.Precedence
import SqlCompiler.Proofs.Reductions
/-!
# Joins of an update

An update with its joined tables behind `from` lists the tables of the joins of its query and ties
their conditions to its own. Of the joins beside the joined tables it lists and ties nothing, so it
covers every join just when there are none such.
-/

namespace SqlCompiler

/-- Nothing is added to any item if nothing is added to the whole. -/
theorem flatMap_append_eq_iff {α β : Type} {items : List α} {f g : α → List β} :
    (items.flatMap fun a => f a ++ g a) = items.flatMap f ↔ ∀ a ∈ items, g a = [] := by
  constructor
  · intro same a member
    have each := flatMap_inj_of_sublist (fun a _ => List.sublist_append_left (f a) (g a)) same.symm
      a member
    simpa using each
  · exact fun none => List.flatMap_congr fun a member => by rw [none a member, List.append_nil]

theorem Query.allJoins_eq_nil_iff {q : Query} : q.allJoins = [] ↔ q.clauses.joins = [] := by
  obtain ⟨c⟩ := q
  rw [allJoins_mk, clauses]
  cases c.joins <;> simp

namespace Engine

variable (e : Engine)

def joinedTable (j : Join Query) : Outcome :=
  e.table (j.table.map (Query.compiled e))

/-- The texts of the conditions of a join. -/
def joinTests (j : Join Query) : List (Except CompileError String) :=
  j.clause.clauses.wheres.map e.testText

variable {e} {c : Clauses Query}

/-- The tables of all joins are those of the query's own if none stands beside another. -/
theorem joinedTables_eq_iff :
    (Query.mk c).allJoins.map e.joinedTable = c.joins.map e.joinedTable
      ↔ ∀ j ∈ c.joins, j.clause.clauses.joins = [] := by
  have all : (Query.mk c).allJoins.map e.joinedTable
      = c.joins.flatMap fun j => [e.joinedTable j] ++ j.clause.allJoins.map e.joinedTable := by
    simp [Query.allJoins_mk, List.map_flatMap]
  rw [all, List.map_eq_flatMap, flatMap_append_eq_iff]
  simp only [List.map_eq_nil_iff, Query.allJoins_eq_nil_iff]

theorem allTests_eq_iff :
    (Query.mk c).allJoins.flatMap e.joinTests = c.joins.flatMap e.joinTests
      ↔ ∀ j ∈ c.joins, ∀ i ∈ j.clause.allJoins, i.clause.clauses.wheres = [] := by
  have all : (Query.mk c).allJoins.flatMap e.joinTests
      = c.joins.flatMap fun j => e.joinTests j ++ j.clause.allJoins.flatMap e.joinTests := by
    simp [Query.allJoins_mk, List.flatMap_assoc]
  rw [all, flatMap_append_eq_iff]
  simp [joinTests]

/-- The conditions of the joins of a query stand behind its own, or take their place. -/
theorem updateFromWheres_joinTests {wheres : Sql}
    (ok : e.updateFromWheres (c.map (Query.compiled e)) = .ok wheres) :
    ∃ own tests, e.wheresSql (c.map (Query.compiled e)).wheres = .ok own ∧
      c.joins.flatMap e.joinTests = (tests.map Prod.snd).map .ok ∧
      wheres.text.toList
        = if own.isEmpty then whereText tests else own.text.toList ++ tiedText tests := by
  have compiled : (c.map (Query.compiled e)).joins.flatMap (fun j => j.clause.wheres)
      = (c.joins.flatMap fun j => j.clause.clauses.wheres).map
          fun w => e.whereClause (w.map (Query.compiled e)) := by
    have alone := compiled_conditions (e := e) (c := { joins := c.joins })
    simpa [Clauses.conditionLists, Clauses.map, List.flatMap_def] using alone.symm
  obtain ⟨own, ownOk, rest⟩ := bind_ok ok
  obtain ⟨tail, tailOk, rest⟩ := bind_ok rest
  obtain ⟨alone, aloneOk, done⟩ := bind_ok rest
  obtain rfl := pure_ok done
  obtain ⟨tests, members, behind⟩ := joinTests_text tailOk
  obtain ⟨same, again, front⟩ := conditions_text aloneOk
  obtain rfl := compiledTests_inj (members.symm.trans again)
  have texts := (compiled_parts (compiled.symm.trans members)).1
  refine ⟨own, testTexts tests, ownOk, by rw [← texts, List.map_flatMap]; rfl, ?_⟩
  obtain ⟨rfl, blank⟩ | ⟨more, filled, text⟩ := behind
  · -- Nothing is tied to the own conditions.
    rw [if_pos (Sql.isEmpty_iff.mpr blank)]
    split
    · next none =>
      rw [Sql.isEmpty_iff.mp none]
      rfl
    · exact (List.append_nil _).symm
  rw [if_neg (mt Sql.isEmpty_iff.mp filled)]
  split
  · obtain ⟨absent, -⟩ | ⟨-, lead⟩ := front
    · exact absurd absent more
    · rw [Sql.text_append, Sql.text_ofText, String.toList_append, lead]
  · rw [← text, Sql.text_append, Sql.text_append, Sql.text_ofText, String.toList_append,
      String.toList_append, List.append_assoc]
    rfl

/-- An update lists the tables of the joins of its query and writes their conditions behind its
own. These are the tables of all joins, at every depth, if no join stands beside a joined table,
and the conditions of all joins if no such join has conditions. -/
theorem updateFrom_coversJoins_iff {values : Row} {s : Statement}
    (ok : e.updateFrom (.mk c) values = .ok s) :
    ∃ head tables own wheres tests,
      e.finished (c.map (Query.compiled e)) (head
        ++ (if c.joins.isEmpty then .empty else " from " ++ Sql.join ", " tables) ++ " " ++ wheres)
        = .ok s.sql ∧
      e.wheresSql (c.map (Query.compiled e)).wheres = .ok own ∧
      wheres.text.toList
        = (if own.isEmpty then whereText tests else own.text.toList ++ tiedText tests) ∧
      c.joins.map e.joinedTable = tables.map .ok ∧
      c.joins.flatMap e.joinTests = (tests.map Prod.snd).map .ok ∧
      ((Query.mk c).allJoins.map e.joinedTable = tables.map .ok
        ↔ ∀ j ∈ c.joins, j.clause.clauses.joins = []) ∧
      ((Query.mk c).allJoins.flatMap e.joinTests = (tests.map Prod.snd).map .ok
        ↔ ∀ j ∈ c.joins, ∀ i ∈ j.clause.allJoins, i.clause.clauses.wheres = []) := by
  obtain ⟨sql, sqlOk, rest⟩ := bind_ok ok
  obtain ⟨bindings, -, done⟩ := bind_ok rest
  obtain rfl := pure_ok done
  unfold updateFromSql at sqlOk
  split at sqlOk
  case h_2 | h_3 | h_4 | h_5 => cases sqlOk
  obtain ⟨table, -, sqlOk⟩ := bind_ok sqlOk
  obtain ⟨columns, -, sqlOk⟩ := bind_ok sqlOk
  obtain ⟨froms, fromsOk, sqlOk⟩ := bind_ok sqlOk
  obtain ⟨wheres, wheresOk, finishedOk⟩ := bind_ok sqlOk
  obtain ⟨tables, tablesOk, rfl⟩ := map_ok fromsOk
  obtain ⟨own, tests, ownOk, testsOk, text⟩ := updateFromWheres_joinTests (c := c) wheresOk
  have listed : c.joins.map e.joinedTable = tables.map .ok := by
    have all := allOk_eq_ok.mp tablesOk
    simpa [Query.compiledClauses, Clauses.map, Query.clauses] using! all
  refine ⟨"update " ++ table ++ " set " ++ columns, tables, own, wheres, tests, ?_, ownOk, text,
    listed, testsOk, ?_, ?_⟩
  · simpa [Query.compiledClauses, Clauses.map, Query.clauses] using finishedOk
  · rw [← listed]
    exact joinedTables_eq_iff
  · rw [← testsOk]
    exact allTests_eq_iff

end Engine

def itemsOfOrders : Join Query where
  table := .name "items"
  clause := .mk { wheres :=
    [{ predicate := .compareColumns (.name "orders.id") "=" (.name "items.order_id") }] }

/-- Users with their orders, in whose clause there may be joins. -/
def buyers (beside others : List (Join Query)) : Clauses Query :=
  { source := some (.name "users")
    joins := { table := .name "orders",
               clause := .mk { joins := beside, wheres := orderOfUser.clauses.wheres } } :: others }

/-- All joins are covered if the items are joined like the orders. -/
theorem itemBuyers_covered :
    ∃ (s : Statement) (tables : List Sql) (tests : List String),
      (Engine.mk .postgres {}).updateFrom (.mk (buyers [] [itemsOfOrders])) seenNow = .ok s ∧
      s.sql.text = "update \"users\" set \"seen\" = ? from \"orders\", \"items\" "
        ++ "where \"users\".\"id\" = \"orders\".\"user_id\" "
        ++ "and \"orders\".\"id\" = \"items\".\"order_id\"" ∧
      (Query.mk (buyers [] [itemsOfOrders])).allJoins.map (Engine.mk .postgres {}).joinedTable
        = tables.map .ok ∧
      (Query.mk (buyers [] [itemsOfOrders])).allJoins.flatMap (Engine.mk .postgres {}).joinTests
        = tests.map .ok := by
  have ok : (Engine.mk .postgres {}).updateFrom (.mk (buyers [] [itemsOfOrders])) seenNow
      = .ok _ := rfl
  obtain ⟨head, tables, own, wheres, tests, -, -, -, -, -, tablesCovered, testsCovered⟩ :=
    Engine.updateFrom_coversJoins_iff ok
  refine ⟨_, tables, tests.map Prod.snd, rfl, by decide, tablesCovered.mpr ?_, testsCovered.mpr ?_⟩
  · simp [buyers, itemsOfOrders, Query.clauses]
  · simp [buyers, itemsOfOrders, Query.allJoins_mk]

/-- The items are forgotten if they stand beside the orders. -/
theorem itemBuyers_uncovered :
    ∃ s, (Engine.mk .postgres {}).updateFrom (.mk (buyers [itemsOfOrders] [])) seenNow = .ok s ∧
      s.sql.text = "update \"users\" set \"seen\" = ? from \"orders\" "
        ++ "where \"users\".\"id\" = \"orders\".\"user_id\"" ∧
      (Query.mk (buyers [itemsOfOrders] [])).allJoins.map
          (fun j => ((Engine.mk .postgres {}).joinedTable j).map Sql.text)
        = [.ok "\"orders\"", .ok "\"items\""] ∧
      (Query.mk (buyers [itemsOfOrders] [])).allJoins.flatMap (Engine.mk .postgres {}).joinTests
        = [.ok "\"users\".\"id\" = \"orders\".\"user_id\"",
            .ok "\"orders\".\"id\" = \"items\".\"order_id\""] :=
  ⟨_, rfl, by decide, rfl, rfl⟩

end SqlCompiler
