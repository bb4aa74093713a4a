import SqlCompiler.Proofs.CarriedConditions
import SqlCompiler.Proofs.CleanNames
import SqlCompiler.Proofs.Edits
/-!
# What the parts of a select statement carry

Every part of a select statement of counted clauses, from its columns to the members of its union,
carries what the category of the part holds, whatever its names and operators are.
-/

namespace SqlCompiler

open Substitute

/-- Counted clauses over queries that carry their lists. -/
structure Clauses.Carried (e : Engine) (c : Clauses Query) : Prop where
  counted : c.Counted
  within : c.Within (Query.Carried e)

namespace Engine

variable {e : Engine}

/-- The bindings of an aggregate as it is written: names after `distinct on` have none. -/
def aggregateBindings (distinct : Distinct) (a : Aggregate BindingLists) : List Binding :=
  match distinct with
  | .on _ => []
  | .off | .all => a.columns.flatMap Term.bindings

theorem aggregateSql_carries (distinct : Distinct) {a : Aggregate Query}
    (ha : ∀ t ∈ a.columns, t.Counted) (ih : ∀ q ∈ a.queries, q.Carried e) :
    Yields (Sql.Carries (aggregateBindings distinct (a.map Query.bindingLists)))
      (e.aggregateSql distinct (a.map (Query.compiled e))) := by
  obtain ⟨function, columns⟩ := a
  have listed : Yields
      (Sql.Carries ((columns.map (Term.map Query.bindingLists)).flatMap Term.bindings))
      (if (columns.map (Term.map (Query.compiled e))).isEmpty then .ok "*"
        else e.columnList (columns.map (Term.map (Query.compiled e)))) := by
    cases columns with
    | nil => exact yields_ok.mpr (Sql.carries_ofText _)
    | cons column columns => exact columnList_carries ha ih
  have call {values : List Binding} {counted : Sql} (found : Sql.Carries values counted) :
      Sql.Carries values ("select " ++ Sql.ofText function ++ "(" ++ counted ++ ") as aggregate") :=
    ⟨by simp [found.whole], by simp [found.bindings_eq]⟩
  refine listed.ite_bind fun c found => ?_
  cases distinct with
  | off => exact yields_pure.mpr (call found)
  | all =>
    refine yields_pure.mpr (call ?_)
    split
    · exact found
    · exact found.behind _
  | on names =>
    exact Yields.bind ((nameList_carries names).map fun sql named => named.behind "distinct ")
      fun counted named => yields_pure.mpr (call named)

theorem selectKeyword_carries (distinct : Distinct) :
    Yields (Sql.Carries []) (e.selectKeyword distinct) := by
  unfold selectKeyword
  split
  · exact (nameList_carries _).bind fun names named =>
      yields_pure.mpr ((named.behind _).before _)
  · exact yields_ok.mpr (Sql.carries_ofText _)
  · exact yields_ok.mpr (Sql.carries_ofText _)

theorem columnsSql_carries {c : Clauses Query} (h : c.Carried e) :
    Yields (Sql.Carries (((c.map Query.bindingLists).columns.getD []).flatMap Term.bindings))
      (e.columnsSql (c.map (Query.compiled e))) := by
  have each := h.counted.columns
  have inside := h.within.columns
  refine (selectKeyword_carries _).bind fun keyword lead => ?_
  refine Yields.bind ?_ fun columns found =>
    yields_pure.mpr ((lead.before _).append found)
  simp only [Clauses.map]
  generalize c.columns = columns at each inside
  rcases columns with _ | _ | ⟨column, columns⟩
  · exact nameList_carries ["*"]
  · exact nameList_carries ["*"]
  · exact columnList_carries (each _ rfl) (inside _ rfl)

theorem sourceSql_carries (lock : Option Lock) {t : Term Query} (ht : t.Counted)
    (ih : ∀ q ∈ t.queries, q.Carried e) :
    Yields (Sql.Carries (t.map Query.bindingLists).bindings)
      (e.sourceSql lock (t.map (Query.compiled e))) :=
  (table_carries ht ih).bind fun _ found => yields_pure.mpr ((found.behind "from ").before _)

theorem indexHintSql_carries (hint : IndexHint) :
    Yields (Sql.Carries []) (e.indexHintSql hint) := by
  unfold indexHintSql
  split
  · exact yields_error
  · exact yields_error
  all_goals first
    | exact yields_ok.mpr (Sql.carries_ofText _)
    | exact yields_ok.mpr Sql.carries_empty
    | exact yields_ok.mpr ⟨by simp, by simp⟩

theorem flatten_of_isJoinClause {q : Query} (h : q.IsJoinClause) :
    q.bindingLists.flatten = q.bindingLists.join ++ q.bindingLists.wheres := by
  obtain ⟨c⟩ := q
  replace h : c = { joins := c.joins, wheres := c.wheres } := h
  rw [h, Query.bindingLists_mk]
  simp [BindingLists.flatten, BindingLists.flattenOnly, BindingCategory.all, BindingLists.get,
    Clauses.bindingLists, Clauses.map, Clauses.selectBindings]

theorem joinSql_carries {j : Join Query} (hj : j.Counted) (ih : ∀ q ∈ j.queries, q.Carried e) :
    Yields (Sql.Carries (j.map Query.bindingLists).bindings)
      (e.joinSql (j.map (Query.compiled e))) := by
  simp only [Join.queries, List.forall_mem_append, List.forall_mem_singleton] at ih
  have inner : j.clause.Carried e := ih.2
  have whole : (j.map Query.bindingLists).bindings = (j.table.map Query.bindingLists).bindings
      ++ j.clause.bindingLists.join ++ j.clause.bindingLists.wheres := by
    rw [List.append_assoc, ← flatten_of_isJoinClause hj.2]
    rfl
  -- The conditions stand after the table, whatever stands beside it.
  have on {values : List Binding} {target : Sql} (found : Sql.Carries values target) :
      Yields (Sql.Carries (values ++ j.clause.bindingLists.wheres)) (do
        let on ← conditions (j.clause.compiled e).wheres
        let joined := Sql.ofText j.kind.sql ++ " join " ++ target
        return if on.isEmpty then joined else joined ++ " on " ++ on) := by
    refine (carries_conditions inner.wheres).bind fun on tests => yields_pure.mpr ?_
    split
    · next empty =>
      rw [tests.eq_nil empty, List.append_nil]
      exact ⟨by simp [found.whole], by simp [found.bindings_eq]⟩
    · exact ⟨by simp [found.whole, tests.whole], by simp [found.bindings_eq, tests.bindings_eq]⟩
  rw [whole]
  refine (table_carries hj.1 ih.1).bind fun table found => ?_
  have beside := inner.joins
  change Yields _ (if (j.clause.compiled e).joins.isEmpty then _ else _)
  split
  · next empty =>
    rw [List.isEmpty_iff.mp empty] at beside
    generalize j.clause.bindingLists.join = joins at beside ⊢
    cases beside
    exact on (by simpa using found)
  · refine beside.joinOutcomes.bind fun inner joined => on ?_
    exact ⟨by simp [found.whole, joined.whole], by simp [found.bindings_eq, joined.bindings_eq]⟩

theorem joins_carriesAll {joins : List (Join Query)} (h : ∀ j ∈ joins, j.Counted)
    (ih : ∀ j ∈ joins, ∀ q ∈ j.queries, q.Carried e) :
    CarriesAll ((joins.map (Join.map (Query.compiled e))).map e.joinSql)
      ((joins.map (Join.map Query.bindingLists)).flatMap Join.bindings) := by
  rw [List.map_map, List.flatMap_map]
  exact carriesAll_map fun j member => joinSql_carries (h j member) (ih j member)

theorem joinsSql_carries {joins : List (Join Query)} (h : ∀ j ∈ joins, j.Counted)
    (ih : ∀ j ∈ joins, ∀ q ∈ j.queries, q.Carried e) :
    Yields (Sql.Carries ((joins.map (Join.map Query.bindingLists)).flatMap Join.bindings))
      (e.joinsSql (joins.map (Join.map (Query.compiled e)))) :=
  (joins_carriesAll h ih).joinOutcomes

theorem headed_carries (keyword : String) {values : List Binding} {sql : Sql}
    (h : Sql.Carries values sql) : Sql.Carries values (headed keyword sql) := by
  unfold headed
  split
  · next empty =>
    rw [h.eq_nil empty]
    exact Sql.carries_empty
  · exact h.behind keyword

theorem wheres_carriesAll {wheres : List (Where Query)} (h : ∀ w ∈ wheres, w.predicate.Counted)
    (ih : ∀ w ∈ wheres, ∀ q ∈ w.queries, q.Carried e) :
    CarriesAll (((wheres.map (Where.map (Query.compiled e))).map e.whereClause).map Prod.snd)
      ((wheres.map (Where.map Query.bindingLists)).flatMap Where.bindings) := by
  rw [List.map_map, List.map_map, List.flatMap_map]
  exact carriesAll_map fun w member => whereTest_carries w.negated (h w member) (ih w member)

theorem wheresSql_carries {wheres : List (Where Query)} (h : ∀ w ∈ wheres, w.predicate.Counted)
    (ih : ∀ w ∈ wheres, ∀ q ∈ w.queries, q.Carried e) :
    Yields (Sql.Carries ((wheres.map (Where.map Query.bindingLists)).flatMap Where.bindings))
      (e.wheresSql (wheres.map (Where.map (Query.compiled e)))) :=
  (carries_conditions (wheres_carriesAll h ih)).map fun _ found => headed_carries _ found

theorem groupsSql_carries {groups : List (Term Query)} (h : ∀ t ∈ groups, t.Counted)
    (ih : ∀ q ∈ groups.flatMap Term.queries, q.Carried e) :
    Yields (Sql.Carries ((groups.map (Term.map Query.bindingLists)).flatMap Term.bindings))
      (e.groupsSql (groups.map (Term.map (Query.compiled e)))) := by
  unfold groupsSql
  split
  · next empty =>
    obtain rfl := List.map_eq_nil_iff.mp (List.isEmpty_iff.mp empty)
    exact yields_ok.mpr Sql.carries_empty
  · exact (columnList_carries h ih).map fun _ found => found.behind _

theorem havings_carriesAll {havings : List (Having Query)}
    (h : ∀ w ∈ havings, w.predicate.Counted)
    (ih : ∀ w ∈ havings, ∀ q ∈ w.queries, q.Carried e) :
    CarriesAll (((havings.map (Having.map (Query.compiled e))).map e.havingClause).map Prod.snd)
      ((havings.map (Having.map Query.bindingLists)).flatMap Having.bindings) := by
  rw [List.map_map, List.map_map, List.flatMap_map]
  exact carriesAll_map fun w member => havingTest_carries w.negated (h w member) (ih w member)

theorem havingsSql_carries {havings : List (Having Query)}
    (h : ∀ w ∈ havings, w.predicate.Counted)
    (ih : ∀ w ∈ havings, ∀ q ∈ w.queries, q.Carried e) :
    Yields (Sql.Carries ((havings.map (Having.map Query.bindingLists)).flatMap Having.bindings))
      (e.havingsSql (havings.map (Having.map (Query.compiled e)))) :=
  (carries_conditions (havings_carriesAll h ih)).map fun _ found => headed_carries _ found

/-! ### Order and paging -/

theorem orderSql_carries {o : Order Query} (ho : o.Counted) (ih : ∀ q ∈ o.queries, q.Carried e) :
    Yields (Sql.Carries (o.map Query.bindingLists).bindings)
      (e.orderSql (o.map (Query.compiled e))) := by
  cases o with
  | byColumn column direction =>
    exact (column_carries ho ih).bind fun c found => yields_pure.mpr ((found.before " ").before _)
  | raw sql values => exact yields_ok.mpr (Sql.carries_ofFragment ho)
  | random seed => exact yields_ok.mpr (Sql.carries_ofText _)

section Orders

variable {orders : List (Order Query)} (h : ∀ o ∈ orders, o.Counted)
  (ih : ∀ o ∈ orders, ∀ q ∈ o.queries, q.Carried e)
include h ih

theorem orderList_carries :
    Yields (Sql.Carries ((orders.map (Order.map Query.bindingLists)).flatMap Order.bindings))
      (e.orderList (orders.map (Order.map (Query.compiled e)))) := by
  unfold orderList
  split
  · next empty =>
    obtain rfl := List.map_eq_nil_iff.mp (List.isEmpty_iff.mp empty)
    exact yields_ok.mpr Sql.carries_empty
  · rw [List.map_map, List.flatMap_map]
    have each := carriesAll_map fun o member => orderSql_carries (h o member) (ih o member)
    exact each.joinOutcomes.map fun _ found => found.behind _

omit h ih in
theorem anyOrder_carries (empty : (orders.map (Order.map (Query.compiled e))).isEmpty = true) :
    Sql.Carries ((orders.map (Order.map Query.bindingLists)).flatMap Order.bindings) anyOrder := by
  obtain rfl := List.map_eq_nil_iff.mp (List.isEmpty_iff.mp empty)
  exact Sql.carries_ofText _

theorem ordersSql_carries (limit offset : Option Nat) :
    Yields (Sql.Carries ((orders.map (Order.map Query.bindingLists)).flatMap Order.bindings))
      (e.ordersSql ⟨orders.map (Order.map (Query.compiled e)), limit, offset⟩) := by
  unfold ordersSql
  split
  · next none => exact yields_ok.mpr (anyOrder_carries none.2.1)
  · exact orderList_carries h ih

theorem unionPagingSql_carries (limit offset : Option Nat) :
    Yields (Sql.CarryAll ((orders.map (Order.map Query.bindingLists)).flatMap Order.bindings))
      (e.unionPagingSql ⟨orders.map (Order.map (Query.compiled e)), limit, offset⟩) := by
  have listed {values : List Binding} {first second third : Sql}
      (found : Sql.Carries values first) (hs : Sql.Carries [] second)
      (ht : Sql.Carries [] third) : Sql.CarryAll values [first, second, third] :=
    ⟨by simp [found.whole, hs.whole, ht.whole],
      by simp [found.bindings_eq, hs.bindings_eq, ht.bindings_eq]⟩
  unfold unionPagingSql
  split
  · split
    · exact (orderList_carries h ih).bind fun orders found =>
        yields_pure.mpr ⟨by simp [found.whole], by simp [found.bindings_eq]⟩
    · have ordered : Yields
          (Sql.Carries ((orders.map (Order.map Query.bindingLists)).flatMap Order.bindings))
          (if (orders.map (Order.map (Query.compiled e))).isEmpty then .ok anyOrder
            else e.orderList (orders.map (Order.map (Query.compiled e)))) := by
        split
        · next none => exact yields_ok.mpr (anyOrder_carries none)
        · exact orderList_carries h ih
      refine ordered.ite_bind fun orders found =>
        yields_pure.mpr (listed found (Sql.carries_ofText _) ?_)
      split
      · exact ((Sql.carries_ofText _).behind _).before _
      · exact Sql.carries_ofText _
  · refine (ordersSql_carries h ih limit offset).bind fun orders found => yields_pure.mpr ?_
    unfold pagingSql
    split <;> exact listed found (Sql.carries_ofText _) (Sql.carries_ofText _)

end Orders

/-! ### With-expressions and unions -/

theorem cycleSql_carries (cycle : Cycle) : Yields (Sql.Carries []) (e.cycleSql cycle) := by
  unfold cycleSql
  split
  · refine (nameList_carries cycle.columns).bind fun columns found => ?_
    refine (yields_true _).bind fun mark _ => (yields_true _).bind fun path _ => ?_
    exact yields_pure.mpr ⟨by simp [found.whole], by simp [found.bindings_eq]⟩
  · exact yields_error

theorem cteSql_carries {c : Cte Query} (hc : c.body.Counted) (ih : ∀ q ∈ c.queries, q.Carried e) :
    Yields (Sql.Carries (c.map Query.bindingLists).bindings)
      (e.cteSql (c.map (Query.compiled e))) := by
  obtain ⟨name, columns, recursive, materialized, body, cycle⟩ := c
  have listed : Yields (Sql.Carries [])
      (if columns.isEmpty then .ok .empty
        else (e.nameList columns).map fun columns => columns.parenthesized ++ " ") := by
    split
    · exact yields_ok.mpr Sql.carries_empty
    · exact (nameList_carries columns).map fun words found => found.parenthesized.before " "
  have written : ∀ {words values body cycle}, Sql.Carries [] words → Sql.Carries values body →
      Sql.Carries [] cycle → Sql.Carries values (e.wrapTable name ++ " " ++ words ++ "as "
        ++ e.materializedSql materialized ++ body.parenthesized ++ cycle) := by
    intro words values body cycle lead found after
    exact ⟨by simp [lead.whole, found.whole, after.whole],
      by simp [lead.bindings_eq, found.bindings_eq, after.bindings_eq]⟩
  refine listed.ite_bind fun words lead => ?_
  cases body with
  | select query =>
    have inner : query.Carried e := ih query List.mem_cons_self
    refine inner.select.bind fun body found => ?_
    cases cycle with
    | none => exact yields_pure.mpr (written lead found Sql.carries_empty)
    | some cycle =>
      refine (cycleSql_carries cycle).bind fun _ after => ?_
      exact yields_pure.mpr (written lead found after)
  | raw sql values =>
    have found : Sql.Carries values (Sql.ofFragment sql values) := Sql.carries_ofFragment hc
    cases cycle with
    | none => exact yields_pure.mpr (written lead found Sql.carries_empty)
    | some cycle =>
      refine (cycleSql_carries cycle).bind fun _ after => ?_
      exact yields_pure.mpr (written lead found after)

section Ctes

variable {ctes : List (Cte Query)} (h : ∀ c ∈ ctes, c.body.Counted)
  (ih : ∀ c ∈ ctes, ∀ q ∈ c.queries, q.Carried e)
include h ih

theorem ctesSql_carries :
    Yields (Sql.Carries ((ctes.map (Cte.map Query.bindingLists)).flatMap Cte.bindings))
      (e.ctesSql (ctes.map (Cte.map (Query.compiled e)))) := by
  unfold ctesSql
  split
  · next empty =>
    obtain rfl := List.map_eq_nil_iff.mp (List.isEmpty_iff.mp empty)
    exact yields_ok.mpr Sql.carries_empty
  · have each := carriesAll_map fun c member => cteSql_carries (h c member) (ih c member)
    rw [List.flatMap_map]
    simp only [List.map_map]
    refine each.joinOutcomes.bind fun statements found => yields_pure.mpr ?_
    exact ⟨by simp [found.whole], by simp [found.bindings_eq]⟩

theorem withCtes_carries {values : List Binding} {sql : Sql} (hs : Sql.Carries values sql) :
    Yields (Sql.Carries ((ctes.map (Cte.map Query.bindingLists)).flatMap Cte.bindings ++ values))
      (e.withCtes (ctes.map (Cte.map (Query.compiled e))) sql) := by
  unfold withCtes
  split
  · next empty =>
    obtain rfl := List.map_eq_nil_iff.mp (List.isEmpty_iff.mp empty)
    exact yields_ok.mpr hs
  · exact (ctesSql_carries h ih).bind fun ctes found =>
      yields_pure.mpr ((found.before " ").append hs)

end Ctes

theorem dropLead_isSome {lead text : List Char} (h : (Text.dropLead? lead text).isSome = true) :
    lead <+: text := by
  fun_induction Text.dropLead? lead text with
  | case1 text => exact List.nil_prefix
  | case2 => simp at h
  | case3 lead b text ih => exact List.cons_prefix_cons.mpr ⟨rfl, ih h⟩
  | case4 => simp at h

/-- The word `select` stands where it is found. -/
theorem selectOffset_prefix {base depth behind found : Nat} {previous : Char} {text : List Char}
    (h : selectOffset? base depth previous behind text = some found) :
    ∃ n, found = behind + n ∧ "select".toList <+: text.drop n := by
  fun_induction selectOffset? base depth previous behind text with
  | case1 => simp at h
  | case2 depth previous behind rest ih =>
    obtain ⟨n, same, word⟩ := ih h
    exact ⟨n + 1, by omega, word⟩
  | case3 depth previous behind rest _ ih =>
    obtain ⟨n, same, word⟩ := ih h
    exact ⟨n + 1, by omega, word⟩
  | case4 depth previous behind c rest _ _ here =>
    exact ⟨0, (Option.some.inj h).symm, dropLead_isSome here.2.2⟩
  | case5 depth previous behind c rest _ _ _ ih =>
    obtain ⟨n, same, word⟩ := ih h
    exact ⟨n + 1, by omega, word⟩

/-- What ends in the word `select` of a statement ends in a clean character. -/
theorem statementSelect_read {text : List Char} {behind : Nat}
    (found : statementSelect? text = some behind) :
    behind + "select".length ≤ text.length ∧
      ∀ c ∈ (text.take (behind + "select".length)).getLast?, isClean c = true := by
  obtain ⟨n, same, rear, whole⟩ := selectOffset_prefix found
  rw [Nat.zero_add] at same
  subst same
  constructor
  · have lengths := congrArg List.length whole
    have six : "select".toList.length = 6 ∧ "select".length = 6 := ⟨rfl, rfl⟩
    rw [List.length_append, List.length_drop] at lengths
    omega
  · have front : text.take (behind + "select".length)
        = text.take behind ++ "select".toList := by
      rw [List.take_add, ← whole]
      rfl
    have closing : isClean 't' = true := rfl
    rw [front, List.getLast?_append]
    simp [closing]

theorem clean_recursionHint (limit : Nat) :
    Clean (" /*+ SET_VAR(cte_max_recursion_depth=" ++ natText limit ++ ") */").toList := by
  simp +decide [clean_natText]

theorem limitRecursion?_carries {values : List Binding} {sql : Sql} (h : Sql.Carries values sql)
    (limit : Option Nat) : Sql.Carries values (e.limitRecursion? limit sql) := by
  cases limit with
  | none => exact h
  | some limit =>
    simp only [limitRecursion?, limitRecursion]
    split
    · split
      · next behind found =>
        -- The hint stands behind the statement's own `select`, and tears nothing apart there.
        obtain ⟨inside, last⟩ := statementSelect_read found
        have inserted := Sql.inserted_insertAt (Nat.lt_add_left behind (by decide)) inside last
          (clean_recursionHint limit)
        exact ⟨inserted.filled h.whole, inserted.bindings.trans h.bindings_eq⟩
      · exact h
    · exact ((h.before _).before _).before _
    all_goals exact h

theorem wrapUnion_carries {values : List Binding} {sql : Sql} (h : Sql.Carries values sql) :
    Sql.Carries values (e.wrapUnion sql) := by
  unfold wrapUnion
  split
  · exact h.parenthesized
  · exact h.parenthesized
  · exact h.parenthesized
  · exact h.parenthesized.behind _
  · exact ((h.parenthesized.behind _).before _).before _

theorem unionMembers_carriesAll {unions : List (UnionMember Query)}
    (ih : ∀ u ∈ unions, u.query.Carried e) :
    CarriesAll ((unions.map (UnionMember.map (Query.compiled e))).map e.unionMember)
      ((unions.map (UnionMember.map Query.bindingLists)).flatMap fun u => u.query.flatten) := by
  rw [List.map_map, List.flatMap_map]
  exact carriesAll_map fun u member =>
    (ih u member).select.map fun select found => (wrapUnion_carries found).behind _

theorem unionsSql_carries {c : Clauses Query} (h : c.Carried e) :
    Yields (Sql.Carries ((c.map Query.bindingLists).bindingLists.union
        ++ (c.map Query.bindingLists).bindingLists.unionOrders))
      (e.unionsSql (c.map (Query.compiled e))) := by
  refine (unionMembers_carriesAll h.within.unions).allOk.bind fun members found => ?_
  refine (unionPagingSql_carries h.counted.unionOrders h.within.unionOrders c.unionLimit
    c.unionOffset).bind fun parts rest => yields_pure.mpr ?_
  have filled := rest.filter
  refine Sql.CarryAll.join ⟨List.forall_mem_append.mpr ⟨found.whole, filled.whole⟩, ?_⟩ " "
  rw [List.flatMap_append, found.bindings_eq, filled.bindings_eq]
  rfl

end Engine

end SqlCompiler
