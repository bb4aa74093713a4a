import SqlCompiler.Proofs.AlignedConditions
import SqlCompiler.Proofs.CarriedClauses
/-!
# Aligned parts of a select statement

Every part of a hygienic select statement, from its columns to the members of its union, is aligned
over queries of aligned parts.
-/

namespace SqlCompiler

open Substitute

/-- Words that can stand before any aligned statement. -/
def Sql.Front (words : Sql) : Prop :=
  ∀ sql : Sql, sql.Aligned → (words ++ sql).Aligned

theorem Sql.front_spacer {s : String} (hs : Spacer s) : Front (ofText s) :=
  fun _ h => (aligned_spacer_append hs).mpr h

theorem Sql.front_clean {s : String} (hs : Clean s.toList) : Front (ofText s) :=
  fun _ h => (aligned_clean_append hs).mpr h

theorem Sql.Aligned.append_argument {sql : Sql} (h : sql.Aligned) {s : String} (hs : Argument s) :
    (sql ++ ofText s).Aligned :=
  h.append hs.aligned (joint_of_head (by simpa using hs.opening) _)

theorem argument_spacer {s : String} (hs : Spacer s) : Argument s := by
  refine ⟨Sql.aligned_spacer hs, fun c hc => ?_⟩
  simpa [Option.mem_def.mp hc] using hs.2.1

theorem argument_clean {s : String} (hs : Clean s.toList) : Argument s :=
  ⟨Sql.aligned_ofText.mpr hs.holds, fun c hc => hs c (List.mem_of_mem_head? hc)⟩

namespace Engine

variable {e : Engine} (he : Clean e.settings.tablePrefix.toList)
include he

theorem aggregateSql_aligned {distinct : Distinct} (hd : distinct.Hygienic) {a : Aggregate Query}
    (ha : a.Hygienic) (ih : ∀ q ∈ a.queries, (q.compiled e).Aligned) :
    Yields Sql.Aligned (e.aggregateSql distinct (a.map (Query.compiled e))) := by
  obtain ⟨function, columns⟩ := a
  obtain ⟨hf, hc⟩ := ha
  have listed : Yields Sql.Aligned
      (if (columns.map (Term.map (Query.compiled e))).isEmpty then .ok "*"
        else e.columnList (columns.map (Term.map (Query.compiled e)))) := by
    cases columns with
    | nil => exact yields_ok.mpr (Sql.aligned_spacer (by decide))
    | cons column columns => exact columnList_aligned he hc ih
  have call : ∀ counted : Sql, counted.Aligned →
      ("select " ++ Sql.ofText function ++ "(" ++ counted ++ ") as aggregate").Aligned := by
    intro counted found
    have name : (Sql.ofText function).Aligned := Sql.aligned_ofText.mpr hf
    simp +decide [name, found]
  refine listed.ite_bind fun c found => ?_
  cases distinct with
  | off => exact yields_pure.mpr (call _ found)
  | all =>
    refine yields_pure.mpr (call _ ?_)
    split
    · exact found
    · exact Sql.front_spacer (by decide) _ found
  | on names =>
    refine Yields.bind ((nameList_aligned he hd).map fun sql named => ?_) fun counted named =>
      yields_pure.mpr (call _ named)
    exact Sql.front_spacer (by decide) _ named

omit he in
theorem front_topSql (c : Clauses Compiled) : Sql.Front (e.topSql c) := by
  unfold topSql
  split
  · split
    · apply Sql.front_clean
      simp +decide [clean_natText]
    · exact Sql.front_clean (by decide)
  · exact Sql.front_clean (by decide)

theorem selectKeyword_front {distinct : Distinct} (hd : distinct.Hygienic) :
    Yields Sql.Front (e.selectKeyword distinct) := by
  unfold selectKeyword
  split
  · refine (nameList_aligned he hd).bind fun names named => yields_pure.mpr fun sql found => ?_
    simp +decide [named, found]
  · exact yields_ok.mpr (Sql.front_spacer (by decide))
  · exact yields_ok.mpr (Sql.front_spacer (by decide))

theorem columnsSql_aligned {c : Clauses Query} (h : c.Hygienic)
    (ih : c.Within fun q => (q.compiled e).Aligned) :
    Yields Sql.Aligned (e.columnsSql (c.map (Query.compiled e))) := by
  have star : Yields Sql.Aligned (e.columnList [.name "*"]) :=
    nameList_aligned he (by decide : ∀ name ∈ ["*"], Clean name.toList)
  have each := h.columns
  have inside := ih.columns
  refine (selectKeyword_front he h.distinct).bind fun keyword front => ?_
  have written : ∀ columns : Sql, columns.Aligned →
      (keyword ++ e.topSql (c.map (Query.compiled e)) ++ columns).Aligned := by
    intro columns found
    rw [Sql.append_assoc]
    exact front _ (front_topSql _ _ found)
  refine Yields.bind ?_ fun columns found => yields_pure.mpr (written columns found)
  simp only [Clauses.map]
  generalize c.columns = columns at each inside
  rcases columns with _ | _ | ⟨column, columns⟩
  · exact star
  · exact star
  · exact columnList_aligned he (each _ rfl) (inside _ rfl)

theorem sourceSql_aligned {lock : Option Lock} (hl : ∀ l ∈ lock, l.Hygienic) {t : Term Query}
    (ht : t.Hygienic) (ih : ∀ q ∈ t.queries, (q.compiled e).Aligned) :
    Yields Sql.Aligned (e.sourceSql lock (t.map (Query.compiled e))) := by
  have hint : Argument (e.lockHint lock) := by
    unfold lockHint
    split
    · exact argument_spacer (by decide)
    · exact argument_spacer (by decide)
    · next sql _ =>
      refine ⟨?_, by simp [isClean]⟩
      have raw : (Sql.ofText sql).Aligned := Sql.aligned_ofText.mpr (hl _ rfl)
      simp +decide [Sql.aligned_ofText_append, raw]
    · exact argument_clean (by decide)
  refine (table_aligned he ht ih).bind fun table found => yields_pure.mpr ?_
  rw [Sql.append_assoc]
  exact Sql.front_spacer (by decide) _ (found.append_argument hint)

omit he in
theorem indexHintSql_aligned {hint : IndexHint} (h : hint.Hygienic) :
    Yields Sql.Aligned (e.indexHintSql hint) := by
  have name : (Sql.ofText hint.index).Aligned := Sql.aligned_ofText.mpr h
  unfold indexHintSql
  split
  · exact yields_error
  · exact yields_error
  all_goals first
    | exact yields_ok.mpr Sql.aligned_empty
    | exact yields_ok.mpr (by simp +decide [name])

theorem joinSql_aligned {j : Join Query} (hj : j.Hygienic)
    (ih : ∀ q ∈ j.queries, (q.compiled e).Aligned) :
    Yields Sql.Aligned (e.joinSql (j.map (Query.compiled e))) := by
  simp only [Join.queries, List.forall_mem_append, List.forall_mem_singleton] at ih
  obtain ⟨inTable, inner⟩ := ih
  have kind : Spacer j.kind.sql := by cases j.kind <;> decide
  -- The conditions stand after the table, whatever stands beside it.
  have on : ∀ target : Sql, target.Aligned → Yields Sql.Aligned (do
      let on ← conditions (j.clause.compiled e).wheres
      let joined := Sql.ofText j.kind.sql ++ " join " ++ target
      return if on.isEmpty then joined else joined ++ " on " ++ on) := by
    intro target found
    refine (aligned_conditions inner.wheres).bind fun on tests => yields_pure.mpr ?_
    split <;> simp +decide [kind, found, tests]
  refine (table_aligned he hj.1 inTable).bind fun table found => ?_
  change Yields _ (if (j.clause.compiled e).joins.isEmpty then _ else _)
  split
  · exact on table found
  · refine (aligned_joinOutcomes inner.joins (by decide)).bind fun inner joined => on _ ?_
    simp +decide [found, joined]

theorem joins_aligned {joins : List (Join Query)} (h : ∀ j ∈ joins, j.Hygienic)
    (ih : ∀ j ∈ joins, ∀ q ∈ j.queries, (q.compiled e).Aligned) :
    ∀ part ∈ (joins.map (Join.map (Query.compiled e))).map e.joinSql, Yields Sql.Aligned part := by
  rw [List.map_map, List.forall_mem_map]
  exact fun j member => joinSql_aligned he (h j member) (ih j member)

theorem joinsSql_aligned {joins : List (Join Query)} (h : ∀ j ∈ joins, j.Hygienic)
    (ih : ∀ j ∈ joins, ∀ q ∈ j.queries, (q.compiled e).Aligned) :
    Yields Sql.Aligned (e.joinsSql (joins.map (Join.map (Query.compiled e)))) :=
  aligned_joinOutcomes (joins_aligned he h ih) (by decide)

omit he in
theorem headed_aligned {keyword : String} (hk : Spacer keyword) {sql : Sql} (h : sql.Aligned) :
    (headed keyword sql).Aligned := by
  unfold headed
  split
  · exact Sql.aligned_empty
  · exact Sql.front_spacer hk _ h

theorem wheres_aligned {wheres : List (Where Query)} (h : ∀ w ∈ wheres, w.Hygienic)
    (ih : ∀ w ∈ wheres, ∀ q ∈ w.queries, (q.compiled e).Aligned) :
    ∀ part ∈ ((wheres.map (Where.map (Query.compiled e))).map e.whereClause).map Prod.snd,
      Yields Sql.Aligned part := by
  rw [List.map_map, List.map_map, List.forall_mem_map]
  exact fun w member => whereTest_aligned he w.negated (h w member) (ih w member)

theorem wheresSql_aligned {wheres : List (Where Query)} (h : ∀ w ∈ wheres, w.Hygienic)
    (ih : ∀ w ∈ wheres, ∀ q ∈ w.queries, (q.compiled e).Aligned) :
    Yields Sql.Aligned (e.wheresSql (wheres.map (Where.map (Query.compiled e)))) :=
  (aligned_conditions (wheres_aligned he h ih)).map fun _ found => headed_aligned (by decide) found

theorem groupsSql_aligned {groups : List (Term Query)} (h : ∀ t ∈ groups, t.Hygienic)
    (ih : ∀ q ∈ groups.flatMap Term.queries, (q.compiled e).Aligned) :
    Yields Sql.Aligned (e.groupsSql (groups.map (Term.map (Query.compiled e)))) := by
  unfold groupsSql
  split
  · exact yields_ok.mpr Sql.aligned_empty
  · exact (columnList_aligned he h ih).map fun _ found => Sql.front_spacer (by decide) _ found

theorem havings_aligned {havings : List (Having Query)} (h : ∀ w ∈ havings, w.Hygienic)
    (ih : ∀ w ∈ havings, ∀ q ∈ w.queries, (q.compiled e).Aligned) :
    ∀ part ∈ ((havings.map (Having.map (Query.compiled e))).map e.havingClause).map Prod.snd,
      Yields Sql.Aligned part := by
  rw [List.map_map, List.map_map, List.forall_mem_map]
  exact fun w member => havingTest_aligned he w.negated (h w member) (ih w member)

theorem havingsSql_aligned {havings : List (Having Query)} (h : ∀ w ∈ havings, w.Hygienic)
    (ih : ∀ w ∈ havings, ∀ q ∈ w.queries, (q.compiled e).Aligned) :
    Yields Sql.Aligned (e.havingsSql (havings.map (Having.map (Query.compiled e)))) :=
  (aligned_conditions (havings_aligned he h ih)).map fun _ found => headed_aligned (by decide) found

/-! ### Order and paging -/

theorem orderSql_aligned {o : Order Query} (ho : o.Hygienic)
    (ih : ∀ q ∈ o.queries, (q.compiled e).Aligned) :
    Yields Sql.Aligned (e.orderSql (o.map (Query.compiled e))) := by
  cases o with
  | byColumn column direction =>
    refine (column_aligned he ho ih).bind fun c found => yields_pure.mpr ?_
    cases direction <;> simp +decide [Direction.sql, found]
  | raw sql values => exact yields_ok.mpr (Sql.aligned_ofFragment ho)
  | random seed =>
    refine yields_ok.mpr ?_
    unfold randomSql
    split
    · have inside : (Sql.ofText (seed.getD "")).Aligned := by
        cases seed with
        | none => exact Sql.aligned_ofText.mpr (by decide)
        | some seed => exact Sql.aligned_ofText.mpr (ho seed rfl)
      simp +decide [Sql.aligned_ofText_append, inside]
    all_goals exact Sql.aligned_spacer (by decide)

section Orders

variable {orders : List (Order Query)} (h : ∀ o ∈ orders, o.Hygienic)
  (ih : ∀ o ∈ orders, ∀ q ∈ o.queries, (q.compiled e).Aligned)
include h ih

theorem orderList_aligned :
    Yields Sql.Aligned (e.orderList (orders.map (Order.map (Query.compiled e)))) := by
  unfold orderList
  split
  · exact yields_ok.mpr Sql.aligned_empty
  · rw [List.map_map]
    have each := List.forall_mem_map.mpr fun o member =>
      orderSql_aligned he (h o member) (ih o member)
    exact (aligned_joinOutcomes each (by decide)).map fun _ found =>
      Sql.front_spacer (by decide) _ found

omit he h ih in
theorem anyOrder_aligned : anyOrder.Aligned :=
  Sql.aligned_spacer (by decide)

theorem ordersSql_aligned (limit offset : Option Nat) :
    Yields Sql.Aligned
      (e.ordersSql ⟨orders.map (Order.map (Query.compiled e)), limit, offset⟩) := by
  unfold ordersSql
  split
  · exact yields_ok.mpr anyOrder_aligned
  · exact orderList_aligned he h ih

omit he h ih in
theorem clean_limitSql (p : Paging) : Clean (e.limitSql p).toList := by
  unfold limitSql
  split
  · split <;> simp +decide [clean_natText]
  · simp +decide [clean_natText]
  · exact clean_nil

omit he h ih in
theorem clean_offsetSql (p : Paging) : Clean (e.offsetSql p).toList := by
  unfold offsetSql
  split
  · split <;> simp +decide [clean_natText]
  · simp +decide [clean_natText]
  · exact clean_nil

theorem unionPagingSql_aligned (limit offset : Option Nat) :
    Yields (fun parts => ∀ part ∈ parts, part.Aligned)
      (e.unionPagingSql ⟨orders.map (Order.map (Query.compiled e)), limit, offset⟩) := by
  have clean {s : String} (hs : Clean s.toList) : (Sql.ofText s).Aligned :=
    Sql.aligned_ofText.mpr hs.holds
  unfold unionPagingSql
  split
  · split
    · exact (orderList_aligned he h ih).bind fun orders found => yields_pure.mpr (by simp [found])
    · have ordered : Yields Sql.Aligned
          (if (orders.map (Order.map (Query.compiled e))).isEmpty then .ok anyOrder
            else e.orderList (orders.map (Order.map (Query.compiled e)))) := by
        split
        · exact yields_ok.mpr anyOrder_aligned
        · exact orderList_aligned he h ih
      refine ordered.ite_bind fun orders found => yields_pure.mpr ?_
      have skipped := clean (s := "offset " ++ natText (offset.getD 0) ++ " rows")
        (by simp +decide [clean_natText])
      cases limit with
      | none => simp [found, skipped, clean (s := "")]
      | some limit => simp +decide [found, skipped, aligned_natText]
  · refine (ordersSql_aligned he h ih limit offset).bind fun orders found => yields_pure.mpr ?_
    have limited := clean (clean_limitSql (e := e)
      ⟨‹List (Order Query)›.map (Order.map (Query.compiled e)), limit, offset⟩)
    have skipped := clean (clean_offsetSql (e := e)
      ⟨‹List (Order Query)›.map (Order.map (Query.compiled e)), limit, offset⟩)
    unfold pagingSql
    split <;> simp [found, limited, skipped]

end Orders

omit he in
theorem lockSql_aligned {lock : Lock} (h : lock.Hygienic) :
    (Sql.ofText (e.lockSql lock)).Aligned := by
  rw [Sql.aligned_ofText]
  unfold lockSql
  split
  case h_3 => exact h
  all_goals decide

/-! ### With-expressions and unions -/

theorem cycleSql_aligned {cycle : Cycle} (h : cycle.Hygienic) :
    Yields Sql.Aligned (e.cycleSql cycle) := by
  obtain ⟨hc, hm, hp⟩ := h
  unfold cycleSql
  split
  · refine (nameList_aligned he hc).bind fun columns found => ?_
    refine (aligned_wrap he hm).bind fun mark hmark => ?_
    exact (aligned_wrap he hp).bind fun path hpath =>
      yields_pure.mpr (by simp +decide [found, hmark, hpath])
  · exact yields_error

omit he in
theorem clean_materializedSql (materialized : Option Bool) :
    Clean (e.materializedSql materialized).toList := by
  unfold materializedSql
  split <;> decide

theorem cteSql_aligned {c : Cte Query} (hc : c.Hygienic)
    (ih : ∀ q ∈ c.queries, (q.compiled e).Aligned) :
    Yields Sql.Aligned (e.cteSql (c.map (Query.compiled e))) := by
  obtain ⟨name, columns, recursive, materialized, body, cycle⟩ := c
  obtain ⟨hn, hcolumns, hbody, hcycle⟩ := hc
  have listed : Yields Sql.Front
      (if columns.isEmpty then .ok .empty
        else (e.nameList columns).map fun columns => columns.parenthesized ++ " ") := by
    split
    · exact yields_ok.mpr fun _ found => found
    · exact (nameList_aligned he hcolumns).map fun words found sql after => by
        simp +decide [found.parenthesized, after]
  have written : ∀ words body cycle : Sql, words.Front → body.Aligned → cycle.Aligned →
      (e.wrapTable name ++ " " ++ words ++ "as " ++ e.materializedSql materialized
        ++ body.parenthesized ++ cycle).Aligned := by
    intro words body cycle front found after
    have rear : (body.parenthesized ++ cycle).Aligned := by
      simp +decide [Sql.parenthesized, found, after]
    simp only [Sql.append_assoc]
    refine Sql.front_clean (clean_wrapTable he hn) _ (Sql.front_spacer (by decide) _ ?_)
    refine front _ (Sql.front_spacer (by decide) _ ?_)
    exact Sql.front_clean (clean_materializedSql _) _ rear
  refine listed.ite_bind fun words front => ?_
  cases body with
  | select query =>
    refine (ih query List.mem_cons_self).select.bind fun body found => ?_
    cases cycle with
    | none => exact yields_pure.mpr (written _ _ _ front found Sql.aligned_empty)
    | some cycle =>
      exact (cycleSql_aligned he (hcycle cycle rfl)).bind fun _ after =>
        yields_pure.mpr (written _ _ _ front found after)
  | raw sql values =>
    have found := Sql.aligned_ofFragment hbody
    cases cycle with
    | none => exact yields_pure.mpr (written _ _ _ front found Sql.aligned_empty)
    | some cycle =>
      exact (cycleSql_aligned he (hcycle cycle rfl)).bind fun _ after =>
        yields_pure.mpr (written _ _ _ front found after)

omit he in
theorem clean_recursiveKeyword : Clean e.recursiveKeyword.toList := by
  unfold recursiveKeyword
  split <;> decide

section Ctes

variable {ctes : List (Cte Query)} (h : ∀ c ∈ ctes, c.Hygienic)
  (ih : ∀ c ∈ ctes, ∀ q ∈ c.queries, (q.compiled e).Aligned)
include h ih

theorem ctesSql_aligned :
    Yields Sql.Aligned (e.ctesSql (ctes.map (Cte.map (Query.compiled e)))) := by
  unfold ctesSql
  split
  · exact yields_ok.mpr Sql.aligned_empty
  · have each := List.forall_mem_map.mpr fun c member =>
      cteSql_aligned he (h c member) (ih c member)
    simp only [List.map_map]
    refine (aligned_joinOutcomes each (by decide)).bind fun statements found => yields_pure.mpr ?_
    rw [Sql.append_assoc]
    refine Sql.front_spacer (by decide) _ (Sql.front_clean ?_ _ found)
    split
    · exact clean_recursiveKeyword
    · exact clean_nil

theorem withCtes_aligned {sql : Sql} (hs : sql.Aligned) :
    Yields Sql.Aligned (e.withCtes (ctes.map (Cte.map (Query.compiled e))) sql) := by
  unfold withCtes
  split
  · exact yields_ok.mpr hs
  · exact (ctesSql_aligned he h ih).bind fun ctes found =>
      yields_pure.mpr (Sql.Aligned.beside (by decide) found hs)

end Ctes

omit he in
theorem limitRecursion?_aligned {sql : Sql} (h : sql.Aligned) (limit : Option Nat) :
    (e.limitRecursion? limit sql).Aligned := by
  cases limit with
  | none => exact h
  | some limit =>
    simp only [limitRecursion?, limitRecursion]
    split
    · split
      · next behind found =>
        obtain ⟨inside, last⟩ := statementSelect_read found
        exact (h.insertAt (Nat.lt_add_left behind (by decide)) inside last
          (clean_recursionHint limit)).1
      · exact h
    · simp +decide [h, Sql.aligned_clean_append (clean_natText _)]
    all_goals exact h

theorem wrapUnion_aligned {sql : Sql} (h : sql.Aligned) : (e.wrapUnion sql).Aligned := by
  have temporary := aligned_wrapTable he (by decide : Clean "temp_table".toList)
  have inner := h.parenthesized
  unfold wrapUnion
  split
  · exact inner
  · exact inner
  · exact inner
  · exact Sql.front_spacer (by decide) _ inner
  · simp +decide [inner, temporary]

theorem unionMembers_aligned {unions : List (UnionMember Query)}
    (ih : ∀ u ∈ unions, (u.query.compiled e).Aligned) :
    ∀ part ∈ (unions.map (UnionMember.map (Query.compiled e))).map e.unionMember,
      Yields Sql.Aligned part := by
  rw [List.map_map, List.forall_mem_map]
  refine fun u member => (ih u member).select.map fun select found => ?_
  have keyword : Spacer (if u.all then "union all " else "union ") := by split <;> decide
  exact Sql.front_spacer keyword _ (wrapUnion_aligned he found)

end Engine

end SqlCompiler
