import SqlCompiler.Proofs.AlignedClauses
import SqlCompiler.Proofs.CarriedSelects
/-!
# Aligned select statements

A select statement of hygienic clauses over queries of aligned parts is aligned, and by induction on
a hygienic query so is everything that it compiles to.
-/

namespace SqlCompiler

open Substitute

namespace Engine

variable {e : Engine} (he : Clean e.settings.tablePrefix.toList)
include he

section Clauses

variable {c : Clauses Query} (h : c.Hygienic) (ih : c.Within fun q => (q.compiled e).Aligned)
include h ih

theorem componentSql_aligned (part : Component) :
    Yields Sql.Aligned (e.componentSql (c.map (Query.compiled e)) part) := by
  cases part with
  | aggregate =>
    simp only [componentSql]
    split
    · next mapped same =>
      obtain ⟨a, head, rfl⟩ := Option.map_eq_some_iff.mp same
      exact aggregateSql_aligned he h.distinct (h.aggregate a head) (ih.aggregate a head)
    · exact yields_ok.mpr Sql.aligned_empty
  | columns =>
    simp only [componentSql]
    split
    · exact columnsSql_aligned he h ih
    · exact yields_ok.mpr Sql.aligned_empty
  | source =>
    simp only [componentSql]
    split
    · next mapped same =>
      obtain ⟨t, source, rfl⟩ := Option.map_eq_some_iff.mp same
      exact sourceSql_aligned he h.lock (h.source t source) (ih.source t source)
    · exact yields_ok.mpr Sql.aligned_empty
  | indexHint =>
    simp only [componentSql]
    split
    · next hint same => exact indexHintSql_aligned (h.indexHint hint same)
    · exact yields_ok.mpr Sql.aligned_empty
  | joins => exact joinsSql_aligned he h.joins ih.joins
  | wheres => exact wheresSql_aligned he h.wheres ih.wheres
  | groups => exact groupsSql_aligned he h.groups ih.groups
  | havings => exact havingsSql_aligned he h.havings ih.havings
  | orders => exact ordersSql_aligned he h.orders ih.orders _ _
  | limit => exact yields_ok.mpr (Sql.aligned_ofText.mpr (clean_limitSql _).holds)
  | offset => exact yields_ok.mpr (Sql.aligned_ofText.mpr (clean_offsetSql _).holds)
  | lock =>
    simp only [componentSql]
    split
    · next lock same => exact yields_ok.mpr (lockSql_aligned (h.lock lock same))
    · exact yields_ok.mpr Sql.aligned_empty

theorem components_aligned :
    Yields Sql.Aligned (e.components (c.map (Query.compiled e))) :=
  (Yields.allOk (List.forall_mem_map.mpr fun part _ => componentSql_aligned he h ih part)).map
    fun _ found => Sql.aligned_spaced found

theorem unionsSql_aligned :
    Yields Sql.Aligned (e.unionsSql (c.map (Query.compiled e))) := by
  refine (Yields.allOk (unionMembers_aligned he ih.unions)).bind fun members found => ?_
  refine (unionPagingSql_aligned he h.unionOrders ih.unionOrders c.unionLimit c.unionOffset).bind
    fun parts rest => yields_pure.mpr ?_
  refine Sql.aligned_join (by decide) (List.forall_mem_append.mpr ⟨found, ?_⟩)
  exact fun part member => rest part (List.mem_filter.mp member).1

theorem plainSelect_aligned :
    Yields Sql.Aligned (e.plainSelect (c.map (Query.compiled e))) := by
  refine (components_aligned he h ih).bind fun body found => ?_
  have limited : (if (c.map (Query.compiled e)).hasUnions then body
      else e.limitRecursion? (c.map (Query.compiled e)).recursionLimit body).Aligned := by
    split
    · exact found
    · exact limitRecursion?_aligned found _
  refine (withCtes_aligned he h.ctes ih.ctes limited).bind fun body found => ?_
  split
  · refine (unionsSql_aligned he h ih).bind fun unions after => ?_
    have whole := Sql.Aligned.beside (by decide : Spacer " ") (wrapUnion_aligned he found) after
    exact withCtes_aligned he h.unionCtes ih.unionCtes (limitRecursion?_aligned whole _)
  · exact withCtes_aligned he h.unionCtes ih.unionCtes found

theorem rowAggregate_aligned {a : Aggregate Query} (head : c.aggregate = some a) :
    Yields Sql.Aligned (e.rowAggregate (c.map (Query.compiled e)) (a.map (Query.compiled e))) := by
  have counted : (rowsOf c).Hygienic := { h with
    aggregate := by simp [rowsOf], ctes := by simp [rowsOf], unionCtes := by simp [rowsOf] }
  have within : (rowsOf c).Within fun q => (q.compiled e).Aligned := { ih with
    aggregate := by simp [rowsOf], ctes := by simp [rowsOf], unionCtes := by simp [rowsOf] }
  have temporary := aligned_wrapTable he (by decide : Clean "temp_table".toList)
  refine (aggregateSql_aligned he h.distinct (h.aggregate a head) (ih.aggregate a head)).bind
    fun head found => (plainSelect_aligned he counted within).bind fun inner rows => ?_
  have whole : (head ++ " from (" ++ inner ++ ") as " ++ e.wrapTable "temp_table").Aligned := by
    simp +decide [found, rows, temporary]
  have all := withCtes_aligned he (List.forall_mem_append.mpr ⟨h.unionCtes, h.ctes⟩)
    (List.forall_mem_append.mpr ⟨ih.unionCtes, ih.ctes⟩)
    (limitRecursion?_aligned (e := e) whole (c.unionRecursionLimit <|> c.recursionLimit))
  rw [List.map_append] at all
  exact all

theorem selectSql_aligned :
    Yields Sql.Aligned (e.selectSql (c.map (Query.compiled e))) := by
  unfold selectSql
  split
  · next mapped same =>
    obtain ⟨a, head, rfl⟩ := Option.map_eq_some_iff.mp same
    split
    · exact rowAggregate_aligned he h ih head
    · exact plainSelect_aligned he h ih
  · exact plainSelect_aligned he h ih

end Clauses

/-- Everything that a hygienic query compiles to is aligned. -/
theorem aligned_of_hygienic {q : Query} (hq : q.Hygienic) : (q.compiled e).Aligned := by
  induction hq with
  | @mk c own inside ih =>
    have within : c.Within fun q => (q.compiled e).Aligned := Clauses.within ih
    rw [Query.compiled_eq]
    exact {
      select := selectSql_aligned he own within
      joins := joins_aligned he own.joins within.joins
      wheres := wheres_aligned he own.wheres within.wheres
      havings := havings_aligned he own.havings within.havings }

end Engine

end SqlCompiler
