import SqlCompiler.Engine.Select
import SqlCompiler.Proofs.AlignedJson
import SqlCompiler.Proofs.Hygiene
/-!
# Aligned conditions

A hygienic column, table or condition over queries of aligned parts is aligned: a scan of its text
finds the placeholders that were emitted.
-/

namespace SqlCompiler

open Substitute

/-- Every part of a compiled query is aligned. -/
structure Compiled.Aligned (k : Compiled) : Prop where
  select : Yields Sql.Aligned k.select
  joins : ∀ part ∈ k.joins, Yields Sql.Aligned part
  wheres : ∀ part ∈ k.wheres.map Prod.snd, Yields Sql.Aligned part
  havings : ∀ part ∈ k.havings.map Prod.snd, Yields Sql.Aligned part

theorem Param.Hygienic.aligned {value : Param} (h : value.Hygienic) :
    (Sql.ofParam value).Aligned := by
  cases value with
  | value b => exact Sql.aligned_ofParam_value b
  | raw sql => exact Sql.aligned_ofText.mpr h

theorem Param.Hygienic.binds {value : Param} (h : value.Hygienic) :
    Sql.Binds (boundValues [value]) (Sql.ofParam value) :=
  h.aligned.binds (Sql.carries_ofParam value)

theorem aligned_paramList {values : List Param} (h : ∀ value ∈ values, value.Hygienic) :
    (paramList values).Aligned := by
  refine Sql.aligned_join (by decide) ?_
  rw [List.forall_mem_map]
  exact fun value member => (h value member).aligned

theorem escapeOperator_of_clean {operator : String} (h : Clean operator.toList) :
    escapeOperator operator = operator := by
  have same : Text.doubled '?' operator.toList = operator.toList := doubled_of_clean (by decide) h
  simp [escapeOperator, Text.onString, same]

theorem spacer_datePart (part : DatePart) : Spacer part.sql := by
  cases part <;> decide

theorem spacer_format (part : DatePart) : Spacer ("strftime('" ++ part.format ++ "', ") := by
  cases part <;> decide

theorem aligned_negate {negated : Bool} {sql : Sql} (h : sql.Aligned) :
    (negate negated sql).Aligned := by
  cases negated with
  | false => exact h
  | true => simp +decide [negate, h]

namespace Engine

variable {e : Engine} (he : Clean e.settings.tablePrefix.toList)
include he

theorem column_aligned {t : Term Query} (ht : t.Hygienic)
    (ih : ∀ q ∈ t.queries, (q.compiled e).Aligned) :
    Yields Sql.Aligned (e.column (t.map (Query.compiled e))) := by
  cases t with
  | name n => exact (aligned_wrap he ht).map fun sql aligned => aligned
  | raw sql values => exact yields_ok.mpr (Sql.aligned_ofFragment ht)
  | sub query aliasName =>
    refine (ih query List.mem_cons_self).select.bind fun select found => ?_
    exact (aligned_wrap he ht).bind fun name aligned =>
      yields_pure.mpr (by simp +decide [found.parenthesized, aligned])

theorem table_aligned {t : Term Query} (ht : t.Hygienic)
    (ih : ∀ q ∈ t.queries, (q.compiled e).Aligned) :
    Yields Sql.Aligned (e.table (t.map (Query.compiled e))) := by
  cases t with
  | name n => exact yields_ok.mpr (aligned_wrapTable he ht)
  | raw sql values => exact yields_ok.mpr (Sql.aligned_ofFragment ht)
  | sub query aliasName =>
    have aligned := aligned_wrapTable he ht
    exact (ih query List.mem_cons_self).select.bind fun select found =>
      yields_pure.mpr (by simp +decide [found.parenthesized, aligned])

theorem columnList_aligned {terms : List (Term Query)} (h : ∀ t ∈ terms, t.Hygienic)
    (ih : ∀ q ∈ terms.flatMap Term.queries, (q.compiled e).Aligned) :
    Yields Sql.Aligned (e.columnList (terms.map (Term.map (Query.compiled e)))) := by
  rw [columnList, List.map_map]
  refine aligned_joinOutcomes (List.forall_mem_map.mpr fun t member => ?_) (by decide)
  exact column_aligned he (h t member) fun q inside =>
    ih q (List.mem_flatMap.mpr ⟨t, member, inside⟩)

theorem nameList_aligned {names : List String} (h : ∀ name ∈ names, Clean name.toList) :
    Yields Sql.Aligned (e.nameList names) := by
  rw [nameList, columnList, List.map_map]
  refine aligned_joinOutcomes (List.forall_mem_map.mpr fun name member => ?_) (by decide)
  exact (aligned_wrap he (h name member)).map fun sql aligned => aligned

section Comparisons

variable {column : Term Query} (hc : column.Hygienic)
  (ih : ∀ q ∈ column.queries, (q.compiled e).Aligned) {operator : String}
  (ho : Clean operator.toList) {value : Param} (hv : value.Hygienic)
include hc ih

theorem nullTest_aligned (negated : Bool) :
    Yields Sql.Aligned (e.nullTest (column.map (Query.compiled e)) negated) := by
  have plain : Yields Sql.Aligned (do
      let column ← e.column (column.map (Query.compiled e))
      return column ++ " " ++ nullKeyword negated) := by
    refine (column_aligned he hc ih).bind fun c found => yields_pure.mpr ?_
    cases negated <;> simp +decide [nullKeyword, found]
  unfold nullTest
  split
  · next name hd same =>
    obtain rfl : column = .name name := by cases column <;> simp_all [Term.map]
    split
    · obtain ⟨hf, hp⟩ := fieldAndPath_read he hc
      generalize e.fieldAndPath name = parts at hf hp
      obtain ⟨field, path⟩ := parts
      refine yields_ok.mpr ?_
      cases negated <;> simp +decide [Sql.aligned_ofText_append, Sql.aligned_ofText_append_append,
        Sql.aligned_clean_append hf, hp.aligned]
    · exact plain
  · exact plain

include ho hv

theorem comparison_aligned :
    Yields Sql.Aligned (e.comparison (column.map (Query.compiled e)) operator value) := by
  refine (column_aligned he hc ih).bind fun c found => ?_
  split
  · exact yields_pure.mpr (by simp +decide [found, Sql.aligned_clean_append ho, hv.aligned])
  · rw [escapeOperator_of_clean ho]
    exact yields_pure.mpr (found.compared ho hv.aligned)

/-- Where bits are no truth value, they are compared with zero. -/
theorem havingBitwise_aligned :
    Yields Sql.Aligned (e.havingBitwise (column.map (Query.compiled e)) operator value) := by
  refine (column_aligned he hc ih).bind fun c found => yields_pure.mpr ?_
  simp +decide [found, Sql.aligned_clean_append ho, hv.aligned]

theorem bitwise_aligned :
    Yields Sql.Aligned (e.bitwise (column.map (Query.compiled e)) operator value) := by
  unfold bitwise
  split
  · rw [escapeOperator_of_clean ho]
    refine (column_aligned he hc ih).bind fun c found => yields_pure.mpr ?_
    simp +decide [found, Sql.aligned_clean_append ho, hv.aligned]
  · exact havingBitwise_aligned he hc ih ho hv
  all_goals exact comparison_aligned he hc ih ho hv

theorem dateTest_aligned (part : DatePart) :
    Yields Sql.Aligned (e.dateTest part (column.map (Query.compiled e)) operator value) := by
  refine (column_aligned he hc ih).bind fun c found => ?_
  have compared : (if e.dialect = .sqlite then "cast(" ++ Sql.ofParam value ++ " as text)"
      else Sql.ofParam value).Aligned := by
    split
    · simp +decide [hv.aligned]
    · exact hv.aligned
  refine yields_pure.mpr (Sql.Aligned.compared ?_ ho compared)
  split
  case h_4 =>
    rw [Sql.append_assoc, Sql.append_assoc, Sql.append_assoc]
    -- The format stands in a literal that begins and ends in the words around it.
    rw [← Sql.aligned_ofText_append_append, ← Sql.aligned_ofText_append_append]
    simp +decide [Sql.aligned_spacer_append (spacer_format _), found]
  all_goals simp +decide [spacer_datePart, found]

end Comparisons

section Fulltext

variable {columns : List (Term Query)} (hc : ∀ t ∈ columns, t.Hygienic)
  (ih : ∀ q ∈ columns.flatMap Term.queries, (q.compiled e).Aligned) {value : Param}
  (hv : value.Hygienic)
include hc ih hv

theorem matchTest_aligned (options : FulltextOptions) :
    Yields Sql.Aligned
      (e.matchTest (columns.map (Term.map (Query.compiled e))) value options) := by
  refine (columnList_aligned he hc ih).bind fun c found => yields_pure.mpr ?_
  split <;> split <;> simp +decide [found, hv.aligned, Sql.aligned_ofText]

/-- A search for words of a known language, by a function of Postgres. -/
theorem vectors_aligned {language function : String} (known : Clean language.toList)
    (hf : Spacer function) :
    Yields Sql.Aligned (do
      let vectors ← joinOutcomes " || " <|
        (columns.map (Term.map (Query.compiled e))).map fun column =>
          (e.column column).map fun column =>
            "to_tsvector('" ++ Sql.ofText language ++ "', " ++ column ++ ")"
      return "(" ++ vectors ++ ") @@ " ++ Sql.ofText function ++ "('" ++ Sql.ofText language
        ++ "', " ++ Sql.ofParam value ++ ")") := by
  have opening : "to_tsvector('" = "to_tsvector(" ++ "'" := rfl
  have call : "('" = "(" ++ "'" := rfl
  have closing : "', " = "'" ++ ", " := rfl
  have vectors : Yields Sql.Aligned
      (joinOutcomes " || " <| (columns.map (Term.map (Query.compiled e))).map fun column =>
        (e.column column).map fun column =>
          "to_tsvector('" ++ Sql.ofText language ++ "', " ++ column ++ ")") := by
    rw [List.map_map]
    refine aligned_joinOutcomes (List.forall_mem_map.mpr fun t member => ?_) (by decide)
    have own := column_aligned he (hc t member) fun q inside =>
      ih q (List.mem_flatMap.mpr ⟨t, member, inside⟩)
    refine own.map fun c found => ?_
    simp only [Sql.append_assoc]
    rw [opening, closing, Sql.aligned_quoted_append known (by decide) (by decide)]
    simp +decide [found]
  refine vectors.bind fun v found => yields_pure.mpr ?_
  have rear : ("('" ++ (Sql.ofText language ++ ("', " ++ (Sql.ofParam value ++ ")")))).Aligned := by
    rw [call, closing, Sql.aligned_quoted_append known (by decide) (by decide)]
    simp +decide [hv.aligned]
  simp +decide [found, hf, rear]

theorem vectorTest_aligned (options : FulltextOptions) :
    Yields Sql.Aligned
      (e.vectorTest (columns.map (Term.map (Query.compiled e))) value options) := by
  have known : ∀ language ∈ fulltextLanguages, Clean language.toList := by decide
  have english := known "english" (by decide)
  unfold vectorTest
  simp only
  split
  · split
    · next language _ member =>
      split <;> exact vectors_aligned he hc ih hv (known language member) (by decide)
    · split <;> exact vectors_aligned he hc ih hv english (by decide)
  · split <;> exact vectors_aligned he hc ih hv english (by decide)

theorem fulltextTest_aligned (options : FulltextOptions) :
    Yields Sql.Aligned
      (e.fulltextTest (columns.map (Term.map (Query.compiled e))) value options) := by
  unfold fulltextTest
  cases e.dialect with
  | mysql => exact matchTest_aligned he hc ih hv options
  | postgres => exact vectorTest_aligned he hc ih hv options
  | generic | sqlite | sqlserver => exact yields_error

end Fulltext

theorem listTest_aligned {column : Term Query} (hc : column.Hygienic)
    (ih : ∀ q ∈ column.queries, (q.compiled e).Aligned) (negated : Bool) {list : Sql}
    (hl : list.Aligned) :
    Yields Sql.Aligned (e.listTest (column.map (Query.compiled e)) negated list) := by
  refine (column_aligned he hc ih).bind fun c found => yields_pure.mpr ?_
  cases negated <;> simp +decide [found, hl]

omit he in
theorem spacer_betweenKeyword (negated : Bool) : Spacer (betweenKeyword negated) := by
  cases negated <;> decide

theorem rangeTest_aligned {column : Term Query} (hc : column.Hygienic)
    (ih : ∀ q ∈ column.queries, (q.compiled e).Aligned) (negated : Bool) {low high : Param}
    (hl : low.Hygienic) (hh : high.Hygienic) :
    Yields Sql.Aligned (e.rangeTest (column.map (Query.compiled e)) negated low high) :=
  (column_aligned he hc ih).bind fun c found => yields_pure.mpr (by
    simp +decide [found, spacer_betweenKeyword, hl.aligned, hh.aligned])

omit he in
theorem group_aligned (flaw : Flaw) (negated : Bool) {members : List (Conjunction × Outcome)}
    (h : ∀ part ∈ members.map Prod.snd, Yields Sql.Aligned part) :
    Yields Sql.Aligned (group flaw negated members) := by
  refine (aligned_conditions h).bind fun sql found => ?_
  split
  · exact yields_error
  · refine yields_pure.mpr ?_
    cases negated <;> simp +decide [found.parenthesized, Sql.aligned_clean_append]

/-! ### Where and having -/

omit he in
theorem emptyListTest_aligned (negated : Bool) : (emptyListTest negated).Aligned := by
  cases negated <;> exact Sql.aligned_ofText.mpr (by decide)

theorem whereTest_aligned (negated : Bool) {p : Predicate Query} (hp : p.Hygienic)
    (ih : ∀ q ∈ p.queries, (q.compiled e).Aligned) :
    Yields Sql.Aligned (e.whereTest negated (p.map (Query.compiled e))) := by
  cases p with
  | basic column operator value =>
    obtain ⟨hc, ho, hv⟩ := hp
    simp only [Predicate.map, whereTest]
    split
    · exact (bitwise_aligned he hc ih ho hv).map fun _ found => aligned_negate found
    · exact (comparison_aligned he hc ih ho hv).map fun _ found => aligned_negate found
  | raw sql values => exact yields_ok.mpr (aligned_negate (Sql.aligned_ofFragment hp))
  | expression sql => exact yields_ok.mpr (aligned_negate (Sql.aligned_ofText.mpr hp))
  | bitwise column operator value =>
    obtain ⟨hc, ho, hv⟩ := hp
    exact (bitwise_aligned he hc ih ho hv).map fun _ found => aligned_negate found
  | among column values =>
    obtain ⟨hc, hv, _⟩ := hp
    simp only [Predicate.map, whereTest]
    split
    · exact yields_ok.mpr (emptyListTest_aligned negated)
    · exact listTest_aligned he hc ih negated (aligned_paramList hv)
  | amongIntegers column values =>
    simp only [Predicate.map, whereTest]
    split
    · exact yields_ok.mpr (emptyListTest_aligned negated)
    · refine listTest_aligned he hp.1 ih negated (Sql.aligned_join (by decide) ?_)
      exact List.forall_mem_map.mpr fun n _ => aligned_intText n
  | null column => exact nullTest_aligned he hp ih negated
  | between column low high =>
    obtain ⟨hc, hl, hh⟩ := hp
    exact rangeTest_aligned he hc ih negated hl hh
  | betweenColumns column low high =>
    obtain ⟨hc, hl, hh⟩ := hp
    simp only [Predicate.queries, List.forall_mem_append] at ih
    refine (column_aligned he hc ih.1.1).bind fun c foundC => ?_
    refine (column_aligned he hl ih.1.2).bind fun l foundL => ?_
    refine (column_aligned he hh ih.2).bind fun h foundH => yields_pure.mpr ?_
    simp +decide [spacer_betweenKeyword, foundC, foundL, foundH]
  | datePart part column operator value =>
    obtain ⟨hc, ho, hv⟩ := hp
    exact (dateTest_aligned he hc ih ho hv part).map fun _ found => aligned_negate found
  | compareColumns first operator second =>
    obtain ⟨hf, ho, hs⟩ := hp
    simp only [Predicate.queries, List.forall_mem_append] at ih
    refine (column_aligned he hf ih.1).bind fun a foundA => ?_
    exact (column_aligned he hs ih.2).bind fun b foundB =>
      yields_pure.mpr (aligned_negate (foundA.compared ho foundB))
  | nested query =>
    exact group_aligned .emptyWhereGroup negated (ih query List.mem_cons_self).wheres
  | sub column operator query =>
    obtain ⟨hc, ho⟩ := hp
    simp only [Predicate.queries, List.forall_mem_append, List.forall_mem_singleton] at ih
    refine (column_aligned he hc ih.1).bind fun c foundC => ?_
    exact ih.2.select.bind fun select found =>
      yields_pure.mpr (aligned_negate (foundC.compared ho found.parenthesized))
  | hasRows query =>
    refine (ih query List.mem_cons_self).select.bind fun select found => yields_pure.mpr ?_
    cases negated <;> simp +decide [found.parenthesized]
  | rowValues columns operator values =>
    obtain ⟨hc, ho, hv⟩ := hp
    simp only [Predicate.map, whereTest]
    split
    · exact yields_error
    · refine (columnList_aligned he hc ih).bind fun c found => yields_pure.mpr (aligned_negate ?_)
      exact found.parenthesized.compared ho (aligned_paramList hv).parenthesized
  | jsonBoolean column operator value =>
    obtain ⟨hc, ho⟩ := hp
    have test := (jsonBooleanTest_aligned he hc ho value).bind fun sql aligned =>
      yields_pure.mpr aligned
    exact test.map fun _ found => aligned_negate found
  | jsonContains column document =>
    refine (jsonContainsTest_aligned he hp (Sql.aligned_ofParam_value _)).map fun sql found => ?_
    cases negated <;> simp +decide [found, Sql.aligned_clean_append]
  | jsonContainsKey column =>
    refine (jsonKeyTest_aligned he hp).map fun sql aligned => ?_
    cases negated <;> simp +decide [Sql.aligned_ofText_append, aligned]
  | jsonLength column operator value =>
    obtain ⟨hc, ho, hv⟩ := hp
    exact (jsonLengthTest_aligned he hc ho hv.aligned).map fun _ found => aligned_negate found
  | fulltext columns value options =>
    obtain ⟨hc, hv⟩ := hp
    exact (fulltextTest_aligned he hc ih hv options).map fun _ found => aligned_negate found

theorem havingTest_aligned (negated : Bool) {p : GroupPredicate Query} (hp : p.Hygienic)
    (ih : ∀ q ∈ p.queries, (q.compiled e).Aligned) :
    Yields Sql.Aligned (e.havingTest negated (p.map (Query.compiled e))) := by
  cases p with
  | basic column operator value =>
    obtain ⟨hc, ho, hv⟩ := hp
    simp only [GroupPredicate.map, havingTest]
    split
    · exact (havingBitwise_aligned he hc ih ho hv).map fun _ found => aligned_negate found
    · exact (column_aligned he hc ih).bind fun c found =>
        yields_pure.mpr (aligned_negate (found.compared ho hv.aligned))
  | raw sql values => exact yields_ok.mpr (aligned_negate (Sql.aligned_ofFragment hp))
  | expression sql => exact yields_ok.mpr (aligned_negate (Sql.aligned_ofText.mpr hp))
  | between column low high =>
    obtain ⟨hc, hl, hh⟩ := hp
    exact rangeTest_aligned he hc ih negated hl hh
  | null column =>
    refine (column_aligned he hp ih).bind fun c found => yields_pure.mpr ?_
    cases negated <;> simp +decide [nullKeyword, found]
  | nested query =>
    exact group_aligned .emptyHavingGroup negated (ih query List.mem_cons_self).havings
  | bitwise column operator value =>
    obtain ⟨hc, ho, hv⟩ := hp
    exact (havingBitwise_aligned he hc ih ho hv).map fun _ found => aligned_negate found

end Engine

end SqlCompiler
