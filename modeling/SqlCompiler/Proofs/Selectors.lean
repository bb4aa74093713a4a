import SqlCompiler.Proofs.CleanNames
import SqlCompiler.Proofs.Outcomes
/-!
# Clean columns and selectors

The expression for a column or a selector with a clean name is aligned in every dialect. The path
of a selector is an argument that begins with a comma, so that it stands behind anything.
-/

namespace SqlCompiler

open Substitute

theorem aligned_natText (n : Nat) : (Sql.ofText (natText n)).Aligned :=
  Sql.aligned_ofText.mpr (clean_natText n).holds

theorem aligned_intText (n : Int) : (Sql.ofText (intText n)).Aligned :=
  Sql.aligned_ofText.mpr (clean_intText n).holds

/-- Nothing, or words that begin with a clean character. -/
structure Argument (s : String) : Prop where
  aligned : (Sql.ofText s).Aligned
  opening : ∀ c ∈ s.toList.head?, isClean c = true

/-- An argument keeps clear of what stands before it. -/
theorem Sql.Aligned.argument {a : Sql} (ha : a.Aligned) {path after : String} (hp : Argument path)
    (hs : Spacer after) : (a ++ (ofText path ++ ofText after)).Aligned := by
  have rear : (ofText path ++ ofText after).Aligned := by simp [hp.aligned, hs]
  refine ha.append rear (joint_of_head ?_ _)
  intro c hc
  rw [text_append, text_ofText, text_ofText, String.toList_append, List.head?_append] at hc
  cases first : path.toList.head? with
  | none =>
    have closing := hs.2.1
    simp_all
  | some d => exact hp.opening c (by simp_all)

theorem holds_arrows {items : List (List Char)} (h : ∀ item ∈ items, Holds 0 item) :
    Holds 0 (items.flatMap fun item => '-' :: '>' :: item) := by
  induction items with
  | nil => decide
  | cons item items ih =>
    obtain ⟨first, rest⟩ := List.forall_mem_cons.mp h
    have front : Holds 0 ('-' :: '>' :: item) := (holds_cons rfl).mpr ((holds_cons rfl).mpr first)
    refine front.append (ih rest) (joint_of_head ?_ _)
    cases items <;> simp [isClean]

/-- A call on a field and its path. -/
theorem aligned_call {field path before after : String} (hf : Clean field.toList)
    (hp : Argument path) (hb : Clean before.toList) (ha : Spacer after) :
    (Sql.ofText (before ++ field ++ path ++ after)).Aligned := by
  simp only [Sql.aligned_ofText_append, Sql.aligned_ofText_append_append]
  rw [Sql.aligned_clean_append hb, Sql.aligned_clean_append hf, Sql.aligned_append_spacer ha]
  exact hp.aligned

namespace Engine

variable {e : Engine} (he : Clean e.settings.tablePrefix.toList)
include he

theorem aligned_wrapTable {name : String} (h : Clean name.toList) :
    (Sql.ofText (e.wrapTable name)).Aligned :=
  Sql.aligned_ofText.mpr (clean_wrapTable he h).holds

theorem fieldAndPath_read {selector : String} (h : Clean selector.toList) :
    Clean (e.fieldAndPath selector).1.toList ∧ Argument (e.fieldAndPath selector).2 := by
  rw [fieldAndPath]
  split
  · next cut =>
    have parts := clean_cutArrow h cut
    have literal := holds_readLiteral parts.2
    refine ⟨clean_wrapField he parts.1, ?_, by simp [isClean]⟩
    rw [Sql.aligned_ofText_append]
    simpa +decide [Sql.aligned_ofText] using literal
  · exact ⟨clean_wrapField he h, Sql.aligned_ofText.mpr clean_nil.holds, by simp⟩

theorem aligned_arrowSelector {selector : String} (h : Clean selector.toList) :
    (Sql.ofText (e.arrowSelector selector)).Aligned := by
  have parts : ∀ field path, (Text.cutArrow? selector.toList).getD (selector.toList, [])
      = (field, path) → Clean field ∧ Clean path := by
    intro field path cut
    cases found : Text.cutArrow? selector.toList with
    | none => simp_all
    | some both =>
      rw [found] at cut
      exact clean_cutArrow h (found.trans (congrArg some cut))
  unfold arrowSelector
  generalize (Text.cutArrow? selector.toList).getD (selector.toList, []) = cut at parts
  obtain ⟨field, path⟩ := cut
  obtain ⟨hfield, hpath⟩ := parts field path rfl
  have items := holds_attributes hpath
  have name := clean_wrapField he hfield
  simp only
  split
  · exact Sql.aligned_ofText.mpr name.holds
  · next last found =>
    have rear : (Sql.ofText (String.ofList last)).Aligned := by
      rw [Sql.aligned_ofText, String.toList_ofList]
      exact items last (List.mem_of_mem_getLast? found)
    have middle : (Sql.ofText (String.ofList ((JsonPath.attributes path).dropLast.flatMap
        fun item => '-' :: '>' :: item))).Aligned := by
      rw [Sql.aligned_ofText, String.toList_ofList]
      exact holds_arrows fun item member => items item (List.dropLast_subset _ member)
    simp only [Sql.aligned_ofText_append, Sql.aligned_ofText_append_append]
    rw [Sql.aligned_clean_append name, Sql.aligned_append_spacer_append (by decide) middle]
    exact rear

theorem aligned_jsonSelector {selector : String} (h : Clean selector.toList) :
    Yields (fun sql => (Sql.ofText sql).Aligned) (e.jsonSelector selector) := by
  unfold jsonSelector
  obtain ⟨hf, hp⟩ := fieldAndPath_read he h
  generalize e.fieldAndPath selector = parts at hf hp
  obtain ⟨field, path⟩ := parts
  cases e.dialect with
  | generic => exact yields_error
  | mysql => exact yields_ok.mpr (aligned_call hf hp (by decide) (by decide))
  | postgres => exact yields_ok.mpr (aligned_arrowSelector he h)
  | sqlite => exact yields_ok.mpr (aligned_call hf hp (by decide) (by decide))
  | sqlserver => exact yields_ok.mpr (aligned_call hf hp (by decide) (by decide))

theorem aligned_wrapUnaliased {column : List Char} (h : Clean column) :
    Yields (fun sql => (Sql.ofText sql).Aligned) (e.wrapUnaliased column) := by
  rw [wrapUnaliased]
  split
  · exact aligned_jsonSelector he (by simpa using h)
  · have plain := (clean_plainColumn he h).holds
    simpa [Sql.aligned_ofText] using plain

theorem aligned_wrap {name : String} (h : Clean name.toList) :
    Yields (fun sql => (Sql.ofText sql).Aligned) (e.wrap name) := by
  rw [wrap, wrapAliased]
  split
  · next column aliasName cut =>
    have parts := clean_splitAlias h cut
    refine (aligned_wrapUnaliased he parts.1).map fun sql aligned => ?_
    have rear : Clean (" as ".toList ++ e.quote aliasName) :=
      clean_append.mpr ⟨by decide, clean_quote parts.2⟩
    rw [Sql.aligned_ofText] at aligned ⊢
    have joined := aligned.append rear.holds (rear.joint_right _)
    simpa [Name.aliased] using joined
  · exact aligned_wrapUnaliased he h

theorem aligned_jsonDocument {selector : String} (h : Clean selector.toList) :
    Yields (fun sql => (Sql.ofText sql).Aligned) (e.jsonDocument selector) := by
  refine (aligned_wrap he h).map fun sql aligned => ?_
  rw [Sql.aligned_ofText] at aligned ⊢
  simpa [Text.onString] using aligned.blurArrows

theorem aligned_jsonBooleanSelector {selector : String} (h : Clean selector.toList) :
    Yields (fun sql => (Sql.ofText sql).Aligned) (e.jsonBooleanSelector selector) := by
  obtain ⟨hf, hp⟩ := fieldAndPath_read he h
  unfold jsonBooleanSelector
  generalize e.fieldAndPath selector = parts at hf hp
  obtain ⟨field, path⟩ := parts
  split
  · exact yields_ok.mpr (aligned_call hf hp (by decide) (by decide))
  · refine (aligned_jsonDocument he h).map fun document aligned => ?_
    simp +decide [Sql.aligned_ofText_append, aligned]
  all_goals exact aligned_jsonSelector he h

end Engine

end SqlCompiler
