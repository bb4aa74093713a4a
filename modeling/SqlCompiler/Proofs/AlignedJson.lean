import SqlCompiler.Engine.Condition
import SqlCompiler.Proofs.Selectors
/-!
# JSON conditions

A test of a clean selector is aligned in every dialect, if its operand is.
-/

namespace SqlCompiler

open Substitute

theorem clean_splitLast {text : List Char} (h : Clean text) :
    (∀ segment ∈ (JsonPath.splitLast text).1, Clean segment) ∧
      Clean (JsonPath.splitLast text).2 := by
  have segments := clean_splitArrows h
  rw [JsonPath.splitLast]
  refine ⟨?_, ?_⟩
  · intro segment member
    split at member
    · simp at member
    · exact segments segment (List.dropLast_subset _ member)
  · rw [List.getLastD_eq_getLast?]
    cases last : (Text.splitArrows text).getLast? with
    | none => simp
    | some segment => exact segments segment (List.mem_of_getLast? last)

theorem clean_arrowed {segments : List (List Char)} (h : ∀ segment ∈ segments, Clean segment) :
    Clean (JsonPath.arrowed segments).toList := by
  rw [JsonPath.arrowed, String.toList_ofList]
  exact clean_intercalate (by decide) h

theorem clean_lastGroup {segment name token : List Char} (h : Clean segment)
    (cut : JsonPath.lastGroup? segment = some (name, token)) : Clean name ∧ Clean token := by
  rw [JsonPath.lastGroup?] at cut
  split at cut
  · have front : Clean segment.dropLast := fun c hc => h c (List.dropLast_subset _ hc)
    exact clean_cutLast front cut
  · simp at cut

theorem aligned_quotedKey {text : List Char} (h : Clean text) :
    (Sql.ofText (String.ofList (JsonPath.quotedKey text))).Aligned := by
  rw [Sql.aligned_ofText, String.toList_ofList]
  exact holds_quotedKey h

namespace Engine

variable {e : Engine}

theorem clean_indexSelector {before segments : List (List Char)} {last : List Char} {i : Int}
    (hb : ∀ segment ∈ before, Clean segment) (hl : Clean last)
    (read : indexSelector? before last = some (segments, i)) :
    ∀ segment ∈ segments, Clean segment := by
  unfold indexSelector? at read
  split at read
  · simp_all
  · simp only [Option.bind_eq_bind, Option.bind_eq_some_iff, Prod.exists] at read
    obtain ⟨key, token, cut, j, _, same⟩ := read
    have parts := clean_lastGroup hl cut
    simp only [Option.pure_def, Option.some.injEq, Prod.mk.injEq] at same
    obtain ⟨rfl, rfl⟩ := same
    simpa [or_imp, forall_and, parts.1] using hb

theorem aligned_jsonBooleanValue (value : Bool) :
    (Sql.ofText (e.jsonBooleanValue (if value then "true" else "false"))).Aligned := by
  rw [Sql.aligned_ofText]
  unfold jsonBooleanValue
  cases e.dialect <;> cases value <;> decide

variable (he : Clean e.settings.tablePrefix.toList)
  {selector operator : String} (hs : Clean selector.toList) (ho : Clean operator.toList)
include he hs

theorem jsonContainsTest_aligned {value : Sql} (hv : value.Aligned) :
    Yields Sql.Aligned (e.jsonContainsTest selector value) := by
  obtain ⟨hf, hp⟩ := fieldAndPath_read he hs
  unfold jsonContainsTest
  generalize e.fieldAndPath selector = parts at hf hp
  obtain ⟨field, path⟩ := parts
  cases e.dialect with
  | generic | sqlite => exact yields_error
  | mysql =>
    have call := hv.argument hp (by decide : Spacer ")")
    exact yields_ok.mpr (by simp +decide [Sql.aligned_clean_append hf, call])
  | postgres =>
    exact (aligned_jsonDocument he hs).bind fun document aligned =>
      yields_pure.mpr (by simp +decide [aligned, hv])
  | sqlserver =>
    exact yields_ok.mpr (by simp +decide [hv, Sql.aligned_clean_append hf, hp.aligned])

theorem arrowKeyTest_aligned :
    Yields (fun sql => (Sql.ofText sql).Aligned) (e.arrowKeyTest selector) := by
  obtain ⟨hb, hl⟩ := clean_splitLast hs
  unfold arrowKeyTest
  generalize JsonPath.splitLast selector.toList = parts at hb hl
  obtain ⟨before, last⟩ := parts
  simp only
  split
  · next segments i read =>
    have arrows := clean_arrowed (clean_indexSelector hb hl read)
    refine (aligned_jsonDocument he arrows).bind fun document aligned => yields_pure.mpr ?_
    simp +decide [Sql.aligned_ofText_append, Sql.aligned_ofText_append_append, aligned,
      aligned_natText]
  · split
    · exact yields_error
    · refine (aligned_jsonDocument he (clean_arrowed hb)).bind fun document aligned => ?_
      have key := aligned_quotedKey hl
      refine yields_pure.mpr ?_
      simp +decide [Sql.aligned_ofText_append, Sql.aligned_ofText_append_append, aligned, key]

theorem openKeyTest_aligned :
    Yields (fun sql => (Sql.ofText sql).Aligned) (e.openKeyTest selector) := by
  obtain ⟨hb, hl⟩ := clean_splitLast hs
  unfold openKeyTest
  generalize JsonPath.splitLast selector.toList = parts at hb hl
  obtain ⟨before, last⟩ := parts
  -- The last segment is a key, or a name before the index of an array.
  have test : ∀ segments key, (∀ segment ∈ segments, Clean segment) →
      (Sql.ofText (String.ofList key)).Aligned →
      Yields (fun sql => (Sql.ofText sql).Aligned)
        (if segments = [] then .error (CompileError.invalid .shortKeyPath)
        else .ok (String.ofList key ++ " in (select [key] from openjson("
          ++ (e.fieldAndPath (JsonPath.arrowed segments)).1
          ++ (e.fieldAndPath (JsonPath.arrowed segments)).2 ++ "))")) := by
    intro segments key clean aligned
    split
    · exact yields_error
    · obtain ⟨hf, hp⟩ := fieldAndPath_read he (clean_arrowed clean)
      generalize e.fieldAndPath (JsonPath.arrowed segments) = parts at hf hp
      obtain ⟨field, path⟩ := parts
      refine yields_ok.mpr ?_
      simp +decide [Sql.aligned_ofText_append, Sql.aligned_ofText_append_append, aligned,
        Sql.aligned_clean_append hf, hp.aligned]
  cases group : JsonPath.lastGroup? last with
  | none => simpa [group] using test before (JsonPath.quotedKey last) hb (aligned_quotedKey hl)
  | some both =>
    obtain ⟨name, token⟩ := both
    have parts := clean_lastGroup hl group
    by_cases number : (Text.natural? token).isSome = true
    · have indexed := test (before ++ [name]) token
        (by simpa [or_imp, forall_and, parts.1] using hb)
        (Sql.aligned_ofText.mpr (by simpa using parts.2.holds))
      simpa [group, number] using indexed
    · simpa [group, number] using test before (JsonPath.quotedKey last) hb (aligned_quotedKey hl)

theorem jsonKeyTest_aligned :
    Yields (fun sql => (Sql.ofText sql).Aligned) (e.jsonKeyTest selector) := by
  obtain ⟨hf, hp⟩ := fieldAndPath_read he hs
  unfold jsonKeyTest
  generalize e.fieldAndPath selector = parts at hf hp
  obtain ⟨field, path⟩ := parts
  cases e.dialect with
  | generic => exact yields_error
  | mysql =>
    refine yields_ok.mpr ?_
    have one : (Sql.ofText ", 'one'").Aligned := Sql.aligned_ofText.mpr (by decide)
    have front : (Sql.ofText ("ifnull(json_contains_path(" ++ field ++ ", 'one'")).Aligned := by
      simp +decide [Sql.aligned_ofText_append, Sql.aligned_ofText_append_append,
        Sql.aligned_clean_append hf, one]
    rw [Sql.aligned_ofText_append, Sql.aligned_ofText_append_append]
    exact front.argument hp (by decide)
  | postgres => exact arrowKeyTest_aligned he hs
  | sqlite => exact yields_ok.mpr (aligned_call hf hp (by decide) (by decide))
  | sqlserver => exact openKeyTest_aligned he hs

include ho

theorem jsonBooleanTest_aligned (value : Bool) :
    Yields (fun sql => (Sql.ofText sql).Aligned) (e.jsonBooleanTest selector operator value) := by
  refine (aligned_jsonBooleanSelector he hs).bind fun selected aligned => yields_pure.mpr ?_
  have constant := aligned_jsonBooleanValue (e := e) value
  simp +decide [Sql.aligned_ofText_append, Sql.aligned_ofText_append_append, aligned,
    Sql.aligned_clean_append ho, constant]

theorem jsonLengthTest_aligned {value : Sql} (hv : value.Aligned) :
    Yields Sql.Aligned (e.jsonLengthTest selector operator value) := by
  obtain ⟨hf, hp⟩ := fieldAndPath_read he hs
  have compared : ∀ length, (Sql.ofText length).Aligned →
      (length ++ " " ++ operator ++ " " ++ value : Sql).Aligned :=
    fun length aligned => aligned.compared ho hv
  unfold jsonLengthTest
  generalize e.fieldAndPath selector = parts at hf hp
  obtain ⟨field, path⟩ := parts
  cases e.dialect with
  | generic => exact yields_error
  | mysql => exact yields_ok.mpr (compared _ (aligned_call hf hp (by decide) (by decide)))
  | postgres =>
    refine (aligned_jsonDocument he hs).bind fun document aligned => yields_ok.mpr (compared _ ?_)
    simp +decide [Sql.aligned_ofText_append, aligned]
  | sqlite => exact yields_ok.mpr (compared _ (aligned_call hf hp (by decide) (by decide)))
  | sqlserver => exact yields_ok.mpr (compared _ (aligned_call hf hp (by decide) (by decide)))

end Engine

end SqlCompiler
