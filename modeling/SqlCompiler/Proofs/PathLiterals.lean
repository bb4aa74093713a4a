import SqlCompiler.JsonPath.Literal
import SqlCompiler.Proofs.CleanNames
/-!
# Path literals

The literals of a path with clean keys begin and end outside a literal and hold no placeholder. A
text array puts backslashes before double quotes, which are copied like any other character.
-/

namespace SqlCompiler

open Substitute

def PathStep.Clean : PathStep → Prop
  | .key k => Substitute.Clean k.toList
  | .index _ => True

namespace JsonPath

theorem clean_segmentSteps {segment : List Char} (h : Clean segment) :
    ∀ read ∈ segmentSteps segment, ∀ step, read = .ok step → step.Clean := by
  have indexed (token : List Char) (step : PathStep)
      (ok : (index? token).map PathStep.index = .ok step) : step.Clean := by
    obtain ⟨i, _, rfl⟩ := map_ok ok
    trivial
  unfold segmentSteps
  split
  · simp
  · have parts := clean_splitGroups h
    generalize splitGroups segment = split at parts
    obtain ⟨key, tokens⟩ := split
    intro read member step ok
    rcases List.mem_append.mp member with member | member
    · unfold keyStep at member
      split at member
      · simp at member
      · split at member
        · obtain rfl := List.mem_singleton.mp member
          exact indexed key step ok
        · obtain rfl := List.mem_singleton.mp member
          obtain rfl := Except.ok.inj ok
          simpa [PathStep.Clean] using parts.1
    · obtain ⟨token, _, rfl⟩ := List.mem_map.mp member
      exact indexed token step ok

theorem clean_steps {path : List Char} (h : Clean path) {steps : List PathStep}
    (ok : JsonPath.steps path = .ok steps) : ∀ step ∈ steps, step.Clean := by
  have all := allOk_eq_ok.mp ok
  intro step member
  have read : .ok step ∈ (Text.splitArrows path).flatMap segmentSteps := by
    rw [all]
    exact List.mem_map_of_mem member
  obtain ⟨segment, inside, found⟩ := List.mem_flatMap.mp read
  exact clean_segmentSteps (clean_splitArrows h segment inside) _ found step rfl

theorem clean_stepText {step : PathStep} (h : step.Clean) : Clean (stepText step) := by
  have text : Clean step.text.toList := by
    cases step with
    | key k =>
      have inside : Clean k.toList := h
      simp +decide [PathStep.text, inside]
    | index i => simp +decide [PathStep.text, clean_natText]
  cases step with
  | key k => exact clean_cons.mpr ⟨rfl, clean_doubled text⟩
  | index i => exact clean_doubled text

theorem clean_stepsText {steps : List PathStep} (h : ∀ step ∈ steps, step.Clean) :
    Clean (stepsText steps) := by
  refine clean_cons.mpr ⟨rfl, fun c hc => ?_⟩
  obtain ⟨step, member, inside⟩ := List.mem_flatMap.mp hc
  exact clean_stepText (h step member) c inside

theorem holds_writeLiteral {steps : List PathStep} (h : ∀ step ∈ steps, step.Clean) :
    Holds 0 (writeLiteral steps).toList := by
  rw [writeLiteral, String.toList_ofList]
  exact holds_literal (clean_stepsText h)

theorem holds_strictLiteral {steps : List PathStep} (h : ∀ step ∈ steps, step.Clean) :
    Holds 0 (strictLiteral steps).toList := by
  have words : Clean ("strict ".toList ++ stepsText steps) :=
    clean_append.mpr ⟨by decide, clean_stepsText h⟩
  have opening : "'strict ".toList = '\'' :: "strict ".toList := by decide
  have text : (strictLiteral steps).toList = "'strict ".toList ++ stepsText steps ++ ['\''] :=
    String.toList_ofList
  rw [text, opening, List.cons_append, List.cons_append]
  exact holds_literal words

/-- A quiet text without single quotes that ends in a clean character. -/
structure Item (text : List Char) : Prop where
  quiet : Quiet text
  noQuote : '\'' ∉ text
  last : ∀ c ∈ text.getLast?, isClean c = true

theorem Item.append {a b : List Char} (ha : Item a) (hb : Item b) : Item (a ++ b) := by
  refine ⟨ha.quiet.append hb.quiet (joint_of_last ha.last b),
    by simp [ha.noQuote, hb.noQuote], fun c hc => ?_⟩
  rw [List.getLast?_append] at hc
  cases rear : b.getLast? with
  | none => exact ha.last c (by simpa [rear] using hc)
  | some d =>
    obtain rfl : d = c := by simpa [rear] using hc
    exact hb.last d rear

theorem item_of_clean {text : List Char} (h : Clean text) : Item text :=
  ⟨h.quiet, fun member => absurd (h _ member) (by decide),
    fun c hc => h c (List.mem_of_mem_getLast? hc)⟩

theorem item_flatMap {α : Type} {f : α → List Char} {items : List α}
    (h : ∀ item ∈ items, Item (f item)) : Item (items.flatMap f) := by
  induction items with
  | nil => exact item_of_clean clean_nil
  | cons item items ih =>
    obtain ⟨first, rest⟩ := List.forall_mem_cons.mp h
    exact first.append (ih rest)

theorem item_arrayItem {step : PathStep} (h : step.Clean) : Item (arrayItem step) := by
  cases step with
  | index i => exact item_of_clean (clean_natDigits i)
  | key k =>
    have quote : Item ['"'] := item_of_clean (by decide)
    have escaped : Item ['\\', '"'] := by
      refine ⟨fun inLiteral => ?_, by decide, by simp [isClean]⟩
      cases inLiteral <;> decide
    have inside :
        Item (k.toList.flatMap fun c => if c = '\\' ∨ c = '"' then ['\\', c] else [c]) := by
      refine item_flatMap fun c member => ?_
      have clean := h c member
      split
      · next special =>
        rcases special with rfl | rfl
        · simp [isClean] at clean
        · exact escaped
      · exact item_of_clean (by simpa using clean)
    exact (quote.append inside).append quote

theorem item_intercalate {parts : List (List Char)} (h : ∀ part ∈ parts, Item part) :
    Item ([','].intercalate parts) := by
  induction parts with
  | nil => exact item_of_clean clean_nil
  | cons part parts ih =>
    obtain ⟨first, rest⟩ := List.forall_mem_cons.mp h
    cases parts with
    | nil => simpa using first
    | cons next parts =>
      rw [List.intercalate_cons_cons]
      exact (first.append (item_of_clean (by decide))).append (ih rest)

theorem holds_arrayLiteral {steps : List PathStep} (h : ∀ step ∈ steps, step.Clean) :
    Holds 0 (arrayLiteral steps).toList := by
  have items : Item ([','].intercalate (steps.map arrayItem)) :=
    item_intercalate (List.forall_mem_map.mpr fun step member => item_arrayItem (h step member))
  have braces : Item (('\x7b' :: [','].intercalate (steps.map arrayItem)) ++ ['\x7d']) :=
    ((item_of_clean (by decide : Clean ['\x7b'])).append items).append (item_of_clean (by decide))
  have literal := braces.quiet.literal (by simp [isClean]) braces.last
  simpa [arrayLiteral, Text.doubled_of_absent items.noQuote] using literal

end JsonPath

end SqlCompiler
