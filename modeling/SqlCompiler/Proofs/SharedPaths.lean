import Mathlib.Logic.Relation
import SqlCompiler.Proofs.ContainedPaths
/-!
# Paths that share a literal

A key stands between double quotes, and a double quote in it is copied. So a key can hold the end
of one key, indexes and the beginning of the next, and then its path has the literal of another:
two lists of steps have one text just when merging their keys leads from both to one list. Lists
whose keys hold no double quote have one text only if they are equal.
-/

namespace SqlCompiler.JsonPath

open StringLiteral

/-- Indexes as they stand in a literal. -/
def indexText (indexes : List Nat) : List Char :=
  indexes.flatMap fun i => stepText (.index i)

/-- Two keys, with all that stands between them in a literal, as one key. -/
def mergedKey (a : String) (between : List Nat) (b : String) : String :=
  a ++ "\"" ++ String.ofList (indexText between) ++ ".\"" ++ b

/-- A list of steps with two keys, next to each other but for indexes, merged into one. -/
inductive Merges : List PathStep → List PathStep → Prop
  | keys (a b : String) (between : List Nat) (rest : List PathStep) :
      Merges (.key a :: (between.map .index ++ .key b :: rest))
        (.key (mergedKey a between b) :: rest)
  | behind (step : PathStep) {s t : List PathStep} : Merges s t → Merges (step :: s) (step :: t)

theorem flatMap_indexes (indexes : List Nat) :
    (indexes.map PathStep.index).flatMap stepText = indexText indexes :=
  List.flatMap_map _ _ _

theorem clean_indexText (indexes : List Nat) : Substitute.Clean (indexText indexes) := by
  intro c member
  obtain ⟨i, -, inside⟩ := List.mem_flatMap.mp member
  exact clean_stepText_index i c inside

theorem stepText_mergedKey (a b : String) (between : List Nat) :
    stepText (.key (mergedKey a between b))
      = stepText (.key a) ++ (indexText between ++ stepText (.key b)) := by
  have same : Text.doubled '\'' (indexText between) = indexText between :=
    Substitute.doubled_of_clean rfl (clean_indexText between)
  have chars : (mergedKey a between b).toList
      = a.toList ++ ('"' :: (indexText between ++ ('.' :: '"' :: b.toList))) := by
    simp [mergedKey]
  rw [stepText_keyed, chars, stepText_keyed, stepText_keyed, Text.doubled_append,
    Text.doubled_cons_of_ne (by decide), Text.doubled_append, same,
    Text.doubled_cons_of_ne (by decide), Text.doubled_cons_of_ne (by decide)]
  simp

theorem Merges.text {s t : List PathStep} (h : Merges s t) :
    s.flatMap stepText = t.flatMap stepText := by
  induction h with
  | keys a b between rest => simp [stepText_mergedKey, flatMap_indexes]
  | behind step _ ih => rw [List.flatMap_cons, List.flatMap_cons, ih]

theorem reaches_text {s t : List PathStep} (h : Relation.ReflTransGen Merges s t) :
    s.flatMap stepText = t.flatMap stepText := by
  induction h with
  | refl => rfl
  | tail _ last ih => exact ih.trans last.text

/-- At most one key. -/
inductive Merged : List PathStep → Prop
  | indexes (front : List Nat) : Merged (front.map .index)
  | keyed (front : List Nat) (k : String) (rear : List Nat) :
      Merged (front.map .index ++ .key k :: rear.map .index)

theorem exists_merged (steps : List PathStep) :
    ∃ merged, Relation.ReflTransGen Merges steps merged ∧ Merged merged := by
  induction steps with
  | nil => exact ⟨[], .refl, .indexes []⟩
  | cons step steps ih =>
    obtain ⟨merged, reached, form⟩ := ih
    have behind : Relation.ReflTransGen Merges (step :: steps) (step :: merged) :=
      reached.lift (step :: ·) fun _ _ => Merges.behind step
    match step, form with
    | .index i, .indexes front => exact ⟨_, behind, .indexes (i :: front)⟩
    | .index i, .keyed front k rear => exact ⟨_, behind, .keyed (i :: front) k rear⟩
    | .key a, .indexes front => exact ⟨_, behind, .keyed [] a front⟩
    | .key a, .keyed between b rear =>
      exact ⟨_, behind.tail (.keys a b between _), .keyed [] (mergedKey a between b) rear⟩

theorem natDigits_inj {i j : Nat} : natDigits i = natDigits j ↔ i = j := by
  constructor
  · intro same
    have read := natural?_natDigits i
    rw [same, natural?_natDigits] at read
    exact (Option.some.inj read).symm
  · exact congrArg natDigits

theorem index_append_iff {i j : Nat} {x y : List Char} :
    stepText (.index i) ++ x = stepText (.index j) ++ y ↔ i = j ∧ x = y := by
  have marks := append_mark_iff (x := x) (y := y) (not_mem_natDigits (c := ']') rfl i)
    (not_mem_natDigits rfl j)
  rw [natDigits_inj] at marks
  simpa [stepText_index] using marks

theorem head_indexText (i : Nat) (is : List Nat) (x : List Char) :
    (indexText (i :: is) ++ x).head? = some '[' := by
  simp [indexText, stepText_index]

theorem indexText_append_iff {is js : List Nat} {x y : List Char} (hx : x.head? ≠ some '[')
    (hy : y.head? ≠ some '[') : indexText is ++ x = indexText js ++ y ↔ is = js ∧ x = y := by
  induction is generalizing js with
  | nil =>
    cases js with
    | nil => simp [indexText]
    | cons j js =>
      have apart : indexText [] ++ x ≠ indexText (j :: js) ++ y := by
        intro same
        exact hx ((congrArg List.head? same).trans (head_indexText j js y))
      simp [apart]
  | cons i is ih =>
    cases js with
    | nil =>
      have apart : indexText (i :: is) ++ x ≠ indexText [] ++ y := by
        intro same
        exact hy ((congrArg List.head? same).symm.trans (head_indexText i is x))
      simp [apart]
    | cons j js =>
      have first (k : Nat) (ks : List Nat) (z : List Char) :
          indexText (k :: ks) ++ z = stepText (.index k) ++ (indexText ks ++ z) := by
        simp [indexText]
      rw [first, first, index_append_iff, ih, List.cons.injEq, and_assoc]

theorem indexText_inj {is js : List Nat} : indexText is = indexText js ↔ is = js := by
  have whole : indexText is ++ [] = indexText js ++ [] ↔ is = js ∧ [] = [] :=
    indexText_append_iff (by simp) (by simp)
  simpa using whole

theorem quote_not_mem_indexText (indexes : List Nat) : '"' ∉ indexText indexes := by
  intro member
  obtain ⟨i, -, inside⟩ := List.mem_flatMap.mp member
  simp [stepText_index, not_mem_natDigits] at inside

/-- The last mark of a text parts it. -/
theorem append_lastMark_iff {mark : Char} {a b x y : List Char} (hx : mark ∉ x) (hy : mark ∉ y) :
    a ++ mark :: x = b ++ mark :: y ↔ a = b ∧ x = y := by
  have back : x.reverse ++ mark :: a.reverse = y.reverse ++ mark :: b.reverse ↔
      x.reverse = y.reverse ∧ a.reverse = b.reverse :=
    append_mark_iff (by simpa using hx) (by simpa using hy)
  rw [List.reverse_inj, List.reverse_inj] at back
  rw [← List.reverse_inj, and_comm, ← back]
  simp

theorem flatMap_keyed (front : List Nat) (k : String) (rear : List Nat) :
    (front.map PathStep.index ++ PathStep.key k :: rear.map PathStep.index).flatMap stepText
      = indexText front ++
        ('.' :: '"' :: (Text.doubled '\'' k.toList ++ '"' :: indexText rear)) := by
  simp [flatMap_indexes, stepText_key_append]

/-- A list with one key is known from its text: the last double quote closes the key. -/
theorem merged_inj {s t : List PathStep} (hs : Merged s) (ht : Merged t)
    (same : s.flatMap stepText = t.flatMap stepText) : s = t := by
  cases hs with
  | indexes is =>
    cases ht with
    | indexes js =>
      rw [flatMap_indexes, flatMap_indexes, indexText_inj] at same
      rw [same]
    | keyed js k rear =>
      rw [flatMap_indexes, flatMap_keyed, ← List.append_nil (indexText is),
        indexText_append_iff (by simp) (by simp)] at same
      cases same.2
  | keyed is k rear =>
    cases ht with
    | indexes js =>
      rw [flatMap_indexes, flatMap_keyed, ← List.append_nil (indexText js),
        indexText_append_iff (by simp) (by simp)] at same
      cases same.2
    | keyed js l behind =>
      rw [flatMap_keyed, flatMap_keyed, indexText_append_iff (by simp) (by simp)] at same
      obtain ⟨rfl, keys⟩ := same
      rw [List.cons.injEq, List.cons.injEq, append_lastMark_iff (quote_not_mem_indexText rear)
        (quote_not_mem_indexText behind), doubled_inj, String.toList_inj, indexText_inj] at keys
      obtain ⟨-, -, rfl, rfl⟩ := keys
      rfl

/-- A step whose key, if it is one, holds no double quote. -/
def Plain (step : PathStep) : Prop :=
  ∀ k, step = .key k → '"' ∉ k.toList

theorem step_append_iff {p q : PathStep} (hp : Plain p) (hq : Plain q) {x y : List Char} :
    stepText p ++ x = stepText q ++ y ↔ p = q ∧ x = y := by
  have mixed (k : String) (i : Nat) (x y : List Char) :
      stepText (.key k) ++ x ≠ stepText (.index i) ++ y := by
    simp [stepText_keyed, stepText_index]
  match p, q with
  | .index i, .index j => rw [index_append_iff, PathStep.index.injEq]
  | .key k, .index j => simp [mixed k j x y]
  | .index i, .key l => simp [(mixed l i y x).symm]
  | .key k, .key l =>
    have left : '"' ∉ Text.doubled '\'' k.toList :=
      fun member => hp k rfl (Text.mem_doubled.mp member)
    have right : '"' ∉ Text.doubled '\'' l.toList :=
      fun member => hq l rfl (Text.mem_doubled.mp member)
    have marks := append_mark_iff (x := x) (y := y) left right
    rw [doubled_inj, String.toList_inj] at marks
    simpa [stepText_key_append] using marks

theorem plain_inj {s t : List PathStep} (hs : ∀ step ∈ s, Plain step) (ht : ∀ step ∈ t, Plain step)
    (same : s.flatMap stepText = t.flatMap stepText) : s = t := by
  have filled (step : PathStep) (x : List Char) : stepText step ++ x ≠ [] := by
    cases step <;> simp [stepText_keyed, stepText_index]
  induction s generalizing t with
  | nil =>
    cases t with
    | nil => rfl
    | cons q t => exact absurd same.symm (filled q _)
  | cons p s ih =>
    cases t with
    | nil => exact absurd same (filled p _)
    | cons q t =>
      obtain ⟨first, others⟩ := List.forall_mem_cons.mp hs
      obtain ⟨first', others'⟩ := List.forall_mem_cons.mp ht
      obtain ⟨rfl, rest⟩ := (step_append_iff first first').mp same
      rw [ih others others' rest]

/-- Two lists of steps have one text just when merging keys leads from both to one list; without
double quotes in their keys only equal lists do. -/
theorem stepsText_eq_iff (s t : List PathStep) :
    (stepsText s = stepsText t ↔ Relation.Join (Relation.ReflTransGen Merges) s t) ∧
      ((∀ step ∈ s, Plain step) → (∀ step ∈ t, Plain step) →
        stepsText s = stepsText t → s = t) := by
  have inner : stepsText s = stepsText t ↔ s.flatMap stepText = t.flatMap stepText :=
    List.cons_inj_right '$'
  rw [inner]
  refine ⟨⟨fun same => ?_, ?_⟩, plain_inj⟩
  · obtain ⟨m, left, hm⟩ := exists_merged s
    obtain ⟨n, right, hn⟩ := exists_merged t
    obtain rfl : m = n :=
      merged_inj hm hn ((reaches_text left).symm.trans (same.trans (reaches_text right)))
    exact ⟨m, left, right⟩
  · rintro ⟨m, left, right⟩
    exact (reaches_text left).trans (reaches_text right).symm

/-- A key with a double quote, a point and a double quote is written as two keys are. -/
theorem pointedKey_shared :
    JsonPath.steps "a\".\"b".toList = .ok [.key "a\".\"b"] ∧
      JsonPath.steps "a->b".toList = .ok [.key "a", .key "b"] ∧
      stepsText [.key "a\".\"b"] = stepsText [.key "a", .key "b"] ∧
      [PathStep.key "a\".\"b"] ≠ [.key "a", .key "b"] :=
  ⟨rfl, rfl, by decide +kernel, by decide⟩

end SqlCompiler.JsonPath
