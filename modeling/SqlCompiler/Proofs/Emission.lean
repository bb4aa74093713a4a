import SqlCompiler.Proofs.Placeholders
/-!
# Emitted placeholders

`Sql.emitted` says of every character of a statement for which value it was emitted as a
placeholder. A statement is aligned if a scan of its text finds exactly these characters. Pieces
that are aligned stay so when they are put together with spacers between them; the rules below are
simp rules, so that a statement comes apart into the parts that are not text of its own.
-/

namespace SqlCompiler

open Substitute

/-- Values given to the marked characters of a text, from left to right. -/
def deal : List Bool → List Binding → List (Option Binding)
  | [], _ => []
  | true :: marks, value :: values => some value :: deal marks values
  | _ :: marks, values => none :: deal marks values

@[simp] theorem length_deal (marks : List Bool) (values : List Binding) :
    (deal marks values).length = marks.length := by
  fun_induction deal marks values <;> simp_all

theorem deal_replicate_false (n : Nat) (values : List Binding) :
    deal (List.replicate n false) values = List.replicate n none := by
  induction n with
  | zero => rfl
  | succ n ih => rw [List.replicate_succ, deal, ih, List.replicate_succ]; simp

theorem deal_append (a b : List Bool) (values : List Binding) :
    deal (a ++ b) values = deal a values ++ deal b (values.drop (a.count true)) := by
  fun_induction deal a values with
  | case1 => simp
  | case2 marks value values ih => simp [deal, ih]
  | case3 mark marks values noValue ih =>
    cases mark with
    | false => simp [deal, ih]
    | true =>
      cases values with
      | nil => simp [deal, ih]
      | cons value values => exact (noValue value values rfl rfl).elim

/-- Nothing is lost if there are as many values as marks. -/
theorem deal_full {marks : List Bool} {values : List Binding}
    (h : marks.count true = values.length) :
    (deal marks values).map Option.isSome = marks ∧ (deal marks values).filterMap id = values := by
  fun_induction deal marks values with
  | case1 values => simp [List.eq_nil_of_length_eq_zero h.symm]
  | case2 marks value values ih => simp_all
  | case3 mark marks values noValue ih =>
    cases mark with
    | false => simp_all
    | true =>
      cases values with
      | nil => simp at h
      | cons value values => exact (noValue value values rfl rfl).elim

namespace Piece

/-- For each character of a piece the value for which it was emitted as a placeholder. The
placeholders of a fragment stand for its bindings in turn. -/
def emitted : Piece → List (Option Binding)
  | plain s => List.replicate s.toList.length none
  | slot value => [some value]
  | fragment sql bindings => deal (marks false sql.toList) bindings

/-- Whether every binding has a placeholder of its own. -/
def Filled (p : Piece) : Prop :=
  p.emitted.filterMap id = p.bindings

theorem length_emitted (p : Piece) : p.emitted.length = p.text.toList.length := by
  cases p with
  | plain s => simp [emitted, text]
  | slot value => simp [emitted, text]
  | fragment sql bindings => simp [emitted, text]

end Piece

namespace Sql

def emitted (sql : Sql) : List (Option Binding) :=
  sql.pieces.flatMap Piece.emitted

/-- A scan of the text finds exactly the emitted placeholders, and ends outside a literal. -/
structure Aligned (sql : Sql) : Prop where
  marks_eq : marks false sql.text.toList = sql.emitted.map Option.isSome
  leaves_eq : leaves false sql.text.toList = false
  filled : ∀ p ∈ sql.pieces, p.Filled

@[simp] theorem emitted_append (a b : Sql) : (a ++ b).emitted = a.emitted ++ b.emitted := by
  simp [emitted]

@[simp] theorem emitted_ofText (s : String) :
    (ofText s).emitted = List.replicate s.toList.length none := by
  simp [emitted, ofText, Piece.emitted]

theorem text_cons (p : Piece) (pieces : List Piece) :
    (mk (p :: pieces)).text = p.text ++ (mk pieces).text := rfl

theorem emitted_cons (p : Piece) (pieces : List Piece) :
    (mk (p :: pieces)).emitted = p.emitted ++ (mk pieces).emitted := rfl

theorem bindings_cons (p : Piece) (pieces : List Piece) :
    (mk (p :: pieces)).bindings = p.bindings ++ (mk pieces).bindings := rfl

@[simp] theorem append_assoc (a b c : Sql) : a ++ b ++ c = a ++ (b ++ c) :=
  congrArg Sql.mk (List.append_assoc a.pieces b.pieces c.pieces)

theorem append_empty (a : Sql) : a ++ empty = a :=
  congrArg Sql.mk (List.append_nil a.pieces)

theorem length_emitted (sql : Sql) : sql.emitted.length = sql.text.toList.length := by
  obtain ⟨pieces⟩ := sql
  induction pieces with
  | nil => rfl
  | cons p pieces ih => simp_all [emitted, text, p.length_emitted]

theorem emitted_values {sql : Sql} (h : ∀ p ∈ sql.pieces, p.Filled) :
    sql.emitted.filterMap id = sql.bindings := by
  obtain ⟨pieces⟩ := sql
  induction pieces with
  | nil => rfl
  | cons p pieces ih =>
    obtain ⟨hp, hrest⟩ := List.forall_mem_cons.mp h
    have := ih hrest
    simp_all [emitted, bindings, Piece.Filled]

theorem Aligned.values_eq {sql : Sql} (h : sql.Aligned) :
    sql.emitted.filterMap id = sql.bindings :=
  emitted_values h.filled

/-! ### Putting together -/

theorem aligned_append_iff {a b : Sql} (joint : Joint a.text.toList b.text.toList)
    (outside : leaves false a.text.toList = false) :
    (a ++ b).Aligned ↔ a.Aligned ∧ b.Aligned := by
  have lengths : (marks false a.text.toList).length = (a.emitted.map Option.isSome).length := by
    simp [length_emitted]
  have found : marks false (a ++ b).text.toList
      = marks false a.text.toList ++ marks false b.text.toList := by
    rw [text_append, String.toList_append, marks_append false joint, outside]
  have last : leaves false (a ++ b).text.toList = leaves false b.text.toList := by
    rw [text_append, String.toList_append, leaves_append false joint, outside]
  constructor
  · intro ⟨marks_eq, leaves_eq, filled⟩
    rw [found, emitted_append, List.map_append] at marks_eq
    obtain ⟨left, right⟩ := List.append_inj marks_eq lengths
    rw [pieces_append, List.forall_mem_append] at filled
    exact ⟨⟨left, outside, filled.1⟩, ⟨right, last ▸ leaves_eq, filled.2⟩⟩
  · intro ⟨ha, hb⟩
    refine ⟨?_, last.trans hb.leaves_eq, ?_⟩
    · rw [found, ha.marks_eq, hb.marks_eq, emitted_append, List.map_append]
    · rw [pieces_append, List.forall_mem_append]
      exact ⟨ha.filled, hb.filled⟩

theorem Aligned.append {a b : Sql} (ha : a.Aligned) (hb : b.Aligned)
    (joint : Joint a.text.toList b.text.toList) : (a ++ b).Aligned :=
  (aligned_append_iff joint ha.leaves_eq).mpr ⟨ha, hb⟩

theorem aligned_ofText {s : String} : (ofText s).Aligned ↔ Holds 0 s.toList := by
  constructor
  · intro h
    have := h.marks_eq
    refine ⟨by simpa using h.leaves_eq, ?_⟩
    rw [text_ofText] at this
    simp [this, List.count_replicate]
  · intro h
    refine ⟨?_, by simpa using h.1, ?_⟩
    · rw [text_ofText, marks_of_holds_zero h, emitted_ofText, List.map_replicate]
      simp
    · simp [ofText, Piece.Filled, Piece.emitted, Piece.bindings]

theorem aligned_empty : empty.Aligned := by
  refine ⟨rfl, rfl, ?_⟩
  simp [empty]

theorem aligned_ofParam_value (b : Binding) : (ofParam (.value b)).Aligned := by
  refine ⟨?_, ?_, ?_⟩
  · simp [ofParam, text, Piece.text, emitted, Piece.emitted, marks, isMark]
  · simp [ofParam, text, Piece.text, leaves, behind]
  · simp [ofParam, Piece.Filled, Piece.emitted, Piece.bindings]

theorem aligned_ofFragment {sql : String} {bindings : List Binding}
    (h : Holds bindings.length sql.toList) : (ofFragment sql bindings).Aligned := by
  have full := deal_full h.2
  refine ⟨?_, ?_, ?_⟩
  · simpa [ofFragment, text, Piece.text, emitted, Piece.emitted] using full.1.symm
  · simpa [ofFragment, text, Piece.text] using h.1
  · simpa [ofFragment, Piece.Filled, Piece.emitted, Piece.bindings] using full.2

/-- Clean text in front changes nothing. -/
theorem aligned_clean_append {s : String} (h : Clean s.toList) {a : Sql} :
    (ofText s ++ a).Aligned ↔ a.Aligned := by
  have joint : Joint (ofText s).text.toList a.text.toList := by
    rw [text_ofText]
    exact h.joint_left _
  rw [aligned_append_iff joint (by simpa using h.holds.1)]
  simp [aligned_ofText, h.holds]

theorem Aligned.of_same {a b : Sql} (ha : a.Aligned) (text : b.text = a.text)
    (emitted : b.emitted = a.emitted) (filled : ∀ p ∈ b.pieces, p.Filled) : b.Aligned := by
  refine ⟨?_, ?_, filled⟩
  · rw [text, emitted]
    exact ha.marks_eq
  · rw [text]
    exact ha.leaves_eq

theorem aligned_ofText_append_append {s t : String} {a : Sql} :
    (ofText (s ++ t) ++ a).Aligned ↔ (ofText s ++ (ofText t ++ a)).Aligned := by
  have plain (s : String) : (Piece.plain s).Filled := by
    simp [Piece.Filled, Piece.emitted, Piece.bindings]
  constructor
  · intro h
    have rest : ∀ p ∈ a.pieces, p.Filled := fun p hp => h.filled p (by simp [hp])
    exact h.of_same (by simp [String.append_assoc]) (by simp [← List.replicate_append_replicate])
      (by simpa [ofText, plain] using rest)
  · intro h
    have rest : ∀ p ∈ a.pieces, p.Filled := fun p hp => h.filled p (by simp [hp])
    exact h.of_same (by simp [String.append_assoc]) (by simp [← List.replicate_append_replicate])
      (by simpa [ofText, plain] using rest)

theorem aligned_ofText_append {s t : String} :
    (ofText (s ++ t)).Aligned ↔ (ofText s ++ ofText t).Aligned := by
  have := aligned_ofText_append_append (s := s) (t := t) (a := empty)
  rwa [append_empty, append_empty] at this

section Spacers

variable {s : String} (hs : Spacer s) {a b : Sql}
include hs

theorem joint_spacer_left (text : List Char) : Joint s.toList text :=
  joint_of_last (fun c hc => by simpa [Option.mem_def.mp hc] using hs.2.2) text

theorem joint_spacer_right (text : List Char) : Joint text s.toList :=
  joint_of_head (fun c hc => by simpa [Option.mem_def.mp hc] using hs.2.1) text

@[simp] theorem aligned_spacer : (ofText s).Aligned :=
  aligned_ofText.mpr hs.1

@[simp] theorem aligned_spacer_append : (ofText s ++ a).Aligned ↔ a.Aligned := by
  have joint : Joint (ofText s).text.toList a.text.toList := by
    rw [text_ofText]
    exact joint_spacer_left hs _
  rw [aligned_append_iff joint (by simpa using hs.1.1)]
  simp [aligned_ofText, hs.1]

@[simp] theorem aligned_append_spacer : (a ++ ofText s).Aligned ↔ a.Aligned := by
  have joint : Joint a.text.toList (ofText s).text.toList := by
    rw [text_ofText]
    exact joint_spacer_right hs _
  have last : leaves false (a ++ ofText s).text.toList = leaves false a.text.toList := by
    rw [text_append, String.toList_append, leaves_append false joint, text_ofText]
    cases leaves false a.text.toList with
    | false => exact hs.1.1
    | true => rw [← Bool.not_false, leaves_not, hs.1.1]
  constructor
  · intro h
    exact ((aligned_append_iff joint (last ▸ h.leaves_eq)).mp h).1
  · intro h
    exact h.append (aligned_ofText.mpr hs.1) joint

/-- A spacer keeps two statements apart. -/
@[simp] theorem aligned_append_spacer_append (ha : a.Aligned) :
    (a ++ (ofText s ++ b)).Aligned ↔ b.Aligned := by
  have joint : Joint a.text.toList (ofText s ++ b).text.toList := by
    rw [text_append, text_ofText, String.toList_append]
    apply joint_of_head
    intro c hc
    have opening := hs.2.1
    cases hhead : s.toList.head? with
    | none => simp [hhead] at opening
    | some d => simp_all
  rw [aligned_append_iff joint ha.leaves_eq]
  simp [ha, hs]

/-- Two statements with a spacer between them. -/
theorem Aligned.beside (ha : a.Aligned) (hb : b.Aligned) : (a ++ ofText s ++ b).Aligned := by
  simp [hs, ha, hb]

end Spacers

/-- A clean word in a literal that begins and ends in the words around it. -/
theorem aligned_quoted_append {word : String} (hw : Clean word.toList) {before after : String}
    (hb : Spacer before) (ha : Spacer after) {a : Sql} :
    (ofText (before ++ "'") ++ (ofText word ++ (ofText ("'" ++ after) ++ a))).Aligned
      ↔ a.Aligned := by
  have literal : (ofText ("'" ++ word ++ "'")).Aligned := by
    rw [aligned_ofText]
    simpa using holds_literal hw
  rw [aligned_ofText_append_append, aligned_spacer_append hb]
  rw [← aligned_ofText_append_append, ← aligned_ofText_append_append, ← String.append_assoc,
    aligned_ofText_append_append, aligned_append_spacer_append ha literal]

theorem isEmpty_iff {sql : Sql} : sql.isEmpty = true ↔ sql.text = "" := by
  obtain ⟨pieces⟩ := sql
  induction pieces with
  | nil => simp [isEmpty, text]
  | cons p pieces ih => simp_all [isEmpty, text]

theorem text_join (sep : String) (first : Sql) (parts : List Sql) :
    (join sep (first :: parts)).text.toList
      = first.text.toList ++ parts.flatMap fun part => sep.toList ++ part.text.toList := by
  induction parts generalizing first with
  | nil => simp [join]
  | cons next parts ih =>
    rw [join, text_append, text_append, text_ofText, String.toList_append, String.toList_append, ih]
    · simp
    · simp

theorem text_join_concat (sep : String) (first last : Sql) (parts : List Sql) :
    (join sep (first :: (parts ++ [last]))).text
      = (join sep (first :: parts)).text ++ sep ++ last.text := by
  apply String.toList_inj.mp
  rw [text_join, List.flatMap_append, ← List.append_assoc, ← text_join]
  simp

/-- What stands behind other words: nothing, or the part after a blank. -/
def behind (part : String) : String :=
  if part = "" then "" else " " ++ part

theorem text_spaced_concat {parts : List Sql} (some : ∃ part ∈ parts, part.text ≠ "") (last : Sql) :
    (spaced (parts ++ [last])).text = (spaced parts).text ++ behind last.text := by
  obtain ⟨part, member, solid⟩ := some
  have kept : part ∈ parts.filter fun part => !part.isEmpty :=
    List.mem_filter.mpr ⟨member, by simpa using mt isEmpty_iff.mp solid⟩
  obtain ⟨first, rest, shape⟩ := List.exists_cons_of_ne_nil (List.ne_nil_of_mem kept)
  rw [spaced, spaced, List.filter_append, shape, behind]
  by_cases empty : last.text = ""
  · rw [if_pos empty, List.filter_cons_of_neg (by simpa using isEmpty_iff.mpr empty)]
    simp
  · rw [if_neg empty, List.filter_cons_of_pos (by simpa using mt isEmpty_iff.mp empty)]
    exact (text_join_concat " " first last rest).trans (String.append_assoc)

theorem bindings_join (sep : String) (parts : List Sql) :
    (join sep parts).bindings = parts.flatMap bindings := by
  fun_induction join sep parts with
  | case1 => rfl
  | case2 part => simp
  | case3 part parts _ ih => simp [ih]

theorem aligned_join {sep : String} (hs : Spacer sep) {parts : List Sql}
    (h : ∀ part ∈ parts, part.Aligned) : (join sep parts).Aligned := by
  fun_induction join sep parts with
  | case1 => exact aligned_empty
  | case2 part => simpa using h
  | case3 part parts _ ih =>
    obtain ⟨first, others⟩ := List.forall_mem_cons.mp h
    simp [first, hs, ih others]

theorem aligned_spaced {parts : List Sql} (h : ∀ part ∈ parts, part.Aligned) :
    (spaced parts).Aligned :=
  aligned_join (by decide) fun part member => h part (List.mem_filter.mp member).1

end Sql

end SqlCompiler
