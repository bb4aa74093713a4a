import SqlCompiler.Proofs.Emission
/-!
# Edited statements

Trimming the end of a statement and putting clean words into it leave it aligned.
-/

namespace SqlCompiler.Sql

open Substitute

theorem isClean_of_isBlank {c : Char} (h : Text.isBlank c = true) : isClean c = true := by
  have apart (d : Char) (notBlank : Text.isBlank d = false) : c ≠ d := by
    rintro rfl
    simp [notBlank] at h
  simp [isClean, apart '?' rfl, apart '\'' rfl, apart '\\' rfl]

theorem trimEnd_append (text : List Char) :
    ∃ blanks : List Char, Clean blanks ∧ text = Text.trimEnd text ++ blanks := by
  refine ⟨(text.reverse.takeWhile Text.isBlank).reverse, ?_, ?_⟩
  · intro c hc
    rw [List.mem_reverse] at hc
    exact isClean_of_isBlank (List.all_eq_true.mp List.all_takeWhile c hc)
  · rw [Text.trimEnd, ← List.reverse_append, List.takeWhile_append_dropWhile, List.reverse_reverse]

/-- A piece with blanks at its end, and the piece without them. -/
def Trimmed (blanks : List Char) (p q : Piece) : Prop :=
  p.text.toList = q.text.toList ++ blanks ∧
    p.emitted = q.emitted ++ List.replicate blanks.length none ∧ q.bindings = p.bindings

/-- What is trimmed off a piece is blank. -/
theorem mapText_trimEnd (p : Piece) :
    ∃ blanks : List Char, Clean blanks ∧ Trimmed blanks p (p.mapText Text.trimEnd) := by
  cases p with
  | plain s =>
    obtain ⟨blanks, clean, cut⟩ := trimEnd_append s.toList
    refine ⟨blanks, clean, ?_, ?_, rfl⟩
    · simpa [Piece.text, Piece.mapText, Text.onString] using cut
    · have lengths := congrArg List.length cut
      rw [List.length_append] at lengths
      simp only [Piece.emitted, Piece.mapText, Text.onString, lengths, String.toList_ofList,
        List.replicate_append_replicate]
  | slot value => exact ⟨[], by simp, by simp [Trimmed, Piece.mapText]⟩
  | fragment sql bindings =>
    obtain ⟨blanks, clean, cut⟩ := trimEnd_append sql.toList
    refine ⟨blanks, clean, ?_, ?_, rfl⟩
    · simpa [Piece.text, Piece.mapText, Text.onString] using cut
    · simp only [Piece.emitted, Piece.mapText, Text.onString, String.toList_ofList]
      conv => lhs; rw [cut, marks_append false (clean.joint_right _), (clean_read clean _).1]
      rw [deal_append, deal_replicate_false]

theorem Trimmed.filled {blanks : List Char} {p q : Piece} (h : Trimmed blanks p q)
    (filled : p.Filled) : q.Filled := by
  obtain ⟨-, emitted, bindings⟩ := h
  rw [Piece.Filled, bindings, ← filled, emitted]
  simp

theorem trimEnd_cons (p : Piece) (pieces : List Piece) : (mk (p :: pieces)).trimEnd =
    if (mk pieces).trimEnd.isEmpty then ⟨p.mapText Text.trimEnd :: (mk pieces).trimEnd.pieces⟩
    else ⟨p :: (mk pieces).trimEnd.pieces⟩ := by
  rw [trimEnd, List.foldr_cons]
  exact apply_ite Sql.mk _ _ _

theorem trimEnd_read (sql : Sql) : ∃ blanks : List Char, Clean blanks ∧
    sql.text.toList = sql.trimEnd.text.toList ++ blanks ∧
    sql.emitted = sql.trimEnd.emitted ++ List.replicate blanks.length none ∧
    sql.trimEnd.bindings = sql.bindings ∧
    ((∀ p ∈ sql.pieces, p.Filled) → ∀ p ∈ sql.trimEnd.pieces, p.Filled) := by
  obtain ⟨pieces⟩ := sql
  induction pieces with
  | nil => exact ⟨[], by simp, by simp [trimEnd], by simp [trimEnd], rfl, by simp [trimEnd]⟩
  | cons p pieces ih =>
    obtain ⟨rear, clean, restText, restEmitted, restBindings, restFilled⟩ := ih
    rw [trimEnd_cons]
    split
    · next empty =>
      obtain ⟨blanks, front, trimmed⟩ := mapText_trimEnd p
      have noText := isEmpty_iff.mp empty
      have nothing : (mk pieces).trimEnd.emitted = [] :=
        List.eq_nil_of_length_eq_zero (by simp [length_emitted, noText])
      refine ⟨blanks ++ rear, by simp [front, clean], ?_, ?_, ?_, ?_⟩
      · simp_all [text_cons, trimmed.1]
      · simp_all [emitted_cons, trimmed.2.1]
      · simp [bindings_cons, trimmed.2.2, restBindings]
      · intro filled
        obtain ⟨hp, hrest⟩ := List.forall_mem_cons.mp filled
        exact List.forall_mem_cons.mpr ⟨trimmed.filled hp, restFilled hrest⟩
    · refine ⟨rear, clean, ?_, ?_, ?_, ?_⟩
      · simp_all [text_cons]
      · simp_all [emitted_cons]
      · simp [bindings_cons, restBindings]
      · intro filled
        obtain ⟨hp, hrest⟩ := List.forall_mem_cons.mp filled
        exact List.forall_mem_cons.mpr ⟨hp, restFilled hrest⟩

@[simp] theorem bindings_trimEnd (sql : Sql) : sql.trimEnd.bindings = sql.bindings := by
  obtain ⟨_, _, _, _, same, _⟩ := trimEnd_read sql
  exact same

theorem trimEnd_behind (a b : List Char) : Text.trimEnd (a ++ b)
    = if Text.trimEnd b = [] then Text.trimEnd a else a ++ Text.trimEnd b := by
  simp only [Text.trimEnd, List.reverse_append, List.dropWhile_append, List.isEmpty_iff,
    List.reverse_eq_nil_iff]
  split <;> simp

/-- Nothing before a character that is not blank is trimmed. -/
theorem trimEnd_solid {c : Char} (solid : Text.isBlank c = false) (a b : List Char) :
    Text.trimEnd (a ++ c :: b) = a ++ c :: Text.trimEnd b := by
  have one : Text.trimEnd (c :: b) = c :: Text.trimEnd b := by
    have alone : Text.trimEnd [c] = [c] := by simp [Text.trimEnd, solid]
    have front := trimEnd_behind [c] b
    rw [List.singleton_append, alone] at front
    rw [front]
    split
    · next none => rw [none]
    · rfl
  rw [trimEnd_behind, one, if_neg (List.cons_ne_nil _ _)]

theorem text_trimEnd (sql : Sql) : sql.trimEnd.text.toList = Text.trimEnd sql.text.toList := by
  obtain ⟨pieces⟩ := sql
  induction pieces with
  | nil => rfl
  | cons p pieces ih =>
    have own : (p.mapText Text.trimEnd).text.toList = Text.trimEnd p.text.toList := by
      cases p <;> simp [Piece.mapText, Piece.text, Text.onString]
      rfl
    rw [trimEnd_cons, text_cons, String.toList_append, trimEnd_behind, ← ih]
    by_cases empty : (mk pieces).trimEnd.text = ""
    · rw [if_pos (isEmpty_iff.mpr empty), if_pos (by rw [empty]; rfl), text_cons,
        String.toList_append, own]
      simp [empty]
    · rw [if_neg (mt isEmpty_iff.mp empty), if_neg (by simpa using empty), text_cons]
      simp

/-- A statement whose last character is not blank stays as it is. -/
theorem text_trimEnd_of_solid {sql : Sql} {front : List Char} {c : Char}
    (text : sql.text.toList = front ++ [c]) (solid : Text.isBlank c = false) :
    sql.trimEnd.text = sql.text := by
  apply String.toList_inj.mp
  rw [text_trimEnd, text, trimEnd_solid solid]
  rfl

theorem Aligned.trimEnd {sql : Sql} (h : sql.Aligned) : sql.trimEnd.Aligned := by
  obtain ⟨blanks, clean, text, emitted, -, filled⟩ := trimEnd_read sql
  have joint := clean.joint_right sql.trimEnd.text.toList
  have found := h.marks_eq
  have outside := h.leaves_eq
  rw [text, marks_append false joint, (clean_read clean _).1, emitted, List.map_append] at found
  rw [text, leaves_append false joint, (clean_read clean _).2] at outside
  exact ⟨List.append_inj_left' found (by simp), outside, filled h.filled⟩

/-! ### Words in the middle -/

/-- A text before clean words and behind them. -/
theorem insert_read {a b words : List Char} (inLiteral : Bool)
    (last : ∀ c ∈ a.getLast?, isClean c = true) (clean : Clean words) :
    marks inLiteral (a ++ (words ++ b))
        = marks inLiteral a ++ (List.replicate words.length false ++ marks (leaves inLiteral a) b) ∧
      leaves inLiteral (a ++ (words ++ b)) = leaves inLiteral (a ++ b) := by
  rw [marks_append _ (joint_of_last last _), leaves_append _ (joint_of_last last _),
    marks_append _ (clean.joint_left _), leaves_append _ (clean.joint_left _),
    leaves_append _ (joint_of_last last _), (clean_read clean _).1, (clean_read clean _).2]
  exact ⟨rfl, rfl⟩

/-- Words put into a statement behind the first `n` characters. -/
structure Inserted (n : Nat) (words : List Char) (a b : Sql) : Prop where
  text : b.text.toList = a.text.toList.take n ++ (words ++ a.text.toList.drop n)
  emitted : b.emitted
    = a.emitted.take n ++ (List.replicate words.length none ++ a.emitted.drop n)
  bindings : b.bindings = a.bindings
  filled : (∀ p ∈ a.pieces, p.Filled) → ∀ p ∈ b.pieces, p.Filled

theorem Inserted.append_right {n : Nat} {words : List Char} {a b : Sql}
    (h : Inserted n words a b) (inside : n ≤ a.text.toList.length) (c : Sql) :
    Inserted n words (a ++ c) (b ++ c) := by
  have reach : n ≤ a.emitted.length := by rwa [length_emitted]
  constructor
  · rw [text_append, text_append, String.toList_append, String.toList_append, h.text,
      List.take_append_of_le_length inside, List.drop_append_of_le_length inside]
    simp
  · rw [emitted_append, emitted_append, h.emitted, List.take_append_of_le_length reach,
      List.drop_append_of_le_length reach]
    simp
  · simp [h.bindings]
  · intro filled
    rw [pieces_append, List.forall_mem_append] at filled ⊢
    exact ⟨h.filled filled.1, filled.2⟩

theorem Inserted.append_left {n : Nat} {words : List Char} {a b : Sql}
    (h : Inserted n words a b) (c : Sql) :
    Inserted (c.text.toList.length + n) words (c ++ a) (c ++ b) := by
  constructor
  · rw [text_append, text_append, String.toList_append, String.toList_append, h.text,
      List.take_length_add_append, List.drop_length_add_append]
    simp
  · rw [emitted_append, emitted_append, h.emitted, ← length_emitted,
      List.take_length_add_append, List.drop_length_add_append]
    simp
  · simp [h.bindings]
  · intro filled
    rw [pieces_append, List.forall_mem_append] at filled ⊢
    exact ⟨filled.1, h.filled filled.2⟩

/-- Clean words between the characters of a fragment deal none of its values anew. -/
theorem emitted_insertAt_fragment (sql : String) (values : List Binding) {n : Nat} {words : String}
    (inside : n ≤ sql.toList.length)
    (last : ∀ c ∈ (sql.toList.take n).getLast?, isClean c = true) (clean : Clean words.toList) :
    (Piece.fragment (Text.onString
        (fun text => text.take n ++ words.toList ++ text.drop n) sql) values).emitted
      = (Piece.fragment sql values).emitted.take n ++ (List.replicate words.toList.length none
        ++ (Piece.fragment sql values).emitted.drop n) := by
  have whole := marks_append false (joint_of_last last (sql.toList.drop n))
  have before : (marks false (sql.toList.take n)).length = n := by simp [Nat.min_eq_left inside]
  rw [List.take_append_drop] at whole
  simp only [Piece.emitted, Text.onString, String.toList_ofList, List.append_assoc]
  rw [(insert_read false last clean).1, whole, deal_append, deal_append, deal_append,
    deal_replicate_false, List.take_left' (by simpa using before),
    List.drop_left' (by simpa using before)]
  simp [List.count_replicate]

theorem insertAt_piece {p : Piece} {n : Nat} {words : String} (positive : 0 < n)
    (inside : n ≤ p.text.toList.length)
    (last : ∀ c ∈ (p.text.toList.take n).getLast?, isClean c = true) (clean : Clean words.toList) :
    Inserted n words.toList ⟨[p]⟩ ⟨p.insertAt n words⟩ := by
  cases p with
  | plain s =>
    have reach : n ≤ s.toList.length := by simpa [Piece.text] using inside
    constructor
    · simp [Piece.insertAt, Piece.mapText, text, Piece.text, Text.onString]
    · have lengths : n + (words.toList.length + (s.toList.length - n))
          = (s.toList.take n ++ words.toList ++ s.toList.drop n).length := by
        simp [Nat.min_eq_left reach]
      simp only [emitted, Piece.insertAt, Piece.mapText, Text.onString, Piece.emitted,
        List.flatMap_cons, List.flatMap_nil, List.append_nil, String.toList_ofList,
        List.take_replicate, List.drop_replicate, Nat.min_eq_left reach,
        List.replicate_append_replicate, lengths]
    · rfl
    · simp [Piece.insertAt, Piece.mapText, Piece.Filled, Piece.emitted, Piece.bindings]
  | slot value =>
    obtain rfl : n = 1 := by
      simp [Piece.text] at inside
      omega
    exact ⟨by simp [Piece.insertAt, text, Piece.text],
      by simp [Piece.insertAt, emitted, Piece.emitted], rfl,
      by simp [Piece.insertAt, Piece.Filled, Piece.emitted, Piece.bindings]⟩
  | fragment sql values =>
    have dealt := emitted_insertAt_fragment sql values inside last clean
    constructor
    · simp [Piece.insertAt, Piece.mapText, text, Piece.text, Text.onString]
    · simpa [Piece.insertAt, Piece.mapText, emitted] using dealt
    · rfl
    · intro filled
      have full : (Piece.fragment sql values).emitted.filterMap id = values :=
        filled _ List.mem_cons_self
      simp only [Piece.insertAt, Piece.mapText, List.mem_singleton, forall_eq]
      rw [Piece.Filled, dealt, List.filterMap_append, List.filterMap_append,
        List.filterMap_replicate_of_none rfl, List.nil_append, ← List.filterMap_append,
        List.take_append_drop, full, Piece.bindings]

theorem inserted_insertAt {sql : Sql} {n : Nat} {words : String} (positive : 0 < n)
    (inside : n ≤ sql.text.toList.length)
    (last : ∀ c ∈ (sql.text.toList.take n).getLast?, isClean c = true)
    (clean : Clean words.toList) : Inserted n words.toList sql (sql.insertAt n words) := by
  obtain ⟨pieces⟩ := sql
  rw [insertAt]
  induction pieces generalizing n with
  | nil =>
    have : n ≤ 0 := by simpa [text] using inside
    omega
  | cons p rest ih =>
    have one : (mk [p]).text = p.text := by simp [text]
    have whole : (mk (p :: rest)).text.toList = p.text.toList ++ (mk rest).text.toList := by
      rw [text_cons, String.toList_append]
    rw [whole] at inside last
    rw [insertPieces, ← String.length_toList]
    split
    · next within =>
      rw [List.take_append_of_le_length within] at last
      exact (insertAt_piece positive within last clean).append_right (by rwa [one]) ⟨rest⟩
    · next beyond =>
      obtain ⟨k, rfl⟩ : ∃ k, n = p.text.toList.length + k :=
        ⟨n - p.text.toList.length, by omega⟩
      have more : 0 < k := by omega
      rw [List.take_length_add_append] at last
      have rear := ih more (by simpa using inside) fun c hc => last c ?_
      · rw [Nat.add_sub_cancel_left, ← one]
        exact rear.append_left ⟨[p]⟩
      · simp_all

theorem Aligned.insertAt {sql : Sql} (h : sql.Aligned) {n : Nat} {words : String} (positive : 0 < n)
    (inside : n ≤ sql.text.toList.length)
    (last : ∀ c ∈ (sql.text.toList.take n).getLast?, isClean c = true)
    (clean : Clean words.toList) :
    (sql.insertAt n words).Aligned ∧ (sql.insertAt n words).bindings = sql.bindings := by
  have inserted := inserted_insertAt positive inside last clean
  have read := insert_read (b := sql.text.toList.drop n) false last clean
  have whole := marks_append false (joint_of_last last (sql.text.toList.drop n))
  rw [List.take_append_drop] at read whole
  rw [h.marks_eq, ← List.take_append_drop n (sql.emitted.map Option.isSome)] at whole
  obtain ⟨front, rear⟩ := List.append_inj whole (by simp [length_emitted])
  refine ⟨⟨?_, ?_, inserted.filled h.filled⟩, inserted.bindings⟩
  · rw [inserted.text, read.1, inserted.emitted, ← front, ← rear]
    simp
  · rw [inserted.text, read.2]
    exact h.leaves_eq

end SqlCompiler.Sql
