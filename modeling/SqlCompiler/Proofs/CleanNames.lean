import SqlCompiler.Engine.Selector
import SqlCompiler.Proofs.Placeholders
/-!
# Clean names

A name without question marks, quotes and backslashes is compiled to a text without placeholders
that ends outside a literal: quoting and aliases add clean characters only, and the path of a JSON
selector stands in literals of its own.
-/

namespace SqlCompiler

namespace Substitute

theorem clean_doubled {mark : Char} {text : List Char} (h : Clean text) :
    Clean (Text.doubled mark text) :=
  fun c member => h c (Text.mem_doubled.mp member)

theorem doubled_of_clean {mark : Char} (special : isClean mark = false) {text : List Char}
    (h : Clean text) : Text.doubled mark text = text := by
  apply Text.doubled_of_absent
  intro member
  rw [h mark member] at special
  cases special

theorem clean_consFirst {c : Char} (hc : isClean c = true) {parts : List (List Char)}
    (h : ∀ part ∈ parts, Clean part) : ∀ part ∈ Text.consFirst c parts, Clean part := by
  cases parts with
  | nil => simp [Text.consFirst, hc]
  | cons part parts => simp_all [Text.consFirst]

theorem clean_splitOn {mark : Char} {text : List Char} (h : Clean text) :
    ∀ part ∈ Text.splitOn mark text, Clean part := by
  induction text with
  | nil => simp [Text.splitOn]
  | cons c text ih =>
    obtain ⟨hc, htext⟩ := clean_cons.mp h
    rw [Text.splitOn]
    split
    · simpa using ih htext
    · exact clean_consFirst hc (ih htext)

theorem clean_splitArrows {text : List Char} (h : Clean text) :
    ∀ part ∈ Text.splitArrows text, Clean part := by
  fun_induction Text.splitArrows text with
  | case1 => simp
  | case2 rest ih => simpa using ih (by simp_all)
  | case3 c rest _ ih => exact clean_consFirst (clean_cons.mp h).1 (ih (clean_cons.mp h).2)

theorem clean_intercalate {separator : List Char} (hs : Clean separator)
    {parts : List (List Char)} (h : ∀ part ∈ parts, Clean part) :
    Clean (separator.intercalate parts) := by
  induction parts with
  | nil => simp
  | cons part parts ih =>
    cases parts with
    | nil => simpa using h
    | cons next parts =>
      rw [List.intercalate_cons_cons]
      simp_all

theorem clean_cutArrow {text before after : List Char} (h : Clean text)
    (cut : Text.cutArrow? text = some (before, after)) : Clean before ∧ Clean after := by
  fun_induction Text.cutArrow? text generalizing before with
  | case1 => simp at cut
  | case2 rest =>
    simp only [Option.some.injEq, Prod.mk.injEq] at cut
    obtain ⟨rfl, rfl⟩ := cut
    simp_all
  | case3 c rest _ ih =>
    obtain ⟨⟨front, rear⟩, inner, same⟩ := Option.map_eq_some_iff.mp cut
    simp only [Prod.mk.injEq] at same
    obtain ⟨rfl, rfl⟩ := same
    have := ih (clean_cons.mp h).2 inner
    simp [(clean_cons.mp h).1, this]

theorem clean_cutLast {mark : Char} {text before after : List Char} (h : Clean text)
    (cut : Text.cutLast? mark text = some (before, after)) : Clean before ∧ Clean after := by
  induction text generalizing before with
  | nil => simp [Text.cutLast?] at cut
  | cons c text ih =>
    obtain ⟨hc, htext⟩ := clean_cons.mp h
    rw [Text.cutLast?] at cut
    split at cut
    · next inner =>
      simp only [Option.some.injEq, Prod.mk.injEq] at cut
      obtain ⟨rfl, rfl⟩ := cut
      have := ih htext inner
      simp [hc, this]
    · split at cut
      · simp only [Option.some.injEq, Prod.mk.injEq] at cut
        obtain ⟨rfl, rfl⟩ := cut
        simp [htext]
      · simp at cut

theorem Clean.dropWhile {text : List Char} (h : Clean text) (p : Char → Bool) :
    Clean (text.dropWhile p) :=
  fun c hc => h c ((List.dropWhile_sublist p).subset hc)

theorem clean_afterAs {text aliasName : List Char} (h : Clean text)
    (cut : Name.afterAs? text = some aliasName) : Clean aliasName := by
  unfold Name.afterAs? at cut
  split at cut
  · split at cut
    · obtain rfl := Option.some.inj cut
      exact Clean.dropWhile (by simp_all) _
    · simp at cut
  · simp at cut

theorem clean_splitAlias {text target aliasName : List Char} (h : Clean text)
    (cut : Name.splitAlias? text = some (target, aliasName)) :
    Clean target ∧ Clean aliasName := by
  induction text generalizing target with
  | nil => simp [Name.splitAlias?] at cut
  | cons c text ih =>
    obtain ⟨hc, htext⟩ := clean_cons.mp h
    rw [Name.splitAlias?] at cut
    split at cut
    · next found =>
      simp only [Option.some.injEq, Prod.mk.injEq] at cut
      obtain ⟨rfl, rfl⟩ := cut
      split at found
      · exact ⟨clean_nil, clean_afterAs (htext.dropWhile _) found⟩
      · simp at found
    · obtain ⟨⟨front, rear⟩, inner, same⟩ := Option.map_eq_some_iff.mp cut
      simp only [Prod.mk.injEq] at same
      obtain ⟨rfl, rfl⟩ := same
      have := ih htext inner
      simp [hc, this]

theorem clean_dropLead {lead text rest : List Char} (h : Clean text)
    (cut : Text.dropLead? lead text = some rest) : Clean rest := by
  fun_induction Text.dropLead? lead text with
  | case1 text => exact Option.some.inj cut ▸ h
  | case2 => simp at cut
  | case3 lead b text ih => exact ih (clean_cons.mp h).2 cut
  | case4 => simp at cut

theorem clean_afterLast {mark text rest : List Char} (h : Clean text)
    (cut : Text.afterLast? mark text = some rest) : Clean rest := by
  induction text with
  | nil => simp [Text.afterLast?] at cut
  | cons c text ih =>
    rw [Text.afterLast?, Option.or_eq_some_iff] at cut
    rcases cut with later | ⟨-, here⟩
    · exact ih (clean_cons.mp h).2 later
    · exact clean_dropLead h here

theorem clean_referredTo {table : String} (h : Clean table.toList) :
    Clean (Name.referredTo table).toList := by
  unfold Name.referredTo
  cases cut : Text.afterLast? " as ".toList table.toList with
  | none => simpa using h
  | some rest => simpa using clean_afterLast h cut

theorem clean_unqualified {key : String} (h : Clean key.toList) :
    Clean (Name.unqualified key).toList := by
  unfold Name.unqualified
  split
  · next column path cut =>
    obtain ⟨before, after⟩ := clean_cutArrow h cut
    split
    · next name last =>
      have := (clean_cutLast before last).2
      simp +decide [this, after]
    · exact h
  · split
    · next name last => simpa using (clean_cutLast h last).2
    · exact h

theorem clean_natDigits (n : Nat) : Clean (natDigits n) := by
  intro c hc
  have apart (d : Char) (other : d.isDigit = false) : c ≠ d := by
    rintro rfl
    exact not_mem_natDigits other n hc
  simp [isClean, apart '?' rfl, apart '\'' rfl, apart '\\' rfl]

theorem clean_natText (n : Nat) : Clean (natText n).toList := by
  simpa [natText] using clean_natDigits n

theorem clean_intText (n : Int) : Clean (intText n).toList := by
  rw [intText]
  split
  · simp [clean_natText, isClean]
  · exact clean_natText _

/-! ### Paths -/

/-- Everything that has been read of a segment. -/
def CleanEnd : JsonPath.SegmentEnd → Prop
  | .groups tokens => ∀ token ∈ tokens, Clean token
  | .inside token tokens => Clean token ∧ ∀ token ∈ tokens, Clean token
  | .key text tokens => Clean text ∧ ∀ token ∈ tokens, Clean token

theorem cleanEnd_push {c : Char} (hc : isClean c = true) {rear : JsonPath.SegmentEnd}
    (h : CleanEnd rear) : CleanEnd (rear.push c) := by
  have bracket : isClean ']' = true := rfl
  cases rear with
  | groups tokens =>
    rw [JsonPath.SegmentEnd.push]
    split <;> simp_all [CleanEnd]
  | inside token tokens =>
    rw [JsonPath.SegmentEnd.push]
    split
    · simp_all [CleanEnd]
    · split <;> simp_all [CleanEnd]
  | key text tokens => simp_all [JsonPath.SegmentEnd.push, CleanEnd]

theorem clean_splitGroups {segment : List Char} (h : Clean segment) :
    Clean (JsonPath.splitGroups segment).1 ∧
      ∀ token ∈ (JsonPath.splitGroups segment).2, Clean token := by
  have read : CleanEnd (segment.foldr JsonPath.SegmentEnd.push (.groups [])) := by
    induction segment with
    | nil => simp [CleanEnd]
    | cons c segment ih =>
      obtain ⟨hc, hsegment⟩ := clean_cons.mp h
      exact cleanEnd_push hc (ih hsegment)
  have bracket : isClean ']' = true := rfl
  rw [JsonPath.splitGroups]
  cases rear : segment.foldr JsonPath.SegmentEnd.push (.groups []) <;>
    simp_all [CleanEnd, JsonPath.SegmentEnd.split]

theorem escapeQuotes_of_clean {path : List Char} (h : Clean path) :
    JsonPath.escapeQuotes 0 path = path := by
  induction path with
  | nil => rfl
  | cons c path ih =>
    obtain ⟨hc, hpath⟩ := clean_cons.mp h
    unfold JsonPath.escapeQuotes
    split
    · simp_all
    · simp_all [isClean]
    · simp_all [isClean]
    · simp_all

theorem clean_bracketed {tokens : List (List Char)} (h : ∀ token ∈ tokens, Clean token) :
    Clean (JsonPath.bracketed tokens) := by
  intro c hc
  obtain ⟨token, member, hc⟩ := List.mem_flatMap.mp hc
  have group : Clean ('[' :: (token ++ [']'])) := by simp [h token member, isClean]
  exact group c hc

theorem clean_quotedSegment {segment : List Char} (h : Clean segment) :
    Clean (JsonPath.quotedSegment segment) := by
  have parts := clean_splitGroups h
  have quote : isClean '"' = true := rfl
  unfold JsonPath.quotedSegment
  split
  · simp [h, quote]
  · simp_all [clean_bracketed]
  · simp_all [clean_bracketed]

theorem holds_readLiteral {path : List Char} (h : Clean path) :
    Holds 0 (JsonPath.readLiteral path) := by
  have body : Clean (['.'].intercalate
      ((Text.splitArrows (JsonPath.escapeQuotes 0 path)).map JsonPath.quotedSegment)) := by
    rw [escapeQuotes_of_clean h]
    refine clean_intercalate (by decide) ?_
    rw [List.forall_mem_map]
    exact fun segment member => clean_quotedSegment (clean_splitArrows h segment member)
  rw [JsonPath.readLiteral, ← List.cons_append]
  refine holds_literal ?_
  split <;> simp [body, isClean]

theorem holds_quotedKey {text : List Char} (h : Clean text) : Holds 0 (JsonPath.quotedKey text) :=
  holds_literal (clean_doubled h)

theorem holds_attributes {path : List Char} (h : Clean path) :
    ∀ item ∈ JsonPath.attributes path, Holds 0 item := by
  rw [JsonPath.attributes, List.forall_mem_map]
  intro item member
  obtain ⟨segment, hsegment, member⟩ := List.mem_flatMap.mp member
  have parts := clean_splitGroups (clean_splitArrows h segment hsegment)
  generalize JsonPath.splitGroups segment = read at parts member
  obtain ⟨key, tokens⟩ := read
  have clean : Clean item := by
    by_cases empty : key = []
    · simp only [empty, if_true] at member
      exact parts.2 item member
    · simp only [empty, if_false, List.mem_cons] at member
      rcases member with rfl | member
      · exact parts.1
      · exact parts.2 item member
  split
  · exact clean.holds
  · exact holds_quotedKey clean

theorem head_blurArrows (text : List Char) : (Text.blurArrows text).head? = text.head? := by
  fun_cases Text.blurArrows text <;> simp [*]

/-- Putting `->` for `->>` moves no placeholder. -/
theorem blurArrows_read (inLiteral : Bool) (text : List Char) :
    leaves inLiteral (Text.blurArrows text) = leaves inLiteral text ∧
      (marks inLiteral (Text.blurArrows text)).count true = (marks inLiteral text).count true := by
  fun_induction marks inLiteral text with
  | case1 => simp [Text.blurArrows, leaves, marks]
  | case2 inLiteral c => simp [Text.blurArrows, leaves, marks]
  | case3 inLiteral c d rest pair ih =>
    have first : c ≠ '-' := by
      rintro rfl
      simp [isPair] at pair
    have second : d ≠ '-' := by
      rintro rfl
      simp [isPair] at pair
    have copied : Text.blurArrows (c :: d :: rest) = c :: d :: Text.blurArrows rest := by
      simp [Text.blurArrows, first, second]
    simpa [copied, leaves, marks, pair] using ih
  | case4 inLiteral c d rest pair ih =>
    by_cases arrow : ∃ tail, c = '-' ∧ d = '>' ∧ rest = '>' :: tail
    · obtain ⟨tail, rfl, rfl, rfl⟩ := arrow
      have blurred : Text.blurArrows ('>' :: '>' :: tail) = '>' :: '>' :: Text.blurArrows tail := by
        simp [Text.blurArrows]
      have dash (text : List Char) := cons_read (c := '-') rfl inLiteral text
      have point (text : List Char) := cons_read (c := '>') rfl inLiteral text
      have same : isMark inLiteral '-' = false ∧ behind inLiteral '-' = inLiteral := by
        simp [isMark, behind]
      simp only [blurred, same, point] at ih
      simp only [Text.blurArrows, same, dash, point]
      simpa using ih
    · have copied : Text.blurArrows (c :: d :: rest) = c :: Text.blurArrows (d :: rest) := by
        rw [Text.blurArrows]
        grind
      have alone (e : Char) (he : e ∈ (d :: rest).head?) : isPair c e = false := by
        simp_all
      rw [copied, marks_cons, leaves_cons, leaves_cons _ alone]
      · simp [List.count_cons, ih]
      · rwa [head_blurArrows]
      · rwa [head_blurArrows]

theorem Holds.blurArrows {n : Nat} {text : List Char} (h : Holds n text) :
    Holds n (Text.blurArrows text) := by
  have read := blurArrows_read false text
  exact ⟨read.1.trans h.1, read.2.trans h.2⟩

end Substitute

namespace Engine

open Substitute

variable {e : Engine}

/-! ### Names -/

theorem clean_quote {part : List Char} (h : Clean part) : Clean (e.quote part) := by
  have opening : isClean e.dialect.quoteMarks.opening = true := by cases e.dialect <;> rfl
  have closing : isClean e.dialect.quoteMarks.closing = true := by cases e.dialect <;> rfl
  rw [quote, QuoteMarks.quote]
  split
  · decide
  · simp [opening, closing, clean_doubled h]

theorem clean_wrapValue {part : String} (h : Clean part.toList) :
    Clean (e.wrapValue part).toList := by
  simpa [wrapValue] using clean_quote h

theorem clean_aliased {target aliasName : List Char} (ht : Clean target) (ha : Clean aliasName) :
    Clean (Name.aliased target aliasName) := by
  simp +decide [Name.aliased, ht, ha]

variable (he : Clean e.settings.tablePrefix.toList)
include he

theorem clean_quoteTable {part : List Char} (h : Clean part) : Clean (e.quoteTable part) :=
  clean_quote (clean_append.mpr ⟨he, h⟩)

theorem clean_plainTable {name : List Char} (h : Clean name) : Clean (e.plainTable name) := by
  have parts : ∀ parts : List (List Char), (∀ part ∈ parts, Clean part) →
      ∀ part ∈ e.tableParts parts, Clean part := by
    intro parts clean
    fun_induction tableParts e parts with
    | case1 => simp
    | case2 table => simpa using clean_quoteTable he (by simpa using clean)
    | case3 schema rest _ ih =>
      obtain ⟨first, others⟩ := List.forall_mem_cons.mp clean
      exact List.forall_mem_cons.mpr ⟨clean_quote first, ih others⟩
  exact clean_intercalate (by decide) (parts _ (clean_splitOn h))

theorem clean_plainColumn {name : List Char} (h : Clean name) : Clean (e.plainColumn name) := by
  have parts : ∀ parts : List (List Char), (∀ part ∈ parts, Clean part) →
      ∀ part ∈ e.columnParts parts, Clean part := by
    intro parts clean
    unfold columnParts
    split
    · simp
    · simpa using clean_quote (by simpa using clean)
    · obtain ⟨first, others⟩ := List.forall_mem_cons.mp clean
      refine List.forall_mem_cons.mpr ⟨clean_quoteTable he first, ?_⟩
      rw [List.forall_mem_map]
      exact fun part member => clean_quote (others part member)
  exact clean_intercalate (by decide) (parts _ (clean_splitOn h))

theorem clean_wrapTable {name : String} (h : Clean name.toList) :
    Clean (e.wrapTable name).toList := by
  rw [wrapTable, String.toList_ofList]
  split
  · next cut =>
    have parts := clean_splitAlias h cut
    exact clean_aliased (clean_plainTable he parts.1) (clean_quoteTable he parts.2)
  · exact clean_plainTable he h

theorem clean_wrapField {name : List Char} (h : Clean name) : Clean (e.wrapField name).toList := by
  rw [wrapField, String.toList_ofList]
  split
  · next cut =>
    have parts := clean_splitAlias h cut
    exact clean_aliased (clean_plainColumn he parts.1) (clean_quote parts.2)
  · exact clean_plainColumn he h

end Engine

end SqlCompiler
