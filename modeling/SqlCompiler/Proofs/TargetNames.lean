import SqlCompiler.Engine.Insert
import SqlCompiler.Engine.Update
import SqlCompiler.Proofs.QuotedNames
/-!
# What a write calls its target

A write that names its target again may take what stands behind the last ` as ` of the quoted
table. That is the alias of the table, or all of it, unless the word before the alias comes up
inside of it once more.
-/

namespace SqlCompiler

namespace Text

variable {c : Char} {mark text a b : List Char}

/-- Words do not start at a character that is not their first. -/
theorem infix_cons_of_head (different : mark.head? ≠ some c) :
    mark <:+: c :: text ↔ mark <:+: text := by
  refine ⟨fun inside => ?_, fun inside => List.infix_cons inside⟩
  refine (List.infix_cons_iff.mp inside).elim (fun first => ?_) id
  rcases List.prefix_cons_iff.mp first with rfl | ⟨rest, rfl, -⟩
  · exact List.nil_infix
  · exact absurd rfl different

theorem infix_cons_of_not_mem (absent : c ∉ mark) : mark <:+: c :: text ↔ mark <:+: text :=
  infix_cons_of_head fun first => absent (List.mem_of_head? first)

/-- A character that the words do not hold parts a text for them. -/
theorem infix_append_cons_iff (absent : c ∉ mark) :
    mark <:+: a ++ c :: b ↔ mark <:+: a ∨ mark <:+: b := by
  rw [List.infix_append_iff, infix_cons_of_not_mem absent, ← or_assoc, or_iff_left_iff_imp]
  rintro ⟨first, second, rfl, ending, starting⟩
  rcases List.prefix_cons_iff.mp starting with rfl | ⟨rest, rfl, -⟩
  · exact .inl (by simpa using ending.isInfix)
  · exact absurd (List.mem_append_right first List.mem_cons_self) absent

theorem infix_intercalate_iff {parts : List (List Char)} (absent : c ∉ mark) (solid : mark ≠ []) :
    mark <:+: [c].intercalate parts ↔ ∃ part ∈ parts, mark <:+: part := by
  induction parts with
  | nil => simp [solid]
  | cons part parts ih =>
    cases parts with
    | nil => simp
    | cons second parts =>
      rw [List.intercalate_cons_cons, List.append_assoc, List.singleton_append,
        infix_append_cons_iff absent, ih]
      simp

theorem prefix_doubled_iff (absent : c ∉ mark) : mark <+: doubled c text ↔ mark <+: text := by
  induction text generalizing mark with
  | nil => rfl
  | cons d text ih =>
    cases mark with
    | nil => simp
    | cons m mark =>
      obtain ⟨apart, absent⟩ := not_or.mp (mt List.mem_cons.mpr absent)
      rw [doubled]
      split
      · next same =>
        have different : m ≠ d := fun own => apart (own.trans same).symm
        simp [List.cons_prefix_cons, different]
      · rw [List.cons_prefix_cons, List.cons_prefix_cons, ih absent]

/-- Doubling a character does not touch words without it. -/
theorem infix_doubled_iff (absent : c ∉ mark) : mark <:+: doubled c text ↔ mark <:+: text := by
  induction text with
  | nil => rfl
  | cons d text ih =>
    by_cases same : d = c
    · subst same
      rw [doubled, if_pos rfl, infix_cons_of_not_mem absent, infix_cons_of_not_mem absent, ih,
        infix_cons_of_not_mem absent]
    · rw [doubled_cons_of_ne same, List.infix_cons_iff, List.infix_cons_iff, ih,
        ← doubled_cons_of_ne same, prefix_doubled_iff absent]

theorem dropLead?_eq_some_iff {lead rest : List Char} :
    dropLead? lead text = some rest ↔ text = lead ++ rest := by
  fun_induction dropLead? lead text with
  | case1 text => simp [eq_comm]
  | case2 => simp
  | case3 lead a text ih => simp [ih]
  | case4 a lead b text apart => simp [Ne.symm apart]

theorem dropLead?_isSome_iff {lead : List Char} :
    (dropLead? lead text).isSome = true ↔ lead <+: text := by
  simp [Option.isSome_iff_exists, dropLead?_eq_some_iff, List.prefix_iff_exists_eq_append]

theorem afterLast?_eq_none_iff (solid : mark ≠ []) :
    afterLast? mark text = none ↔ ¬ mark <:+: text := by
  induction text with
  | nil => simp [afterLast?, solid]
  | cons c text ih =>
    have start : dropLead? mark (c :: text) = none ↔ ¬ mark <+: c :: text := by
      rw [Option.eq_none_iff_forall_ne_some]
      simp [dropLead?_eq_some_iff, List.prefix_iff_exists_eq_append]
    rw [afterLast?, Option.or_eq_none_iff, ih, start, List.infix_cons_iff, not_or, and_comm]

/-- What stands behind the last mark is shorter than the text. -/
theorem afterLast?_length {rest : List Char} (solid : mark ≠ [])
    (found : afterLast? mark text = some rest) : rest.length < text.length := by
  induction text with
  | nil => cases found
  | cons c text ih =>
    rw [afterLast?, Option.or_eq_some_iff] at found
    rcases found with later | ⟨-, here⟩
    · exact Nat.lt_succ_of_lt (ih later)
    · rw [dropLead?_eq_some_iff.mp here, List.length_append]
      exact Nat.lt_add_of_pos_left (List.length_pos_iff.mpr solid)

theorem afterLast?_append {rest : List Char} (a : List Char)
    (found : afterLast? mark text = some rest) : afterLast? mark (a ++ text) = some rest := by
  induction a with
  | nil => exact found
  | cons c a ih =>
    rw [List.cons_append, afterLast?, ih]
    rfl

end Text

/-! ### Behind the last word -/

/-- The word that stands before an alias. -/
def Name.asWord : List Char := " as ".toList

namespace QuoteMarks

/-- No quotes of a dialect stand in the words. -/
structure Outside (q : QuoteMarks) (mark : List Char) : Prop where
  opening : q.opening ∉ mark
  closing : q.closing ∉ mark

theorem outside_asWord (d : Dialect) : d.quoteMarks.Outside Name.asWord := by
  cases d <;> exact ⟨by decide, by decide⟩

variable {q : QuoteMarks} {mark part : List Char}

theorem infix_quote_iff (outside : q.Outside mark) : mark <:+: q.quote part ↔ mark <:+: part := by
  rw [quote]
  split
  · next star => rw [star]
  · rw [Text.infix_cons_of_not_mem outside.opening, Text.infix_append_cons_iff outside.closing,
      Text.infix_doubled_iff outside.closing]
    exact or_iff_left_of_imp fun empty => empty.trans List.nil_infix

theorem head?_quote (q : QuoteMarks) (part : List Char) :
    (q.quote part).head? = some '*' ∨ (q.quote part).head? = some q.opening := by
  rw [quote]
  split
  · exact .inl rfl
  · exact .inr rfl

end QuoteMarks

namespace Name

variable {table called : List Char}

theorem asWord_solid : asWord ≠ [] := by decide

theorem referredTo_ofList (text : List Char) : referredTo (String.ofList text)
    = String.ofList ((Text.afterLast? asWord text).getD text) := by
  simp [referredTo, asWord]

theorem referredTo_bare : referredTo (String.ofList table) = String.ofList table ↔
    ¬ asWord <:+: table := by
  rw [← Text.afterLast?_eq_none_iff asWord_solid, referredTo_ofList, String.ofList_inj]
  cases found : Text.afterLast? asWord table with
  | none => simp
  | some rest =>
    have shorter := Text.afterLast?_length asWord_solid found
    have different : rest ≠ table := fun same => absurd shorter (same ▸ Nat.lt_irrefl _)
    simpa using different

/-- The word before an alias is the last of its kind unless the alias has it too. -/
theorem referredTo_aliased (starts : called.head? ≠ some 'a') :
    referredTo (String.ofList (aliased table called)) = String.ofList called ↔
      ¬ asWord <:+: called := by
  have word : aliased table called = table ++ (asWord ++ called) := List.append_assoc ..
  rw [word, referredTo_ofList, String.ofList_inj]
  constructor
  · intro same inside
    cases found : Text.afterLast? asWord called with
    | none => exact (Text.afterLast?_eq_none_iff asWord_solid).mp found inside
    | some rest =>
      rw [Text.afterLast?_append table (Text.afterLast?_append asWord found), Option.getD_some]
        at same
      exact absurd (Text.afterLast?_length asWord_solid found) (same ▸ Nat.lt_irrefl _)
  · intro outside
    have behind : ¬ asWord <:+: 'a' :: 's' :: ' ' :: called := by
      rw [Text.infix_cons_of_head (by decide), Text.infix_cons_of_head (by decide),
        List.infix_cons_iff]
      rintro (⟨rest, overlap⟩ | inside)
      · exact starts (congrArg List.head? (List.cons.inj overlap).2.symm)
      · exact outside inside
    have here : Text.afterLast? asWord (asWord ++ called) = some called := by
      show Text.afterLast? asWord (' ' :: 'a' :: 's' :: ' ' :: called) = some called
      rw [Text.afterLast?, (Text.afterLast?_eq_none_iff asWord_solid).mpr behind, Option.none_or,
        Text.dropLead?_eq_some_iff]
      rfl
    rw [Text.afterLast?_append table here, Option.getD_some]

end Name

namespace Name

variable {p name : List Char} {segments : List (List Char)} {aliasName : Option (List Char)}

/-- What the last part of a quoted table is called: its alias, or else its last segment. -/
def called (segments : List (List Char)) (aliasName : Option (List Char)) : List Char :=
  aliasName.getD (segments.getLastD [])

theorem prefixLast_eq (filled : segments ≠ []) :
    prefixLast p segments = segments.dropLast ++ [p ++ segments.getLastD []] := by
  induction segments with
  | nil => exact absurd rfl filled
  | cons schema rest ih =>
    cases rest with
    | nil => rfl
    | cons second rest => exact congrArg (schema :: ·) (ih (List.cons_ne_nil _ _))

theorem separator_asWord : Separator asWord :=
  @Separator.mk [' '] [' '] 'a' 's' (by simp) (List.forall_mem_singleton.mpr rfl) (.inl rfl)
    (.inl rfl) (by simp) (List.forall_mem_singleton.mpr rfl)

theorem infix_dotted_iff {parts : List (List Char)} :
    asWord <:+: dotted parts ↔ ∃ part ∈ parts, asWord <:+: part :=
  Text.infix_intercalate_iff (by decide) asWord_solid

theorem infix_quoted_iff {q : QuoteMarks} (outside : q.Outside asWord)
    {parts : List (List Char)} :
    asWord <:+: dotted (parts.map q.quote) ↔ ∃ part ∈ parts, asWord <:+: part := by
  rw [infix_dotted_iff]
  constructor
  · rintro ⟨quoted, written, inside⟩
    obtain ⟨part, member, rfl⟩ := List.mem_map.mp written
    exact ⟨part, member, (QuoteMarks.infix_quote_iff outside).mp inside⟩
  · rintro ⟨part, member, inside⟩
    exact ⟨_, List.mem_map_of_mem member, (QuoteMarks.infix_quote_iff outside).mpr inside⟩

/-- Of a name without alias only the prefixed table can have the word before an alias. -/
theorem infix_prefixLast_iff (unparted : Unparted name) (spelt : Segments name segments) :
    (∃ part ∈ prefixLast p segments, asWord <:+: part) ↔
      asWord <:+: p ++ segments.getLastD [] := by
  have outside : ∀ segment ∈ segments.dropLast, ¬ asWord <:+: segment := by
    intro segment member inside
    refine unparted asWord separator_asWord (spelt.dotted ▸ infix_dotted_iff.mpr ?_)
    exact ⟨segment, List.dropLast_subset _ member, inside⟩
  rw [prefixLast_eq spelt.filled]
  constructor
  · rintro ⟨part, member, inside⟩
    rcases List.mem_append.mp member with schema | last
    · exact absurd inside (outside part schema)
    · exact List.mem_singleton.mp last ▸ inside
  · exact fun inside => ⟨_, List.mem_append_right _ (List.mem_singleton_self _), inside⟩

end Name

namespace Engine

variable {e : Engine} {name : String} {segments : List (List Char)}
  {aliasName : Option (List Char)}

/-- What a compiled target is to be called: its quoted alias, or else all of it. -/
def ownName (e : Engine) (name : String) : String :=
  match Name.splitAlias? name.toList with
  | some (_, aliasName) => String.ofList (e.quoteTable aliasName)
  | none => e.wrapTable name

theorem referredTo_wrapTable_iff (spelt : Name.Spells name.toList segments aliasName) :
    Name.referredTo (e.wrapTable name) = e.ownName name ↔
      ¬ Name.asWord <:+: e.settings.tablePrefix.toList ++ Name.called segments aliasName := by
  have outside := QuoteMarks.outside_asWord e.dialect
  cases spelt with
  | bare unparted spelt =>
    rw [ownName, wrapTable, Name.splitAlias?_eq_none_iff.mpr unparted]
    dsimp only
    rw [Name.referredTo_bare, plainTable_eq spelt]
    exact not_congr ((Name.infix_quoted_iff outside).trans
      (Name.infix_prefixLast_iff unparted spelt))
  | @aliased target aliasName _ aliased spelt =>
    rw [ownName, wrapTable, Name.splitAlias?_eq_some_iff.mpr aliased]
    dsimp only
    have starts : (e.quoteTable aliasName).head? ≠ some 'a' := by
      intro starts
      rcases e.dialect.quoteMarks.head?_quote (e.settings.tablePrefix.toList ++ aliasName)
        with star | opening
      · exact absurd (star.symm.trans starts) (by decide)
      · have letter : e.dialect.quoteMarks.opening = 'a' :=
          Option.some.inj (opening.symm.trans starts)
        exact outside.opening (letter ▸ by decide)
    rw [Name.referredTo_aliased starts]
    exact not_congr (QuoteMarks.infix_quote_iff outside)

end Engine

end SqlCompiler
