import SqlCompiler.Proofs.CarriedConditions
import SqlCompiler.Proofs.SelectParity
/-!
# Question marks in operators

A condition writes its operator between blanks. Comparisons and tests of bits write the question
marks of it twice, so that no scan takes them for placeholders; the others write it as it is. A
condition that is hygienic but for its operator matches its values if it is of the first kind, or
if the operator has no placeholder as it stands, and in no other case.
-/

namespace SqlCompiler

namespace Substitute

/-- A text without quotes and backslashes. -/
def Unquoted (text : List Char) : Prop :=
  ∀ c ∈ text, c ≠ '\'' ∧ c ≠ '\\'

instance (text : List Char) : Decidable (Unquoted text) :=
  decidable_of_iff (text.all fun c => c != '\'' && c != '\\')
    (by simp [Unquoted, List.all_eq_true])

theorem unquoted_cons {c : Char} {text : List Char} :
    Unquoted (c :: text) ↔ (c ≠ '\'' ∧ c ≠ '\\') ∧ Unquoted text :=
  List.forall_mem_cons

theorem Unquoted.leaves {text : List Char} (h : Unquoted text) (inLiteral : Bool) :
    leaves inLiteral text = inLiteral := by
  fun_induction Substitute.leaves inLiteral text with
  | case1 => rfl
  | case2 inLiteral c => simp [behind, (unquoted_cons.mp h).1.1]
  | case3 inLiteral c d rest pair ih => exact ih (unquoted_cons.mp (unquoted_cons.mp h).2).2
  | case4 inLiteral c d rest pair ih =>
    obtain ⟨hc, rest⟩ := unquoted_cons.mp h
    rw [ih rest, behind, if_neg hc.1]

theorem Unquoted.doubled {text : List Char} (h : Unquoted text) :
    Unquoted (Text.doubled '?' text) := by
  intro c member
  exact h c (Text.mem_doubled.mp member)

/-- Question marks that are written twice are copied in pairs. -/
theorem Unquoted.quiet_doubled {text : List Char} (h : Unquoted text) :
    Quiet (Text.doubled '?' text) := by
  intro inLiteral
  induction text with
  | nil => simp [Text.doubled, marks, Substitute.leaves]
  | cons c text ih =>
    obtain ⟨⟨noQuote, noSlash⟩, rest⟩ := unquoted_cons.mp h
    by_cases mark : c = '?'
    · subst mark
      simp [Text.doubled, marks, Substitute.leaves, isPair, ih rest, List.replicate_succ]
    · have clean : isClean c = true := by simp [isClean, mark, noQuote, noSlash]
      have read := cons_read clean inLiteral (Text.doubled '?' text)
      rw [Text.doubled_cons_of_ne mark, read.1, read.2, (ih rest).1, (ih rest).2]
      exact ⟨rfl, rfl⟩

theorem Unquoted.holds_escaped {operator : String} (h : Unquoted operator.toList) :
    Holds 0 (escapeOperator operator).toList := by
  have quiet := h.quiet_doubled false
  simp [escapeOperator, Text.onString, Holds, quiet.1, quiet.2, List.count_replicate]

end Substitute

open Substitute

theorem escapeOperator_eq_iff {operator : String} :
    escapeOperator operator = operator ↔ '?' ∉ operator.toList := by
  have texts : escapeOperator operator = operator
      ↔ Text.doubled '?' operator.toList = operator.toList := by
    rw [escapeOperator, Text.onString, ← String.toList_inj, String.toList_ofList]
  rw [texts]
  refine ⟨fun same member => ?_, Text.doubled_of_absent⟩
  -- A question mark makes the doubled text longer.
  have longer : ∀ text : List Char, text.length + text.count '?'
      = (Text.doubled '?' text).length := by
    intro text
    induction text with
    | nil => rfl
    | cons c text ih =>
      by_cases mark : c = '?'
      · simp [Text.doubled, mark, ← ih]
        omega
      · simp [Text.doubled, mark, ← ih]
        omega
  have lengths := longer operator.toList
  rw [same] at lengths
  have counted := List.count_pos_iff.mpr member
  omega

namespace Sql

/-- A statement with an operator between blanks. What is around the operator has the placeholders
of the values. -/
structure Framed (operator : String) (values : List Binding) (sql : Sql) : Prop where
  parts : ∃ front rear : Sql, front.Aligned ∧ rear.Aligned ∧
    front.bindings ++ rear.bindings = values ∧
    sql.text = (front ++ " " ++ operator ++ " " ++ rear).text ∧
    sql.emitted = (front ++ " " ++ operator ++ " " ++ rear).emitted
  whole : sql.Whole

variable {operator : String} {values first second : List Binding} {sql front rear : Sql}

theorem Binds.framed (hf : Binds first front) (hr : Binds second rear) (operator : String) :
    Framed operator (first ++ second) (front ++ " " ++ operator ++ " " ++ rear) where
  parts := ⟨front, rear, hf.aligned, hr.aligned, by rw [hf.bindings_eq, hr.bindings_eq], rfl, rfl⟩
  whole := by
    have front : front.Whole := hf.aligned.filled
    have rear : rear.Whole := hr.aligned.filled
    simp [front, rear]

theorem Framed.of_same {other : Sql} (h : Framed operator values sql) (text : other.text = sql.text)
    (emitted : other.emitted = sql.emitted) (whole : other.Whole) :
    Framed operator values other := by
  obtain ⟨front, rear, hf, hr, same, words, marks⟩ := h.parts
  exact ⟨⟨front, rear, hf, hr, same, text.trans words, emitted.trans marks⟩, whole⟩

/-- Words around a statement stand around its operator. -/
theorem Framed.within (h : Framed operator values sql) (before after : String)
    (hb : Spacer before) (ha : Spacer after) :
    Framed operator values (before ++ sql ++ after) := by
  obtain ⟨front, rear, hf, hr, same, text, emitted⟩ := h.parts
  refine ⟨⟨before ++ front, rear ++ after, ?_, ?_, ?_, ?_, ?_⟩, ?_⟩
  · simp [hb, hf]
  · simp [ha, hr]
  · simpa using same
  · simp [text, String.append_assoc]
  · simp [emitted]
  · simp [h.whole]

theorem Framed.negate (h : Framed operator values sql) (negated : Bool) :
    Framed operator values (negate negated sql) := by
  cases negated with
  | false => exact h
  | true => exact h.within "not (" ")" (by decide) (by decide)

/-- An operator without placeholders is one more clean word. -/
theorem Framed.binds (h : Framed operator values sql) (quiet : Holds 0 operator.toList) :
    Binds values sql := by
  obtain ⟨front, rear, hf, hr, same, text, emitted⟩ := h.parts
  have word : (ofText operator).Aligned := aligned_ofText.mpr quiet
  have all : (front ++ " " ++ operator ++ " " ++ rear).Aligned := by
    simp +decide [hf, hr, word]
  have aligned := all.of_same text emitted h.whole
  refine ⟨aligned, ?_⟩
  rw [← aligned.values_eq, emitted, all.values_eq, ← same]
  simp

/-- Beside the placeholders of the values a scan finds those of the operator. -/
theorem Framed.count (h : Framed operator values sql) (plain : Unquoted operator.toList) :
    (marks false sql.text.toList).count true
      = values.length + (marks false operator.toList).count true := by
  obtain ⟨front, rear, hf, hr, same, text, -⟩ := h.parts
  have before : (front ++ " ").Aligned := by simp +decide [hf]
  have behind : (" " ++ rear : Sql).Aligned := by simp +decide [hr]
  have counted (sql : Sql) (aligned : sql.Aligned) :
      (marks false sql.text.toList).count true = sql.bindings.length :=
    (matched_of_binds ⟨aligned, rfl⟩).count
  have shape : sql.text.toList
      = (front ++ " ").text.toList ++ (operator.toList ++ (" " ++ rear : Sql).text.toList) := by
    rw [text]
    simp
  have left : Joint (front ++ " ").text.toList
      (operator.toList ++ (" " ++ rear : Sql).text.toList) :=
    joint_of_last (by simp +decide) _
  have right : Joint operator.toList (" " ++ rear : Sql).text.toList :=
    joint_of_head (by simp +decide) _
  rw [shape, marks_append false left, before.leaves_eq, marks_append false right, plain.leaves,
    List.count_append, List.count_append, counted _ before, counted _ behind, ← same]
  simp
  omega

end Sql

/-! ### Conditions with operators -/

def Predicate.operator? : Predicate Query → Option String
  | .basic _ operator _ | .bitwise _ operator _ | .datePart _ _ operator _
  | .compareColumns _ operator _ | .sub _ operator _ | .rowValues _ operator _
  | .jsonBoolean _ operator _ | .jsonLength _ operator _ => some operator
  | .raw _ _ | .expression _ | .among _ _ | .amongIntegers _ _ | .null _ | .between _ _ _
  | .betweenColumns _ _ _ | .nested _ | .hasRows _ | .jsonContains _ _ | .jsonContainsKey _
  | .fulltext _ _ _ => none

def Predicate.withOperator (operator : String) : Predicate Query → Predicate Query
  | .basic column _ value => .basic column operator value
  | .bitwise column _ value => .bitwise column operator value
  | .datePart part column _ value => .datePart part column operator value
  | .compareColumns first _ second => .compareColumns first operator second
  | .sub column _ query => .sub column operator query
  | .rowValues columns _ values => .rowValues columns operator values
  | .jsonBoolean column _ value => .jsonBoolean column operator value
  | .jsonLength column _ value => .jsonLength column operator value
  | p => p

def GroupPredicate.operator? : GroupPredicate Query → Option String
  | .basic _ operator _ | .bitwise _ operator _ => some operator
  | .raw _ _ | .expression _ | .between _ _ _ | .null _ | .nested _ => none

def GroupPredicate.withOperator (operator : String) : GroupPredicate Query → GroupPredicate Query
  | .basic column _ value => .basic column operator value
  | .bitwise column _ value => .bitwise column operator value
  | p => p

/-- A condition of a where list or of a having list. -/
inductive Condition where
  | row (w : Where Query)
  | group (h : Having Query)

namespace Condition

def operator? : Condition → Option String
  | row w => w.predicate.operator?
  | group h => h.predicate.operator?

def queries : Condition → List Query
  | row w => w.queries
  | group h => h.queries

def bindings : Condition → List Binding
  | row w => (w.map Query.bindingLists).bindings
  | group h => (h.map Query.bindingLists).bindings

def compiled (e : Engine) : Condition → Outcome
  | row w => (e.whereClause (w.map (Query.compiled e))).2
  | group h => (e.havingClause (h.map (Query.compiled e))).2

/-- Hygienic but for the operator, and so are the queries inside. -/
def HygienicBeside (t : Condition) : Prop :=
  (match t with
    | row w => (w.predicate.withOperator "=").Hygienic
    | group h => (h.predicate.withOperator "=").Hygienic) ∧
  ∀ q ∈ t.queries, q.Hygienic

end Condition

namespace Engine

variable (e : Engine)

/-- Whether a test writes the question marks of its operator twice. Comparisons do, unless they
compare text in Postgres, and so do comparisons of bits outside SQL Server. -/
def doubles : Predicate Query → Bool
  | .basic _ operator _ =>
    !decide (e.dialect = .postgres ∧ Text.contains "like".toList (Text.lowerCase operator).toList)
  | .bitwise _ _ _ => e.dialect ≠ .sqlserver
  | _ => false

/-- No test of a having list does. -/
def doublesIn : Condition → Bool
  | .row w => e.doubles w.predicate
  | .group _ => false

/-- An operator as a condition writes it. -/
def written (doubled : Bool) (operator : String) : String :=
  if doubled then escapeOperator operator else operator

variable {e} (he : Clean e.settings.tablePrefix.toList)

theorem escapeOperator_bitwise {operator : String} (bits : operator ∈ e.bitwiseOperators) :
    escapeOperator operator = operator := by
  have clean : ∀ operator ∈ e.bitwiseOperators, Clean operator.toList := by
    unfold bitwiseOperators
    cases e.dialect <;> decide
  exact escapeOperator_of_clean (clean operator bits)

section Comparisons

include he

variable {column : Term Query} (hc : column.Hygienic) (ih : ∀ q ∈ column.queries, q.Parity e)
  {value : Param} (hv : value.Hygienic) (operator : String)
include hc ih hv

theorem comparison_framed :
    Yields (Sql.Framed (written (e.doubles (.basic column operator value)) operator)
        ((column.map Query.bindingLists).bindings ++ boundValues [value]))
      (e.comparison (column.map (Query.compiled e)) operator value) := by
  refine (column_binds he hc ih).bind fun c found => ?_
  split
  · next text =>
    have cast : Sql.Binds (column.map Query.bindingLists).bindings (c ++ "::text") :=
      ⟨by simp +decide [found.aligned], by simp [found.bindings_eq]⟩
    rw [doubles, decide_eq_true text]
    refine yields_pure.mpr ((cast.framed hv.binds operator).of_same ?_ ?_ ?_)
    · apply String.toList_inj.mp
      simp
    · simp
    · have front : c.Whole := found.aligned.filled
      simp [front]
  · next other =>
    rw [doubles, decide_eq_false other]
    exact yields_pure.mpr (found.framed hv.binds _)

theorem havingBitwise_framed :
    Yields (Sql.Framed operator ((column.map Query.bindingLists).bindings ++ boundValues [value]))
      (e.havingBitwise (column.map (Query.compiled e)) operator value) := by
  refine (column_binds he hc ih).bind fun c found => yields_pure.mpr ?_
  have truth := (found.framed hv.binds operator).within "(" ") != 0" (by decide) (by decide)
  simpa only [Sql.append_assoc] using truth

theorem bitwise_framed :
    Yields (Sql.Framed (written (e.doubles (.bitwise column operator value)) operator)
        ((column.map Query.bindingLists).bindings ++ boundValues [value]))
      (e.bitwise (column.map (Query.compiled e)) operator value) := by
  have plain := comparison_framed he hc ih hv operator
  have other (d : Dialect) (dialect : e.dialect = d) (apart : d ≠ .postgres ∧ d ≠ .sqlserver) :
      e.doubles (.bitwise column operator value) = e.doubles (.basic column operator value) := by
    simp [doubles, dialect, apart]
  unfold bitwise
  split
  · next dialect =>
    have doubled : e.doubles (.bitwise column operator value) = true := by simp [doubles, dialect]
    rw [doubled]
    refine (column_binds he hc ih).bind fun c found => yields_pure.mpr ?_
    have truth := (found.framed hv.binds (written true operator)).within "(" ")::bool"
      (by decide) (by decide)
    simpa only [Sql.append_assoc] using! truth
  · next dialect =>
    have single : e.doubles (.bitwise column operator value) = false := by simp [doubles, dialect]
    rw [single]
    exact havingBitwise_framed he hc ih hv operator
  all_goals
    next dialect =>
      rw [other _ dialect (by decide)]
      exact plain

/-- What a date test takes out of the column is read off a test with a clean operator. -/
theorem dateTest_framed (part : DatePart) :
    Yields (Sql.Framed operator ((column.map Query.bindingLists).bindings ++ boundValues [value]))
      (e.dateTest part (column.map (Query.compiled e)) operator value) := by
  intro sql ok
  obtain ⟨c, compiled, written⟩ := bind_ok ok
  obtain rfl := pure_ok written
  have equals : Clean "=".toList := by decide
  have zero : (Param.raw "0").Hygienic := (by decide : Holds 0 "0".toList)
  have plain := dateTest_binds he hc ih equals zero part
  rw [dateTest, compiled] at plain
  have compared : Sql.Binds (boundValues [value])
      (if e.dialect = .sqlite then "cast(" ++ Sql.ofParam value ++ " as text)"
        else Sql.ofParam value) := by
    split
    · exact hv.binds.within _ _ (by decide) (by decide)
    · exact hv.binds
  refine Sql.Binds.framed ?_ compared operator
  -- The constant of the other test and its operator bind nothing and are peeled off.
  have peeled {values : List Binding} {extracted : Sql}
      (h : Sql.Binds (values ++ boundValues [.raw "0"]) (extracted ++ " " ++ "=" ++ " " ++
        if e.dialect = .sqlite then "cast(" ++ Sql.ofParam (.raw "0") ++ " as text)"
        else Sql.ofParam (.raw "0"))) : Sql.Binds values extracted := by
    have constant : Sql.ofParam (.raw "0") = Sql.ofText "0" := rfl
    have nothing : boundValues [.raw "0"] = [] := rfl
    rw [constant, nothing, List.append_nil] at h
    have aligned := h.aligned
    have bindings := h.bindings_eq
    refine ⟨?_, ?_⟩
    · split at aligned <;> simpa +decide [← Sql.append_assoc] using aligned
    · split at bindings <;> simpa using bindings
  exact peeled (yields_pure.mp plain)

end Comparisons

section Json

include he

variable {selector : String} (hs : Clean selector.toList) (operator : String)
include hs

theorem jsonBooleanTest_framed (value : Bool) :
    Yields (fun test => Sql.Framed operator [] (Sql.ofText test))
      (e.jsonBooleanTest selector operator value) := by
  refine (aligned_jsonBooleanSelector he hs).bind fun selected aligned => yields_pure.mpr ?_
  have constant := Sql.binds_ofText (aligned_jsonBooleanValue (e := e) value)
  refine ((Sql.binds_ofText aligned).framed constant operator).of_same ?_ ?_ ?_
  · simp [String.append_assoc]
  · simp only [Sql.emitted_append, Sql.emitted_ofText, String.toList_append, List.length_append,
      List.replicate_append_replicate]
  · simp

theorem jsonLengthTest_framed {values : List Binding} {value : Sql} (hv : Sql.Binds values value) :
    Yields (Sql.Framed operator values) (e.jsonLengthTest selector operator value) := by
  obtain ⟨hf, hp⟩ := fieldAndPath_read he hs
  have compared : ∀ length, (Sql.ofText length).Aligned →
      Sql.Framed operator values (length ++ " " ++ operator ++ " " ++ value) :=
    fun length aligned => (Sql.binds_ofText aligned).framed hv operator
  unfold jsonLengthTest
  generalize e.fieldAndPath selector = parts at hf hp
  obtain ⟨field, path⟩ := parts
  cases e.dialect with
  | generic => exact yields_error
  | mysql => exact yields_ok.mpr (compared _ (aligned_call hf hp (by decide) (by decide)))
  | postgres =>
    refine (aligned_jsonDocument he hs).bind fun document aligned => yields_ok.mpr (compared _ ?_)
    simp +decide [Sql.aligned_ofText_append, aligned]
  | sqlite => exact yields_ok.mpr (compared _ (aligned_call hf hp (by decide) (by decide)))
  | sqlserver => exact yields_ok.mpr (compared _ (aligned_call hf hp (by decide) (by decide)))

end Json

theorem written_bitwise {operator : String} (bits : operator ∈ e.bitwiseOperators)
    (doubled : Bool) : written doubled operator = operator := by
  cases doubled with
  | true => exact escapeOperator_bitwise bits
  | false => rfl

section Tests

include he

theorem whereTest_framed (negated : Bool) {p : Predicate Query}
    (hp : (p.withOperator "=").Hygienic) (ih : ∀ q ∈ p.queries, q.Parity e) {operator : String}
    (has : p.operator? = some operator) :
    Yields (Sql.Framed (written (e.doubles p) operator) (p.map Query.bindingLists).bindings)
      (e.whereTest negated (p.map (Query.compiled e))) := by
  cases p with
  | basic column op value =>
    obtain rfl := Option.some.inj has
    obtain ⟨hc, -, hv⟩ := hp
    simp only [Predicate.map, whereTest]
    split
    · next bits =>
      have test := bitwise_framed he hc ih hv op
      rw [written_bitwise bits] at test ⊢
      exact test.map fun _ found => found.negate negated
    · exact (comparison_framed he hc ih hv op).map fun _ found => found.negate negated
  | bitwise column op value =>
    obtain rfl := Option.some.inj has
    obtain ⟨hc, -, hv⟩ := hp
    exact (bitwise_framed he hc ih hv op).map fun _ found => found.negate negated
  | datePart part column op value =>
    obtain rfl := Option.some.inj has
    obtain ⟨hc, -, hv⟩ := hp
    exact (dateTest_framed he hc ih hv op part).map fun _ found => found.negate negated
  | compareColumns first op second =>
    obtain rfl := Option.some.inj has
    obtain ⟨hf, -, hs⟩ := hp
    simp only [Predicate.queries, List.forall_mem_append] at ih
    refine (column_binds he hf ih.1).bind fun a foundA => ?_
    exact (column_binds he hs ih.2).bind fun b foundB =>
      yields_pure.mpr ((foundA.framed foundB op).negate negated)
  | sub column op query =>
    obtain rfl := Option.some.inj has
    obtain ⟨hc, -⟩ := hp
    simp only [Predicate.queries, List.forall_mem_append, List.mem_singleton, forall_eq] at ih
    refine (column_binds he hc ih.1).bind fun c foundC => ?_
    exact ih.2.select.bind fun select found =>
      yields_pure.mpr ((foundC.framed found.parenthesized op).negate negated)
  | rowValues columns op values =>
    obtain rfl := Option.some.inj has
    obtain ⟨hc, -, hv⟩ := hp
    simp only [Predicate.map, whereTest, Predicate.bindings]
    split
    · exact yields_error
    · refine (columnList_binds he hc ih).bind fun c found => ?_
      have list : Sql.Binds (boundValues values) (paramList values) :=
        ⟨aligned_paramList hv, bindings_paramList values⟩
      exact yields_pure.mpr ((found.parenthesized.framed list.parenthesized op).negate negated)
  | jsonBoolean column op value =>
    obtain rfl := Option.some.inj has
    obtain ⟨hc, -⟩ := hp
    have test := (jsonBooleanTest_framed he hc op value).bind fun sql framed =>
      yields_pure.mpr framed
    exact test.map fun _ found => found.negate negated
  | jsonLength column op value =>
    obtain rfl := Option.some.inj has
    obtain ⟨hc, -, hv⟩ := hp
    exact (jsonLengthTest_framed he hc op hv.binds).map fun _ found => found.negate negated
  | _ => cases has

/-- A having list writes every operator as it is. -/
theorem havingTest_framed (negated : Bool) {p : GroupPredicate Query}
    (hp : (p.withOperator "=").Hygienic) (ih : ∀ q ∈ p.queries, q.Parity e) {operator : String}
    (has : p.operator? = some operator) :
    Yields (Sql.Framed operator (p.map Query.bindingLists).bindings)
      (e.havingTest negated (p.map (Query.compiled e))) := by
  cases p with
  | basic column op value =>
    obtain rfl := Option.some.inj has
    obtain ⟨hc, -, hv⟩ := hp
    simp only [GroupPredicate.map, havingTest]
    split
    · exact (havingBitwise_framed he hc ih hv op).map fun _ found => found.negate negated
    · exact (column_binds he hc ih).bind fun c found =>
        yields_pure.mpr ((found.framed hv.binds op).negate negated)
  | bitwise column op value =>
    obtain rfl := Option.some.inj has
    obtain ⟨hc, -, hv⟩ := hp
    exact (havingBitwise_framed he hc ih hv op).map fun _ found => found.negate negated
  | _ => cases has

theorem condition_framed {t : Condition} (ht : t.HygienicBeside) {operator : String}
    (has : t.operator? = some operator) :
    Yields (Sql.Framed (written (e.doublesIn t) operator) t.bindings) (t.compiled e) := by
  obtain ⟨own, inside⟩ := ht
  have ih : ∀ q ∈ t.queries, q.Parity e := fun q member => parity_of_hygienic he (inside q member)
  cases t with
  | row w => exact whereTest_framed he w.negated own ih has
  | group h => exact havingTest_framed he h.negated own ih has

end Tests

/-! ### When the placeholders are those of the values -/

theorem written_eq_escapeOperator_iff (doubled : Bool) (operator : String) :
    written doubled operator = escapeOperator operator
      ↔ doubled = true ∨ '?' ∉ operator.toList := by
  cases doubled with
  | true => simp [written]
  | false =>
    rw [written, if_neg Bool.false_ne_true, eq_comm, escapeOperator_eq_iff]
    simp

theorem holds_written_iff (doubled : Bool) {operator : String} (plain : Unquoted operator.toList) :
    Holds 0 (written doubled operator).toList ↔ doubled = true ∨ Holds 0 operator.toList := by
  cases doubled with
  | true => simpa [written] using plain.holds_escaped
  | false => simp [written]

theorem unquoted_written (doubled : Bool) {operator : String} (plain : Unquoted operator.toList) :
    Unquoted (written doubled operator).toList := by
  cases doubled with
  | false => exact plain
  | true => simpa [written, escapeOperator, Text.onString] using plain.doubled

include he in
/-- A condition is two parts and the operator between them, its question marks written twice if
the kind of the condition does so. The values match the placeholders if it does, or if a scan of
the operator finds no placeholder, and in no other case. -/
theorem operators_matched_iff {t : Condition} (ht : t.HygienicBeside) {operator : String}
    (has : t.operator? = some operator) (plain : Unquoted operator.toList) {sql : Sql}
    (ok : t.compiled e = .ok sql) :
    (∃ front rear : Sql, front.Aligned ∧ rear.Aligned ∧
      front.bindings ++ rear.bindings = t.bindings ∧
      sql.text = front.text ++ " " ++ written (e.doublesIn t) operator ++ " " ++ rear.text) ∧
    (written (e.doublesIn t) operator = escapeOperator operator
      ↔ e.doublesIn t = true ∨ '?' ∉ operator.toList) ∧
    (Statement.Matched { sql, bindings := t.bindings }
      ↔ e.doublesIn t = true ∨ Holds 0 operator.toList) := by
  have framed := condition_framed he ht has sql ok
  refine ⟨?_, written_eq_escapeOperator_iff _ _, ?_⟩
  · obtain ⟨front, rear, hf, hr, same, text, -⟩ := framed.parts
    exact ⟨front, rear, hf, hr, same, by simpa [String.append_assoc] using text⟩
  · rw [← holds_written_iff _ plain]
    constructor
    · intro matched
      have counted := framed.count (unquoted_written _ plain)
      have all : (marks false sql.text.toList).count true = t.bindings.length := matched.count
      exact ⟨(unquoted_written _ plain).leaves false, by omega⟩
    · exact fun quiet => matched_of_binds (framed.binds quiet)

end Engine

/-- Rows without any of two labels, one of them added by the test. -/
def unlabelled : Condition := .row
  { negated := true
    predicate := .basic (.raw "labels || ?" [.text "new"]) "?|" (.value (.text "old")) }

theorem unlabelled_matched : ∃ sql, unlabelled.compiled (.mk .postgres {}) = .ok sql ∧
    sql.text = "not (labels || ? ??| ?)" ∧
    Statement.Matched { sql, bindings := [.text "new", .text "old"] } := by
  have operator : unlabelled.operator? = some "?|" := rfl
  refine ⟨_, rfl, by decide, ?_⟩
  refine (Engine.operators_matched_iff (e := .mk .postgres {}) (by decide) (t := unlabelled)
    ⟨?_, ?_⟩ operator ?_ rfl).2.2.mpr (.inl ?_)
  · refine ⟨?_, by decide, trivial⟩
    unfold Term.Hygienic
    decide
  · simp [unlabelled, Condition.queries, Where.queries, Predicate.queries, Term.queries]
  · decide
  · decide

/-- Groups with a label. -/
def labelledGroups : Condition := .group
  { predicate := .basic (.name "tags") "?|" (.value (.text "a")) }

theorem labelledGroups_unmatched : labelledGroups.HygienicBeside ∧
    ∃ sql, labelledGroups.compiled (.mk .generic {}) = .ok sql ∧
      sql.text = "\"tags\" ?| ?" ∧ labelledGroups.bindings = [.text "a"] ∧
      (marks false sql.text.toList).count true = 2 := by
  refine ⟨⟨⟨?_, by decide, trivial⟩, ?_⟩, _, rfl, by decide, rfl, by decide⟩
  · unfold Term.Hygienic
    decide
  · simp [labelledGroups, Condition.queries, Having.queries, GroupPredicate.queries, Term.queries]

end SqlCompiler
