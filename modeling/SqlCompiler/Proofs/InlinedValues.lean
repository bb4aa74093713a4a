import Mathlib.Data.List.Forall2
import SqlCompiler.Proofs.SelectParity
/-!
# Values at their placeholders

A statement with its values in it is made from the text alone: it is scanned for placeholders once
more, by a reader that knows literals but no quoted names. Each value stands at its own placeholder
exactly if this scan deals the values to the characters that were emitted for them.
-/

namespace SqlCompiler

open Substitute

/-- A text with values in place of the characters that stand for them. -/
def placed (render : Binding → String) : List (Option Binding) → List Char → List Char
  | some value :: places, _ :: text => (render value).toList ++ placed render places text
  | none :: places, c :: text => c :: placed render places text
  | _, text => text

variable {render : Binding → String}

theorem fill_eq_placed (marks : List Bool) (values : List Binding) (text : List Char) :
    fill marks (values.map render) text = placed render (deal marks values) text := by
  fun_induction deal marks values generalizing text with
  | case1 values => cases text <;> simp [fill, placed]
  | case2 marks value values ih => cases text <;> simp [fill, placed, ih]
  | case3 mark marks values noValue ih =>
    cases text with
    | nil => cases mark <;> cases values <;> simp [fill, placed]
    | cons c text =>
      cases mark with
      | false => simp [fill, placed, ih]
      | true =>
        cases values with
        | nil => simp [fill, placed, ← ih]
        | cons value values => exact (noValue value values rfl rfl).elim

theorem placed_none (text : List Char) :
    placed render (List.replicate text.length none) text = text := by
  induction text with
  | nil => rfl
  | cons c text ih => simpa [List.replicate_succ, placed] using ih

theorem placed_append {a b : List (Option Binding)} {text more : List Char}
    (lengths : a.length = text.length) :
    placed render (a ++ b) (text ++ more) = placed render a text ++ placed render b more := by
  induction a generalizing text with
  | nil =>
    obtain rfl := List.eq_nil_of_length_eq_zero lengths.symm
    rfl
  | cons place a ih =>
    cases text with
    | nil => simp at lengths
    | cons c text =>
      have rest := ih (by simpa using lengths)
      cases place <;> simp [placed, rest]

/-- Whatever stands for a value is a question mark. -/
def Marked (places : List (Option Binding)) (text : List Char) : Prop :=
  List.Forall₂ (fun place c => place.isSome = true → c = '?') places text

theorem marks_marked (inLiteral : Bool) (text : List Char) :
    List.Forall₂ (fun mark c => mark = true → c = '?') (marks inLiteral text) text := by
  have alone (c : Char) (l : Bool) : isMark l c = true → c = '?' := by
    simp +contextual [isMark]
  fun_induction marks inLiteral text with
  | case1 => exact .nil
  | case2 inLiteral c => exact .cons (alone c inLiteral) .nil
  | case3 inLiteral c d rest pair ih => exact .cons (by simp) (.cons (by simp) ih)
  | case4 inLiteral c d rest pair ih => exact .cons (alone c inLiteral) ih

theorem marked_deal {marks : List Bool} {text : List Char}
    (h : List.Forall₂ (fun mark c => mark = true → c = '?') marks text) (values : List Binding) :
    Marked (deal marks values) text := by
  induction h generalizing values with
  | nil => exact .nil
  | @cons mark c marks text own _ ih =>
    cases mark with
    | false =>
      have skipped : deal (false :: marks) values = none :: deal marks values := by simp [deal]
      rw [skipped]
      exact .cons (by simp) (ih values)
    | true =>
      cases values with
      | nil => exact .cons (by simp) (ih [])
      | cons value values => exact .cons (fun _ => own rfl) (ih values)

theorem Sql.marked_emitted (sql : Sql) : Marked sql.emitted sql.text.toList := by
  have one (p : Piece) : Marked p.emitted p.text.toList := by
    cases p with
    | plain s =>
      have nothing (text : List Char) : Marked (List.replicate text.length none) text := by
        induction text with
        | nil => exact .nil
        | cons c text ih => exact .cons nofun ih
      exact nothing s.toList
    | slot value =>
      have mark : (Piece.slot value).text.toList = ['?'] := by simp [Piece.text]
      rw [mark]
      exact List.Forall₂.cons (fun _ => rfl) List.Forall₂.nil
    | fragment sql bindings => exact marked_deal (marks_marked false _) bindings
  obtain ⟨pieces⟩ := sql
  induction pieces with
  | nil => exact .nil
  | cons p pieces ih =>
    rw [emitted_cons, text_cons, String.toList_append]
    exact List.rel_append (one p) ih

theorem filterMap_deal (marks : List Bool) (values : List Binding) :
    (deal marks values).filterMap id <+: values := by
  fun_induction deal marks values with
  | case1 => simp
  | case2 marks value values ih => simpa using ih
  | case3 mark marks values noValue ih => simpa using ih

/-- A text that opens with anything but a question mark. -/
def Opens (text : List Char) : Prop :=
  text.head?.any (· ≠ '?') = true

instance (text : List Char) : Decidable (Opens text) :=
  inferInstanceAs (Decidable (_ = true))

theorem opens_iff {text : List Char} : Opens text ↔ ∃ c rest, text = c :: rest ∧ c ≠ '?' := by
  cases text <;> simp [Opens]

/-- The same values in the same order give two texts if they stand at different characters. -/
theorem placed_injective (opens : ∀ value, Opens (render value).toList)
    {places others : List (Option Binding)} {text : List Char} {values : List Binding}
    (hp : Marked places text) (ho : Marked others text)
    (own : places.filterMap id <+: values) (other : others.filterMap id <+: values)
    (same : placed render places text = placed render others text) : places = others := by
  induction hp generalizing others values with
  | nil =>
    cases ho
    rfl
  | @cons place c places text mark _ ih =>
    cases ho with
    | @cons otherPlace _ others _ otherMark ho =>
      cases place with
      | none =>
        cases otherPlace with
        | none =>
          have rest := ih ho own other (by simpa [placed] using same)
          rw [rest]
        | some value =>
          obtain rfl := otherMark rfl
          obtain ⟨first, rest, opening, apart⟩ := opens_iff.mp (opens value)
          simp [placed, opening, Ne.symm apart] at same
      | some value =>
        cases otherPlace with
        | none =>
          obtain rfl := mark rfl
          obtain ⟨first, rest, opening, apart⟩ := opens_iff.mp (opens value)
          simp [placed, opening, apart] at same
        | some otherValue =>
          obtain ⟨values, rfl, ownRest⟩ := List.cons_prefix_iff.mp own
          obtain ⟨rfl, otherRest⟩ := List.cons_prefix_cons.mp other
          rw [ih ho ownRest otherRest (List.append_cancel_left same)]

/-! ### Statements with their values -/

namespace Engine

variable {e : Engine}

theorem toList_inline (sql : String) (values : List Binding) :
    (e.inline sql values).toList
      = placed e.escape (deal (marks false sql.toList) values) sql.toList := by
  rw [inline, String.toList_ofList, positional_eq_fill, fill_eq_placed]

theorem toList_inlined (sql : Sql) :
    (sql.inlined e).toList = placed e.escape sql.emitted sql.text.toList := by
  obtain ⟨pieces⟩ := sql
  induction pieces with
  | nil => rfl
  | cons p pieces ih =>
    have lengths : p.emitted.length = p.text.toList.length := p.length_emitted
    rw [Sql.emitted_cons, Sql.text_cons, String.toList_append, placed_append lengths, ← ih]
    simp only [Sql.inlined, List.foldr_cons, String.toList_append]
    refine congrArg (· ++ _) ?_
    cases p with
    | plain s => exact (placed_none s.toList).symm
    | slot value => simp [Piece.emitted, Piece.text, placed]
    | fragment s bindings => exact toList_inline s bindings

theorem opens_escape (value : Binding) : Opens (e.escape value).toList := by
  have quoted (s : String) : Opens (quoteText s).toList := by
    unfold quoteText
    split
    · decide
    · rw [String.toList_ofList]
      rfl
  induction value with
  | typed value wire ih => exact ih
  | null =>
    show Opens "null".toList
    decide
  | bool b =>
    show Opens (if b then "1" else "0").toList
    revert b
    decide
  | bytes octets =>
    unfold escape escapeOctets
    cases e.dialect <;> simp [Opens]
  | json document => cases document <;> exact quoted _
  | int n => exact quoted _
  | float x => exact quoted _
  | text s => exact quoted _
  | date d => exact quoted _
  | time t => exact quoted _
  | dateTime d => exact quoted _

theorem rawSql_of_select {q : Query} {sql : Sql} (ok : (q.compiled e).select = .ok sql) :
    e.rawSql q = .ok (e.inline sql.text q.bindings) := by
  rw [rawSql, select, ok]
  rfl

/-- The raw statement is the compiled one with each value at its own placeholder exactly if a scan
of the text deals the values to the characters that were emitted for them. -/
theorem inline_eq_inlined_iff {sql : Sql} {values : List Binding}
    (emitted : sql.emitted.filterMap id = values) :
    e.inline sql.text values = sql.inlined e ↔
      deal (marks false sql.text.toList) values = sql.emitted := by
  rw [← String.toList_inj, toList_inline, toList_inlined]
  constructor
  · intro same
    have scanned := marked_deal (marks_marked false sql.text.toList) values
    have own := filterMap_deal (marks false sql.text.toList) values
    exact placed_injective opens_escape scanned sql.marked_emitted own
      (emitted ▸ List.prefix_refl _) same
  · intro same
    rw [same]

theorem deal_isSome (places : List (Option Binding)) :
    deal (places.map Option.isSome) (places.filterMap id) = places := by
  induction places with
  | nil => rfl
  | cons place places ih =>
    cases place with
    | none => simpa [deal] using ih
    | some value => simpa [deal] using ih

/-- In a hygienic query a scan finds every placeholder that was emitted, and no other. -/
theorem deal_of_binds {sql : Sql} {values : List Binding} (h : sql.Binds values) :
    deal (marks false sql.text.toList) values = sql.emitted := by
  rw [h.aligned.marks_eq, ← h.bindings_eq, ← h.aligned.values_eq]
  exact deal_isSome sql.emitted

/-- Whatever the names in a query are, the values that it binds belong to the placeholders that
were emitted, one to each and in their order. The raw statement has each of them at its own place
exactly if a scan of the text deals them out like that, and it does if all names are clean. -/
theorem rawSql_eq_inlined_iff {q : Query} (h : q.Counted) {sql : Sql}
    (ok : (q.compiled e).select = .ok sql) :
    sql.emitted.filterMap id = q.bindings ∧
      (e.rawSql q = .ok (sql.inlined e) ↔
        deal (marks false sql.text.toList) q.bindings = sql.emitted) ∧
      (Clean e.settings.tablePrefix.toList → q.Hygienic → e.rawSql q = .ok (sql.inlined e)) := by
  have carried := (carried_of_counted (e := e) h).select sql ok
  have emitted : sql.emitted.filterMap id = q.bindings :=
    (Sql.emitted_values carried.whole).trans carried.bindings_eq
  have places := inline_eq_inlined_iff (e := e) emitted
  rw [rawSql_of_select ok, Except.ok.injEq]
  refine ⟨emitted, places, fun he hq => places.mpr ?_⟩
  exact deal_of_binds ((parity_of_hygienic he hq).select sql ok)

end Engine

/-- An order by a column with a question mark in its name, behind all placeholders. -/
def questionedOrder : Query := .mk
  { source := some (.name "t")
    wheres := [{ predicate := .basic (.name "a") "=" (.value (.int 1)) }]
    orders := [.byColumn (.name "why?") .asc] }

theorem counted_questionedOrder : questionedOrder.Counted := by
  refine .mk ?_ (by simp [Clauses.queries, Term.queries, Where.queries, Predicate.queries,
    Order.queries])
  constructor <;> simp [Term.Counted, Predicate.Counted, Order.Counted]

/-- No value is left for the question mark in the name; a query with clean names has none. -/
theorem questionedOrder_placed :
    (∃ sql, (questionedOrder.compiled (.mk .generic {})).select = .ok sql ∧
      sql.emitted.filterMap id = questionedOrder.bindings ∧
      (Engine.mk .generic {}).rawSql questionedOrder = .ok (sql.inlined (.mk .generic {}))) ∧
    ∃ sql, (largeBuyers.compiled (.mk .mysql {})).select = .ok sql ∧
      (Engine.mk .mysql {}).rawSql largeBuyers = .ok (sql.inlined (.mk .mysql {})) := by
  obtain ⟨emitted, places, -⟩ :=
    Engine.rawSql_eq_inlined_iff (e := .mk .generic {}) counted_questionedOrder rfl
  obtain ⟨-, -, clean⟩ :=
    Engine.rawSql_eq_inlined_iff (e := .mk .mysql {}) hygienic_largeBuyers.counted rfl
  exact ⟨⟨_, rfl, emitted, places.mpr rfl⟩, _, rfl, clean (by decide) hygienic_largeBuyers⟩

/-- A table with a question mark in its name, before the placeholder of a condition. -/
def questionedTable : Query := .mk
  { source := some (.name "t?")
    wheres := [{ predicate := .basic (.name "a") "=" (.value (.int 1)) }] }

/-- The value stands in the name, and the placeholder is left over. -/
theorem questionedTable_misplaced : questionedTable.Counted ∧
    ∃ sql, (questionedTable.compiled (.mk .generic {})).select = .ok sql ∧
      sql.inlined (.mk .generic {}) = "select * from \"t?\" where \"a\" = '1'" ∧
      (Engine.mk .generic {}).rawSql questionedTable
        = .ok "select * from \"t'1'\" where \"a\" = ?" := by
  have counted : questionedTable.Counted := by
    refine .mk ?_ (by simp [Clauses.queries, Term.queries, Where.queries, Predicate.queries])
    constructor <;> simp [Term.Counted, Predicate.Counted]
  exact ⟨counted, _, rfl, by decide, by decide⟩

end SqlCompiler
