import SqlCompiler.Engine.Select
import SqlCompiler.Proofs.Hygiene
import SqlCompiler.Proofs.Outcomes
/-!
# What conditions carry

A condition carries what its own list holds for it, in the same order. Names and operators are only
text here and may be anything: it is enough that a fragment has a placeholder for each of its
bindings, and that a clause has no bindings that it does not write.
-/

namespace SqlCompiler

/-- A raw fragment has a placeholder for each of its bindings. -/
def Fits (sql : String) (bindings : List Binding) : Prop :=
  (Piece.fragment sql bindings).Filled

def Term.Counted : Term Query → Prop
  | .raw sql bindings => Fits sql bindings
  | .name _ | .sub _ _ => True

def Predicate.Counted : Predicate Query → Prop
  | .basic column _ _ | .bitwise column _ _ | .datePart _ column _ _ | .null column
  | .between column _ _ | .sub column _ _ => column.Counted
  | .raw sql bindings => Fits sql bindings
  | .among column values => column.Counted ∧ (values = [] → column.Unbound)
  | .amongIntegers column values => column.Counted ∧ (values = [] → column.Unbound)
  | .betweenColumns column low high => column.Counted ∧ low.Counted ∧ high.Counted
  | .compareColumns first _ second => first.Counted ∧ second.Counted
  | .rowValues columns _ _ | .fulltext columns _ _ => ∀ column ∈ columns, column.Counted
  | .expression _ | .nested _ | .hasRows _ | .jsonBoolean _ _ _ | .jsonContains _ _
  | .jsonContainsKey _ | .jsonLength _ _ _ => True

def GroupPredicate.Counted : GroupPredicate Query → Prop
  | .basic column _ _ | .bitwise column _ _ | .between column _ _ | .null column => column.Counted
  | .raw sql bindings => Fits sql bindings
  | .expression _ | .nested _ => True

def Join.Counted (j : Join Query) : Prop :=
  j.table.Counted ∧ j.clause.IsJoinClause

def Order.Counted : Order Query → Prop
  | .byColumn column _ => column.Counted
  | .raw sql bindings => Fits sql bindings
  | .random _ => True

def CteBody.Counted : CteBody Query → Prop
  | .select _ => True
  | .raw sql bindings => Fits sql bindings

structure Clauses.Counted (c : Clauses Query) : Prop where
  aggregate : ∀ a ∈ c.aggregate, ∀ t ∈ a.columns, t.Counted
  columns : ∀ terms ∈ c.columns, ∀ t ∈ terms, t.Counted
  source : ∀ t ∈ c.source, t.Counted
  joins : ∀ j ∈ c.joins, j.Counted
  wheres : ∀ w ∈ c.wheres, w.predicate.Counted
  groups : ∀ t ∈ c.groups, t.Counted
  havings : ∀ h ∈ c.havings, h.predicate.Counted
  orders : ∀ o ∈ c.orders, o.Counted
  unionOrders : ∀ o ∈ c.unionOrders, o.Counted
  ordered : c.unions = [] → c.unionOrders = []
  ctes : ∀ t ∈ c.ctes, t.body.Counted
  unionCtes : ∀ t ∈ c.unionCtes, t.body.Counted

/-- A query whose clauses are counted, and so are those of all queries inside it. -/
def Query.Counted (q : Query) : Prop :=
  q.Everywhere Clauses.Counted

theorem fits_of_holds {sql : String} {bindings : List Binding}
    (h : Substitute.Holds bindings.length sql.toList) : Fits sql bindings :=
  (deal_full h.2).2

theorem Term.Hygienic.counted {t : Term Query} (h : t.Hygienic) : t.Counted := by
  cases t with
  | name | sub => trivial
  | raw sql bindings => exact fits_of_holds h

theorem Predicate.Hygienic.counted {p : Predicate Query} (h : p.Hygienic) : p.Counted := by
  cases p with
  | basic | bitwise | datePart | between | sub => exact h.1.counted
  | raw sql bindings => exact fits_of_holds h
  | among column values => exact ⟨h.1.counted, h.2.2⟩
  | amongIntegers column values => exact ⟨h.1.counted, h.2⟩
  | null column => exact Term.Hygienic.counted h
  | betweenColumns column low high => exact ⟨h.1.counted, h.2.1.counted, h.2.2.counted⟩
  | compareColumns first operator second => exact ⟨h.1.counted, h.2.2.counted⟩
  | rowValues | fulltext => exact fun column member => (h.1 column member).counted
  | expression | nested | hasRows | jsonBoolean | jsonContains | jsonContainsKey | jsonLength =>
    trivial

theorem GroupPredicate.Hygienic.counted {p : GroupPredicate Query} (h : p.Hygienic) :
    p.Counted := by
  cases p with
  | basic | bitwise | between => exact h.1.counted
  | null column => exact Term.Hygienic.counted h
  | raw sql bindings => exact fits_of_holds h
  | expression | nested => trivial

theorem Order.Hygienic.counted {o : Order Query} (h : o.Hygienic) : o.Counted := by
  cases o with
  | byColumn column direction => exact Term.Hygienic.counted h
  | raw sql bindings => exact fits_of_holds h
  | random => trivial

theorem CteBody.Hygienic.counted {b : CteBody Query} (h : b.Hygienic) : b.Counted := by
  cases b with
  | select => trivial
  | raw sql bindings => exact fits_of_holds h

theorem Clauses.Hygienic.counted {c : Clauses Query} (h : c.Hygienic) : c.Counted where
  aggregate a member t inside := ((h.aggregate a member).2 t inside).counted
  columns terms member t inside := (h.columns terms member t inside).counted
  source t member := (h.source t member).counted
  joins j member := ⟨(h.joins j member).1.counted, (h.joins j member).2⟩
  wheres w member := Predicate.Hygienic.counted (h.wheres w member)
  groups t member := (h.groups t member).counted
  havings w member := GroupPredicate.Hygienic.counted (h.havings w member)
  orders o member := (h.orders o member).counted
  unionOrders o member := (h.unionOrders o member).counted
  ordered := h.ordered
  ctes t member := (h.ctes t member).2.2.1.counted
  unionCtes t member := (h.unionCtes t member).2.2.1.counted

theorem Query.Hygienic.counted {q : Query} (h : q.Hygienic) : q.Counted := by
  induction h with
  | mk own inside ih => exact .mk own.counted ih

/-! ### Parts of conditions -/

theorem Sql.carries_ofFragment {sql : String} {values : List Binding} (h : Fits sql values) :
    Carries values (ofFragment sql values) :=
  ⟨List.forall_mem_singleton.mpr h, by simp [ofFragment, bindings, Piece.bindings]⟩

theorem carries_negate {negated : Bool} {values : List Binding} {sql : Sql}
    (h : Sql.Carries values sql) : Sql.Carries values (negate negated sql) := by
  cases negated with
  | false => exact h
  | true => exact (h.behind "not (").before ")"

/-- The parts of a compiled query carry what its lists hold for them. -/
structure Compiled.Carries (k : Compiled) (lists : BindingLists) : Prop where
  select : Yields (Sql.Carries lists.flatten) k.select
  joins : CarriesAll k.joins lists.join
  wheres : CarriesAll (k.wheres.map Prod.snd) lists.wheres
  havings : CarriesAll (k.havings.map Prod.snd) lists.havings

/-- The parts that a query compiles to carry the lists of the query. -/
def Query.Carried (e : Engine) (q : Query) : Prop :=
  (q.compiled e).Carries q.bindingLists

namespace Engine

variable {e : Engine}

theorem column_carries {t : Term Query} (ht : t.Counted) (ih : ∀ q ∈ t.queries, q.Carried e) :
    Yields (Sql.Carries (t.map Query.bindingLists).bindings)
      (e.column (t.map (Query.compiled e))) := by
  cases t with
  | name n => exact (yields_true _).map fun sql _ => Sql.carries_ofText sql
  | raw sql values => exact yields_ok.mpr (Sql.carries_ofFragment ht)
  | sub query aliasName =>
    have inner : query.Carried e := ih query List.mem_cons_self
    refine inner.select.bind fun select found => (yields_true _).bind fun name _ => ?_
    exact yields_pure.mpr ((found.parenthesized.before " as ").before name)

theorem table_carries {t : Term Query} (ht : t.Counted) (ih : ∀ q ∈ t.queries, q.Carried e) :
    Yields (Sql.Carries (t.map Query.bindingLists).bindings)
      (e.table (t.map (Query.compiled e))) := by
  cases t with
  | name n => exact yields_ok.mpr (Sql.carries_ofText _)
  | raw sql values => exact yields_ok.mpr (Sql.carries_ofFragment ht)
  | sub query aliasName =>
    have inner : query.Carried e := ih query List.mem_cons_self
    refine inner.select.bind fun select found => ?_
    exact yields_pure.mpr ((found.parenthesized.before " as ").before _)

theorem columnList_carries {terms : List (Term Query)} (h : ∀ t ∈ terms, t.Counted)
    (ih : ∀ q ∈ terms.flatMap Term.queries, q.Carried e) :
    Yields (Sql.Carries ((terms.map (Term.map Query.bindingLists)).flatMap Term.bindings))
      (e.columnList (terms.map (Term.map (Query.compiled e)))) := by
  rw [columnList, List.map_map, List.flatMap_map]
  refine (carriesAll_map fun t member => ?_).joinOutcomes
  exact column_carries (h t member) fun q inside => ih q (List.mem_flatMap.mpr ⟨t, member, inside⟩)

theorem nameList_carries (names : List String) : Yields (Sql.Carries []) (e.nameList names) := by
  have each : CarriesAll (names.map fun name => e.column (.name name))
      (names.flatMap fun _ => []) :=
    carriesAll_map fun name _ => (yields_true _).map fun sql _ => Sql.carries_ofText sql
  rw [List.flatMap_eq_nil_iff.mpr fun _ _ => rfl] at each
  rw [nameList, columnList, List.map_map]
  exact each.joinOutcomes

section Tests

variable {column : Term Query} (hc : column.Counted) (ih : ∀ q ∈ column.queries, q.Carried e)
  (operator : String) (value : Param)
include hc ih

theorem nullTest_carries (negated : Bool) :
    Yields (Sql.Carries (column.map Query.bindingLists).bindings)
      (e.nullTest (column.map (Query.compiled e)) negated) := by
  have plain : Yields (Sql.Carries (column.map Query.bindingLists).bindings) (do
      let column ← e.column (column.map (Query.compiled e))
      return column ++ " " ++ nullKeyword negated) :=
    (column_carries hc ih).bind fun c found => yields_pure.mpr ((found.before " ").before _)
  unfold nullTest
  split
  · next name hd same =>
    obtain rfl : column = .name name := by cases column <;> simp_all [Term.map]
    split
    · exact yields_ok.mpr (Sql.carries_ofText _)
    · exact plain
  · exact plain

theorem comparison_carries :
    Yields (Sql.Carries ((column.map Query.bindingLists).bindings ++ boundValues [value]))
      (e.comparison (column.map (Query.compiled e)) operator value) := by
  have bound := Sql.carries_ofParam value
  refine (column_carries hc ih).bind fun c found => ?_
  split
  · exact yields_pure.mpr ((((found.before "::text ").before operator).before " ").append bound)
  · exact yields_pure.mpr (found.compared _ bound)

theorem havingBitwise_carries :
    Yields (Sql.Carries ((column.map Query.bindingLists).bindings ++ boundValues [value]))
      (e.havingBitwise (column.map (Query.compiled e)) operator value) := by
  refine (column_carries hc ih).bind fun c found => yields_pure.mpr ?_
  have compared := found.compared operator (Sql.carries_ofParam value)
  simpa only [Sql.append_assoc] using (compared.behind "(").before ") != 0"

theorem bitwise_carries :
    Yields (Sql.Carries ((column.map Query.bindingLists).bindings ++ boundValues [value]))
      (e.bitwise (column.map (Query.compiled e)) operator value) := by
  unfold bitwise
  split
  · refine (column_carries hc ih).bind fun c found => yields_pure.mpr ?_
    have compared := found.compared (escapeOperator operator) (Sql.carries_ofParam value)
    simpa only [Sql.append_assoc] using (compared.behind "(").before ")::bool"
  · exact havingBitwise_carries hc ih operator value
  all_goals exact comparison_carries hc ih operator value

theorem dateTest_carries (part : DatePart) :
    Yields (Sql.Carries ((column.map Query.bindingLists).bindings ++ boundValues [value]))
      (e.dateTest part (column.map (Query.compiled e)) operator value) := by
  have compared : Sql.Carries (boundValues [value])
      (if e.dialect = .sqlite then "cast(" ++ Sql.ofParam value ++ " as text)"
        else Sql.ofParam value) := by
    split
    · exact ((Sql.carries_ofParam value).behind "cast(").before " as text)"
    · exact Sql.carries_ofParam value
  refine (column_carries hc ih).bind fun c found => yields_pure.mpr ?_
  refine Sql.Carries.compared ?_ operator compared
  split
  all_goals exact ⟨by simp [found.whole], by simp [found.bindings_eq]⟩

theorem listTest_carries (negated : Bool) {values : List Binding} {list : Sql}
    (hl : Sql.Carries values list) :
    Yields (Sql.Carries ((column.map Query.bindingLists).bindings ++ values))
      (e.listTest (column.map (Query.compiled e)) negated list) :=
  (column_carries hc ih).bind fun _ found =>
    yields_pure.mpr (((found.before _).append hl).before ")")

theorem rangeTest_carries (negated : Bool) (low high : Param) :
    Yields (Sql.Carries ((column.map Query.bindingLists).bindings ++ boundValues [low, high]))
      (e.rangeTest (column.map (Query.compiled e)) negated low high) := by
  refine (column_carries hc ih).bind fun c found => yields_pure.mpr ?_
  have first := (found.before (betweenKeyword negated)).append (Sql.carries_ofParam low)
  rw [boundValues_cons low, ← List.append_assoc]
  exact (first.before " and ").append (Sql.carries_ofParam high)

end Tests

section Fulltext

variable {columns : List (Term Query)} (hc : ∀ t ∈ columns, t.Counted)
  (ih : ∀ q ∈ columns.flatMap Term.queries, q.Carried e) (value : Param)
include hc ih

theorem matchTest_carries (options : FulltextOptions) :
    Yields (Sql.Carries ((columns.map (Term.map Query.bindingLists)).flatMap Term.bindings
        ++ boundValues [value]))
      (e.matchTest (columns.map (Term.map (Query.compiled e))) value options) := by
  refine (columnList_carries hc ih).bind fun c found => yields_pure.mpr ?_
  exact ⟨by simp [found.whole], by simp [found.bindings_eq, bindings_ofParam]⟩

theorem vectorTest_carries (options : FulltextOptions) :
    Yields (Sql.Carries ((columns.map (Term.map Query.bindingLists)).flatMap Term.bindings
        ++ boundValues [value]))
      (e.vectorTest (columns.map (Term.map (Query.compiled e))) value options) := by
  unfold vectorTest
  extract_lets language function
  have words : Sql.Carries [] language := by
    unfold language
    split
    · split <;> exact Sql.carries_ofText _
    · exact Sql.carries_ofText _
  have call : Sql.Carries [] function := by
    unfold function
    split <;> exact Sql.carries_ofText _
  refine Yields.bind (P := Sql.Carries
    ((columns.map (Term.map Query.bindingLists)).flatMap Term.bindings)) ?_ fun vectors found => ?_
  · rw [List.map_map, List.flatMap_map]
    refine (carriesAll_map fun t member => ?_).joinOutcomes
    have own := column_carries (hc t member) fun q inside =>
      ih q (List.mem_flatMap.mpr ⟨t, member, inside⟩)
    exact own.map fun c found =>
      ⟨by simp [words.whole, found.whole], by simp [words.bindings_eq, found.bindings_eq]⟩
  · exact yields_pure.mpr ⟨by simp [words.whole, call.whole, found.whole],
      by simp [words.bindings_eq, call.bindings_eq, found.bindings_eq, bindings_ofParam]⟩

theorem fulltextTest_carries (options : FulltextOptions) :
    Yields (Sql.Carries ((columns.map (Term.map Query.bindingLists)).flatMap Term.bindings
        ++ boundValues [value]))
      (e.fulltextTest (columns.map (Term.map (Query.compiled e))) value options) := by
  unfold fulltextTest
  cases e.dialect with
  | mysql => exact matchTest_carries hc ih value options
  | postgres => exact vectorTest_carries hc ih value options
  | generic | sqlite | sqlserver => exact yields_error

end Fulltext

theorem jsonContainsTest_carries (selector : String) {values : List Binding} {document : Sql}
    (hd : Sql.Carries values document) :
    Yields (Sql.Carries values) (e.jsonContainsTest selector document) := by
  unfold jsonContainsTest
  cases e.dialect with
  | generic | sqlite => exact yields_error
  | mysql | sqlserver =>
    exact yields_ok.mpr ⟨by simp [hd.whole], by simp [hd.bindings_eq]⟩
  | postgres =>
    exact (yields_true _).bind fun selected _ =>
      yields_pure.mpr ⟨by simp [hd.whole], by simp [hd.bindings_eq]⟩

theorem jsonLengthTest_carries (selector operator : String) {values : List Binding} {length : Sql}
    (hl : Sql.Carries values length) :
    Yields (Sql.Carries values) (e.jsonLengthTest selector operator length) := by
  unfold jsonLengthTest
  have compared (text : String) : Yields (Sql.Carries values)
      (.ok (text ++ " " ++ operator ++ " " ++ length) : Outcome) :=
    yields_ok.mpr ((Sql.carries_ofText text).compared operator hl)
  cases e.dialect with
  | generic => exact yields_error
  | mysql | sqlite | sqlserver => exact compared _
  | postgres => exact (yields_true _).bind fun selected _ => compared _

theorem group_carries (flaw : Flaw) (negated : Bool) {members : List (Conjunction × Outcome)}
    {values : List Binding} (h : CarriesAll (members.map Prod.snd) values) :
    Yields (Sql.Carries values) (group flaw negated members) := by
  refine (carries_conditions h).bind fun sql found => ?_
  split
  · exact yields_error
  · exact yields_pure.mpr (found.parenthesized.behind _)

/-! ### Where and having -/

theorem emptyListTest_carries {column : Term Query} (hc : column.Unbound) (negated : Bool) :
    Sql.Carries (column.map Query.bindingLists).bindings (emptyListTest negated) := by
  rw [hc]
  cases negated <;> exact Sql.carries_ofText _

theorem whereTest_carries (negated : Bool) {p : Predicate Query} (hp : p.Counted)
    (ih : ∀ q ∈ p.queries, q.Carried e) :
    Yields (Sql.Carries (p.map Query.bindingLists).bindings)
      (e.whereTest negated (p.map (Query.compiled e))) := by
  cases p with
  | basic column operator value =>
    simp only [Predicate.map, whereTest]
    split
    · exact (bitwise_carries hp ih operator value).map fun _ found => carries_negate found
    · exact (comparison_carries hp ih operator value).map fun _ found => carries_negate found
  | raw sql values => exact yields_ok.mpr (carries_negate (Sql.carries_ofFragment hp))
  | expression sql => exact yields_ok.mpr (carries_negate (Sql.carries_ofText sql))
  | bitwise column operator value =>
    exact (bitwise_carries hp ih operator value).map fun _ found => carries_negate found
  | among column values =>
    obtain ⟨hc, empty⟩ := hp
    simp only [Predicate.map, whereTest, Predicate.bindings]
    split
    · next none =>
      obtain rfl := List.isEmpty_iff.mp none
      have nothing := emptyListTest_carries (empty rfl) negated
      exact yields_ok.mpr (by simpa [boundValues] using nothing)
    · exact listTest_carries hc ih negated (carries_paramList values)
  | amongIntegers column values =>
    obtain ⟨hc, empty⟩ := hp
    simp only [Predicate.map, whereTest, Predicate.bindings]
    split
    · next none =>
      exact yields_ok.mpr (emptyListTest_carries (empty (List.isEmpty_iff.mp none)) negated)
    · have list : Sql.Carries [] (Sql.join ", " (values.map fun n => Sql.ofText (intText n))) := by
        refine ⟨Sql.whole_join ?_, by simp [Sql.bindings_join, List.flatMap_map]⟩
        exact List.forall_mem_map.mpr fun n _ => Sql.whole_ofText _
      simpa using listTest_carries hc ih negated list
  | null column => exact nullTest_carries hp ih negated
  | between column low high => exact rangeTest_carries hp ih negated low high
  | betweenColumns column low high =>
    obtain ⟨hc, hl, hh⟩ := hp
    simp only [Predicate.queries, List.forall_mem_append] at ih
    refine (column_carries hc ih.1.1).bind fun c foundC => ?_
    refine (column_carries hl ih.1.2).bind fun l foundL => ?_
    refine (column_carries hh ih.2).bind fun h foundH => yields_pure.mpr ?_
    exact (((foundC.before _).append foundL).before " and ").append foundH
  | datePart part column operator value =>
    exact (dateTest_carries hp ih operator value part).map fun _ found => carries_negate found
  | compareColumns first operator second =>
    obtain ⟨hf, hs⟩ := hp
    simp only [Predicate.queries, List.forall_mem_append] at ih
    refine (column_carries hf ih.1).bind fun a foundA => ?_
    exact (column_carries hs ih.2).bind fun b foundB =>
      yields_pure.mpr (carries_negate (foundA.compared operator foundB))
  | nested query =>
    have inner : query.Carried e := ih query List.mem_cons_self
    exact group_carries .emptyWhereGroup negated inner.wheres
  | sub column operator query =>
    simp only [Predicate.queries, List.forall_mem_append, List.forall_mem_singleton] at ih
    refine (column_carries hp ih.1).bind fun c foundC => ?_
    exact ih.2.select.bind fun select found =>
      yields_pure.mpr (carries_negate (foundC.compared operator found.parenthesized))
  | hasRows query =>
    have inner : query.Carried e := ih query List.mem_cons_self
    exact inner.select.bind fun select found => yields_pure.mpr (found.parenthesized.behind _)
  | rowValues columns operator values =>
    simp only [Predicate.map, whereTest, Predicate.bindings]
    split
    · exact yields_error
    · refine (columnList_carries hp ih).bind fun c found => yields_pure.mpr (carries_negate ?_)
      exact found.parenthesized.compared operator (carries_paramList values).parenthesized
  | jsonBoolean column operator value =>
    have test := (yields_true (e.jsonBooleanTest column operator value)).bind fun sql _ =>
      yields_pure.mpr (Sql.carries_ofText sql)
    exact test.map fun _ found => carries_negate found
  | jsonContains column document =>
    have bound := Sql.carries_ofParam (.value (.text document.text))
    exact (jsonContainsTest_carries column bound).map fun sql found => found.behind _
  | jsonContainsKey column => exact (yields_true _).map fun sql _ => Sql.carries_ofText _
  | jsonLength column operator value =>
    exact (jsonLengthTest_carries column operator (Sql.carries_ofParam value)).map
      fun _ found => carries_negate found
  | fulltext columns value options =>
    exact (fulltextTest_carries hp ih value options).map fun _ found => carries_negate found

theorem havingTest_carries (negated : Bool) {p : GroupPredicate Query} (hp : p.Counted)
    (ih : ∀ q ∈ p.queries, q.Carried e) :
    Yields (Sql.Carries (p.map Query.bindingLists).bindings)
      (e.havingTest negated (p.map (Query.compiled e))) := by
  cases p with
  | basic column operator value =>
    simp only [GroupPredicate.map, havingTest]
    split
    · exact (havingBitwise_carries hp ih operator value).map fun _ found => carries_negate found
    · exact (column_carries hp ih).bind fun c found =>
        yields_pure.mpr (carries_negate (found.compared operator (Sql.carries_ofParam value)))
  | raw sql values => exact yields_ok.mpr (carries_negate (Sql.carries_ofFragment hp))
  | expression sql => exact yields_ok.mpr (carries_negate (Sql.carries_ofText sql))
  | between column low high => exact rangeTest_carries hp ih negated low high
  | null column =>
    exact (column_carries hp ih).bind fun c found => yields_pure.mpr ((found.before " ").before _)
  | nested query =>
    have inner : query.Carried e := ih query List.mem_cons_self
    exact group_carries .emptyHavingGroup negated inner.havings
  | bitwise column operator value =>
    exact (havingBitwise_carries hp ih operator value).map fun _ found => carries_negate found

end Engine

end SqlCompiler
