import SqlCompiler.Proofs.RestoredForm
import SqlCompiler.Proofs.WriteErasure
/-!
# Bound values that come back as SQL

Raw SQL is stored as an object with the member `raw`, and an object with such a member is read as
raw SQL before it is read as anything else. A bound document may be such an object. It is the only
value that leaves its placeholder: a stored query without one comes back with the same words.
-/

namespace SqlCompiler

/-- A bound document that is stored as raw SQL is: its one member `raw` is a text. -/
def Binding.StoredLikeRaw (b : Binding) (sql : String) : Prop :=
  ∃ members, b = .json (.obj members) ∧ Members.values "raw" members = [.str sql]

/-- A parameter that is bound and stays so, or is not bound. -/
def Param.StaysBound : Param → Prop
  | .value b => ∀ sql, ¬ b.StoredLikeRaw sql
  | .raw _ => True

theorem rawIn?_eq_some_iff {members : Members} {sql : String} :
    rawIn? members = some sql ↔ members.values "raw" = [.str sql] := by
  unfold rawIn? Members.required
  split
  · next value found =>
    rw [found]
    cases value <;> simp [Json.str?]
  · next other =>
    constructor
    · intro impossible
      cases impossible
    · intro found
      exact absurd found (other _)

theorem Binding.rawIn?_stored_iff {b : Binding} {sql : String} :
    b.stored.members?.bind rawIn? = some sql ↔ b.StoredLikeRaw sql := by
  unfold StoredLikeRaw
  cases b with
  | json document =>
    cases document with
    | obj members =>
      show rawIn? members = some sql ↔ _
      simp [rawIn?_eq_some_iff]
    | _ => simp [stored, Json.members?]
  | typed value wire =>
    -- Neither of its two members is the one that is looked for.
    simp [stored, Json.members?, rawIn?, Members.required, Members.values]
  | _ => simp [stored, Json.members?]

/-- A bound value is read as raw SQL exactly if it is stored like it. -/
theorem Param.ofStored_eq_raw_iff {b : Binding} {sql : String} :
    Param.ofStored (Param.value b).stored = .raw sql ↔ b.StoredLikeRaw sql := by
  rw [← Binding.rawIn?_stored_iff]
  unfold ofStored stored
  split
  · next other found => simp [found]
  · next none => simp [none]

/-- The words of a parameter stay the same exactly if it stays bound where it was. -/
theorem Param.erase_restored_iff {p : Param} : p.restored.erase = p.erase ↔ p.StaysBound := by
  cases p with
  | raw sql =>
    have read : (raw sql).restored = raw sql := by
      simp [restored, stored, ofStored, Json.members?, rawIn?, Members.required, Members.values,
        Json.str?]
    simp [read, StaysBound]
  | value b =>
    simp only [StaysBound, ← ofStored_eq_raw_iff, restored]
    cases ofStored (value b).stored <;> simp [erase]

/-! ### Words -/

/-- The parameters of a predicate, those in nested queries apart. -/
def Predicate.params {Q : Type} : Predicate Q → List Param
  | .basic _ _ value | .bitwise _ _ value | .datePart _ _ _ value | .jsonLength _ _ value
  | .fulltext _ value _ => [value]
  | .among _ values | .rowValues _ _ values => values
  | .between _ low high => [low, high]
  | .raw _ _ | .expression _ | .amongIntegers _ _ | .null _ | .betweenColumns _ _ _
  | .compareColumns _ _ _ | .nested _ | .sub _ _ _ | .hasRows _ | .jsonBoolean _ _ _
  | .jsonContains _ _ | .jsonContainsKey _ => []

def GroupPredicate.params {Q : Type} : GroupPredicate Q → List Param
  | .basic _ _ value | .bitwise _ _ value => [value]
  | .between _ low high => [low, high]
  | .raw _ _ | .expression _ | .null _ | .nested _ => []

/-- No bound value of some clauses leaves its placeholder when they are stored. -/
structure Clauses.StayBound (c : Clauses Query) : Prop where
  wheres : ∀ w ∈ c.wheres, ∀ p ∈ w.predicate.params, p.StaysBound
  havings : ∀ w ∈ c.havings, ∀ p ∈ w.predicate.params, p.StaysBound

section Words

variable {A C : Type} {f : Query → A} {g : A → C} {h : Query → C}

theorem Term.words_restored_iff {t : Term Query} :
    ((t.map f).restored.map g).erase = (t.map h).erase ↔ ∀ q ∈ t.queries, g (f q) = h q := by
  cases t <;> simp [map, restored, erase, queries]

theorem Term.words_restored_list {ts : List (Term Query)} :
    (((ts.map (Term.map f)).map restored).map (Term.map g)).map erase
      = (ts.map (Term.map h)).map erase ↔ ∀ q ∈ ts.flatMap queries, g (f q) = h q := by
  simp only [List.map_map, List.map_inj_left, Function.comp_apply, words_restored_iff,
    List.mem_flatMap, forall_exists_index, and_imp]
  constructor
  · intro same q t member inside
    exact same t member q inside
  · intro same t member q inside
    exact same q t member inside

theorem Param.words_restored_list {ps : List Param} :
    (ps.map restored).map erase = ps.map erase ↔ ∀ p ∈ ps, p.StaysBound := by
  simp only [List.map_map, List.map_inj_left, Function.comp_apply, erase_restored_iff]

theorem Predicate.words_restored_iff {p : Predicate Query} :
    ((p.map f).restored.map g).erase = (p.map h).erase ↔
      (∀ q ∈ p.queries, g (f q) = h q) ∧ ∀ v ∈ p.params, v.StaysBound := by
  cases p with
  | rowValues columns operator values =>
    simp only [map, restored, erase, params, queries, rowValues.injEq, true_and,
      Term.words_restored_list, Param.words_restored_list]
  | fulltext columns value options =>
    simp only [map, restored, erase, params, queries, fulltext.injEq, and_true,
      Term.words_restored_list, Param.erase_restored_iff, List.forall_mem_singleton]
  | among column values =>
    simp only [map, restored, erase, params, queries, among.injEq, Term.words_restored_iff,
      Param.words_restored_list]
  | betweenColumns | compareColumns | sub =>
    simp [map, restored, erase, params, queries, Term.words_restored_iff, or_imp, forall_and]
  | basic | bitwise | datePart | between | amongIntegers | null | nested | hasRows | jsonLength =>
    simp [map, restored, erase, params, queries, Term.words_restored_iff, Param.erase_restored_iff]
  | raw | expression | jsonBoolean | jsonContains | jsonContainsKey =>
    simp [map, restored, erase, params, queries]

theorem GroupPredicate.words_restored_iff {p : GroupPredicate Query} :
    ((p.map f).restored.map g).erase = (p.map h).erase ↔
      (∀ q ∈ p.queries, g (f q) = h q) ∧ ∀ v ∈ p.params, v.StaysBound := by
  cases p <;>
    simp [map, restored, erase, params, queries, Term.words_restored_iff, Param.erase_restored_iff]

theorem Join.words_restored_iff {j : Join Query} :
    ((j.map f).restored.map g).erase = (j.map h).erase ↔ ∀ q ∈ j.queries, g (f q) = h q := by
  simp [map, restored, erase, queries, Term.words_restored_iff, or_imp, forall_and]

theorem Order.words_restored_iff {o : Order Query} :
    ((o.map f).restored.map g).erase = (o.map h).erase ↔ ∀ q ∈ o.queries, g (f q) = h q := by
  cases o <;> simp [map, restored, erase, queries, Term.words_restored_iff]

theorem Cte.words_restored_iff {c : Cte Query} :
    ((c.map f).restored.map g).erase = (c.map h).erase ↔ ∀ q ∈ c.queries, g (f q) = h q := by
  obtain ⟨name, columns, recursive, materialized, body, cycle⟩ := c
  cases body <;>
    simp [map, restored, erase, queries, CteBody.map, CteBody.restored, CteBody.erase]

theorem Where.words_restored_iff {w : Where Query} :
    ((w.map f).restored.map g).erase = (w.map h).erase ↔
      (∀ q ∈ w.queries, g (f q) = h q) ∧ ∀ v ∈ w.predicate.params, v.StaysBound := by
  simp [map, restored, erase, queries, Predicate.words_restored_iff]

theorem Having.words_restored_iff {w : Having Query} :
    ((w.map f).restored.map g).erase = (w.map h).erase ↔
      (∀ q ∈ w.queries, g (f q) = h q) ∧ ∀ v ∈ w.predicate.params, v.StaysBound := by
  simp [map, restored, erase, queries, GroupPredicate.words_restored_iff]

theorem Aggregate.words_restored_iff {a : Aggregate Query} :
    ((a.map f).restored.map g).erase = (a.map h).erase ↔ ∀ q ∈ a.queries, g (f q) = h q := by
  simp only [map, restored, erase, queries, mk.injEq, true_and, Term.words_restored_list]

section Items

variable {α X Y : Type} {made : α → X} {restored : X → X} {after : X → Y} {erase : Y → Y}
  {other : α → Y}

/-- The items of two lists are the same if they are one by one. -/
theorem same_items_iff {items : List α} :
    (((items.map made).map restored).map after).map erase = (items.map other).map erase ↔
      ∀ a ∈ items, erase (after (restored (made a))) = erase (other a) := by
  simp only [List.map_map, List.map_inj_left, Function.comp_apply]

theorem same_item?_iff {item? : Option α} :
    (((item?.map made).map restored).map after).map erase = (item?.map other).map erase ↔
      ∀ a ∈ item?.toList, erase (after (restored (made a))) = erase (other a) := by
  cases item? <;> simp

end Items

theorem Clauses.words_restored_iff {c : Clauses Query} :
    ((c.map f).restored.map g).erase = (c.map h).erase ↔
      (∀ q ∈ c.queries, g (f q) = h q) ∧ c.StayBound := by
  have flat {α : Type} {parts : α → List Query} {items : List α} :
      (∀ q ∈ items.flatMap parts, g (f q) = h q) ↔
        ∀ a ∈ items, ∀ q ∈ parts a, g (f q) = h q := by
    simp only [List.mem_flatMap, forall_exists_index, and_imp]
    exact ⟨fun same a member q inside => same q a member inside,
      fun same q a member inside => same a member q inside⟩
  have unions : ((c.unions.map (UnionMember.map f)).map (UnionMember.map g)
      = c.unions.map (UnionMember.map h)) ↔ ∀ u ∈ c.unions, g (f u.query) = h u.query := by
    simp [List.map_inj_left, UnionMember.map]
  have columns : ((((c.columns.map (List.map (Term.map f))).map (List.map Term.restored)).map
      (List.map (Term.map g))).map (List.map Term.erase)
        = (c.columns.map (List.map (Term.map h))).map (List.map Term.erase)) ↔
      ∀ ts ∈ c.columns.toList, ∀ q ∈ ts.flatMap Term.queries, g (f q) = h q := by
    rw [same_item?_iff]
    simp only [Term.words_restored_list]
  simp only [map, restored, erase, mk.injEq, true_and, and_true, same_item?_iff, columns, unions,
    same_items_iff, Term.words_restored_iff, Join.words_restored_iff, Where.words_restored_iff,
    Having.words_restored_iff, Order.words_restored_iff, Cte.words_restored_iff,
    Aggregate.words_restored_iff, queries, List.forall_mem_append, List.forall_mem_map, flat,
    imp_and, forall_and]
  constructor
  · rintro ⟨a, ts, s, j, ⟨w, wheres⟩, gs, ⟨hs, havings⟩, o, u, uo, t, ut⟩
    exact ⟨⟨⟨⟨⟨⟨⟨⟨⟨⟨⟨⟨a, ts⟩, s⟩, j⟩, w⟩, gs⟩, hs⟩, o⟩, u⟩, uo⟩, t⟩, ut⟩, ⟨wheres, havings⟩⟩
  · rintro ⟨⟨⟨⟨⟨⟨⟨⟨⟨⟨⟨⟨a, ts⟩, s⟩, j⟩, w⟩, gs⟩, hs⟩, o⟩, u⟩, uo⟩, t⟩, ut⟩, ⟨wheres, havings⟩⟩
    exact ⟨a, ts, s, j, ⟨w, wheres⟩, gs, ⟨hs, havings⟩, o, u, uo, t, ut⟩

end Words

namespace Query

theorem everywhere_mk {P : Clauses Query → Prop} {c : Clauses Query} :
    (mk c).Everywhere P ↔ P c ∧ ∀ q ∈ c.queries, q.Everywhere P := by
  constructor
  · rintro ⟨own, inside⟩
    exact ⟨own, inside⟩
  · rintro ⟨own, inside⟩
    exact .mk own inside

/-- A query that was stored has its words again exactly if no bound value is stored like raw SQL,
in it or in any query inside it. -/
theorem erase_restored_iff {q : Query} :
    q.restored.erase = q.erase ↔ q.Everywhere Clauses.StayBound := by
  induction q using Query.induct with
  | step c ih =>
    rw [restored_mk, erase_mk, erase_mk, mk.injEq, Clauses.words_restored_iff, everywhere_mk,
      and_comm]
    refine and_congr_right fun own => ?_
    exact forall₂_congr ih

end Query

/-- Two queries without the same values compile to the same words. -/
theorem Query.sameWords_of_erase {q r : Query} (same : r.erase = q.erase) (e : Engine) :
    SameWords (r.compiled e).select (q.compiled e).select ∧
    SameWords (e.existsSql (r.compiledClauses e)) (e.existsSql (q.compiledClauses e)) ∧
    SameWords (e.deleteSql (r.compiledClauses e)) (e.deleteSql (q.compiledClauses e)) := by
  have compiled : (r.compiled e).erase = (q.compiled e).erase := by
    rw [← compiled_erase, ← compiled_erase, same]
  have clauses : ((r.compiledClauses e).map Compiled.erase).erase
      = ((q.compiledClauses e).map Compiled.erase).erase := by
    rw [← compiledClauses_erase, ← compiledClauses_erase, same]
  refine ⟨?_, ?_, ?_⟩
  · exact sameWords_of_erased rfl (congrArg Compiled.select compiled)
  · exact sameWords_of_erased (Engine.existsSql_erase e _) (clauses ▸ Engine.existsSql_erase e _)
  · exact sameWords_of_erased (Engine.deleteSql_erase e _) (clauses ▸ Engine.deleteSql_erase e _)

/-- A bound value comes back as raw SQL exactly if it is a document that is stored like it. A query
that is stored comes back with its own words exactly if it binds no such document anywhere; every
statement made of it alone is then the same. -/
theorem restored_staysBound_iff {q : Query} (sized : q.Everywhere Clauses.Sized) :
    (∀ (b : Binding) (sql : String),
      Param.ofStored (Param.value b).stored = .raw sql ↔ b.StoredLikeRaw sql) ∧
    ∃ r, Query.ofStored? .direct q.stored = some r ∧
      (q.stored.Exact → Place.query.read? (Query.ofStored? .direct) q.stored.text = some r) ∧
      (r.erase = q.erase ↔ q.Everywhere Clauses.StayBound) ∧
      (q.Everywhere Clauses.StayBound → ∀ e : Engine,
        SameWords (r.compiled e).select (q.compiled e).select ∧
        SameWords (e.existsSql (r.compiledClauses e)) (e.existsSql (q.compiledClauses e)) ∧
        SameWords (e.deleteSql (r.compiledClauses e)) (e.deleteSql (q.compiledClauses e))) := by
  have words := Query.erase_restored_iff (q := q)
  refine ⟨?_, q.restored, Query.ofStored?_stored sized .direct, ?_, words, ?_⟩
  · intro b sql
    exact Param.ofStored_eq_raw_iff
  · intro exact
    exact Query.read?_stored sized exact .direct
  · intro bound e
    exact Query.sameWords_of_erase (words.mpr bound) e

/-- The events with a payload. -/
def eventsWith (payload : Binding) : Query := .mk
  { source := some (.name "events")
    wheres := [{ predicate := .basic (.name "payload") "=" (.value payload) }] }

/-- The document that raw SQL, a call of `now()`, is stored as. -/
def rawPayload : Json :=
  .obj [("raw", .str "now()")]

/-- What holds of the clauses of `eventsWith` holds everywhere in it. -/
theorem everywhere_eventsWith {P : Clauses Query → Prop} {payload : Binding}
    (h : P (eventsWith payload).clauses) : (eventsWith payload).Everywhere P :=
  .mk h (by simp [Clauses.queries, Term.queries, Where.queries, Predicate.queries])

/-- With a type around it, the document stays bound. -/
theorem typedPayload_staysBound :
    ∃ r, Query.ofStored? .direct (eventsWith (.typed (.json rawPayload) .json)).stored = some r ∧
      Place.query.read? (Query.ofStored? .direct)
        (eventsWith (.typed (.json rawPayload) .json)).stored.text = some r ∧
      ∀ e : Engine, SameWords (r.compiled e).select
        ((eventsWith (.typed (.json rawPayload) .json)).compiled e).select := by
  have sized : (eventsWith (.typed (.json rawPayload) .json)).Everywhere Clauses.Sized := by
    apply everywhere_eventsWith
    constructor <;> simp [eventsWith, Query.clauses, Predicate.Sized]
  have bound : (eventsWith (.typed (.json rawPayload) .json)).Everywhere Clauses.StayBound := by
    apply everywhere_eventsWith
    constructor <;> simp [eventsWith, Query.clauses, Predicate.params, Param.StaysBound,
      Binding.StoredLikeRaw]
  have exact : (eventsWith (.typed (.json rawPayload) .json)).stored.Exact := by
    repeat constructor
  obtain ⟨-, r, read, text, -, words⟩ := restored_staysBound_iff sized
  exact ⟨r, read, text exact, fun e => (words bound e).1⟩

/-- Bare, it leaves its placeholder, and stands in the statement as SQL. -/
theorem rawPayload_leaves :
    Param.ofStored (Param.value (.json rawPayload)).stored = .raw "now()" ∧
    ((eventsWith (.json rawPayload)).compiled (.mk .generic {})).select.map Sql.text
      = .ok "select * from \"events\" where \"payload\" = ?" ∧
    ∃ r, Query.ofStored? .direct (eventsWith (.json rawPayload)).stored = some r ∧
      (r.compiled (.mk .generic {})).select.map Sql.text
        = .ok "select * from \"events\" where \"payload\" = now()" :=
  ⟨rfl, rfl, _, rfl, rfl⟩

end SqlCompiler
