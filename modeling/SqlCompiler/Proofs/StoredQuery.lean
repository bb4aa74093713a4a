import SqlCompiler.Proofs.StoredForm
/-!
# Stored queries are read back

The stored form of a query holds those of the queries inside it, one level down or more, so that a
reader that goes as deep as the form is nested reads all of them.
-/

namespace SqlCompiler

namespace Json

theorem depth_le_items {j : Json} {items : List Json} (h : j ∈ items) :
    j.depth ≤ itemsDepth items := by
  induction items with
  | nil => cases h
  | cons item items ih =>
    rw [itemsDepth]
    rcases List.mem_cons.mp h with rfl | h
    · omega
    · have := ih h
      omega

theorem depth_le_members {name : String} {j : Json} {members : Members}
    (h : (name, j) ∈ members) : j.depth ≤ membersDepth members := by
  induction members with
  | nil => cases h
  | cons member members ih =>
    obtain ⟨other, value⟩ := member
    rw [membersDepth]
    rcases List.mem_cons.mp h with same | h
    · cases same
      omega
    · have := ih h
      omega

variable {A B : Type} {n : Nat}

theorem depth_lt_list {f : B → Json} {g : A → B} {items : List A} {a : A} (h : a ∈ items)
    (inner : n < (f (g a)).depth) : n < (arr ((items.map g).map f)).depth := by
  have := depth_le_items (List.mem_map_of_mem (List.mem_map_of_mem h) :
    f (g a) ∈ (items.map g).map f)
  rw [depth]
  omega

theorem depth_lt_option {f : B → Json} {g : A → B} {a? : Option A} {a : A} (h : a ∈ a?)
    (inner : n < (f (g a)).depth) : n < (ofOption f (a?.map g)).depth := by
  obtain rfl : a? = some a := h
  exact inner

theorem depth_lt_obj (name : String) {j : Json} {members : Members} (h : (name, j) ∈ members)
    (inner : n < j.depth) : n < (obj members).depth := by
  have := depth_le_members h
  rw [depth]
  omega

end Json

section Depths

variable {q : Query}

theorem Term.depth_stored {t : Term Query} (h : q ∈ t.queries) :
    q.stored.depth < (t.map Query.stored).stored.depth := by
  cases t with
  | name | raw => cases h
  | sub query aliasName =>
    obtain rfl := List.mem_singleton.mp h
    simp only [Term.map, Term.stored, Json.depth, Json.membersDepth]
    omega

theorem depth_storedTerms {terms : List (Term Query)} (h : q ∈ terms.flatMap Term.queries) :
    q.stored.depth < (storedTerms (terms.map (Term.map Query.stored))).depth := by
  obtain ⟨t, member, inner⟩ := List.mem_flatMap.mp h
  exact Json.depth_lt_list member (Term.depth_stored inner)

theorem Predicate.depth_stored {p : Predicate Query} (h : q ∈ p.queries) :
    q.stored.depth ≤ Json.membersDepth (p.map Query.stored).stored.2 := by
  cases p with
  | raw | expression | jsonBoolean | jsonContains | jsonContainsKey | jsonLength => cases h
  | basic | bitwise | among | amongIntegers | null | between | datePart =>
    have := Term.depth_stored h
    simp only [Predicate.map, Predicate.stored, Json.membersDepth]
    omega
  | betweenColumns column low high =>
    simp only [queries, List.mem_append] at h
    rcases h with (h | h) | h <;> have := Term.depth_stored h <;>
      simp only [Predicate.map, Predicate.stored, Json.membersDepth] <;> omega
  | compareColumns first operator second =>
    simp only [queries, List.mem_append] at h
    rcases h with h | h <;> have := Term.depth_stored h <;>
      simp only [Predicate.map, Predicate.stored, Json.membersDepth] <;> omega
  | nested query | hasRows query =>
    obtain rfl := List.mem_singleton.mp h
    simp only [Predicate.map, Predicate.stored, Json.membersDepth]
    omega
  | sub column operator query =>
    simp only [queries, List.mem_append, List.mem_singleton] at h
    simp only [Predicate.map, Predicate.stored, Json.membersDepth]
    rcases h with h | rfl
    · have := Term.depth_stored h
      omega
    · omega
  | rowValues | fulltext =>
    have := depth_storedTerms h
    simp only [Predicate.map, Predicate.stored, Json.membersDepth]
    omega

theorem GroupPredicate.depth_stored {p : GroupPredicate Query} (h : q ∈ p.queries) :
    q.stored.depth ≤ Json.membersDepth (p.map Query.stored).stored.2 := by
  cases p with
  | raw | expression => cases h
  | basic | bitwise | null | between =>
    have := Term.depth_stored h
    simp only [GroupPredicate.map, GroupPredicate.stored, Json.membersDepth]
    omega
  | nested query =>
    obtain rfl := List.mem_singleton.mp h
    simp only [GroupPredicate.map, GroupPredicate.stored, Json.membersDepth]
    omega

theorem depth_storedCondition {n : Nat} {conjunction : Conjunction} {negated : Bool}
    {form : String × Members} (h : n ≤ Json.membersDepth form.2) :
    n < (storedCondition conjunction negated form).depth := by
  simp only [storedCondition, Json.depth, Json.membersDepth]
  omega

theorem Where.depth_stored {w : Where Query} (h : q ∈ w.queries) :
    q.stored.depth < (w.map Query.stored).stored.depth :=
  depth_storedCondition (Predicate.depth_stored h)

theorem Having.depth_stored {w : Having Query} (h : q ∈ w.queries) :
    q.stored.depth < (w.map Query.stored).stored.depth :=
  depth_storedCondition (GroupPredicate.depth_stored h)

theorem Join.depth_stored {j : Join Query} (h : q ∈ j.queries) :
    q.stored.depth < (j.map Query.stored).stored.depth := by
  simp only [queries, List.mem_append, List.mem_singleton] at h
  simp only [Join.map, Join.stored, Json.depth, Json.membersDepth]
  rcases h with h | rfl
  · have := Term.depth_stored h
    omega
  · omega

theorem Order.depth_stored {o : Order Query} (h : q ∈ o.queries) :
    q.stored.depth < (o.map Query.stored).stored.depth := by
  cases o with
  | raw | random => cases h
  | byColumn column direction =>
    have := Term.depth_stored h
    simp only [Order.map, Order.stored, Json.depth, Json.membersDepth]
    omega

theorem Aggregate.depth_stored {a : Aggregate Query} (h : q ∈ a.queries) :
    q.stored.depth < (a.map Query.stored).stored.depth := by
  have := depth_storedTerms h
  simp only [Aggregate.map, Aggregate.stored, Json.depth, Json.membersDepth]
  omega

theorem Cte.depth_stored {c : Cte Query} (h : q ∈ c.queries) :
    q.stored.depth < (c.map Query.stored).stored.depth := by
  obtain ⟨name, columns, recursive, materialized, body, cycle⟩ := c
  cases body with
  | raw => cases h
  | select query =>
    obtain rfl := List.mem_singleton.mp h
    simp only [Cte.map, Cte.stored, CteBody.map, CteBody.stored, Json.depth, Json.membersDepth]
    omega

/-- The queries inside some clauses are stored further down. -/
theorem Clauses.depth_stored {c : Clauses Query} (h : q ∈ c.queries) :
    q.stored.depth < (c.map Query.stored).stored.depth := by
  have items {A B : Type} (name : String) {f : B → Json} {g : A → B} {parts : A → List Query}
      {members : Members} {items : List A} (named : (name, .arr ((items.map g).map f)) ∈ members)
      (each : ∀ a, q ∈ parts a → q.stored.depth < (f (g a)).depth)
      (inside : q ∈ items.flatMap parts) : q.stored.depth < (Json.obj members).depth := by
    obtain ⟨a, member, inner⟩ := List.mem_flatMap.mp inside
    exact Json.depth_lt_obj name named (Json.depth_lt_list member (each a inner))
  have option {A B : Type} (name : String) {f : B → Json} {g : A → B} {parts : A → List Query}
      {members : Members} {a? : Option A} (named : (name, .ofOption f (a?.map g)) ∈ members)
      (each : ∀ a, q ∈ parts a → q.stored.depth < (f (g a)).depth)
      (inside : q ∈ a?.toList.flatMap parts) : q.stored.depth < (Json.obj members).depth := by
    obtain ⟨a, member, inner⟩ := List.mem_flatMap.mp inside
    exact Json.depth_lt_obj name named
      (Json.depth_lt_option (Option.mem_toList.mp member) (each a inner))
  simp only [queries, List.mem_append] at h
  rw [Clauses.stored]
  rcases h with ((((((((((h | h) | h) | h) | h) | h) | h) | h) | h) | h) | h) | h
  · exact option "aggregate" (by simp [map]) (fun a => Aggregate.depth_stored) h
  · exact option "columns" (by simp [map]) (fun ts => depth_storedTerms) h
  · exact option "from" (by simp [map]) (fun t => Term.depth_stored) h
  · exact items "joins" (by simp [map]) (fun j => Join.depth_stored) h
  · exact items "wheres" (by simp [map]) (fun w => Where.depth_stored) h
  · exact Json.depth_lt_obj "groups" (by simp [map]) (depth_storedTerms h)
  · exact items "havings" (by simp [map]) (fun w => Having.depth_stored) h
  · exact items "orders" (by simp [map]) (fun o => Order.depth_stored) h
  · obtain ⟨u, member, rfl⟩ := List.mem_map.mp h
    have inner : u.query.stored.depth < (u.map Query.stored).stored.depth := by
      simp only [UnionMember.map, UnionMember.stored, Json.depth, Json.membersDepth]
      omega
    exact Json.depth_lt_obj "unions" (by simp [map]) (Json.depth_lt_list member inner)
  · exact items "union_orders" (by simp [map]) (fun o => Order.depth_stored) h
  · exact items "expressions" (by simp [map]) (fun t => Cte.depth_stored) h
  · exact items "union_expressions" (by simp [map]) (fun t => Cte.depth_stored) h

end Depths

/-! ### The whole query -/

/-- A query whose stored form tells what it is, everywhere. -/
def Query.Storable (q : Query) : Prop :=
  q.Everywhere Clauses.Storable

theorem Query.keeps {q : Query} (h : q.Storable) {depth : Nat} (deep : q.stored.depth < depth)
    (reading : Reading) : Keeps .query (Query.ofStoredWithin? depth reading) q.stored q := by
  induction q using Query.induct generalizing depth reading with
  | step c ih =>
    obtain @⟨_, own, inside⟩ := h
    cases depth with
    | zero => exact absurd deep (Nat.not_lt_zero _)
    | succ depth =>
      have form : (Query.mk c).stored = (c.map Query.stored).stored :=
        Query.fold_mk Clauses.stored c
      have kept : ∀ q ∈ c.queries, q.Kept (Query.ofStoredWithin? depth) := by
        intro q member reading
        have := Clauses.depth_stored member
        rw [form] at deep
        exact ih q member (inside q member) (by omega) reading
      have clauses := keeps_clauses own (Clauses.within kept) .empty reading
      rw [form]
      refine ⟨clauses.toShown, ?_⟩
      rw [Query.ofStoredWithin?, clauses.read]
      rfl

/-- A query is read back from its stored form, and from the text of it. -/
theorem Query.read_stored {q : Query} (h : q.Storable) :
    Query.ofStored? .direct q.stored = some q ∧
      Place.query.read? (Query.ofStored? .direct) q.stored.text = some q := by
  have kept := Query.keeps h (Nat.lt_succ_self q.stored.depth) .direct
  have direct : Keeps .query (Query.ofStored? .direct) q.stored q := ⟨kept.toShown, kept.read⟩
  exact ⟨direct.read, direct.text⟩

def adults : Query := .mk
  { source := some (.name "users")
    wheres := [{ predicate := .basic (.name "age") ">" (.value (.typed (.int 17) .smallint)) }] }

/-- A query in the place of a table, one in a condition, and one that a join is made with. -/
def adultBuyers : Query := .mk
  { columns := some [.raw "? as kind" [.text "\"buyer\""], .name "u.id"]
    source := some (.sub adults "u")
    joins := [{ kind := .left, table := .name "orders as o", clause := adults }]
    wheres := [{ predicate := .jsonContains "o.tags" (.obj [("gift", .bool true), ("n", .int 2)]) },
      { conjunction := .or, negated := true, predicate := .nested adults }]
    limit := some 10
    ctes := [{ name := "recent", body := .raw "select ?" [.null] }] }

theorem storable_adults : adults.Storable := by
  refine .mk ?_ (by simp [Clauses.queries, Term.queries, Where.queries, Predicate.queries])
  constructor <;> simp [Term.Storable, Predicate.Storable, Param.Storable, Binding.Storable]
  decide

theorem adultBuyers_read :
    Query.ofStored? .direct adultBuyers.stored = some adultBuyers ∧
      Place.query.read? (Query.ofStored? .direct) adultBuyers.stored.text = some adultBuyers := by
  have inner : adults.Everywhere Clauses.Storable := storable_adults
  refine Query.read_stored (.mk ?_ ?_)
  · constructor <;> simp [Term.Storable, Predicate.Storable, Binding.Storable, CteBody.Storable]
    · exact ⟨⟨by decide, by decide⟩, rfl⟩
    · decide
  · simp [Clauses.queries, Term.queries, Where.queries, Predicate.queries, Join.queries,
      Cte.queries, inner]

end SqlCompiler
