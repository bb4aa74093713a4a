import SqlCompiler.Query.Fold
/-!
# Nested queries

The queries that stand directly inside a clause. A property of clauses holds everywhere in a query
if its own clauses have it and it holds everywhere in the queries nested in them; what is shown of
a query from the queries nested in it is true of every query (`Query.induct`).
-/

namespace SqlCompiler

def Term.queries : Term Query → List Query
  | .name _ | .raw _ _ => []
  | .sub query _ => [query]

def Predicate.queries : Predicate Query → List Query
  | .basic column _ _ | .bitwise column _ _ | .among column _ | .amongIntegers column _
  | .null column | .between column _ _ | .datePart _ column _ _ => column.queries
  | .raw _ _ | .expression _ | .jsonBoolean _ _ _ | .jsonContains _ _ | .jsonContainsKey _
  | .jsonLength _ _ _ => []
  | .betweenColumns column low high => column.queries ++ low.queries ++ high.queries
  | .compareColumns first _ second => first.queries ++ second.queries
  | .nested query | .hasRows query => [query]
  | .sub column _ query => column.queries ++ [query]
  | .rowValues columns _ _ | .fulltext columns _ _ => columns.flatMap Term.queries

def Where.queries (w : Where Query) : List Query :=
  w.predicate.queries

def GroupPredicate.queries : GroupPredicate Query → List Query
  | .basic column _ _ | .between column _ _ | .null column | .bitwise column _ _ => column.queries
  | .raw _ _ | .expression _ => []
  | .nested query => [query]

def Having.queries (h : Having Query) : List Query :=
  h.predicate.queries

def Join.queries (j : Join Query) : List Query :=
  j.table.queries ++ [j.clause]

def Order.queries : Order Query → List Query
  | .byColumn column _ => column.queries
  | .raw _ _ | .random _ => []

def Aggregate.queries (a : Aggregate Query) : List Query :=
  a.columns.flatMap Term.queries

def Cte.queries (c : Cte Query) : List Query :=
  match c.body with
  | .select query => [query]
  | .raw _ _ => []

/-- The queries that stand directly inside some clauses. -/
def Clauses.queries (c : Clauses Query) : List Query :=
  c.aggregate.toList.flatMap Aggregate.queries
    ++ c.columns.toList.flatMap (fun columns => columns.flatMap Term.queries)
    ++ c.source.toList.flatMap Term.queries
    ++ c.joins.flatMap Join.queries
    ++ c.wheres.flatMap Where.queries
    ++ c.groups.flatMap Term.queries
    ++ c.havings.flatMap Having.queries
    ++ c.orders.flatMap Order.queries
    ++ c.unions.map UnionMember.query
    ++ c.unionOrders.flatMap Order.queries
    ++ c.ctes.flatMap Cte.queries
    ++ c.unionCtes.flatMap Cte.queries

/-- A property of the clauses of a query and of all queries inside it. -/
inductive Query.Everywhere (P : Clauses Query → Prop) : Query → Prop
  | mk {c : Clauses Query} (own : P c) (inside : ∀ q ∈ c.queries, q.Everywhere P) :
      (Query.mk c).Everywhere P

/-- A property of the queries that stand directly inside some clauses, clause by clause. -/
structure Clauses.Within (P : Query → Prop) (c : Clauses Query) : Prop where
  aggregate : ∀ a ∈ c.aggregate, ∀ q ∈ a.queries, P q
  columns : ∀ terms ∈ c.columns, ∀ q ∈ terms.flatMap Term.queries, P q
  source : ∀ t ∈ c.source, ∀ q ∈ t.queries, P q
  joins : ∀ j ∈ c.joins, ∀ q ∈ j.queries, P q
  wheres : ∀ w ∈ c.wheres, ∀ q ∈ w.queries, P q
  groups : ∀ q ∈ c.groups.flatMap Term.queries, P q
  havings : ∀ h ∈ c.havings, ∀ q ∈ h.queries, P q
  orders : ∀ o ∈ c.orders, ∀ q ∈ o.queries, P q
  unions : ∀ u ∈ c.unions, P u.query
  unionOrders : ∀ o ∈ c.unionOrders, ∀ q ∈ o.queries, P q
  ctes : ∀ t ∈ c.ctes, ∀ q ∈ t.queries, P q
  unionCtes : ∀ t ∈ c.unionCtes, ∀ q ∈ t.queries, P q

theorem Clauses.within {P : Query → Prop} {c : Clauses Query} (h : ∀ q ∈ c.queries, P q) :
    c.Within P := by
  have flat {α : Type} {f : α → List Query} {items : List α}
      (all : ∀ q ∈ items.flatMap f, P q) : ∀ item ∈ items, ∀ q ∈ f item, P q :=
    fun item member q inside => all q (List.mem_flatMap.mpr ⟨item, member, inside⟩)
  have flat? {α : Type} {f : α → List Query} {item? : Option α}
      (all : ∀ q ∈ item?.toList.flatMap f, P q) : ∀ item ∈ item?, ∀ q ∈ f item, P q :=
    fun item member => flat all item (Option.mem_toList.mpr member)
  simp only [queries, List.forall_mem_append, List.forall_mem_map] at h
  obtain ⟨⟨⟨⟨⟨⟨⟨⟨⟨⟨⟨aggregate, columns⟩, source⟩, joins⟩, wheres⟩, groups⟩, havings⟩, orders⟩,
    unions⟩, unionOrders⟩, ctes⟩, unionCtes⟩ := h
  exact ⟨flat? aggregate, flat? columns, flat? source, flat joins, flat wheres, groups,
    flat havings, flat orders, unions, flat unionOrders, flat ctes, flat unionCtes⟩

theorem Clauses.Within.queries {P : Query → Prop} {c : Clauses Query} (h : c.Within P) :
    ∀ q ∈ c.queries, P q := by
  have flat {α : Type} {f : α → List Query} {items : List α}
      (each : ∀ item ∈ items, ∀ q ∈ f item, P q) : ∀ q ∈ items.flatMap f, P q := by
    intro q member
    obtain ⟨item, among, inside⟩ := List.mem_flatMap.mp member
    exact each item among q inside
  have flat? {α : Type} {f : α → List Query} {item? : Option α}
      (each : ∀ item ∈ item?, ∀ q ∈ f item, P q) : ∀ q ∈ item?.toList.flatMap f, P q :=
    flat fun item member => each item (Option.mem_toList.mp member)
  simp only [Clauses.queries, List.forall_mem_append, List.forall_mem_map]
  exact ⟨⟨⟨⟨⟨⟨⟨⟨⟨⟨⟨flat? h.aggregate, flat? h.columns⟩, flat? h.source⟩, flat h.joins⟩,
    flat h.wheres⟩, h.groups⟩, flat h.havings⟩, flat h.orders⟩, h.unions⟩, flat h.unionOrders⟩,
    flat h.ctes⟩, flat h.unionCtes⟩

section Congruence

variable {A : Type} {f g : Query → A}

theorem Term.map_congr {t : Term Query} (same : ∀ q ∈ t.queries, f q = g q) :
    t.map f = t.map g := by
  cases t with
  | name | raw => rfl
  | sub query aliasName =>
    have inner := same query List.mem_cons_self
    simp only [Term.map, inner]

theorem Term.map_congr_list {ts : List (Term Query)}
    (same : ∀ q ∈ ts.flatMap Term.queries, f q = g q) :
    ts.map (Term.map f) = ts.map (Term.map g) :=
  List.map_congr_left fun t member => Term.map_congr fun q inside =>
    same q (List.mem_flatMap.mpr ⟨t, member, inside⟩)

theorem Predicate.map_congr {p : Predicate Query} (same : ∀ q ∈ p.queries, f q = g q) :
    p.map f = p.map g := by
  cases p with
  | raw | expression | jsonBoolean | jsonContains | jsonContainsKey | jsonLength => rfl
  | basic | bitwise | among | amongIntegers | null | between | datePart =>
    simp only [Predicate.map, Term.map_congr same]
  | betweenColumns column low high =>
    simp only [Predicate.queries, List.forall_mem_append] at same
    obtain ⟨⟨column, low⟩, high⟩ := same
    simp only [Predicate.map, Term.map_congr column, Term.map_congr low, Term.map_congr high]
  | compareColumns first operator second =>
    simp only [Predicate.queries, List.forall_mem_append] at same
    simp only [Predicate.map, Term.map_congr same.1, Term.map_congr same.2]
  | nested query | hasRows query =>
    have inner := same query List.mem_cons_self
    simp only [Predicate.map, inner]
  | sub column operator query =>
    simp only [Predicate.queries, List.forall_mem_append, List.forall_mem_singleton] at same
    simp only [Predicate.map, Term.map_congr same.1, same.2]
  | rowValues | fulltext => simp only [Predicate.map, Term.map_congr_list same]

theorem GroupPredicate.map_congr {p : GroupPredicate Query} (same : ∀ q ∈ p.queries, f q = g q) :
    p.map f = p.map g := by
  cases p with
  | raw | expression => rfl
  | basic | between | null | bitwise => simp only [GroupPredicate.map, Term.map_congr same]
  | nested query =>
    have inner := same query List.mem_cons_self
    simp only [GroupPredicate.map, inner]

theorem Join.map_congr {j : Join Query} (same : ∀ q ∈ j.queries, f q = g q) :
    j.map f = j.map g := by
  simp only [Join.queries, List.forall_mem_append, List.forall_mem_singleton] at same
  simp only [Join.map, Term.map_congr same.1, same.2]

theorem Order.map_congr {o : Order Query} (same : ∀ q ∈ o.queries, f q = g q) :
    o.map f = o.map g := by
  cases o with
  | raw | random => rfl
  | byColumn column direction => simp only [Order.map, Term.map_congr same]

theorem Cte.map_congr {c : Cte Query} (same : ∀ q ∈ c.queries, f q = g q) :
    c.map f = c.map g := by
  obtain ⟨name, columns, recursive, materialized, body, cycle⟩ := c
  cases body with
  | raw => rfl
  | select query =>
    have inner := same query List.mem_cons_self
    simp only [Cte.map, CteBody.map, inner]

/-- Clauses depend on nothing but the values given to the queries directly inside them. -/
theorem Clauses.map_congr {c : Clauses Query} (same : ∀ q ∈ c.queries, f q = g q) :
    c.map f = c.map g := by
  have inside := Clauses.within same
  have aggregate := Option.map_congr fun a member =>
    congrArg (Aggregate.mk a.function) (Term.map_congr_list (inside.aggregate a member))
  have wheres := List.map_congr_left fun w member =>
    congrArg (Where.mk w.conjunction w.negated) (Predicate.map_congr (inside.wheres w member))
  have havings := List.map_congr_left fun h member =>
    congrArg (Having.mk h.conjunction h.negated)
      (GroupPredicate.map_congr (inside.havings h member))
  have unions := List.map_congr_left fun u member =>
    congrArg (UnionMember.mk · u.all) (inside.unions u member)
  simp only [Clauses.map, Clauses.mk.injEq, true_and, and_true]
  exact ⟨aggregate,
    Option.map_congr fun terms member => Term.map_congr_list (inside.columns terms member),
    Option.map_congr fun t member => Term.map_congr (inside.source t member),
    List.map_congr_left fun j member => Join.map_congr (inside.joins j member),
    wheres, Term.map_congr_list inside.groups, havings,
    List.map_congr_left fun o member => Order.map_congr (inside.orders o member), unions,
    List.map_congr_left fun o member => Order.map_congr (inside.unionOrders o member),
    List.map_congr_left fun t member => Cte.map_congr (inside.ctes t member),
    List.map_congr_left fun t member => Cte.map_congr (inside.unionCtes t member)⟩

end Congruence

section Composition

variable {A B C : Type} (f : A → B) (g : B → C)

@[simp] theorem Term.map_map (t : Term A) : (t.map f).map g = t.map fun q => g (f q) := by
  cases t <;> rfl

@[simp] theorem Predicate.map_map (p : Predicate A) :
    (p.map f).map g = p.map fun q => g (f q) := by
  cases p <;> simp [Predicate.map]

@[simp] theorem Where.map_map (w : Where A) : (w.map f).map g = w.map fun q => g (f q) := by
  simp [Where.map]

@[simp] theorem GroupPredicate.map_map (p : GroupPredicate A) :
    (p.map f).map g = p.map fun q => g (f q) := by
  cases p <;> simp [GroupPredicate.map]

@[simp] theorem Having.map_map (h : Having A) : (h.map f).map g = h.map fun q => g (f q) := by
  simp [Having.map]

@[simp] theorem Join.map_map (j : Join A) : (j.map f).map g = j.map fun q => g (f q) := by
  simp [Join.map]

@[simp] theorem Order.map_map (o : Order A) : (o.map f).map g = o.map fun q => g (f q) := by
  cases o <;> simp [Order.map]

@[simp] theorem Aggregate.map_map (a : Aggregate A) :
    (a.map f).map g = a.map fun q => g (f q) := by
  simp [Aggregate.map]

@[simp] theorem UnionMember.map_map (u : UnionMember A) :
    (u.map f).map g = u.map fun q => g (f q) := by
  simp [UnionMember.map]

@[simp] theorem Cte.map_map (c : Cte A) : (c.map f).map g = c.map fun q => g (f q) := by
  obtain ⟨name, columns, recursive, materialized, body, cycle⟩ := c
  cases body <;> simp [Cte.map, CteBody.map]

@[simp] theorem Clauses.map_map (c : Clauses A) : (c.map f).map g = c.map fun q => g (f q) := by
  simp [Clauses.map, Function.comp_def]

end Composition

/-! ### Smaller queries -/

theorem sizeOf_flatMap {α : Type} [SizeOf α] {f : α → List Query} {items : List α} {q : Query}
    (h : ∀ item, q ∈ f item → sizeOf q < sizeOf item) (member : q ∈ items.flatMap f) :
    sizeOf q < sizeOf items := by
  obtain ⟨item, inside, found⟩ := List.mem_flatMap.mp member
  exact Nat.lt_trans (h item found) (List.sizeOf_lt_of_mem inside)

theorem sizeOf_toList_flatMap {α : Type} [SizeOf α] {f : α → List Query} {item? : Option α}
    {q : Query} (h : ∀ item, q ∈ f item → sizeOf q < sizeOf item)
    (member : q ∈ item?.toList.flatMap f) : sizeOf q < sizeOf item? := by
  cases item? with
  | none => simp at member
  | some item =>
    have inside : q ∈ f item := by simpa using member
    have := h item inside
    simp
    omega

variable {q : Query}

theorem Term.sizeOf_queries (t : Term Query) (h : q ∈ t.queries) : sizeOf q < sizeOf t := by
  cases t <;> simp_all [queries]
  omega

theorem Predicate.sizeOf_queries (p : Predicate Query) (h : q ∈ p.queries) :
    sizeOf q < sizeOf p := by
  cases p with
  | rowValues columns operator values =>
    have := sizeOf_flatMap (fun t => Term.sizeOf_queries t) h
    simp
    omega
  | fulltext columns value options =>
    have := sizeOf_flatMap (fun t => Term.sizeOf_queries t) h
    simp
    omega
  | betweenColumns column low high =>
    simp only [queries, List.mem_append] at h
    rcases h with (h | h) | h <;> have := Term.sizeOf_queries _ h <;> simp <;> omega
  | compareColumns first operator second =>
    simp only [queries, List.mem_append] at h
    rcases h with h | h <;> have := Term.sizeOf_queries _ h <;> simp <;> omega
  | sub column operator query =>
    simp only [queries, List.mem_append, List.mem_singleton] at h
    rcases h with h | rfl
    · have := Term.sizeOf_queries _ h
      simp
      omega
    · simp only [Predicate.sub.sizeOf_spec]
      omega
  | nested query =>
    obtain rfl := List.mem_singleton.mp h
    simp
  | hasRows query =>
    obtain rfl := List.mem_singleton.mp h
    simp
  | raw | expression | jsonBoolean | jsonContains | jsonContainsKey | jsonLength => cases h
  | basic | bitwise | among | amongIntegers | null | between | datePart =>
    have := Term.sizeOf_queries _ h
    simp
    omega

theorem Where.sizeOf_queries (w : Where Query) (h : q ∈ w.queries) : sizeOf q < sizeOf w := by
  obtain ⟨conjunction, negated, predicate⟩ := w
  have := Predicate.sizeOf_queries predicate h
  simp
  omega

theorem Having.sizeOf_queries (w : Having Query) (h : q ∈ w.queries) : sizeOf q < sizeOf w := by
  obtain ⟨conjunction, negated, predicate⟩ := w
  have inner : sizeOf q < sizeOf predicate := by
    cases predicate with
    | raw | expression => cases h
    | nested query =>
      obtain rfl := List.mem_singleton.mp h
      simp
    | basic | between | null | bitwise =>
      have := Term.sizeOf_queries _ h
      simp
      omega
  simp
  omega

theorem Join.sizeOf_queries (j : Join Query) (h : q ∈ j.queries) : sizeOf q < sizeOf j := by
  obtain ⟨kind, table, clause⟩ := j
  simp only [queries, List.mem_append, List.mem_singleton] at h
  rcases h with h | rfl
  · have := Term.sizeOf_queries _ h
    simp
    omega
  · simp only [Join.mk.sizeOf_spec]
    omega

theorem Order.sizeOf_queries (o : Order Query) (h : q ∈ o.queries) : sizeOf q < sizeOf o := by
  cases o with
  | byColumn column direction =>
    have := Term.sizeOf_queries _ h
    simp
    omega
  | raw | random => cases h

theorem Aggregate.sizeOf_queries (a : Aggregate Query) (h : q ∈ a.queries) :
    sizeOf q < sizeOf a := by
  obtain ⟨function, columns⟩ := a
  have inside : q ∈ columns.flatMap Term.queries := h
  have := sizeOf_flatMap (fun t => Term.sizeOf_queries t) inside
  simp
  omega

theorem Cte.sizeOf_queries (c : Cte Query) (h : q ∈ c.queries) : sizeOf q < sizeOf c := by
  obtain ⟨name, columns, recursive, materialized, body, cycle⟩ := c
  cases body with
  | raw => cases h
  | select query =>
    obtain rfl := List.mem_singleton.mp h
    simp
    omega

theorem Clauses.sizeOf_queries (c : Clauses Query) (h : q ∈ c.queries) : sizeOf q < sizeOf c := by
  obtain ⟨aggregate, columns, distinct, source, indexHint, joins, wheres, groups, havings, orders,
    limit, offset, unions, unionOrders, unionLimit, unionOffset, lock, ctes, unionCtes,
    recursionLimit, unionRecursionLimit⟩ := c
  simp only [queries, List.mem_append] at h
  rcases h with ((((((((((h | h) | h) | h) | h) | h) | h) | h) | h) | h) | h) | h
  · have := sizeOf_toList_flatMap (fun a => Aggregate.sizeOf_queries a) h
    simp
    omega
  · have := sizeOf_toList_flatMap
      (fun columns => sizeOf_flatMap fun t => Term.sizeOf_queries t) h
    simp
    omega
  · have := sizeOf_toList_flatMap (fun t => Term.sizeOf_queries t) h
    simp
    omega
  · have := sizeOf_flatMap (fun j => Join.sizeOf_queries j) h
    simp
    omega
  · have := sizeOf_flatMap (fun w => Where.sizeOf_queries w) h
    simp
    omega
  · have := sizeOf_flatMap (fun t => Term.sizeOf_queries t) h
    simp
    omega
  · have := sizeOf_flatMap (fun w => Having.sizeOf_queries w) h
    simp
    omega
  · have := sizeOf_flatMap (fun o => Order.sizeOf_queries o) h
    simp
    omega
  · obtain ⟨⟨query, all⟩, member, rfl⟩ := List.mem_map.mp h
    have := List.sizeOf_lt_of_mem member
    simp at this ⊢
    omega
  · have := sizeOf_flatMap (fun o => Order.sizeOf_queries o) h
    simp
    omega
  · have := sizeOf_flatMap (fun c => Cte.sizeOf_queries c) h
    simp
    omega
  · have := sizeOf_flatMap (fun c => Cte.sizeOf_queries c) h
    simp
    omega

/-- What holds of a query once it holds of those directly inside it holds of every query. -/
theorem Query.induct {P : Query → Prop}
    (step : ∀ c : Clauses Query, (∀ q ∈ c.queries, P q) → P (.mk c)) : ∀ q, P q
  | .mk c => step c fun q _inside => Query.induct step q
termination_by q => sizeOf q
decreasing_by
  have := c.sizeOf_queries _inside
  simp
  omega

/-! ### Joins at every depth -/

mutual

/-- The joins of a query, each followed by those that stand beside its table, at every depth. -/
def Query.allJoins : Query → List (Join Query)
  | .mk { joins, .. } => withNested joins

def withNested : List (Join Query) → List (Join Query)
  | [] => []
  | { kind, table, clause } :: joins =>
    { kind, table, clause } :: (clause.allJoins ++ withNested joins)

end

theorem Query.allJoins_mk (c : Clauses Query) :
    (mk c).allJoins = c.joins.flatMap fun j => j :: j.clause.allJoins := by
  have nested (joins : List (Join Query)) :
      withNested joins = joins.flatMap fun j => j :: j.clause.allJoins := by
    induction joins with
    | nil => rfl
    | cons j joins ih => simp [withNested, ih]
  exact nested c.joins

/-- What a join hands on to those beside its table holds at every depth. -/
theorem Query.forall_allJoins {P : Join Query → Prop}
    (beside : ∀ j, P j → ∀ k ∈ j.clause.clauses.joins, P k) {q : Query}
    (own : ∀ j ∈ q.clauses.joins, P j) : ∀ j ∈ q.allJoins, P j := by
  induction q using Query.induct with
  | step c ih =>
    intro i member
    rw [allJoins_mk] at member
    obtain ⟨j, among, inside⟩ := List.mem_flatMap.mp member
    rcases List.mem_cons.mp inside with rfl | inside
    · exact own i among
    · have clause : j.clause ∈ j.queries := List.mem_append_right _ List.mem_cons_self
      exact (Clauses.within ih).joins j among j.clause clause (beside j (own j among)) i inside

end SqlCompiler
