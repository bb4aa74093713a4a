import SqlCompiler.Proofs.StoredQuery
/-!
# What a stored query comes back as

A stored value does not always tell which binding it was, or that it was one: a date comes back as
a text, octets as a document. The clauses around the values do come back, so that a query that was
stored is read as itself with every value restored.
-/

namespace SqlCompiler

/-- The binding that is read where a binding was stored. -/
def Binding.restored (b : Binding) : Binding :=
  .ofStored b.stored

/-- The parameter that is read where a parameter was stored. -/
def Param.restored (p : Param) : Param :=
  .ofStored p.stored

section Restored

variable {Q : Type}

def Term.restored : Term Q → Term Q
  | .name n => .name n
  | .raw sql bindings => .raw sql (bindings.map Binding.restored)
  | .sub query aliasName => .sub query aliasName

def Predicate.restored : Predicate Q → Predicate Q
  | .basic column operator value => .basic column.restored operator value.restored
  | .raw sql bindings => .raw sql (bindings.map Binding.restored)
  | .expression sql => .expression sql
  | .bitwise column operator value => .bitwise column.restored operator value.restored
  | .among column values => .among column.restored (values.map Param.restored)
  | .amongIntegers column values => .amongIntegers column.restored values
  | .null column => .null column.restored
  | .between column low high => .between column.restored low.restored high.restored
  | .betweenColumns column low high =>
    .betweenColumns column.restored low.restored high.restored
  | .datePart part column operator value =>
    .datePart part column.restored operator value.restored
  | .compareColumns first operator second =>
    .compareColumns first.restored operator second.restored
  | .nested query => .nested query
  | .sub column operator query => .sub column.restored operator query
  | .hasRows query => .hasRows query
  | .rowValues columns operator values =>
    .rowValues (columns.map Term.restored) operator (values.map Param.restored)
  | .jsonBoolean column operator value => .jsonBoolean column operator value
  | .jsonContains column document => .jsonContains column document.canonical
  | .jsonContainsKey column => .jsonContainsKey column
  | .jsonLength column operator value => .jsonLength column operator value.restored
  | .fulltext columns value options =>
    .fulltext (columns.map Term.restored) value.restored options

def Where.restored (w : Where Q) : Where Q :=
  { w with predicate := w.predicate.restored }

def GroupPredicate.restored : GroupPredicate Q → GroupPredicate Q
  | .basic column operator value => .basic column.restored operator value.restored
  | .raw sql bindings => .raw sql (bindings.map Binding.restored)
  | .expression sql => .expression sql
  | .between column low high => .between column.restored low.restored high.restored
  | .null column => .null column.restored
  | .nested query => .nested query
  | .bitwise column operator value => .bitwise column.restored operator value.restored

def Having.restored (h : Having Q) : Having Q :=
  { h with predicate := h.predicate.restored }

def Join.restored (j : Join Q) : Join Q :=
  { j with table := j.table.restored }

def Order.restored : Order Q → Order Q
  | .byColumn column direction => .byColumn column.restored direction
  | .raw sql bindings => .raw sql (bindings.map Binding.restored)
  | .random seed => .random seed

def Aggregate.restored (a : Aggregate Q) : Aggregate Q :=
  { a with columns := a.columns.map Term.restored }

def CteBody.restored : CteBody Q → CteBody Q
  | .select query => .select query
  | .raw sql bindings => .raw sql (bindings.map Binding.restored)

def Cte.restored (c : Cte Q) : Cte Q :=
  { c with body := c.body.restored }

/-- Clauses with their own values restored; the nested queries stay as they are. -/
def Clauses.restored (c : Clauses Q) : Clauses Q :=
  { c with
    aggregate := c.aggregate.map Aggregate.restored
    columns := c.columns.map (List.map Term.restored)
    source := c.source.map Term.restored
    joins := c.joins.map Join.restored
    wheres := c.wheres.map Where.restored
    groups := c.groups.map Term.restored
    havings := c.havings.map Having.restored
    orders := c.orders.map Order.restored
    unionOrders := c.unionOrders.map Order.restored
    ctes := c.ctes.map Cte.restored
    unionCtes := c.unionCtes.map Cte.restored }

end Restored

/-- A query with all its values restored, those of all nested queries included. -/
def Query.restored (q : Query) : Query :=
  q.fold fun c => .mk c.restored

theorem Query.restored_mk (c : Clauses Query) :
    (mk c).restored = mk (c.map restored).restored :=
  fold_mk (fun c => mk c.restored) c

section Reading

variable {A B C : Type} {read : Json → Option C} {f : B → Json} {g : A → B} {k : A → C}

theorem list?_stored {items : List A} (h : ∀ a ∈ items, read (f (g a)) = some (k a)) :
    Json.list? read (.arr ((items.map g).map f)) = some (items.map k) := by
  rw [List.map_map]
  exact list?_map h

theorem nullable?_stored {a? : Option A} (there : ∀ b, f b ≠ .null)
    (h : ∀ a ∈ a?, read (f (g a)) = some (k a)) :
    Json.nullable? read (.ofOption f (a?.map g)) = some (a?.map k) := by
  cases a? with
  | none => rfl
  | some a =>
    show Json.nullable? read (f (g a)) = some (some (k a))
    rw [nullable?_of_ne_null (there _), h a rfl]
    rfl

end Reading

theorem readBindings?_stored (bindings : List Binding) :
    readBindings? (storedBindings bindings) = some (bindings.map Binding.restored) :=
  list?_map fun _ _ => rfl

theorem readParams?_stored (params : List Param) :
    readParams? (storedParams params) = some (params.map Param.restored) :=
  list?_map fun _ _ => rfl

/-! ### Clauses and queries -/

/-- A query that is read as what it comes back as, however its form comes to its reader. -/
def Query.ReadBack (query? : ReadQuery Query) (q : Query) : Prop :=
  ∀ reading, query? reading q.stored = some q.restored

section Clauses

variable {query? : ReadQuery Query}

theorem Term.ofStored?_stored {t : Term Query} (inside : ∀ q ∈ t.queries, q.ReadBack query?) :
    Term.ofStored? query? (t.map Query.stored).stored = some (t.map Query.restored).restored := by
  cases t with
  | name n => rfl
  | raw sql bindings =>
    have values := readBindings?_stored bindings
    simp [map, stored, ofStored?, restored, rawIn?, Members.required, Members.optional,
      Members.values, Json.str?, values]
  | sub query aliasName =>
    have inner := inside query (by simp [queries]) .tried
    simp [map, stored, ofStored?, restored, rawIn?, Members.required, Members.values, Json.str?,
      inner]

theorem readTerms?_stored {ts : List (Term Query)}
    (inside : ∀ q ∈ ts.flatMap Term.queries, q.ReadBack query?) :
    readTerms? query? (storedTerms (ts.map (Term.map Query.stored)))
      = some ((ts.map (Term.map Query.restored)).map Term.restored) := by
  rw [List.map_map]
  exact list?_stored fun t member =>
    Term.ofStored?_stored fun q inner => inside q (List.mem_flatMap.mpr ⟨t, member, inner⟩)

/-- The integers that a predicate writes out are of 64 bits. -/
def Predicate.Sized : Predicate Query → Prop
  | .amongIntegers _ values => ∀ n ∈ values, Binding.fitsInt n = true
  | _ => True

/-- A predicate is read from its operands, which stand behind the members of every condition. -/
theorem Predicate.ofStored?_stored {p : Predicate Query} (h : p.Sized)
    (inside : ∀ q ∈ p.queries, q.ReadBack query?) (conjunction negated kind : Json) :
    Predicate.ofStored? query? (p.map Query.stored).stored.1
      (("boolean", conjunction) :: ("not", negated) :: ("type", kind)
        :: (p.map Query.stored).stored.2) = some (p.map Query.restored).restored := by
  have term {t : Term Query} (inner : ∀ q ∈ t.queries, q ∈ p.queries) :
      Term.ofStored? query? (t.map Query.stored).stored
        = some (t.map Query.restored).restored :=
    Term.ofStored?_stored fun q member => inside q (inner q member)
  have terms {ts : List (Term Query)} (inner : ∀ q ∈ ts.flatMap Term.queries, q ∈ p.queries) :
      readTerms? query? (storedTerms (ts.map (Term.map Query.stored)))
        = some ((ts.map (Term.map Query.restored)).map Term.restored) :=
    readTerms?_stored fun q member => inside q (inner q member)
  cases p with
  | basic column operator value | bitwise column operator value =>
    exact required_bind rfl (term fun _ => id) (required_bind rfl rfl (required_bind rfl rfl rfl))
  | raw sql bindings =>
    exact required_bind rfl rfl (optional_bind rfl (readBindings?_stored bindings) rfl)
  | expression sql => exact required_bind rfl rfl rfl
  | among column values =>
    exact required_bind rfl (term fun _ => id)
      (required_bind rfl (readParams?_stored values) rfl)
  | amongIntegers column values =>
    exact required_bind rfl (term fun _ => id) (required_bind rfl (keeps_integers h).read rfl)
  | null column => exact required_bind rfl (term fun _ => id) rfl
  | between column low high =>
    exact required_bind rfl (term fun _ => id) (required_bind rfl rfl (required_bind rfl rfl rfl))
  | betweenColumns column low high =>
    have c := term (t := column) fun q member => by simp [queries, member]
    have l := term (t := low) fun q member => by simp [queries, member]
    have u := term (t := high) fun q member => by simp [queries, member]
    exact required_bind rfl c (required_bind rfl l (required_bind rfl u rfl))
  | datePart part column operator value =>
    have name := keeps_choice
      (fun part => by cases part <;> rfl : ∀ part, DatePart.ofName? part.name = some part)
      .kept part
    refine required_bind rfl name.read (required_bind rfl (term fun _ => id) ?_)
    exact required_bind rfl rfl (required_bind rfl rfl rfl)
  | compareColumns first operator second =>
    have l := term (t := first) fun q member => by simp [queries, member]
    have r := term (t := second) fun q member => by simp [queries, member]
    exact required_bind rfl l (required_bind rfl rfl (required_bind rfl r rfl))
  | nested query | hasRows query =>
    have q := inside query (by simp [queries]) .kept
    exact required_bind rfl q rfl
  | sub column operator query =>
    have c := term (t := column) fun q member => by simp [queries, member]
    have q := inside query (by simp [queries]) .kept
    exact required_bind rfl c (required_bind rfl rfl (required_bind rfl q rfl))
  | rowValues columns operator values =>
    exact required_bind rfl (terms fun _ => id)
      (required_bind rfl rfl (required_bind rfl (readParams?_stored values) rfl))
  | jsonBoolean column operator value =>
    exact required_bind rfl rfl (required_bind rfl rfl (required_bind rfl rfl rfl))
  | jsonContains column document => exact required_bind rfl rfl (required_bind rfl rfl rfl)
  | jsonContainsKey column => exact required_bind rfl rfl rfl
  | jsonLength column operator value =>
    exact required_bind rfl rfl (required_bind rfl rfl (required_bind rfl rfl rfl))
  | fulltext columns value options =>
    refine optional_bind rfl (keeps_fulltextOptions options).read ?_
    exact required_bind rfl (terms fun _ => id) (required_bind rfl rfl rfl)

theorem GroupPredicate.ofStored?_stored {p : GroupPredicate Query}
    (inside : ∀ q ∈ p.queries, q.ReadBack query?) (conjunction negated kind : Json) :
    GroupPredicate.ofStored? query? (p.map Query.stored).stored.1
      (("boolean", conjunction) :: ("not", negated) :: ("type", kind)
        :: (p.map Query.stored).stored.2) = some (p.map Query.restored).restored := by
  cases p with
  | basic column operator value | bitwise column operator value =>
    have c := Term.ofStored?_stored inside
    exact required_bind rfl c (required_bind rfl rfl (required_bind rfl rfl rfl))
  | raw sql bindings =>
    exact required_bind rfl rfl (optional_bind rfl (readBindings?_stored bindings) rfl)
  | expression sql => exact required_bind rfl rfl rfl
  | between column low high =>
    have c := Term.ofStored?_stored inside
    exact required_bind rfl c (required_bind rfl rfl (required_bind rfl rfl rfl))
  | null column => exact required_bind rfl (Term.ofStored?_stored inside) rfl
  | nested query =>
    have q := inside query (by simp [queries]) .kept
    exact required_bind rfl q rfl

theorem Where.ofStored?_stored {w : Where Query} (h : w.predicate.Sized)
    (inside : ∀ q ∈ w.queries, q.ReadBack query?) (reading : Reading) :
    Where.ofStored? query? reading (w.map Query.stored).stored
      = some (w.map Query.restored).restored := by
  have read := condition?_stored (Predicate.stored_kind _) (Predicate.stored_names _)
    (Predicate.ofStored?_stored h inside) reading w.conjunction w.negated
  rw [ofStored?, stored, map, read]
  rfl

theorem Having.ofStored?_stored {w : Having Query} (inside : ∀ q ∈ w.queries, q.ReadBack query?)
    (reading : Reading) :
    Having.ofStored? query? reading (w.map Query.stored).stored
      = some (w.map Query.restored).restored := by
  have read := condition?_stored (GroupPredicate.stored_kind _) (GroupPredicate.stored_names _)
    (GroupPredicate.ofStored?_stored inside) reading w.conjunction w.negated
  rw [ofStored?, stored, map, read]
  rfl

theorem Join.ofStored?_stored {j : Join Query} (inside : ∀ q ∈ j.queries, q.ReadBack query?)
    (empty : Query) (reading : Reading) :
    Join.ofStored? query? empty reading (j.map Query.stored).stored
      = some (j.map Query.restored).restored := by
  have kind := keeps_choice (fun k => by cases k <;> rfl : ∀ k, JoinKind.ofName? k.name = some k)
    reading j.kind
  have table := Term.ofStored?_stored fun q member => inside q (List.mem_append_left _ member)
  have clause := inside j.clause (by simp [queries]) reading
  exact record_bind (optional_bind rfl kind.read
    (required_bind rfl table (optional_bind rfl clause rfl)))

theorem Order.ofStored?_stored {o : Order Query} (inside : ∀ q ∈ o.queries, q.ReadBack query?)
    (reading : Reading) :
    Order.ofStored? query? reading (o.map Query.stored).stored
      = some (o.map Query.restored).restored := by
  cases o with
  | byColumn column direction =>
    have d := keeps_choice
      (fun d => by cases d <;> rfl : ∀ d, Direction.ofName? d.name = some d) .kept direction
    exact required_bind rfl rfl
      (required_bind rfl (Term.ofStored?_stored inside) (optional_bind rfl d.read rfl))
  | raw sql bindings =>
    exact required_bind rfl rfl
      (required_bind rfl rfl (optional_bind rfl (readBindings?_stored bindings) rfl))
  | random seed =>
    have s : Keeps .whole (Json.nullable? Json.str?) (.ofOption .str seed) seed :=
      keeps_option fun s _ => ⟨keeps_str s, by simp⟩
    exact required_bind rfl rfl (optional_bind rfl s.read rfl)

theorem UnionMember.ofStored?_stored {u : UnionMember Query} (inside : u.query.ReadBack query?)
    (reading : Reading) :
    UnionMember.ofStored? query? reading (u.map Query.stored).stored
      = some (u.map Query.restored) :=
  record_bind (required_bind rfl (inside reading) (optional_bind rfl rfl rfl))

theorem Aggregate.ofStored?_stored {a : Aggregate Query}
    (inside : ∀ q ∈ a.queries, q.ReadBack query?) :
    Aggregate.ofStored? query? (a.map Query.stored).stored
      = some (a.map Query.restored).restored :=
  record_bind (required_bind rfl rfl (required_bind rfl (readTerms?_stored inside) rfl))

theorem CteBody.ofStored?_stored {b : CteBody Query}
    (inside : ∀ query, b = .select query → query.ReadBack query?) (reading : Reading) :
    CteBody.ofStored? query? reading (b.map Query.stored).stored
      = some (b.map Query.restored).restored := by
  cases b with
  | select query =>
    have q := inside query rfl reading
    simp [map, stored, ofStored?, restored, Json.variant?, q]
  | raw sql bindings =>
    simp only [map, stored, ofStored?, Json.variant?, Option.bind_eq_bind, Option.bind_some]
    refine record_bind ?_
    exact required_bind rfl rfl (optional_bind rfl (readBindings?_stored bindings) rfl)

theorem Cte.ofStored?_stored {c : Cte Query} (inside : ∀ q ∈ c.queries, q.ReadBack query?)
    (reading : Reading) :
    Cte.ofStored? query? reading (c.map Query.stored).stored
      = some (c.map Query.restored).restored := by
  have body := CteBody.ofStored?_stored (b := c.body)
    (fun query same => inside query (by simp [queries, same])) reading
  have materialized : Keeps .whole (Json.nullable? Json.bool?) (.ofOption .bool c.materialized)
      c.materialized :=
    keeps_option fun b _ => ⟨keeps_bool b, by simp⟩
  have cycle : Keeps .cycle (Json.nullable? Cycle.ofStored?) (.ofOption Cycle.stored c.cycle)
      c.cycle :=
    keeps_option fun c _ => ⟨keeps_cycle c, by simp [Cycle.stored]⟩
  refine record_bind (required_bind rfl rfl ?_)
  refine optional_bind rfl (keeps_strings c.columns).read ?_
  refine optional_bind rfl rfl ?_
  refine optional_bind rfl materialized.read ?_
  exact required_bind rfl body (optional_bind rfl cycle.read rfl)

/-- The numbers that clauses write out are of 64 bits: with a sign where they stand in a list of
integers, without one where they count rows or steps. -/
structure Clauses.Sized (c : Clauses Query) : Prop where
  wheres : ∀ w ∈ c.wheres, w.predicate.Sized
  counts : ∀ n?, n? ∈ [c.limit, c.offset, c.unionLimit, c.unionOffset, c.recursionLimit,
    c.unionRecursionLimit] → ∀ n ∈ n?, n < UInt64.size

theorem Clauses.ofStored?_stored {c : Clauses Query} (h : c.Sized)
    (inside : c.Within (Query.ReadBack query?)) (empty : Query) (reading : Reading) :
    Clauses.ofStored? query? empty reading (c.map Query.stored).stored
      = some (c.map Query.restored).restored := by
  have count (n? : Option Nat) (fits : ∀ n ∈ n?, n < UInt64.size) :
      Json.nullable? Json.nat64? (.ofOption .ofNat n?) = some n? :=
    (keeps_option fun n member => ⟨keeps_nat (fits n member), by simp [Json.ofNat]⟩).read
  have counts := h.counts
  simp only [List.mem_cons, List.not_mem_nil, or_false, forall_eq_or_imp, forall_eq] at counts
  have aggregate := nullable?_stored (f := Aggregate.stored) (g := Aggregate.map Query.stored)
    (by simp [Aggregate.stored]) fun a member =>
      Aggregate.ofStored?_stored (inside.aggregate a member)
  have columns := nullable?_stored (f := storedTerms) (g := List.map (Term.map Query.stored))
    (by simp [storedTerms]) fun ts member => readTerms?_stored (inside.columns ts member)
  have source := nullable?_stored (f := Term.stored) (g := Term.map Query.stored)
    term_stored_ne_null fun t member => Term.ofStored?_stored (inside.source t member)
  have joins := list?_stored (f := Join.stored) (g := Join.map Query.stored) fun j member =>
    Join.ofStored?_stored (inside.joins j member) empty reading
  have wheres := list?_stored (f := Where.stored) (g := Where.map Query.stored) fun w member =>
    Where.ofStored?_stored (h.wheres w member) (inside.wheres w member) reading
  have groups := readTerms?_stored inside.groups
  have havings := list?_stored (f := Having.stored) (g := Having.map Query.stored) fun w member =>
    Having.ofStored?_stored (inside.havings w member) reading
  have orders := list?_stored (f := Order.stored) (g := Order.map Query.stored) fun o member =>
    Order.ofStored?_stored (inside.orders o member) reading
  have unions := list?_stored (f := UnionMember.stored) (g := UnionMember.map Query.stored)
    fun u member => UnionMember.ofStored?_stored (inside.unions u member) reading
  have unionOrders := list?_stored (f := Order.stored) (g := Order.map Query.stored)
    fun o member => Order.ofStored?_stored (inside.unionOrders o member) reading
  have ctes := list?_stored (f := Cte.stored) (g := Cte.map Query.stored) fun t member =>
    Cte.ofStored?_stored (inside.ctes t member) reading
  have unionCtes := list?_stored (f := Cte.stored) (g := Cte.map Query.stored) fun t member =>
    Cte.ofStored?_stored (inside.unionCtes t member) reading
  refine record_bind ?_
  refine optional_bind rfl aggregate ?_
  refine optional_bind rfl columns ?_
  refine optional_bind rfl (keeps_distinct c.distinct reading).read ?_
  refine optional_bind rfl source ?_
  refine optional_bind rfl (keeps_indexHint? c.indexHint reading).read ?_
  refine optional_bind rfl joins ?_
  refine optional_bind rfl wheres ?_
  refine optional_bind rfl groups ?_
  refine optional_bind rfl havings ?_
  refine optional_bind rfl orders ?_
  refine optional_bind rfl (count _ counts.1) ?_
  refine optional_bind rfl (count _ counts.2.1) ?_
  refine optional_bind rfl unions ?_
  refine optional_bind rfl unionOrders ?_
  refine optional_bind rfl (count _ counts.2.2.1) ?_
  refine optional_bind rfl (count _ counts.2.2.2.1) ?_
  refine optional_bind rfl (keeps_lock? c.lock reading).read ?_
  refine optional_bind rfl ctes ?_
  refine optional_bind rfl unionCtes ?_
  refine optional_bind rfl (count _ counts.2.2.2.2.1) ?_
  refine optional_bind rfl (count _ counts.2.2.2.2.2) ?_
  -- What is mapped and restored in turn was read in one step.
  simp only [Clauses.restored, Clauses.map, List.map_map, Option.map_map, Function.comp_def]
  rfl

end Clauses

theorem Query.ofStoredWithin?_stored {q : Query} (h : q.Everywhere Clauses.Sized) {depth : Nat}
    (deep : q.stored.depth < depth) (reading : Reading) :
    ofStoredWithin? depth reading q.stored = some q.restored := by
  induction q using Query.induct generalizing depth reading with
  | step c ih =>
    obtain @⟨_, own, inside⟩ := h
    cases depth with
    | zero => exact absurd deep (Nat.not_lt_zero _)
    | succ depth =>
      have form : (mk c).stored = (c.map stored).stored := fold_mk Clauses.stored c
      rw [form] at deep
      have read : ∀ q ∈ c.queries, q.ReadBack (ofStoredWithin? depth) := by
        intro q member reading
        have := Clauses.depth_stored member
        exact ih q member (inside q member) (by omega) reading
      rw [form, ofStoredWithin?, Clauses.ofStored?_stored own (Clauses.within read), restored_mk]
      rfl

/-- A stored query is read as itself with its values restored. -/
theorem Query.ofStored?_stored {q : Query} (h : q.Everywhere Clauses.Sized) (reading : Reading) :
    ofStored? reading q.stored = some q.restored :=
  ofStoredWithin?_stored h (Nat.lt_succ_self _) reading

/-! ### What is looked at

No part of a stored query is passed over, whatever its values are.
-/

section Seen

variable {A B : Type} {place item : Place} {f : B → Json} {g : A → B}

theorem sees_items {items : List A} (h : ∀ a ∈ items, item.Sees (f (g a))) :
    (Place.listOf item).Sees (.arr ((items.map g).map f)) := by
  apply sees_list fun _ => rfl
  simp only [List.forall_mem_map]
  exact h

theorem sees_option {a? : Option A} (h : ∀ a ∈ a?, place.Sees (f (g a))) :
    place.Sees (.ofOption f (a?.map g)) := by
  cases a? with
  | none => rfl
  | some a => exact h a rfl

end Seen

theorem Aggregate.sees_stored (a : Aggregate Json) : Place.aggregate.Sees a.stored :=
  sees_record ⟨⟨_, rfl, sees_whole _⟩, ⟨_, rfl, sees_whole _⟩, trivial⟩

theorem IndexHint.sees_stored (i : IndexHint) : Place.indexHint.Sees i.stored :=
  sees_record ⟨⟨_, rfl, sees_whole _⟩, ⟨_, rfl, sees_whole _⟩, trivial⟩

theorem Join.sees_stored {j : Join Json} (h : Place.query.Sees j.clause) :
    Place.join.Sees j.stored :=
  sees_record ⟨⟨_, rfl, sees_whole _⟩, ⟨_, rfl, sees_whole _⟩, ⟨_, rfl, h⟩, trivial⟩

theorem UnionMember.sees_stored {u : UnionMember Json} (h : Place.query.Sees u.query) :
    Place.union.Sees u.stored :=
  sees_record ⟨⟨_, rfl, h⟩, ⟨_, rfl, sees_whole _⟩, trivial⟩

theorem Cycle.sees_stored (c : Cycle) : Place.cycle.Sees c.stored :=
  sees_record
    ⟨⟨_, rfl, sees_whole _⟩, ⟨_, rfl, sees_whole _⟩, ⟨_, rfl, sees_whole _⟩, trivial⟩

theorem CteBody.sees_stored {b : CteBody Json}
    (h : ∀ query, b = .select query → Place.query.Sees query) : Place.cteBody.Sees b.stored := by
  cases b with
  | select query => exact sees_record ⟨⟨_, rfl, h query rfl⟩, trivial⟩
  | raw sql bindings =>
    have fragment : Place.fragment.Sees
        (.obj [("sql", .str sql), ("bindings", storedBindings bindings)]) :=
      sees_record ⟨⟨_, rfl, sees_whole _⟩, ⟨_, rfl, sees_whole _⟩, trivial⟩
    exact sees_record ⟨⟨_, rfl, fragment⟩, trivial⟩

theorem Cte.sees_stored {c : Cte Query} (h : ∀ q ∈ c.queries, Place.query.Sees q.stored) :
    Place.cte.Sees (c.map Query.stored).stored := by
  have body : Place.cteBody.Sees (c.body.map Query.stored).stored := by
    apply CteBody.sees_stored
    intro form same
    cases found : c.body with
    | raw => simp [found, CteBody.map] at same
    | select query =>
      have inner := h query (by simp [queries, found])
      simp only [found, CteBody.map, CteBody.select.injEq] at same
      rwa [← same]
  have cycle : Place.cycle.Sees (.ofOption Cycle.stored (c.cycle.map id)) :=
    sees_option fun c _ => Cycle.sees_stored c
  rw [Option.map_id] at cycle
  exact sees_record ⟨⟨_, rfl, sees_whole _⟩, ⟨_, rfl, sees_whole _⟩, ⟨_, rfl, sees_whole _⟩,
    ⟨_, rfl, sees_whole _⟩, ⟨_, rfl, body⟩, ⟨_, rfl, cycle⟩, trivial⟩

theorem Query.sees_stored (q : Query) : Place.query.Sees q.stored := by
  induction q using Query.induct with
  | step c ih =>
    have inside := Clauses.within ih
    have form : (mk c).stored = (c.map stored).stored := fold_mk Clauses.stored c
    have aggregate : Place.aggregate.Sees
        (.ofOption Aggregate.stored (c.aggregate.map (Aggregate.map stored))) :=
      sees_option fun a _ => Aggregate.sees_stored _
    have indexHint : Place.indexHint.Sees (.ofOption IndexHint.stored (c.indexHint.map id)) :=
      sees_option fun i _ => IndexHint.sees_stored i
    have joins := sees_items (f := Join.stored) (g := Join.map stored) fun j member =>
      Join.sees_stored (inside.joins j member j.clause (by simp [Join.queries]))
    have unions := sees_items (f := UnionMember.stored) (g := UnionMember.map stored)
      fun u member => UnionMember.sees_stored (inside.unions u member)
    have ctes := sees_items (f := Cte.stored) (g := Cte.map stored) fun t member =>
      Cte.sees_stored (inside.ctes t member)
    have unionCtes := sees_items (f := Cte.stored) (g := Cte.map stored) fun t member =>
      Cte.sees_stored (inside.unionCtes t member)
    rw [Option.map_id] at indexHint
    rw [form]
    have whole {name : String} (here : Place.query.member? name = some .whole) {form : Json} :
        ∃ inner, Place.query.member? name = some inner ∧ inner.Sees form :=
      ⟨.whole, here, sees_whole form⟩
    exact sees_record ⟨⟨_, rfl, aggregate⟩, whole rfl, whole rfl, whole rfl, ⟨_, rfl, indexHint⟩,
      ⟨_, rfl, joins⟩, whole rfl, whole rfl, whole rfl, whole rfl, whole rfl, whole rfl,
      ⟨_, rfl, unions⟩, whole rfl, whole rfl, whole rfl, whole rfl, ⟨_, rfl, ctes⟩,
      ⟨_, rfl, unionCtes⟩, whole rfl, whole rfl, trivial⟩

/-- The text of a stored query is read likewise, as long as it writes its form exactly. -/
theorem Query.read?_stored {q : Query} (h : q.Everywhere Clauses.Sized) (exact : q.stored.Exact)
    (reading : Reading) :
    Place.query.read? (ofStored? reading) q.stored.text = some q.restored := by
  simp [Place.read?, Json.written?_text exact, q.sees_stored, ofStored?_stored h]

end SqlCompiler
