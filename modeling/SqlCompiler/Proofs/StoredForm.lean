import SqlCompiler.Proofs.JsonText
import SqlCompiler.Proofs.Nesting
import SqlCompiler.Stored.Decode
/-!
# The stored form is read back

The stored form of a clause tells what it is, as long as its values are none that are stored like
others: a date is stored like a text, and a document like what it holds. Each clause is read back
from its form, given that the queries inside it are.
-/

namespace SqlCompiler

/-- A form of which every part is looked at. -/
abbrev Place.Sees (place : Place) (form : Json) : Prop :=
  form.written.seen? Place.outline place = some form

/-- A form that its text writes, and of which every part is looked at. -/
structure Shown (place : Place) (form : Json) : Prop where
  exact : form.Exact
  seen : place.Sees form

/-- A form from which the value is read that it stands for. -/
structure Keeps {A : Type} (place : Place) (read : Json → Option A) (form : Json) (value : A) :
    Prop extends Shown place form where
  read : read form = some value

theorem covers_whole : Place.outline.Covers .whole :=
  ⟨fun _ => rfl, fun _ => rfl⟩

theorem sees_whole (form : Json) : Place.whole.Sees form :=
  Json.seen?_written covers_whole form

/-- Members that are seen, each at a place of its own. -/
def SeenMembers (place : Place) : Members → Prop
  | [] => True
  | (name, form) :: members =>
    (∃ inner, place.member? name = some inner ∧ inner.Sees form) ∧ SeenMembers place members

theorem sees_record {place : Place} {members : Members} (h : SeenMembers place members) :
    place.Sees (.obj members) := by
  have seen : Json.Written.seenMembers? Place.outline place (Json.writtenMembers members)
      = some members := by
    induction members with
    | nil => rfl
    | cons member members ih =>
      obtain ⟨⟨inner, found, first⟩, rest⟩ := h
      have here : Place.outline.member? place member.1 = some inner := found
      simp [Json.writtenMembers, Json.Written.seenMembers?, here, first, ih rest]
  simp [Place.Sees, Json.written, Json.Written.seen?, seen]

theorem sees_list {place item : Place} (inner : ∀ i, place.item i = item) {forms : List Json}
    (h : ∀ form ∈ forms, item.Sees form) : place.Sees (.arr forms) := by
  have seen (i : Nat) : Json.Written.seenItems? Place.outline place i (Json.writtenItems forms)
      = some forms := by
    induction forms generalizing i with
    | nil => rfl
    | cons form forms ih =>
      obtain ⟨first, rest⟩ := List.forall_mem_cons.mp h
      have here : Place.outline.item place i = item := inner i
      simp [Json.writtenItems, Json.Written.seenItems?, here, first, ih rest]
  simp [Place.Sees, Json.written, Json.Written.seen?, seen]

/-- A list of forms is read item by item. -/
theorem list?_map {A B : Type} {read : Json → Option B} {f : A → Json} {k : A → B} {items : List A}
    (h : ∀ a ∈ items, read (f a) = some (k a)) :
    Json.list? read (.arr (items.map f)) = some (items.map k) := by
  rw [Json.list?]
  induction items with
  | nil => rfl
  | cons a items ih =>
    obtain ⟨first, rest⟩ := List.forall_mem_cons.mp h
    simp [first, ih rest]

theorem nullable?_of_ne_null {A : Type} {read : Json → Option A} {form : Json}
    (there : form ≠ .null) : Json.nullable? read form = (read form).map some := by
  cases form with
  | null => exact absurd rfl there
  | _ => rfl

section Keeps

variable {A : Type} {place : Place} {read : Json → Option A} {form : Json} {value : A}

theorem keeps_whole (exact : form.Exact) (kept : read form = some value) :
    Keeps .whole read form value :=
  ⟨⟨exact, sees_whole form⟩, kept⟩

theorem Keeps.whole (h : Keeps place read form value) : Keeps .whole read form value :=
  keeps_whole h.exact h.read

/-- Reading the text of a form. -/
theorem Keeps.text (h : Keeps place read form value) :
    place.read? read form.text = some value := by
  simp [Place.read?, Json.written?_text h.exact, h.seen, h.read]

/-- Members that are looked at, each at a place of its own. -/
def ShownMembers (place : Place) : Members → Prop
  | [] => True
  | (name, form) :: members =>
    (∃ inner, place.member? name = some inner ∧ Shown inner form) ∧ ShownMembers place members

theorem shown_record {members : Members} (h : ShownMembers place members) :
    Shown place (.obj members) := by
  have each : Json.ExactMembers members ∧ SeenMembers place members := by
    induction members with
    | nil => exact ⟨trivial, trivial⟩
    | cons member members ih =>
      obtain ⟨⟨inner, found, first⟩, rest⟩ := h
      obtain ⟨exact, seen⟩ := ih rest
      exact ⟨⟨first.exact, exact⟩, ⟨inner, found, first.seen⟩, seen⟩
  exact ⟨Json.exact_obj.mpr each.1, sees_record each.2⟩

theorem keeps_list {item : Place} (inner : ∀ i, place.item i = item) {f : A → Json}
    {values : List A} (h : ∀ value ∈ values, Keeps item read (f value) value) :
    Keeps place (Json.list? read) (.arr (values.map f)) values := by
  have kept : Json.list? read (.arr (values.map f)) = some (values.map id) :=
    list?_map fun value member => (h value member).read
  rw [List.map_id] at kept
  refine ⟨⟨?_, ?_⟩, kept⟩
  · rw [Json.Exact, Json.exactItems_iff, List.forall_mem_map]
    exact fun value member => (h value member).exact
  · apply sees_list inner
    rw [List.forall_mem_map]
    exact fun value member => (h value member).seen

/-- A list whose items are given forms in two steps. -/
theorem keeps_listOf {B : Type} (f : B → Json) (g : A → B) {item : Place} {values : List A}
    (h : ∀ value ∈ values, Keeps item read (f (g value)) value) :
    Keeps (.listOf item) (Json.list? read) (.arr ((values.map g).map f)) values := by
  rw [List.map_map]
  exact keeps_list (fun _ => rfl) h

theorem keeps_items {B : Type} (f : B → Json) (g : A → B) {values : List A}
    (h : ∀ value ∈ values, Keeps .whole read (f (g value)) value) :
    Keeps .whole (Json.list? read) (.arr ((values.map g).map f)) values :=
  (keeps_listOf f g h).whole

theorem keeps_option {f : A → Json} {value? : Option A}
    (h : ∀ value ∈ value?, Keeps place read (f value) value ∧ f value ≠ .null) :
    Keeps place (Json.nullable? read) (.ofOption f value?) value? := by
  cases value? with
  | none => exact ⟨⟨trivial, rfl⟩, rfl⟩
  | some value =>
    obtain ⟨kept, there⟩ := h value rfl
    refine ⟨kept.toShown, ?_⟩
    rw [Json.ofOption, nullable?_of_ne_null there, kept.read]
    rfl

theorem keeps_option_map {B : Type} (f : B → Json) (g : A → B) {value? : Option A}
    (there : ∀ b, f b ≠ .null) (h : ∀ value ∈ value?, Keeps place read (f (g value)) value) :
    Keeps place (Json.nullable? read) (.ofOption f (value?.map g)) value? := by
  have form : Json.ofOption f (value?.map g) = Json.ofOption (fun a => f (g a)) value? := by
    cases value? <;> rfl
  rw [form]
  exact keeps_option fun value member => ⟨h value member, there (g value)⟩

end Keeps

section Members

variable {A B : Type} {members : Members} {name : String} {form : Json} {read : Json → Option A}
  {value : A} {next : A → Option B} {result : B}

theorem record_bind {names : List String} {next : Members → Option B}
    (rest : next members = some result) :
    ((Json.obj members).record? names >>= next) = some result :=
  rest

/-- Reading goes on with the member that is there. -/
theorem required_bind (found : members.values name = [form]) (kept : read form = some value)
    (rest : next value = some result) : (members.required name read >>= next) = some result := by
  rw [Members.required, found]
  change (read form).bind next = some result
  rw [kept]
  exact rest

theorem optional_bind {default : A} (found : members.values name = [form])
    (kept : read form = some value) (rest : next value = some result) :
    (members.optional name default read >>= next) = some result := by
  rw [Members.optional, found]
  change (read form).bind next = some result
  rw [kept]
  exact rest

end Members

theorem keeps_str (s : String) : Keeps .whole Json.str? (.str s) s :=
  keeps_whole trivial rfl

theorem keeps_bool (b : Bool) : Keeps .whole Json.bool? (.bool b) b :=
  keeps_whole trivial rfl

theorem keeps_strings (texts : List String) :
    Keeps .whole Json.strings? (.ofStrings texts) texts :=
  keeps_list (fun _ => rfl) fun s _ => keeps_str s

theorem keeps_nat {n : Nat} (h : n < UInt64.size) : Keeps .whole Json.nat64? (.ofNat n) n := by
  have most : UInt64.size = 18446744073709551616 := by decide
  refine keeps_whole ⟨?_, ?_⟩ ?_
  · have := twoTo_pos 63
    omega
  · omega
  · have fits : 0 ≤ (n : Int) ∧ (n : Int) < UInt64.size := by omega
    simp only [Json.ofNat, Json.nat64?, if_pos fits, Int.toNat_natCast]

theorem keeps_integers {values : List Int} (h : ∀ n ∈ values, Binding.fitsInt n = true) :
    Keeps .whole (Json.list? Json.int64?) (.arr (values.map .int)) values := by
  refine keeps_list (fun _ => rfl) fun n member => ?_
  have fits : -(twoTo 63) ≤ n ∧ n < twoTo 63 := by simpa [Binding.fitsInt] using h n member
  have least : twoTo 63 = 9223372036854775808 := by decide
  have most : UInt64.size = 18446744073709551616 := by decide
  exact keeps_whole ⟨fits.1, by omega⟩ (if_pos fits)

/-- A choice that is stored by its name. -/
theorem keeps_choice {A : Type} {ofName? : String → Option A} {name : A → String}
    (h : ∀ a, ofName? (name a) = some a) (reading : Reading) (a : A) :
    Keeps .whole (Json.choice? reading ofName?) (.str (name a)) a := by
  refine keeps_whole trivial ?_
  simp [Json.choice?, Json.variant?, Json.isNothing, h]

/-! ### Values and operands -/

/-- Whether the stored form of a value tells what it is. Integers are of 64 bits. -/
def Binding.Storable : Binding → Prop
  | null | bool _ | text _ => True
  | int n => fitsInt n = true
  | typed value _ => value.Storable
  | float _ | json _ | bytes _ | date _ | time _ | dateTime _ => False

theorem keeps_binding {b : Binding} (h : b.Storable) :
    Keeps .whole (fun j => some (Binding.ofStored j)) b.stored b := by
  induction b with
  | null => exact keeps_whole trivial rfl
  | bool b => exact keeps_whole trivial rfl
  | text s => exact keeps_whole trivial rfl
  | int n =>
    have fits : -(twoTo 63) ≤ n ∧ n < twoTo 63 := by
      simpa [Binding.Storable, Binding.fitsInt] using h
    have least : twoTo 63 = 9223372036854775808 := by decide
    have most : UInt64.size = 18446744073709551616 := by decide
    refine keeps_whole ⟨fits.1, by omega⟩ ?_
    simp only [Binding.stored, Binding.ofStored, show Binding.fitsInt n = true from h, if_true]
  | typed value wire ih =>
    have inner := ih h
    have wires : Json.choice? .tried WireType.ofName? (.str wire.name) = some wire :=
      (keeps_choice WireType.ofName?_name .tried wire).read
    refine keeps_whole ?_ ?_
    · simp [Binding.stored, inner.exact]
    · have read : Binding.ofStored value.stored = value := Option.some.inj inner.read
      simp [Binding.stored, Binding.ofStored, bindingsIn, wireTypesIn, Members.values, wires, read]
  | float | json | bytes | date | time | dateTime => exact absurd h id

theorem keeps_bindings {bindings : List Binding} (h : ∀ b ∈ bindings, b.Storable) :
    Keeps .whole readBindings? (storedBindings bindings) bindings :=
  keeps_list (fun _ => rfl) fun b member => keeps_binding (h b member)

def Param.Storable : Param → Prop
  | value b => b.Storable
  | raw _ => True

theorem keeps_param {p : Param} (h : p.Storable) :
    Keeps .whole (fun j => some (Param.ofStored j)) p.stored p := by
  cases p with
  | raw sql =>
    refine keeps_whole ?_ ?_
    · simp [Param.stored]
    · simp [Param.stored, Param.ofStored, Json.members?, rawIn?, Members.required, Members.values,
        Json.str?]
  | value b =>
    have inner := keeps_binding h
    refine keeps_whole inner.exact ?_
    have noRaw : b.stored.members?.bind rawIn? = none := by
      cases b with
      | typed value wire =>
        simp [Binding.stored, Json.members?, rawIn?, Members.required, Members.values]
      | json => exact absurd h id
      | _ => rfl
    have read : Binding.ofStored b.stored = b := Option.some.inj inner.read
    simp [Param.stored, Param.ofStored, noRaw, read]

theorem keeps_params {params : List Param} (h : ∀ p ∈ params, p.Storable) :
    Keeps .whole readParams? (storedParams params) params :=
  keeps_list (fun _ => rfl) fun p member => keeps_param (h p member)

def Term.Storable : Term Query → Prop
  | .name _ | .sub _ _ => True
  | .raw _ bindings => ∀ b ∈ bindings, b.Storable

/-- A query that is kept, however its form comes to its reader. -/
def Query.Kept (query? : ReadQuery Query) (q : Query) : Prop :=
  ∀ reading, Keeps .query (query? reading) q.stored q

variable {query? : ReadQuery Query}

theorem keeps_term {t : Term Query} (h : t.Storable) (inside : ∀ q ∈ t.queries, q.Kept query?) :
    Keeps .whole (Term.ofStored? query?) (t.map Query.stored).stored t := by
  cases t with
  | name n => exact keeps_whole trivial rfl
  | raw sql bindings =>
    have values := keeps_bindings h
    refine keeps_whole ?_ ?_
    · simp [Term.map, Term.stored, values.exact]
    · simp [Term.map, Term.stored, Term.ofStored?, rawIn?, Members.required, Members.optional,
        Members.values, Json.str?, values.read]
  | sub query aliasName =>
    have inner := inside query (by simp [Term.queries]) .tried
    refine keeps_whole ?_ ?_
    · simp [Term.map, Term.stored, inner.exact]
    · simp [Term.map, Term.stored, Term.ofStored?, rawIn?, Members.required, Members.values,
        Json.str?, inner.read]

theorem keeps_terms {terms : List (Term Query)} (h : ∀ t ∈ terms, t.Storable)
    (inside : ∀ q ∈ terms.flatMap Term.queries, q.Kept query?) :
    Keeps .whole (readTerms? query?) (storedTerms (terms.map (Term.map Query.stored))) terms :=
  keeps_items Term.stored (Term.map Query.stored) fun t member =>
    keeps_term (h t member) fun q inner => inside q (List.mem_flatMap.mpr ⟨t, member, inner⟩)

theorem term_stored_ne_null (t : Term Json) : t.stored ≠ .null := by
  cases t <;> simp [Term.stored]

/-! ### Conditions -/

def Predicate.Storable : Predicate Query → Prop
  | .basic column _ value | .bitwise column _ value | .datePart _ column _ value =>
    column.Storable ∧ value.Storable
  | .raw _ bindings => ∀ b ∈ bindings, b.Storable
  | .among column values => column.Storable ∧ ∀ p ∈ values, p.Storable
  | .amongIntegers column values => column.Storable ∧ ∀ n ∈ values, Binding.fitsInt n = true
  | .null column | .sub column _ _ => column.Storable
  | .between column low high => column.Storable ∧ low.Storable ∧ high.Storable
  | .betweenColumns column low high => column.Storable ∧ low.Storable ∧ high.Storable
  | .compareColumns first _ second => first.Storable ∧ second.Storable
  | .rowValues columns _ values => (∀ t ∈ columns, t.Storable) ∧ ∀ p ∈ values, p.Storable
  | .jsonContains _ document => document.Exact ∧ document.canonical = document
  | .jsonLength _ _ value => value.Storable
  | .fulltext columns value _ => (∀ t ∈ columns, t.Storable) ∧ value.Storable
  | .expression _ | .nested _ | .hasRows _ | .jsonBoolean _ _ _ | .jsonContainsKey _ => True

theorem keeps_fulltextOptions (o : FulltextOptions) :
    Keeps .whole FulltextOptions.ofStored? o.stored o := by
  have text (s? : Option String) : Keeps .whole (Json.nullable? Json.str?) (.ofOption .str s?) s? :=
    keeps_option fun s _ => ⟨keeps_str s, by simp⟩
  refine keeps_whole ?_ ?_
  · simp [FulltextOptions.stored, (text o.mode).exact, (text o.language).exact]
  · refine record_bind ?_
    refine optional_bind rfl (text o.mode).read ?_
    refine optional_bind rfl rfl ?_
    exact optional_bind rfl (text o.language).read rfl

/-- The operands of a predicate are exact, and the predicate is read from them. -/
theorem predicate_operands {p : Predicate Query} (h : p.Storable)
    (inside : ∀ q ∈ p.queries, q.Kept query?) (conjunction negated kind : Json) :
    Json.ExactMembers (p.map Query.stored).stored.2 ∧
    Predicate.ofStored? query? (p.map Query.stored).stored.1
      (("boolean", conjunction) :: ("not", negated) :: ("type", kind)
        :: (p.map Query.stored).stored.2) = some p := by
  have term {t : Term Query} (own : t.Storable) (inner : ∀ q ∈ t.queries, q ∈ p.queries) :=
    keeps_term own fun q member => inside q (inner q member)
  have terms {ts : List (Term Query)} (own : ∀ t ∈ ts, t.Storable)
      (inner : ∀ q ∈ ts.flatMap Term.queries, q ∈ p.queries) :=
    keeps_terms own fun q member => inside q (inner q member)
  cases p with
  | basic column operator value | bitwise column operator value =>
    have c := term h.1 fun _ => id
    have v := keeps_param h.2
    refine ⟨⟨c.exact, trivial, v.exact, trivial⟩, ?_⟩
    refine required_bind rfl c.read ?_
    refine required_bind rfl rfl ?_
    exact required_bind rfl v.read rfl
  | raw sql bindings =>
    have values := keeps_bindings h
    refine ⟨⟨trivial, values.exact, trivial⟩, ?_⟩
    refine required_bind rfl rfl ?_
    exact optional_bind rfl values.read rfl
  | expression sql => exact ⟨⟨trivial, trivial⟩, required_bind rfl rfl rfl⟩
  | among column values =>
    have c := term h.1 fun _ => id
    have v := keeps_params h.2
    refine ⟨⟨c.exact, v.exact, trivial⟩, ?_⟩
    refine required_bind rfl c.read ?_
    exact required_bind rfl v.read rfl
  | amongIntegers column values =>
    have c := term h.1 fun _ => id
    have v := keeps_integers h.2
    refine ⟨⟨c.exact, v.exact, trivial⟩, ?_⟩
    refine required_bind rfl c.read ?_
    exact required_bind rfl v.read rfl
  | null column =>
    have c := term h fun _ => id
    exact ⟨⟨c.exact, trivial⟩, required_bind rfl c.read rfl⟩
  | between column low high =>
    have c := term h.1 fun _ => id
    have l := keeps_param h.2.1
    have u := keeps_param h.2.2
    refine ⟨⟨c.exact, l.exact, u.exact, trivial⟩, ?_⟩
    refine required_bind rfl c.read ?_
    refine required_bind rfl l.read ?_
    exact required_bind rfl u.read rfl
  | betweenColumns column low high =>
    have c := term h.1 fun q member => by simp [Predicate.queries, member]
    have l := term h.2.1 fun q member => by simp [Predicate.queries, member]
    have u := term h.2.2 fun q member => by simp [Predicate.queries, member]
    refine ⟨⟨c.exact, l.exact, u.exact, trivial⟩, ?_⟩
    refine required_bind rfl c.read ?_
    refine required_bind rfl l.read ?_
    exact required_bind rfl u.read rfl
  | datePart part column operator value =>
    have c := term h.1 fun _ => id
    have v := keeps_param h.2
    have name := keeps_choice
      (fun part => by cases part <;> rfl : ∀ part, DatePart.ofName? part.name = some part)
      .kept part
    refine ⟨⟨name.exact, c.exact, trivial, v.exact, trivial⟩, ?_⟩
    refine required_bind rfl name.read ?_
    refine required_bind rfl c.read ?_
    refine required_bind rfl rfl ?_
    exact required_bind rfl v.read rfl
  | compareColumns first operator second =>
    have l := term h.1 fun q member => by simp [Predicate.queries, member]
    have r := term h.2 fun q member => by simp [Predicate.queries, member]
    refine ⟨⟨l.exact, trivial, r.exact, trivial⟩, ?_⟩
    refine required_bind rfl l.read ?_
    refine required_bind rfl rfl ?_
    exact required_bind rfl r.read rfl
  | nested query | hasRows query =>
    have q := inside query (by simp [Predicate.queries]) .kept
    exact ⟨⟨q.exact, trivial⟩, required_bind rfl q.read rfl⟩
  | sub column operator query =>
    have c := term h fun q member => by simp [Predicate.queries, member]
    have q := inside query (by simp [Predicate.queries]) .kept
    refine ⟨⟨c.exact, trivial, q.exact, trivial⟩, ?_⟩
    refine required_bind rfl c.read ?_
    refine required_bind rfl rfl ?_
    exact required_bind rfl q.read rfl
  | rowValues columns operator values =>
    have c := terms h.1 fun _ => id
    have v := keeps_params h.2
    refine ⟨⟨c.exact, trivial, v.exact, trivial⟩, ?_⟩
    refine required_bind rfl c.read ?_
    refine required_bind rfl rfl ?_
    exact required_bind rfl v.read rfl
  | jsonBoolean column operator value =>
    refine ⟨⟨trivial, trivial, trivial, trivial⟩, ?_⟩
    refine required_bind rfl rfl ?_
    refine required_bind rfl rfl ?_
    exact required_bind rfl rfl rfl
  | jsonContains column document =>
    refine ⟨⟨trivial, h.1, trivial⟩, ?_⟩
    refine required_bind rfl (congrArg some h.2) ?_
    exact required_bind rfl rfl rfl
  | jsonContainsKey column => exact ⟨⟨trivial, trivial⟩, required_bind rfl rfl rfl⟩
  | jsonLength column operator value =>
    have v := keeps_param h
    refine ⟨⟨trivial, trivial, v.exact, trivial⟩, ?_⟩
    refine required_bind rfl rfl ?_
    refine required_bind rfl rfl ?_
    exact required_bind rfl v.read rfl
  | fulltext columns value options =>
    have c := terms h.1 fun _ => id
    have v := keeps_param h.2
    have o := keeps_fulltextOptions options
    refine ⟨⟨c.exact, v.exact, o.exact, trivial⟩, ?_⟩
    refine optional_bind rfl o.read ?_
    refine required_bind rfl c.read ?_
    exact required_bind rfl v.read rfl

def GroupPredicate.Storable : GroupPredicate Query → Prop
  | .basic column _ value | .bitwise column _ value => column.Storable ∧ value.Storable
  | .raw _ bindings => ∀ b ∈ bindings, b.Storable
  | .between column low high => column.Storable ∧ low.Storable ∧ high.Storable
  | .null column => column.Storable
  | .expression _ | .nested _ => True

theorem groupPredicate_operands {p : GroupPredicate Query} (h : p.Storable)
    (inside : ∀ q ∈ p.queries, q.Kept query?) (conjunction negated kind : Json) :
    Json.ExactMembers (p.map Query.stored).stored.2 ∧
    GroupPredicate.ofStored? query? (p.map Query.stored).stored.1
      (("boolean", conjunction) :: ("not", negated) :: ("type", kind)
        :: (p.map Query.stored).stored.2) = some p := by
  cases p with
  | basic column operator value | bitwise column operator value =>
    have c := keeps_term h.1 inside
    have v := keeps_param h.2
    refine ⟨⟨c.exact, trivial, v.exact, trivial⟩, ?_⟩
    refine required_bind rfl c.read ?_
    refine required_bind rfl rfl ?_
    exact required_bind rfl v.read rfl
  | raw sql bindings =>
    have values := keeps_bindings h
    refine ⟨⟨trivial, values.exact, trivial⟩, ?_⟩
    refine required_bind rfl rfl ?_
    exact optional_bind rfl values.read rfl
  | expression sql => exact ⟨⟨trivial, trivial⟩, required_bind rfl rfl rfl⟩
  | between column low high =>
    have c := keeps_term h.1 inside
    have l := keeps_param h.2.1
    have u := keeps_param h.2.2
    refine ⟨⟨c.exact, l.exact, u.exact, trivial⟩, ?_⟩
    refine required_bind rfl c.read ?_
    refine required_bind rfl l.read ?_
    exact required_bind rfl u.read rfl
  | null column =>
    have c := keeps_term h inside
    exact ⟨⟨c.exact, trivial⟩, required_bind rfl c.read rfl⟩
  | nested query =>
    have q := inside query (by simp [GroupPredicate.queries]) .kept
    exact ⟨⟨q.exact, trivial⟩, required_bind rfl q.read rfl⟩

/-- A condition is read as what its predicate is, from operands that are named unlike the rest. -/
theorem condition?_stored {P : Type} {kinds : List String}
    {predicate? : String → Members → Option P} {form : String × Members} {predicate : P}
    (kind : form.1 ∈ kinds)
    (names : ∀ name ∈ ["boolean", "not", "type"], Members.values name form.2 = [])
    (operands : ∀ conjunction negated kind, predicate? form.1
      (("boolean", conjunction) :: ("not", negated) :: ("type", kind) :: form.2) = some predicate)
    (reading : Reading) (conjunction : Conjunction) (negated : Bool) :
    condition? reading kinds predicate? (storedCondition conjunction negated form)
      = some (conjunction, negated, predicate) := by
  have read := operands (.str conjunction.name) (.bool negated) (.str form.1)
  have tied : Json.choice? reading Conjunction.ofName? (.str conjunction.name) = some conjunction :=
    (keeps_choice (fun c => by cases c <;> rfl) reading conjunction).read
  have known : kind? .tried kinds (.str form.1) = some form.1 := if_pos kind
  -- A name that no operand has is found at the front only.
  have front (form' : Json) {name : String} (h : name ∈ ["boolean", "not", "type"]) :
      form' :: Members.values name form.2 = [form'] :=
    congrArg (List.cons form') (names name h)
  rw [storedCondition, condition?, Json.members?, Option.bind_eq_bind, Option.bind_some]
  refine optional_bind (front (.str conjunction.name) (by simp)) tied ?_
  refine optional_bind (front (.bool negated) (by simp)) rfl ?_
  refine required_bind (front (.str form.1) (by simp)) known ?_
  rw [read]
  rfl

theorem keeps_condition {P : Type} {kinds : List String}
    {predicate? : String → Members → Option P} {form : String × Members} {predicate : P}
    (kind : form.1 ∈ kinds)
    (names : ∀ name ∈ ["boolean", "not", "type"], Members.values name form.2 = [])
    (operands : ∀ conjunction negated kind, Json.ExactMembers form.2 ∧ predicate? form.1
      (("boolean", conjunction) :: ("not", negated) :: ("type", kind) :: form.2) = some predicate)
    (reading : Reading) (conjunction : Conjunction) (negated : Bool) :
    Keeps .whole (condition? reading kinds predicate?) (storedCondition conjunction negated form)
      (conjunction, negated, predicate) :=
  keeps_whole ⟨trivial, trivial, trivial, (operands .null .null .null).1⟩
    (condition?_stored kind names (fun c n k => (operands c n k).2) reading conjunction negated)

theorem Predicate.stored_kind (p : Predicate Json) : p.stored.1 ∈ predicateKinds := by
  cases p <;> exact List.mem_of_elem_eq_true rfl

theorem GroupPredicate.stored_kind (p : GroupPredicate Json) :
    p.stored.1 ∈ groupPredicateKinds := by
  cases p <;> exact List.mem_of_elem_eq_true rfl

/-- No operand is named like what every condition has. -/
theorem Predicate.stored_names (p : Predicate Json) :
    ∀ name ∈ ["boolean", "not", "type"], Members.values name p.stored.2 = [] := by
  simp only [List.mem_cons, List.not_mem_nil, or_false, forall_eq_or_imp, forall_eq]
  cases p <;> exact ⟨rfl, rfl, rfl⟩

theorem GroupPredicate.stored_names (p : GroupPredicate Json) :
    ∀ name ∈ ["boolean", "not", "type"], Members.values name p.stored.2 = [] := by
  simp only [List.mem_cons, List.not_mem_nil, or_false, forall_eq_or_imp, forall_eq]
  cases p <;> exact ⟨rfl, rfl, rfl⟩

theorem keeps_where {w : Where Query} (h : w.predicate.Storable)
    (inside : ∀ q ∈ w.queries, q.Kept query?) (reading : Reading) :
    Keeps .whole (Where.ofStored? query? reading) (w.map Query.stored).stored w := by
  obtain ⟨conjunction, negated, predicate⟩ := w
  have kept := keeps_condition (Predicate.stored_kind _) (Predicate.stored_names _)
    (predicate_operands h inside) reading conjunction negated
  refine keeps_whole kept.exact ?_
  rw [Where.ofStored?, Where.stored, Where.map, kept.read]
  rfl

theorem keeps_having {w : Having Query} (h : w.predicate.Storable)
    (inside : ∀ q ∈ w.queries, q.Kept query?) (reading : Reading) :
    Keeps .whole (Having.ofStored? query? reading) (w.map Query.stored).stored w := by
  obtain ⟨conjunction, negated, predicate⟩ := w
  have kept := keeps_condition (GroupPredicate.stored_kind _) (GroupPredicate.stored_names _)
    (groupPredicate_operands h inside) reading conjunction negated
  refine keeps_whole kept.exact ?_
  rw [Having.ofStored?, Having.stored, Having.map, kept.read]
  rfl

/-! ### Other clauses, and queries -/

theorem keeps_join {j : Join Query} (h : j.table.Storable) (inside : ∀ q ∈ j.queries, q.Kept query?)
    (empty : Query) (reading : Reading) :
    Keeps .join (Join.ofStored? query? empty reading) (j.map Query.stored).stored j := by
  obtain ⟨kind, table, clause⟩ := j
  have k := keeps_choice (fun k => by cases k <;> rfl : ∀ k, JoinKind.ofName? k.name = some k)
    reading kind
  have t := keeps_term h fun q member => inside q (List.mem_append_left _ member)
  have c := inside clause (by simp [Join.queries]) reading
  refine ⟨shown_record ?_, ?_⟩
  · exact ⟨⟨_, rfl, k.toShown⟩, ⟨_, rfl, t.toShown⟩, ⟨_, rfl, c.toShown⟩, trivial⟩
  · refine record_bind ?_
    refine optional_bind rfl k.read ?_
    refine required_bind rfl t.read ?_
    exact optional_bind rfl c.read rfl

def Order.Storable : Order Query → Prop
  | .byColumn column _ => column.Storable
  | .raw _ bindings => ∀ b ∈ bindings, b.Storable
  | .random _ => True

theorem keeps_order {o : Order Query} (h : o.Storable) (inside : ∀ q ∈ o.queries, q.Kept query?)
    (reading : Reading) :
    Keeps .whole (Order.ofStored? query? reading) (o.map Query.stored).stored o := by
  cases o with
  | byColumn column direction =>
    have c := keeps_term h inside
    have d := keeps_choice
      (fun d => by cases d <;> rfl : ∀ d, Direction.ofName? d.name = some d) .kept direction
    refine keeps_whole ⟨trivial, c.exact, d.exact, trivial⟩ ?_
    refine required_bind rfl rfl ?_
    refine required_bind rfl c.read ?_
    exact optional_bind rfl d.read rfl
  | raw sql bindings =>
    have values := keeps_bindings h
    refine keeps_whole ⟨trivial, trivial, values.exact, trivial⟩ ?_
    refine required_bind rfl rfl ?_
    refine required_bind rfl rfl ?_
    exact optional_bind rfl values.read rfl
  | random seed =>
    have s : Keeps .whole (Json.nullable? Json.str?) (.ofOption .str seed) seed :=
      keeps_option fun s _ => ⟨keeps_str s, by simp⟩
    refine keeps_whole ⟨trivial, s.exact, trivial⟩ ?_
    refine required_bind rfl rfl ?_
    exact optional_bind rfl s.read rfl

theorem keeps_union {u : UnionMember Query} (inside : u.query.Kept query?) (reading : Reading) :
    Keeps .union (UnionMember.ofStored? query? reading) (u.map Query.stored).stored u := by
  have q := inside reading
  refine ⟨shown_record ?_, ?_⟩
  · exact ⟨⟨_, rfl, q.toShown⟩, ⟨_, rfl, (keeps_bool u.all).toShown⟩, trivial⟩
  · refine record_bind ?_
    refine required_bind rfl q.read ?_
    exact optional_bind rfl rfl rfl

theorem keeps_aggregate {a : Aggregate Query} (h : ∀ t ∈ a.columns, t.Storable)
    (inside : ∀ q ∈ a.queries, q.Kept query?) :
    Keeps .aggregate (Aggregate.ofStored? query?) (a.map Query.stored).stored a := by
  have c := keeps_terms h inside
  refine ⟨shown_record ?_, ?_⟩
  · exact ⟨⟨_, rfl, (keeps_str a.function).toShown⟩, ⟨_, rfl, c.toShown⟩, trivial⟩
  · refine record_bind ?_
    refine required_bind rfl rfl ?_
    exact required_bind rfl c.read rfl

theorem keeps_distinct (d : Distinct) (reading : Reading) :
    Keeps .whole (Distinct.ofStored? reading) d.stored d := by
  cases d with
  | off => exact keeps_whole trivial rfl
  | all => exact keeps_whole trivial rfl
  | on columns =>
    have c := keeps_strings columns
    refine keeps_whole ⟨c.exact, trivial⟩ ?_
    simp [Distinct.stored, Distinct.ofStored?, Json.variant?, c.read]

theorem keeps_lock (l : Lock) (reading : Reading) :
    Keeps .whole (Lock.ofStored? reading) l.stored l := by
  cases l with
  | update => exact keeps_whole trivial rfl
  | shared => exact keeps_whole trivial rfl
  | raw sql =>
    refine keeps_whole ⟨trivial, trivial⟩ ?_
    simp [Lock.stored, Lock.ofStored?, Json.variant?, Json.str?]

theorem keeps_indexHint (i : IndexHint) (reading : Reading) :
    Keeps .indexHint (IndexHint.ofStored? reading) i.stored i := by
  have k := keeps_choice
    (fun k => by cases k <;> rfl : ∀ k, IndexHintKind.ofName? k.name = some k) reading i.kind
  refine ⟨shown_record ?_, ?_⟩
  · exact ⟨⟨_, rfl, k.toShown⟩, ⟨_, rfl, (keeps_str i.index).toShown⟩, trivial⟩
  · refine record_bind ?_
    refine required_bind rfl k.read ?_
    exact required_bind rfl rfl rfl

theorem keeps_indexHint? (i? : Option IndexHint) (reading : Reading) :
    Keeps .indexHint (Json.nullable? (IndexHint.ofStored? reading))
      (.ofOption IndexHint.stored i?) i? :=
  keeps_option fun i _ => ⟨keeps_indexHint i reading, by simp [IndexHint.stored]⟩

theorem keeps_lock? (l? : Option Lock) (reading : Reading) :
    Keeps .whole (Json.nullable? (Lock.ofStored? reading)) (.ofOption Lock.stored l?) l? :=
  keeps_option fun l _ => ⟨keeps_lock l reading, by cases l <;> simp [Lock.stored]⟩

def CteBody.Storable : CteBody Query → Prop
  | .select _ => True
  | .raw _ bindings => ∀ b ∈ bindings, b.Storable

theorem keeps_cteBody {b : CteBody Query} (h : b.Storable)
    (inside : ∀ query, b = .select query → query.Kept query?) (reading : Reading) :
    Keeps .cteBody (CteBody.ofStored? query? reading) (b.map Query.stored).stored b := by
  cases b with
  | select query =>
    have q := inside query rfl reading
    refine ⟨shown_record ?_, ?_⟩
    · exact ⟨⟨_, rfl, q.toShown⟩, trivial⟩
    · simp [CteBody.map, CteBody.stored, CteBody.ofStored?, Json.variant?, q.read]
  | raw sql bindings =>
    have values := keeps_bindings h
    have fragment : Shown .fragment
        (.obj [("sql", .str sql), ("bindings", storedBindings bindings)]) :=
      shown_record ⟨⟨_, rfl, (keeps_str sql).toShown⟩, ⟨_, rfl, values.toShown⟩, trivial⟩
    refine ⟨shown_record ?_, ?_⟩
    · exact ⟨⟨_, rfl, fragment⟩, trivial⟩
    · simp only [CteBody.map, CteBody.stored, CteBody.ofStored?, Json.variant?,
        Option.bind_eq_bind, Option.bind_some]
      refine record_bind ?_
      refine required_bind rfl rfl ?_
      exact optional_bind rfl values.read rfl

theorem keeps_cycle (c : Cycle) : Keeps .cycle Cycle.ofStored? c.stored c := by
  have columns := keeps_strings c.columns
  refine ⟨shown_record ?_, ?_⟩
  · exact ⟨⟨_, rfl, columns.toShown⟩, ⟨_, rfl, (keeps_str c.markColumn).toShown⟩,
      ⟨_, rfl, (keeps_str c.pathColumn).toShown⟩, trivial⟩
  · refine record_bind ?_
    refine required_bind rfl columns.read ?_
    refine required_bind rfl rfl ?_
    exact required_bind rfl rfl rfl

theorem keeps_cte {c : Cte Query} (h : c.body.Storable) (inside : ∀ q ∈ c.queries, q.Kept query?)
    (reading : Reading) :
    Keeps .cte (Cte.ofStored? query? reading) (c.map Query.stored).stored c := by
  have body := keeps_cteBody h
    (fun query same => inside query (by simp [Cte.queries, same])) reading
  have columns := keeps_strings c.columns
  have materialized : Keeps .whole (Json.nullable? Json.bool?) (.ofOption .bool c.materialized)
      c.materialized :=
    keeps_option fun b _ => ⟨keeps_bool b, by simp⟩
  have cycle : Keeps .cycle (Json.nullable? Cycle.ofStored?) (.ofOption Cycle.stored c.cycle)
      c.cycle :=
    keeps_option fun c _ => ⟨keeps_cycle c, by simp [Cycle.stored]⟩
  refine ⟨shown_record ?_, ?_⟩
  · exact ⟨⟨_, rfl, (keeps_str c.name).toShown⟩, ⟨_, rfl, columns.toShown⟩,
      ⟨_, rfl, (keeps_bool c.recursive).toShown⟩, ⟨_, rfl, materialized.toShown⟩,
      ⟨_, rfl, body.toShown⟩, ⟨_, rfl, cycle.toShown⟩, trivial⟩
  · refine record_bind ?_
    refine required_bind rfl rfl ?_
    refine optional_bind rfl columns.read ?_
    refine optional_bind rfl rfl ?_
    refine optional_bind rfl materialized.read ?_
    refine required_bind rfl body.read ?_
    exact optional_bind rfl cycle.read rfl

/-- Clauses whose stored form tells what they are. Limits are of 64 bits. -/
structure Clauses.Storable (c : Clauses Query) : Prop where
  aggregate : ∀ a ∈ c.aggregate, ∀ t ∈ a.columns, t.Storable
  columns : ∀ terms ∈ c.columns, ∀ t ∈ terms, t.Storable
  source : ∀ t ∈ c.source, t.Storable
  joins : ∀ j ∈ c.joins, j.table.Storable
  wheres : ∀ w ∈ c.wheres, w.predicate.Storable
  groups : ∀ t ∈ c.groups, t.Storable
  havings : ∀ w ∈ c.havings, w.predicate.Storable
  orders : ∀ o ∈ c.orders, o.Storable
  unionOrders : ∀ o ∈ c.unionOrders, o.Storable
  ctes : ∀ t ∈ c.ctes, t.body.Storable
  unionCtes : ∀ t ∈ c.unionCtes, t.body.Storable
  counts : ∀ n?, n? ∈ [c.limit, c.offset, c.unionLimit, c.unionOffset, c.recursionLimit,
    c.unionRecursionLimit] → ∀ n ∈ n?, n < UInt64.size

theorem keeps_clauses {c : Clauses Query} (h : c.Storable) (inside : c.Within (Query.Kept query?))
    (empty : Query) (reading : Reading) :
    Keeps .query (Clauses.ofStored? query? empty reading) (c.map Query.stored).stored c := by
  have count (n? : Option Nat) (fits : ∀ n ∈ n?, n < UInt64.size) :
      Keeps .whole (Json.nullable? Json.nat64?) (.ofOption .ofNat n?) n? :=
    keeps_option fun n member => ⟨keeps_nat (fits n member), by simp [Json.ofNat]⟩
  have counts := h.counts
  simp only [List.mem_cons, List.not_mem_nil, or_false, forall_eq_or_imp, forall_eq] at counts
  have limit := count _ counts.1
  have offset := count _ counts.2.1
  have unionLimit := count _ counts.2.2.1
  have unionOffset := count _ counts.2.2.2.1
  have recursionLimit := count _ counts.2.2.2.2.1
  have unionRecursionLimit := count _ counts.2.2.2.2.2
  have distinct := keeps_distinct c.distinct reading
  have indexHint := keeps_indexHint? c.indexHint reading
  have lock := keeps_lock? c.lock reading
  have aggregate := keeps_option_map Aggregate.stored (Aggregate.map Query.stored)
    (by simp [Aggregate.stored]) fun a member =>
      keeps_aggregate (h.aggregate a member) (inside.aggregate a member)
  have columns := keeps_option_map storedTerms (List.map (Term.map Query.stored))
    (by simp [storedTerms]) fun ts member =>
      keeps_terms (h.columns ts member) (inside.columns ts member)
  have source := keeps_option_map Term.stored (Term.map Query.stored) term_stored_ne_null
    fun t member => keeps_term (h.source t member) (inside.source t member)
  have joins := keeps_listOf Join.stored (Join.map Query.stored) fun j member =>
    keeps_join (h.joins j member) (inside.joins j member) empty reading
  have wheres := keeps_items Where.stored (Where.map Query.stored) fun w member =>
    keeps_where (h.wheres w member) (inside.wheres w member) reading
  have groups := keeps_terms h.groups inside.groups
  have havings := keeps_items Having.stored (Having.map Query.stored) fun w member =>
    keeps_having (h.havings w member) (inside.havings w member) reading
  have orders := keeps_items Order.stored (Order.map Query.stored) fun o member =>
    keeps_order (h.orders o member) (inside.orders o member) reading
  have unions := keeps_listOf UnionMember.stored (UnionMember.map Query.stored) fun u member =>
    keeps_union (inside.unions u member) reading
  have unionOrders := keeps_items Order.stored (Order.map Query.stored) fun o member =>
    keeps_order (h.unionOrders o member) (inside.unionOrders o member) reading
  have ctes := keeps_listOf Cte.stored (Cte.map Query.stored) fun t member =>
    keeps_cte (h.ctes t member) (inside.ctes t member) reading
  have unionCtes := keeps_listOf Cte.stored (Cte.map Query.stored) fun t member =>
    keeps_cte (h.unionCtes t member) (inside.unionCtes t member) reading
  refine ⟨shown_record ?_, ?_⟩
  · exact ⟨⟨_, rfl, aggregate.toShown⟩, ⟨_, rfl, columns.toShown⟩, ⟨_, rfl, distinct.toShown⟩,
      ⟨_, rfl, source.toShown⟩, ⟨_, rfl, indexHint.toShown⟩, ⟨_, rfl, joins.toShown⟩,
      ⟨_, rfl, wheres.toShown⟩, ⟨_, rfl, groups.toShown⟩, ⟨_, rfl, havings.toShown⟩,
      ⟨_, rfl, orders.toShown⟩, ⟨_, rfl, limit.toShown⟩, ⟨_, rfl, offset.toShown⟩,
      ⟨_, rfl, unions.toShown⟩, ⟨_, rfl, unionOrders.toShown⟩, ⟨_, rfl, unionLimit.toShown⟩,
      ⟨_, rfl, unionOffset.toShown⟩, ⟨_, rfl, lock.toShown⟩, ⟨_, rfl, ctes.toShown⟩,
      ⟨_, rfl, unionCtes.toShown⟩, ⟨_, rfl, recursionLimit.toShown⟩,
      ⟨_, rfl, unionRecursionLimit.toShown⟩, trivial⟩
  · refine record_bind ?_
    refine optional_bind rfl aggregate.read ?_
    refine optional_bind rfl columns.read ?_
    refine optional_bind rfl distinct.read ?_
    refine optional_bind rfl source.read ?_
    refine optional_bind rfl indexHint.read ?_
    refine optional_bind rfl joins.read ?_
    refine optional_bind rfl wheres.read ?_
    refine optional_bind rfl groups.read ?_
    refine optional_bind rfl havings.read ?_
    refine optional_bind rfl orders.read ?_
    refine optional_bind rfl limit.read ?_
    refine optional_bind rfl offset.read ?_
    refine optional_bind rfl unions.read ?_
    refine optional_bind rfl unionOrders.read ?_
    refine optional_bind rfl unionLimit.read ?_
    refine optional_bind rfl unionOffset.read ?_
    refine optional_bind rfl lock.read ?_
    refine optional_bind rfl ctes.read ?_
    refine optional_bind rfl unionCtes.read ?_
    refine optional_bind rfl recursionLimit.read ?_
    exact optional_bind rfl unionRecursionLimit.read rfl

end SqlCompiler
