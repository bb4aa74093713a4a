import SqlCompiler.Engine.Compiled
import SqlCompiler.Proofs.Emission
import SqlCompiler.Query.Bindings
/-!
# Outcomes and what they bind

`Yields` speaks of what a part is worth if it is worth something. The pieces of a statement say for
which values its placeholders were emitted: `Sql.Carries` names these, wherever a scan of the text
may look for placeholders, and `CarriesAll` does so for many parts whose values follow one another.
A statement that is aligned as well binds what it carries.
-/

namespace SqlCompiler

open Substitute

/-- What is true of a result, if there is one. -/
def Yields {ε α : Type} (P : α → Prop) (x : Except ε α) : Prop :=
  ∀ a, x = .ok a → P a

section Yields

variable {ε α β : Type} {P : α → Prop} {Q : β → Prop}

@[simp] theorem yields_ok {a : α} : Yields P (.ok a : Except ε α) ↔ P a := by
  simp [Yields]

@[simp] theorem yields_pure {a : α} : Yields P (pure a : Except ε α) ↔ P a :=
  yields_ok

@[simp] theorem yields_error {error : ε} : Yields P (.error error : Except ε α) := by
  simp [Yields]

theorem yields_true (x : Except ε α) : Yields (fun _ => True) x :=
  fun _ _ => trivial

theorem Yields.bind {x : Except ε α} {f : α → Except ε β} (hx : Yields P x)
    (hf : ∀ a, P a → Yields Q (f a)) : Yields Q (x >>= f) := by
  intro b ok
  obtain ⟨a, first, second⟩ := bind_ok ok
  exact hf a (hx a first) b second

/-- A bind whose first step was chosen by a test. -/
theorem Yields.ite_bind {p : Prop} [Decidable p] {x y : Except ε α} {f : α → Except ε β}
    (hx : Yields P (if p then x else y)) (hf : ∀ a, P a → Yields Q (f a)) :
    Yields Q (if p then x >>= f else y >>= f) := by
  split
  · next test => exact (if_pos test ▸ hx).bind hf
  · next test => exact (if_neg test ▸ hx).bind hf

/-- All of many results, if there are so many. -/
theorem Yields.allOk {xs : List (Except ε α)} (h : ∀ x ∈ xs, Yields P x) :
    Yields (fun values => ∀ value ∈ values, P value) (allOk xs) := by
  intro values ok value member
  rw [allOk_eq_ok.mp ok, List.forall_mem_map] at h
  exact h value member value rfl

theorem Yields.map {x : Except ε α} {f : α → β} (hx : Yields P x)
    (hf : ∀ a, P a → Q (f a)) : Yields Q (x.map f) := by
  intro b ok
  obtain ⟨a, first, rfl⟩ := map_ok ok
  exact hf a (hx a first)

/-- What a list of results comes to, given what each of them comes to. -/
theorem filterMap_of_allOk {items : List α} {f : α → Except ε β} {g : α → Option β}
    {values : List β} (ok : allOk (items.map f) = .ok values)
    (same : ∀ a b, f a = .ok b → g a = some b) : items.filterMap g = values := by
  have each := allOk_eq_ok.mp ok
  clear ok
  induction items generalizing values with
  | nil => simpa using each
  | cons a items ih =>
    cases values with
    | nil => simp at each
    | cons b values =>
      simp only [List.map_cons, List.cons.injEq] at each
      rw [List.filterMap_cons_some (same a b each.1), ih each.2]

end Yields

theorem bindings_ofParam (value : Param) : (Sql.ofParam value).bindings = boundValues [value] := by
  cases value <;> rfl

theorem boundValues_cons (value : Param) (values : List Param) :
    boundValues (value :: values) = boundValues [value] ++ boundValues values := by
  cases value <;> rfl

theorem bindings_paramList (values : List Param) :
    (paramList values).bindings = boundValues values := by
  rw [paramList, Sql.bindings_join]
  induction values with
  | nil => rfl
  | cons value values ih =>
    rw [boundValues_cons, ← ih, ← bindings_ofParam, List.map_cons, List.flatMap_cons]

/-! ### Carried values -/

namespace Sql

/-- Every binding of a fragment has its placeholder. -/
def Whole (sql : Sql) : Prop :=
  ∀ p ∈ sql.pieces, p.Filled

/-- The placeholders of a statement were emitted for the given values, one after the other. -/
structure Carries (values : List Binding) (sql : Sql) : Prop where
  whole : sql.Whole
  bindings_eq : sql.bindings = values

@[simp] theorem whole_append {a b : Sql} : (a ++ b).Whole ↔ a.Whole ∧ b.Whole :=
  List.forall_mem_append

@[simp] theorem whole_ofText (s : String) : (ofText s).Whole := by
  simp [Whole, ofText, Piece.Filled, Piece.emitted, Piece.bindings]

@[simp] theorem whole_empty : empty.Whole := by
  simp [Whole, empty]

@[simp] theorem whole_ofParam (value : Param) : (ofParam value).Whole := by
  cases value with
  | value b => simp [Whole, ofParam, Piece.Filled, Piece.emitted, Piece.bindings]
  | raw sql => exact whole_ofText sql

@[simp] theorem whole_parenthesized {sql : Sql} : sql.parenthesized.Whole ↔ sql.Whole := by
  simp [parenthesized]

@[simp] theorem bindings_parenthesized (sql : Sql) : sql.parenthesized.bindings = sql.bindings := by
  simp [parenthesized]

theorem whole_join {sep : String} {parts : List Sql} (h : ∀ part ∈ parts, part.Whole) :
    (join sep parts).Whole := by
  fun_induction join sep parts with
  | case1 => exact whole_empty
  | case2 part => simpa using h
  | case3 part parts _ ih =>
    obtain ⟨first, others⟩ := List.forall_mem_cons.mp h
    simp [first, ih others]

theorem carries_ofText (s : String) : Carries [] (ofText s) :=
  ⟨whole_ofText s, rfl⟩

theorem carries_empty : Carries [] empty :=
  ⟨whole_empty, rfl⟩

theorem carries_ofParam (value : Param) : Carries (boundValues [value]) (ofParam value) :=
  ⟨whole_ofParam value, bindings_ofParam value⟩

variable {values others : List Binding} {a b : Sql}

theorem Carries.append (ha : Carries values a) (hb : Carries others b) :
    Carries (values ++ others) (a ++ b) :=
  ⟨whole_append.mpr ⟨ha.whole, hb.whole⟩, by simp [ha.bindings_eq, hb.bindings_eq]⟩

/-- Words in front carry nothing. -/
theorem Carries.behind (h : Carries values a) (words : String) : Carries values (words ++ a) :=
  (carries_ofText words).append h

/-- Words behind carry nothing. -/
theorem Carries.before (h : Carries values a) (words : String) : Carries values (a ++ words) := by
  simpa using h.append (carries_ofText words)

theorem Carries.parenthesized (h : Carries values a) : Carries values a.parenthesized :=
  ⟨whole_parenthesized.mpr h.whole, (bindings_parenthesized a).trans h.bindings_eq⟩

/-- Two statements with an operator between them. -/
theorem Carries.compared (ha : Carries values a) (operator : String) (hb : Carries others b) :
    Carries (values ++ others) (a ++ " " ++ operator ++ " " ++ b) :=
  (((ha.before " ").before operator).before " ").append hb

/-- Without text nothing is carried. -/
theorem Carries.eq_nil (h : Carries values a) (empty : a.isEmpty = true) : values = [] := by
  have nothing : a.emitted = [] := by
    apply List.eq_nil_of_length_eq_zero
    simp [length_emitted, isEmpty_iff.mp empty]
  rw [← h.bindings_eq, ← emitted_values h.whole, nothing]
  rfl

end Sql

theorem carries_paramList (params : List Param) :
    Sql.Carries (boundValues params) (paramList params) :=
  ⟨Sql.whole_join (List.forall_mem_map.mpr fun value _ => Sql.whole_ofParam value),
    bindings_paramList params⟩

/-- Statements that carry values one after the other. -/
structure Sql.CarryAll (values : List Binding) (sqls : List Sql) : Prop where
  whole : ∀ sql ∈ sqls, sql.Whole
  bindings_eq : sqls.flatMap Sql.bindings = values

namespace Sql.CarryAll

variable {values : List Binding} {sqls : List Sql} (h : CarryAll values sqls)
include h

theorem join (sep : String) : Carries values (Sql.join sep sqls) :=
  ⟨whole_join h.whole, (bindings_join sep sqls).trans h.bindings_eq⟩

/-- A part without text carries nothing. -/
theorem filter : CarryAll values (sqls.filter fun sql => !sql.isEmpty) := by
  refine ⟨fun sql member => h.whole sql (List.mem_filter.mp member).1, ?_⟩
  rw [← h.bindings_eq]
  have whole := h.whole
  clear h
  induction sqls with
  | nil => rfl
  | cons sql sqls ih =>
    obtain ⟨first, others⟩ := List.forall_mem_cons.mp whole
    rw [List.filter_cons, List.flatMap_cons, ← ih others]
    cases empty : sql.isEmpty with
    | false => simp
    | true => simp [Carries.eq_nil ⟨first, rfl⟩ empty]

end Sql.CarryAll

/-- Parts that carry values one after the other. -/
inductive CarriesAll : List Outcome → List Binding → Prop
  | nil : CarriesAll [] []
  | cons {part : Outcome} {parts : List Outcome} {values others : List Binding}
      (first : Yields (Sql.Carries values) part) (rest : CarriesAll parts others) :
      CarriesAll (part :: parts) (values ++ others)

theorem carriesAll_map {α : Type} {f : α → Outcome} {g : α → List Binding} {items : List α}
    (h : ∀ item ∈ items, Yields (Sql.Carries (g item)) (f item)) :
    CarriesAll (items.map f) (items.flatMap g) := by
  induction items with
  | nil => exact .nil
  | cons item items ih =>
    obtain ⟨first, rest⟩ := List.forall_mem_cons.mp h
    exact .cons first (ih rest)

theorem CarriesAll.append {parts more : List Outcome} {values others : List Binding}
    (h : CarriesAll parts values) (hmore : CarriesAll more others) :
    CarriesAll (parts ++ more) (values ++ others) := by
  induction h with
  | nil => exact hmore
  | cons first _ ih =>
    rw [List.append_assoc]
    exact .cons first ih

theorem CarriesAll.allOk {parts : List Outcome} {values : List Binding}
    (h : CarriesAll parts values) : Yields (Sql.CarryAll values) (allOk parts) := by
  induction h with
  | nil => exact yields_ok.mpr ⟨by simp, rfl⟩
  | @cons part parts values others first rest ih =>
    cases part with
    | error e => exact yields_error
    | ok sql =>
      rw [SqlCompiler.allOk]
      cases all : SqlCompiler.allOk parts with
      | error e => exact yields_error
      | ok sqls =>
        have own := first sql rfl
        have more := ih sqls all
        exact yields_ok.mpr ⟨List.forall_mem_cons.mpr ⟨own.whole, more.whole⟩,
          by simp [own.bindings_eq, more.bindings_eq]⟩

theorem CarriesAll.joinOutcomes {sep : String} {parts : List Outcome} {values : List Binding}
    (h : CarriesAll parts values) : Yields (Sql.Carries values) (joinOutcomes sep parts) :=
  h.allOk.map fun _ found => found.join sep

theorem carriesAll_tied {members : List (Conjunction × Outcome)} {values : List Binding}
    (h : CarriesAll (members.map Prod.snd) values) : CarriesAll (members.map tied) values := by
  induction members generalizing values with
  | nil => exact h
  | cons member members ih =>
    obtain ⟨conjunction, outcome⟩ := member
    cases h with
    | cons first rest =>
      exact .cons (first.map fun sql found => (found.behind " ").behind conjunction.sql) (ih rest)

theorem carries_conditions {members : List (Conjunction × Outcome)} {values : List Binding}
    (h : CarriesAll (members.map Prod.snd) values) :
    Yields (Sql.Carries values) (conditions members) := by
  cases members with
  | nil =>
    cases h
    exact yields_ok.mpr Sql.carries_empty
  | cons member members =>
    obtain ⟨conjunction, outcome⟩ := member
    cases h with
    | cons first rest => exact (CarriesAll.cons first (carriesAll_tied rest)).joinOutcomes

/-! ### Aligned parts and bound values -/

section Aligned

variable {sep : String} {parts : List Outcome} (h : ∀ part ∈ parts, Yields Sql.Aligned part)
  {members : List (Conjunction × Outcome)}
  (hm : ∀ part ∈ members.map Prod.snd, Yields Sql.Aligned part)

include h in
theorem aligned_joinOutcomes (hs : Spacer sep) : Yields Sql.Aligned (joinOutcomes sep parts) :=
  (Yields.allOk h).map fun _ found => Sql.aligned_join hs found

include hm

theorem aligned_tied : ∀ part ∈ members.map tied, Yields Sql.Aligned part := by
  rw [List.forall_mem_map] at hm ⊢
  refine fun member inside => (hm member inside).map fun sql found => ?_
  cases member.1 <;> simp +decide [Conjunction.sql, found]

theorem aligned_conditions : Yields Sql.Aligned (conditions members) := by
  cases members with
  | nil => exact yields_ok.mpr Sql.aligned_empty
  | cons member members =>
    obtain ⟨first, rest⟩ := List.forall_mem_cons.mp hm
    exact aligned_joinOutcomes (List.forall_mem_cons.mpr ⟨first, aligned_tied rest⟩) (by decide)

end Aligned

/-- A statement whose placeholders stand for the given values, one after the other. -/
structure Sql.Binds (values : List Binding) (sql : Sql) : Prop where
  aligned : sql.Aligned
  bindings_eq : sql.bindings = values

namespace Sql

theorem Aligned.binds {values : List Binding} {sql : Sql} (h : sql.Aligned)
    (carried : Carries values sql) : Binds values sql :=
  ⟨h, carried.bindings_eq⟩

/-- Plain text that binds nothing. -/
theorem binds_ofText {s : String} (h : (ofText s).Aligned) : Binds [] (ofText s) :=
  ⟨h, rfl⟩

theorem binds_empty : Binds [] empty :=
  ⟨aligned_empty, rfl⟩

theorem Aligned.parenthesized {sql : Sql} (h : sql.Aligned) : sql.parenthesized.Aligned := by
  simp +decide [Sql.parenthesized, h]

/-- Two statements with a clean operator between them. -/
theorem Aligned.compared {left right : Sql} (hl : left.Aligned) {operator : String}
    (ho : Clean operator.toList) (hr : right.Aligned) :
    (left ++ " " ++ operator ++ " " ++ right).Aligned := by
  simp +decide [hl, aligned_clean_append ho, hr]

namespace Binds

variable {values others : List Binding} {sql other : Sql} (h : Binds values sql)
include h

theorem carries : Carries values sql :=
  ⟨h.aligned.filled, h.bindings_eq⟩

theorem parenthesized : Binds values sql.parenthesized :=
  h.aligned.parenthesized.binds h.carries.parenthesized

theorem behind {words : String} (hw : Spacer words) : Binds values (words ++ sql) :=
  ⟨by simp [hw, h.aligned], by simp [h.bindings_eq]⟩

theorem before {words : String} (hw : Spacer words) : Binds values (sql ++ words) :=
  ⟨by simp [hw, h.aligned], by simp [h.bindings_eq]⟩

/-- A statement between words. -/
theorem within (before after : String) (hb : Spacer before) (ha : Spacer after) :
    Binds values (before ++ sql ++ after) :=
  (h.behind hb).before ha

/-- Two statements with words between them. -/
theorem beside {words : String} (hw : Spacer words) (ho : Binds others other) :
    Binds (values ++ others) (sql ++ words ++ other) :=
  ⟨Aligned.beside hw h.aligned ho.aligned, by simp [h.bindings_eq, ho.bindings_eq]⟩

end Binds

end Sql

theorem Yields.binds {x : Outcome} {values : List Binding} (aligned : Yields Sql.Aligned x)
    (carried : Yields (Sql.Carries values) x) : Yields (Sql.Binds values) x :=
  fun sql ok => (aligned sql ok).binds (carried sql ok)

/-- Parts that bind values one after the other. -/
inductive BindsAll : List Outcome → List Binding → Prop
  | nil : BindsAll [] []
  | cons {part : Outcome} {parts : List Outcome} {values others : List Binding}
      (first : Yields (Sql.Binds values) part) (rest : BindsAll parts others) :
      BindsAll (part :: parts) (values ++ others)

theorem bindsAll_map {α : Type} {f : α → Outcome} {g : α → List Binding} {items : List α}
    (h : ∀ item ∈ items, Yields (Sql.Binds (g item)) (f item)) :
    BindsAll (items.map f) (items.flatMap g) := by
  induction items with
  | nil => exact .nil
  | cons item items ih =>
    obtain ⟨first, rest⟩ := List.forall_mem_cons.mp h
    exact .cons first (ih rest)

theorem CarriesAll.binds {parts : List Outcome} {values : List Binding}
    (h : CarriesAll parts values) (aligned : ∀ part ∈ parts, Yields Sql.Aligned part) :
    BindsAll parts values := by
  induction h with
  | nil => exact .nil
  | cons carried _ ih =>
    obtain ⟨first, rest⟩ := List.forall_mem_cons.mp aligned
    exact .cons (first.binds carried) (ih rest)

namespace BindsAll

variable {parts more : List Outcome} {values others : List Binding} (h : BindsAll parts values)
include h

theorem aligned : ∀ part ∈ parts, Yields Sql.Aligned part := by
  induction h with
  | nil => simp
  | cons first _ ih =>
    exact List.forall_mem_cons.mpr ⟨fun sql ok => (first sql ok).aligned, ih⟩

theorem carries : CarriesAll parts values := by
  induction h with
  | nil => exact .nil
  | cons first _ ih => exact .cons (fun sql ok => (first sql ok).carries) ih

theorem append (hmore : BindsAll more others) : BindsAll (parts ++ more) (values ++ others) :=
  (h.carries.append hmore.carries).binds (List.forall_mem_append.mpr ⟨h.aligned, hmore.aligned⟩)

theorem joinOutcomes {sep : String} (hs : Spacer sep) :
    Yields (Sql.Binds values) (joinOutcomes sep parts) :=
  (aligned_joinOutcomes h.aligned hs).binds h.carries.joinOutcomes

end BindsAll

section Conditions

variable {members : List (Conjunction × Outcome)} {values : List Binding}
  (h : BindsAll (members.map Prod.snd) values)
include h

/-- A conjunction in front of a condition binds nothing. -/
theorem bindsAll_tied : BindsAll (members.map tied) values :=
  (carriesAll_tied h.carries).binds (aligned_tied h.aligned)

theorem binds_conditions : Yields (Sql.Binds values) (conditions members) :=
  (aligned_conditions h.aligned).binds (carries_conditions h.carries)

end Conditions

end SqlCompiler
