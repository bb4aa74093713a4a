import SqlCompiler.Engine.Compiled
/-!
# Statements without their values

An erased statement has its words and its placeholders, but none of its values. Statements are put
together the same way with and without their values.
-/

namespace SqlCompiler

/-- What stands for every value; a text, since documents are bound as texts. -/
def Binding.erased : Binding :=
  text Json.null.text

def Param.erase : Param → Param
  | .value _ => .value .erased
  | .raw sql => .raw sql

def Piece.erase : Piece → Piece
  | .plain s => .plain s
  | .slot _ => .slot .erased
  | .fragment sql _ => .fragment sql []

namespace Piece

@[simp] theorem text_erase (p : Piece) : p.erase.text = p.text := by
  cases p <;> rfl

theorem mapText_erase (f : List Char → List Char) (p : Piece) :
    (p.mapText f).erase = p.erase.mapText f := by
  cases p <;> rfl

theorem insertAt_erase (n : Nat) (words : String) (p : Piece) :
    (p.insertAt n words).map erase = p.erase.insertAt n words := by
  cases p with
  | slot value =>
    by_cases h : n = 0 <;> simp [insertAt, erase, h]
  | plain s => rfl
  | fragment sql values => rfl

end Piece

namespace Sql

def erase (sql : Sql) : Sql :=
  ⟨sql.pieces.map Piece.erase⟩

@[simp] theorem text_erase (sql : Sql) : sql.erase.text = sql.text := by
  simp [text, erase, List.foldr_map]

@[simp] theorem isEmpty_erase (sql : Sql) : sql.erase.isEmpty = sql.isEmpty := by
  simp [isEmpty, erase, List.all_map, Function.comp_def]

@[simp] theorem erase_erase (sql : Sql) : sql.erase.erase = sql.erase := by
  have twice : ∀ p : Piece, p.erase.erase = p.erase := fun p => by cases p <;> rfl
  simp [erase, twice, Function.comp_def]

@[simp] theorem erase_ofText (s : String) : (ofText s).erase = ofText s := rfl

@[simp] theorem erase_empty : empty.erase = empty := rfl

@[simp] theorem erase_ofFragment (sql : String) (values : List Binding) :
    (ofFragment sql values).erase = ofFragment sql [] := rfl

@[simp] theorem erase_ofParam (value : Param) : (ofParam value).erase = ofParam value.erase := by
  cases value <;> rfl

@[simp] theorem erase_append (a b : Sql) : (a ++ b).erase = a.erase ++ b.erase := by
  obtain ⟨ps⟩ := a
  obtain ⟨qs⟩ := b
  exact congrArg mk List.map_append

@[simp] theorem erase_join (sep : String) (parts : List Sql) :
    (join sep parts).erase = join sep (parts.map erase) := by
  induction parts with
  | nil => rfl
  | cons part parts ih =>
    cases parts with
    | nil => rfl
    | cons next rest =>
      change (part ++ ofText sep ++ join sep (next :: rest)).erase = _
      rw [erase_append, erase_append, ih]
      rfl

@[simp] theorem erase_parenthesized (sql : Sql) :
    sql.parenthesized.erase = sql.erase.parenthesized := by
  simp [parenthesized]

@[simp] theorem erase_ite (p : Prop) [Decidable p] (a b : Sql) :
    (if p then a else b).erase = if p then a.erase else b.erase :=
  apply_ite erase p a b

/-- Whether a part is empty is a matter of its words. -/
@[simp] theorem filter_erase (parts : List Sql) :
    (parts.map erase).filter (fun part => !part.isEmpty)
      = (parts.filter fun part => !part.isEmpty).map erase := by
  simp [List.filter_map, Function.comp_def]

@[simp] theorem erase_spaced (parts : List Sql) :
    (spaced parts).erase = spaced (parts.map erase) := by
  simp [spaced]

@[simp] theorem erase_trimEnd (sql : Sql) : sql.trimEnd.erase = sql.erase.trimEnd := by
  obtain ⟨ps⟩ := sql
  simp only [erase, trimEnd, mk.injEq]
  induction ps with
  | nil => rfl
  | cons p ps ih =>
    simp only [List.foldr_cons, List.map_cons, ← ih]
    simp only [List.all_map, Function.comp_def, Piece.text_erase]
    split <;> simp [Piece.mapText_erase]

@[simp] theorem erase_insertAt (n : Nat) (words : String) (sql : Sql) :
    (sql.insertAt n words).erase = sql.erase.insertAt n words := by
  obtain ⟨ps⟩ := sql
  simp only [erase, insertAt, mk.injEq]
  induction ps generalizing n with
  | nil => rfl
  | cons p ps ih =>
    simp only [insertPieces, List.map_cons, Piece.text_erase]
    split
    · rw [List.map_append, Piece.insertAt_erase]
    · rw [List.map_cons, ih]

end Sql

@[simp] theorem erase_paramList (values : List Param) :
    (paramList values).erase = paramList (values.map Param.erase) := by
  simp [paramList, Function.comp_def]

section Results

variable {ε α β γ : Type}

@[simp] theorem functor_map (f : α → β) (x : Except ε α) : f <$> x = x.map f := rfl

@[simp] theorem map_of_ok (f : α → β) (a : α) : (Except.ok a : Except ε α).map f = .ok (f a) := rfl

@[simp] theorem bind_of_ok (a : α) (f : α → Except ε β) :
    (Except.ok a : Except ε α) >>= f = f a := rfl

@[simp] theorem map_of_pure (f : α → β) (a : α) : (pure a : Except ε α).map f = pure (f a) := rfl

@[simp] theorem map_of_error (f : α → β) (error : ε) :
    (Except.error error : Except ε α).map f = .error error := rfl

@[simp] theorem map_of_map (f : α → β) (g : β → γ) (x : Except ε α) :
    (x.map f).map g = x.map fun a => g (f a) := by
  cases x <;> rfl

@[simp] theorem map_of_bind (x : Except ε α) (f : α → Except ε β) (g : β → γ) :
    (x >>= f).map g = x >>= fun a => (f a).map g := by
  cases x <;> rfl

@[simp] theorem bind_of_map (x : Except ε α) (f : α → β) (g : β → Except ε γ) :
    x.map f >>= g = x >>= fun a => g (f a) := by
  cases x <;> rfl

@[simp] theorem map_of_ite (p : Prop) [Decidable p] (x y : Except ε α) (f : α → β) :
    (if p then x else y).map f = if p then x.map f else y.map f :=
  apply_ite (Except.map f) p x y

@[simp] theorem allOk_map (f : α → β) (results : List (Except ε α)) :
    allOk (results.map (Except.map f)) = (allOk results).map (List.map f) := by
  induction results with
  | nil => rfl
  | cons r rest ih =>
    cases r with
    | error error => rfl
    | ok a =>
      simp only [List.map_cons, map_of_ok, allOk, ih]
      cases allOk rest <;> rfl

end Results

/-- The same words, or the same error. -/
def SameWords (x y : Outcome) : Prop :=
  x.map Sql.text = y.map Sql.text

theorem sameWords_of_erased {x y z : Outcome} (hx : z = x.map Sql.erase)
    (hy : z = y.map Sql.erase) : SameWords x y := by
  have words := congrArg (Except.map Sql.text) (hx.symm.trans hy)
  simpa [SameWords] using words

theorem bind_erase {x x' : Outcome} {f f' : Sql → Outcome} (hx : x' = x.map Sql.erase)
    (hf : ∀ sql, f' sql.erase = (f sql).map Sql.erase) :
    (x' >>= f') = (x >>= f).map Sql.erase := by
  rw [hx, bind_of_map, map_of_bind]
  exact congrArg (x >>= ·) (funext hf)

@[simp] theorem joinOutcomes_erase (sep : String) (parts : List Outcome) :
    joinOutcomes sep (parts.map (Except.map Sql.erase))
      = (joinOutcomes sep parts).map Sql.erase := by
  simp [joinOutcomes]

/-- Parts that each compile to their words do so as a list. -/
theorem map_erased {A B : Type} {made erase : A → A} {compile : A → B} {erased : B → B}
    {items : List A} (each : ∀ item, compile (erase (made item)) = erased (compile item)) :
    ((items.map made).map erase).map compile = (items.map compile).map erased := by
  simp only [List.map_map]
  exact List.map_congr_left fun item _ => each item

/-- A condition without its values. -/
def eraseCondition (condition : Conjunction × Outcome) : Conjunction × Outcome :=
  (condition.1, condition.2.map Sql.erase)

@[simp] theorem tied_erase (condition : Conjunction × Outcome) :
    tied (eraseCondition condition) = (tied condition).map Sql.erase := by
  simp [tied, eraseCondition]

@[simp] theorem conditions_erase (members : List (Conjunction × Outcome)) :
    conditions (members.map eraseCondition) = (conditions members).map Sql.erase := by
  cases members with
  | nil => rfl
  | cons member members =>
    have each : (members.map eraseCondition).map tied
        = (members.map tied).map (Except.map Sql.erase) := by
      simp [Function.comp_def]
    obtain ⟨conjunction, first⟩ := member
    simp only [List.map_cons, conditions, eraseCondition, each]
    exact joinOutcomes_erase " " (first :: members.map tied)

def Compiled.erase (k : Compiled) : Compiled where
  select := k.select.map Sql.erase
  joins := k.joins.map (Except.map Sql.erase)
  wheres := k.wheres.map eraseCondition
  havings := k.havings.map eraseCondition

end SqlCompiler
