/-!
# Why a statement cannot be compiled

Either the engine lacks a feature, or a clause makes no sense; `message` has the words.
-/

namespace SqlCompiler

inductive Feature where
  | dialect (name : String)
  | jsonSelectors
  | jsonContains
  | jsonContainsKey
  | jsonLength
  | jsonUpdates
  | fulltext
  | indexHints
  | cycleDetection
  | insertOrIgnore
  | updateFrom
  | upserts
deriving DecidableEq, Repr

namespace Feature

def name : Feature → String
  | dialect name => "the " ++ name ++ " dialect"
  | jsonSelectors => "JSON operations"
  | jsonContains => "JSON contains operations"
  | jsonContainsKey => "JSON contains key operations"
  | jsonLength => "JSON length operations"
  | jsonUpdates => "JSON updates"
  | fulltext => "fulltext where clauses"
  | indexHints => "index hints"
  | cycleDetection => "cycle detection"
  | insertOrIgnore => "inserting while ignoring errors"
  | updateFrom => "update from"
  | upserts => "upserts"

end Feature

inductive Flaw where
  | emptyWhereGroup
  | emptyHavingGroup
  | rowValueCount
  | insertColumns
  | insertMissing (column : String)
  | noTarget
  | unnamedTarget
  | unnamedTruncation
  | noUniqueColumn
  | noUpsertRow
  | shortKeyPath
  | emptyPathSegment
  | negativeIndex (token : String)
  | indexNotNumber (token : String)
  | pathKind (step : String)
  | wholeAndPath (column : String)
  | rawInDocument
deriving DecidableEq, Repr

namespace Flaw

def text : Flaw → String
  | emptyWhereGroup => "nested where group has no conditions"
  | emptyHavingGroup => "nested having group has no conditions"
  | rowValueCount => "row values need as many values as columns"
  | insertColumns => "every inserted row must have the same columns"
  | insertMissing column => "inserted row is missing column " ++ column
  | noTarget => "statement has no target table"
  | unnamedTarget => "joined or limited writes need a named target table"
  | unnamedTruncation => "truncate needs a named table"
  | noUniqueColumn => "upsert needs at least one unique column"
  | noUpsertRow => "upsert needs at least one row"
  | shortKeyPath => "JSON key checks need a column and a path"
  | emptyPathSegment => "empty segment in JSON update path"
  | negativeIndex token => "negative array index " ++ token ++ " in JSON update path"
  | indexNotNumber token => "array index " ++ token ++ " in JSON update path is not a number"
  | pathKind step => "JSON update path uses " ++ step ++ " on a value of another kind"
  | wholeAndPath column =>
    "column " ++ column ++ " is updated both as a whole and through JSON paths"
  | rawInDocument => "expressions cannot be embedded in JSON documents"

end Flaw

inductive CompileError where
  | unsupported (feature : Feature)
  | invalid (flaw : Flaw)
deriving DecidableEq, Repr

namespace CompileError

def message : CompileError → String
  | unsupported feature => "This database engine does not support " ++ feature.name ++ "."
  | invalid flaw => "invalid clause: " ++ flaw.text

end CompileError

/-! ### Results -/

theorem bind_ok {ε α β : Type} {x : Except ε α} {f : α → Except ε β} {b : β}
    (h : (x >>= f) = .ok b) : ∃ a, x = .ok a ∧ f a = .ok b := by
  cases x with
  | error e => cases h
  | ok a => exact ⟨a, rfl, h⟩

theorem pure_ok {ε α : Type} {a b : α} (h : (pure a : Except ε α) = .ok b) : a = b :=
  Except.ok.inj h

theorem map_ok {ε α β : Type} {x : Except ε α} {f : α → β} {b : β} (h : x.map f = .ok b) :
    ∃ a, x = .ok a ∧ f a = b := by
  cases x with
  | error e => cases h
  | ok a => exact ⟨a, rfl, Except.ok.inj h⟩

/-- All results, or the first error among them. -/
def allOk {ε α : Type} : List (Except ε α) → Except ε (List α)
  | [] => .ok []
  | .ok a :: rest =>
    match allOk rest with
    | .ok as => .ok (a :: as)
    | .error e => .error e
  | .error e :: _ => .error e

theorem allOk_eq_ok {ε α : Type} {results : List (Except ε α)} {values : List α} :
    allOk results = .ok values ↔ results = values.map .ok := by
  induction results generalizing values with
  | nil => cases values <;> simp [allOk]
  | cons r rest ih =>
    cases r with
    | error e => cases values <;> simp [allOk]
    | ok a =>
      rw [allOk]
      cases h : allOk rest with
      | error e =>
        cases values with
        | nil => simp
        | cons b bs =>
          have hne : rest ≠ bs.map .ok := fun hr => by simp [ih.2 hr] at h
          simp [hne]
      | ok as =>
        cases values with
        | nil => simp
        | cons b bs =>
          have hrest : as = bs ↔ rest = bs.map .ok := by
            rw [← ih, h, Except.ok.injEq]
          simp [hrest]

theorem allOk_cons {ε α : Type} (r : Except ε α) (rest : List (Except ε α)) :
    allOk (r :: rest) = r >>= fun value => (allOk rest).map (value :: ·) := by
  cases r with
  | error e => rfl
  | ok value =>
    rw [allOk]
    cases allOk rest <;> rfl

theorem allOk_append {ε α : Type} (front rest : List (Except ε α)) :
    allOk (front ++ rest) = allOk front >>= fun values => (allOk rest).map (values ++ ·) := by
  induction front with
  | nil =>
    rw [List.nil_append]
    cases allOk rest <;> rfl
  | cons r front ih =>
    rw [List.cons_append, allOk_cons, allOk_cons, ih]
    cases r with
    | error e => rfl
    | ok value =>
      cases allOk front with
      | error e => rfl
      | ok values => cases allOk rest <;> rfl

end SqlCompiler
