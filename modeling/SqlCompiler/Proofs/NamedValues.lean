import Mathlib.Data.List.Nodup
import Mathlib.Data.List.Infix
import SqlCompiler.Substitute
import SqlCompiler.Proofs.TargetNames
/-!
# Values behind their names

A statement with values in place of its named placeholders is described by what stands at each
colon, whatever order the names are given in. Putting the longest names first is enough to find
that text: two names of one size that a text both starts with are the same.
-/

namespace SqlCompiler

namespace Substitute

/-- A text is cut behind the longest of some keys that it starts with. -/
structure CutAt (keys : List (List Char × String)) (text key : List Char) (value : String)
    (rest : List Char) : Prop where
  bound : (key, value) ∈ keys
  cut : text = key ++ rest
  longest : ∀ other ∈ keys, other.1 <+: text → other.1.length ≤ key.length

/-- A text with values in place of its colons and keys. Two colons are copied, a colon before some
key gives way to the value of the longest one together with it, and all else is copied. -/
inductive Filled (keys : List (List Char × String)) : List Char → List Char → Prop where
  | done : Filled keys [] []
  | cast {rest out : List Char} (behind : Filled keys rest out) :
      Filled keys (':' :: ':' :: rest) (':' :: ':' :: out)
  | key {text key rest out : List Char} {value : String} (alone : ∀ more, text ≠ ':' :: more)
      (here : CutAt keys text key value rest) (behind : Filled keys rest out) :
      Filled keys (':' :: text) (value.toList ++ out)
  | colon {text out : List Char} (alone : ∀ more, text ≠ ':' :: more)
      (free : ∀ bound ∈ keys, ¬ bound.1 <+: text) (behind : Filled keys text out) :
      Filled keys (':' :: text) (':' :: out)
  | char {c : Char} {text out : List Char} (other : c ≠ ':') (behind : Filled keys text out) :
      Filled keys (c :: text) (c :: out)

variable {keys : List (List Char × String)} {key rest text out : List Char} {value : String}

/-- Keys in an order where none is longer than one before it. -/
def LongestFirst (keys : List (List Char × String)) : Prop :=
  keys.Pairwise fun a b => (String.ofList b.1).utf8ByteSize ≤ (String.ofList a.1).utf8ByteSize

/-- Among the keys that start one text, size in octets and length give the same order. -/
theorem length_le_of_utf8ByteSize_le {a b : List Char} (ha : a <+: text) (hb : b <+: text)
    (size : (String.ofList b).utf8ByteSize ≤ (String.ofList a).utf8ByteSize) :
    b.length ≤ a.length := by
  rcases List.prefix_or_prefix_of_prefix ha hb with ⟨more, rfl⟩ | inner
  · rw [String.ofList_append, String.utf8ByteSize_append] at size
    have empty : String.ofList more = "" := String.utf8ByteSize_eq_zero_iff.mp (by omega)
    have nothing : more = [] := by simpa using empty
    rw [nothing, List.append_nil]
  · exact inner.length_le

theorem keyAt?_eq_none_iff : keyAt? keys text = none ↔ ∀ bound ∈ keys, ¬ bound.1 <+: text := by
  simp [keyAt?, List.find?_eq_none, Text.dropLead?_isSome_iff]

theorem cutAt_of_keyAt? (sorted : LongestFirst keys)
    (found : keyAt? keys text = some (key, value)) :
    CutAt keys text key value (text.drop key.length) := by
  obtain ⟨hit, before, after, rfl, missed⟩ := List.find?_eq_some_iff_append.mp found
  have leads : key <+: text := Text.dropLead?_isSome_iff.mp hit
  refine ⟨by simp, (List.prefix_iff_eq_append.mp leads).symm, fun other member start => ?_⟩
  rcases List.mem_append.mp member with early | late
  · have found : (Text.dropLead? other.1 text).isSome = true := Text.dropLead?_isSome_iff.mpr start
    have absent : (Text.dropLead? other.1 text).isSome = false := by simpa using missed other early
    rw [absent] at found
    cases found
  · rcases List.mem_cons.mp late with rfl | late
    · exact le_rfl
    · obtain ⟨-, ordered, -⟩ := List.pairwise_append.mp sorted
      exact length_le_of_utf8ByteSize_le leads start (List.rel_of_pairwise_cons ordered late)

/-- Two keys of one length that start the same text are one key. -/
theorem CutAt.unique {other : List Char} {otherValue : String} {behind : List Char}
    (apart : (keys.map Prod.fst).Nodup) (a : CutAt keys text key value rest)
    (b : CutAt keys text other otherValue behind) : value = otherValue ∧ rest = behind := by
  have startsA : key <+: text := ⟨rest, a.cut.symm⟩
  have startsB : other <+: text := ⟨behind, b.cut.symm⟩
  have lengths : key.length = other.length :=
    le_antisymm (b.longest _ a.bound startsA) (a.longest _ b.bound startsB)
  obtain ⟨rfl, rfl⟩ := List.append_inj (a.cut.symm.trans b.cut) lengths
  have same := List.inj_on_of_nodup_map apart a.bound b.bound rfl
  exact ⟨congrArg Prod.snd same, rfl⟩

theorem Filled.unique {other : List Char} (apart : (keys.map Prod.fst).Nodup)
    (a : Filled keys text out) (b : Filled keys text other) : out = other := by
  induction a generalizing other with
  | done =>
    cases b
    rfl
  | cast _ ih =>
    cases b with
    | cast behind => rw [ih behind]
    | key alone => exact (alone _ rfl).elim
    | colon alone => exact (alone _ rfl).elim
    | char other => exact (other rfl).elim
  | key alone here _ ih =>
    cases b with
    | cast => exact (alone _ rfl).elim
    | key _ there behind =>
      obtain ⟨rfl, rfl⟩ := here.unique apart there
      rw [ih behind]
    | colon _ free => exact (free _ here.bound ⟨_, here.cut.symm⟩).elim
    | char other => exact (other rfl).elim
  | colon alone free _ ih =>
    cases b with
    | cast => exact (alone _ rfl).elim
    | key _ here => exact (free _ here.bound ⟨_, here.cut.symm⟩).elim
    | colon _ _ behind => rw [ih behind]
    | char other => exact (other rfl).elim
  | char apart _ ih =>
    cases b with
    | cast => exact (apart rfl).elim
    | key => exact (apart rfl).elim
    | colon => exact (apart rfl).elim
    | char _ behind => rw [ih behind]

/-- The order of the keys plays no part in what is meant. -/
theorem Filled.perm {given : List (List Char × String)} (same : keys.Perm given)
    (h : Filled keys text out) : Filled given text out := by
  induction h with
  | done => exact .done
  | cast _ ih => exact .cast ih
  | key alone here _ ih =>
    refine .key alone ⟨same.mem_iff.mp here.bound, here.cut, fun other member => ?_⟩ ih
    exact here.longest other (same.mem_iff.mpr member)
  | colon alone free _ ih =>
    exact .colon alone (fun bound member => free bound (same.mem_iff.mpr member)) ih
  | char other _ ih => exact .char other ih

/-! ### Reading once -/

/-- Keys tried in the order of their size give the text meant. -/
theorem filled_named (sorted : LongestFirst keys) (skip : Nat) (text : List Char) :
    Filled keys (text.drop skip) (named keys skip text) := by
  fun_induction named keys skip text with
  | case1 skip => simpa using .done
  | case2 skip c rest ih => exact ih
  | case3 rest ih => exact .cast ih
  | case4 rest alone key value found ih => exact .key alone (cutAt_of_keyAt? sorted found) ih
  | case5 rest alone missing ih => exact .colon alone (keyAt?_eq_none_iff.mp missing) ih
  | case6 c rest _ other ih => exact .char other ih

theorem sortKeys_longestFirst (given : List (String × String)) : LongestFirst (sortKeys given) := by
  refine (List.pairwise_mergeSort ?_ ?_ _).imp ?_
  · intro a b c ab bc
    simp only [decide_eq_true_eq] at ab bc ⊢
    exact bc.trans ab
  · intro a b
    simpa using Nat.le_total _ _
  · intro a b ab
    simpa using ab

/-- A name as it is looked for, without colons in front. -/
def bareKey (key : String) : List Char :=
  key.toList.dropWhile (· = ':')

theorem sortKeys_perm (given : List (String × String))
    (solid : ∀ bound ∈ given, bareKey bound.1 ≠ []) :
    (sortKeys given).Perm (given.map fun bound => (bareKey bound.1, bound.2)) := by
  refine (List.mergeSort_perm _ _).trans ?_
  rw [List.filter_eq_self.mpr]
  · rfl
  · intro bound member
    obtain ⟨own, there, rfl⟩ := List.mem_map.mp member
    simpa [bareKey] using solid own there

end Substitute

namespace Engine

open Substitute

variable (e : Engine)

/-- The names of some values as they are looked for, each with its value as a literal. -/
def namedLiterals (bindings : List (String × Binding)) : List (List Char × String) :=
  bindings.map fun bound => (bareKey bound.1, e.escape bound.2)

theorem filled_inlineNamed_iff (sql : String) {bindings : List (String × Binding)}
    (solid : ∀ bound ∈ bindings, bareKey bound.1 ≠ [])
    (apart : (bindings.map fun bound => bareKey bound.1).Nodup) (out : String) :
    Filled (e.namedLiterals bindings) sql.toList out.toList ↔ out = e.inlineNamed sql bindings := by
  have keys : (sortKeys (bindings.map fun bound => (bound.1, e.escape bound.2))).Perm
      (e.namedLiterals bindings) := by
    have perm := sortKeys_perm (bindings.map fun bound => (bound.1, e.escape bound.2)) <| by
      intro literal member
      obtain ⟨bound, there, rfl⟩ := List.mem_map.mp member
      exact solid bound there
    simpa [namedLiterals, Function.comp_def] using perm
  have names : ((e.namedLiterals bindings).map Prod.fst).Nodup := by
    simpa [namedLiterals, Function.comp_def] using apart
  have filled :
      Filled (e.namedLiterals bindings) sql.toList (e.inlineNamed sql bindings).toList := by
    rw [inlineNamed, String.toList_ofList]
    exact (filled_named (sortKeys_longestFirst _) 0 sql.toList).perm keys
  constructor
  · intro other
    exact String.toList_inj.mp (other.unique names filled)
  · rintro rfl
    exact filled

/-- Values put in by name do not depend on the order in which the names are given, if these are
not empty and differ from each other without the colons in front. The text is the one in which
two colons are copied, the longest name behind any other colon is replaced together with it, and
what is put in is not read again. -/
theorem inlineNamed_reordered (sql : String) {bindings others : List (String × Binding)}
    (solid : ∀ bound ∈ bindings, bareKey bound.1 ≠ [])
    (apart : (bindings.map fun bound => bareKey bound.1).Nodup)
    (reordered : others.Perm bindings) :
    e.inlineNamed sql others = e.inlineNamed sql bindings ∧
      ∀ out : String, Filled (e.namedLiterals bindings) sql.toList out.toList ↔
        out = e.inlineNamed sql bindings := by
  have meant := e.filled_inlineNamed_iff sql solid apart
  have otherSolid : ∀ bound ∈ others, bareKey bound.1 ≠ [] :=
    fun bound member => solid bound (reordered.mem_iff.mp member)
  have keys : (others.map fun bound => bareKey bound.1).Perm
      (bindings.map fun bound => bareKey bound.1) := reordered.map _
  have filled := (e.filled_inlineNamed_iff sql otherSolid (keys.nodup_iff.mpr apart) _).mpr rfl
  have literals : (e.namedLiterals others).Perm (e.namedLiterals bindings) := reordered.map _
  exact ⟨(meant _).mp (filled.perm literals), meant⟩

/-- One name inside another, and a value that holds a name behind a colon. -/
def nestedNames : List (String × Binding) :=
  [("id", .int 1), (":id_list", .text "7, :id")]

/-- Colons of all kinds: before either name, in a cast, three in a row, and before no name. -/
def colonSql : String := "select :id, :id_list, a::text, :::id, :other"

/-- What the statement says with the values put in. -/
def colonText : String := "select '1', '7, :id', a::text, ::'1', :other"

theorem nestedNames_inlined :
    (∀ bound ∈ nestedNames, bareKey bound.1 ≠ []) ∧
      (nestedNames.map fun bound => bareKey bound.1).Nodup ∧
      nestedNames.reverse.Perm nestedNames ∧
      (Engine.mk .postgres {}).inlineNamed colonSql nestedNames.reverse = colonText ∧
      Filled ((Engine.mk .postgres {}).namedLiterals nestedNames) colonSql.toList
        colonText.toList := by
  have solid : ∀ bound ∈ nestedNames, bareKey bound.1 ≠ [] := by decide
  refine ⟨solid, by decide, List.reverse_perm _, ?_⟩
  obtain ⟨same, meant⟩ := (Engine.mk .postgres {}).inlineNamed_reordered colonSql solid
    (by decide) (List.reverse_perm _)
  have sorted : LongestFirst ((Engine.mk .postgres {}).namedLiterals nestedNames.reverse) := by
    unfold LongestFirst
    decide
  have written : named ((Engine.mk .postgres {}).namedLiterals nestedNames.reverse) 0
      colonSql.toList = colonText.toList := by decide +kernel
  have filled := (filled_named sorted 0 colonSql.toList).perm
    ((List.reverse_perm nestedNames).map _)
  rw [List.drop_zero, written] at filled
  exact ⟨same.trans ((meant _).mp filled).symm, filled⟩

end Engine

end SqlCompiler
