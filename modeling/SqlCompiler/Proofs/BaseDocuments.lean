import SqlCompiler.Proofs.JsonText
import SqlCompiler.Proofs.TreeDocuments
/-!
# Documents that trees start from

The tree of a document has that document again, but for integers that need all 64 bits: its leaves
are bound values, and a bound integer has a sign.
-/

namespace SqlCompiler

namespace Binary64

theorem floorLog2_one {n : Nat} (positive : n ≠ 0) : floorLog2 n 1 = n.log2 := by
  have reached : twoTo n.log2 ≤ n := Nat.log2_self_le positive
  have one : Nat.log2 1 = 0 := by decide
  simp [floorLog2, one, Nat.not_lt.mpr reached]

theorem nearestEven_le (num den : Nat) : nearestEven num den ≤ num / den + 1 := by
  unfold nearestEven
  grind

/-- Bits below those of the infinities make a finite number. -/
theorem isFinite_of_lt {bits : Nat} (below : bits < 2047 * twoTo 52) :
    (⟨bits.toUInt64⟩ : Binary64).isFinite = true := by
  have size : twoTo 52 = 2 ^ 52 := rfl
  have word : bits < 2 ^ 64 := by omega
  have whole : bits.toUInt64.toNat = bits := Nat.mod_eq_of_lt word
  have exponent : bits / twoTo 52 < 2047 := (Nat.div_lt_iff_lt_mul (twoTo_pos 52)).mpr below
  simp only [isFinite, biased, whole, decide_eq_true_eq]
  exact Nat.lt_of_le_of_lt (Nat.mod_le _ _) exponent

/-- An integer that needs all 64 bits has a finite rounded number: its significand is moved by 11
places. -/
theorem isFinite_ofInt {n : Int} (least : twoTo 63 ≤ n) (fits : n < UInt64.size) :
    (ofInt n).isFinite = true := by
  obtain ⟨m, rfl⟩ := Int.eq_ofNat_of_zero_le (Int.le_trans (Int.natCast_nonneg _) least)
  have lower : 2 ^ 63 ≤ m := Int.ofNat_le.mp least
  have upper : m < 2 ^ 64 := Int.ofNat_lt.mp fits
  have positive : m ≠ 0 := by omega
  have digits : m.log2 = 63 := (Nat.log2_eq_iff positive).mpr ⟨lower, upper⟩
  have exponent : max (((63 : Nat) : Int) - (((53 : Nat) : Int) - 1)) (-1074) = 11 := by decide
  have rounded : roundTo 53 (-1074) m 1 = (nearestEven m (1 * twoTo 11), 11) := by
    simp only [roundTo, floorLog2_one positive, digits, exponent]
    rfl
  have significand : nearestEven m (1 * twoTo 11) ≤ 2 ^ 53 := by
    have bound := nearestEven_le m (1 * twoTo 11)
    have size : 1 * twoTo 11 = 2048 := rfl
    rw [size] at bound ⊢
    omega
  have below : ((11 : Int) + 1074).toNat * twoTo 52 + nearestEven m (1 * twoTo 11)
      < 2047 * twoTo 52 := by
    have size : ((11 : Int) + 1074).toNat * twoTo 52 = 1085 * 2 ^ 52 := rfl
    have bound : 2047 * twoTo 52 = 2047 * 2 ^ 52 := rfl
    omega
  have unsigned : signBit (decide (((m : Nat) : Int) < 0)) = 0 := by
    rw [decide_eq_false (by omega)]
    rfl
  unfold ofInt roundRatio
  simp only [Int.natAbs_natCast, if_neg positive, rounded]
  rw [if_neg (Nat.not_le.mpr below), unsigned, Nat.zero_add]
  exact isFinite_of_lt below

end Binary64

namespace Json

mutual

/-- A document with rounded numbers in the place of the integers that no bound integer holds. -/
def narrowed : Json → Json
  | int n => if Binding.fitsInt n then int n else float (Binary64.ofInt n)
  | arr items => arr (narrowedItems items)
  | obj members => obj (narrowedMembers members)
  | scalar => scalar

def narrowedItems : List Json → List Json
  | [] => []
  | item :: items => item.narrowed :: narrowedItems items

def narrowedMembers : List (String × Json) → List (String × Json)
  | [] => []
  | (name, value) :: members => (name, value.narrowed) :: narrowedMembers members

end

/-- Not an integer that needs all 64 bits. -/
def Signed (value : Json) : Prop :=
  ∀ n, value = int n → Binding.fitsInt n = true

theorem narrowedMembers_insertMember (name : String) (value : Json)
    (members : List (String × Json)) :
    narrowedMembers (insertMember name value members)
      = insertMember name value.narrowed (narrowedMembers members) := by
  induction members with
  | nil => rfl
  | cons member members ih =>
    obtain ⟨other, held⟩ := member
    simp only [insertMember, narrowedMembers]
    split
    · rfl
    · split
      · rfl
      · rw [narrowedMembers, ih]

theorem canonical_narrowed_int (n : Int) : (int n).narrowed.canonical = (int n).narrowed := by
  rw [narrowed]
  split <;> rfl

mutual

theorem canonical_narrowed : ∀ document : Json,
    document.narrowed.canonical = document.canonical.narrowed
  | null | bool _ | float _ | str _ => rfl
  | int n => canonical_narrowed_int n
  | arr items => congrArg arr (canonicalItems_narrowed items)
  | obj members => congrArg obj (canonicalMembers_narrowed members [])

theorem canonicalItems_narrowed : ∀ items : List Json,
    canonicalItems (narrowedItems items) = narrowedItems (canonicalItems items)
  | [] => rfl
  | item :: items => by
    rw [narrowedItems, canonicalItems, canonical_narrowed item, canonicalItems_narrowed items]
    rfl

theorem canonicalMembers_narrowed : ∀ members sorted : List (String × Json),
    canonicalMembers (narrowedMembers sorted) (narrowedMembers members)
      = narrowedMembers (canonicalMembers sorted members)
  | [], _ => rfl
  | (name, value) :: members, sorted => by
    rw [narrowedMembers, canonicalMembers, canonicalMembers, canonical_narrowed value,
      ← narrowedMembers_insertMember]
    exact canonicalMembers_narrowed members _

end

mutual

/-- A document is kept whole if none of its integers is too great. -/
theorem narrowed_eq_iff : ∀ document : Json,
    document.narrowed = document ↔ document.Throughout Signed
  | null | bool _ | float _ | str _ => by
    rw [throughout_scalar rfl]
    simp [narrowed, Signed]
  | int n => by
    rw [throughout_scalar rfl, narrowed]
    by_cases fits : Binding.fitsInt n = true <;> simp [fits, Signed]
  | arr items => by
    rw [throughout_arr, narrowed, arr.injEq, narrowedItems_eq_iff items]
    simp [Signed]
  | obj members => by
    rw [throughout_obj, narrowed, obj.injEq, narrowedMembers_eq_iff members]
    simp [Signed]

theorem narrowedItems_eq_iff : ∀ items : List Json,
    narrowedItems items = items ↔ ∀ item ∈ items, item.Throughout Signed
  | [] => by simp [narrowedItems]
  | item :: items => by
    rw [narrowedItems, List.cons.injEq, narrowed_eq_iff item, narrowedItems_eq_iff items,
      List.forall_mem_cons]

theorem narrowedMembers_eq_iff : ∀ members : List (String × Json),
    narrowedMembers members = members ↔ ∀ member ∈ members, member.2.Throughout Signed
  | [] => by simp [narrowedMembers]
  | (name, value) :: members => by
    rw [narrowedMembers, List.cons.injEq, Prod.mk.injEq, narrowed_eq_iff value,
      narrowedMembers_eq_iff members, List.forall_mem_cons]
    simp

end

end Json

/-! ### There and back -/

namespace UpdateTree

theorem toDocument_ofInt {n : Int} (exact : (Json.int n).Exact) :
    (Binding.ofDocument (.int n)).toDocument = (Json.int n).narrowed := by
  obtain ⟨least, fits⟩ := exact
  rw [Binding.ofDocument, Json.narrowed]
  split
  · rfl
  · next great =>
    have great : twoTo 63 ≤ n := by simpa [Binding.fitsInt, least] using great
    rw [Binding.toDocument, if_pos (Binary64.isFinite_ofInt great fits)]

mutual

theorem toDocument_ofDocument : ∀ {document : Json}, document.Exact →
    (ofDocument document).toDocument = .ok document.narrowed.canonical
  | .null, _ | .bool _, _ | .str _, _ => rfl
  | .int n, exact => by
    rw [Json.canonical_narrowed_int, ← toDocument_ofInt exact]
    rfl
  | .arr items, exact => by
    rw [ofDocument, toDocument, documentItems_ofItems exact 0]
    rfl
  | .obj members, exact => by
    rw [ofDocument, toDocument, documentMembers_ofMembers exact []]
    rfl

theorem documentItems_ofItems : ∀ {items : List Json}, Json.ExactItems items → ∀ i,
    documentItems i (ofItems i items) = .ok (Json.canonicalItems (Json.narrowedItems items))
  | [], _, _ => rfl
  | item :: items, exact, i => by
    rw [ofItems, documentItems, toDocument_ofDocument exact.1]
    show (do let rest ← documentItems (i + 1) (ofItems (i + 1) items); _) = _
    rw [documentItems_ofItems exact.2 (i + 1), Nat.sub_self]
    rfl

theorem documentMembers_ofMembers : ∀ {members : List (String × Json)}, Json.ExactMembers members →
    ∀ sorted, documentMembers sorted (ofMembers members)
      = .ok (Json.canonicalMembers sorted (Json.narrowedMembers members))
  | [], _, _ => rfl
  | (name, value) :: members, exact, sorted => by
    rw [ofMembers, documentMembers, toDocument_ofDocument exact.1]
    exact documentMembers_ofMembers exact.2 _

end

/-- The tree of a document without fractions has a document, which has rounded numbers in the place
of the integers that need all 64 bits. It is the document itself if there are none of these. -/
theorem ofDocument_survives_iff {document : Json} (exact : document.Exact)
    (canonical : document.canonical = document) :
    (ofDocument document).toDocument = .ok document.narrowed ∧
      ((ofDocument document).toDocument = .ok document ↔ document.Throughout Json.Signed) := by
  have kept : (ofDocument document).toDocument = .ok document.narrowed := by
    rw [toDocument_ofDocument exact, Json.canonical_narrowed, canonical]
  refine ⟨kept, ?_⟩
  rw [kept, Except.ok.injEq]
  exact document.narrowed_eq_iff

/-- The least and the greatest of the bound integers, and empty containers. -/
def extremes : Json :=
  .obj [("empty", .arr [.obj [], .arr [], .null]),
    ("range", .arr [.int (-9223372036854775808), .int 9223372036854775807])]

theorem extremes_survive :
    extremes.Exact ∧ extremes.canonical = extremes ∧
      (ofDocument extremes).toDocument = .ok extremes := by
  have exact : extremes.Exact := by
    simp [extremes, Json.Exact, Json.ExactMembers, Json.ExactItems]
    decide
  have canonical : extremes.canonical = extremes := rfl
  have signed : extremes.Throughout Json.Signed := extremes.narrowed_eq_iff.mp rfl
  exact ⟨exact, canonical, (ofDocument_survives_iff exact canonical).2.mpr signed⟩

/-- A document with the greatest integer of 64 bits. -/
def greatNumber : Json :=
  .obj [("id", .int 18446744073709551615)]

/-- The number comes back rounded, as another one. -/
theorem greatNumber_lost :
    greatNumber.Exact ∧ greatNumber.canonical = greatNumber ∧
      (ofDocument greatNumber).toDocument = .ok (.obj [("id", .float ⟨0x43F0000000000000⟩)]) ∧
      (ofDocument greatNumber).toDocument ≠ .ok greatNumber := by
  have exact : greatNumber.Exact := by
    simp [greatNumber, Json.Exact]
  have rounded : (ofDocument greatNumber).toDocument
      = .ok (.obj [("id", .float ⟨0x43F0000000000000⟩)]) := by
    rw [toDocument_ofDocument exact]
    rfl
  refine ⟨exact, rfl, rounded, ?_⟩
  rw [rounded]
  simp [greatNumber]

end UpdateTree

end SqlCompiler
