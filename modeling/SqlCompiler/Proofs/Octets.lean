import SqlCompiler.Text.Utf8
/-!
# Octets of texts

Octets are read as one character exactly if they are written for it, so that a text is read from
its own octets and from no others, and octets are refused if no text has them. An octet of ASCII
stands among the octets of a text only where its own character stands in the text.
-/

namespace SqlCompiler.Text

variable {c d : Char} {text part : List Char} {octets tail front rear : List UInt8} {b : UInt8}
  {p : Utf8Pending} {owed bits n : Nat} {least greatest : UInt8}

theorem toNat_ofNat (valid : n.isValidChar) : (Char.ofNat n).toNat = n := by
  rw [Char.ofNat, dif_pos valid]
  rfl

theorem toNat_toUInt8 (small : n < 0x100) : n.toUInt8.toNat = n :=
  UInt8.toNat_ofNat_of_lt small

theorem toUInt8_eq (small : n < 0x100) (same : n = b.toNat) : n.toUInt8 = b := by
  rw [← UInt8.toNat_inj, toNat_toUInt8 small, same]

theorem utf8_cons (c : Char) (text : List Char) : utf8 (c :: text) = utf8OfChar c ++ utf8 text :=
  List.flatMap_cons

theorem utf8OfChar_ascii (ascii : c.toNat < 0x80) : utf8OfChar c = [c.toNat.toUInt8] := by
  simp only [utf8OfChar, if_pos ascii]

/-- Every octet of a character beyond ASCII is beyond ASCII. -/
theorem utf8OfChar_wide (wide : ¬ c.toNat < 0x80) : ∀ b ∈ utf8OfChar c, 0x80 ≤ b.toNat := by
  have bound : c.val.toNat < 0x110000 := by
    have valid := c.valid
    simp only [UInt32.isValidChar, Nat.isValidChar] at valid
    omega
  have same : c.toNat = c.val.toNat := rfl
  simp only [utf8OfChar, if_neg wide]
  split
  · simp
    omega
  · split <;> simp <;> omega

theorem utf8_eq_nil : utf8 text = [] ↔ text = [] := by
  have filled (c : Char) : utf8OfChar c ≠ [] := by
    simp only [utf8OfChar]
    split
    · simp
    · split
      · simp
      · split <;> simp
  cases text with
  | nil => exact iff_of_true rfl rfl
  | cons c text => simp [utf8_cons, filled]

theorem toNat_octet (ascii : c.toNat < 0x80) : c.toNat.toUInt8.toNat = c.toNat :=
  toNat_toUInt8 (by omega)

/-- An octet of ASCII occurs in the octets of its own character only. -/
theorem eq_of_mem_utf8OfChar (ascii : c.toNat < 0x80) (member : c.toNat.toUInt8 ∈ utf8OfChar d) :
    d = c := by
  by_cases narrow : d.toNat < 0x80
  · rw [utf8OfChar_ascii narrow, List.mem_singleton] at member
    have same := congrArg UInt8.toNat member
    rw [toNat_octet ascii, toNat_octet narrow] at same
    exact (Char.toNat_inj.mp same).symm
  · have wide := utf8OfChar_wide narrow _ member
    rw [toNat_octet ascii] at wide
    omega

theorem mem_utf8_iff (ascii : c.toNat < 0x80) : c.toNat.toUInt8 ∈ utf8 text ↔ c ∈ text := by
  rw [utf8, List.mem_flatMap]
  constructor
  · rintro ⟨d, inside, member⟩
    obtain rfl := eq_of_mem_utf8OfChar ascii member
    exact inside
  · intro inside
    exact ⟨c, inside, by simp [utf8OfChar_ascii ascii]⟩

/-- The octets of a text are cut at an octet of ASCII as the text is at its character. -/
theorem utf8_cut (ascii : c.toNat < 0x80) (cut : utf8 text = front ++ c.toNat.toUInt8 :: rear) :
    ∃ before behind, text = before ++ c :: behind ∧ front = utf8 before ∧ rear = utf8 behind := by
  induction text generalizing front with
  | nil => simp [utf8] at cut
  | cons d text ih =>
    rw [utf8_cons] at cut
    rcases List.append_eq_append_iff.mp cut with ⟨more, rfl, later⟩ | ⟨more, inside, later⟩
    · obtain ⟨before, behind, rfl, rfl, rfl⟩ := ih later
      exact ⟨d :: before, behind, rfl, (utf8_cons d before).symm, rfl⟩
    · cases more with
      | nil =>
        obtain ⟨before, behind, rfl, none, rfl⟩ := @ih [] later.symm
        rw [List.append_nil] at inside
        refine ⟨d :: before, behind, rfl, ?_, rfl⟩
        rw [utf8_cons, ← none, List.append_nil, inside]
      | cons b more =>
        obtain ⟨rfl, rest⟩ := List.cons.inj later
        obtain rfl : d = c := eq_of_mem_utf8OfChar ascii (inside ▸ by simp)
        rw [utf8OfChar_ascii ascii] at inside
        obtain ⟨rfl, alone⟩ | ⟨-, none⟩ := List.singleton_eq_append_iff.mp inside
        · obtain rfl : more = [] := (List.cons.inj alone).2
          exact ⟨[], text, rfl, rfl, rest⟩
        · cases none

/-- A text of ASCII is found among the octets of a text between whole characters only. -/
theorem utf8_cut_ascii (filled : part ≠ []) (ascii : ∀ c ∈ part, c.toNat < 0x80)
    (cut : utf8 text = front ++ (utf8 part ++ rear)) : ∃ before behind,
      text = before ++ (part ++ behind) ∧ front = utf8 before ∧ rear = utf8 behind := by
  induction part generalizing text front with
  | nil => exact absurd rfl filled
  | cons c part ih =>
    obtain ⟨own, others⟩ := List.forall_mem_cons.mp ascii
    rw [utf8_cons, utf8OfChar_ascii own] at cut
    obtain ⟨before, behind, rfl, rfl, later⟩ := utf8_cut own cut
    by_cases last : part = []
    · subst last
      exact ⟨before, behind, rfl, rfl, later⟩
    · obtain ⟨none, rest, rfl, empty, rfl⟩ := @ih behind [] last others later.symm
      obtain rfl := utf8_eq_nil.mp empty.symm
      exact ⟨before, rest, rfl, rfl, rfl⟩

theorem ofOctet_eq_char_iff :
    Utf8Start.ofOctet b = .char c ↔ b.toNat ≤ 0x7F ∧ c = Char.ofNat b.toNat := by
  by_cases narrow : b.toNat ≤ 0x7F
  · grind [Utf8Start.ofOctet]
  · grind [Utf8Start.ofOctet]

/-- The first octet of a longer character tells how many more there are. The second octet is bounded
further behind those first octets that would allow a shorter form, half of a surrogate pair, or a
number that is no code point. -/
theorem ofOctet_eq_pending_iff : Utf8Start.ofOctet b = .pending p ↔
    (0xC2 ≤ b.toNat ∧ b.toNat ≤ 0xDF ∧ p = { owed := 1, bits := b.toNat - 0xC0 }) ∨
    (0xE0 ≤ b.toNat ∧ b.toNat ≤ 0xEF ∧ p = ⟨2, b.toNat - 0xE0,
      if b.toNat = 0xE0 then 0xA0 else 0x80, if b.toNat = 0xED then 0x9F else 0xBF⟩) ∨
    (0xF0 ≤ b.toNat ∧ b.toNat ≤ 0xF4 ∧ p = ⟨3, b.toNat - 0xF0,
      if b.toNat = 0xF0 then 0x90 else 0x80, if b.toNat = 0xF4 then 0x8F else 0xBF⟩) := by
  -- The first octets of one length are looked at together.
  by_cases upToTwo : b.toNat < 0xE0
  · grind [Utf8Start.ofOctet]
  · by_cases three : b.toNat < 0xF0
    · grind [Utf8Start.ofOctet]
    · grind [Utf8Start.ofOctet]

/-- A second octet is bounded as any other but behind some first octets. -/
theorem within_iff {lower upper : Prop} [Decidable lower] [Decidable upper]
    (low : 0x80 ≤ least.toNat) (high : greatest.toNat ≤ 0xBF) :
    ((if lower then least else 0x80).toNat ≤ b.toNat ∧
      b.toNat ≤ (if upper then greatest else 0xBF).toNat) ↔
      (0x80 ≤ b.toNat ∧ b.toNat ≤ 0xBF) ∧
        (lower → least.toNat ≤ b.toNat) ∧ (upper → b.toNat ≤ greatest.toNat) := by
  simp only [apply_ite UInt8.toNat, UInt8.reduceToNat]
  grind

/-- Octets that end a character of which some are read, and the code point that it then has. -/
inductive Utf8Pending.Ends : Utf8Pending → List UInt8 → Nat → Prop
  | last {p : Utf8Pending} {b : UInt8} {n : Nat} : p.least ≤ b → b ≤ p.greatest →
      n = p.push b → p.owed = 1 → Ends p [b] n
  | next {p : Utf8Pending} {b : UInt8} {bits : Nat} {tail : List UInt8} {n : Nat} :
      p.least ≤ b → b ≤ p.greatest → bits = p.push b → p.owed ≠ 1 →
      Ends { owed := p.owed - 1, bits := bits } tail n → Ends p (b :: tail) n

theorem push_eq (p : Utf8Pending) (b : UInt8) : p.push b = p.bits * 0x40 + (b.toNat - 0x80) :=
  rfl

theorem ends_last_iff : Utf8Pending.Ends ⟨1, bits, least, greatest⟩ tail n ↔
    ∃ b, tail = [b] ∧ (least.toNat ≤ b.toNat ∧ b.toNat ≤ greatest.toNat) ∧
      n = bits * 0x40 + (b.toNat - 0x80) := by
  constructor
  · intro ends
    cases ends with
    | @last _ b _ low high code _ => exact ⟨b, rfl, ⟨low, high⟩, code.trans (push_eq _ b)⟩
    | next _ _ _ more _ => exact absurd rfl more
  · rintro ⟨b, rfl, ⟨low, high⟩, code⟩
    rw [← push_eq ⟨1, bits, least, greatest⟩ b] at code
    exact .last low high code rfl

theorem ends_next_iff : Utf8Pending.Ends ⟨owed + 2, bits, least, greatest⟩ tail n ↔
    ∃ b seen more, tail = b :: more ∧ (least.toNat ≤ b.toNat ∧ b.toNat ≤ greatest.toNat) ∧
      seen = bits * 0x40 + (b.toNat - 0x80) ∧
      Utf8Pending.Ends { owed := owed + 1, bits := seen } more n := by
  constructor
  · intro ends
    cases ends with
    | last _ _ _ last => cases last
    | @next _ b seen more _ low high code _ ends =>
      exact ⟨b, seen, more, rfl, ⟨low, high⟩, code.trans (push_eq _ b), ends⟩
  · rintro ⟨b, seen, more, rfl, ⟨low, high⟩, code, ends⟩
    rw [← push_eq ⟨owed + 2, bits, least, greatest⟩ b] at code
    exact .next low high code (by simp) ends

/-! ### Characters and texts -/

/-- Octets that are read as one character. -/
inductive ReadAs : List UInt8 → Char → Prop
  | char {b : UInt8} {c : Char} : Utf8Start.ofOctet b = .char c → ReadAs [b] c
  | pending {b : UInt8} {p : Utf8Pending} {tail : List UInt8} {n : Nat} :
      Utf8Start.ofOctet b = .pending p → p.Ends tail n → ReadAs (b :: tail) (Char.ofNat n)

/-- Octets that are read as a character are those that are written for it. -/
theorem ReadAs.utf8OfChar_eq (h : ReadAs octets c) : utf8OfChar c = octets := by
  cases h with
  | @char a c first =>
    obtain ⟨narrow, rfl⟩ := ofOctet_eq_char_iff.mp first
    have code := toNat_ofNat (n := a.toNat) (.inl (by omega))
    rw [utf8OfChar, code, if_pos (by omega), toUInt8_eq (by omega) rfl]
  | @pending a p tail n first ends =>
    rcases ofOctet_eq_pending_iff.mp first with
      ⟨low, high, rfl⟩ | ⟨low, high, rfl⟩ | ⟨low, high, rfl⟩
    · obtain ⟨b, rfl, second, code⟩ := ends_last_iff.mp ends
      simp only [UInt8.reduceToNat] at second
      have size := toNat_ofNat (n := n) (.inl (by omega))
      rw [utf8OfChar, size, if_neg (by omega), if_pos (by omega),
        toUInt8_eq (b := a) (by omega) (by omega), toUInt8_eq (b := b) (by omega) (by omega)]
    · obtain ⟨b, seen, more, rfl, second, someBits, ends⟩ := ends_next_iff.mp ends
      obtain ⟨c, rfl, third, code⟩ := ends_last_iff.mp ends
      rw [within_iff (by decide) (by decide)] at second
      simp only [UInt8.reduceToNat] at second third
      have size := toNat_ofNat (n := n) (by unfold Nat.isValidChar; omega)
      rw [utf8OfChar, size, if_neg (by omega), if_neg (by omega), if_pos (by omega),
        toUInt8_eq (b := a) (by omega) (by omega), toUInt8_eq (b := b) (by omega) (by omega),
        toUInt8_eq (b := c) (by omega) (by omega)]
    · obtain ⟨b, seen, more, rfl, second, someBits, ends⟩ := ends_next_iff.mp ends
      obtain ⟨c, seen, more, rfl, third, moreBits, ends⟩ := ends_next_iff.mp ends
      obtain ⟨d, rfl, fourth, code⟩ := ends_last_iff.mp ends
      rw [within_iff (by decide) (by decide)] at second
      simp only [UInt8.reduceToNat] at second third fourth
      have size := toNat_ofNat (n := n) (by unfold Nat.isValidChar; omega)
      rw [utf8OfChar, size, if_neg (by omega), if_neg (by omega), if_neg (by omega),
        toUInt8_eq (b := a) (by omega) (by omega), toUInt8_eq (b := b) (by omega) (by omega),
        toUInt8_eq (b := c) (by omega) (by omega), toUInt8_eq (b := d) (by omega) (by omega)]

/-- What is written for a character is read as that character. -/
theorem readAs_utf8OfChar (c : Char) : ReadAs (utf8OfChar c) c := by
  obtain ⟨n, valid, rfl⟩ : ∃ n : Nat, n.isValidChar ∧ Char.ofNat n = c :=
    ⟨c.toNat, c.valid, c.ofNat_toNat⟩
  rw [utf8OfChar, toNat_ofNat valid]
  simp only [Nat.isValidChar] at valid
  -- The cases are the four lengths; a second octet meets its bounds as `n` is a code point.
  split
  · next narrow =>
    have a := toNat_toUInt8 (n := n) (by omega)
    exact .char (ofOctet_eq_char_iff.mpr ⟨by omega, by rw [a]⟩)
  · split
    · next wide narrow =>
      have a := toNat_toUInt8 (n := 0xC0 + n / 0x40) (by omega)
      have b := toNat_toUInt8 (n := 0x80 + n % 0x40) (by omega)
      have first := ofOctet_eq_pending_iff (b := (0xC0 + n / 0x40).toUInt8).mpr
        (.inl ⟨by omega, by omega, rfl⟩)
      refine .pending first (ends_last_iff.mpr ⟨_, rfl, ?_, by omega⟩)
      simp only [UInt8.reduceToNat]
      omega
    · split
      · next wide narrow =>
        have a := toNat_toUInt8 (n := 0xE0 + n / 0x1000) (by omega)
        have b := toNat_toUInt8 (n := 0x80 + n / 0x40 % 0x40) (by omega)
        have c := toNat_toUInt8 (n := 0x80 + n % 0x40) (by omega)
        have first := ofOctet_eq_pending_iff (b := (0xE0 + n / 0x1000).toUInt8).mpr
          (.inr (.inl ⟨by omega, by omega, rfl⟩))
        refine .pending first (ends_next_iff.mpr ⟨_, _, _, rfl, ?_, rfl, ?_⟩)
        · rw [within_iff (by decide) (by decide)]
          simp only [UInt8.reduceToNat]
          omega
        · refine ends_last_iff.mpr ⟨_, rfl, ?_, by omega⟩
          simp only [UInt8.reduceToNat]
          omega
      · next wide =>
        have a := toNat_toUInt8 (n := 0xF0 + n / 0x40000) (by omega)
        have b := toNat_toUInt8 (n := 0x80 + n / 0x1000 % 0x40) (by omega)
        have c := toNat_toUInt8 (n := 0x80 + n / 0x40 % 0x40) (by omega)
        have d := toNat_toUInt8 (n := 0x80 + n % 0x40) (by omega)
        have first := ofOctet_eq_pending_iff (b := (0xF0 + n / 0x40000).toUInt8).mpr
          (.inr (.inr ⟨by omega, by omega, rfl⟩))
        refine .pending first (ends_next_iff.mpr ⟨_, _, _, rfl, ?_, rfl, ?_⟩)
        · rw [within_iff (by decide) (by decide)]
          simp only [UInt8.reduceToNat]
          omega
        · refine ends_next_iff.mpr
            ⟨_, _, _, rfl, ?_, rfl, ends_last_iff.mpr ⟨_, rfl, ?_, by omega⟩⟩
          all_goals simp only [UInt8.reduceToNat]
          all_goals omega

theorem Utf8Pending.Ends.readUtf8 (ends : p.Ends tail n) (rest : List UInt8) :
    readUtf8 none (some p) (tail ++ rest) = (readUtf8 none none rest).map (Char.ofNat n :: ·) := by
  induction ends with
  | last low high code last =>
    rw [List.singleton_append, Text.readUtf8, ← code]
    simp only [low, high, last]
    rfl
  | next low high code more _ ih =>
    rw [List.cons_append, Text.readUtf8, ← code]
    simp only [low, high, more, ih]
    rfl

theorem ReadAs.readUtf8 (h : ReadAs octets c) (rest : List UInt8) :
    readUtf8 none none (octets ++ rest) = (readUtf8 none none rest).map (c :: ·) := by
  cases h with
  | char first => rw [List.singleton_append, Text.readUtf8, first]
  | pending first ends => rw [List.cons_append, Text.readUtf8, first, ← ends.readUtf8]

theorem exists_ends (read : readUtf8 none (some p) octets = some text) :
    ∃ tail n rest more, octets = tail ++ rest ∧ p.Ends tail n ∧
      readUtf8 none none rest = some more ∧ text = Char.ofNat n :: more := by
  induction octets generalizing p with
  | nil => cases read
  | cons b octets ih =>
    rw [readUtf8] at read
    simp only [Bool.and_eq_true, decide_eq_true_eq, Option.bind_none] at read
    split at read
    · next within =>
      split at read
      · next last =>
        obtain ⟨more, others, rfl⟩ := Option.map_eq_some_iff.mp read
        exact ⟨[b], p.push b, octets, more, rfl, .last within.1 within.2 rfl last, others, rfl⟩
      · next further =>
        obtain ⟨tail, n, rest, more, rfl, ends, others, rfl⟩ := ih read
        have longer : p.Ends (b :: tail) n := .next within.1 within.2 rfl further ends
        exact ⟨b :: tail, n, rest, more, rfl, longer, others, rfl⟩
    · cases read

theorem exists_readAs (read : readUtf8 none none (b :: octets) = some text) :
    ∃ first c rest more, b :: octets = first ++ rest ∧ ReadAs first c ∧
      readUtf8 none none rest = some more ∧ text = c :: more := by
  rw [readUtf8] at read
  cases first : Utf8Start.ofOctet b with
  | char c =>
    rw [first] at read
    obtain ⟨more, others, rfl⟩ := Option.map_eq_some_iff.mp read
    exact ⟨[b], c, octets, more, rfl, .char first, others, rfl⟩
  | pending p =>
    rw [first] at read
    obtain ⟨tail, n, rest, more, rfl, ends, others, rfl⟩ := exists_ends read
    exact ⟨b :: tail, _, rest, more, rfl, .pending first ends, others, rfl⟩
  | bad =>
    rw [first] at read
    cases read

theorem readUtf8_utf8 (text : List Char) : readUtf8 none none (utf8 text) = some text := by
  induction text with
  | nil => rfl
  | cons c text ih => rw [utf8_cons, (readAs_utf8OfChar c).readUtf8, ih, Option.map_some]

theorem utf8_of_readUtf8 (read : readUtf8 none none octets = some text) : utf8 text = octets := by
  -- Not by induction on the octets, of which a character takes several.
  induction text generalizing octets with
  | nil =>
    cases octets with
    | nil => rfl
    | cons b octets =>
      obtain ⟨_, _, _, _, _, _, _, none⟩ := exists_readAs read
      cases none
  | cons c text ih =>
    cases octets with
    | nil => cases read
    | cons b octets =>
      obtain ⟨first, _, rest, _, same, one, others, whole⟩ := exists_readAs read
      obtain ⟨rfl, rfl⟩ := List.cons.inj whole
      rw [utf8_cons, same, one.utf8OfChar_eq, ih others]

theorem readUtf8_eq_some_iff : readUtf8 none none octets = some text ↔ utf8 text = octets := by
  constructor
  · exact utf8_of_readUtf8
  · rintro rfl
    exact readUtf8_utf8 text

theorem decodeUtf8?_utf8 (s : String) : decodeUtf8? (utf8 s.toList) = some s := by
  rw [decodeUtf8?, readUtf8_utf8, Option.map_some, String.ofList_toList]

/-- Characters are written as the standard library writes them. -/
theorem utf8OfChar_eq (c : Char) : utf8OfChar c = String.utf8EncodeChar c := by
  have valid : c.toNat.isValidChar := c.valid
  have same : c.val.toNat = c.toNat := rfl
  grind [utf8OfChar, String.utf8EncodeChar, Nat.toUInt8_eq]

theorem toByteArray_utf8 (text : List Char) : (utf8 text).toByteArray = text.utf8Encode := by
  rw [utf8, funext utf8OfChar_eq, List.utf8Encode]

/-- The octets that the standard library calls valid are those of texts. -/
theorem isValidUTF8_iff : octets.toByteArray.IsValidUTF8 ↔ ∃ text, utf8 text = octets := by
  constructor
  · rintro ⟨text, same⟩
    rw [← toByteArray_utf8] at same
    have list := congrArg (fun octets => octets.data.toList) same
    simp only [List.data_toByteArray] at list
    exact ⟨text, list.symm⟩
  · rintro ⟨text, rfl⟩
    exact .intro text (toByteArray_utf8 text)

theorem decodeUtf8?_eq_none_iff :
    decodeUtf8? octets = none ↔ ¬ octets.toByteArray.IsValidUTF8 := by
  rw [isValidUTF8_iff, decodeUtf8?, Option.map_eq_none_iff, Option.eq_none_iff_forall_ne_some]
  simp only [ne_eq, readUtf8_eq_some_iff, not_exists]

end SqlCompiler.Text
