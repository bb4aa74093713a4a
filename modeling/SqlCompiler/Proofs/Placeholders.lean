import SqlCompiler.Substitute
/-!
# Placeholders of a text

`marks` says of every character of a text whether `positional` takes it for a placeholder;
`positional_eq_fill` shows that it does. A text can be read in two parts wherever no pair of copied
characters is torn apart (`marks_append`), and the characters that are no quote, backslash or
question mark change nothing (`marks_of_clean`).
-/

namespace SqlCompiler.Substitute

/-- Two characters that are copied together. -/
def isPair (c d : Char) : Bool :=
  (c = '\\' && d = '\'') || (c = '\'' && d = '\'') || (c = '?' && d = '?')

/-- Whether a character that belongs to no pair is a placeholder. -/
def isMark (inLiteral : Bool) (c : Char) : Bool :=
  c = '?' && !inLiteral

/-- Whether the text after a character that belongs to no pair is inside a literal. -/
def behind (inLiteral : Bool) (c : Char) : Bool :=
  if c = '\'' then !inLiteral else inLiteral

/-- The placeholders of a text, one entry for each character. -/
def marks (inLiteral : Bool) : List Char → List Bool
  | [] => []
  | [c] => [isMark inLiteral c]
  | c :: d :: rest =>
    if isPair c d then false :: false :: marks inLiteral rest
    else isMark inLiteral c :: marks (behind inLiteral c) (d :: rest)

/-- Whether the end of a text is inside a literal. -/
def leaves (inLiteral : Bool) : List Char → Bool
  | [] => inLiteral
  | [c] => behind inLiteral c
  | c :: d :: rest =>
    if isPair c d then leaves inLiteral rest else leaves (behind inLiteral c) (d :: rest)

/-- Values in place of marked characters; a mark without a value stays. -/
def fill : List Bool → List String → List Char → List Char
  | true :: marks, value :: values, _ :: text => value.toList ++ fill marks values text
  | _ :: marks, values, c :: text => c :: fill marks values text
  | [], _, text => text
  | _, _, [] => []

@[simp] theorem length_marks (inLiteral : Bool) (text : List Char) :
    (marks inLiteral text).length = text.length := by
  fun_induction marks inLiteral text <;> simp_all

theorem marks_cons {c : Char} {rest : List Char} (inLiteral : Bool)
    (alone : ∀ d ∈ rest.head?, isPair c d = false) :
    marks inLiteral (c :: rest) = isMark inLiteral c :: marks (behind inLiteral c) rest := by
  cases rest with
  | nil => rfl
  | cons d rest => rw [marks, if_neg (by simp [alone d rfl])]

theorem leaves_cons {c : Char} {rest : List Char} (inLiteral : Bool)
    (alone : ∀ d ∈ rest.head?, isPair c d = false) :
    leaves inLiteral (c :: rest) = leaves (behind inLiteral c) rest := by
  cases rest with
  | nil => rfl
  | cons d rest => rw [leaves, if_neg (by simp [alone d rfl])]

theorem positional_eq_fill (inLiteral : Bool) (values : List String) (text : List Char) :
    positional inLiteral values text = fill (marks inLiteral text) values text := by
  fun_induction positional inLiteral values text with
  | case1 => simp [marks, fill]
  | case2 inLiteral values rest ih => simp [marks, isPair, fill, ih]
  | case3 inLiteral values rest ih => simp [marks, isPair, fill, ih]
  | case4 inLiteral values rest ih => simp [marks, isPair, fill, ih]
  | case5 inLiteral values rest alone ih =>
    rw [marks_cons inLiteral, isMark, behind, ih]
    · simp [fill]
    · cases rest <;> simp_all [isPair]
  | case6 values rest alone ih =>
    rw [marks_cons true, isMark, behind, ih]
    · simp [fill]
    · cases rest <;> simp_all [isPair]
  | case7 inLiteral rest alone outside ih =>
    rw [marks_cons inLiteral, isMark, behind, ih]
    · simp [fill]
    · cases rest <;> simp_all [isPair]
  | case8 inLiteral rest alone outside value values ih =>
    rw [marks_cons inLiteral, isMark, behind, ih]
    · simp_all [fill]
    · cases rest <;> simp_all [isPair]
  | case9 inLiteral values c rest noEscape noQuote noMark ih =>
    rw [marks_cons inLiteral, isMark, behind]
    · simp_all [fill]
    · cases rest <;> simp_all [isPair]

/-- Two texts that tear no pair apart. -/
def Joint (a b : List Char) : Prop :=
  ∀ c ∈ a.getLast?, ∀ d ∈ b.head?, isPair c d = false

/-- Whether a text has a last character and that character belongs to no pair. -/
def endsAlone : List Char → Bool
  | [] => false
  | [_] => true
  | c :: d :: rest => if isPair c d then endsAlone rest else endsAlone (d :: rest)

theorem joint_of_cons {c : Char} {a b : List Char} (h : Joint (c :: a) b) : Joint a b := by
  intro e he
  apply h e
  cases a with
  | nil => simp at he
  | cons d a => rwa [List.getLast?_cons_cons]

/-- A last character that already belongs to a pair forms none with the text behind it. -/
theorem append_read {a b : List Char} (inLiteral : Bool) (h : endsAlone a = true → Joint a b) :
    marks inLiteral (a ++ b) = marks inLiteral a ++ marks (leaves inLiteral a) b ∧
      leaves inLiteral (a ++ b) = leaves (leaves inLiteral a) b := by
  fun_induction marks inLiteral a with
  | case1 => simp [leaves]
  | case2 inLiteral c =>
    have alone : ∀ d ∈ b.head?, isPair c d = false := h rfl c rfl
    simp [leaves, marks_cons inLiteral alone, leaves_cons inLiteral alone]
  | case3 inLiteral c d rest pair ih =>
    have := ih fun last => joint_of_cons (joint_of_cons (h (by rwa [endsAlone, if_pos pair])))
    simpa [marks, leaves, pair] using this
  | case4 inLiteral c d rest pair ih =>
    have := ih fun last => joint_of_cons (h (by rwa [endsAlone, if_neg pair]))
    simpa [marks, leaves, pair] using this

theorem marks_append {a b : List Char} (inLiteral : Bool) (h : Joint a b) :
    marks inLiteral (a ++ b) = marks inLiteral a ++ marks (leaves inLiteral a) b :=
  (append_read inLiteral fun _ => h).1

theorem leaves_append {a b : List Char} (inLiteral : Bool) (h : Joint a b) :
    leaves inLiteral (a ++ b) = leaves (leaves inLiteral a) b :=
  (append_read inLiteral fun _ => h).2

/-- A text changes sides as often inside a literal as outside. -/
theorem leaves_not (inLiteral : Bool) (text : List Char) :
    leaves (!inLiteral) text = !leaves inLiteral text := by
  have flip (c : Char) (l : Bool) : behind (!l) c = !behind l c := by
    unfold behind
    split <;> rfl
  fun_induction leaves inLiteral text with
  | case1 => simp [leaves]
  | case2 inLiteral c => simp [leaves, flip]
  | case3 inLiteral c d rest pair ih => simp [leaves, pair, ih]
  | case4 inLiteral c d rest pair ih => simp [leaves, pair, flip, ih]

/-! ### Clean texts and literals -/

/-- Neither a question mark nor a quote nor a backslash. -/
def isClean (c : Char) : Bool :=
  c ≠ '?' && c ≠ '\'' && c ≠ '\\'

def Clean (text : List Char) : Prop :=
  ∀ c ∈ text, isClean c = true

instance (text : List Char) : Decidable (Clean text) :=
  decidable_of_iff (text.all isClean = true) List.all_eq_true

@[simp] theorem clean_nil : Clean [] := by simp [Clean]

@[simp] theorem clean_cons {c : Char} {text : List Char} :
    Clean (c :: text) ↔ isClean c = true ∧ Clean text := by simp [Clean]

@[simp] theorem clean_append {a b : List Char} : Clean (a ++ b) ↔ Clean a ∧ Clean b := by
  simp [Clean, or_imp, forall_and]

theorem not_isPair_of_left {c : Char} (h : isClean c = true) (d : Char) : isPair c d = false := by
  simp_all [isClean, isPair]

theorem not_isPair_of_right {d : Char} (h : isClean d = true) (c : Char) : isPair c d = false := by
  simp_all [isClean, isPair]

theorem joint_of_last {a : List Char} (h : ∀ c ∈ a.getLast?, isClean c = true) (b : List Char) :
    Joint a b :=
  fun c hc d _ => not_isPair_of_left (h c hc) d

theorem joint_of_head {b : List Char} (h : ∀ d ∈ b.head?, isClean d = true) (a : List Char) :
    Joint a b :=
  fun c _ d hd => not_isPair_of_right (h d hd) c

theorem Clean.joint_left {a : List Char} (h : Clean a) (b : List Char) : Joint a b :=
  joint_of_last (fun c hc => h c (List.mem_of_mem_getLast? hc)) b

theorem Clean.joint_right {b : List Char} (h : Clean b) (a : List Char) : Joint a b :=
  joint_of_head (fun d hd => h d (List.mem_of_mem_head? hd)) a

theorem cons_read {c : Char} (h : isClean c = true) (inLiteral : Bool) (text : List Char) :
    marks inLiteral (c :: text) = false :: marks inLiteral text ∧
      leaves inLiteral (c :: text) = leaves inLiteral text := by
  have alone : ∀ d ∈ text.head?, isPair c d = false := fun d _ => not_isPair_of_left h d
  have outside : isMark inLiteral c = false ∧ behind inLiteral c = inLiteral := by
    simp_all [isClean, isMark, behind]
  rw [marks_cons inLiteral alone, leaves_cons inLiteral alone, outside.1, outside.2]
  exact ⟨rfl, rfl⟩

theorem clean_read {text : List Char} (h : Clean text) (inLiteral : Bool) :
    marks inLiteral text = List.replicate text.length false ∧
      leaves inLiteral text = inLiteral := by
  induction text with
  | nil => simp [marks, leaves]
  | cons c text ih =>
    obtain ⟨hc, htext⟩ := clean_cons.mp h
    have read := cons_read hc inLiteral text
    rw [read.1, read.2, (ih htext).1, (ih htext).2]
    exact ⟨rfl, rfl⟩

/-- A text that ends outside a literal if it begins there, and holds `n` placeholders then. -/
def Holds (n : Nat) (text : List Char) : Prop :=
  leaves false text = false ∧ (marks false text).count true = n

instance (n : Nat) (text : List Char) : Decidable (Holds n text) :=
  inferInstanceAs (Decidable (_ ∧ _))

theorem Clean.holds {text : List Char} (h : Clean text) : Holds 0 text := by
  simp [Holds, clean_read h, List.count_replicate]

theorem marks_of_holds_zero {text : List Char} (h : Holds 0 text) :
    marks false text = List.replicate text.length false := by
  rw [← length_marks false text, List.eq_replicate_iff]
  refine ⟨rfl, fun b hb => ?_⟩
  cases b with
  | false => rfl
  | true => exact absurd hb (List.count_eq_zero.mp h.2)

theorem holds_cons {c : Char} (h : isClean c = true) {n : Nat} {text : List Char} :
    Holds n (c :: text) ↔ Holds n text := by
  have read := cons_read h false text
  simp [Holds, read.1, read.2]

theorem Holds.append {a b : List Char} (ha : Holds 0 a) (hb : Holds 0 b) (h : Joint a b) :
    Holds 0 (a ++ b) := by
  rw [Holds, leaves_append false h, marks_append false h, ha.1, List.count_append, ha.2, hb.2]
  exact ⟨hb.1, rfl⟩

/-- A text in which nothing is a placeholder or begins or ends a literal, wherever it stands. -/
def Quiet (text : List Char) : Prop :=
  ∀ inLiteral, marks inLiteral text = List.replicate text.length false ∧
    leaves inLiteral text = inLiteral

theorem Clean.quiet {text : List Char} (h : Clean text) : Quiet text :=
  clean_read h

theorem Quiet.append {a b : List Char} (ha : Quiet a) (hb : Quiet b) (h : Joint a b) :
    Quiet (a ++ b) := by
  intro inLiteral
  rw [marks_append inLiteral h, leaves_append inLiteral h, (ha _).1, (ha _).2, (hb _).1, (hb _).2]
  simp

/-- A quiet text between quotes. -/
theorem Quiet.literal {text : List Char} (h : Quiet text)
    (first : ∀ c ∈ text.head?, isClean c = true) (last : ∀ c ∈ text.getLast?, isClean c = true) :
    Holds 0 ('\'' :: (text ++ ['\''])) := by
  cases text with
  | nil => decide
  | cons c text =>
    have alone : ∀ d ∈ (c :: text ++ ['\'']).head?, isPair '\'' d = false := by
      simp [not_isPair_of_right (first c rfl)]
    have joint := joint_of_last last ['\'']
    rw [Holds, marks_cons false alone, leaves_cons false alone]
    rw [marks_append _ joint, leaves_append _ joint, (h _).1, (h _).2]
    simp [behind, leaves, marks, isMark, List.count_replicate]

theorem holds_literal {text : List Char} (h : Clean text) : Holds 0 ('\'' :: (text ++ ['\''])) :=
  h.quiet.literal (fun c hc => h c (List.mem_of_mem_head? hc))
    fun c hc => h c (List.mem_of_mem_getLast? hc)

/-- A text that keeps its neighbours apart. -/
def Spacer (s : String) : Prop :=
  Holds 0 s.toList ∧ s.toList.head?.any isClean = true ∧ s.toList.getLast?.any isClean = true

instance (s : String) : Decidable (Spacer s) :=
  inferInstanceAs (Decidable (_ ∧ _))

end SqlCompiler.Substitute
