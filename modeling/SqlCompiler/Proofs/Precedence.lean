import SqlCompiler.Proofs.Emission
import SqlCompiler.Statement
/-!
# What tied conditions say

Conditions are read with `and` tying more closely than `or`. An update with its joined tables behind
`from` writes the conditions of the query and those of each join one after the other, without
parentheses. What the lists say together is kept if there is only one of them, or if no `or` is
written; in every other case some truth of the conditions is read differently.
-/

namespace SqlCompiler

/-- Whether conditions hold, given the truth of those tied by `and` just before them. -/
def holdsFrom (sofar : Bool) : List (Conjunction × Bool) → Bool
  | [] => sofar
  | (.and, truth) :: rest => holdsFrom (sofar && truth) rest
  | (.or, truth) :: rest => sofar || holdsFrom truth rest

/-- Whether conditions hold as a whole. The first is tied to nothing. -/
def holds : List (Conjunction × Bool) → Bool
  | [] => true
  | (_, truth) :: rest => holdsFrom truth rest

/-- Conditions tied by `ties` say what the lists say together: they hold just when each list does,
whatever the truth of the single conditions. -/
def KeepsMeaning (ties : List Conjunction) (lists : List (List Conjunction)) : Prop :=
  ∀ tests : List (List (Conjunction × Bool)), tests.map (List.map Prod.fst) = lists →
    (holds ((.and :: ties).zip (tests.flatten.map Prod.snd)) = true ↔
      ∀ list ∈ tests, holds list = true)

/-- Conditions that are all true, or all false. -/
def marked (truth : Bool) (ties : List Conjunction) : List (Conjunction × Bool) :=
  ties.map fun tie => (tie, truth)

section Truth

variable {tests : List (Conjunction × Bool)} {ties : List Conjunction}

theorem holdsFrom_append_or (sofar truth : Bool) (rest : List (Conjunction × Bool)) :
    holdsFrom sofar (tests ++ (.or, truth) :: rest)
      = (holdsFrom sofar tests || holdsFrom truth rest) := by
  induction tests generalizing sofar with
  | nil => rfl
  | cons test tests ih =>
    obtain ⟨tie, own⟩ := test
    cases tie with
    | and => exact ih (sofar && own)
    | or =>
      show (sofar || holdsFrom own (tests ++ (.or, truth) :: rest)) = _
      rw [ih, ← Bool.or_assoc]
      rfl

/-- An `or` that ties anything splits a list in two. -/
theorem holds_append_or (first : tests ≠ []) (truth : Bool) (rest : List (Conjunction × Bool)) :
    holds (tests ++ (.or, truth) :: rest) = (holds tests || holds ((.or, truth) :: rest)) := by
  cases tests with
  | nil => exact absurd rfl first
  | cons test tests => exact holdsFrom_append_or test.2 truth rest

theorem holdsFrom_and (all : ∀ test ∈ tests, test.1 = .and) (sofar : Bool) :
    holdsFrom sofar tests = (sofar && tests.all Prod.snd) := by
  induction tests generalizing sofar with
  | nil => simp [holdsFrom]
  | cons test tests ih =>
    obtain ⟨tie, truth⟩ := test
    obtain ⟨rfl, rest⟩ := List.forall_mem_cons.mp all
    rw [holdsFrom, ih rest, List.all_cons, Bool.and_assoc]

theorem holds_and (all : ∀ test ∈ tests.tail, test.1 = .and) :
    holds tests = true ↔ ∀ test ∈ tests, test.2 = true := by
  cases tests with
  | nil => simp [holds]
  | cons test tests =>
    rw [List.tail_cons] at all
    rw [holds, holdsFrom_and all]
    simp

theorem marked_append (truth : Bool) (more : List Conjunction) :
    marked truth (ties ++ more) = marked truth ties ++ marked truth more :=
  List.map_append

theorem marked_flatten (truth : Bool) (lists : List (List Conjunction)) :
    marked truth lists.flatten = (lists.map (marked truth)).flatten :=
  List.map_flatten

theorem holdsFrom_marked (truth : Bool) : holdsFrom truth (marked truth ties) = truth := by
  induction ties with
  | nil => rfl
  | cons tie ties ih => cases tie <;> cases truth <;> simp_all [marked, holdsFrom]

theorem holds_marked (there : ties ≠ []) (truth : Bool) : holds (marked truth ties) = truth := by
  cases ties with
  | nil => exact absurd rfl there
  | cons tie ties => exact holdsFrom_marked truth

/-- The conjunction of the first condition may be any. -/
theorem holds_zip (tests : List (Conjunction × Bool)) :
    holds ((.and :: (tests.map Prod.fst).tail).zip (tests.map Prod.snd)) = holds tests := by
  cases tests with
  | nil => rfl
  | cons test tests =>
    have rest : (tests.map Prod.fst).zip (tests.map Prod.snd) = tests :=
      (List.zip_of_prod rfl rfl).symm
    simp only [List.map_cons, List.tail_cons, List.zip_cons_cons, holds, rest]

end Truth

/-! ### Lists of conditions -/

section Lists

variable {lists : List (List Conjunction)} {tests : List (List (Conjunction × Bool))}

theorem mem_flatten_tail {α : Type} {lists : List (List α)} {list : List α} {a : α}
    (member : list ∈ lists) (inside : a ∈ list.tail) : a ∈ lists.flatten.tail := by
  induction lists with
  | nil => cases member
  | cons first lists ih =>
    cases first with
    | nil =>
      rcases List.mem_cons.mp member with rfl | later
      · cases inside
      · exact ih later
    | cons b rest =>
      rw [List.flatten_cons, List.cons_append, List.tail_cons, List.mem_append]
      rcases List.mem_cons.mp member with rfl | later
      · exact .inl inside
      · exact .inr (List.mem_flatten_of_mem later (List.mem_of_mem_tail inside))

/-- Where an `or` stands among the conditions, unless it is the first of all. -/
theorem exists_or (h : ∃ tie ∈ lists.flatten.tail, tie ≠ .and) :
    ∃ before front rest behind, lists = before ++ (front ++ Conjunction.or :: rest) :: behind ∧
      before.flatten ++ front ≠ [] := by
  obtain ⟨tie, member, other⟩ := h
  obtain rfl : tie = .or := by cases tie <;> simp_all
  obtain ⟨first, ties, flat⟩ := List.exists_cons_of_ne_nil
    (show lists.flatten ≠ [] from fun none => by simp [none] at member)
  rw [flat] at member
  obtain ⟨earlier, later, split⟩ := List.append_of_mem member
  rw [List.tail_cons] at split
  have cut : lists.flatten = (first :: earlier) ++ .or :: later := by rw [flat, split]; rfl
  rcases List.flatten_eq_append_iff.mp cut with
    ⟨before, others, rfl, left, right⟩ | ⟨before, front, c, rest, behind, rfl, left, right⟩
  · -- The `or` begins a list.
    obtain ⟨empty, rest, behind, rfl, none, -⟩ := List.flatten_eq_cons_iff.mp right.symm
    refine ⟨before ++ empty, [], rest, behind, by simp, ?_⟩
    simp [← left]
  · obtain ⟨rfl, -⟩ := List.cons.inj right
    exact ⟨before, front, rest, behind, rfl, by simp [← left]⟩

theorem keepsMeaning_of_one (one : (lists.filter fun list => !list.isEmpty).length ≤ 1) :
    KeepsMeaning lists.flatten.tail lists := by
  rintro tests rfl
  rw [← List.map_flatten, holds_zip, ← List.flatten_filter_not_isEmpty]
  have there : ((tests.filter fun list => !list.isEmpty).length ≤ 1) := by
    simpa [List.filter_map, Function.comp_def] using one
  -- A list without conditions holds.
  have each : (∀ list ∈ tests, holds list = true) ↔
      ∀ list ∈ tests.filter fun list => !list.isEmpty, holds list = true := by
    simp only [List.mem_filter, and_imp]
    refine forall₂_congr fun list _ => ?_
    cases list <;> simp [holds]
  rw [each]
  revert there
  generalize (tests.filter fun list => !list.isEmpty) = others
  intro there
  match others, there with
  | [], _ => simp [holds]
  | [list], _ => simp
  | _ :: _ :: _, there => exact absurd there (by simp)

theorem keepsMeaning_of_and (all : ∀ tie ∈ lists.flatten.tail, tie = .and) :
    KeepsMeaning lists.flatten.tail lists := by
  rintro tests rfl
  rw [← List.map_flatten, ← List.map_tail] at all
  have tied : ∀ test ∈ tests.flatten.tail, test.1 = .and :=
    fun test member => all test.1 (List.mem_map_of_mem member)
  rw [← List.map_flatten, holds_zip, holds_and tied]
  have each : ∀ list ∈ tests, (holds list = true ↔ ∀ test ∈ list, test.2 = true) :=
    fun list member => holds_and fun test inside => tied test (mem_flatten_tail member inside)
  simp only [List.mem_flatten]
  constructor
  · intro every list member
    exact (each list member).mpr fun test inside => every test ⟨list, member, inside⟩
  · rintro every test ⟨list, member, inside⟩
    exact (each list member).mp (every list member) test inside

/-- Conditions that have one truth before some `or`, and the other from it on. -/
def halves (truth : Bool) (before : List (List Conjunction)) (front rest : List Conjunction)
    (behind : List (List Conjunction)) : List (List (Conjunction × Bool)) :=
  before.map (marked truth) ++ (marked truth front ++ marked (!truth) (.or :: rest))
    :: behind.map (marked (!truth))

section Halves

variable {before behind : List (List Conjunction)} {front rest : List Conjunction}

theorem halves_ties (truth : Bool) : (halves truth before front rest behind).map (List.map Prod.fst)
    = before ++ (front ++ .or :: rest) :: behind := by
  simp [halves, marked, Function.comp_def]

/-- Written one after the other they hold, since either half does. -/
theorem holds_halves (first : before.flatten ++ front ≠ []) (truth : Bool) :
    holds (halves truth before front rest behind).flatten = true := by
  have whole : (halves truth before front rest behind).flatten
      = marked truth (before.flatten ++ front)
        ++ (.or, !truth) :: marked (!truth) (rest ++ behind.flatten) := by
    rw [marked_append, marked_append, marked_flatten, marked_flatten]
    simp [halves, marked]
  have last : holds ((.or, !truth) :: marked (!truth) (rest ++ behind.flatten)) = !truth :=
    holdsFrom_marked (!truth)
  rw [whole, holds_append_or (by simpa [marked] using first), holds_marked first, last,
    Bool.or_not_self]

end Halves

/-- Whichever half is true, no list of the other half is there to be false. -/
theorem not_keepsMeaning (many : ¬ (lists.filter fun list => !list.isEmpty).length ≤ 1)
    (tied : ∃ tie ∈ lists.flatten.tail, tie ≠ .and) : ¬ KeepsMeaning lists.flatten.tail lists := by
  obtain ⟨before, front, rest, behind, rfl, first⟩ := exists_or tied
  intro keeps
  have apart (truth : Bool) : ∀ list ∈ halves truth before front rest behind,
      holds list = true := by
    apply (keeps _ (halves_ties truth)).mp
    rw [← halves_ties truth, ← List.map_flatten, holds_zip, holds_halves first]
  have empty (sides : List (List Conjunction))
      (all : ∀ list ∈ sides, holds (marked false list) = true) : ∀ list ∈ sides, list = [] := by
    intro list member
    by_cases there : list = []
    · exact there
    · exact absurd (all list member) (by simp [holds_marked there])
  have left := empty before fun list member =>
    apart false _ (List.mem_append_left _ (List.mem_map_of_mem member))
  have right := empty behind fun list member =>
    apart true _ (List.mem_append_right _ (List.mem_cons_of_mem _ (List.mem_map_of_mem member)))
  apply many
  rw [List.filter_append, List.filter_cons, List.filter_eq_nil_iff.mpr, List.filter_eq_nil_iff.mpr]
  · simp
  · intro list member
    simp [right list member]
  · intro list member
    simp [left list member]

/-- What lists of conditions say together is kept if there is but one with any conditions, or if
no `or` ties any of them, and in no other case. -/
theorem keepsMeaning_iff : KeepsMeaning lists.flatten.tail lists ↔
    (lists.filter fun list => !list.isEmpty).length ≤ 1 ∨
      ∀ tie ∈ lists.flatten.tail, tie = .and := by
  constructor
  · intro keeps
    by_cases one : (lists.filter fun list => !list.isEmpty).length ≤ 1
    · exact .inl one
    · by_cases all : ∀ tie ∈ lists.flatten.tail, tie = .and
      · exact .inr all
      · exact absurd keeps (not_keepsMeaning one (by simpa using all))
  · rintro (one | all)
    · exact keepsMeaning_of_one one
    · exact keepsMeaning_of_and all

end Lists

/-! ### Conditions in a text -/

/-- A conjunction between blanks at the front of a text, and what follows it. -/
def Conjunction.lead? (text : List Char) : Option (Conjunction × List Char) :=
  ((Text.dropLead? " and ".toList text).map fun rest => (.and, rest)).or
    ((Text.dropLead? " or ".toList text).map fun rest => (.or, rest))

/-- The conjunctions between tests in a text that holds the tests in order and nothing else. -/
def tiesBetween? : List (List Char) → List Char → Option (List Conjunction)
  | [], text => if text = [] then some [] else none
  | [test], text => if text = test then some [] else none
  | test :: next :: tests, text => do
    let rest ← Text.dropLead? test text
    let (tie, rest) ← Conjunction.lead? rest
    let ties ← tiesBetween? (next :: tests) rest
    return tie :: ties

/-- The conjunctions in a where clause that holds the given tests. Without tests it is empty. -/
def whereTies? (tests : List String) (clause : String) : Option (List Conjunction) :=
  if tests = [] then if clause = "" then some [] else none
  else
    (Text.dropLead? "where ".toList clause.toList).bind (tiesBetween? (tests.map String.toList))

/-- Tests behind others, each with a blank and its conjunction in front. -/
def tiedText (tests : List (Conjunction × String)) : List Char :=
  tests.flatMap fun (tie, test) => ' ' :: (tie.sql.toList ++ ' ' :: test.toList)

/-- The where clause of some tests. -/
def whereText : List (Conjunction × String) → List Char
  | [] => []
  | (_, first) :: rest => "where ".toList ++ (first.toList ++ tiedText rest)

theorem whereText_cons (test : Conjunction × String) (rest : List (Conjunction × String)) :
    whereText (test :: rest) = "where ".toList ++ (test.2.toList ++ tiedText rest) :=
  rfl

theorem dropLead?_append (lead rest : List Char) :
    Text.dropLead? lead (lead ++ rest) = some rest := by
  induction lead with
  | nil => rfl
  | cons c lead ih => simpa [Text.dropLead?] using ih

theorem lead?_tie (tie : Conjunction) (rest : List Char) :
    Conjunction.lead? (' ' :: (tie.sql.toList ++ ' ' :: rest)) = some (tie, rest) := by
  cases tie <;> rfl

/-- Whatever the tests look like, the conjunctions between them are read back. -/
theorem tiesBetween?_tied (first : List Char) (rest : List (Conjunction × String)) :
    tiesBetween? (first :: rest.map fun test => test.2.toList) (first ++ tiedText rest)
      = some (rest.map Prod.fst) := by
  induction rest generalizing first with
  | nil => simp [tiesBetween?, tiedText]
  | cons test rest ih =>
    obtain ⟨tie, test⟩ := test
    have text : tiedText ((tie, test) :: rest)
        = ' ' :: (tie.sql.toList ++ ' ' :: (test.toList ++ tiedText rest)) := by
      simp [tiedText]
    rw [List.map_cons, tiesBetween?, dropLead?_append, text]
    simp [lead?_tie, ih]

theorem whereTies?_whereText (tests : List (Conjunction × String)) :
    whereTies? (tests.map Prod.snd) (String.ofList (whereText tests))
      = some (tests.map Prod.fst).tail := by
  cases tests with
  | nil => rfl
  | cons test rest =>
    have ties := tiesBetween?_tied test.2.toList rest
    have lead : Text.dropLead? "where ".toList (String.ofList (whereText (test :: rest))).toList
        = some (test.2.toList ++ tiedText rest) := by
      rw [String.toList_ofList (l := whereText (test :: rest))]
      exact dropLead?_append _ _
    rw [whereTies?, List.map_cons, if_neg (List.cons_ne_nil _ _), lead]
    simpa [Function.comp_def] using ties

/-- A list of conditions that all compile. -/
def compiledTests (tests : List (Conjunction × Sql)) : List (Conjunction × Outcome) :=
  tests.map fun (tie, sql) => (tie, .ok sql)

/-- The texts of compiled conditions. -/
def testTexts (tests : List (Conjunction × Sql)) : List (Conjunction × String) :=
  tests.map fun (tie, sql) => (tie, sql.text)

section Compiled

variable {members : List (Conjunction × Outcome)} {sql : Sql}

theorem tests_of_tied {sqls : List Sql} (ok : members.map tied = sqls.map .ok) :
    ∃ tests : List (Conjunction × Sql), members = compiledTests tests ∧
      sqls = tests.map fun (tie, sql) => tie.sql ++ " " ++ sql := by
  induction members generalizing sqls with
  | nil =>
    obtain rfl : sqls = [] := by simpa using ok.symm
    exact ⟨[], rfl, rfl⟩
  | cons member members ih =>
    obtain ⟨tie, outcome⟩ := member
    cases sqls with
    | nil => cases ok
    | cons sql sqls =>
      rw [List.map_cons, List.map_cons] at ok
      obtain ⟨first, rest⟩ := List.cons.inj ok
      obtain ⟨test, rfl, rfl⟩ := map_ok first
      obtain ⟨tests, rfl, rfl⟩ := ih rest
      exact ⟨(tie, test) :: tests, rfl, rfl⟩

theorem text_tied {tests : List (Conjunction × Sql)} :
    ((tests.map fun (tie, sql) => (tie.sql ++ " " ++ sql : Sql)).flatMap
      fun part => " ".toList ++ part.text.toList) = tiedText (testTexts tests) := by
  induction tests with
  | nil => rfl
  | cons test tests ih =>
    rw [List.map_cons, List.flatMap_cons, ih]
    simp [tiedText, testTexts]

/-- The conditions of a join, behind others. -/
theorem joinTests_text (ok : joinOutcomes " " (members.map tied) = .ok sql) :
    ∃ tests, members = compiledTests tests ∧ (tests = [] ∧ sql.text = "" ∨
      tests ≠ [] ∧ sql.text ≠ "" ∧ ' ' :: sql.text.toList = tiedText (testTexts tests)) := by
  obtain ⟨sqls, all, rfl⟩ := map_ok ok
  obtain ⟨tests, same, rfl⟩ := tests_of_tied (allOk_eq_ok.mp all)
  cases tests with
  | nil => exact ⟨[], same, .inl ⟨rfl, rfl⟩⟩
  | cons test tests =>
    have text := @text_tied (test :: tests)
    rw [List.map_cons, List.flatMap_cons, List.append_assoc, ← Sql.text_join] at text
    refine ⟨test :: tests, same, .inr ⟨List.cons_ne_nil _ _, fun none => ?_, text⟩⟩
    obtain ⟨tie, sql⟩ := test
    rw [List.map_cons] at none
    rw [none] at text
    cases tie <;> simp [tiedText, testTexts, Conjunction.sql] at text

theorem conditions_text (ok : conditions members = .ok sql) :
    ∃ tests, members = compiledTests tests ∧ (tests = [] ∧ sql = .empty ∨
      tests ≠ [] ∧ "where ".toList ++ sql.text.toList = whereText (testTexts tests)) := by
  cases members with
  | nil =>
    obtain rfl : Sql.empty = sql := Except.ok.inj ok
    exact ⟨[], rfl, .inl ⟨rfl, rfl⟩⟩
  | cons member rest =>
    obtain ⟨tie, outcome⟩ := member
    obtain ⟨sqls, all, rfl⟩ := map_ok ok
    cases sqls with
    | nil => cases allOk_eq_ok.mp all
    | cons first sqls =>
      obtain ⟨rfl, others⟩ := List.cons.inj (allOk_eq_ok.mp all)
      obtain ⟨tests, rfl, rfl⟩ := tests_of_tied others
      refine ⟨(tie, first) :: tests, rfl, .inr ⟨List.cons_ne_nil _ _, ?_⟩⟩
      rw [Sql.text_join, text_tied]
      rfl

theorem compiledTests_append (a b : List (Conjunction × Sql)) :
    compiledTests (a ++ b) = compiledTests a ++ compiledTests b :=
  List.map_append

theorem compiledTests_inj {a b : List (Conjunction × Sql)}
    (same : compiledTests a = compiledTests b) : a = b := by
  apply (List.map_inj_right _).mp same
  rintro ⟨tie, sql⟩ ⟨other, text⟩ equal
  cases equal
  rfl

theorem whereText_append {first : List (Conjunction × String)} (some : first ≠ [])
    (rest : List (Conjunction × String)) :
    whereText (first ++ rest) = whereText first ++ tiedText rest := by
  cases first with
  | nil => exact absurd rfl some
  | cons test tests => simp [whereText_cons, tiedText]

theorem whereText_ne_nil {tests : List (Conjunction × String)} (some : tests ≠ []) :
    whereText tests ≠ [] := by
  cases tests with
  | nil => exact absurd rfl some
  | cons test tests => simp [whereText_cons]

/-- A headed text is empty only if there is no test, or one without a text. -/
theorem headed_where {tests : List (Conjunction × Sql)} (some : tests ≠ [])
    (text : "where ".toList ++ sql.text.toList = whereText (testTexts tests))
    (written : ∀ test, tests = [test] → test.2.text ≠ "") :
    (Engine.headed "where " sql).text.toList = whereText (testTexts tests) := by
  have filled : sql.text ≠ "" := by
    intro empty
    match tests, some with
    | [(tie, test)], _ =>
      have same : "where ".toList ++ [] = "where ".toList ++ (test.text.toList ++ []) := by
        simpa [empty, testTexts, whereText_cons, tiedText] using text
      have none := List.append_cancel_left same
      exact written (tie, test) rfl (by simpa using none.symm)
    | first :: second :: rest, _ =>
      simp [empty, testTexts, whereText_cons, tiedText] at text
  have shown : sql.isEmpty ≠ true := mt Sql.isEmpty_iff.mp filled
  rw [Engine.headed, if_neg shown, Sql.text_append, Sql.text_ofText, String.toList_append, text]

end Compiled

/-! ### Updates with their joined tables behind `from` -/

/-- The lists of conditions of a query: its own, then those of each join. -/
def Clauses.conditionLists (c : Clauses Query) : List (List (Where Query)) :=
  c.wheres :: c.joins.map fun j => j.clause.clauses.wheres

namespace Engine

variable (e : Engine)

/-- The text of a condition without its conjunction. -/
def testText (w : Where Query) : Except CompileError String :=
  (e.whereTest w.negated (w.predicate.map (Query.compiled e))).map Sql.text

variable {e} {c : Clauses Query}

/-- The conditions of a query and those of its joins, compiled, in the order of the text. -/
theorem compiled_conditions :
    c.conditionLists.flatten.map (fun w => e.whereClause (w.map (Query.compiled e)))
      = (c.map (Query.compiled e)).wheres.map e.whereClause
        ++ (c.map (Query.compiled e)).joins.flatMap fun j => j.clause.wheres := by
  have joined (j : Join Query) : (j.map (Query.compiled e)).clause.wheres
      = j.clause.clauses.wheres.map fun w => e.whereClause (w.map (Query.compiled e)) := by
    have clause : (j.map (Query.compiled e)).clause = e.compiled (j.clause.compiledClauses e) :=
      Query.compiled_eq e j.clause
    rw [clause]
    exact List.map_map
  simp [Clauses.map, Clauses.conditionLists, joined, Function.comp_def, List.flatMap_def]

/-- The condition behind the only compiled one. -/
theorem single {test : Conjunction × Sql}
    (members : (c.map (Query.compiled e)).wheres.map e.whereClause = compiledTests [test]) :
    ∃ w, c.wheres = [w] ∧ e.testText w = .ok test.2.text := by
  obtain ⟨v, only, outcome⟩ := List.map_eq_singleton_iff.mp members
  obtain ⟨w, one, rfl⟩ := List.map_eq_singleton_iff.mp only
  have compiled : e.whereTest w.negated (w.predicate.map (Query.compiled e)) = .ok test.2 :=
    (Prod.mk.inj outcome).2
  exact ⟨w, one, by rw [testText, compiled, Except.map]⟩

/-- The own conditions of a query, headed, unless it has none. -/
theorem ownWheres_text {sql : Sql}
    (ok : conditions ((c.map (Query.compiled e)).wheres.map e.whereClause) = .ok sql)
    (written : ∀ w, c.wheres = [w] → e.testText w ≠ .ok "") :
    ∃ tests, (c.map (Query.compiled e)).wheres.map e.whereClause = compiledTests tests ∧
      (tests = [] ∧ headed "where " sql = .empty ∨
        tests ≠ [] ∧ (headed "where " sql).text.toList = whereText (testTexts tests)) := by
  obtain ⟨tests, members, ⟨none, rfl⟩ | ⟨some, lead⟩⟩ := conditions_text ok
  · exact ⟨tests, members, .inl ⟨none, rfl⟩⟩
  · refine ⟨tests, members, .inr ⟨some, headed_where some lead ?_⟩⟩
    rintro test rfl empty
    obtain ⟨w, one, outcome⟩ := single members
    exact written w one (by rw [outcome, empty])

/-- The conditions of a query and its joins stand one after the other behind one `where`. -/
theorem updateFromWheres_text {wheres : Sql}
    (ok : e.updateFromWheres (c.map (Query.compiled e)) = .ok wheres)
    (written : ∀ w, c.wheres = [w] → e.testText w ≠ .ok "") :
    ∃ tests, (c.conditionLists.flatten.map fun w => e.whereClause (w.map (Query.compiled e)))
        = compiledTests tests ∧ wheres.text.toList = whereText (testTexts tests) := by
  obtain ⟨own, firstOk, rest⟩ := bind_ok ok
  obtain ⟨tail, tailOk, rest⟩ := bind_ok rest
  obtain ⟨alone, aloneOk, done⟩ := bind_ok rest
  obtain rfl := pure_ok done
  obtain ⟨sql, ownOk, rfl⟩ := map_ok firstOk
  obtain ⟨first, members, own⟩ := ownWheres_text ownOk written
  obtain ⟨joined, after, text⟩ := joinTests_text tailOk
  obtain ⟨same, again, front⟩ := conditions_text aloneOk
  obtain rfl := compiledTests_inj (after.symm.trans again)
  refine ⟨first ++ joined, by rw [compiled_conditions, members, after, compiledTests_append], ?_⟩
  obtain ⟨rfl, blank⟩ | ⟨more, filled, text⟩ := text
  · rw [if_pos (Sql.isEmpty_iff.mpr blank), List.append_nil]
    obtain ⟨rfl, none⟩ | ⟨-, shown⟩ := own
    · rw [none]
      rfl
    · exact shown
  rw [if_neg (mt Sql.isEmpty_iff.mp filled)]
  obtain ⟨rfl, none⟩ | ⟨some, shown⟩ := own
  · -- The conditions of the joins are headed on their own.
    obtain ⟨absent, -⟩ | ⟨-, lead⟩ := front
    · exact absurd absent more
    · have headless : (headed "where " sql).isEmpty = true := by
        rw [none]
        rfl
      rw [if_pos headless, Sql.text_append, Sql.text_ofText, String.toList_append, lead]
      rfl
  · have there : testTexts first ≠ [] := mt List.map_eq_nil_iff.mp some
    have headed : (headed "where " sql).isEmpty ≠ true := by
      intro empty
      rw [Sql.isEmpty_iff.mp empty] at shown
      exact whereText_ne_nil there shown.symm
    have texts : testTexts (first ++ joined) = testTexts first ++ testTexts joined :=
      List.map_append
    rw [if_neg headed, texts, whereText_append there, ← text, ← shown]
    simp

theorem compiled_parts {list : List (Where Query)} {tests : List (Conjunction × Sql)}
    (members : (list.map fun w => e.whereClause (w.map (Query.compiled e))) = compiledTests tests) :
    list.map e.testText = ((testTexts tests).map Prod.snd).map .ok ∧
      list.map Where.conjunction = (testTexts tests).map Prod.fst := by
  have texts := congrArg (List.map fun member => member.2.map Sql.text) members
  have conjunctions := congrArg (List.map Prod.fst) members
  rw [compiledTests, List.map_map, List.map_map] at texts conjunctions
  rw [testTexts, List.map_map, List.map_map, List.map_map]
  exact ⟨texts, conjunctions⟩

/-- An update writes all its conditions, and nothing between them but their conjunctions. It means
what its lists of conditions say together if only one of them has conditions, or if no `or` is
written between two of them; in every other case some truth of the conditions tells them apart. -/
theorem updateFrom_keepsMeaning_iff {values : Row} {s : Statement}
    (ok : e.updateFrom (.mk c) values = .ok s)
    (written : ∀ w, c.wheres = [w] → e.testText w ≠ .ok "") :
    ∃ head wheres tests ties,
      e.finished (c.map (Query.compiled e)) (head ++ wheres) = .ok s.sql ∧
      e.updateFromWheres (c.map (Query.compiled e)) = .ok wheres ∧
      c.conditionLists.flatten.map e.testText = tests.map .ok ∧
      whereTies? tests wheres.text = some ties ∧
      (KeepsMeaning ties (c.conditionLists.map (List.map Where.conjunction)) ↔
        (c.conditionLists.filter fun list => !list.isEmpty).length ≤ 1 ∨
          ∀ w ∈ c.conditionLists.flatten.tail, w.conjunction = .and) := by
  obtain ⟨sql, sqlOk, rest⟩ := bind_ok ok
  obtain ⟨bindings, -, done⟩ := bind_ok rest
  obtain rfl := pure_ok done
  unfold updateFromSql at sqlOk
  split at sqlOk
  case h_2 | h_3 | h_4 | h_5 => cases sqlOk
  obtain ⟨table, -, sqlOk⟩ := bind_ok sqlOk
  obtain ⟨columns, -, sqlOk⟩ := bind_ok sqlOk
  obtain ⟨tables, -, sqlOk⟩ := bind_ok sqlOk
  obtain ⟨wheres, wheresOk, finishedOk⟩ := bind_ok sqlOk
  obtain ⟨tests, members, text⟩ := updateFromWheres_text (c := c) wheresOk written
  obtain ⟨texts, conjunctions⟩ := compiled_parts members
  have ties := whereTies?_whereText (testTexts tests)
  rw [← text, String.ofList_toList, ← conjunctions] at ties
  refine ⟨_, wheres, _, _, finishedOk, wheresOk, texts, ties, ?_⟩
  rw [List.map_flatten, keepsMeaning_iff, ← List.map_flatten, ← List.map_tail, List.filter_map,
    List.length_map, List.forall_mem_map]
  simp [Function.comp_def]

end Engine

def orderOfUser : Query := .mk
  { wheres := [{ predicate := .compareColumns (.name "users.id") "=" (.name "orders.user_id") }] }

/-- Users with an order whose two marks are tied by `tie`. -/
def markedBuyers (tie : Conjunction) : Clauses Query :=
  { source := some (.name "users")
    joins := [{ table := .name "orders", clause := orderOfUser }]
    wheres := [{ predicate := .basic (.name "active") "=" (.value (.bool true)) },
      { conjunction := tie, predicate := .basic (.name "vip") "=" (.value (.bool true)) }] }

def seenNow : Row :=
  .ofList [("seen", .value (.bool true))]

theorem markedBuyers_keepsMeaning :
    ∃ s wheres tests ties,
      (Engine.mk .postgres {}).updateFrom (.mk (markedBuyers .and)) seenNow = .ok s ∧
      (Engine.mk .postgres {}).updateFromWheres
        ((markedBuyers .and).map (Query.compiled (.mk .postgres {}))) = .ok wheres ∧
      whereTies? tests wheres.text = some ties ∧
      KeepsMeaning ties ((markedBuyers .and).conditionLists.map (List.map Where.conjunction)) := by
  have ok : ∃ s, (Engine.mk .postgres {}).updateFrom (.mk (markedBuyers .and)) seenNow = .ok s :=
    ⟨_, rfl⟩
  obtain ⟨s, ok⟩ := ok
  obtain ⟨head, wheres, tests, ties, -, written, -, read, keeps⟩ :=
    Engine.updateFrom_keepsMeaning_iff ok (by simp [markedBuyers])
  exact ⟨s, wheres, tests, ties, ok, written, read, keeps.mpr (.inr (by decide))⟩

/-- A marked user without an order makes the text true, the join not. -/
theorem markedBuyers_losesMeaning :
    ∃ s wheres ties,
      (Engine.mk .postgres {}).updateFrom (.mk (markedBuyers .or)) seenNow = .ok s ∧
      s.sql.text = "update \"users\" set \"seen\" = ? from \"orders\" "
        ++ "where \"active\" = ? or \"vip\" = ? and \"users\".\"id\" = \"orders\".\"user_id\"" ∧
      (Engine.mk .postgres {}).updateFromWheres
        ((markedBuyers .or).map (Query.compiled (.mk .postgres {}))) = .ok wheres ∧
      whereTies? ["\"active\" = ?", "\"vip\" = ?", "\"users\".\"id\" = \"orders\".\"user_id\""]
        wheres.text = some ties ∧
      ¬ KeepsMeaning ties ((markedBuyers .or).conditionLists.map (List.map Where.conjunction)) := by
  refine ⟨_, _, [.or, .and], rfl, by decide, rfl, by decide, fun keeps => ?_⟩
  have apart := (keeps [[(.and, true), (.or, false)], [(.and, false)]] rfl).mp rfl
  revert apart
  decide

end SqlCompiler
