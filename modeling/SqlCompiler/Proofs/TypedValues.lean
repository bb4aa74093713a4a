import SqlCompiler.Proofs.BareQueries
import SqlCompiler.Proofs.Outcomes
import SqlCompiler.Proofs.RestoredValues
import SqlCompiler.Statement
/-!
# Values with a type

Two queries that are built by the same steps from values that are the same inside compile to the
same words and are inlined to the same text. What keeps the steps from being the same is a boolean
that has a type in one query and none in the other, and is compared at a JSON path in both: the
words of the two comparisons end in different characters.
-/

namespace SqlCompiler

/-- Two queries that are the same without wrappers compile to the same words, and their statements
with the values put in are the same. -/
theorem Query.statements_of_bare {q r : Query} (same : q.bare = r.bare) (e : Engine) :
    SameWords (q.compiled e).select (r.compiled e).select ∧
    SameWords (e.existsSql (q.compiledClauses e)) (e.existsSql (r.compiledClauses e)) ∧
    SameWords (e.deleteSql (q.compiledClauses e)) (e.deleteSql (r.compiledClauses e)) ∧
    e.rawSql q = e.rawSql r := by
  have words : q.erase = r.erase := by
    rw [← erase_mapValues (v := Binding.bare) q, ← erase_mapValues (v := Binding.bare) r]
    exact congrArg erase same
  have values : q.bindings.map e.escape = r.bindings.map e.escape := by
    have escaped (q : Query) : q.bindings.map e.escape = q.bare.bindings.map e.escape := by
      have each := bindingLists_mapValues (v := Binding.bare) (fun s => rfl) q
      rw [bindings, bindings, bare, each, BindingLists.flatten_mapValues, List.map_map]
      exact List.map_congr_left fun b _ => (e.escape_bare b).symm
    rw [escaped q, escaped r, same]
  obtain ⟨select, hasRows, delete⟩ := sameWords_of_erase words e
  refine ⟨select, hasRows, delete, ?_⟩
  have inlined (q : Query) : e.rawSql q = (q.compiled e).select.map fun sql =>
      String.ofList (Substitute.positional false (q.bindings.map e.escape) sql.text.toList) := by
    unfold Engine.rawSql Engine.select
    cases (q.compiled e).select <;> rfl
  rw [inlined q, inlined r, values]
  have texts := congrArg (Except.map fun text : String =>
    String.ofList (Substitute.positional false (r.bindings.map e.escape) text.toList)) select
  simpa only [map_of_map] using texts

/-! ### The words of a comparison -/

/-- A statement whose last character is one of some. -/
def Sql.EndsIn (marks : List Char) (sql : Sql) : Prop :=
  ∃ c ∈ marks, sql.text.toList.getLast? = some c

theorem Sql.EndsIn.behind {marks : List Char} {rear : Sql} (h : rear.EndsIn marks)
    (front : Sql) : (front ++ rear).EndsIn marks := by
  obtain ⟨c, mark, last⟩ := h
  refine ⟨c, mark, ?_⟩
  rw [text_append, String.toList_append, List.getLast?_append, last, Option.some_or]

theorem Sql.EndsIn.text_ne {marks others : List Char} {x y : Sql} (hx : x.EndsIn marks)
    (hy : y.EndsIn others) (apart : ∀ c ∈ marks, c ∉ others) : x.text ≠ y.text := by
  obtain ⟨c, mark, last⟩ := hx
  obtain ⟨d, other, last'⟩ := hy
  intro same
  rw [same, last', Option.some.injEq] at last
  exact apart c mark (last ▸ other)

namespace Engine

variable (e : Engine)

/-- The test that a comparison adds to the conditions of a query. -/
def comparisonSql (column : Term Query) (operator : String) (value : Param) : Outcome :=
  let test := Predicate.comparison column operator value
  e.whereTest test.1 (test.2.map (Query.compiled e))

/-- The last characters of a test whose value is bound: a placeholder, or what makes a number of
bits a truth value. -/
def boundMarks : List Char := ['?', 'l', '0']

/-- The last characters of a test with a boolean written out. -/
def flagMarks : List Char := ['e', '\'', 'b']

theorem yields_comparison_boundMarks (column : Term Compiled) (operator : String) (b : Binding) :
    Yields (Sql.EndsIn boundMarks) (e.comparison column operator (.value b)) := by
  have slot : (Sql.ofParam (.value b)).EndsIn boundMarks :=
    ⟨'?', by decide, by simp [Sql.ofParam, Sql.text, Piece.text]⟩
  unfold comparison
  refine Yields.bind (fun _ _ => trivial) fun column _ => ?_
  split
  · exact yields_pure.mpr (slot.behind _)
  · exact yields_pure.mpr (slot.behind _)

theorem yields_bitwise_boundMarks (column : Term Compiled) (operator : String) (b : Binding) :
    Yields (Sql.EndsIn boundMarks) (e.bitwise column operator (.value b)) := by
  have truth : (Sql.ofText ")::bool").EndsIn boundMarks := ⟨'l', by decide, rfl⟩
  have nonzero : (Sql.ofText ") != 0").EndsIn boundMarks := ⟨'0', by decide, rfl⟩
  unfold bitwise
  split
  · exact Yields.bind (fun _ _ => trivial) fun column _ => yields_pure.mpr (truth.behind _)
  · exact Yields.bind (fun _ _ => trivial) fun column _ => yields_pure.mpr (nonzero.behind _)
  all_goals exact e.yields_comparison_boundMarks column operator b

theorem yields_plain_boundMarks (column : Term Query) (operator : String) (b : Binding) :
    Yields (Sql.EndsIn boundMarks) (e.whereTest false
      ((Predicate.plain column operator (.value b)).map (Query.compiled e))) := by
  have kept (x : Outcome) (h : Yields (Sql.EndsIn boundMarks) x) :
      Yields (Sql.EndsIn boundMarks) (x.map (negate false)) :=
    h.map fun _ => id
  unfold Predicate.plain
  split
  · exact kept _ (e.yields_bitwise_boundMarks _ operator b)
  · simp only [Predicate.map, whereTest]
    split
    · exact kept _ (e.yields_bitwise_boundMarks _ operator b)
    · exact kept _ (e.yields_comparison_boundMarks _ operator b)

theorem yields_jsonBoolean_flagMarks (name operator : String) (flag : Bool) :
    Yields (Sql.EndsIn flagMarks)
      (e.whereTest false (.jsonBoolean name operator flag)) := by
  have last : (Sql.ofText (e.jsonBooleanValue (if flag then "true" else "false"))).EndsIn
      flagMarks := by
    unfold jsonBooleanValue
    cases e.dialect <;> cases flag <;> first
      | exact ⟨'e', by decide, rfl⟩
      | exact ⟨'\'', by decide, rfl⟩
      | exact ⟨'b', by decide, rfl⟩
  simp only [whereTest, jsonBooleanTest]
  refine Yields.map (P := Sql.EndsIn flagMarks) ?_ fun _ => id
  refine Yields.bind (P := fun s : String => (Sql.ofText s).EndsIn flagMarks) ?_
    fun _ ends => yields_pure.mpr ends
  refine Yields.bind (fun _ _ => trivial) fun selected _ => yields_pure.mpr ?_
  obtain ⟨c, mark, ends⟩ := last
  refine ⟨c, mark, ?_⟩
  rw [Sql.text_ofText] at ends ⊢
  rw [String.toList_append, List.getLast?_append, ends, Option.some_or]

/-- Two values that are the same inside, neither of them a bare boolean at a JSON path, are
compared with the same words. -/
theorem comparisonSql_sameWords {column : Term Query} {a b : Binding} (same : a.bare = b.bare)
    (first : column.isJsonPath = true → ∀ flag, a ≠ .bool flag)
    (second : column.isJsonPath = true → ∀ flag, b ≠ .bool flag) (operator : String) :
    SameWords (e.comparisonSql column operator (.value a))
      (e.comparisonSql column operator (.value b)) := by
  have null : a.isNull = b.isNull := by rw [Binding.isNull, same, Binding.isNull]
  unfold comparisonSql
  rw [Predicate.comparison_plain first, Predicate.comparison_plain second, null]
  split
  · exact rfl
  · have erased : (((Predicate.plain column operator (.value a)).map
        (Query.compiled e)).map Compiled.erase).erase
          = (((Predicate.plain column operator (.value b)).map
            (Query.compiled e)).map Compiled.erase).erase := by
      unfold Predicate.plain
      split <;> rfl
    have words := e.whereTest_erase false
      ((Predicate.plain column operator (.value a)).map (Query.compiled e))
    exact sameWords_of_erased words (erased ▸ e.whereTest_erase false _)

/-- A boolean that is bare at a JSON path is compared with other words than one with a type. -/
theorem comparisonSql_text_ne {column : Term Query} (path : column.isJsonPath = true)
    {flag : Bool} {b : Binding} (typed : ∀ other, b ≠ .bool other) (inside : b.bare = .bool flag)
    {operator : String} {x y : Sql}
    (bare : e.comparisonSql column operator (.value (.bool flag)) = .ok x)
    (bound : e.comparisonSql column operator (.value b) = .ok y) : x.text ≠ y.text := by
  have null : b.isNull = false := by rw [Binding.isNull, inside]
  cases column with
  | raw sql bindings | sub query aliasName => cases path
  | name name =>
    unfold comparisonSql at bare bound
    rw [Predicate.comparison_flag path] at bare
    rw [Predicate.comparison_plain fun _ => typed, null] at bound
    exact Sql.EndsIn.text_ne (e.yields_jsonBoolean_flagMarks name operator flag x bare)
      (e.yields_plain_boundMarks (.name name) operator b y bound)
      (by simp [boundMarks, flagMarks])

end Engine

/-- Values that are the same inside are given to a comparison alike unless one is a bare boolean and
the other is not, and a JSON path is compared. -/
theorem Param.compared_eq_iff {a b : Binding} (same : a.bare = b.bare) (column : Term Query) :
    (value a).compared column = (value b).compared column ↔
      (column.isJsonPath = true → ((∃ flag, a = .bool flag) ↔ ∃ flag, b = .bool flag)) := by
  cases path : column.isJsonPath
  · simp [compared, path, same]
  · simp only [compared, path, if_true, value.injEq, Binding.bareButFlag_eq_iff same,
      forall_const]

/-- Two values that are the same inside are compared with the same words exactly if they are given
to the comparison alike. -/
theorem Engine.comparisonSql_text_eq_iff (e : Engine) {a b : Binding} (same : a.bare = b.bare)
    {column : Term Query} {operator : String} {x y : Sql}
    (first : e.comparisonSql column operator (.value a) = .ok x)
    (second : e.comparisonSql column operator (.value b) = .ok y) :
    x.text = y.text ↔ (Param.value a).compared column = (Param.value b).compared column := by
  have words (plain : SameWords (e.comparisonSql column operator (.value a))
      (e.comparisonSql column operator (.value b))) : x.text = y.text := by
    rw [first, second] at plain
    exact Except.ok.inj plain
  rw [Param.compared_eq_iff same]
  by_cases path : column.isJsonPath = true
  · simp only [path, forall_const]
    by_cases left : ∃ flag, a = .bool flag <;> by_cases right : ∃ flag, b = .bool flag
    · obtain ⟨flag, rfl⟩ := left
      obtain ⟨other, rfl⟩ := right
      cases same
      simp [words rfl]
    · obtain ⟨flag, rfl⟩ := left
      have apart := e.comparisonSql_text_ne path (not_exists.mp right) same.symm first second
      simp [apart, right]
    · obtain ⟨flag, rfl⟩ := right
      have apart := e.comparisonSql_text_ne path (not_exists.mp left) same second first
      simp [apart.symm, left]
    · have plain := e.comparisonSql_sameWords same (fun _ : column.isJsonPath = true =>
        not_exists.mp left) (fun _ => not_exists.mp right) operator
      simp [words plain, left, right]
  · have plain := e.comparisonSql_sameWords same (fun there => absurd there path)
      (fun there => absurd there path) operator
    simp [words plain, path]

/-- Queries that are built alike compile to the same words, and to the same text with the values
put in. A comparison is alike for two values that are the same inside unless a bare boolean and one
with a type are compared at a JSON path, and there the words do differ. -/
theorem Query.BuiltAlike.statements {q r : Query} (h : q.BuiltAlike r) (e : Engine) :
    (SameWords (q.compiled e).select (r.compiled e).select ∧
      SameWords (e.existsSql (q.compiledClauses e)) (e.existsSql (r.compiledClauses e)) ∧
      SameWords (e.deleteSql (q.compiledClauses e)) (e.deleteSql (r.compiledClauses e)) ∧
      e.rawSql q = e.rawSql r) ∧
    ∀ (column : Term Query) (operator : String) (a b : Binding), a.bare = b.bare →
      ((Param.value a).compared column = (Param.value b).compared column ↔
        (column.isJsonPath = true → ((∃ flag, a = .bool flag) ↔ ∃ flag, b = .bool flag))) ∧
      ∀ x y : Sql, e.comparisonSql column operator (.value a) = .ok x →
        e.comparisonSql column operator (.value b) = .ok y →
        (x.text = y.text ↔
          (Param.value a).compared column = (Param.value b).compared column) := by
  refine ⟨Query.statements_of_bare h.bare_eq e, fun column operator a b same => ⟨?_, ?_⟩⟩
  · exact Param.compared_eq_iff same column
  · intro x y first second
    exact e.comparisonSql_text_eq_iff same first second

/-- Users by a date, an option, their numbers and the total of an order of theirs. -/
def earlyUsers (left total first : Binding) : Query :=
  .build [.source (.name "users"),
    .where .and (.name "left_at") "!=" (.value left),
    .whereNot (.name "options->active") "=" (.value (.typed (.bool true) .boolean)),
    .whereIn .or false (.name "id") [.value first, .raw "next_id()"],
    .whereExists .and false (.build [.source (.name "orders"),
      .having .and (.name "total") ">" (.value total)])]

/-- A null, a text and a number inside wrappers are no other values. -/
theorem earlyUsers_alike :
    (earlyUsers (.typed .null .timestamp) (.typed (.text "9") .decimal)
        (.typed (.typed (.int 1) .bigint) .uuid)).BuiltAlike
      (earlyUsers .null (.text "9") (.int 1)) ∧
    ∀ e : Engine, e.rawSql (earlyUsers (.typed .null .timestamp) (.typed (.text "9") .decimal)
        (.typed (.typed (.int 1) .bigint) .uuid))
      = e.rawSql (earlyUsers .null (.text "9") (.int 1)) := by
  have alike : (earlyUsers (.typed .null .timestamp) (.typed (.text "9") .decimal)
      (.typed (.typed (.int 1) .bigint) .uuid)).BuiltAlike
        (earlyUsers .null (.text "9") (.int 1)) := builtAlike_build rfl
  exact ⟨alike, fun e => (alike.statements e).1.2.2.2⟩

/-- The users with an option that has a value. -/
def usersWithActive (active : Binding) : Query :=
  .build [.source (.name "users"), .where .and (.name "options->active") "=" (.value active)]

/-- A boolean with a type around it is bound where a bare one is written as JSON. -/
theorem usersWithActive_differ :
    (Binding.typed (.bool true) .boolean).bare = .bool true ∧
    ((usersWithActive (.bool true)).compiled (.mk .mysql {})).select.map Sql.text
      = .ok "select * from `users` where json_extract(`options`, '$.\"active\"') = true" ∧
    ((usersWithActive (.typed (.bool true) .boolean)).compiled (.mk .mysql {})).select.map
      Sql.text = .ok
        "select * from `users` where json_unquote(json_extract(`options`, '$.\"active\"')) = ?" :=
  ⟨rfl, rfl, rfl⟩

end SqlCompiler
