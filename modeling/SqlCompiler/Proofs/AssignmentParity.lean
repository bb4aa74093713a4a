import SqlCompiler.Engine.Assignment
import SqlCompiler.Proofs.AlignedConditions
import SqlCompiler.Proofs.TreeHygiene
/-!
# The assignments of an update are aligned

Whatever a dialect makes of a hygienic tree, a sequence of writes or nested calls, keeps the paths
in literals and the values in slots between words of its own.
-/

namespace SqlCompiler

open Substitute

variable {path : List PathStep}

theorem aligned_writeLiteral (hp : ∀ step ∈ path, step.Clean) :
    (Sql.ofText (JsonPath.writeLiteral path)).Aligned :=
  Sql.aligned_ofText.mpr (JsonPath.holds_writeLiteral hp)

theorem aligned_strictLiteral (hp : ∀ step ∈ path, step.Clean) :
    (Sql.ofText (JsonPath.strictLiteral path)).Aligned :=
  Sql.aligned_ofText.mpr (JsonPath.holds_strictLiteral hp)

theorem aligned_arrayLiteral (hp : ∀ step ∈ path, step.Clean) :
    (Sql.ofText (JsonPath.arrayLiteral path)).Aligned :=
  Sql.aligned_ofText.mpr (JsonPath.holds_arrayLiteral hp)

theorem clean_snoc (hp : ∀ step ∈ path, step.Clean) {last : PathStep} (hl : last.Clean) :
    ∀ step ∈ path ++ [last], step.Clean :=
  List.forall_mem_append.mpr ⟨hp, List.forall_mem_singleton.mpr hl⟩

theorem clean_key {k : String} (h : Clean k.toList) : (PathStep.key k).Clean := h

theorem clean_index (i : Nat) : (PathStep.index i).Clean := trivial

namespace UpdateTree

variable {field : String} (hf : (Sql.ofText field).Aligned)

theorem aligned_jsonbSet {document value : Sql} (hd : document.Aligned) (hv : value.Aligned)
    {step : PathStep} (hs : step.Clean) : (jsonbSet document step value).Aligned := by
  have literal := aligned_arrayLiteral (List.forall_mem_singleton.mpr hs)
  simp +decide [jsonbSet, hd, literal, hv]

include hf in
theorem aligned_jsonbAt (hp : ∀ step ∈ path, step.Clean) (isArray : Bool) :
    (jsonbAt field path isArray).Aligned := by
  have literal := aligned_arrayLiteral hp
  have empty : (Sql.ofText (if isArray then "'[]'::jsonb" else "'\x7b\x7d'::jsonb")).Aligned := by
    rw [Sql.aligned_ofText]
    cases isArray <;> decide
  simp +decide [jsonbAt, hf, literal, empty]

mutual

theorem aligned_jsonbValue (hf : (Sql.ofText field).Aligned) :
    ∀ {path : List PathStep} {tree : UpdateTree}, (∀ step ∈ path, step.Clean) → tree.Hygienic →
      (jsonbValue field path tree).Aligned
  | _, leaf (.raw _), _, h => Sql.aligned_ofText.mpr h
  | _, leaf (.value b), _, _ => by
    simp +decide [jsonbValue, Sql.aligned_ofParam_value]
  | _, object _, hp, h => aligned_jsonbMembers hf hp (aligned_jsonbAt hf hp false) h
  | _, array _, hp, h => aligned_jsonbSlots hf hp (aligned_jsonbAt hf hp true) h

theorem aligned_jsonbMembers (hf : (Sql.ofText field).Aligned) :
    ∀ {path : List PathStep} {document : Sql} {members : List (String × UpdateTree)},
      (∀ step ∈ path, step.Clean) → document.Aligned → HygienicMembers members →
      (jsonbMembers field path document members).Aligned
  | _, _, [], _, hd, _ => hd
  | _, _, (_, _) :: _, hp, hd, h => by
    have value := aligned_jsonbValue hf (clean_snoc hp (clean_key h.1)) h.2.1
    rw [jsonbMembers]
    exact aligned_jsonbMembers hf hp (aligned_jsonbSet hd value (clean_key h.1)) h.2.2

theorem aligned_jsonbSlots (hf : (Sql.ofText field).Aligned) :
    ∀ {path : List PathStep} {document : Sql} {slots : List (Nat × UpdateTree)},
      (∀ step ∈ path, step.Clean) → document.Aligned → HygienicSlots slots →
      (jsonbSlots field path document slots).Aligned
  | _, _, [], _, hd, _ => hd
  | _, _, (i, _) :: _, hp, hd, h => by
    have value := aligned_jsonbValue hf (clean_snoc hp (clean_index i)) h.1
    rw [jsonbSlots]
    exact aligned_jsonbSlots hf hp (aligned_jsonbSet hd value (clean_index i)) h.2

end

include hf in
theorem aligned_modifyTarget (hp : ∀ step ∈ path, step.Clean) {step : PathStep} (hs : step.Clean) :
    (Sql.ofText (modifyTarget field path step)).Aligned := by
  cases step with
  | key k => exact aligned_writeLiteral (clean_snoc hp hs)
  | index i =>
    have element := aligned_writeLiteral (clean_snoc hp (clean_index i))
    have written : ∀ parent appended : String, (Sql.ofText parent).Aligned →
        (Sql.ofText appended).Aligned → (Sql.ofText ("case when (select count(*) from openjson("
          ++ field ++ ", " ++ parent ++ ")) > " ++ natText i ++ " then "
          ++ JsonPath.writeLiteral (path ++ [.index i]) ++ " else " ++ appended
          ++ " end")).Aligned := by
      intro parent appended hparent happended
      simp +decide [Sql.aligned_ofText_append, Sql.aligned_ofText_append_append, hf, hparent,
        aligned_natText, element, happended]
    -- The words around the path hold the quotes of its literals.
    have opening : ", '" = ", " ++ "'" := rfl
    have closing : "')) > " = "'" ++ ")) > " := rfl
    have other : " else 'append " = " else " ++ "'append " := rfl
    have final : "' end" = "'" ++ " end" := rfl
    have steps := JsonPath.clean_stepsText hp
    have parent : (Sql.ofText ("'" ++ String.ofList (JsonPath.stepsText path) ++ "'")).Aligned := by
      rw [Sql.aligned_ofText]
      simpa using holds_literal steps
    have appended : (Sql.ofText ("'append " ++ String.ofList (JsonPath.stepsText path)
        ++ "'")).Aligned := by
      have words : Clean ("append ".toList ++ JsonPath.stepsText path) :=
        clean_append.mpr ⟨by decide, steps⟩
      rw [Sql.aligned_ofText]
      simpa using holds_literal words
    have whole := written _ _ parent appended
    unfold modifyTarget
    rw [opening, closing, other, final]
    simpa only [String.append_assoc] using whole

theorem aligned_jsonModify {document value : Sql} (hd : document.Aligned) (hv : value.Aligned)
    {target : String} (ht : (Sql.ofText target).Aligned) :
    (jsonModify document target value).Aligned := by
  simp +decide [jsonModify, hd, ht, hv]

include hf in
theorem aligned_modifyLeaf (hp : ∀ step ∈ path, step.Clean) {step : PathStep} (hs : step.Clean)
    {document : Sql} (hd : document.Aligned) {value : Param} (hv : value.Hygienic) :
    (modifyLeaf field path document step value).Aligned := by
  have target := aligned_modifyTarget hf hp hs
  cases value with
  | raw sql => exact aligned_jsonModify hd (Sql.aligned_ofText.mpr hv) target
  | value b =>
    have cleared : (Sql.ofText "''").Aligned := Sql.aligned_ofText.mpr (by decide)
    have null : (Sql.ofText "null").Aligned := Sql.aligned_ofText.mpr (by decide)
    simp only [modifyLeaf]
    split
    · exact aligned_jsonModify (aligned_jsonModify hd cleared target) null
        (aligned_strictLiteral (clean_snoc hp hs))
    · exact aligned_jsonModify hd (Sql.aligned_ofParam_value b) target

include hf in
theorem aligned_modifyContainer (hp : ∀ step ∈ path, step.Clean) {step : PathStep}
    (hs : step.Clean) {document : Sql} (hd : document.Aligned) (isArray : Bool) :
    (modifyContainer field path document step isArray).Aligned := by
  have literal := aligned_writeLiteral (clean_snoc hp hs)
  have empty : (Sql.ofText (if isArray then "'[]'" else "'\x7b\x7d'")).Aligned := by
    rw [Sql.aligned_ofText]
    cases isArray <;> decide
  refine aligned_jsonModify hd ?_ (aligned_modifyTarget hf hp hs)
  simp +decide [hf, literal, empty]

mutual

theorem aligned_modifyNode (hf : (Sql.ofText field).Aligned) :
    ∀ {path : List PathStep} {document : Sql} {step : PathStep} {tree : UpdateTree},
      (∀ step ∈ path, step.Clean) → document.Aligned → step.Clean → tree.Hygienic →
      (modifyNode field path document step tree).Aligned
  | _, _, _, leaf _, hp, hd, hs, h => aligned_modifyLeaf hf hp hs hd h
  | _, _, _, object _, hp, hd, hs, h =>
    aligned_modifyMembers hf (clean_snoc hp hs) (aligned_modifyContainer hf hp hs hd false) h
  | _, _, _, array _, hp, hd, hs, h =>
    aligned_modifySlots hf (clean_snoc hp hs) (aligned_modifyContainer hf hp hs hd true) h

theorem aligned_modifyMembers (hf : (Sql.ofText field).Aligned) :
    ∀ {path : List PathStep} {document : Sql} {members : List (String × UpdateTree)},
      (∀ step ∈ path, step.Clean) → document.Aligned → HygienicMembers members →
      (modifyMembers field path document members).Aligned
  | _, _, [], _, hd, _ => hd
  | _, _, (_, _) :: _, hp, hd, h => by
    rw [modifyMembers]
    exact aligned_modifyMembers hf hp (aligned_modifyNode hf hp hd (clean_key h.1) h.2.1) h.2.2

theorem aligned_modifySlots (hf : (Sql.ofText field).Aligned) :
    ∀ {path : List PathStep} {document : Sql} {slots : List (Nat × UpdateTree)},
      (∀ step ∈ path, step.Clean) → document.Aligned → HygienicSlots slots →
      (modifySlots field path document slots).Aligned
  | _, _, [], _, hd, _ => hd
  | _, _, (i, _) :: _, hp, hd, h => by
    rw [modifySlots]
    exact aligned_modifySlots hf hp (aligned_modifyNode hf hp hd (clean_index i) h.1) h.2

end

end UpdateTree

/-! ### Sequences of writes -/

def PathWrite.Hygienic : PathWrite → Prop
  | .raw path sql => (∀ step ∈ path, step.Clean) ∧ Holds 0 sql.toList
  | .value path _ | .patch path _ | .container path _ => ∀ step ∈ path, step.Clean

namespace UpdateTree

mutual

theorem hygienic_nodeWrites : ∀ {path : List PathStep} {tree : UpdateTree},
    (∀ step ∈ path, step.Clean) → tree.Hygienic →
    Yields (fun writes => ∀ write ∈ writes, write.Hygienic) (nodeWrites path tree)
  | _, leaf (.raw _), hp, h => yields_ok.mpr (List.forall_mem_singleton.mpr ⟨hp, h⟩)
  | _, leaf (.value _), hp, _ => yields_ok.mpr (List.forall_mem_singleton.mpr hp)
  | _, object _, hp, h => by
    rw [nodeWrites]
    split
    · intro writes ok
      obtain ⟨sorted, _, rfl⟩ := map_ok ok
      exact List.forall_mem_singleton.mpr hp
    · exact (hygienic_memberWrites hp h).map fun writes each => List.forall_mem_cons.mpr ⟨hp, each⟩
  | _, array _, hp, h => by
    rw [nodeWrites]
    exact (hygienic_slotWrites hp h).map fun writes each => List.forall_mem_cons.mpr ⟨hp, each⟩

theorem hygienic_memberWrites : ∀ {path : List PathStep} {members : List (String × UpdateTree)},
    (∀ step ∈ path, step.Clean) → HygienicMembers members →
    Yields (fun writes => ∀ write ∈ writes, write.Hygienic) (memberWrites path members)
  | _, [], _, _ => yields_ok.mpr (by simp)
  | _, (_, _) :: _, hp, h => by
    rw [memberWrites]
    refine (hygienic_nodeWrites (clean_snoc hp (clean_key h.1)) h.2.1).bind fun first own => ?_
    exact (hygienic_memberWrites hp h.2.2).bind fun rest others =>
      yields_pure.mpr (List.forall_mem_append.mpr ⟨own, others⟩)

theorem hygienic_slotWrites : ∀ {path : List PathStep} {slots : List (Nat × UpdateTree)},
    (∀ step ∈ path, step.Clean) → HygienicSlots slots →
    Yields (fun writes => ∀ write ∈ writes, write.Hygienic) (slotWrites path slots)
  | _, [], _, _ => yields_ok.mpr (by simp)
  | _, (i, _) :: _, hp, h => by
    rw [slotWrites]
    refine (hygienic_nodeWrites (clean_snoc hp (clean_index i)) h.1).bind fun first own => ?_
    exact (hygienic_slotWrites hp h.2).bind fun rest others =>
      yields_pure.mpr (List.forall_mem_append.mpr ⟨own, others⟩)

end

theorem hygienic_writes {tree : UpdateTree} (h : tree.Hygienic) :
    Yields (fun writes => ∀ write ∈ writes, write.Hygienic) tree.writes := by
  cases tree with
  | object members => exact hygienic_memberWrites (by simp) h
  | array slots => exact hygienic_slotWrites (by simp) h
  | leaf value => exact yields_ok.mpr (by simp)

end UpdateTree

namespace WriteWords

/-- Words that keep what they are put around apart. -/
structure Keeps (w : WriteWords) : Prop where
  document : ∀ slot : Sql, slot.Aligned → (w.document slot).Aligned
  merge : ∀ there patch : Sql, there.Aligned → patch.Aligned → (w.merge there patch).Aligned
  orEmpty : ∀ there empty : Sql, there.Aligned → empty.Aligned → (w.orEmpty there empty).Aligned
  emptyObject : (Sql.ofText w.emptyObject).Aligned
  emptyArray : (Sql.ofText w.emptyArray).Aligned

theorem keeps_mysql : mysql.Keeps where
  document slot h := by simp +decide [mysql, h]
  merge there patch ht hp := by simp +decide [mysql, ht, hp]
  orEmpty there empty ht he := by simp +decide [mysql, ht, he]
  emptyObject := Sql.aligned_ofText.mpr (by decide)
  emptyArray := Sql.aligned_ofText.mpr (by decide)

theorem keeps_sqlite : sqlite.Keeps where
  document slot h := by simp +decide [sqlite, h]
  merge there patch ht hp := by simp +decide [sqlite, ht, hp]
  orEmpty there empty ht he := by simp +decide [sqlite, ht, he]
  emptyObject := Sql.aligned_ofText.mpr (by decide)
  emptyArray := Sql.aligned_ofText.mpr (by decide)

variable {w : WriteWords} (hw : w.Keeps) {field : String} (hf : (Sql.ofText field).Aligned)
include hw hf

theorem aligned_write {write : PathWrite} (h : write.Hygienic) : (w.write field write).Aligned := by
  have bound : ∀ text, (w.bound text).Aligned :=
    fun text => hw.document _ (Sql.aligned_ofParam_value text)
  cases write with
  | raw path sql =>
    have raw : (Sql.ofText sql).Aligned := Sql.aligned_ofText.mpr h.2
    simp +decide [WriteWords.write, aligned_writeLiteral h.1, raw]
  | value path b => simp +decide [WriteWords.write, aligned_writeLiteral h, bound]
  | patch path document =>
    have literal := aligned_writeLiteral h
    refine Sql.Aligned.beside (by decide) literal (hw.merge _ _ ?_ (bound _))
    simp +decide [hf, literal]
  | container path isArray =>
    have literal := aligned_writeLiteral h
    refine Sql.Aligned.beside (by decide) literal (hw.orEmpty _ _ ?_ ?_)
    · simp +decide [hf, literal]
    · cases isArray
      · exact hw.emptyObject
      · exact hw.emptyArray

theorem writeList_aligned {tree : UpdateTree} (h : tree.Hygienic) :
    Yields (fun parts => ∀ part ∈ parts, part.Aligned) (w.writeList field tree) :=
  (UpdateTree.hygienic_writes h).map fun _ each =>
    List.forall_mem_map.mpr fun write member => aligned_write hw hf (each write member)

end WriteWords

/-! ### The set list -/

namespace Engine

variable {e : Engine} (he : Clean e.settings.tablePrefix.toList)
include he

theorem treeAssignment_aligned {column : String} (hc : Clean column.toList) {tree : UpdateTree}
    (ht : tree.Hygienic) : Yields Sql.Aligned (e.treeAssignment column tree) := by
  -- What the field holds, or an empty container of the kind of the tree.
  have orEmpty : ∀ {field before between array object : String}, (Sql.ofText field).Aligned →
      Spacer before → Spacer between → (Sql.ofText array).Aligned → (Sql.ofText object).Aligned →
      (Sql.ofText (before ++ field ++ between ++ (if tree.isArray then array else object)
        ++ ")")).Aligned := by
    intro field before between array object hf hb hs ha ho
    split <;> simp +decide [Sql.aligned_ofText_append, Sql.aligned_ofText_append_append, *]
  have literal : ∀ {s : String}, Holds 0 s.toList → (Sql.ofText s).Aligned := Sql.aligned_ofText.mpr
  unfold treeAssignment
  split
  · exact yields_error
  · refine (aligned_wrap he hc).bind fun field hf => ?_
    have base := orEmpty hf (by decide : Spacer "ifnull(") (by decide : Spacer ", ")
      (literal (by decide : Holds 0 "json_array()".toList))
      (literal (by decide : Holds 0 "json_object()".toList))
    refine (WriteWords.writeList_aligned WriteWords.keeps_mysql hf ht).bind fun writes each => ?_
    have list := Sql.aligned_join (by decide : Spacer ", ") each
    change Yields _ (if writes.isEmpty then _ else _)
    split
    · exact yields_pure.mpr (by simp +decide [hf, base])
    · exact yields_pure.mpr (by simp +decide [hf, base, list])
  · refine (aligned_wrap he hc).bind fun field hf => ?_
    have base := orEmpty hf (by decide : Spacer "coalesce(") (by decide : Spacer "::jsonb, ")
      (literal (by decide : Holds 0 "'[]'::jsonb".toList))
      (literal (by decide : Holds 0 "'\x7b\x7d'::jsonb".toList))
    refine yields_pure.mpr (Sql.Aligned.beside (by decide) hf ?_)
    split
    · exact UpdateTree.aligned_jsonbMembers hf (by simp) base ht
    · exact UpdateTree.aligned_jsonbSlots hf (by simp) base ht
    · exact base
  · refine (aligned_wrap he hc).bind fun field hf => ?_
    split
    · intro sql ok
      obtain ⟨document, _, done⟩ := bind_ok ok
      obtain rfl := pure_ok done
      have bound := WriteWords.keeps_sqlite.document _
        (Sql.aligned_ofParam_value (.text document.text))
      simp +decide [WriteWords.bound, hf, bound]
    · refine (WriteWords.writeList_aligned WriteWords.keeps_sqlite hf ht).bind fun writes each => ?_
      have list := Sql.aligned_join (by decide : Spacer ", ") each
      have empty :
          (Sql.ofText (if tree.isArray then "json('[]')" else "json('\x7b\x7d')")).Aligned := by
        split <;> exact literal (by decide)
      exact yields_pure.mpr (by simp +decide [hf, empty, list])
  · refine (aligned_wrap he hc).bind fun field hf => ?_
    have base := orEmpty hf (by decide : Spacer "isnull(") (by decide : Spacer ", ")
      (literal (by decide : Holds 0 "'[]'".toList))
      (literal (by decide : Holds 0 "'\x7b\x7d'".toList))
    refine yields_pure.mpr (Sql.Aligned.beside (by decide) hf ?_)
    split
    · exact UpdateTree.aligned_modifyMembers hf (by simp) base ht
    · exact UpdateTree.aligned_modifySlots hf (by simp) base ht
    · exact base

theorem assignments_aligned {trees : List (String × UpdateTree)}
    (ht : UpdateTree.AllHygienic trees) {done : List String} {entries : List (String × Param)}
    (h : ∀ entry ∈ entries, Clean entry.1.toList ∧ entry.2.Hygienic) :
    Yields (fun parts => ∀ part ∈ parts, part.Aligned) (e.assignments trees done entries) := by
  induction entries generalizing done with
  | nil => exact yields_ok.mpr (by simp)
  | cons entry rest ih =>
    obtain ⟨key, value⟩ := entry
    obtain ⟨own, others⟩ := List.forall_mem_cons.mp h
    rw [assignments]
    split
    · next tree found =>
      split
      · exact ih others
      · have ⟨clean, own⟩ := ht _ (Entries.mem_of_get? found)
        refine (treeAssignment_aligned he clean own).bind fun first aligned => ?_
        exact (ih others).bind fun rest each =>
          yields_pure.mpr (List.forall_mem_cons.mpr ⟨aligned, each⟩)
    · refine (aligned_wrap he own.1).bind fun column aligned => ?_
      have assigned : (Sql.ofText column ++ " = " ++ Sql.ofParam value).Aligned :=
        Sql.Aligned.beside (by decide) aligned own.2.aligned
      exact (ih others).bind fun rest each =>
        yields_pure.mpr (List.forall_mem_cons.mpr ⟨assigned, each⟩)

end Engine

/-- A row that an update can set: besides being hygienic, a document that is set as a whole beside
paths into it has clean names. -/
structure Row.UpdateHygienic (e : Engine) (values : Row) : Prop where
  own : values.Hygienic
  documents : ∀ entry ∈ values.entries,
    e.updateColumnName entry.1 ∈ UpdateTree.pathColumns (e.updateRow values) →
    ∀ document ∈ UpdateTree.containerDocument? entry.2, document.CleanKeys

namespace Engine

variable {e : Engine}

theorem clean_updateColumnName {key : String} (h : Clean key.toList) :
    Clean (e.updateColumnName key).toList := by
  unfold updateColumnName
  split
  · exact h
  · exact h
  all_goals exact clean_unqualified h

theorem updateRow_hygienic {values : Row} (h : values.UpdateHygienic e) :
    (e.updateRow values).Hygienic ∧
      ∀ entry ∈ (e.updateRow values).entries,
        entry.1 ∈ UpdateTree.pathColumns (e.updateRow values) →
        ∀ document ∈ UpdateTree.containerDocument? entry.2, document.CleanKeys := by
  have each : ∀ entry ∈ (e.updateRow values).entries,
      (Clean entry.1.toList ∧ entry.2.Hygienic) ∧
        (entry.1 ∈ UpdateTree.pathColumns (e.updateRow values) →
          ∀ document ∈ UpdateTree.containerDocument? entry.2, document.CleanKeys) := by
    refine Row.forall_ofList (List.forall_mem_map.mpr fun entry member => ?_)
    obtain ⟨clean, hygienic⟩ := h.own entry member
    exact ⟨⟨clean_updateColumnName clean, hygienic⟩, h.documents entry member⟩
  exact ⟨fun entry member => (each entry member).1, fun entry member => (each entry member).2⟩

theorem setList_aligned (he : Clean e.settings.tablePrefix.toList) {values : Row}
    (h : values.UpdateHygienic e) : Yields Sql.Aligned (e.setList values) := by
  obtain ⟨own, documents⟩ := updateRow_hygienic h
  refine (UpdateTree.ofRow_hygienic own documents).bind fun trees hygienic => ?_
  refine (assignments_aligned he hygienic own).bind fun parts each => yields_pure.mpr ?_
  exact Sql.aligned_join (by decide) each

end Engine

end SqlCompiler
