import ApiStubs.Build

/-!
# Generated files are written

Generated files are made of few of the operations that a writer knows: texts, blocks, comments of
texts, and memos behind a line (`Generated`).  On a writer that has a line none of these fails, and
there still is a line afterwards (`Generated.succeeds`).  The files of both targets start with a
text that has lines, so that writing them never fails.
-/

namespace ApiStubs

/-- A writer that has a line, so that there is one to amend. -/
def Writer.Started (w : Writer) : Prop :=
  w.lines ≠ #[]

theorem Text.linesFrom_ne_nil (line cs : List Char) : linesFrom line cs ≠ [] := by
  fun_induction linesFrom line cs with
  | case5 line c rest _ _ _ ih => exact ih
  | _ => exact List.cons_ne_nil _ _

theorem Writer.started_writeText (w : Writer) (s : String) : (w.writeText s).Started := by
  intro h
  have h : w.lines ++ (indentLines (String.join w.margins) s).toArray = #[] := h
  have h : indentLines (String.join w.margins) s = [] := by
    simpa using (Array.append_eq_empty_iff.mp h).2
  exact Text.linesFrom_ne_nil [] s.toList (List.map_eq_nil_iff.mp h)

theorem Writer.amend_started {w : Writer} (h : w.Started) {change : String → Option String}
    (total : ∀ line, (change line).isSome) : ∃ v, w.amend change = (v, none) ∧ v.Started := by
  unfold amend
  cases hl : w.last? with
  | none => exact absurd (Array.back?_eq_none_iff.mp hl) h
  | some line =>
      obtain ⟨changed, hc⟩ := Option.isSome_iff_exists.mp (total line)
      refine ⟨{ w with lines := w.lines.pop.push changed }, ?_, Array.push_ne_empty⟩
      simp only [hc]

namespace WriteOp

/-- The operations that generated files are made of. -/
inductive Generated : WriteOp → Prop
  | texts (ss : List String) : Generated (.texts ss)
  | block {body : List WriteOp} : (∀ op ∈ body, Generated op) → Generated (.block body)
  | comment (ss : List String) : Generated (.comment [.texts ss])
  | memo (s : String) : Generated (.amend fun line => some (line ++ " // " ++ memoText s))

/-- `op.Succeeds`: on a writer that has a line the operation does not fail, and there still is a
line afterwards. -/
def Succeeds (op : WriteOp) : Prop :=
  ∀ w : Writer, w.Started → ∃ v, op.run w = (v, none) ∧ v.Started

theorem runAll_of_succeeds {ops : List WriteOp} (h : ∀ op ∈ ops, op.Succeeds) :
    ∀ w : Writer, w.Started → ∃ v, runAll ops w = (v, none) ∧ v.Started := by
  induction ops with
  | nil => exact fun w hw => ⟨w, by simp [runAll], hw⟩
  | cons op rest ih =>
      intro w hw
      obtain ⟨u, hu, hus⟩ := h op List.mem_cons_self w hw
      obtain ⟨v, hv, hvs⟩ := ih (fun o ho => h o (List.mem_cons_of_mem _ ho)) u hus
      exact ⟨v, by rw [runAll, hu]; exact hv, hvs⟩

theorem writeItems_texts (ss : List String) (w : Writer) :
    w.writeItems (ss.map .text) = (ss.foldl Writer.writeText w, none) := by
  induction ss generalizing w with
  | nil => rfl
  | cons s rest ih => exact ih (w.writeText s)

theorem started_foldl_writeText {ss : List String} {w : Writer} (h : w.Started ∨ ss ≠ []) :
    (ss.foldl Writer.writeText w).Started := by
  induction ss generalizing w with
  | nil => exact h.resolve_right fun hn => hn rfl
  | cons s rest ih => exact ih (Or.inl (w.started_writeText s))

theorem run_texts (ss : List String) (w : Writer) :
    (texts ss).run w = (ss.foldl Writer.writeText w, none) := by
  rw [texts, run, writeItems_texts]

theorem Generated.succeeds {op : WriteOp} (h : Generated op) : op.Succeeds := by
  induction h with
  | texts ss => exact fun w hw => ⟨_, run_texts ss w, started_foldl_writeText (Or.inl hw)⟩
  | block _ ih =>
      intro w hw
      obtain ⟨v, hv, hvs⟩ := runAll_of_succeeds ih w.openBlock hw
      exact ⟨v.pop, by rw [run, hv]; rfl, hvs⟩
  | comment ss =>
      intro w _
      have hbody : runAll [.texts ss] w.openComment =
          (ss.foldl Writer.writeText w.openComment, none) := by
        simp only [runAll, run_texts]
      let v := ss.foldl Writer.writeText w.openComment
      exact ⟨v.pop.writeText v.style.comment.closing, by rw [run, hbody]; rfl,
        v.pop.started_writeText _⟩
  | memo s =>
      intro w hw
      have total : ∀ line, (some (line ++ " // " ++ memoText s)).isSome = true := fun _ => rfl
      exact w.amend_started hw total

/-! ## Pieces -/

/-- The same of several operations. -/
def GeneratedAll (ops : List WriteOp) : Prop :=
  ∀ op ∈ ops, Generated op

@[simp] theorem generated_texts (ss : List String) : Generated (.texts ss) :=
  .texts ss

@[simp] theorem generated_text (s : String) : Generated (.text s) :=
  .texts [s]

@[simp] theorem generated_block_iff {body : List WriteOp} :
    Generated (.block body) ↔ GeneratedAll body := by
  constructor
  · intro h
    cases h with
    | block h => exact h
  · exact .block

@[simp] theorem generated_comment_texts (ss : List String) : Generated (.comment [.texts ss]) :=
  .comment ss

@[simp] theorem generated_comment_text (s : String) : Generated (.comment [.text s]) :=
  .comment [s]

@[simp] theorem generatedAll_nil : GeneratedAll [] :=
  fun _ h => absurd h List.not_mem_nil

@[simp] theorem generatedAll_cons_iff {op : WriteOp} {ops : List WriteOp} :
    GeneratedAll (op :: ops) ↔ Generated op ∧ GeneratedAll ops :=
  List.forall_mem_cons

@[simp] theorem generatedAll_append_iff {ops others : List WriteOp} :
    GeneratedAll (ops ++ others) ↔ GeneratedAll ops ∧ GeneratedAll others :=
  List.forall_mem_append

theorem generatedAll_flatMap {α : Type} {f : α → List WriteOp} (h : ∀ a, GeneratedAll (f a))
    (as : List α) : GeneratedAll (as.flatMap f) := by
  intro op hop
  obtain ⟨a, _, ha⟩ := List.mem_flatMap.mp hop
  exact h a op ha

theorem generatedAll_map {α : Type} {f : α → WriteOp} (h : ∀ a, Generated (f a)) (as : List α) :
    GeneratedAll (as.map f) := by
  intro op hop
  obtain ⟨a, _, ha⟩ := List.mem_map.mp hop
  exact ha ▸ h a

@[simp] theorem generatedAll_note (s : String) : GeneratedAll (note s) := by
  unfold note
  split
  · simp
  · simp

@[simp] theorem generatedAll_memo (s : String) : GeneratedAll (WriteOp.memo s) := by
  unfold WriteOp.memo
  split
  · simp
  · exact List.forall_mem_singleton.mpr (.memo s)

/-- Writing does not fail if the first thing written is a text that has lines. -/
theorem write_texts_cons {lines : List String} (hl : lines ≠ []) {ops : List WriteOp}
    (h : GeneratedAll ops) : ∃ w, Build.write (texts lines :: ops) = .ok w := by
  have hs : (lines.foldl Writer.writeText (.new .standard)).Started :=
    started_foldl_writeText (Or.inr hl)
  obtain ⟨v, hv, _⟩ := runAll_of_succeeds (fun op ho => (h op ho).succeeds) _ hs
  have hrun : runAll (texts lines :: ops) (.new .standard) = (v, none) := by
    rw [runAll, run_texts]
    exact hv
  exact ⟨v, by rw [Build.write, hrun]⟩

end WriteOp

open WriteOp (Generated GeneratedAll generatedAll_flatMap generatedAll_map)

/-! ## TypeScript -/

namespace Ts

theorem generatedAll_stub (stub : Stub) : GeneratedAll stub.ops := by
  simp [Stub.ops]

theorem generatedAll_moduleObject (m : ModuleObject) : GeneratedAll m.ops := by
  simp [ModuleObject.ops, generatedAll_flatMap generatedAll_stub]

theorem generatedAll_field (f : Field) : GeneratedAll f.ops := by
  simp [Field.ops]

theorem generatedAll_typeBody (head : String) (body : TypeBody) :
    GeneratedAll (body.ops head) := by
  unfold TypeBody.ops
  split
  · simp
  · simp
  · simp [generatedAll_flatMap generatedAll_field]

theorem generatedAll_typeDefinition (t : TypeDefinition) : GeneratedAll t.ops := by
  simp [TypeDefinition.ops, generatedAll_typeBody]

theorem generatedAll_constant (c : Constant) : GeneratedAll (constantOps c) := by
  simp [constantOps]

theorem generatedAll_enum (e : Enum) : GeneratedAll (enumOps e) := by
  simp [enumOps, generatedAll_flatMap generatedAll_constant]

/-- A file starts with its head; what follows is generated as well. -/
theorem Document.ops_eq (document : Document) :
    ∃ ops, document.ops = .texts document.headLines :: ops ∧ GeneratedAll ops := by
  refine ⟨_, rfl, ?_⟩
  have auxiliary : ∀ entry : String × String, Generated (aliasOps entry.1 entry.2) :=
    fun _ => .texts _
  simp [generatedAll_flatMap generatedAll_moduleObject,
    generatedAll_flatMap generatedAll_typeDefinition, generatedAll_flatMap generatedAll_enum,
    generatedAll_map auxiliary]

theorem Document.write_ok (document : Document) : ∃ w, Build.write document.ops = .ok w := by
  obtain ⟨ops, hops, generated⟩ := document.ops_eq
  have head : document.headLines ≠ [] := by simp [headLines]
  rw [hops]
  exact WriteOp.write_texts_cons head generated

end Ts

/-! ## Objective-C -/

namespace Oc

theorem generatedAll_methodInterface (m : Method) : GeneratedAll m.interfaceOps := by
  simp [Method.interfaceOps]

theorem generatedAll_methodImplementation (m : Method) : GeneratedAll m.implementationOps := by
  simp [Method.implementationOps]

theorem generatedAll_moduleInterface (m : ModuleClass) : GeneratedAll m.interfaceOps := by
  simp [ModuleClass.interfaceOps, generatedAll_flatMap generatedAll_methodInterface]

theorem generatedAll_moduleImplementation (m : ModuleClass) :
    GeneratedAll m.implementationOps := by
  simp [ModuleClass.implementationOps, generatedAll_flatMap generatedAll_methodImplementation]

theorem generatedAll_property (p : Property) : GeneratedAll p.ops := by
  simp [Property.ops]

theorem generatedAll_interface (i : Interface) : GeneratedAll i.interfaceOps := by
  simp [Interface.interfaceOps, generatedAll_flatMap generatedAll_property]

theorem generatedAll_implementation (i : Interface) : GeneratedAll i.implementationOps := by
  simp [Interface.implementationOps]

theorem generatedAll_numberConstant (enumName : String) (c : Constant) :
    GeneratedAll (numberConstantOps enumName c) := by
  simp [numberConstantOps]

theorem generatedAll_textConstant (enumName : String) (c : Constant) :
    GeneratedAll (textConstantOps enumName c) := by
  simp [textConstantOps]

theorem generatedAll_enum (e : Enum) : GeneratedAll (enumOps e) := by
  unfold enumOps
  split
  · simp [generatedAll_flatMap (generatedAll_numberConstant _)]
  · simp [generatedAll_flatMap (generatedAll_textConstant _)]

/-- A file starts with its head; what follows is generated as well. -/
theorem Document.ops_eq (document : Document) :
    ∃ ops, document.ops = .texts document.headLines :: ops ∧ GeneratedAll ops := by
  refine ⟨_, rfl, ?_⟩
  simp [generatedAll_flatMap generatedAll_moduleInterface,
    generatedAll_flatMap generatedAll_moduleImplementation,
    generatedAll_flatMap generatedAll_interface, generatedAll_flatMap generatedAll_implementation,
    generatedAll_flatMap generatedAll_enum]

theorem Document.write_ok (document : Document) : ∃ w, Build.write document.ops = .ok w := by
  obtain ⟨ops, hops, generated⟩ := document.ops_eq
  have head : document.headLines ≠ [] := by simp [headLines]
  rw [hops]
  exact WriteOp.write_texts_cons head generated

end Oc

end ApiStubs
