import ApiStubs.Proofs.Outcome
import Mathlib.Data.List.Infix

/-!
# Headers in generated code

A generated file is code with comments in between.  What a file declares it declares by a text that
names it, with the type parameters listed behind the name (`Header`).  To say that a header stands
in a file, the texts of a file are listed apart from its comments: those that an operation writes
itself (`WriteOp.ownTexts`), and those anywhere within it (`WriteOp.codeTexts`).

A build that succeeds writes the document of a model (`Ts.exists_writes`, `Oc.exists_writes`), so
that what holds of all documents of models holds of all that is built.
-/

namespace ApiStubs

def parameterList (parameters : List String) : String :=
  if parameters.isEmpty then "" else "<" ++ ", ".intercalate parameters ++ ">"

/-- A text that declares a name. -/
structure Header where
  opening : String
  name : String
  /-- the type parameters listed behind the name -/
  parameters : List String
  closing : String

def Header.text (h : Header) : String :=
  h.opening ++ h.name ++ parameterList h.parameters ++ h.closing

theorem Header.text_plain (opening name closing : String) :
    (Header.mk opening name [] closing).text = opening ++ name ++ closing := by
  simp only [text, parameterList, List.isEmpty_nil, if_true, String.append_empty]

theorem Class.head_eq (c : Class) : c.head = c.simpleName ++ parameterList c.typeParameters := by
  simp only [head, parameterList]
  split
  · exact String.append_empty.symm
  · simp only [String.append_assoc]

/-! ## The texts of operations -/

def WriteItem.text? : WriteItem → Option String
  | nothing => none
  | text s => some s
  | other _ => none

namespace WriteOp

/-- The texts that an operation writes itself, and not within a block or a comment. -/
def ownTexts : WriteOp → List String
  | write items => items.filterMap WriteItem.text?
  | _ => []

mutual

/-- The texts that an operation writes, at any depth but not within a comment. -/
def codeTexts : WriteOp → List String
  | write items => items.filterMap WriteItem.text?
  | block body => codeTextsOfAll body
  | blockBy body => codeTextsOfAll body
  | _ => []

def codeTextsOfAll : List WriteOp → List String
  | [] => []
  | op :: rest => codeTexts op ++ codeTextsOfAll rest

end

theorem filterMap_texts (ss : List String) :
    (ss.map WriteItem.text).filterMap WriteItem.text? = ss := by
  rw [List.filterMap_map]
  exact List.filterMap_some

@[simp] theorem ownTexts_texts (ss : List String) : ownTexts (texts ss) = ss :=
  filterMap_texts ss

@[simp] theorem ownTexts_text (s : String) : ownTexts (text s) = [s] :=
  filterMap_texts [s]

@[simp] theorem ownTexts_block (body : List WriteOp) : ownTexts (block body) = [] :=
  rfl

@[simp] theorem ownTexts_comment (body : List WriteOp) : ownTexts (comment body) = [] :=
  rfl

@[simp] theorem ownTexts_note (s : String) : (note s).flatMap ownTexts = [] := by
  simp only [note]
  split
  · rfl
  · rfl

@[simp] theorem codeTexts_texts (ss : List String) : codeTexts (texts ss) = ss := by
  rw [texts, codeTexts, filterMap_texts]

@[simp] theorem codeTexts_text (s : String) : codeTexts (text s) = [s] :=
  codeTexts_texts [s]

@[simp] theorem codeTexts_block (body : List WriteOp) :
    codeTexts (block body) = body.flatMap codeTexts := by
  rw [codeTexts]
  induction body with
  | nil => simp only [codeTextsOfAll, List.flatMap_nil]
  | cons op rest ih => rw [codeTextsOfAll, ih, List.flatMap_cons]

@[simp] theorem codeTexts_comment (body : List WriteOp) : codeTexts (comment body) = [] := by
  simp only [codeTexts]

@[simp] theorem codeTexts_note (s : String) : (note s).flatMap codeTexts = [] := by
  simp only [note]
  split
  · rfl
  · simp only [List.flatMap_cons, codeTexts_comment, List.flatMap_nil, List.append_nil]

@[simp] theorem codeTexts_memo (s : String) : (memo s).flatMap codeTexts = [] := by
  simp only [memo]
  split
  · rfl
  · simp only [List.flatMap_cons, codeTexts, List.flatMap_nil, List.append_nil]

theorem codeTexts_flatMap {α : Type} {f : α → List WriteOp} {header : α → Header}
    (h : ∀ a, (f a).flatMap codeTexts = [(header a).text]) (as : List α) :
    (as.flatMap f).flatMap codeTexts = (as.map header).map Header.text := by
  induction as with
  | nil => rfl
  | cons a rest ih =>
      rw [List.flatMap_cons, List.flatMap_append, h, ih]
      rfl

/-- The texts of an item stand together among those of all that is written. -/
theorem codeTexts_infix {α : Type} {f : α → List WriteOp} {items : List α} {ops : List WriteOp}
    (h : items.flatMap f <:+: ops) {a : α} (ha : a ∈ items) :
    (f a).flatMap codeTexts <:+: ops.flatMap codeTexts := by
  have hitem : f a <:+: items.flatMap f := by
    rw [List.flatMap_def]
    exact List.infix_of_mem_flatten (List.mem_map_of_mem ha)
  exact (hitem.trans h).flatMap codeTexts

end WriteOp

/-! ## The documents that builds write -/

/-- The names of the declarations that are put out. -/
def Model.declaredNames (model : Model) : List String :=
  model.classes.map (·.simpleName) ++ model.enums.map (·.simpleName)

theorem Model.eq_assemble_of_decode {raw : Json.Value} {graph : Graph}
    (decoded : Graph.decode raw = .ok graph) {options : ModelOptions} {model : Model}
    (assembled : ofJson options raw = .ok model) : model = assemble options graph := by
  rw [ofJson, decoded] at assembled
  exact (Except.ok.inj assembled).symm

theorem build_ok_of_decode {raw : Json.Value} {graph : Graph}
    (decoded : Graph.decode raw = .ok graph) (target : Target) (base : String) (noHead : Bool) :
    ∃ result, build (.string target.name) (.string base) raw (.ofTexts noHead none none none) =
      .ok result := by
  obtain ⟨result, emitted⟩ := Build.emit_ok target base noHead none none none
    (.assemble (Build.modelOptions target (.ofTexts noHead none none none)) graph)
  refine ⟨result, build_eq_ok_iff.mpr ⟨target, _, Target.ofJson?_eq_some_iff.mpr rfl, ?_, emitted⟩⟩
  rw [Model.ofJson, decoded]
  rfl

theorem Build.runAll_of_write {ops : List WriteOp} {w : Writer} (written : write ops = .ok w) :
    WriteOp.runAll ops (.new .standard) = (w, none) := by
  rw [write] at written
  split at written
  · rename_i v hrun
    rw [hrun, Except.ok.inj written]
  · cases written

section Builds

variable {base raw : Json.Value} {options : BuildOptions} {result : BuildResult}

namespace Ts

section

variable {hasBanner : Bool} {runtime base : Literal} {model : Model} {document : Document}
  (content : document = .ofModel hasBanner runtime base model)

include content

theorem modules_eq : document.modules = model.modules.map (ModuleObject.ofModule model.table) := by
  rw [content]
  rfl

theorem types_eq : document.types = model.classes.map (TypeDefinition.ofClass model.table) := by
  rw [content]
  rfl

theorem enums_eq : document.enums = model.enums := by
  rw [content]
  rfl

end

def Document.codeTexts (document : Document) : List String :=
  document.ops.flatMap WriteOp.codeTexts

/-- The build ends with the file of a document, which is that of a model. -/
structure Writes (base raw : Json.Value) (options : BuildOptions) (result : BuildResult)
    (model : Model) (document : Document) : Prop where
  assembled : Model.ofJson (Build.modelOptions .ts options) raw = .ok model
  runtime : Build.literal (Build.runtime .ts options) = .ok document.runtime
  base : Build.literal base = .ok document.base
  content : document = .ofModel (!options.noHead) document.runtime document.base model
  written : Build.write document.ops = .ok result.writer
  registered : result.aliases = document.aliases

theorem exists_writes (built : build (.string Target.ts.name) base raw options = .ok result) :
    ∃ model document, Writes base raw options result model document := by
  obtain ⟨t, model, ht, hmodel, hemit⟩ := build_eq_ok_iff.mp built
  cases Option.some.inj (ht.symm.trans (Target.ofJson?_eq_some_iff.mpr rfl))
  obtain ⟨file, hfile, hemit⟩ := bind_eq_ok.mp hemit
  obtain ⟨writer, hwrite, hresult⟩ := bind_eq_ok.mp hemit
  obtain ⟨runtime, hruntime, hfile⟩ := bind_eq_ok.mp hfile
  obtain ⟨address, haddress, hfile⟩ := bind_eq_ok.mp hfile
  cases Except.ok.inj hfile
  rw [← Except.ok.inj hresult]
  exact ⟨model, .ofModel (!options.noHead) runtime address model, hmodel, hruntime, haddress, rfl,
    hwrite, rfl⟩

theorem Writes.document_eq {base : String} {noHead : Bool} {model : Model} {document : Document}
    (writes : Writes (.string base) raw (.ofTexts noHead none none none) result model document) :
    document = .ofModel (!noHead) (.text Target.ts.runtime) (.text base) model := by
  have hruntime : document.runtime = .text Target.ts.runtime :=
    (Except.ok.inj writes.runtime).symm
  have hbase : document.base = .text base := (Except.ok.inj writes.base).symm
  rw [writes.content, hruntime, hbase]
  rfl

end Ts

namespace Oc

section

variable {hasBanner : Bool} {runtime base : String} {model : Model} {document : Document}
  (content : document = .ofModel hasBanner runtime base model)

include content

theorem modules_eq : document.modules = model.modules.map (ModuleClass.ofModule model.table) := by
  rw [content]
  rfl

theorem interfaces_eq :
    document.interfaces = model.classes.map (Interface.ofClass model.table) := by
  rw [content]
  rfl

theorem enums_eq : document.enums = model.enums := by
  rw [content]
  rfl

end

def Document.codeTexts (document : Document) : List String :=
  document.ops.flatMap WriteOp.codeTexts

/-- The build ends with the file of a document, which is that of a model. -/
structure Writes (base raw : Json.Value) (options : BuildOptions) (result : BuildResult)
    (model : Model) (document : Document) : Prop where
  assembled : Model.ofJson (Build.modelOptions .oc options) raw = .ok model
  content : document =
    .ofModel (!options.noHead) (Build.runtime .oc options).text base.text model
  written : Build.write document.ops = .ok result.writer

theorem exists_writes (built : build (.string Target.oc.name) base raw options = .ok result) :
    ∃ model document, Writes base raw options result model document := by
  obtain ⟨t, model, ht, hmodel, hemit⟩ := build_eq_ok_iff.mp built
  cases Option.some.inj (ht.symm.trans (Target.ofJson?_eq_some_iff.mpr rfl))
  obtain ⟨file, hfile, hemit⟩ := bind_eq_ok.mp hemit
  obtain ⟨writer, hwrite, hresult⟩ := bind_eq_ok.mp hemit
  cases Except.ok.inj hfile
  rw [← Except.ok.inj hresult]
  exact ⟨model, _, hmodel, rfl, hwrite⟩

end Oc

end Builds

end ApiStubs
