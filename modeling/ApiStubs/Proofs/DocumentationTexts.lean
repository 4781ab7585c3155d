import ApiStubs.Proofs.ClosedOutput
import ApiStubs.Proofs.Comments
import ApiStubs.Proofs.Identifiers
import ApiStubs.Proofs.Modules
import ApiStubs.Proofs.Samples

/-!
# Documentation in generated files

Both targets write the same documentation in comments: of a module the name of its bean, of a route
its description and those of its parameters, and of classes, enums and what they consist of their
descriptions (`Model.documentation`).  All of it comes from the graph as it is.  The identifiers
that are written besides consist of characters that end no comment.

Nothing on the way from the graph to the writer looks for `*/`.  So a comment ends where it should
exactly if the graph holds no such text (`comments_closed_iff`), and what stands behind one in a
description becomes code (`description_escapes`).
-/

namespace ApiStubs

open Text (Closes Inert)
open Text.Identifier (isPart simpleName)
open WriteOp (AnyCloses Opened)

/-! ## Names -/

theorem Text.inert_of_isPart {c : Char} (h : isPart c = true) : Inert c := by
  refine ⟨?_, ?_⟩
  · rintro rfl
    exact absurd h (by decide)
  · rintro rfl
    exact absurd h (by decide)

theorem Text.simpleName_suffix (qualified : String) :
    (simpleName qualified).toList <:+ qualified.toList := by
  rw [simpleName, String.toList_ofList, ← List.reverse_prefix, List.reverse_reverse]
  exact List.takeWhile_prefix _

theorem Text.closes_of_closes_simpleName {qualified : String}
    (h : Closes (simpleName qualified).toList) : Closes qualified.toList :=
  h.trans (simpleName_suffix qualified).isInfix

namespace Assembly

variable {options : ModelOptions}

/-- The simple name of what the table finds is a variant of the one asked for. -/
theorem variant_of_find? {separator : String} {graph : Graph} {n : String} {d : Declaration}
    (h : (Assembly.table separator graph).find? n = some d) :
    Variant separator (simpleName d.name) d.simpleName := by
  have hd := (DeclarationTable.declarations_ofList_sublist _).subset
    (List.mem_map_of_mem (DeclarationTable.mem_of_find? h))
  rcases List.mem_append.mp hd with hd | hd
  · obtain ⟨record, _, given, hvariant, rfl⟩ := Namer.exists_variant_of_mem_named hd
    exact hvariant
  · obtain ⟨record, _, given, hvariant, rfl⟩ := Namer.exists_variant_of_mem_named hd
    rw [Namer.separator_takeAll] at hvariant
    exact hvariant

theorem variant_of_holds {separator : String} {graph : Graph} {c : Class}
    (h : (Assembly.table separator graph).Holds c) :
    Variant separator (simpleName c.name) c.simpleName :=
  variant_of_find? (d := .ofClass c) h

end Assembly

/-! ## Texts of documentation -/

/-- A text that stands in front of another one in a comment. -/
def IsLabel (label : String) : Prop :=
  ¬ Closes label.toList ∧ label.toList.getLast? = some ' '

theorem closes_labelled_iff {label : String} (h : IsLabel label) (s : String) :
    Closes (label ++ s).toList ↔ Closes s.toList := by
  have hblank : Inert ' ' := by decide
  rw [String.toList_append]
  exact Text.closes_label_iff h.1 h.2 hblank

theorem not_closes_empty : ¬ Closes "".toList :=
  Text.not_closes_nil

/-- The documentation of a route: its title and what is said about the parameters that callers
pass. -/
def Route.documentation (r : Route) : List String :=
  titleOf r.description r.name :: r.exposed.map (·.description)

/-- The documentation of a class: its qualified name, its description and those of its members. -/
def Class.documentation (c : Class) : List String :=
  c.name :: c.description :: c.members.map (·.description)

/-- The documentation of an enum: its description and those of its constants. -/
def Enum.documentation (e : Enum) : List String :=
  e.description :: e.constants.map (·.description)

/-- The documentation that the comments of a file hold, as the graph gives it. -/
def Model.documentation (model : Model) : List String :=
  model.modules.map (·.name) ++ model.routes.flatMap Route.documentation ++
    model.classes.flatMap Class.documentation ++ model.enums.flatMap Enum.documentation

namespace WriteOp

@[simp] theorem anyCloses_cons_iff {s : String} {ss : List String} :
    AnyCloses (s :: ss) ↔ Closes s.toList ∨ AnyCloses ss :=
  List.exists_mem_cons_iff _ _ _

@[simp] theorem not_anyCloses_nil : ¬ AnyCloses [] :=
  fun ⟨_, h, _⟩ => absurd h List.not_mem_nil

theorem anyCloses_map_iff {α : Type} {f : α → String} {as : List α} :
    AnyCloses (as.map f) ↔ ∃ a ∈ as, Closes (f a).toList := by
  simp only [AnyCloses, List.mem_map, exists_exists_and_eq_and]

/-- The comments of pieces one after the other. -/
theorem anyCloses_pieces_iff {α : Type} {f : α → List WriteOp} {as : List α} :
    AnyCloses ((as.flatMap f).flatMap remarks) ↔ ∃ a ∈ as, AnyCloses ((f a).flatMap remarks) := by
  rw [List.flatMap_assoc]
  exact anyCloses_flatMap_iff

@[simp] theorem anyCloses_note_iff {s : String} :
    AnyCloses ((note s).flatMap remarks) ↔ Closes s.toList := by
  simp only [note]
  split
  · rename_i h
    rw [String.isEmpty_iff.mp h]
    exact iff_of_false not_anyCloses_nil not_closes_empty
  · simp

end WriteOp

open WriteOp (remarks anyCloses_cons_iff anyCloses_append_iff anyCloses_flatMap_iff
  anyCloses_map_iff anyCloses_pieces_iff anyCloses_note_iff)

theorem isLabel_parameter {identifier : String} (h : ∀ c ∈ identifier.toList, isPart c = true) :
    IsLabel ("@param " ++ identifier ++ " ") := by
  have hlist : ("@param " ++ identifier ++ " ").toList =
      ['@', 'p', 'a', 'r', 'a', 'm', ' '] ++ identifier.toList ++ [' '] := by
    rw [String.toList_append, String.toList_append]
    rfl
  have hfront : ∀ c ∈ ['@', 'p', 'a', 'r', 'a', 'm', ' '], Inert c := by simp [Inert]
  have hback : ∀ c ∈ [' '], Inert c := by simp [Inert]
  rw [IsLabel, hlist]
  refine ⟨Text.not_closes_of_inert ?_, List.getLast?_concat⟩
  refine List.forall_mem_append.mpr ⟨List.forall_mem_append.mpr ⟨hfront, ?_⟩, hback⟩
  exact fun c hc => Text.inert_of_isPart (h c hc)

theorem anyCloses_parameterNotes_iff (target : Target) (r : Route) :
    AnyCloses (parameterNotes (r.arguments target)) ↔
      ∃ p ∈ r.exposed, Closes p.description.toList := by
  constructor
  · rintro ⟨s, hs, h⟩
    obtain ⟨a, ha, hs⟩ := List.mem_filterMap.mp hs
    split at hs
    · cases hs
    · have hlabel := isLabel_parameter (Route.isPart_of_mem_identifier ha)
      rw [← Option.some.inj hs, closes_labelled_iff hlabel] at h
      exact ⟨a.parameter, Route.exposed_of_mem_arguments ha, h⟩
  · rintro ⟨p, hp, h⟩
    rw [← r.map_parameter_arguments target] at hp
    obtain ⟨a, ha, rfl⟩ := List.mem_map.mp hp
    have hlabel := isLabel_parameter (Route.isPart_of_mem_identifier ha)
    have hne : ¬ a.parameter.description.isEmpty = true := by
      intro hempty
      rw [String.isEmpty_iff.mp hempty] at h
      exact not_closes_empty h
    refine ⟨_, List.mem_filterMap.mpr ⟨a, ha, if_neg hne⟩, ?_⟩
    rw [closes_labelled_iff hlabel]
    exact h

theorem closes_titleOf_iff (description name : String) :
    Closes (titleOf description name).toList ↔
      Closes description.toList ∨ (description = "" ∧ Closes name.toList) := by
  rw [titleOf]
  by_cases h : description = ""
  · rw [if_pos (String.isEmpty_iff.mpr h), or_iff_right (h ▸ not_closes_empty), and_iff_right h]
  · rw [if_neg fun e => h (String.isEmpty_iff.mp e), or_iff_left fun e => h e.1]

/-- The comment of a module holds the name of its bean, whole and cut to a simple name. -/
theorem closes_module_iff {label : String} (hlabel : IsLabel label) {target : Target}
    {options : BuildOptions} {routes : List Route} {m : Module}
    (hm : m ∈ Assembly.modules (Build.modelOptions target options) routes) :
    AnyCloses [titleOf m.displayName m.identifier, label ++ m.name] ↔ Closes m.name.toList := by
  have hidentifier : ¬ Closes m.identifier.toList := Text.not_closes_of_inert fun c hc =>
    Text.inert_of_isPart (Assembly.isPart_of_mem_identifier target.isPart_of_mem_separator hm c hc)
  rw [anyCloses_cons_iff, anyCloses_cons_iff, closes_titleOf_iff, closes_labelled_iff hlabel,
    (Assembly.module_spec hm).1]
  constructor
  · rintro ((h | ⟨_, h⟩) | h | h)
    · exact Text.closes_of_closes_simpleName h
    · exact absurd h hidentifier
    · exact h
    · exact absurd h WriteOp.not_anyCloses_nil
  · exact fun h => Or.inr (Or.inl h)

/-- The comment of a class holds its description, or its simple name, and its qualified name. -/
theorem closes_class_iff {label : String} (hlabel : IsLabel label) {target : Target} {c : Class}
    (hc : Variant target.separator (simpleName c.name) c.simpleName) :
    AnyCloses [titleOf c.description c.simpleName, label ++ c.name] ↔
      Closes c.name.toList ∨ Closes c.description.toList := by
  have hname : Closes c.simpleName.toList → Closes c.name.toList := by
    obtain ⟨rest, e, hrest⟩ := hc.isPart target.isPart_of_mem_separator
    rw [e, String.toList_append,
      Text.closes_append_of_inert fun c hc => Text.inert_of_isPart (hrest c hc)]
    exact Text.closes_of_closes_simpleName
  rw [anyCloses_cons_iff, anyCloses_cons_iff, closes_titleOf_iff, closes_labelled_iff hlabel]
  constructor
  · rintro ((h | ⟨_, h⟩) | h | h)
    · exact Or.inr h
    · exact Or.inl (hname h)
    · exact Or.inl h
    · exact absurd h WriteOp.not_anyCloses_nil
  · rintro (h | h)
    · exact Or.inr (Or.inl h)
    · exact Or.inl (Or.inl h)

theorem anyCloses_route_iff (target : Target) (r : Route) :
    AnyCloses (titleOf r.description r.name :: parameterNotes (r.arguments target)) ↔
      AnyCloses r.documentation := by
  rw [Route.documentation, anyCloses_cons_iff, anyCloses_cons_iff, anyCloses_map_iff,
    anyCloses_parameterNotes_iff]

theorem anyCloses_enum_iff (e : Enum) :
    AnyCloses e.documentation ↔
      Closes e.description.toList ∨ ∃ c ∈ e.constants, Closes c.description.toList := by
  rw [Enum.documentation, anyCloses_cons_iff, anyCloses_map_iff]

theorem anyCloses_class_iff (c : Class) :
    AnyCloses c.documentation ↔ (Closes c.name.toList ∨ Closes c.description.toList) ∨
      ∃ m ∈ c.members, Closes m.description.toList := by
  rw [Class.documentation, anyCloses_cons_iff, anyCloses_cons_iff, anyCloses_map_iff, or_assoc]

/-! ## TypeScript -/

namespace Ts

theorem anyCloses_stub_iff (table : DeclarationTable) (r : Route) :
    AnyCloses ((Stub.ofRoute table r).ops.flatMap remarks) ↔ AnyCloses r.documentation := by
  rw [← anyCloses_route_iff .ts]
  simp [Stub.ops, Stub.ofRoute]

theorem anyCloses_module_iff {options : BuildOptions} {routes : List Route}
    (table : DeclarationTable) {m : Module}
    (hm : m ∈ Assembly.modules (Build.modelOptions .ts options) routes) :
    AnyCloses ((ModuleObject.ofModule table m).ops.flatMap remarks) ↔
      Closes m.name.toList ∨ ∃ r ∈ m.routes, AnyCloses r.documentation := by
  have hlabel : IsLabel "@iface " := ⟨by decide, by decide⟩
  have hremarks : (ModuleObject.ofModule table m).ops.flatMap remarks =
      [titleOf m.displayName m.identifier, "@iface " ++ m.name] ++
        (m.routes.flatMap fun r => (Stub.ofRoute table r).ops).flatMap remarks := by
    simp [ModuleObject.ops, ModuleObject.ofModule, List.flatMap_map]
  rw [hremarks, anyCloses_append_iff, closes_module_iff hlabel hm, anyCloses_pieces_iff]
  exact or_congr Iff.rfl (exists_congr fun r => and_congr_right fun _ => anyCloses_stub_iff table r)

theorem anyCloses_typeBody_iff (table : DeclarationTable) (c : Class) :
    AnyCloses (((TypeBody.ofClass table c).ops c.head).flatMap remarks) ↔
      ∃ m ∈ c.members, Closes m.description.toList := by
  have hfield : ∀ m : Member,
      AnyCloses ((Field.ofMember table m).ops.flatMap remarks) ↔ Closes m.description.toList := by
    intro m
    simp [Field.ops, Field.ofMember]
  rw [TypeBody.ofClass.eq_def]
  cases c.members with
  | nil =>
      cases c.superclass with
      | none => simp [TypeBody.ops]
      | some t => simp [TypeBody.ops]
  | cons m rest =>
      simp [TypeBody.ops, List.flatMap_map, anyCloses_pieces_iff, hfield]

theorem anyCloses_typeDefinition_iff (table : DeclarationTable) {c : Class}
    (hc : Variant Target.ts.separator (simpleName c.name) c.simpleName) :
    AnyCloses ((TypeDefinition.ofClass table c).ops.flatMap remarks) ↔
      AnyCloses c.documentation := by
  have hlabel : IsLabel "@iface " := ⟨by decide, by decide⟩
  have hremarks : (TypeDefinition.ofClass table c).ops.flatMap remarks =
      [titleOf c.description c.simpleName, "@iface " ++ c.name] ++
        ((TypeBody.ofClass table c).ops c.head).flatMap remarks := by
    simp [TypeDefinition.ops, TypeDefinition.ofClass]
  rw [hremarks, anyCloses_append_iff, closes_class_iff hlabel hc, anyCloses_typeBody_iff,
    anyCloses_class_iff]

theorem anyCloses_enumOps_iff (e : Enum) :
    AnyCloses ((enumOps e).flatMap remarks) ↔ AnyCloses e.documentation := by
  have hconstant : ∀ c : Constant,
      AnyCloses ((constantOps c).flatMap remarks) ↔ Closes c.description.toList := by
    intro c
    simp [constantOps]
  rw [anyCloses_enum_iff, enumOps]
  simp [anyCloses_pieces_iff, hconstant]

end Ts

/-! ## Objective-C -/

namespace Oc

theorem anyCloses_method_iff (table : DeclarationTable) (r : Route) :
    AnyCloses ((Method.ofRoute table r).interfaceOps.flatMap remarks) ↔
      AnyCloses r.documentation := by
  rw [← anyCloses_route_iff .oc]
  simp [Method.interfaceOps, Method.ofRoute]

/-- Implementations have no comments of their own. -/
theorem remarks_implementations (interfaces : List Interface) (modules : List ModuleClass) :
    (interfaces.flatMap Interface.implementationOps ++
      modules.flatMap ModuleClass.implementationOps).flatMap remarks = [] := by
  have hmethod : ∀ m : Method, m.implementationOps.flatMap remarks = [] := by
    intro m
    simp [Method.implementationOps]
  have hmodule : ∀ m : ModuleClass, m.implementationOps.flatMap remarks = [] := by
    intro m
    simp [ModuleClass.implementationOps, List.flatMap_assoc, hmethod]
  simp [List.flatMap_assoc, Interface.implementationOps, hmodule]

theorem anyCloses_module_iff {options : BuildOptions} {routes : List Route}
    (table : DeclarationTable) {m : Module}
    (hm : m ∈ Assembly.modules (Build.modelOptions .oc options) routes) :
    AnyCloses ((ModuleClass.ofModule table m).interfaceOps.flatMap remarks) ↔
      Closes m.name.toList ∨ ∃ r ∈ m.routes, AnyCloses r.documentation := by
  have hlabel : IsLabel "@JavaClass " := ⟨by decide, by decide⟩
  have hremarks : (ModuleClass.ofModule table m).interfaceOps.flatMap remarks =
      [titleOf m.displayName m.identifier, "@JavaClass " ++ m.name] ++
        (m.routes.flatMap fun r => (Method.ofRoute table r).interfaceOps).flatMap remarks := by
    simp [ModuleClass.interfaceOps, ModuleClass.ofModule, List.flatMap_map]
  rw [hremarks, anyCloses_append_iff, closes_module_iff hlabel hm, anyCloses_pieces_iff]
  exact or_congr Iff.rfl
    (exists_congr fun r => and_congr_right fun _ => anyCloses_method_iff table r)

theorem anyCloses_interface_iff (table : DeclarationTable) {c : Class}
    (hc : Variant Target.oc.separator (simpleName c.name) c.simpleName) :
    AnyCloses ((Interface.ofClass table c).interfaceOps.flatMap remarks) ↔
      AnyCloses c.documentation := by
  have hlabel : IsLabel "@JavaClass " := ⟨by decide, by decide⟩
  have hproperty : ∀ m : Member, AnyCloses ((Property.ofMember table m).ops.flatMap remarks) ↔
      Closes m.description.toList := by
    intro m
    simp [Property.ops, Property.ofMember]
  have hremarks : (Interface.ofClass table c).interfaceOps.flatMap remarks =
      [titleOf c.description c.simpleName, "@JavaClass " ++ c.name] ++
        (c.members.flatMap fun m => (Property.ofMember table m).ops).flatMap remarks := by
    simp [Interface.interfaceOps, Interface.ofClass, List.flatMap_map]
  rw [hremarks, anyCloses_append_iff, closes_class_iff hlabel hc, anyCloses_pieces_iff,
    anyCloses_class_iff]
  exact or_congr Iff.rfl (exists_congr fun m => and_congr_right fun _ => hproperty m)

theorem anyCloses_enumOps_iff (e : Enum) :
    AnyCloses ((enumOps e).flatMap remarks) ↔ AnyCloses e.documentation := by
  have hnumber : ∀ c : Constant, AnyCloses ((numberConstantOps e.simpleName c).flatMap remarks) ↔
      Closes c.description.toList := by
    intro c
    simp [numberConstantOps]
  have htext : ∀ c : Constant, AnyCloses ((textConstantOps e.simpleName c).flatMap remarks) ↔
      Closes c.description.toList := by
    intro c
    simp [textConstantOps]
  rw [anyCloses_enum_iff, enumOps]
  by_cases h : e.valueType = .number
  · rw [if_pos h]
    simp [anyCloses_pieces_iff, hnumber]
  · rw [if_neg h]
    simp [anyCloses_pieces_iff, htext]

end Oc

/-! ## Files -/

/-- The documentation of a model is that of its modules with their routes, its classes and its
enums. -/
theorem Model.anyCloses_documentation_iff (options : ModelOptions) (graph : Graph) :
    AnyCloses (assemble options graph).documentation ↔
      (∃ m ∈ (assemble options graph).modules,
        Text.Closes m.name.toList ∨ ∃ r ∈ m.routes, AnyCloses r.documentation) ∨
      (∃ c ∈ (assemble options graph).classes, AnyCloses c.documentation) ∨
      ∃ e ∈ (assemble options graph).enums, AnyCloses e.documentation := by
  have hroutes : (∃ r ∈ (assemble options graph).routes, AnyCloses r.documentation) ↔
      ∃ m ∈ (assemble options graph).modules, ∃ r ∈ m.routes, AnyCloses r.documentation := by
    constructor
    · rintro ⟨r, hr, h⟩
      have hmem : r ∈ (assemble options graph).modules.flatMap (·.routes) :=
        Assembly.perm_routes_modules.mem_iff.mpr hr
      obtain ⟨m, hm, hr⟩ := List.mem_flatMap.mp hmem
      exact ⟨m, hm, r, hr, h⟩
    · rintro ⟨m, hm, r, hr, h⟩
      exact ⟨r, Assembly.mem_routes_of_modules hm hr, h⟩
  rw [documentation]
  simp only [anyCloses_append_iff, anyCloses_map_iff, anyCloses_flatMap_iff, hroutes, and_or_left,
    exists_or, or_assoc]

theorem Model.variant_of_emits (target : Target) {options : BuildOptions} {graph : Graph}
    {c : Class} (hc : c ∈ (assemble (Build.modelOptions target options) graph).classes) :
    Variant target.separator (simpleName c.name) c.simpleName :=
  Assembly.variant_of_holds (settled_classes.held c hc)

/-- The lines of each comment of a file, without its delimiters. -/
def Ts.Document.comments (document : Document) : List (List String) :=
  WriteOp.commentsOfAll document.ops (.new .standard)

/-- The lines of each comment of a file, without its delimiters. -/
def Oc.Document.comments (document : Document) : List (List String) :=
  WriteOp.commentsOfAll document.ops (.new .standard)

theorem Build.opened_comments {lines : List String} (head : lines ≠ []) {ops : List WriteOp}
    (generated : WriteOp.GeneratedAll ops) {w : Writer}
    (written : write (.texts lines :: ops) = .ok w) {c : List String}
    (hc : c ∈ WriteOp.commentsOfAll (.texts lines :: ops) (.new .standard)) :
    Opened w.lines.toList c := by
  have hopened := WriteOp.opened_comments head generated hc
  rwa [runAll_of_write written] at hopened

theorem Ts.opened_comments {document : Document} {w : Writer}
    (written : Build.write document.ops = .ok w) {c : List String} (hc : c ∈ document.comments) :
    Opened w.lines.toList c := by
  obtain ⟨ops, hops, generated⟩ := document.ops_eq
  have head : document.headLines ≠ [] := by simp [Document.headLines]
  rw [hops] at written
  rw [Document.comments, hops] at hc
  exact Build.opened_comments head generated written hc

theorem Oc.opened_comments {document : Document} {w : Writer}
    (written : Build.write document.ops = .ok w) {c : List String} (hc : c ∈ document.comments) :
    Opened w.lines.toList c := by
  obtain ⟨ops, hops, generated⟩ := document.ops_eq
  have head : document.headLines ≠ [] := by simp [Document.headLines]
  rw [hops] at written
  rw [Document.comments, hops] at hc
  exact Build.opened_comments head generated written hc

theorem Ts.anyCloses_comments_iff {options : BuildOptions} {graph : Graph} {document : Document}
    {hasBanner : Bool} {runtime base : Literal}
    (content : document = .ofModel hasBanner runtime base
      (Model.assemble (Build.modelOptions .ts options) graph)) :
    (∃ c ∈ document.comments, AnyCloses c) ↔
      AnyCloses (Model.assemble (Build.modelOptions .ts options) graph).documentation := by
  let model := Model.assemble (Build.modelOptions .ts options) graph
  obtain ⟨ops, hops, generated⟩ := document.ops_eq
  have head : document.headLines ≠ [] := by simp [Document.headLines]
  have hparts : ops = document.modules.flatMap ModuleObject.ops ++
      document.types.flatMap TypeDefinition.ops ++ document.enums.flatMap enumOps ++
      document.aliases.entries.map fun entry => aliasOps entry.1 entry.2 :=
    (List.cons.inj hops).2.symm
  have haliases : (document.aliases.entries.map fun entry =>
      aliasOps entry.1 entry.2).flatMap remarks = [] := by
    simp [List.flatMap_map, aliasOps]
  rw [Document.comments, hops, WriteOp.closes_comments_iff head generated, hparts,
    modules_eq content, types_eq content, enums_eq content, List.flatMap_map, List.flatMap_map,
    Model.anyCloses_documentation_iff]
  simp only [List.flatMap_append, anyCloses_append_iff, anyCloses_pieces_iff, haliases, or_assoc]
  refine or_congr (exists_congr fun m => and_congr_right fun hm => anyCloses_module_iff _ hm) ?_
  refine or_congr (exists_congr fun c => and_congr_right fun hc =>
    anyCloses_typeDefinition_iff _ (Model.variant_of_emits .ts hc)) ?_
  refine (or_iff_left WriteOp.not_anyCloses_nil).trans ?_
  exact exists_congr fun e => and_congr_right fun _ => anyCloses_enumOps_iff e

theorem Oc.anyCloses_comments_iff {options : BuildOptions} {graph : Graph} {document : Document}
    {hasBanner : Bool} {runtime base : String}
    (content : document = .ofModel hasBanner runtime base
      (Model.assemble (Build.modelOptions .oc options) graph)) :
    (∃ c ∈ document.comments, AnyCloses c) ↔
      AnyCloses (Model.assemble (Build.modelOptions .oc options) graph).documentation := by
  let model := Model.assemble (Build.modelOptions .oc options) graph
  obtain ⟨ops, hops, generated⟩ := document.ops_eq
  have head : document.headLines ≠ [] := by simp [Document.headLines]
  have hparts : ops = document.enums.flatMap enumOps ++
      document.interfaces.flatMap Interface.interfaceOps ++
      document.modules.flatMap ModuleClass.interfaceOps ++
      (document.interfaces.flatMap Interface.implementationOps ++
        document.modules.flatMap ModuleClass.implementationOps) := by
    rw [← List.append_assoc]
    exact (List.cons.inj hops).2.symm
  rw [Document.comments, hops, WriteOp.closes_comments_iff head generated, hparts,
    List.flatMap_append, remarks_implementations, List.append_nil, modules_eq content,
    interfaces_eq content, enums_eq content, List.flatMap_map, List.flatMap_map,
    Model.anyCloses_documentation_iff]
  simp only [List.flatMap_append, anyCloses_append_iff, anyCloses_pieces_iff]
  -- The parts stand in another order than the documentation of a model is listed.
  rw [or_comm, or_comm (a := ∃ e ∈ model.enums, _)]
  refine or_congr (exists_congr fun m => and_congr_right fun hm => anyCloses_module_iff _ hm) ?_
  refine or_congr (exists_congr fun c => and_congr_right fun hc =>
    anyCloses_interface_iff _ (Model.variant_of_emits .oc hc)) ?_
  exact exists_congr fun e => and_congr_right fun _ => anyCloses_enumOps_iff e

theorem WriteOp.forall_not_closes_iff {comments : List (List String)} {texts : List String}
    (h : (∃ c ∈ comments, AnyCloses c) ↔ AnyCloses texts) :
    (∀ lines ∈ comments, ∀ line ∈ lines, ¬ Closes line.toList) ↔
      ∀ s ∈ texts, ¬ Closes s.toList := by
  have hnot := not_congr h
  simpa only [AnyCloses, not_exists, not_and] using hnot

/-- The lines of comments stand in the file behind those that open comments.  In the files of both
targets none of them holds what ends a comment, exactly if none of the documentation does that the
graph gives. -/
theorem comments_closed_iff (base raw : Json.Value) (options : BuildOptions) :
    (∀ result, build (.string Target.ts.name) base raw options = .ok result →
      ∃ model document, Ts.Writes base raw options result model document ∧
        (∀ lines ∈ document.comments, Opened result.writer.lines.toList lines) ∧
        ((∀ lines ∈ document.comments, ∀ line ∈ lines, ¬ Closes line.toList) ↔
          ∀ s ∈ model.documentation, ¬ Closes s.toList)) ∧
    ∀ result, build (.string Target.oc.name) base raw options = .ok result →
      ∃ model document, Oc.Writes base raw options result model document ∧
        (∀ lines ∈ document.comments, Opened result.writer.lines.toList lines) ∧
        ((∀ lines ∈ document.comments, ∀ line ∈ lines, ¬ Closes line.toList) ↔
          ∀ s ∈ model.documentation, ¬ Closes s.toList) := by
  constructor
  · intro result built
    obtain ⟨model, document, writes⟩ := Ts.exists_writes built
    obtain ⟨graph, _, rfl⟩ := Model.ofJson_eq_ok_iff.mp writes.assembled
    exact ⟨_, document, writes, fun _ h => Ts.opened_comments writes.written h,
      WriteOp.forall_not_closes_iff (Ts.anyCloses_comments_iff writes.content)⟩
  · intro result built
    obtain ⟨model, document, writes⟩ := Oc.exists_writes built
    obtain ⟨graph, _, rfl⟩ := Model.ofJson_eq_ok_iff.mp writes.assembled
    exact ⟨_, document, writes, fun _ h => Oc.opened_comments writes.written h,
      WriteOp.forall_not_closes_iff (Oc.anyCloses_comments_iff writes.content)⟩

def describedGraph (description : String) : Graph where
  classes := []
  enums := []
  routes := [{ RouteRecord.sample "app.Loader" [] none with description }]

/-- A description in which the two characters do not stand together. -/
theorem comments_closed_note :
    (∃ result, build (.string Target.ts.name) (.string "") (describedGraph "a * / b").sampleJson
        (.ofTexts true none none none) = .ok result ∧
      ∃ model document, Ts.Writes (.string "") (describedGraph "a * / b").sampleJson
        (.ofTexts true none none none) result model document ∧
        ∀ lines ∈ document.comments, ∀ line ∈ lines, ¬ Closes line.toList) ∧
    ∃ result, build (.string Target.oc.name) (.string "") (describedGraph "a * / b").sampleJson
        (.ofTexts true none none none) = .ok result ∧
      ∃ model document, Oc.Writes (.string "") (describedGraph "a * / b").sampleJson
        (.ofTexts true none none none) result model document ∧
        ∀ lines ∈ document.comments, ∀ line ∈ lines, ¬ Closes line.toList := by
  have decoded : Graph.decode (describedGraph "a * / b").sampleJson =
      .ok (describedGraph "a * / b") := by rfl
  obtain ⟨hts, hoc⟩ := comments_closed_iff (.string "") (describedGraph "a * / b").sampleJson
    (.ofTexts true none none none)
  constructor
  · obtain ⟨result, built⟩ := build_ok_of_decode decoded .ts "" true
    obtain ⟨model, document, writes, _, closed⟩ := hts result built
    refine ⟨result, built, model, document, writes, closed.mpr ?_⟩
    rw [Model.eq_assemble_of_decode decoded writes.assembled]
    decide +kernel
  · obtain ⟨result, built⟩ := build_ok_of_decode decoded .oc "" true
    obtain ⟨model, document, writes, _, closed⟩ := hoc result built
    refine ⟨result, built, model, document, writes, closed.mpr ?_⟩
    rw [Model.eq_assemble_of_decode decoded writes.assembled]
    decide +kernel

/-- A description that ends the comment in which it stands. -/
theorem description_escapes : ∃ result,
    build (.string Target.ts.name) (.string "") (describedGraph "a */ b").sampleJson
      (.ofTexts true none none none) = .ok result ∧
    ∃ model document, Ts.Writes (.string "") (describedGraph "a */ b").sampleJson
      (.ofTexts true none none none) result model document ∧
      ["   * a */ b"] ∈ document.comments ∧ Opened result.writer.lines.toList ["   * a */ b"] ∧
      Closes "   * a */ b".toList := by
  have decoded : Graph.decode (describedGraph "a */ b").sampleJson =
      .ok (describedGraph "a */ b") := by rfl
  obtain ⟨result, built⟩ := build_ok_of_decode decoded .ts "" true
  obtain ⟨model, document, writes⟩ := Ts.exists_writes built
  have hcomment : ["   * a */ b"] ∈ document.comments := by
    rw [writes.document_eq, Model.eq_assemble_of_decode decoded writes.assembled]
    decide +kernel
  exact ⟨result, built, model, document, writes, hcomment,
    Ts.opened_comments writes.written hcomment, by decide +kernel⟩

end ApiStubs
