import ApiStubs.Proofs.Headers
import ApiStubs.Proofs.Identifiers
import ApiStubs.Proofs.Modules
import ApiStubs.Proofs.Samples

/-!
# Global names of an Objective-C file

An Objective-C file has one space of names for the interfaces of classes and of modules, the types
of enums, and the constants of all enums.  The names of classes and enums come from one namer, and
the identifiers of modules from another.  What a module or a constant is called in the end is made
afterwards: the class of a module is its identifier in upper camel case, and a constant is its enum
followed by its own name in upper camel case.  Camel case forgets separators, and what is put
together may read the same as something else, so that names once apart meet again.

`Oc.defined_once_iff` says when they do not, and `Oc.foo_defined_twice` is a graph where they do:
the identifiers `foo_1` and `foo1` both become `Foo1`.
-/

namespace ApiStubs.Oc

open Text.Identifier

/-! ## Headers -/

def enumHeader (e : Enum) : Header :=
  if e.valueType = .number then ⟨"typedef NS_ENUM(NSInteger, ", e.simpleName, [], ") \x7b"⟩
  else ⟨"typedef NSString *", e.simpleName, [], " NS_STRING_ENUM;"⟩

def constantHeader (e : Enum) (c : Constant) : Header :=
  if e.valueType = .number then
    ⟨"", constantName e.simpleName c.name, [], " = " ++ c.value.bare ++ ","⟩
  else
    ⟨"static " ++ e.simpleName ++ " const ", constantName e.simpleName c.name, [],
      " = " ++ c.value.inOc ++ ";"⟩

def enumHeaders (e : Enum) : List Header :=
  enumHeader e :: e.constants.map (constantHeader e)

def classHeader (table : DeclarationTable) (c : Class) : Header :=
  ⟨"@interface ", c.simpleName, c.typeParameters, " : " ++ parentName table c⟩

def moduleHeader (m : Module) : Header :=
  ⟨"@interface ", moduleClassName m, [], " : " ++ rootClass⟩

def definitions (model : Model) : List Header :=
  model.enums.flatMap enumHeaders ++ model.classes.map (classHeader model.table) ++
    model.modules.map moduleHeader

theorem codeTexts_numberConstant {e : Enum} (h : e.valueType = .number) (c : Constant) :
    (numberConstantOps e.simpleName c).flatMap WriteOp.codeTexts = [(constantHeader e c).text] := by
  rw [constantHeader, if_pos h, Header.text_plain, String.empty_append]
  simp [numberConstantOps, String.append_assoc]

theorem codeTexts_textConstant {e : Enum} (h : e.valueType ≠ .number) (c : Constant) :
    (textConstantOps e.simpleName c).flatMap WriteOp.codeTexts = [(constantHeader e c).text] := by
  rw [constantHeader, if_neg h, Header.text_plain]
  simp [textConstantOps, String.append_assoc]

theorem texts_enum_sublist (e : Enum) :
    ((enumHeaders e).map Header.text).Sublist ((enumOps e).flatMap WriteOp.codeTexts) := by
  rw [enumHeaders, List.map_cons, enumHeader]
  by_cases h : e.valueType = .number
  · have hconstants := WriteOp.codeTexts_flatMap (codeTexts_numberConstant h) e.constants
    rw [if_pos h, Header.text_plain, enumOps, if_pos h]
    simp [hconstants]
  · have hconstants := WriteOp.codeTexts_flatMap (codeTexts_textConstant h) e.constants
    rw [if_neg h, Header.text_plain, enumOps, if_neg h]
    simp [hconstants]

theorem text_class_sublist (table : DeclarationTable) (c : Class) :
    [(classHeader table c).text].Sublist
      ((Interface.ofClass table c).interfaceOps.flatMap WriteOp.codeTexts) := by
  have htext : (classHeader table c).text =
      "@interface " ++ c.head ++ " : " ++ parentName table c := by
    simp only [classHeader, Header.text, Class.head_eq, String.append_assoc]
  rw [htext, Interface.interfaceOps, Interface.ofClass]
  simp

theorem text_module_sublist (table : DeclarationTable) (m : Module) :
    [(moduleHeader m).text].Sublist
      ((ModuleClass.ofModule table m).interfaceOps.flatMap WriteOp.codeTexts) := by
  rw [moduleHeader, Header.text_plain, ModuleClass.interfaceOps, ModuleClass.ofModule]
  simp [String.append_assoc]

/-- The definitions stand in the file in their order. -/
theorem definitions_sublist {hasBanner : Bool} {runtime base : String} {model : Model}
    {document : Document} (content : document = .ofModel hasBanner runtime base model) :
    ((definitions model).map Header.text).Sublist document.codeTexts := by
  have hdefinitions : (definitions model).map Header.text =
      model.enums.flatMap (fun e => (enumHeaders e).map Header.text) ++
        model.classes.flatMap (fun c => [(classHeader model.table c).text]) ++
        model.modules.flatMap fun m => [(moduleHeader m).text] := by
    rw [definitions, List.map_append, List.map_append, List.map_flatMap, List.map_map,
      List.map_map, List.map_eq_flatMap, List.map_eq_flatMap]
    rfl
  have hparts : ((definitions model).map Header.text).Sublist
      ((document.enums.flatMap enumOps ++ document.interfaces.flatMap Interface.interfaceOps ++
        document.modules.flatMap ModuleClass.interfaceOps).flatMap WriteOp.codeTexts) := by
    rw [hdefinitions, enums_eq content, interfaces_eq content, modules_eq content,
      List.flatMap_map, List.flatMap_map]
    simp only [List.flatMap_append, List.flatMap_assoc]
    exact ((List.Sublist.flatMap_right _ fun e _ => texts_enum_sublist e).append
      (List.Sublist.flatMap_right _ fun c _ => text_class_sublist model.table c)).append
      (List.Sublist.flatMap_right _ fun m _ => text_module_sublist model.table m)
  refine hparts.trans (List.Sublist.flatMap ?_ _)
  -- What is left out is the head of the file, and the implementations behind the interfaces.
  have hops : document.ops = .texts document.headLines ::
      (document.enums.flatMap enumOps ++ document.interfaces.flatMap Interface.interfaceOps ++
        document.modules.flatMap ModuleClass.interfaceOps ++
        document.interfaces.flatMap Interface.implementationOps ++
        document.modules.flatMap ModuleClass.implementationOps) := rfl
  rw [hops, List.append_assoc (_ ++ _)]
  exact (List.sublist_append_left _ _).cons _

/-! ## Names -/

def constantNames (e : Enum) : List String :=
  e.constants.map fun c => constantName e.simpleName c.name

/-- What keeps the names of a file apart. -/
structure Distinct (model : Model) : Prop where
  /-- no two modules have classes of one name -/
  modules : (model.modules.map moduleClassName).Nodup
  /-- no class of a module has the name of a declaration -/
  declared : ∀ m ∈ model.modules, moduleClassName m ∉ model.declaredNames
  /-- no two constants of an enum are the same in upper camel case -/
  constants : ∀ e ∈ model.enums,
    (e.constants.map fun c => upperCamel (Text.toAsciiLower c.name)).Nodup
  /-- no two enums have constants of one name -/
  enums : ∀ e ∈ model.enums, ∀ f ∈ model.enums, e.simpleName ≠ f.simpleName →
    ∀ n ∈ constantNames e, n ∉ constantNames f
  /-- no constant has the name of a declaration or of the class of a module -/
  types : ∀ e ∈ model.enums, ∀ n ∈ constantNames e,
    n ∉ model.declaredNames ∧ n ∉ model.modules.map moduleClassName

theorem name_enumHeader (e : Enum) : (enumHeader e).name = e.simpleName := by
  rw [enumHeader]
  split
  · rfl
  · rfl

theorem names_enumHeaders (e : Enum) :
    (enumHeaders e).map (·.name) = e.simpleName :: constantNames e := by
  have hconstant : ∀ c, (constantHeader e c).name = constantName e.simpleName c.name := by
    intro c
    rw [constantHeader]
    split
    · rfl
    · rfl
  rw [enumHeaders, List.map_cons, name_enumHeader, List.map_map]
  exact congrArg _ (List.map_congr_left fun c _ => hconstant c)

theorem names_definitions_perm (model : Model) :
    ((definitions model).map (·.name)).Perm
      (model.declaredNames ++
        (model.modules.map moduleClassName ++ model.enums.flatMap constantNames)) := by
  have hnames : (definitions model).map (·.name) =
      model.enums.flatMap (fun e => e.simpleName :: constantNames e) ++
        model.classes.map (·.simpleName) ++ model.modules.map moduleClassName := by
    rw [definitions, List.map_append, List.map_append, List.map_flatMap, List.map_map,
      List.map_map, List.flatMap_congr fun e _ => names_enumHeaders e]
    rfl
  have henums : (model.enums.flatMap fun e => e.simpleName :: constantNames e).Perm
      (model.enums.map (·.simpleName) ++ model.enums.flatMap constantNames) :=
    (List.map_append_flatMap_perm _ _ _).symm
  rw [hnames]
  refine ((henums.append_right _).append_right _).trans ?_
  rw [Model.declaredNames, List.perm_iff_count]
  intro n
  simp only [List.count_append]
  omega

theorem nodup_constantNames_iff (e : Enum) :
    (constantNames e).Nodup ↔
      (e.constants.map fun c => upperCamel (Text.toAsciiLower c.name)).Nodup := by
  have hmap : constantNames e =
      (e.constants.map fun c => upperCamel (Text.toAsciiLower c.name)).map (e.simpleName ++ ·) := by
    rw [List.map_map]
    rfl
  rw [hmap]
  exact List.nodup_map_iff fun s t h => (String.append_right_inj e.simpleName).mp h

/-- The constants of all enums are apart if those of each enum are, and those of any two. -/
theorem nodup_constants_iff {enums : List Enum} (nodup : (enums.map (·.simpleName)).Nodup) :
    (enums.flatMap constantNames).Nodup ↔
      (∀ e ∈ enums, (e.constants.map fun c => upperCamel (Text.toAsciiLower c.name)).Nodup) ∧
      ∀ e ∈ enums, ∀ f ∈ enums, e.simpleName ≠ f.simpleName →
        ∀ n ∈ constantNames e, n ∉ constantNames f := by
  rw [List.nodup_flatMap]
  refine and_congr (forall₂_congr fun e _ => nodup_constantNames_iff e) ?_
  constructor
  · intro pairwise e he f hf hne n hn hm
    have symm : Std.Symm (Function.onFun List.Disjoint constantNames) :=
      ⟨fun _ _ h => h.symm⟩
    exact pairwise.forall he hf (fun h => hne (congrArg _ h)) hn hm
  · intro apart
    refine nodup.of_map.pairwise_of_forall_ne fun e he f hf hne n hn hm => ?_
    exact apart e he f hf (fun h => hne (List.inj_on_of_nodup_map nodup he hf h)) n hn hm

theorem nodup_names_definitions_iff {model : Model} (declared : model.declaredNames.Nodup) :
    ((definitions model).map (·.name)).Nodup ↔ Distinct model := by
  have hsimple : (model.enums.map (·.simpleName)).Nodup := (List.nodup_append.mp declared).2.1
  rw [(names_definitions_perm model).nodup_iff, List.nodup_append, List.nodup_append,
    nodup_constants_iff hsimple]
  constructor
  · rintro ⟨_, ⟨modules, ⟨constants, enums⟩, apart⟩, hdeclared⟩
    refine ⟨modules, ?_, constants, enums, ?_⟩
    · intro m hm hn
      exact hdeclared _ hn _ (List.mem_append_left _ (List.mem_map_of_mem hm)) rfl
    · intro e he n hn
      have hconstant : n ∈ model.enums.flatMap constantNames := List.mem_flatMap.mpr ⟨e, he, hn⟩
      exact ⟨fun h => hdeclared n h n (List.mem_append_right _ hconstant) rfl,
        fun h => apart n h n hconstant rfl⟩
  · intro distinct
    refine ⟨declared, ⟨distinct.modules, ⟨distinct.constants, distinct.enums⟩, ?_⟩, ?_⟩
    · rintro n hn _ hm rfl
      obtain ⟨e, he, hm⟩ := List.mem_flatMap.mp hm
      exact (distinct.types e he n hm).2 hn
    · rintro n hn _ hm rfl
      rcases List.mem_append.mp hm with hm | hm
      · obtain ⟨m, hmodule, rfl⟩ := List.mem_map.mp hm
        exact distinct.declared m hmodule hn
      · obtain ⟨e, he, hm⟩ := List.mem_flatMap.mp hm
        exact (distinct.types e he n hm).1 hn

/-- Modules whose names differ have classes whose names differ: no number is added to their
identifiers, and the upper camel case of these can be undone. -/
theorem nodup_moduleClassNames {options : ModelOptions} {routes : List Route}
    (nodup : ((Assembly.modules options routes).map fun m => moduleName m.name).Nodup) :
    ((Assembly.modules options routes).map moduleClassName).Nodup := by
  let wished := (Assembly.modules options routes).map fun m =>
    Assembly.moduleIdentifier options.reserved m.name
  let undo (s : String) : String := String.ofList (uncapitalize s.toList)
  have hundo : (wished.map upperCamel).map undo =
      (Assembly.modules options routes).map fun m => moduleName m.name := by
    rw [List.map_map, List.map_map]
    refine List.map_congr_left fun m _ => ?_
    show String.ofList (uncapitalize (upperCamel (Assembly.moduleIdentifier options.reserved
      m.name)).toList) = moduleName m.name
    rw [Assembly.upperCamel_moduleIdentifier, String.toList_ofList,
      uncapitalize_capitalize (moduleName_spec m.name).2, String.ofList_toList]
  have hupper : (wished.map upperCamel).Nodup := .of_map undo (hundo ▸ nodup)
  have hnames : (Assembly.modules options routes).map moduleClassName =
      ((Assembly.modules options routes).map (·.identifier)).map upperCamel := by
    rw [List.map_map]
    rfl
  rw [hnames, Assembly.identifiers_of_nodup hupper.of_map]
  exact hupper

/-! ## Files -/

/-- What a file defines it defines by the headers of its interfaces, enums and constants.  It
defines no name twice exactly if the names of modules and of constants, which are put together after
names have been handed out, are apart from each other and from those of the declarations.  The
classes of modules are apart if the beans have different names. -/
theorem defined_once_iff {base raw : Json.Value} {options : BuildOptions} {result : BuildResult}
    (built : build (.string Target.oc.name) base raw options = .ok result) :
    ∃ model document, Writes base raw options result model document ∧
      ((definitions model).map Header.text).Sublist document.codeTexts ∧
      (((definitions model).map (·.name)).Nodup ↔ Distinct model) ∧
      ((model.modules.map fun m => moduleName m.name).Nodup →
        (model.modules.map moduleClassName).Nodup) := by
  obtain ⟨model, document, writes⟩ := exists_writes built
  refine ⟨model, document, writes, definitions_sublist writes.content, ?_⟩
  obtain ⟨graph, _, rfl⟩ := Model.ofJson_eq_ok_iff.mp writes.assembled
  exact ⟨nodup_names_definitions_iff Model.nodup_simpleNames_emitted, nodup_moduleClassNames⟩

/-- A graph without declarations: a route for each bean. -/
def fooGraph (third : String) : Graph where
  classes := []
  enums := []
  routes := ["p.Foo", "q.Foo", third].map (.sample · [] none)

/-- A third bean of another name. -/
theorem defined_once_bar : ∃ result,
    build (.string Target.oc.name) (.string "") (fooGraph "Bar").sampleJson
      (.ofTexts true none none none) = .ok result ∧
    ∃ model document, Writes (.string "") (fooGraph "Bar").sampleJson (.ofTexts true none none none)
      result model document ∧
      (definitions model).map (·.name) = ["Foo", "Foo1", "Bar"] ∧ Distinct model := by
  have decoded : Graph.decode (fooGraph "Bar").sampleJson = .ok (fooGraph "Bar") := by rfl
  obtain ⟨result, built⟩ := build_ok_of_decode decoded .oc "" true
  obtain ⟨model, document, writes, _, once, _⟩ := defined_once_iff built
  have hnames : (definitions model).map (·.name) = ["Foo", "Foo1", "Bar"] := by
    rw [Model.eq_assemble_of_decode decoded writes.assembled]
    decide +kernel
  refine ⟨result, built, model, document, writes, hnames, once.mp ?_⟩
  rw [hnames]
  decide

/-- The identifiers of the modules differ, but not the names of their classes. -/
theorem foo_defined_twice : ∃ result,
    build (.string Target.oc.name) (.string "") (fooGraph "Foo1").sampleJson
      (.ofTexts true none none none) = .ok result ∧
    ∃ model document, Writes (.string "") (fooGraph "Foo1").sampleJson (.ofTexts true none none none)
      result model document ∧
      (∀ e ∈ model.enums, (e.constants.map (·.name)).Nodup) ∧
      model.modules.map (·.identifier) = ["foo", "foo_1", "foo1"] ∧
      (definitions model).map (·.name) = ["Foo", "Foo1", "Foo1"] ∧
      ((definitions model).map Header.text).Sublist document.codeTexts ∧
      ¬ ((definitions model).map (·.name)).Nodup := by
  have decoded : Graph.decode (fooGraph "Foo1").sampleJson = .ok (fooGraph "Foo1") := by rfl
  obtain ⟨result, built⟩ := build_ok_of_decode decoded .oc "" true
  obtain ⟨model, document, writes⟩ := exists_writes built
  have hmodel := Model.eq_assemble_of_decode decoded writes.assembled
  have henums : model.enums.map (·.name) = [] := by
    rw [hmodel]
    decide +kernel
  have hidentifiers : model.modules.map (·.identifier) = ["foo", "foo_1", "foo1"] := by
    rw [hmodel]
    decide +kernel
  have hnames : (definitions model).map (·.name) = ["Foo", "Foo1", "Foo1"] := by
    rw [hmodel]
    decide +kernel
  refine ⟨result, built, model, document, writes, ?_, hidentifiers, hnames,
    definitions_sublist writes.content, ?_⟩
  · rw [List.map_eq_nil_iff.mp henums]
    exact fun e he => absurd he List.not_mem_nil
  · rw [hnames]
    decide

end ApiStubs.Oc
