import ApiStubs.Build
import ApiStubs.Proofs.Unannotated

/-!
# Models written alike

A file shows of its model the modules with their routes, the classes and the enums, and each of them
as the types in it are written.  So models that hold the same up to annotations of declarations,
over tables that correspond (`Model.WrittenAlike`), are emitted as the same file, with the same
auxiliary types (`Build.emit_eq`).  Each part of a document has a lemma, from the innermost one
outwards.

Two models of this kind need not have their tables in the same order, since nothing is written that
goes through a table from its first entry to its last.
-/

namespace ApiStubs

open List (Forall₂)

variable {table other : DeclarationTable}

/-! ## The parts of a document -/

section Lists

variable {α β γ : Type} {f g : α → β} {k : β → List γ}

theorem forall₂_map_same {R : β → β → Prop} (h : ∀ a, R (f a) (g a)) (as : List α) :
    Forall₂ R (as.map f) (as.map g) := by
  rw [List.forall₂_map_left_iff, List.forall₂_map_right_iff]
  exact List.forall₂_same.mpr fun a _ => h a

theorem forall₂_flatMap_map {S : α → α → Prop} {R : γ → γ → Prop}
    (h : ∀ a a', S a a' → Forall₂ R (k (f a)) (k (g a'))) {as as' : List α}
    (has : Forall₂ S as as') : Forall₂ R ((as.map f).flatMap k) ((as'.map g).flatMap k) := by
  rw [List.flatMap_map, List.flatMap_map]
  exact List.rel_flatMap has fun _ _ ha => h _ _ ha

theorem forall₂_flatMap_same {R : γ → γ → Prop} (h : ∀ a, Forall₂ R (k (f a)) (k (g a)))
    (as : List α) : Forall₂ R ((as.map f).flatMap k) ((as.map g).flatMap k) :=
  forall₂_flatMap_map (S := Eq) (fun a _ ha => ha ▸ h a) (List.forall₂_refl as)

theorem flatMap_map_eq {S : α → α → Prop} (h : ∀ a a', S a a' → k (f a) = k (g a'))
    {as as' : List α} (has : Forall₂ S as as') : (as.map f).flatMap k = (as'.map g).flatMap k := by
  rw [List.flatMap_map, List.flatMap_map]
  exact congrArg List.flatten (map_eq_of_forall₂ h has)

theorem flatMap_same (h : ∀ a, k (f a) = k (g a)) (as : List α) :
    (as.map f).flatMap k = (as.map g).flatMap k :=
  flatMap_map_eq (S := Eq) (fun a _ ha => ha ▸ h a) (List.forall₂_refl as)

end Lists

section Parts

variable (h : table.Corresponds Declaration.SameButAnnotations other)

include h

namespace Ts

open Resolved

theorem Stub.ops_eq (route : Route) :
    (Stub.ofRoute table route).ops = (Stub.ofRoute other route).ops := by
  have hparameter (a : Argument) :
      StubParameter.text ⟨a.identifier, a.mode, ofType? table a.parameter.type⟩ =
        StubParameter.text ⟨a.identifier, a.mode, ofType? other a.parameter.type⟩ := by
    unfold StubParameter.text
    rw [(writtenAlike_ofType? h a.parameter.type).ts]
  have hlist : (Stub.ofRoute table route).parameterList =
      (Stub.ofRoute other route).parameterList := by
    show ((route.arguments .ts).map _).map _ ++ _ = ((route.arguments .ts).map _).map _ ++ _
    rw [List.map_map, List.map_map]
    exact congrArg (· ++ _) (List.map_congr_left fun a _ => hparameter a)
  have hresult : typeText (Stub.ofRoute table route).result =
      typeText (Stub.ofRoute other route).result :=
    (writtenAlike_ofType? h route.returnType).ts
  unfold Stub.ops
  rw [hlist, hresult]
  rfl

theorem ModuleObject.ops_eq (m : Module) :
    (ModuleObject.ofModule table m).ops = (ModuleObject.ofModule other m).ops := by
  have hstubs : (m.routes.map (Stub.ofRoute table)).flatMap Stub.ops =
      (m.routes.map (Stub.ofRoute other)).flatMap Stub.ops :=
    flatMap_same (Stub.ops_eq h) m.routes
  unfold ModuleObject.ops
  show _ = [_, _, WriteOp.block ((m.routes.map (Stub.ofRoute other)).flatMap Stub.ops), _]
  rw [← hstubs]
  rfl

theorem Stub.forall₂_types (route : Route) :
    Forall₂ WrittenAlike (Stub.ofRoute table route).types (Stub.ofRoute other route).types := by
  have hparameters : Forall₂ WrittenAlike ((Stub.ofRoute table route).parameters.map (·.type))
      ((Stub.ofRoute other route).parameters.map (·.type)) := by
    show Forall₂ _ (((route.arguments .ts).map _).map _) (((route.arguments .ts).map _).map _)
    rw [List.map_map, List.map_map]
    exact forall₂_map_same (fun a : Argument => writtenAlike_ofType? h a.parameter.type) _
  exact List.rel_append hparameters (.cons (writtenAlike_ofType? h route.returnType) .nil)

theorem ModuleObject.forall₂_types (m : Module) :
    Forall₂ WrittenAlike ((ModuleObject.ofModule table m).stubs.flatMap Stub.types)
      ((ModuleObject.ofModule other m).stubs.flatMap Stub.types) :=
  forall₂_flatMap_same (Stub.forall₂_types h) m.routes

theorem Field.ops_eq (m : Member) :
    (Field.ofMember table m).ops = (Field.ofMember other m).ops := by
  have htype : typeText (Field.ofMember table m).type = typeText (Field.ofMember other m).type :=
    (writtenAlike_ofType? h m.type).ts
  unfold Field.ops
  rw [htype]
  rfl

theorem Field.flatMap_ops_eq (members : List Member) :
    (members.map (Field.ofMember table)).flatMap Field.ops =
      (members.map (Field.ofMember other)).flatMap Field.ops :=
  flatMap_same (Field.ops_eq h) members

theorem rel_extended (superclass : Option TypeExpr) :
    Option.Rel WrittenAlike
      ((superclass.map (ofType table)).filter fun type => typeText type ≠ unknownType)
      ((superclass.map (ofType other)).filter fun type => typeText type ≠ unknownType) := by
  cases superclass with
  | none => exact .none
  | some t =>
      have hw := writtenAlike_ofType h t
      show Option.Rel _ (if decide (typeText (ofType table t) ≠ unknownType) then _ else _)
        (if decide (typeText (ofType other t) ≠ unknownType) then _ else _)
      rw [hw.ts]
      split
      · exact .some hw
      · exact .none

omit h in
theorem interfaceHead_eq {parent parent' : Option Resolved}
    (h : Option.Rel WrittenAlike parent parent') (head : String) :
    interfaceHead head parent = interfaceHead head parent' := by
  cases h with
  | none => rfl
  | some hw => exact congrArg (head ++ " extends " ++ ·) hw.ts

omit h in
theorem forall₂_toList {parent parent' : Option Resolved}
    (h : Option.Rel WrittenAlike parent parent') :
    Forall₂ WrittenAlike parent.toList parent'.toList := by
  cases h with
  | none => exact .nil
  | some hw => exact .cons hw .nil

theorem TypeBody.ops_eq (head : String) (c : Class) :
    (TypeBody.ofClass table c).ops head = (TypeBody.ofClass other c).ops head := by
  have hhead := interfaceHead_eq (rel_extended h c.superclass) head
  have hfields := Field.flatMap_ops_eq h c.members
  unfold TypeBody.ofClass
  generalize c.members = members at hfields
  cases members with
  | nil =>
      cases hsuper : c.superclass with
      | none => rfl
      | some t =>
          show [WriteOp.texts ["export type " ++ head ++ " = " ++ typeText (ofType table t) ++ ";",
            ""]] = _
          rw [(writtenAlike_ofType h t).ts]
          rfl
  | cons m rest =>
      show [WriteOp.text ("export interface " ++ interfaceHead head _ ++ " \x7b"),
        WriteOp.block (((m :: rest).map (Field.ofMember table)).flatMap Field.ops), _] = _
      rw [hhead, hfields]
      rfl

theorem TypeBody.forall₂_types (c : Class) :
    Forall₂ WrittenAlike (TypeBody.ofClass table c).types (TypeBody.ofClass other c).types := by
  have hextended := rel_extended h c.superclass
  have hfields : Forall₂ WrittenAlike ((c.members.map (Field.ofMember table)).map (·.type))
      ((c.members.map (Field.ofMember other)).map (·.type)) := by
    rw [List.map_map, List.map_map]
    exact forall₂_map_same (fun m : Member => writtenAlike_ofType? h m.type) _
  unfold TypeBody.ofClass
  cases hmembers : c.members with
  | nil =>
      cases hsuper : c.superclass with
      | none => exact .nil
      | some t => exact .cons (writtenAlike_ofType h t) .nil
  | cons m rest =>
      rw [hmembers] at hfields
      exact List.rel_append (forall₂_toList hextended) hfields

omit h in
theorem TypeDefinition.ofClass_eq {c c' : Class}
    (hc : OnClasses Declaration.SameButAnnotations c c') (table : DeclarationTable) :
    TypeDefinition.ofClass table c = TypeDefinition.ofClass table c' :=
  show TypeDefinition.ofClass table c.unannotated = TypeDefinition.ofClass table c'.unannotated from
    congrArg _ (Class.unannotated_eq hc)

theorem TypeDefinition.ops_eq {c c' : Class} (hc : OnClasses Declaration.SameButAnnotations c c') :
    (TypeDefinition.ofClass table c).ops = (TypeDefinition.ofClass other c').ops := by
  rw [← ofClass_eq hc]
  show _ :: (TypeBody.ofClass table c).ops c.head = _ :: (TypeBody.ofClass other c).ops c.head
  rw [TypeBody.ops_eq h]
  rfl

theorem TypeDefinition.forall₂_types {c c' : Class}
    (hc : OnClasses Declaration.SameButAnnotations c c') :
    Forall₂ WrittenAlike (TypeDefinition.ofClass table c).body.types
      (TypeDefinition.ofClass other c').body.types := by
  rw [← ofClass_eq hc]
  exact TypeBody.forall₂_types h c

omit h in
theorem enumOps_eq {e e' : Enum} (he : OnEnums Declaration.SameButAnnotations e e') :
    enumOps e = enumOps e' := by
  show enumOps e.unannotated = enumOps e'.unannotated
  rw [Enum.unannotated_eq he]

end Ts

namespace Oc

open Resolved

theorem Method.selector_eq (route : Route) :
    (Method.ofRoute table route).selector = (Method.ofRoute other route).selector := by
  have htexts : (Method.ofRoute table route).parameters.map MethodParameter.text =
      (Method.ofRoute other route).parameters.map MethodParameter.text := by
    show ((route.arguments .oc).mapIdx _).map _ = ((route.arguments .oc).mapIdx _).map _
    rw [List.mapIdx_eq_zipIdx_map, List.mapIdx_eq_zipIdx_map, List.map_map, List.map_map]
    refine List.map_congr_left fun p _ => ?_
    show MethodParameter.text ⟨_, _, _, ofType? table p.1.parameter.type⟩ =
      MethodParameter.text ⟨_, _, _, ofType? other p.1.parameter.type⟩
    unfold MethodParameter.text
    rw [(writtenAlike_ofType? h p.1.parameter.type).oc]
  have hempty : (Method.ofRoute table route).parameters.isEmpty =
      (Method.ofRoute other route).parameters.isEmpty := by
    rw [← List.isEmpty_map, htexts, List.isEmpty_map]
  unfold Method.selector
  rw [hempty, htexts]
  rfl

theorem Method.result_eq (route : Route) :
    typeText false (Method.ofRoute table route).result =
      typeText false (Method.ofRoute other route).result :=
  (writtenAlike_ofType? h route.returnType).oc false

theorem Method.signature_eq (route : Route) :
    (Method.ofRoute table route).signature = (Method.ofRoute other route).signature := by
  unfold Method.signature
  rw [Method.result_eq h, Method.selector_eq h]

theorem Method.interfaceOps_eq (route : Route) :
    (Method.ofRoute table route).interfaceOps = (Method.ofRoute other route).interfaceOps := by
  unfold Method.interfaceOps
  rw [Method.signature_eq h]
  rfl

theorem Method.implementationOps_eq (route : Route) :
    (Method.ofRoute table route).implementationOps =
      (Method.ofRoute other route).implementationOps := by
  unfold Method.implementationOps
  rw [Method.signature_eq h, Method.result_eq h]
  rfl

theorem ModuleClass.interfaceOps_eq (m : Module) :
    (ModuleClass.ofModule table m).interfaceOps = (ModuleClass.ofModule other m).interfaceOps := by
  have hmethods : (ModuleClass.ofModule table m).methods.flatMap Method.interfaceOps =
      (ModuleClass.ofModule other m).methods.flatMap Method.interfaceOps :=
    flatMap_same (Method.interfaceOps_eq h) m.routes
  unfold ModuleClass.interfaceOps
  rw [hmethods]
  rfl

theorem ModuleClass.implementationOps_eq (m : Module) :
    (ModuleClass.ofModule table m).implementationOps =
      (ModuleClass.ofModule other m).implementationOps := by
  have hmethods : (ModuleClass.ofModule table m).methods.flatMap Method.implementationOps =
      (ModuleClass.ofModule other m).methods.flatMap Method.implementationOps :=
    flatMap_same (Method.implementationOps_eq h) m.routes
  unfold ModuleClass.implementationOps
  rw [hmethods]
  rfl

theorem Property.ops_eq (m : Member) :
    (Property.ofMember table m).ops = (Property.ofMember other m).ops := by
  have htype : typeText false (Property.ofMember table m).type =
      typeText false (Property.ofMember other m).type :=
    (writtenAlike_ofType? h m.type).oc false
  unfold Property.ops
  rw [htype]
  rfl

theorem parentName_eq (c : Class) : parentName table c = parentName other c := by
  unfold parentName
  cases c.superclass with
  | none => rfl
  | some t =>
      show (pointee? (typeText false (ofType table t))).getD rootClass = _
      rw [(writtenAlike_ofType h t).oc]
      rfl

omit h in
theorem Interface.ofClass_eq {c c' : Class} (hc : OnClasses Declaration.SameButAnnotations c c')
    (table : DeclarationTable) : Interface.ofClass table c = Interface.ofClass table c' :=
  show Interface.ofClass table c.unannotated = Interface.ofClass table c'.unannotated from
    congrArg _ (Class.unannotated_eq hc)

theorem Interface.interfaceOps_eq {c c' : Class}
    (hc : OnClasses Declaration.SameButAnnotations c c') :
    (Interface.ofClass table c).interfaceOps = (Interface.ofClass other c').interfaceOps := by
  have hproperties : (Interface.ofClass table c).properties.flatMap Property.ops =
      (Interface.ofClass other c).properties.flatMap Property.ops :=
    flatMap_same (Property.ops_eq h) c.members
  have hparent : (Interface.ofClass table c).parent = (Interface.ofClass other c).parent :=
    parentName_eq h c
  rw [← ofClass_eq hc]
  unfold Interface.interfaceOps
  rw [hproperties, hparent]
  rfl

omit h in
theorem Interface.name_eq {c c' : Class} (hc : OnClasses Declaration.SameButAnnotations c c') :
    (Interface.ofClass table c).name = (Interface.ofClass other c').name :=
  show c.unannotated.simpleName = c'.unannotated.simpleName from
    congrArg (fun c : Class => c.simpleName) (Class.unannotated_eq hc)

omit h in
theorem Interface.implementationOps_eq {c c' : Class}
    (hc : OnClasses Declaration.SameButAnnotations c c') :
    (Interface.ofClass table c).implementationOps =
      (Interface.ofClass other c').implementationOps := by
  unfold Interface.implementationOps
  rw [Interface.name_eq hc]

omit h in
theorem enumOps_eq {e e' : Enum} (he : OnEnums Declaration.SameButAnnotations e e') :
    enumOps e = enumOps e' := by
  show enumOps e.unannotated = enumOps e'.unannotated
  rw [Enum.unannotated_eq he]

end Oc

end Parts

/-! ## Models written alike -/

/-- The models hold the same modules, and declarations that are the same but for their
annotations. -/
structure Model.WrittenAlike (model model' : Model) : Prop where
  modules : model.modules = model'.modules
  table : model.table.Corresponds Declaration.SameButAnnotations model'.table
  classes : Forall₂ (OnClasses Declaration.SameButAnnotations) model.classes model'.classes
  enums : Forall₂ (OnEnums Declaration.SameButAnnotations) model.enums model'.enums

/-- Models of the same routes over tables that correspond are written alike. -/
theorem Model.writtenAlike_assemble {options : ModelOptions} {graph graph' : Graph}
    (h : (Assembly.table options.separator graph).Corresponds Declaration.SameButAnnotations
      (Assembly.table options.separator graph'))
    (declared : options.apis = none → Forall₂ Declaration.SameButAnnotations
      (Assembly.table options.separator graph).declarations
      (Assembly.table options.separator graph').declarations)
    (routes : (assemble options graph).routes = (assemble options graph').routes) :
    (assemble options graph).WrittenAlike (assemble options graph') := by
  have hcollected := Assembly.forall₂_collected h rfl declared
    (congrArg Assembly.routeTypes routes)
  exact ⟨congrArg (Assembly.modules options) routes, h,
    h.forall₂_inOrder (h.forall₂_classes hcollected), h.forall₂_enums hcollected⟩

section Models

variable {model model' : Model} (h : model.WrittenAlike model')

include h

namespace Ts.Document

omit h in
theorem headLines_congr {document document' : Document}
    (banner : document.hasBanner = document'.hasBanner)
    (runtime : document.runtime = document'.runtime) (base : document.base = document'.base) :
    document.headLines = document'.headLines := by
  unfold headLines
  rw [banner, runtime, base]

variable (hasBanner : Bool) (runtime base : Literal)

theorem forall₂_mentioned :
    Forall₂ Resolved.WrittenAlike (ofModel hasBanner runtime base model).mentioned
      (ofModel hasBanner runtime base model').mentioned := by
  have hmodules : Forall₂ Resolved.WrittenAlike
      ((model.modules.map (ModuleObject.ofModule model.table)).flatMap
        fun m => m.stubs.flatMap Stub.types)
      ((model'.modules.map (ModuleObject.ofModule model'.table)).flatMap
        fun m => m.stubs.flatMap Stub.types) := by
    rw [h.modules]
    exact forall₂_flatMap_same (k := fun m : ModuleObject => m.stubs.flatMap Stub.types)
      (ModuleObject.forall₂_types h.table) model'.modules
  have htypes : Forall₂ Resolved.WrittenAlike
      ((model.classes.map (TypeDefinition.ofClass model.table)).flatMap (·.body.types))
      ((model'.classes.map (TypeDefinition.ofClass model'.table)).flatMap (·.body.types)) :=
    forall₂_flatMap_map (k := fun t : TypeDefinition => t.body.types)
      (fun _ _ hc => TypeDefinition.forall₂_types h.table hc) h.classes
  exact List.rel_append hmodules htypes

theorem aliases_ofModel :
    (ofModel hasBanner runtime base model).aliases =
      (ofModel hasBanner runtime base model').aliases :=
  Resolved.registerAll_aliasesOfAll_eq (forall₂_mentioned h hasBanner runtime base) .empty

theorem ops_ofModel :
    (ofModel hasBanner runtime base model).ops = (ofModel hasBanner runtime base model').ops := by
  have hlines : (ofModel hasBanner runtime base model).headLines =
      (ofModel hasBanner runtime base model').headLines :=
    headLines_congr rfl rfl rfl
  have hmodules : (ofModel hasBanner runtime base model).modules.flatMap ModuleObject.ops =
      (ofModel hasBanner runtime base model').modules.flatMap ModuleObject.ops := by
    show (model.modules.map _).flatMap _ = (model'.modules.map _).flatMap _
    rw [h.modules]
    exact flatMap_same (ModuleObject.ops_eq h.table) model'.modules
  have htypes : (ofModel hasBanner runtime base model).types.flatMap TypeDefinition.ops =
      (ofModel hasBanner runtime base model').types.flatMap TypeDefinition.ops :=
    flatMap_map_eq (fun _ _ hc => TypeDefinition.ops_eq h.table hc) h.classes
  have henums : (ofModel hasBanner runtime base model).enums.flatMap enumOps =
      (ofModel hasBanner runtime base model').enums.flatMap enumOps :=
    congrArg List.flatten (map_eq_of_forall₂ (fun _ _ he => enumOps_eq he) h.enums)
  unfold ops
  rw [hlines, hmodules, htypes, henums, aliases_ofModel h]

end Ts.Document

namespace Oc.Document

omit h in
theorem headLines_congr {document document' : Document}
    (banner : document.hasBanner = document'.hasBanner)
    (runtime : document.runtime = document'.runtime) (base : document.base = document'.base)
    (classes : document.classNames = document'.classNames) :
    document.headLines = document'.headLines := by
  unfold headLines
  rw [banner, runtime, base, classes]

variable (hasBanner : Bool) (runtime base : String)

theorem classNames_ofModel :
    (ofModel hasBanner runtime base model).classNames =
      (ofModel hasBanner runtime base model').classNames := by
  have hinterfaces : (ofModel hasBanner runtime base model).interfaces.map (·.name) =
      (ofModel hasBanner runtime base model').interfaces.map (·.name) := by
    show (model.classes.map _).map _ = (model'.classes.map _).map _
    rw [List.map_map, List.map_map]
    exact map_eq_of_forall₂ (fun _ _ hc => Interface.name_eq hc) h.classes
  have hmodules : (ofModel hasBanner runtime base model).modules.map (·.name) =
      (ofModel hasBanner runtime base model').modules.map (·.name) := by
    show (model.modules.map _).map _ = (model'.modules.map _).map _
    rw [List.map_map, List.map_map]
    show model.modules.map moduleClassName = model'.modules.map moduleClassName
    rw [h.modules]
  unfold classNames
  rw [hinterfaces, hmodules]

theorem ops_ofModel :
    (ofModel hasBanner runtime base model).ops = (ofModel hasBanner runtime base model').ops := by
  have hlines : (ofModel hasBanner runtime base model).headLines =
      (ofModel hasBanner runtime base model').headLines :=
    headLines_congr rfl rfl rfl (classNames_ofModel h hasBanner runtime base)
  have henums : (ofModel hasBanner runtime base model).enums.flatMap enumOps =
      (ofModel hasBanner runtime base model').enums.flatMap enumOps :=
    congrArg List.flatten (map_eq_of_forall₂ (fun _ _ he => enumOps_eq he) h.enums)
  have hinterfaces (ops : Interface → List WriteOp)
      (same : ∀ c c', OnClasses Declaration.SameButAnnotations c c' →
        ops (Interface.ofClass model.table c) = ops (Interface.ofClass model'.table c')) :
      (ofModel hasBanner runtime base model).interfaces.flatMap ops =
        (ofModel hasBanner runtime base model').interfaces.flatMap ops :=
    flatMap_map_eq same h.classes
  have hmodules (ops : ModuleClass → List WriteOp)
      (same : ∀ m, ops (ModuleClass.ofModule model.table m) =
        ops (ModuleClass.ofModule model'.table m)) :
      (ofModel hasBanner runtime base model).modules.flatMap ops =
        (ofModel hasBanner runtime base model').modules.flatMap ops := by
    show (model.modules.map _).flatMap _ = (model'.modules.map _).flatMap _
    rw [h.modules]
    exact flatMap_same same model'.modules
  unfold ops
  rw [hlines, henums, hinterfaces _ fun _ _ hc => Interface.interfaceOps_eq h.table hc,
    hinterfaces _ fun _ _ hc => Interface.implementationOps_eq hc,
    hmodules _ fun m => ModuleClass.interfaceOps_eq h.table m,
    hmodules _ fun m => ModuleClass.implementationOps_eq h.table m]

end Oc.Document

/-! ## The raw target, and all targets -/

omit h in
theorem Class.toJson_eq {c c' : Class} (hc : OnClasses Declaration.SameButAnnotations c c') :
    c.toJson = c'.toJson := by
  show c.unannotated.toJson = c'.unannotated.toJson
  rw [Class.unannotated_eq hc]

omit h in
theorem Enum.toJson_eq {e e' : Enum} (he : OnEnums Declaration.SameButAnnotations e e') :
    e.toJson = e'.toJson := by
  show e.unannotated.toJson = e'.unannotated.toJson
  rw [Enum.unannotated_eq he]

theorem Model.toJson_eq (base : Json.Value) : model.toJson base = model'.toJson base := by
  have hclasses : model.classes.map Class.toJson = model'.classes.map Class.toJson :=
    map_eq_of_forall₂ (fun _ _ hc => Class.toJson_eq hc) h.classes
  have henums : model.enums.map Enum.toJson = model'.enums.map Enum.toJson :=
    map_eq_of_forall₂ (fun _ _ he => Enum.toJson_eq he) h.enums
  unfold Model.toJson
  rw [h.modules, hclasses, henums]

/-- Models that are written alike have the same file. -/
theorem Build.file_eq (target : Target) (base : Json.Value) (options : BuildOptions) :
    file target base options model = file target base options model' := by
  cases target with
  | ts =>
      rw [file, file]
      simp only [Ts.Document.ops_ofModel h, Ts.Document.aliases_ofModel h]
  | oc => rw [file, file, Oc.Document.ops_ofModel h]
  | raw => rw [file, file, Model.toJson_eq h]

theorem Build.emit_eq (target : Target) (base : Json.Value) (options : BuildOptions) :
    emit target base options model = emit target base options model' := by
  rw [emit, emit, file_eq h]

end Models

end ApiStubs
