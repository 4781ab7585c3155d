import ApiStubs.Literal
import ApiStubs.Model.Basic
import ApiStubs.Oc.TypeText
import ApiStubs.Signature

/-!
# Objective-C documents

The content of an Objective-C file with all types resolved, before anything is written: an interface
for each class and each module, their implementations, and the enums.
-/

namespace ApiStubs.Oc

inductive Operand where
  | literal (s : String)
  | name (s : String)
deriving DecidableEq

/-- A message to the invoker: a bare selector, or labels with an argument each. -/
inductive Message where
  | bare (selector : String)
  | labelled (parts : List (String × Operand))
deriving DecidableEq

/-- A parameter of a method with the meaning of its type. -/
structure MethodParameter where
  label : String
  identifier : String
  mode : ParameterMode
  type : Resolved

structure Method where
  title : String
  notes : List String
  name : String
  parameters : List MethodParameter
  result : Resolved
  messages : List Message

structure ModuleClass where
  title : String
  bean : String
  name : String
  methods : List Method

structure Property where
  identifier : String
  type : Resolved
  description : String

structure Interface where
  title : String
  className : String
  name : String
  head : String
  parent : String
  properties : List Property

structure Document where
  hasBanner : Bool
  runtime : String
  base : String
  enums : List Enum
  interfaces : List Interface
  modules : List ModuleClass

/-! ## From the model -/

/-- The message that attaches the value of a parameter: with its key if it has one. -/
def attachment (identifier : String) (action : Action) : Message :=
  match action.key with
  | some key => .labelled [(action.kind.method, .literal key), ("value", .name identifier)]
  | none => .labelled [(action.kind.method, .name identifier)]

def requestMessages (route : Route) : List Message :=
  .labelled [("open", .literal route.method), ("pattern", .literal route.pattern),
      ("settings", .name "nil")] ::
    (route.contentType.toList.map fun type =>
      .labelled [("addHeader", .literal "Content-Type"), ("value", .literal type)]) ++
    ((route.identifiers .oc).zip route.exposed).flatMap (fun p =>
      p.2.action.toList.map (attachment p.1)) ++
    [.bare "execute"]

/-- The parameters of a method.  The first one goes by the name of the method. -/
def MethodParameter.ofArguments (table : DeclarationTable) (name : String)
    (arguments : List Argument) : List MethodParameter :=
  arguments.mapIdx fun i a =>
    ⟨if i = 0 then name else a.identifier, a.identifier, a.mode, .ofType? table a.parameter.type⟩

def Method.ofRoute (table : DeclarationTable) (route : Route) : Method where
  title := titleOf route.description route.name
  notes := parameterNotes (route.arguments .oc)
  name := route.uniqueName
  parameters := MethodParameter.ofArguments table route.uniqueName (route.arguments .oc)
  result := .ofType? table route.returnType
  messages := requestMessages route

def moduleClassName (m : Module) : String :=
  Text.Identifier.upperCamel m.identifier

def ModuleClass.ofModule (table : DeclarationTable) (m : Module) : ModuleClass where
  title := titleOf m.displayName m.identifier
  bean := m.name
  name := moduleClassName m
  methods := m.routes.map (Method.ofRoute table)

def Property.ofMember (table : DeclarationTable) (m : Member) : Property :=
  ⟨Text.Identifier.repair Target.oc.reserved m.name, .ofType? table m.type, m.description⟩

def rootClass : String := "NSObject"

/-- The class that a type points to, if it is written as a pointer. -/
def pointee? (type : String) : Option String :=
  if type.toList.getLast? == some '*' then some (String.ofList type.toList.dropLast) else none

/-- The class that a class extends: its superclass if that is written as a pointer to one. -/
def parentName (table : DeclarationTable) (c : Class) : String :=
  (c.superclass.bind fun t => pointee? (typeText false (.ofType table t))).getD rootClass

def Interface.ofClass (table : DeclarationTable) (c : Class) : Interface where
  title := titleOf c.description c.simpleName
  className := c.name
  name := c.simpleName
  head := c.head
  parent := parentName table c
  properties := c.members.map (Property.ofMember table)

def Document.ofModel (hasBanner : Bool) (runtime base : String) (model : Model) : Document where
  hasBanner
  runtime
  base
  enums := model.enums
  interfaces := model.classes.map (Interface.ofClass model.table)
  modules := model.modules.map (ModuleClass.ofModule model.table)

/-- The classes that a file defines, in order. -/
def Document.classNames (document : Document) : List String :=
  document.interfaces.map (·.name) ++ document.modules.map (·.name)

end ApiStubs.Oc
