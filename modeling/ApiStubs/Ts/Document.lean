import ApiStubs.Literal
import ApiStubs.Model.Basic
import ApiStubs.Signature
import ApiStubs.Ts.TypeText

/-!
# TypeScript documents

The content of a TypeScript file with all types resolved, before anything is written: an object for
each module with a stub for each of its routes, a type for each class, and the enums.  The auxiliary
types that the file has to define are those that its types use.
-/

namespace ApiStubs.Ts

/-- An argument of a call. -/
inductive Operand where
  | literal (s : String)
  | name (s : String)
deriving DecidableEq

/-- A call in the chain that forms a request. -/
structure Call where
  method : String
  operands : List Operand
deriving DecidableEq

/-- A parameter of a stub with the meaning of its type. -/
structure StubParameter where
  identifier : String
  mode : ParameterMode
  type : Resolved

/-- The stub of a route. -/
structure Stub where
  title : String
  notes : List String
  name : String
  parameters : List StubParameter
  result : Resolved
  calls : List Call

/-- The stubs of a module. -/
structure ModuleObject where
  title : String
  bean : String
  identifier : String
  stubs : List Stub

/-- A field of a type. -/
structure Field where
  name : String
  optional : Bool
  type : Resolved
  description : String

/-- What a type is: the same as another one, or a record that may extend another one. -/
inductive TypeBody where
  | sameAs (type : Resolved)
  | record (parent : Option Resolved) (fields : List Field)

/-- The type of a class. -/
structure TypeDefinition where
  title : String
  className : String
  head : String
  body : TypeBody

/-- The content of a file. -/
structure Document where
  hasBanner : Bool
  runtime : Literal
  base : Literal
  modules : List ModuleObject
  types : List TypeDefinition
  enums : List Enum

/-! ## From the model -/

/-- The call that attaches the value of a parameter. -/
def attachment (identifier : String) (action : Action) : Call :=
  ⟨action.kind.method, action.key.toList.map .literal ++ [.name identifier]⟩

def requestCalls (route : Route) : List Call :=
  ⟨"open", [.literal route.method, .literal route.pattern, .name "settings"]⟩ ::
    (route.contentType.toList.map fun type =>
      ⟨"addHeader", [.literal "Content-Type", .literal type]⟩) ++
    ((route.identifiers .ts).zip route.exposed).flatMap (fun p =>
      p.2.action.toList.map (attachment p.1)) ++
    [⟨"execute", []⟩]

def Stub.ofRoute (table : DeclarationTable) (route : Route) : Stub where
  title := titleOf route.description route.name
  notes := parameterNotes (route.arguments .ts)
  name := route.uniqueName
  parameters := (route.arguments .ts).map fun a =>
    ⟨a.identifier, a.mode, .ofType? table a.parameter.type⟩
  result := .ofType? table route.returnType
  calls := requestCalls route

def ModuleObject.ofModule (table : DeclarationTable) (m : Module) : ModuleObject where
  title := titleOf m.displayName m.identifier
  bean := m.name
  identifier := m.identifier
  stubs := m.routes.map (Stub.ofRoute table)

def Field.ofMember (table : DeclarationTable) (m : Member) : Field :=
  ⟨m.name, m.optional, .ofType? table m.type, m.description⟩

/-- The type of a class: without members it is the same as its superclass, and a superclass of
which nothing is known is not extended. -/
def TypeBody.ofClass (table : DeclarationTable) (c : Class) : TypeBody :=
  let parent := c.superclass.map (Resolved.ofType table)
  match c.members, parent with
  | [], some type => .sameAs type
  | members, parent =>
    .record (parent.filter fun type => typeText type ≠ unknownType)
      (members.map (Field.ofMember table))

def TypeDefinition.ofClass (table : DeclarationTable) (c : Class) : TypeDefinition :=
  ⟨titleOf c.description c.simpleName, c.name, c.head, .ofClass table c⟩

def Document.ofModel (hasBanner : Bool) (runtime base : Literal) (model : Model) : Document where
  hasBanner
  runtime
  base
  modules := model.modules.map (ModuleObject.ofModule model.table)
  types := model.classes.map (TypeDefinition.ofClass model.table)
  enums := model.enums

/-! ## Auxiliary types -/

/-- The types that a stub mentions: those of its parameters and the one it returns. -/
def Stub.types (stub : Stub) : List Resolved :=
  stub.parameters.map (·.type) ++ [stub.result]

def TypeBody.types : TypeBody → List Resolved
  | sameAs type => [type]
  | record parent fields => parent.toList ++ fields.map (·.type)

/-- The types that a file mentions, in the order in which they are written. -/
def Document.mentioned (document : Document) : List Resolved :=
  document.modules.flatMap (fun m => m.stubs.flatMap Stub.types) ++
    document.types.flatMap (·.body.types)

/-- The auxiliary types that a file has to define. -/
def Document.aliases (document : Document) : AliasRegistry :=
  AliasRegistry.empty.registerAll (Resolved.aliasesOfAll document.mentioned)

end ApiStubs.Ts
