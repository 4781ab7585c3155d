import ApiStubs.Json.Printer
import ApiStubs.Model.Basic

/-!
# Models as JSON

The resolved model itself as a value, which is what the raw target puts out.
-/

namespace ApiStubs

open Json (Value)

def typeJson (t : Option TypeExpr) : Value :=
  match t with
  | some t => .string t.text
  | none => .null

def textJson (s : Option String) : Value :=
  match s with
  | some s => .string s
  | none => .null

/-- An attachment: the method of the runtime and the key, if there is one. -/
def Action.toJson (a : Action) : Value :=
  .array (.string a.kind.method :: a.key.toList.map .string)

def Parameter.toJson (p : Parameter) : Value :=
  .object
    [("name", .string p.name),
     ("type", typeJson p.type),
     ("required", .bool p.required),
     ("description", .string p.description),
     ("actions", .array (p.action.toList.map Action.toJson))]

def Route.toJson (r : Route) : Value :=
  .object
    [("bean", .string r.bean),
     ("name", .string r.name),
     ("uniqName", .string r.uniqueName),
     ("method", .string r.method),
     ("pattern", .string r.pattern),
     ("mapped", .bool r.mapped),
     ("requestContentType", textJson r.contentType),
     ("description", .string r.description),
     ("returnType", typeJson r.returnType),
     ("parameters", .array (r.parameters.map Parameter.toJson))]

def Module.toJson (m : Module) : Value :=
  .object
    [("name", .string m.name),
     ("displayName", .string m.displayName),
     ("identifier", .string m.identifier),
     ("routes", .array (m.routes.map Route.toJson))]

def Member.toJson (m : Member) : Value :=
  .object
    [("name", .string m.name),
     ("type", typeJson m.type),
     ("optional", .bool m.optional),
     ("description", .string m.description)]

def Class.toJson (c : Class) : Value :=
  .object
    [("name", .string c.name),
     ("simpleName", .string c.simpleName),
     ("typeParameters", .array (c.typeParameters.map .string)),
     ("superclass", typeJson c.superclass),
     ("description", .string c.description),
     ("members", .array (c.members.map Member.toJson))]

/-- A constant of an enum, with its value as the graph gives it. -/
def Constant.toJson (c : Constant) : Value :=
  .object
    [("name", .string c.name),
     ("value", c.raw),
     ("description", .string c.description),
     ("memo", .string c.memo)]

def Enum.toJson (e : Enum) : Value :=
  .object
    [("name", .string e.name),
     ("simpleName", .string e.simpleName),
     ("valueType", .string e.valueType.name),
     ("description", .string e.description),
     ("constants", .array (e.constants.map Constant.toJson))]

/-- A model together with the base address of its requests. -/
def Model.toJson (base : Value) (model : Model) : Value :=
  .object
    [("base", base),
     ("modules", .array (model.modules.map Module.toJson)),
     ("classes", .array (model.classes.map Class.toJson)),
     ("enums", .array (model.enums.map Enum.toJson))]

end ApiStubs
