import ApiStubs.Proofs.Outcome

/-!
# Sample graphs

The parts that graphs in examples are put together from: classes and enums without annotations, and
a route of a bean that may return one of them.  A value from which such a graph is decoded follows
from the graph itself (`Graph.sampleJson`): it has the fields that are not at their defaults.  An
example states once what its graph is, and that the value is decoded to it is then a matter of
computation.
-/

namespace ApiStubs

open Json (Value)

/-! ## Records -/

/-- A class whose members have these names and types. -/
def ClassRecord.sample (name : String) (members : List (String × TypeExpr)) : ClassRecord :=
  ⟨name, [], none, members.map fun m => ⟨m.1, some m.2, true, ""⟩, "", []⟩

/-- An enum whose constants have these names and values. -/
def EnumRecord.sample (name : String) (constants : List (String × Value)) : EnumRecord :=
  let constants := constants.map fun c => ⟨c.1, c.2, "", ""⟩
  ⟨name, constants, .ofConstants constants, "", []⟩

/-- The route `load` of a bean, whose parameters have these names. -/
def RouteRecord.sample (bean : String) (parameters : List String) (returnType : Option TypeExpr) :
    RouteRecord :=
  ⟨"load", bean, [], [], [], parameters.map fun name => ⟨name, none, [], ""⟩, returnType, ""⟩

/-- A graph with these classes and enums, whose one route returns a type. -/
def Graph.sample (classes : List ClassRecord) (enums : List EnumRecord)
    (returnType : Option TypeExpr) : Graph :=
  ⟨classes, enums, [.sample "app.Loader" [] returnType]⟩

/-- The class `app.Order`, whose members have these names and types. -/
def Class.sample (members : List (String × TypeExpr)) : Class where
  toClassRecord := .sample "app.Order" members
  simpleName := "Order"

/-- A graph whose one route returns such a class. -/
def Graph.ofMembers (members : List (String × TypeExpr)) : Graph :=
  .sample [(Class.sample members).toClassRecord] [] (some (.named "app.Order" []))

/-! ## Values -/

namespace Sample

def textField (key s : String) : List (String × Value) :=
  if s.isEmpty then [] else [(key, .string s)]

def typeField (key : String) (t : Option TypeExpr) : List (String × Value) :=
  t.toList.map fun t => (key, .string t.text)

def listField (key : String) (items : List Value) : List (String × Value) :=
  if items.isEmpty then [] else [(key, .array items)]

def ofMember (m : Member) : Value :=
  .object (("name", .string m.name) :: typeField "type" m.type)

def ofClass (c : ClassRecord) : Value :=
  .object
    (("name", .string c.name) :: listField "typeParameters" (c.typeParameters.map .string) ++
      typeField "superclass" c.superclass ++ listField "members" (c.members.map ofMember))

def ofConstant (c : Constant) : Value :=
  .object ([("name", .string c.name), ("value", c.raw)] ++ textField "memo" c.memo)

def ofEnum (e : EnumRecord) : Value :=
  .object (("name", .string e.name) :: listField "constants" (e.constants.map ofConstant))

def ofParameter (p : ParameterRecord) : Value :=
  .object (("name", .string p.name) :: typeField "type" p.type)

def ofRoute (r : RouteRecord) : Value :=
  .object
    ([("name", .string r.name), ("bean", .string r.bean)] ++
      listField "parameters" (r.parameters.map ofParameter) ++
      typeField "returnType" r.returnType ++ textField "description" r.description)

end Sample

namespace Graph

/-- A value from which a graph is decoded that has no annotations. -/
def sampleJson (graph : Graph) : Value :=
  .object
    (Sample.listField "classes" (graph.classes.map Sample.ofClass) ++
      Sample.listField "enums" (graph.enums.map Sample.ofEnum) ++
      [("routes", .array (graph.routes.map Sample.ofRoute))])

def sampleModel (graph : Graph) (target : Target) : Model :=
  .assemble (Build.modelOptions target (.ofTexts true none none none)) graph

theorem ofJson_sampleJson {graph : Graph} (decoded : decode graph.sampleJson = .ok graph)
    (target : Target) :
    Model.ofJson (Build.modelOptions target (.ofTexts true none none none)) graph.sampleJson =
      .ok (graph.sampleModel target) := by
  rw [Model.ofJson, decoded]
  rfl

end Graph

end ApiStubs
