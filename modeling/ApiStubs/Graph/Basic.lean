import ApiStubs.Declaration.Basic
import ApiStubs.Annotations.Documentation

/-!
# Graphs of route definitions

What a graph of route definitions says, decoded from the loosely typed value in which it arrives.
Only the names must be there; every other field that is missing or of the wrong shape has a
default.  Decoding does not depend on what is to be generated.
-/

namespace ApiStubs

/-- A parameter as the graph lists it. -/
structure ParameterRecord where
  name : String
  type : Option TypeExpr
  annotations : List AnnotationRecord
  description : String

/-- A route as the graph lists it. -/
structure RouteRecord where
  name : String
  bean : String
  annotations : List AnnotationRecord
  methods : List String
  patterns : List String
  parameters : List ParameterRecord
  returnType : Option TypeExpr
  description : String

structure Graph where
  classes : List ClassRecord
  enums : List EnumRecord
  routes : List RouteRecord

namespace Graph

/-- What a graph cannot do without. -/
inductive Missing where
  /-- the graph is no object -/
  | graph
  /-- there is no list of routes, or an empty one -/
  | routes
  /-- the name of a class, of one of its members, of an enum, of one of its constants, or of a
  route -/
  | className (index : Nat)
  | memberName (index member : Nat)
  | enumName (index : Nat)
  | constantName (index constant : Nat)
  | routeName (index : Nat)
deriving DecidableEq

/-- An element of a list in the name of a field. -/
def element (list : String) (index : Nat) : String :=
  list ++ "[" ++ toString index ++ "]"

def Missing.field : Missing → String
  | graph => "routes"
  | routes => "routes"
  | className i => element "classes" i ++ ".name"
  | memberName i j => element "classes" i ++ element ".members" j ++ ".name"
  | enumName i => element "enums" i ++ ".name"
  | constantName i j => element "enums" i ++ element ".constants" j ++ ".name"
  | routeName i => element "routes" i ++ ".name"

def Missing.message : Missing → String
  | graph => "Input graph must be a mapping with a 'routes' list"
  | m => "Missing required field: " ++ m.field

end Graph

end ApiStubs
