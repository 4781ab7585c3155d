import ApiStubs.Declaration.Reach
import ApiStubs.Annotations.Binding

/-!
# Models

The resolved content of one build: the routes that are kept with their modules, the declarations
known, and those of them that the output has to contain, in the order in which it does.
-/

namespace ApiStubs

/-- What the assembly of a model depends on besides the graph. -/
structure ModelOptions where
  /-- stands between a repeated name and its number -/
  separator : String
  /-- the beans and routes to keep; all of them if none are given -/
  apis : Option (List String)
  /-- the bindings of parameters without a binding annotation, if not the standard ones -/
  policy : Option BindingPolicy
  /-- words that name no module or parameter -/
  reserved : List String

/-- The resolved content of one build. -/
structure Model where
  routes : List Route
  modules : List Module
  table : DeclarationTable
  /-- the classes to put out, superclasses first -/
  classes : List Class
  /-- the enums to put out -/
  enums : List Enum

end ApiStubs
