import ApiStubs.TypeExpr.Kind

/-!
# Routes

The operations of a backend as callers see them: what is requested, and how each parameter reaches
the request.  Routes that share a bean form a module.
-/

namespace ApiStubs

/-- How the value of a parameter is attached to a request. -/
inductive ActionKind where
  | query | path | header | cookie | body | form | file
deriving DecidableEq

/-- The method of the runtime that attaches a value. -/
def ActionKind.method : ActionKind → String
  | query => "addRequestParam"
  | path => "addPathVariable"
  | header => "addRequestHeader"
  | cookie => "addRequestCookie"
  | body => "addRequestBody"
  | form => "addModelAttribute"
  | file => "addMultipartFile"

/-- Whether a value is attached under a name. -/
def ActionKind.isNamed : ActionKind → Bool
  | body => false
  | form => false
  | _ => true

/-- The attachment of a value, under a key if the request knows it by name. -/
structure Action where
  kind : ActionKind
  key : Option String
deriving DecidableEq

/-- A parameter of a route.  Without an action it is supplied by the server. -/
structure Parameter where
  name : String
  type : Option TypeExpr
  required : Bool
  action : Option Action
  description : String

structure Route where
  bean : String
  name : String
  uniqueName : String
  method : String
  pattern : String
  /-- whether an annotation maps the route -/
  mapped : Bool
  contentType : Option String
  description : String
  returnType : Option TypeExpr
  parameters : List Parameter

/-- The parameters that callers pass. -/
def Route.exposed (route : Route) : List Parameter :=
  route.parameters.filter (·.action.isSome)

/-- The routes of a bean. -/
structure Module where
  name : String
  displayName : String
  identifier : String
  routes : List Route

end ApiStubs
