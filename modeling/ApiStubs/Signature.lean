import ApiStubs.Namer
import ApiStubs.Route
import ApiStubs.Target
import ApiStubs.Text.Identifier

/-!
# Signatures of stubs

The parameters of a stub in the order of the route's, with identifiers that are distinct within the
stub.  A parameter that may be left out can stand only where no required one follows it; in front of
a required one it has to be passed, but may be null.
-/

namespace ApiStubs

/-- How a parameter appears in a signature. -/
inductive ParameterMode where
  | required
  /-- has to be passed, but may be null -/
  | nullable
  /-- may be left out -/
  | optional
deriving DecidableEq

/-- The mode of a parameter, given whether a required one follows it. -/
def ParameterMode.before (requiredFollows isRequired : Bool) : ParameterMode :=
  if isRequired then required else if requiredFollows then nullable else optional

/-- Parameters with their modes, and whether one of them is required. -/
def arrangeWith {α : Type} (isRequired : α → Bool) : List α → List (α × ParameterMode) × Bool
  | [] => ([], false)
  | p :: rest =>
    let (others, follows) := arrangeWith isRequired rest
    ((p, .before follows (isRequired p)) :: others, isRequired p || follows)

/-- Parameters with their modes. -/
def arrange {α : Type} (isRequired : α → Bool) (parameters : List α) : List (α × ParameterMode) :=
  (arrangeWith isRequired parameters).1

/-- A parameter of a stub. -/
structure Argument where
  identifier : String
  parameter : Parameter
  mode : ParameterMode

namespace Route

/-- The identifiers of the parameters that callers pass. -/
def identifiers (target : Target) (route : Route) : List String :=
  ((Namer.new target.separator).takeAll
    (route.exposed.map fun p => Text.Identifier.repair target.reserved p.name)).1

/-- The parameters of the stub of a route. -/
def arguments (target : Target) (route : Route) : List Argument :=
  List.zipWith (fun identifier p => ⟨identifier, p.1, p.2⟩) (route.identifiers target)
    (arrange (·.required) route.exposed)

end Route

/-- The title of a thing in documentation: its description, or a name where it has none. -/
def titleOf (description name : String) : String :=
  if description.isEmpty then name else description

/-- What documentation says about the parameters of a stub that have a description. -/
def parameterNotes (arguments : List Argument) : List String :=
  arguments.filterMap fun a =>
    if a.parameter.description.isEmpty then none
    else some ("@param " ++ a.identifier ++ " " ++ a.parameter.description)

end ApiStubs
