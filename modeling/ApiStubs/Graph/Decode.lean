import ApiStubs.Graph.Basic
import ApiStubs.Json.Display
import ApiStubs.TypeExpr.Parser

/-!
# Decoding graphs

The records of a graph are decoded in the order classes, enums, routes, and a record's own name
before the names inside it, so that of several missing names the first in this order is reported.
-/

namespace ApiStubs.Graph

open Json (Value)

/-- Decodes a list whose first item has the given index. -/
def decodeAll {α : Type} (decode : Nat → Value → Except Missing α) :
    Nat → List Value → Except Missing (List α)
  | _, [] => .ok []
  | i, v :: rest => do
    let first ← decode i v
    let others ← decodeAll decode (i + 1) rest
    .ok (first :: others)

def name (missing : Missing) (v : Value) : Except Missing String :=
  match v.text? "name" with
  | some s => .ok s
  | none => .error missing

def annotations (v : Value) : List AnnotationRecord :=
  AnnotationRecord.listOfJson (v.field? "annotations")

/-- The description of a record: its own, else the one its annotations hold. -/
def description (v : Value) : String :=
  AnnotationRecord.description (annotations v) (v.field? "description")

def type? (vars : List String) (key : String) (v : Value) : Option TypeExpr :=
  ((v.field? key).bind Value.string?).bind (TypeExpr.parse? vars)

def typeParameters (v : Value) : List String :=
  ((v.itemsOf "typeParameters").filterMap Value.string?).filter (!·.isEmpty)

/-- Whether a member may be missing: as it says, or says the opposite of, else unless its
annotations forbid null. -/
def isOptional (v : Value) : Bool :=
  match (v.field? "optional").bind Value.bool?, (v.field? "required").bind Value.bool? with
  | some optional, _ => optional
  | none, some required => !required
  | none, none => !AnnotationRecord.forbidsNull (annotations v)

def decodeMember (vars : List String) (missing : Missing) (v : Value) :
    Except Missing Member := do
  let name ← name missing v
  .ok ⟨name, type? vars "type" v, isOptional v, description v⟩

/-- The superclass of a class.  To extend a type of which nothing is known is to extend nothing. -/
def superclass (vars : List String) (v : Value) : Option TypeExpr :=
  (type? vars "superclass" v).filter (·.kind ≠ .unknown)

def decodeClass (i : Nat) (v : Value) : Except Missing ClassRecord := do
  let name ← name (.className i) v
  let vars := typeParameters v
  let members ← decodeAll (fun j => decodeMember vars (.memberName i j)) 0 (v.itemsOf "members")
  .ok ⟨name, vars, superclass vars v, members, description v, annotations v⟩

/-- The memo of a constant: its own, else its properties in a row. -/
def memo (v : Value) : String :=
  match v.field? "memo", v.field? "properties" with
  | some (.string s), _ => s
  | _, some (.object fields) => ", ".intercalate (fields.map fun f => f.1 ++ ": " ++ f.2.text)
  | _, _ => ""

/-- A constant of an enum.  Without a value of its own it has its name. -/
def decodeConstant (missing : Missing) (v : Value) : Except Missing Constant := do
  let name ← name missing v
  .ok ⟨name, (v.field? "value").getD (.string name), description v, memo v⟩

def decodeEnum (i : Nat) (v : Value) : Except Missing EnumRecord := do
  let name ← name (.enumName i) v
  let constants ← decodeAll (fun j => decodeConstant (.constantName i j)) 0 (v.itemsOf "constants")
  .ok ⟨name, constants, .ofConstants constants, description v, annotations v⟩

/-- A parameter of a route.  Without a name it is named for its position. -/
def decodeParameter (vars : List String) (i : Nat) (v : Value) : ParameterRecord :=
  ⟨(v.text? "name").getD ("arg" ++ toString i), type? vars "type" v, annotations v,
    description v⟩

def decodeRoute (i : Nat) (v : Value) : Except Missing RouteRecord := do
  let name ← name (.routeName i) v
  let vars := typeParameters v
  .ok {
    name
    bean := ((v.field? "bean").bind Value.string?).getD ""
    annotations := annotations v
    methods := ((v.itemsOf "methods").filterMap Value.string?).filter (!·.isEmpty)
    patterns := (v.itemsOf "patterns").filterMap Value.string?
    parameters := (v.itemsOf "parameters").mapIdx (decodeParameter vars)
    returnType := type? vars "returnType" v
    description := description v }

def routeValues (v : Value) : Except Missing (List Value) :=
  match v with
  | .object _ => if (v.itemsOf "routes").isEmpty then .error .routes else .ok (v.itemsOf "routes")
  | _ => .error .graph

def decode (v : Value) : Except Missing Graph := do
  let routes ← routeValues v
  let classes ← decodeAll decodeClass 0 (v.itemsOf "classes")
  let enums ← decodeAll decodeEnum 0 (v.itemsOf "enums")
  let routes ← decodeAll decodeRoute 0 routes
  .ok ⟨classes, enums, routes⟩

end ApiStubs.Graph
