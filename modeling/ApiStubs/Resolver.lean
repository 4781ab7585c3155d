import ApiStubs.Oc.TypeText
import ApiStubs.Ts.TypeText

/-!
# Resolving in one pass

A resolver goes through a type once.  It writes the type on its way and registers the auxiliary
names that it uses, so that what is registered depends on which arguments it looks at and on the
order in which it does.  What the types of a target look like is its grammar.
-/

namespace ApiStubs

/-- How a special type is written: by an auxiliary name, or without one. -/
inductive SpecialForm where
  | auxiliary (name : Alias)
  | plain (text : String)

/-- How a target writes types, given how it writes the types inside them. -/
structure TypeGrammar where
  unknown : String
  /-- `void`, `true` if it is an argument of another type -/
  void : Bool → String
  special : SpecialType → SpecialForm
  primitive : PrimitiveType → String
  /-- the keys of a map whose keys are no proper ones -/
  propertyKey : String
  map : String → String → String
  list : String → String
  /-- the auxiliary name of optional types, if they have one -/
  optionalName : Option Alias
  optional : String → String
  tuple : List String → String
  ofClass : Class → List String → String
  ofEnum : Enum → String

/-- What writes something and may register names. -/
abbrev Registering (α : Type) : Type :=
  StateM AliasRegistry α

namespace Registering

def name (a : Alias) : Registering String := do
  modify fun registry => registry.register a.name a.definition
  return a.name

end Registering

namespace TypeGrammar

variable (g : TypeGrammar)

def writeSpecial (type : SpecialType) : Registering String :=
  match g.special type with
  | .auxiliary a => .name a
  | .plain text => return text

def nameOptional : Registering Unit :=
  match g.optionalName with
  | some a => discard (.name a)
  | none => return ()

def writeFirst : List (Registering String) → Registering String
  | [] => return g.unknown
  | write :: _ => write

/-- Writes exactly `count` types: surplus ones are not looked at, and missing ones unknown. -/
def writeFit : Nat → List (Registering String) → Registering (List String)
  | 0, _ => return []
  | count + 1, writes => do
    let first ← g.writeFirst writes
    let others ← writeFit count writes.tail
    return first :: others

def writeDeclared (table : DeclarationTable) (name : String) (writes : List (Registering String)) :
    Registering String :=
  match table.find? name with
  | some (.ofClass c) => return g.ofClass c (← g.writeFit c.typeParameters.length writes)
  | some (.ofEnum e) => return g.ofEnum e
  | none => return g.unknown

/-- Writes a map, of which the first argument may be a proper key. -/
def writeMap (table : DeclarationTable) (key : Option TypeExpr)
    (writes : List (Registering String)) : Registering String := do
  let key ← if key.any (·.isKey table) then g.writeFirst writes else pure g.propertyKey
  let value ← g.writeFirst writes.tail
  return g.map key value

/-- Writes a name, given its arguments and what writes each of them. -/
def writeNamed (table : DeclarationTable) (nested : Bool) (name : String) (args : List TypeExpr)
    (writes : List (Registering String)) : Registering String :=
  match TypeKind.ofName name with
  | .decimal => g.writeSpecial .decimal
  | .bigInteger => g.writeSpecial .bigInteger
  | .fileUpload => g.writeSpecial .fileUpload
  | .wideInteger => g.writeSpecial .wideInteger
  | .number => return g.primitive .number
  | .text => return g.primitive .text
  | .bool => return g.primitive .bool
  | .void => return g.void nested
  | .map => g.writeMap table args.head? writes
  | .list => return g.list (← g.writeFirst writes)
  | .wrapper =>
    match writes with
    | [] => return g.unknown
    | write :: _ => do
      g.nameOptional
      return g.optional (← write)
  | .tuple => return g.tuple (← writes.mapM id)
  | .unknown => return g.unknown
  | .declared => g.writeDeclared table name writes

mutual

def write (table : DeclarationTable) (nested : Bool) : TypeExpr → Registering String
  | .wildcard => return g.unknown
  | .var n => return n
  | .named n args => g.writeNamed table nested n args (writeAll table args)

def writeAll (table : DeclarationTable) : List TypeExpr → List (Registering String)
  | [] => []
  | t :: rest => write table true t :: writeAll table rest

end

def write? (table : DeclarationTable) (nested : Bool) : Option TypeExpr → Registering String
  | some t => g.write table nested t
  | none => return g.unknown

end TypeGrammar

/-- The types of TypeScript. -/
def Ts.grammar : TypeGrammar where
  unknown := unknownType
  void := fun _ => "void"
  special := fun type => .auxiliary (Alias.ofSpecial type)
  primitive := primitiveText
  propertyKey := "PropertyKey"
  map := fun key value => "Record<" ++ key ++ ", " ++ value ++ ">"
  list := fun item => item ++ "[]"
  optionalName := some .optional
  optional := fun content => "Optional<" ++ content ++ ">"
  tuple := fun items => "[ " ++ ", ".intercalate items ++ " ]"
  ofClass := fun c args => genericText c.simpleName args
  ofEnum := fun e => e.simpleName

/-- The types of Objective-C, none of which has an auxiliary name. -/
def Oc.grammar : TypeGrammar where
  unknown := unknownType
  void := fun nested => if nested then unknownType else "void"
  special := fun type => .plain (specialText type)
  primitive := primitiveText
  propertyKey := "id<NSCopying>"
  map := fun key value => "NSDictionary<" ++ key ++ ", " ++ value ++ ">*"
  list := fun item => "NSArray<" ++ item ++ ">*"
  optionalName := none
  optional := id
  tuple := fun _ => "NSArray*"
  ofClass := fun c args => pointerText c.simpleName args
  ofEnum := fun e => if e.valueType = .number then "NSNumber*" else e.simpleName

/-- A call of the resolver: a type that may be missing, over declarations. -/
structure ResolveCall where
  table : DeclarationTable
  type : Option TypeExpr
  nested : Bool

namespace ResolveCall

def run (g : TypeGrammar) (call : ResolveCall) : Registering String :=
  g.write? call.table call.nested call.type

def runAll (g : TypeGrammar) (calls : List ResolveCall) : Registering (List String) :=
  calls.mapM (run g)

end ResolveCall

end ApiStubs
