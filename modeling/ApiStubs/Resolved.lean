import ApiStubs.Declaration.Table

/-!
# Resolved types

What a type means in generated code, apart from how a target writes it: every type gets a meaning,
and what cannot be classified or found means the unknown type.  A class has exactly as many
arguments as it declares type parameters, and a map keeps the type of its keys only if that is a
text, a number or an enum.
-/

namespace ApiStubs

/-- The types for which a target may need an auxiliary name. -/
inductive SpecialType where
  | decimal | bigInteger | fileUpload | wideInteger
deriving DecidableEq

/-- The types that every target has. -/
inductive PrimitiveType where
  | number | text | bool
deriving DecidableEq

/-- The meaning of a type. -/
inductive Resolved where
  | unknown
  | void
  | var (name : String)
  | special (type : SpecialType)
  | primitive (type : PrimitiveType)
  /-- a map; without the type of its keys if they are no proper keys -/
  | map (key : Option Resolved) (value : Resolved)
  | list (item : Resolved)
  | optional (content : Resolved)
  | tuple (items : List Resolved)
  | ofClass (c : Class) (args : List Resolved)
  | ofEnum (e : Enum)

namespace Resolved

/-- Exactly `count` types: surplus ones are dropped and missing ones unknown. -/
def fit (count : Nat) (args : List Resolved) : List Resolved :=
  args.take count ++ List.replicate (count - args.length) unknown

end Resolved

def TypeExpr.isKey (table : DeclarationTable) (t : TypeExpr) : Bool :=
  !t.isVariable &&
    (t.kind.isNumeric || t.kind = .text ||
      (t.kind = .declared && ((t.declaration? table).bind Declaration.enum?).isSome))

namespace Resolved

/-- The meaning of a declared name, given the meanings of its arguments. -/
def ofDeclared (table : DeclarationTable) (name : String) (args : List Resolved) : Resolved :=
  match table.find? name with
  | some (.ofClass c) => ofClass c (fit c.typeParameters.length args)
  | some (.ofEnum e) => ofEnum e
  | none => unknown

/-- The meaning of a map, given the meanings of its arguments and the first argument itself. -/
def ofMap (table : DeclarationTable) (key : Option TypeExpr) (args : List Resolved) : Resolved :=
  map (if key.any (·.isKey table) then args[0]? else none) (args[1]?.getD unknown)

/-- The meaning of a name, given its arguments and their meanings. -/
def ofNamed (table : DeclarationTable) (name : String) (args : List TypeExpr)
    (meanings : List Resolved) : Resolved :=
  match TypeKind.ofName name with
  | .decimal => special .decimal
  | .bigInteger => special .bigInteger
  | .fileUpload => special .fileUpload
  | .wideInteger => special .wideInteger
  | .number => primitive .number
  | .text => primitive .text
  | .bool => primitive .bool
  | .void => void
  | .map => ofMap table args.head? meanings
  | .list => list (meanings.head?.getD unknown)
  | .wrapper =>
    match meanings with
    | [] => unknown
    | content :: _ => optional content
  | .tuple => tuple meanings
  | .unknown => unknown
  | .declared => ofDeclared table name meanings

mutual

def ofType (table : DeclarationTable) : TypeExpr → Resolved
  | .wildcard => unknown
  | .var n => var n
  | .named n args => ofNamed table n args (ofTypes table args)

def ofTypes (table : DeclarationTable) : List TypeExpr → List Resolved
  | [] => []
  | t :: rest => ofType table t :: ofTypes table rest

end

/-- The meaning of a type that may be missing. -/
def ofType? (table : DeclarationTable) : Option TypeExpr → Resolved
  | some t => ofType table t
  | none => unknown

end Resolved

end ApiStubs
