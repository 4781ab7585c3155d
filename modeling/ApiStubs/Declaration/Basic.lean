import ApiStubs.Annotations.Record
import ApiStubs.TypeExpr.Kind

/-!
# Declarations

The classes and enums that a graph of route definitions declares.  A record is what the graph
says; the declaration made from it has a simple name of its own besides.
-/

namespace ApiStubs

structure Member where
  name : String
  type : Option TypeExpr
  optional : Bool
  description : String

/-- A class as the graph declares it. -/
structure ClassRecord where
  name : String
  typeParameters : List String
  superclass : Option TypeExpr
  members : List Member
  description : String
  annotations : List AnnotationRecord

/-- A class with the simple name under which generated code knows it. -/
structure Class extends ClassRecord where
  simpleName : String

/-- The simple name of a class with its type parameters. -/
def Class.head (c : Class) : String :=
  if c.typeParameters.isEmpty then c.simpleName
  else c.simpleName ++ "<" ++ ", ".intercalate c.typeParameters ++ ">"

/-- What the values of an enum are in transit. -/
inductive ValueType where
  | string | number | unknown
deriving DecidableEq

def ValueType.name : ValueType → String
  | string => "string"
  | number => "number"
  | unknown => "unknown"

structure Constant where
  name : String
  raw : Json.Value
  description : String
  memo : String

/-- A value that a literal can hold. -/
inductive Literal where
  | text (s : String)
  | int (n : Int)
  | float (x : Number.Binary64)
  | bool (b : Bool)

/-- The literal of a constant: its value if that is a text or a number, else its name. -/
def Constant.value (c : Constant) : Literal :=
  match c.raw with
  | .string s => .text s
  | .int n => .int n
  | .float x => .float x
  | _ => .text c.name

def Constant.valueType (c : Constant) : ValueType :=
  match c.raw with
  | .string _ => .string
  | .int _ => .number
  | .float _ => .number
  | _ => .unknown

/-- What the values of constants are in transit if they agree, and unknown otherwise. -/
def ValueType.ofConstants : List Constant → ValueType
  | [] => .unknown
  | c :: rest => if rest.all (·.valueType = c.valueType) then c.valueType else .unknown

/-- An enum as the graph declares it. -/
structure EnumRecord where
  name : String
  constants : List Constant
  valueType : ValueType
  description : String
  annotations : List AnnotationRecord

/-- An enum with the simple name under which generated code knows it. -/
structure Enum extends EnumRecord where
  simpleName : String

inductive Declaration where
  | ofClass (c : Class)
  | ofEnum (e : Enum)

namespace Declaration

def name : Declaration → String
  | ofClass c => c.name
  | ofEnum e => e.name

/-- The name of a declaration in generated code. -/
def simpleName : Declaration → String
  | ofClass c => c.simpleName
  | ofEnum e => e.simpleName

def class? : Declaration → Option Class
  | ofClass c => some c
  | ofEnum _ => none

def enum? : Declaration → Option Enum
  | ofClass _ => none
  | ofEnum e => some e

end Declaration

end ApiStubs
