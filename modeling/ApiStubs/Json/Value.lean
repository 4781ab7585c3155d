import ApiStubs.Number.Binary64

/-!
# JSON values

Values of the data format that route definitions and settings are written in.  Whole numbers and
floating-point numbers are kept apart, and an object keeps its fields in the order in which they
were written.
-/

namespace ApiStubs.Json

inductive Value where
  | null
  | bool (b : Bool)
  | int (n : Int)
  | float (x : Number.Binary64)
  | string (s : String)
  | array (items : List Value)
  | object (fields : List (String × Value))
deriving Inhabited

/-- What a value is, apart from which one. -/
inductive Kind where
  | null | bool | int | float | string | array | object
deriving DecidableEq

namespace Kind

def name : Kind → String
  | null => "NoneType"
  | bool => "bool"
  | int => "int"
  | float => "float"
  | string => "str"
  | array => "list"
  | object => "dict"

end Kind

namespace Value

def kind : Value → Kind
  | null => .null
  | bool _ => .bool
  | int _ => .int
  | float _ => .float
  | string _ => .string
  | array _ => .array
  | object _ => .object

def field? (key : String) : Value → Option Value
  | object fields => fields.lookup key
  | _ => none

def string? : Value → Option String
  | string s => some s
  | _ => none

def bool? : Value → Option Bool
  | bool b => some b
  | _ => none

def array? : Value → Option (List Value)
  | array items => some items
  | _ => none

def items (v : Value) : List Value :=
  v.array?.getD []

/-- The text of a string field that is not empty. -/
def text? (key : String) (v : Value) : Option String :=
  match v.field? key with
  | some (string s) => if s.isEmpty then none else some s
  | _ => none

/-- The items of the field of an object, and none if it is missing or no array. -/
def itemsOf (key : String) (v : Value) : List Value :=
  match v.field? key with
  | some w => w.items
  | none => []

/-- Whether a value is there: everything but null, false, zero and what is empty. -/
def isPresent : Value → Bool
  | null => false
  | bool b => b
  | int n => n ≠ 0
  | float x => !x.isZero
  | string s => !s.isEmpty
  | array items => !items.isEmpty
  | object fields => !fields.isEmpty

end Value

end ApiStubs.Json
