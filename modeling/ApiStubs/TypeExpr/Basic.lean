/-!
# Type expressions

A type as a route definition writes it: a name with type arguments, a type variable, or the
wildcard `?`.  An array is the name `[]` with the element type as its argument.
-/

namespace ApiStubs

/-- One occurrence of a type. -/
inductive TypeExpr where
  | wildcard
  | var (name : String)
  | named (name : String) (args : List TypeExpr)
deriving Inhabited

namespace TypeExpr

def arrayName : String := "[]"

def array (element : TypeExpr) : TypeExpr :=
  named arrayName [element]

/-- The name of a type without its arguments. -/
def name : TypeExpr → String
  | wildcard => "?"
  | var n => n
  | named n _ => n

/-- The arguments of a type. -/
def args : TypeExpr → List TypeExpr
  | wildcard => []
  | var _ => []
  | named _ as => as

def isVariable : TypeExpr → Bool
  | var _ => true
  | _ => false

mutual

/-- The number of nodes of a type. -/
def size : TypeExpr → Nat
  | wildcard => 1
  | var _ => 1
  | named _ as => sizeAll as + 1

/-- The number of nodes of several types. -/
def sizeAll : List TypeExpr → Nat
  | [] => 0
  | t :: rest => t.size + sizeAll rest

end

mutual

/-- The written form of a type: arguments stand between angle brackets, and an array is its first
argument with `[]` after it. -/
def text : TypeExpr → String
  | wildcard => "?"
  | var n => n
  | named n [] => n
  | named n (t :: rest) =>
    if n = arrayName then t.text ++ arrayName
    else n ++ "<" ++ t.text ++ moreText rest ++ ">"

/-- The written form of the arguments after the first one. -/
def moreText : List TypeExpr → String
  | [] => ""
  | t :: rest => ", " ++ t.text ++ moreText rest

end

end TypeExpr

end ApiStubs
