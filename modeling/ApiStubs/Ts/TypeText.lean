import ApiStubs.Alias

/-!
# Types in TypeScript

How a resolved type is written in TypeScript.
-/

namespace ApiStubs.Ts

def unknownType : String := "unknown"

/-- The name of an auxiliary type where it is used without arguments. -/
def specialText (type : SpecialType) : String :=
  (Alias.ofSpecial type).name

/-- The types that the language has itself. -/
def primitiveText : PrimitiveType → String
  | .number => "number"
  | .text => "string"
  | .bool => "boolean"

def genericText (name : String) (args : List String) : String :=
  if args.isEmpty then name else name ++ "<" ++ ", ".intercalate args ++ ">"

mutual

def typeText : Resolved → String
  | .unknown => unknownType
  | .void => "void"
  | .var name => name
  | .special type => specialText type
  | .primitive type => primitiveText type
  | .map none value => "Record<PropertyKey, " ++ typeText value ++ ">"
  | .map (some key) value => "Record<" ++ typeText key ++ ", " ++ typeText value ++ ">"
  | .list item => typeText item ++ "[]"
  | .optional content => "Optional<" ++ typeText content ++ ">"
  | .tuple items => "[ " ++ ", ".intercalate (typeTexts items) ++ " ]"
  | .ofClass c args => genericText c.simpleName (typeTexts args)
  | .ofEnum e => e.simpleName

/-- The written forms of several types. -/
def typeTexts : List Resolved → List String
  | [] => []
  | t :: rest => typeText t :: typeTexts rest

end

end ApiStubs.Ts
