import ApiStubs.Resolved

/-!
# Types in Objective-C

How a resolved type is written in Objective-C.  Objects are pointers; an argument of a generic
type must be an object, so that `void` is written only where it is no argument.  An enum whose
values are numbers is an integer type and boxed where an object is needed.
-/

namespace ApiStubs.Oc

def unknownType : String := "NSObject*"

/-- The special types, none of which needs a name of its own. -/
def specialText : SpecialType → String
  | .decimal => "NSNumber*"
  | .bigInteger => "NSNumber*"
  | .fileUpload => "NSData*"
  | .wideInteger => "NSNumber*"

/-- The types that the language has itself. -/
def primitiveText : PrimitiveType → String
  | .number => "NSNumber*"
  | .text => "NSString*"
  | .bool => "NSNumber*"

def pointerText (name : String) (args : List String) : String :=
  if args.isEmpty then name ++ "*" else name ++ "<" ++ ", ".intercalate args ++ ">*"

mutual

/-- The written form of a type, `nested` if it is an argument of another one. -/
def typeText (nested : Bool) : Resolved → String
  | .unknown => unknownType
  | .void => if nested then unknownType else "void"
  | .var name => name
  | .special type => specialText type
  | .primitive type => primitiveText type
  | .map none value => "NSDictionary<id<NSCopying>, " ++ typeText true value ++ ">*"
  | .map (some key) value =>
    "NSDictionary<" ++ typeText true key ++ ", " ++ typeText true value ++ ">*"
  | .list item => "NSArray<" ++ typeText true item ++ ">*"
  | .optional content => typeText true content
  | .tuple _ => "NSArray*"
  | .ofClass c args => pointerText c.simpleName (typeTexts args)
  | .ofEnum e => if e.valueType = .number then "NSNumber*" else e.simpleName

def typeTexts : List Resolved → List String
  | [] => []
  | t :: rest => typeText true t :: typeTexts rest

end

end ApiStubs.Oc
