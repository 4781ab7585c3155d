import ApiStubs.Oc.Document
import ApiStubs.Text.LetterCase
import ApiStubs.Writer.Pieces

/-!
# Writing Objective-C documents

How the parts of a document are written.
-/

namespace ApiStubs.Oc

open WriteOp

/-- A declaration of a name: the star of a pointer type stands with the name. -/
def declare (type name : String) : String :=
  match pointee? type with
  | some pointee => pointee ++ " *" ++ name
  | none => type ++ " " ++ name

def Operand.text : Operand → String
  | literal s => Text.objectQuoted s
  | name s => s

def Message.text : Message → String
  | bare selector => selector
  | labelled parts => " ".intercalate (parts.map fun p => p.1 ++ ":" ++ p.2.text)

def Message.send (message : Message) : String :=
  "[invoker " ++ message.text ++ "]"

/-- The statements of messages, of which the last one returns what it is answered unless nothing
is returned. -/
def messageLines (returnsNothing : Bool) : List Message → List String
  | [] => []
  | [message] => [(if returnsNothing then "" else "return ") ++ message.send ++ ";"]
  | message :: rest => (message.send ++ ";") :: messageLines returnsNothing rest

def MethodParameter.text (p : MethodParameter) : String :=
  p.label ++ ":(" ++ (if p.mode = .required then "" else "nullable ") ++ typeText false p.type ++
    ")" ++ p.identifier

def Method.selector (m : Method) : String :=
  if m.parameters.isEmpty then m.name else " ".intercalate (m.parameters.map MethodParameter.text)

def Method.signature (m : Method) : String :=
  "- (" ++ typeText false m.result ++ ")" ++ m.selector

def Method.interfaceOps (m : Method) : List WriteOp :=
  [comment [texts (m.title :: m.notes)], text (m.signature ++ ";")]

def Method.implementationOps (m : Method) : List WriteOp :=
  [text (m.signature ++ " \x7b"),
   block
    [texts ("NadInvoker *invoker = [[NadInvoker alloc] initWithBase:BASE];" ::
      messageLines (typeText false m.result = "void") m.messages)],
   text "\x7d"]

def ModuleClass.interfaceOps (m : ModuleClass) : List WriteOp :=
  [comment [texts [m.title, "@JavaClass " ++ m.bean]],
   text ("@interface " ++ m.name ++ " : " ++ rootClass)] ++
    m.methods.flatMap Method.interfaceOps ++
    [texts ["@end", ""]]

def ModuleClass.implementationOps (m : ModuleClass) : List WriteOp :=
  text ("@implementation " ++ m.name) :: m.methods.flatMap Method.implementationOps ++
    [texts ["@end", ""]]

def Property.ops (p : Property) : List WriteOp :=
  note p.description ++
    [text ("@property (nonatomic, assign) " ++ declare (typeText false p.type) p.identifier ++ ";")]

def Interface.interfaceOps (i : Interface) : List WriteOp :=
  [comment [texts [i.title, "@JavaClass " ++ i.className]],
   text ("@interface " ++ i.head ++ " : " ++ i.parent)] ++
    i.properties.flatMap Property.ops ++
    [texts ["@end", ""]]

def Interface.implementationOps (i : Interface) : List WriteOp :=
  [texts ["@implementation " ++ i.name, "@end", ""]]

def constantName (enumName name : String) : String :=
  enumName ++ Text.Identifier.upperCamel (Text.toAsciiLower name)

def numberConstantOps (enumName : String) (c : Constant) : List WriteOp :=
  note c.description ++ [text (constantName enumName c.name ++ " = " ++ c.value.bare ++ ",")] ++
    memo c.memo

def textConstantOps (enumName : String) (c : Constant) : List WriteOp :=
  note c.description ++
    [text ("static " ++ enumName ++ " const " ++ constantName enumName c.name ++ " = " ++
      c.value.inOc ++ ";")] ++
    memo c.memo

/-- An enum: an integer type if its values are numbers, else a type of strings. -/
def enumOps (e : Enum) : List WriteOp :=
  note e.description ++
    if e.valueType = .number then
      [text ("typedef NS_ENUM(NSInteger, " ++ e.simpleName ++ ") \x7b"),
       block (e.constants.flatMap (numberConstantOps e.simpleName)),
       texts ["\x7d;", ""]]
    else
      text ("typedef NSString *" ++ e.simpleName ++ " NS_STRING_ENUM;") ::
        e.constants.flatMap (textConstantOps e.simpleName) ++
        [text ""]

def Document.headLines (document : Document) : List String :=
  (if document.hasBanner then
    ["/* This file is generated by typed-client-gen, do not edit manually. */", ""]
   else []) ++
  ["#import <Foundation/Foundation.h>",
   "#import \"" ++ document.runtime ++ "\"",
   "",
   "static NSString *const BASE = " ++ Text.objectQuoted document.base ++ ";"] ++
  (if document.classNames.isEmpty then []
   else ["", "@class " ++ ", ".intercalate document.classNames ++ ";"]) ++
  [""]

def Document.ops (document : Document) : List WriteOp :=
  texts document.headLines ::
    document.enums.flatMap enumOps ++
    document.interfaces.flatMap Interface.interfaceOps ++
    document.modules.flatMap ModuleClass.interfaceOps ++
    document.interfaces.flatMap Interface.implementationOps ++
    document.modules.flatMap ModuleClass.implementationOps

end ApiStubs.Oc
