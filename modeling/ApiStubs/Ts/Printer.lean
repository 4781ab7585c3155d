import ApiStubs.Ts.Document
import ApiStubs.Writer.Pieces

/-!
# Writing TypeScript documents

How the parts of a document are written.
-/

namespace ApiStubs.Ts

open WriteOp

/-- An argument of a call. -/
def Operand.text : Operand → String
  | literal s => Text.singleQuoted s
  | name s => s

/-- A call of the chain, without what ends the line. -/
def Call.text (call : Call) : String :=
  "." ++ call.method ++ "(" ++ ", ".intercalate (call.operands.map Operand.text) ++ ")"

/-- The lines of a chain of calls, of which the last one ends the statement. -/
def chainLines : List Call → List String
  | [] => []
  | [call] => [call.text ++ ";"]
  | call :: rest => call.text :: chainLines rest

def StubParameter.text (p : StubParameter) : String :=
  match p.mode with
  | .required => p.identifier ++ ": " ++ typeText p.type
  | .nullable => p.identifier ++ ": " ++ typeText p.type ++ " | null"
  | .optional => p.identifier ++ "?: " ++ typeText p.type

/-- The parameter of every stub for the settings of the call. -/
def settingsParameter : String := "settings?: Partial<Settings>"

/-- The parameters of a stub, of which the last one is for the settings. -/
def Stub.parameterList (stub : Stub) : List String :=
  stub.parameters.map StubParameter.text ++ [settingsParameter]

def Stub.ops (stub : Stub) : List WriteOp :=
  [comment [texts (stub.title :: stub.notes)],
   text ("async " ++ stub.name ++ "(" ++ ", ".intercalate stub.parameterList ++ ") \x7b"),
   block
    [text ("return new NadInvoker<" ++ typeText stub.result ++ ">(BASE)"),
     block [texts (chainLines stub.calls)]],
   text "\x7d,"]

def ModuleObject.ops (m : ModuleObject) : List WriteOp :=
  [comment [texts [m.title, "@iface " ++ m.bean]],
   text ("export const " ++ m.identifier ++ " = \x7b"),
   block (m.stubs.flatMap Stub.ops),
   texts ["\x7d;", ""]]

/-- The key of a field: its name where that is an identifier, else a literal. -/
def Field.key (f : Field) : String :=
  if Text.Identifier.isLine f.name.toList then f.name else Text.singleQuoted f.name

def Field.ops (f : Field) : List WriteOp :=
  note f.description ++
    [text (f.key ++ (if f.optional then "?" else "") ++ ": " ++ typeText f.type ++ ";")]

def interfaceHead (head : String) (parent : Option Resolved) : String :=
  match parent with
  | some type => head ++ " extends " ++ typeText type
  | none => head

def TypeBody.ops (head : String) : TypeBody → List WriteOp
  | sameAs type => [texts ["export type " ++ head ++ " = " ++ typeText type ++ ";", ""]]
  | record parent [] =>
    [texts ["export interface " ++ interfaceHead head parent ++ " \x7b\x7d", ""]]
  | record parent fields =>
    [text ("export interface " ++ interfaceHead head parent ++ " \x7b"),
     block (fields.flatMap Field.ops),
     texts ["\x7d", ""]]

def TypeDefinition.ops (t : TypeDefinition) : List WriteOp :=
  comment [texts [t.title, "@iface " ++ t.className]] :: t.body.ops t.head

def constantOps (c : Constant) : List WriteOp :=
  note c.description ++ [text (c.name ++ " = " ++ c.value.inTs ++ ",")] ++ memo c.memo

def enumOps (e : Enum) : List WriteOp :=
  note e.description ++
    [text ("export enum " ++ e.simpleName ++ " \x7b"),
     block (e.constants.flatMap constantOps),
     texts ["\x7d", ""]]

def Document.headLines (document : Document) : List String :=
  (if document.hasBanner then
    ["/* This file is generated by typed-client-gen, do not edit manually. */",
     "/* eslint-disable */",
     ""]
   else []) ++
  ["import \x7b NadInvoker \x7d from " ++ document.runtime.inTs ++ ";",
   "import type \x7b Settings \x7d from " ++ document.runtime.inTs ++ ";",
   "",
   "const BASE = " ++ document.base.inTs ++ ";",
   ""]

/-- An auxiliary type. -/
def aliasOps (name definition : String) : WriteOp :=
  texts ["export type " ++ name ++ " = " ++ definition ++ ";", ""]

/-- The whole file. -/
def Document.ops (document : Document) : List WriteOp :=
  texts document.headLines ::
    document.modules.flatMap ModuleObject.ops ++
    document.types.flatMap TypeDefinition.ops ++
    document.enums.flatMap enumOps ++
    document.aliases.entries.map fun entry => aliasOps entry.1 entry.2

end ApiStubs.Ts
