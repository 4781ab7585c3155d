import ApiStubs.TypeExpr.Basic
import ApiStubs.TypeExpr.Token

/-!
# Parsing type expressions

Reading a type never fails: whatever stands where a type should is taken as a name, commas between
arguments may be missing, brackets may stay open, and what follows a whole type is left alone.

The parser is a machine over tokens.  Its state is the stack of the types whose arguments are being
read and how far the innermost one has come, so that every token is looked at once and a type reads
the same wherever it stands.
-/

namespace ApiStubs.TypeExpr

/-- A type whose arguments are being read. -/
structure Frame where
  name : String
  done : List TypeExpr

/-- How far the innermost type has come. -/
inductive Progress where
  /-- a type must follow -/
  | start
  /-- an argument or the end of the arguments may follow -/
  | argument (frame : Frame)
  /-- an argument has been read; a comma may follow, or what may follow a comma -/
  | separator (frame : Frame)
  /-- a name has been read; its arguments may follow -/
  | name (n : String)
  /-- a question mark has been read; its bound may follow -/
  | question
  /-- a type has been read; `[]` may follow -/
  | suffix (t : TypeExpr)
  /-- the outermost type is complete -/
  | finished (t : TypeExpr)

/-- The state of the parser. -/
structure Parser where
  stack : List Frame
  progress : Progress

namespace Parser

def initial : Parser := ⟨[], .start⟩

/-- The type with a name and arguments: a variable if the name is one of the variables and no
arguments follow. -/
def build (vars : List String) (frame : Frame) : TypeExpr :=
  if frame.done.isEmpty && vars.contains frame.name then .var frame.name
  else .named frame.name frame.done

/-- The parser after the token with which a type starts. -/
def begin (stack : List Frame) (token : Token) : Parser :=
  if token = .question then ⟨stack, .question⟩ else ⟨stack, .name token.text⟩

/-- The parser after a token that ends the arguments or starts the next one. -/
def argument (vars : List String) (stack : List Frame) (frame : Frame) (token : Token) :
    Parser :=
  if token = .greater then ⟨stack, .suffix (build vars frame)⟩
  else begin (frame :: stack) token

/-- The parser after a token that follows an argument. -/
def separator (vars : List String) (stack : List Frame) (frame : Frame) (token : Token) :
    Parser :=
  if token = .comma then ⟨stack, .argument frame⟩ else argument vars stack frame token

def complete (vars : List String) (stack : List Frame) (t : TypeExpr) (token : Token) :
    Parser :=
  match stack with
  | [] => ⟨[], .finished t⟩
  | frame :: rest => separator vars rest ⟨frame.name, frame.done ++ [t]⟩ token

/-- The parser after a token that follows a type which `[]` may extend. -/
def suffix (vars : List String) (stack : List Frame) (t : TypeExpr) (token : Token) :
    Parser :=
  if token = .brackets then ⟨stack, .suffix t.array⟩ else complete vars stack t token

/-- The parser after one more token. -/
def step (vars : List String) (parser : Parser) (token : Token) : Parser :=
  match parser.progress with
  | .start => begin parser.stack token
  | .argument frame => argument vars parser.stack frame token
  | .separator frame => separator vars parser.stack frame token
  | .name n =>
    if token = .less then ⟨parser.stack, .argument ⟨n, []⟩⟩
    else suffix vars parser.stack (build vars ⟨n, []⟩) token
  | .question =>
    if token = .word "extends" || token = .word "super" then ⟨parser.stack, .start⟩
    else complete vars parser.stack .wildcard token
  | .suffix t => suffix vars parser.stack t token
  | .finished _ => parser

/-- The outermost type when a text ends within the arguments of the types on the stack. -/
def close (vars : List String) (t : TypeExpr) : List Frame → TypeExpr
  | [] => t
  | frame :: rest => close vars (build vars ⟨frame.name, frame.done ++ [t]⟩) rest

/-- The type that has been read when a text ends. -/
def finish (vars : List String) (parser : Parser) : TypeExpr :=
  match parser.progress with
  | .start => close vars .wildcard parser.stack
  | .argument frame => close vars (build vars frame) parser.stack
  | .separator frame => close vars (build vars frame) parser.stack
  | .name n => close vars (build vars ⟨n, []⟩) parser.stack
  | .question => close vars .wildcard parser.stack
  | .suffix t => close vars t parser.stack
  | .finished t => t

/-- The parser after a sequence of tokens. -/
def run (vars : List String) (parser : Parser) (tokens : List Token) : Parser :=
  tokens.foldl (step vars) parser

end Parser

def ofTokens (vars : List String) (tokens : List Token) : TypeExpr :=
  (Parser.initial.run vars tokens).finish vars

/-- The type that a text writes; none if the text is blank. -/
def parse? (vars : List String) (text : String) : Option TypeExpr :=
  if Text.isBlankText text.toList then none
  else some (ofTokens vars (Token.scan text.toList))

end ApiStubs.TypeExpr
