import ApiStubs.Json.Token
import ApiStubs.Json.Numeral

/-!
# Reading JSON

The value that a text writes.  Tokens are read one after the other by a machine whose state is the
stack of the open arrays and objects, so that a value reads the same wherever it stands.
-/

namespace ApiStubs.Json

/-- An array or object that is still open, its content so far last one first; `field` is an object
whose newest key waits for its value. -/
inductive Frame where
  | array (done : List Value)
  | object (done : List (String × Value))
  | field (done : List (String × Value)) (key : String)

/-- What may come next: a value, perhaps the end of the array instead, a key, perhaps the end of
the object instead, the colon after a key, what follows an item or field, or nothing. -/
inductive Expect where
  | value | valueOrClose | key | keyOrClose | colon | next
  | nothing (result : Value)

structure Reader where
  stack : List Frame
  expect : Expect

namespace Reader

def initial : Reader := ⟨[], .value⟩

def complete (v : Value) : List Frame → Option Reader
  | [] => some ⟨[], .nothing v⟩
  | .array done :: stack => some ⟨.array (v :: done) :: stack, .next⟩
  | .field done key :: stack => some ⟨.object ((key, v) :: done) :: stack, .next⟩
  | .object _ :: _ => none

/-- The value of a bare word.  Infinite numbers, which numerals cannot name, have words too. -/
def ofWord? (cs : List Char) : Option Value :=
  if cs = "null".toList then some .null
  else if cs = "true".toList then some (.bool true)
  else if cs = "false".toList then some (.bool false)
  else if cs = "Infinity".toList then some (.float (.infinity false))
  else if cs = "-Infinity".toList then some (.float (.infinity true))
  else Numeral.read? cs

def startValue (stack : List Frame) : Token → Option Reader
  | .openArray => some ⟨.array [] :: stack, .valueOrClose⟩
  | .openObject => some ⟨.object [] :: stack, .keyOrClose⟩
  | .string s => complete (.string s) stack
  | .word cs => (ofWord? cs).bind (complete · stack)
  | _ => none

def step (reader : Reader) (token : Token) : Option Reader :=
  match reader.expect, reader.stack, token with
  | .value, stack, token => startValue stack token
  | .valueOrClose, .array [] :: stack, .closeArray => complete (.array []) stack
  | .valueOrClose, stack, token => startValue stack token
  | .keyOrClose, .object [] :: stack, .closeObject => complete (.object []) stack
  | .keyOrClose, .object done :: stack, .string key => some ⟨.field done key :: stack, .colon⟩
  | .key, .object done :: stack, .string key => some ⟨.field done key :: stack, .colon⟩
  | .colon, stack, .colon => some ⟨stack, .value⟩
  | .next, .array done :: stack, .comma => some ⟨.array done :: stack, .value⟩
  | .next, .array done :: stack, .closeArray => complete (.array done.reverse) stack
  | .next, .object done :: stack, .comma => some ⟨.object done :: stack, .key⟩
  | .next, .object done :: stack, .closeObject => complete (.object done.reverse) stack
  | _, _, _ => none

def run (reader : Reader) : List Token → Option Reader
  | [] => some reader
  | token :: rest =>
    match reader.step token with
    | some next => next.run rest
    | none => none

def result? (reader : Reader) : Option Value :=
  match reader.expect with
  | .nothing v => some v
  | _ => none

end Reader

def read? (text : String) : Option Value := do
  let tokens ← Token.scan? text.toList
  let reader ← Reader.initial.run tokens
  reader.result?

end ApiStubs.Json
