import ApiStubs.Json.Value
import ApiStubs.Text.Hex

/-!
# JSON tokens

A text as the sequence of its brackets, marks, strings and bare words.  The scanner is a machine
that takes one character at a time, so that it ends with the text whatever the text is.
-/

namespace ApiStubs.Json

inductive Token where
  | openArray | closeArray | openObject | closeObject | comma | colon
  | string (s : String)
  | word (cs : List Char)

namespace Token

def ofMark? : Char → Option Token
  | '[' => some openArray
  | ']' => some closeArray
  | '\x7b' => some openObject
  | '\x7d' => some closeObject
  | ',' => some comma
  | ':' => some colon
  | _ => none

/-- The characters that may stand between tokens. -/
def isGap (c : Char) : Bool :=
  c = ' ' || c = '\t' || c = '\n' || c = '\r'

/-- The character that an escape letter stands for. -/
def escaped? : Char → Option Char
  | '\"' => some '\"'
  | '\\' => some '\\'
  | '/' => some '/'
  | 'b' => some '\x08'
  | 'f' => some '\x0c'
  | 'n' => some '\n'
  | 'r' => some '\r'
  | 't' => some '\t'
  | _ => none

/-- What the scanner is in the middle of.  The characters of a word or string come last one first;
`lead` is the first unit of a surrogate pair whose second one must follow. -/
inductive Scan where
  | between
  | word (done : List Char)
  | string (done : List Char) (lead : Option Nat)
  | escape (done : List Char) (lead : Option Nat)
  | unit (done : List Char) (lead : Option Nat) (missing value : Nat)

/-- The string so far after a whole `\uNNNN`; none if it leaves half a surrogate pair. -/
def addUnit (done : List Char) (lead : Option Nat) (value : Nat) : Option Scan :=
  match lead with
  | some high =>
    if 0xDC00 ≤ value && value < 0xE000 then
      let code := 0x10000 + (high - 0xD800) * 0x400 + (value - 0xDC00)
      some (.string (Char.ofNat code :: done) none)
    else none
  | none =>
    if 0xD800 ≤ value && value < 0xDC00 then some (.string done (some value))
    else if 0xDC00 ≤ value && value < 0xE000 then none
    else some (.string (Char.ofNat value :: done) none)

def start (c : Char) : Option (List Token × Scan) :=
  if isGap c then some ([], .between)
  else if c = '\"' then some ([], .string [] none)
  else match ofMark? c with
    | some token => some ([token], .between)
    | none => some ([], .word [c])

/-- The tokens that a character completes and what the scanner is in the middle of after it. -/
def step : Scan → Char → Option (List Token × Scan)
  | .between, c => start c
  | .word done, c =>
    if isGap c || c = '\"' || (ofMark? c).isSome then
      (start c).map fun (tokens, scan) => (word done.reverse :: tokens, scan)
    else some ([], .word (c :: done))
  | .string done none, c =>
    if c = '\"' then some ([string (String.ofList done.reverse)], .between)
    else if c = '\\' then some ([], .escape done none)
    else if c.toNat < 0x20 then none
    else some ([], .string (c :: done) none)
  | .string done (some lead), c =>
    if c = '\\' then some ([], .escape done (some lead)) else none
  | .escape done lead, c =>
    if c = 'u' then some ([], .unit done lead 3 0)
    else match lead, escaped? c with
      | none, some d => some ([], .string (d :: done) none)
      | _, _ => none
  | .unit done lead missing value, c =>
    match Text.Hex.value? c, missing with
    | none, _ => none
    | some d, 0 => (addUnit done lead (16 * value + d)).map (([], ·))
    | some d, m + 1 => some ([], .unit done lead m (16 * value + d))

/-- The tokens at the end of a text; none inside a string. -/
def finish : Scan → Option (List Token)
  | .between => some []
  | .word done => some [word done.reverse]
  | _ => none

/-- The scanner over a text; `done` holds the tokens so far, last one first. -/
def scanFrom (done : List Token) (scan : Scan) : List Char → Option (List Token)
  | [] => (finish scan).map fun last => done.reverse ++ last
  | c :: rest =>
    match step scan c with
    | some (tokens, next) => scanFrom (tokens.reverse ++ done) next rest
    | none => none

def scan? (cs : List Char) : Option (List Token) :=
  scanFrom [] .between cs

end Token

end ApiStubs.Json
