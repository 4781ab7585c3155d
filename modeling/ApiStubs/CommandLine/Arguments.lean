import ApiStubs.Path
import ApiStubs.Target
import ApiStubs.Text.DecimalDigit
import ApiStubs.Text.Quoted

/-!
# Arguments

What the arguments of the command say.  Long options may be abbreviated as long as only one option
starts so, and may be joined to their value by an equals sign; short ones may be joined to it
directly, and a short one without a value to another short one.  After two dashes everything is an
operand, and of the operands the first one is the input.  Two dashes joined to an option are no
value: they leave the option blank, which is not the same as not giving it.
-/

namespace ApiStubs.CommandLine

inductive Opt where
  | help | config | target | base | output | apis | noHead | runtime
deriving DecidableEq

def spellings : List (String × Opt) :=
  [("-h", .help), ("--help", .help), ("-c", .config), ("--config", .config), ("-t", .target),
   ("--target", .target), ("-b", .base), ("--base", .base), ("-o", .output), ("--output", .output),
   ("--apis", .apis), ("--no-head", .noHead), ("--runtime-package", .runtime)]

/-- The name of an option in messages: all its spellings. -/
def Opt.display (o : Opt) : String :=
  "/".intercalate ((spellings.filter (·.2 = o)).map (·.1))

def Opt.takesValue : Opt → Bool
  | help => false
  | noHead => false
  | _ => true

inductive UsageError where
  /-- help is asked for, which is no error of its own -/
  | help
  | ambiguous (argument : String) (candidates : List String)
  | noValue (o : Opt)
  | unexpectedValue (o : Opt) (value : String)
  | invalidTarget (value : String)
  | unrecognized (arguments : List String)
deriving DecidableEq

namespace UsageError

def message : UsageError → String
  | help => ""
  | ambiguous argument candidates =>
    "ambiguous option: " ++ argument ++ " could match " ++ ", ".intercalate candidates
  | noValue o => "argument " ++ o.display ++ ": expected one argument"
  | unexpectedValue o value =>
    "argument " ++ o.display ++ ": ignored explicit argument " ++ Text.quoted value
  | invalidTarget value =>
    "argument " ++ Opt.target.display ++ ": invalid choice: " ++ Text.quoted value ++
      " (choose from " ++ ", ".intercalate (Target.names.map Text.quoted) ++ ")"
  | unrecognized arguments => "unrecognized arguments: " ++ " ".intercalate arguments

def exitCode : UsageError → Nat
  | help => 0
  | _ => 2

end UsageError

/-- What an option holds: a value, or none where it was left blank. -/
abbrev Held (α : Type) := Option α

structure Arguments where
  input : Option Path := none
  config : Option (Held Path) := none
  target : Held Target := some .ts
  base : Held String := some ""
  output : Option (Held Path) := none
  apis : Option (Held String) := none
  noHead : Bool := false
  runtime : Option (Held String) := none

/-- An argument by its form. -/
inductive Piece where
  | operand (s : String)
  /-- two dashes, before which options end -/
  | separator
  | option (o : Opt) (value : Option String)
  /-- a short option with what is joined to it -/
  | short (o : Opt) (joined : List Char)
  /-- looks like an option, but is none -/
  | unknown (s : String)

/-! ## Forms of arguments -/

/-- The text before the first equals sign, and the text after it if there is one. -/
def cutAtEquals (cs : List Char) : String × Option String :=
  match cs.dropWhile (· ≠ '=') with
  | [] => (String.ofList cs, none)
  | _ :: value => (String.ofList (cs.takeWhile (· ≠ '=')), some (String.ofList value))

def withoutLineFeed (cs : List Char) : List Char :=
  if cs.getLast? == some '\n' then cs.dropLast else cs

/-- Whether what follows a dash makes it the sign of a number, which one line feed may follow. -/
def isNumber (cs : List Char) : Bool :=
  let digits := withoutLineFeed cs
  match digits.dropWhile Text.isDecimalDigit with
  | [] => !digits.isEmpty
  | c :: places => c = '.' && !places.isEmpty && places.all Text.isDecimalDigit

/-- The form of an argument that starts with a dash and is no spelling: an abbreviation, a short
option with its value, a number, a text with blanks, or an unknown option. -/
def ofDashed (s : String) : Except UsageError Piece :=
  let cs := s.toList
  let (name, value) := cutAtEquals cs
  let candidates : List (String × Piece) :=
    if cs.take 2 = ['-', '-'] then
      (spellings.filter fun e => name.toList.isPrefixOf e.1.toList).map fun e =>
        (e.1, .option e.2 value)
    else
      (spellings.filter fun e => e.1.toList = cs.take 2).map fun e => (e.1, .short e.2 (cs.drop 2))
  match candidates with
  | [(_, piece)] => .ok piece
  | _ :: _ :: _ => .error (.ambiguous s (candidates.map (·.1)))
  | [] => .ok (if isNumber (cs.drop 1) || cs.contains ' ' then .operand s else .unknown s)

def ofArgument (s : String) : Except UsageError Piece :=
  if s.toList.head? ≠ some '-' || s = "-" then .ok (.operand s)
  else match spellings.lookup s, cutAtEquals s.toList with
    | some o, _ => .ok (.option o none)
    | none, (name, some value) =>
      match spellings.lookup name with
      | some o =>
        .ok (if name.length = 2 then .short o value.toList else .option o (some value))
      | none => ofDashed s
    | none, (_, none) => ofDashed s

def pieces : List String → Except UsageError (List Piece)
  | [] => .ok []
  | s :: rest =>
    if s = "--" then .ok (.separator :: rest.map .operand)
    else do
      let first ← ofArgument s
      let others ← pieces rest
      .ok (first :: others)

/-! ## Meaning of arguments -/

def readTarget : Held String → Except UsageError (Held Target)
  | none => .ok none
  | some name =>
    match Target.ofName? name with
    | some t => .ok (some t)
    | none => .error (.invalidTarget name)

def Arguments.set (a : Arguments) (o : Opt) (value : Held String) : Except UsageError Arguments :=
  match o with
  | .config => .ok { a with config := some (value.map .ofString) }
  | .target => do
    let target ← readTarget value
    .ok { a with target }
  | .base => .ok { a with base := value }
  | .output => .ok { a with output := some (value.map .ofString) }
  | .apis => .ok { a with apis := some value }
  | .runtime => .ok { a with runtime := some value }
  | .help => .ok a
  | .noHead => .ok a

/-- What an option holds to which a text is joined. -/
def heldOf (joined : String) : Held String :=
  if joined = "--" then none else some joined

/-- The arguments with an option that takes no value. -/
def Arguments.flag (a : Arguments) (o : Opt) : Except UsageError Arguments :=
  match o with
  | .help => .error .help
  | .noHead => .ok { a with noHead := true }
  | _ => .error (.noValue o)

/-- What becomes of a short option without a value, given what is joined to it: further short
options, of which the last one may take a value.  If there is nothing wrong with any of them, the
first one has its effect. -/
def bundleError (o : Opt) (operandFollows : Bool) : List Char → UsageError
  | [] => .help
  | c :: rest =>
    match spellings.lookup (String.ofList ['-', c]) with
    | none => .unexpectedValue o (String.ofList (c :: rest))
    | some next =>
      if next.takesValue then
        if rest.isEmpty && !operandFollows then .noValue next else .help
      else bundleError next operandFollows rest

/-- Whether the next piece can be the value of an option. -/
def startsWithOperand : List Piece → Bool
  | .operand _ :: _ => true
  | _ => false

/-- What pieces say besides the arguments so far, and the pieces that say nothing.  The separator
says nothing where the input is known before the pieces that it ends. -/
def read (a : Arguments) : List Piece → Except UsageError (Arguments × List String)
  | [] => .ok (a, [])
  | .operand s :: rest =>
    if a.input.isNone then
      match rest with
      | .separator :: rest => read { a with input := some (.ofString s) } rest
      | rest => read { a with input := some (.ofString s) } rest
    else do
      let (a, extras) ← read a rest
      .ok (a, s :: extras)
  | .separator :: rest =>
    if a.input.isNone then read a rest
    else do
      let (a, extras) ← read a rest
      .ok (a, "--" :: extras)
  | .unknown s :: rest => do
    let (a, extras) ← read a rest
    .ok (a, s :: extras)
  | .option o (some value) :: rest =>
    if o.takesValue then do read (← a.set o (heldOf value)) rest
    else .error (.unexpectedValue o value)
  | .short o joined :: rest =>
    if o.takesValue then do read (← a.set o (heldOf (String.ofList joined))) rest
    else if joined.isEmpty then .error (.unexpectedValue o "")
    else .error (bundleError o (startsWithOperand rest) joined)
  | .option o none :: rest =>
    if o.takesValue then
      match rest with
      | .operand value :: rest => do read (← a.set o (some value)) rest
      | _ => .error (.noValue o)
    else do read (← a.flag o) rest

def parse (argv : List String) : Except UsageError Arguments := do
  let (a, extras) ← read {} (← pieces argv)
  if extras.isEmpty then .ok a else .error (.unrecognized extras)

end ApiStubs.CommandLine
