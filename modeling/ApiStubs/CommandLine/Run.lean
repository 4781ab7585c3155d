import ApiStubs.Build
import ApiStubs.CommandLine.Arguments
import ApiStubs.FileStore
import ApiStubs.Json.Reader
import ApiStubs.Settings

/-!
# Running the command

Reads the definitions of each build that is asked for, builds, and puts the code out.  The builds
run one after the other up to the first that fails.  What the command does to files and streams is
left to a host, so that it runs in the same way on real files and on a store that is a value.  The
host also has the loader that reads the texts of files: files may be written in any format that has
JSON values, and the loader of JSON is one of those there are.
-/

namespace ApiStubs.CommandLine

open Json (Value)

/-- Reads the value that a text describes, if it describes one. -/
def Loader : Type :=
  String → Option Value

/-- Reads JSON.  A text that shows nothing holds null. -/
def Loader.json : Loader := fun text =>
  if Text.isBlankText text.toList then some .null else Json.read? text

/-- What the command needs from where it runs. -/
structure Host (m : Type → Type) where
  /-- reads the values in files -/
  load : Loader
  /-- the text of a file -/
  read : Path → m (Except FileError String)
  /-- puts a file, with the directories that lead to it -/
  save : Path → String → m (Except FileError Unit)
  /-- writes to the standard output -/
  print : String → m Unit
  /-- writes a line about the progress -/
  report : String → m Unit

inductive Failure where
  | file (e : FileError)
  | settings (e : SettingsError)
  | build (e : BuildError)
  /-- there is neither an input nor a settings file -/
  | noInput
  /-- an option is blank that cannot be -/
  | blank (o : Opt)
  /-- a definitions file holds no object -/
  | noMapping (path : Path)
  /-- a file is no JSON text -/
  | notJson (path : Path)

namespace Failure

def message : Failure → String
  | file e => e.message
  | settings e => e.message
  | build e => e.message
  | noInput => "Either an input file or --config is required"
  | blank o => "argument " ++ o.display ++ ": no value"
  | noMapping path => path.text ++ " does not contain a mapping"
  | notJson path => path.text ++ " does not contain JSON"

/-- The name of the missing field, if one is missing. -/
def field? : Failure → Option String
  | settings e => e.field?
  | build (.missing m) => some m.field
  | noInput => some "input"
  | noMapping _ => some "routes"
  | _ => none

/-- Whether a failure is one that the command expects and reports.  It does not expect values of a
kind that cannot be used in their place, blank options, malformed addresses, nor null characters in
paths. -/
def isExpected : Failure → Bool
  | file e => e.fault ≠ .nullCharacter
  | blank _ => false
  | settings (.wrongKind _) => false
  | settings (.malformedUrl _) => false
  | build (.noLiteral _) => false
  | _ => true

end Failure

inductive Outcome where
  /-- all builds are done -/
  | done
  /-- a failure has been reported -/
  | failed
  /-- a failure that the command does not expect -/
  | broken (failure : Failure)
  /-- the arguments are refused -/
  | refused (e : UsageError)

namespace Loader

variable (load : Loader)

def value (path : Path) (text : String) : Except Failure Value :=
  match load text with
  | some v => .ok v
  | none => .error (.notJson path)

/-- The definitions in a file's text, which must be an object. -/
def definitions (path : Path) (text : String) : Except Failure Value := do
  match ← load.value path text with
  | .object fields => .ok (.object fields)
  | _ => .error (.noMapping path)

/-- The builds that a settings file's text asks for. -/
def settings (path : Path) (text : String) : Except Failure (List Settings) := do
  match Settings.ofJson path.parent (← load.value path text) with
  | .ok settings => .ok settings
  | .error e => .error (.settings e)

end Loader

/-- The definitions in a file that holds JSON. -/
def definitionsOf (path : Path) (text : String) : Except Failure Value :=
  Loader.json.definitions path text

/-- The builds that a settings file asks for that holds JSON. -/
def settingsOf (path : Path) (text : String) : Except Failure (List Settings) :=
  Loader.json.settings path text

/-- A build to run: its settings, and the options that were left blank although it needs them. -/
structure Job where
  settings : Settings
  blank : List Opt

def blankOptions (a : Arguments) : List Opt :=
  (if a.target.isNone then [.target] else []) ++ (if a.output = some none then [.output] else [])

/-- The address that arguments give; none is no address. -/
def urlOfArguments (a : Arguments) : Except Failure String :=
  let base := a.base.getD ""
  if base.isEmpty then .ok ""
  else match Settings.readUrl (.string base) with
    | .ok url => .ok url
    | .error e => .error (.settings e)

def runtimeOfArguments (a : Arguments) : Value :=
  match a.runtime with
  | none => .null
  | some none => .array []
  | some (some s) => .string s

/-- The build that arguments without a settings file ask for. -/
def jobOfArguments (a : Arguments) : Except Failure Job :=
  match a.input with
  | none => .error .noInput
  | some input => do
    let url ← urlOfArguments a
    let settings : Settings := {
      target := a.target.getD .ts
      url
      input
      output := a.output.getD none
      apis := a.apis.map fun held => (held.map Settings.splitApis).getD []
      noHead := a.noHead
      runtime := runtimeOfArguments a }
    .ok ⟨settings, blankOptions a⟩

def buildOptions (settings : Settings) : BuildOptions :=
  ⟨settings.noHead, settings.runtime, settings.apis, none⟩

/-- The result of a build.  A target that was left blank is the empty list, which names no
target. -/
def Job.build (job : Job) (raw : Value) : Except BuildError BuildResult :=
  let settings := job.settings
  if job.blank.contains .target then .error (.invalidTarget (.array []))
  else buildTarget settings.target (.string settings.url) raw (buildOptions settings)

/-- The code of a build for the definitions in a file's text. -/
def codeOf (load : Loader) (job : Job) (text : String) : Except Failure String := do
  let raw ← load.definitions job.settings.input text
  match job.build raw with
  | .ok result => .ok result.code
  | .error e => .error (.build e)

section

variable {m : Type → Type} [Monad m]

/-- The result of a step on the text of a file. -/
def onFile {α : Type} (host : Host m) (path : Path) (f : String → Except Failure α) :
    m (Except Failure α) := do
  match ← host.read path with
  | .ok text => pure (f text)
  | .error e => pure (.error (.file e))

/-- The builds that arguments ask for.  A settings file takes precedence. -/
def jobsFor (host : Host m) (a : Arguments) : m (Except Failure (List Job)) :=
  match a.config with
  | some (some path) =>
    onFile host path fun text => (host.load.settings path text).map fun all => all.map (⟨·, []⟩)
  | some none => pure (.error (.blank .config))
  | none => pure ((jobOfArguments a).map ([·]))

/-- Puts code out: on the standard output, or into a file. -/
def putOut (host : Host m) (job : Job) (code : String) : m (Except Failure Unit) :=
  if job.blank.contains .output then pure (.error (.blank .output))
  else match job.settings.output with
  | none => do
    host.print (code ++ "\n")
    pure (.ok ())
  | some path => do
    match ← host.save path code with
    | .ok () =>
      host.report ("  -> Generated " ++ path.text)
      pure (.ok ())
    | .error e => pure (.error (.file e))

def runOne (host : Host m) (job : Job) : m (Except Failure Unit) := do
  let input := job.settings.input
  host.report ("Loading definitions from " ++ input.text ++ "...")
  match ← onFile host input (codeOf host.load job) with
  | .ok code => putOut host job code
  | .error e => pure (.error e)

/-- Runs builds up to the first that fails. -/
def runAll (host : Host m) : List Job → m (Except Failure Unit)
  | [] => pure (.ok ())
  | job :: rest => do
    match ← runOne host job with
    | .ok () => runAll host rest
    | .error e => pure (.error e)

/-- How the command ends after a result, having reported a failure that it expects. -/
def conclude (host : Host m) : Except Failure Unit → m Outcome
  | .ok () => pure .done
  | .error e =>
    if e.isExpected then do
      host.report ("Error: " ++ e.message)
      pure .failed
    else pure (.broken e)

def run (host : Host m) (argv : List String) : m Outcome :=
  match parse argv with
  | .error e => pure (.refused e)
  | .ok a => do
    match ← jobsFor host a with
    | .ok jobs => conclude host (← runAll host jobs)
    | .error e => conclude host (.error e)

end

/-! ## On a store -/

/-- A store of files with what has been written to the streams. -/
structure Session where
  store : FileStore
  output : List String
  reports : List String

def sessionHost (load : Loader) : Host (StateM Session) where
  load
  read path := do pure ((← get).store.read path)
  save path text := do
    let session ← get
    match session.store.save path text with
    | .ok store =>
      set { session with store }
      pure (.ok ())
    | .error e => pure (.error e)
  print s := modify fun session => { session with output := session.output ++ [s] }
  report s := modify fun session => { session with reports := session.reports ++ [s] }

/-- Runs the command on a store of files. -/
def runWith (load : Loader) (store : FileStore) (argv : List String) : Outcome × Session :=
  Id.run ((run (sessionHost load) argv).run ⟨store, [], []⟩)

/-- Runs the command on a store of files that hold JSON. -/
def runOn (store : FileStore) (argv : List String) : Outcome × Session :=
  runWith .json store argv

end ApiStubs.CommandLine
