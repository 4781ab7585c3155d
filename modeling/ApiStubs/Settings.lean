import ApiStubs.Json.Display
import ApiStubs.Path
import ApiStubs.Target
import ApiStubs.Text.Blank
import ApiStubs.Url

/-!
# Settings

The builds that a settings file lists.  Each entry names a target, an address and an input; paths
are taken relative to the directory of the file.
-/

namespace ApiStubs

open Json (Value)

/-- One build that is asked for. -/
structure Settings where
  target : Target
  url : String
  input : Path
  output : Option Path
  apis : Option (List String)
  noHead : Bool
  runtime : Value

inductive SettingsError where
  /-- there is no list of targets, or an empty one -/
  | noTargets
  /-- an entry lacks a field -/
  | missing (path key : String)
  /-- there is no such target -/
  | invalidTarget (target : Value)
  /-- the address is not an absolute one of a known scheme -/
  | invalidUrl (url : Value)
  /-- the authority of the address is malformed -/
  | malformedUrl (url : Value)
  /-- a value has a kind that cannot be used in its place -/
  | wrongKind (kind : Json.Kind)

namespace SettingsError

/-- The name of the missing field, if one is missing. -/
def field? : SettingsError → Option String
  | noTargets => some "targets"
  | missing path key => some (path ++ "." ++ key)
  | _ => none

def message : SettingsError → String
  | noTargets => "Missing required field: targets"
  | missing path key => "Missing required field: " ++ path ++ "." ++ key
  | invalidTarget target =>
    "Invalid target " ++ target.quotedText ++ ", expected one of: " ++ ", ".intercalate Target.names
  | invalidUrl url =>
    "Invalid URL " ++ url.quotedText ++ ", expected an absolute http or https URL"
  | malformedUrl url => "Malformed URL " ++ url.quotedText
  | wrongKind kind => "Unexpected " ++ kind.name

end SettingsError

namespace Settings

/-- The entries of a filter in one text: what stands between commas, without blanks around it and
without empty entries. -/
def splitApis (s : String) : List String :=
  let entries := (Text.splitAtEach ',' s.toList).map Text.trim
  (entries.filter (!·.isEmpty)).map String.ofList

/-- The filter that a value describes: none, a text, a list of entries, or the keys of an object. -/
def readApis : Value → Except SettingsError (Option (List String))
  | .null => .ok none
  | .string s => .ok (some (splitApis s))
  | .array items => .ok (some (items.map Value.text))
  | .object fields => .ok (some (fields.map (·.1)))
  | v => .error (.wrongKind v.kind)

/-- The address that a value gives. -/
def readUrl (v : Value) : Except SettingsError String :=
  match Url.fault? v.text with
  | none => .ok v.text
  | some .malformed => .error (.malformedUrl v)
  | some .notAbsolute => .error (.invalidUrl v)

def readTarget (v : Value) : Except SettingsError Target :=
  match v.kind, Target.ofJson? v with
  | _, some t => .ok t
  | .array, none => .error (.wrongKind .array)
  | .object, none => .error (.wrongKind .object)
  | _, none => .error (.invalidTarget v)

/-- The path that a value gives, seen from a directory. -/
def readPath (directory : Path) (v : Value) : Except SettingsError Path :=
  match v with
  | .string s => .ok (directory.join (.ofString s))
  | _ => .error (.wrongKind v.kind)

def readPath? (directory : Path) (v : Value) : Except SettingsError (Option Path) :=
  if v.isPresent then (readPath directory v).map some else .ok none

/-- A field that an entry cannot do without. -/
def readRequired (entry : Value) (place key : String) : Except SettingsError Value :=
  match entry.field? key with
  | some v => if v.isPresent then .ok v else .error (.missing place key)
  | none => .error (.missing place key)

/-- The build that an entry asks for.  The entry's place in the file is named in errors. -/
def ofEntry (directory : Path) (place : String) (entry : Value) :
    Except SettingsError Settings := do
  let targetValue ← readRequired entry place "target"
  let urlValue ← readRequired entry place "url"
  let inputValue ← readRequired entry place "input"
  let target ← readTarget targetValue
  let url ← readUrl urlValue
  let input ← readPath directory inputValue
  let output ← readPath? directory ((entry.field? "output").getD .null)
  let apis ← readApis ((entry.field? "apis").getD .null)
  .ok {
    target, url, input, output, apis
    noHead := ((entry.field? "no_head").getD .null).isPresent
    runtime := (entry.field? "runtime_pkg_name").getD .null }

/-- The builds of entries of which the first one has the given index. -/
def ofEntries (directory : Path) : Nat → List Value → Except SettingsError (List Settings)
  | _, [] => .ok []
  | i, entry :: rest => do
    let first ← ofEntry directory ("targets[" ++ toString i ++ "]") entry
    let others ← ofEntries directory (i + 1) rest
    .ok (first :: others)

/-- The builds that a settings file in a directory asks for. -/
def ofJson (directory : Path) (v : Value) : Except SettingsError (List Settings) :=
  match v.itemsOf "targets" with
  | [] => .error .noTargets
  | entries => ofEntries directory 0 entries

end Settings

end ApiStubs
