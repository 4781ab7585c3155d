import ApiStubs.CommandLine.Run

/-!
# The command

The command line on real files and streams.
-/

namespace ApiStubs.Main

open CommandLine

/-- What is wrong with a file that could not be used. -/
def faultOf (e : IO.Error) : FileFault :=
  match e with
  | .alreadyExists .. => .exists
  | .inappropriateType .. => .isDirectory
  | _ => .notFound

/-- An action on a file, with its error as a value. -/
def attempt {α : Type} (path : Path) (action : IO α) : IO (Except FileError α) := do
  match path.fault? with
  | some fault => pure (.error ⟨fault, path⟩)
  | none =>
    try
      pure (.ok (← action))
    catch e => pure (.error ⟨faultOf e, path⟩)

/-- Puts a file, with the directories that lead to it. -/
def save (path : Path) (text : String) : IO Unit := do
  IO.FS.createDirAll path.parent.text
  IO.FS.writeFile path.text text

def host : Host IO where
  load := .json
  read path := attempt path (IO.FS.readFile path.text)
  save path text := attempt path (save path text)
  print s := IO.print s
  report s := IO.eprintln s

def finish : Outcome → IO UInt32
  | .done => pure 0
  | .failed => pure 1
  | .broken failure => do
    IO.eprintln failure.message
    pure 1
  | .refused e => do
    unless e.message.isEmpty do
      IO.eprintln ("typed-client-gen: error: " ++ e.message)
    pure e.exitCode.toUInt32

end ApiStubs.Main

def main (argv : List String) : IO UInt32 := do
  ApiStubs.Main.finish (← ApiStubs.CommandLine.run ApiStubs.Main.host argv)
