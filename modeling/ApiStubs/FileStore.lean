import ApiStubs.Path
import ApiStubs.Text.Quoted

/-!
# File stores

Files and directories as far as reading definitions and writing code needs them.  A path is followed
part by part, and every part but the last must lead to a directory that is there, also where two
dots lead back out of it.  Names and paths have a greatest length, and a null character is in none.
-/

namespace ApiStubs

inductive FileFault where
  | notFound | exists | notDirectory | isDirectory | nameTooLong
  /-- a null character, which is in the name of no file -/
  | nullCharacter
deriving DecidableEq

def FileFault.message : FileFault → String
  | notFound => "[Errno 2] No such file or directory"
  | .exists => "[Errno 17] File exists"
  | notDirectory => "[Errno 20] Not a directory"
  | isDirectory => "[Errno 21] Is a directory"
  | nameTooLong => "[Errno 36] File name too long"
  | nullCharacter => "Null character in a path"

/-- A path that cannot be used, and why. -/
structure FileError where
  fault : FileFault
  path : Path
deriving DecidableEq

def FileError.message (e : FileError) : String :=
  e.fault.message ++ ": " ++ Text.quoted e.path.text

/-- The most bytes that a name can have. -/
def longestName : Nat := 255

/-- The most bytes that a path can have. -/
def longestPath : Nat := 4095

/-- What is wrong with a path whatever the files are. -/
def Path.fault? (p : Path) : Option FileFault :=
  if p.text.toList.contains '\x00' then some .nullCharacter
  else if p.text.utf8ByteSize > longestPath then some .nameTooLong
  else none

/-- Where something is: the names that lead to it from the root. -/
abbrev Location := List String

/-- Files with their texts, directories, and the directory in which relative paths start. -/
structure FileStore where
  home : Location
  files : List (Location × String)
  directories : List Location

namespace FileStore

/-- The locations on the way to a location, itself included. -/
def ancestry (l : Location) : List Location :=
  (List.range (l.length + 1)).map l.take

def empty (home : Location) : FileStore := ⟨home, [], ancestry home⟩

def isDirectory (store : FileStore) (l : Location) : Bool :=
  store.directories.contains l

def file? (store : FileStore) (l : Location) : Option String :=
  store.files.lookup l

def follow (store : FileStore) : Location → List String → Except FileFault Location
  | here, [] => .ok here
  | here, part :: rest =>
    if store.isDirectory here then
      if part.utf8ByteSize > longestName then .error .nameTooLong
      else store.follow (if part = ".." then here.dropLast else here ++ [part]) rest
    else if (store.file? here).isSome then .error .notDirectory
    else .error .notFound

def locate (store : FileStore) (p : Path) : Except FileFault Location :=
  match p.fault? with
  | some fault => .error fault
  | none => store.follow (if p.root = "" then store.home else []) p.parts

def fail {α : Type} (p : Path) (fault : FileFault) : Except FileError α :=
  .error ⟨fault, p⟩

def read (store : FileStore) (p : Path) : Except FileError String :=
  match store.locate p with
  | .error fault => fail p fault
  | .ok l =>
    match store.file? l with
    | some text => .ok text
    | none => fail p (if store.isDirectory l then .isDirectory else .notFound)

def put (store : FileStore) (l : Location) (text : String) : FileStore :=
  { store with
    files := (store.files.filter (·.1 ≠ l)) ++ [(l, text)]
    directories := store.directories ++ ancestry l.dropLast }

/-- The store with a text as the file at a path, whose directory must be there. -/
def write (store : FileStore) (p : Path) (text : String) : Except FileError FileStore :=
  match store.locate p with
  | .error fault => fail p fault
  | .ok l => if store.isDirectory l then fail p .isDirectory else .ok (store.put l text)

def makeDirectory (store : FileStore) (p : Path) : Except FileError FileStore :=
  match store.locate p with
  | .error fault => fail p fault
  | .ok l =>
    if store.isDirectory l then .ok store
    else if (store.file? l).isSome then fail p .exists
    else .ok { store with directories := store.directories ++ [l] }

/-- The store with a directory and all that lead to it.  The parts come last one first. -/
def makeParts (store : FileStore) (root : String) : List String → Except FileError FileStore
  | [] => store.makeDirectory ⟨root, []⟩
  | part :: outer =>
    match store.makeDirectory ⟨root, (part :: outer).reverse⟩ with
    | .ok made => .ok made
    | .error e =>
      if e.fault = .notFound then
        match store.makeParts root outer with
        | .ok made => made.makeDirectory ⟨root, (part :: outer).reverse⟩
        | .error e => .error e
      else .error e

def makeDirectories (store : FileStore) (p : Path) : Except FileError FileStore :=
  store.makeParts p.root p.parts.reverse

/-- The store with a text as the file at a path, with the directories that lead to it. -/
def save (store : FileStore) (p : Path) (text : String) : Except FileError FileStore :=
  match store.makeDirectories p.parent with
  | .ok made => made.write p text
  | .error e => .error e

def ofFiles (home : Location) (files : List (String × String)) : FileStore :=
  files.foldl (fun store f => store.put (home ++ (Path.ofString f.1).parts) f.2) (empty home)

/-- The files within the home directory that another store has as well but with another text, or
does not have, by their paths from home. -/
def changesFrom (store before : FileStore) : List (String × String) :=
  (store.files.filter fun f => store.home.isPrefixOf f.1 && before.file? f.1 ≠ some f.2).map
    fun f => ("/".intercalate (f.1.drop store.home.length), f.2)

end FileStore

end ApiStubs
