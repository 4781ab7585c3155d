import ApiStubs.Writer.Basic

/-!
# Writing operations

What is written, as a tree: texts, blocks and comments around further operations, and amendments
of the last line.  An operation can fail, which ends the ones around it as well; but however it
ends, the margins afterwards are those before.
-/

namespace ApiStubs

/-- What a write is given: nothing, a text, or something that is no text. -/
inductive WriteItem where
  | nothing
  | text (s : String)
  | other (kind : Json.Kind)

/-- An operation on a writer. -/
inductive WriteOp where
  /-- writes texts -/
  | write (items : List WriteItem)
  /-- writes under the indent unit -/
  | block (body : List WriteOp)
  /-- writes between the delimiters of a comment -/
  | comment (body : List WriteOp)
  /-- a block whose body is handed over -/
  | blockBy (body : List WriteOp)
  /-- a comment whose body is handed over -/
  | commentBy (body : List WriteOp)
  /-- a block for which something is handed over that cannot be run -/
  | blockByValue (kind : Json.Kind)
  /-- a comment for which something is handed over that cannot be run -/
  | commentByValue (kind : Json.Kind)
  /-- replaces the last line by what is made of it; the change may fail -/
  | amend (change : String → Option String)
  /-- fails -/
  | fail
deriving Inhabited

/-- Why an operation failed. -/
inductive WriteFailure where
  /-- something that is no text was to be written -/
  | notText (kind : Json.Kind)
  /-- the body of a comment cannot be run -/
  | noCommentBody (kind : Json.Kind)
  /-- the body of a block cannot be run -/
  | noBlockBody (kind : Json.Kind)
  /-- there is no line to amend -/
  | nothingToAmend
  /-- the operation gave up, or the change of a line did -/
  | gaveUp
deriving DecidableEq

/-- The message about a failure; none if it has no text of its own. -/
def WriteFailure.message? : WriteFailure → Option String
  | notText kind => some ("write() expects str or None, got " ++ kind.name)
  | noCommentBody kind => some ("write_comment() expects a callable, got " ++ kind.name)
  | nothingToAmend => some "amend() called before anything was written"
  | noBlockBody _ => none
  | gaveUp => none

namespace Writer

/-- The writer after a list of items, up to the first that is no text. -/
def writeItems (w : Writer) : List WriteItem → Writer × Option WriteFailure
  | [] => (w, none)
  | .nothing :: rest => w.writeItems rest
  | .text s :: rest => (w.writeText s).writeItems rest
  | .other kind :: _ => (w, some (.notText kind))

/-- The writer with its last line changed. -/
def amend (w : Writer) (change : String → Option String) : Writer × Option WriteFailure :=
  match w.last? with
  | none => (w, some .nothingToAmend)
  | some line =>
    match change line with
    | some changed => ({ w with lines := w.lines.pop.push changed }, none)
    | none => (w, some .gaveUp)

def openBlock (w : Writer) : Writer :=
  w.push w.style.indentUnit

/-- The writer after a block, given how its body ended. -/
def closeBlock (body : Writer × Option WriteFailure) : Writer × Option WriteFailure :=
  (body.1.pop, body.2)

def openComment (w : Writer) : Writer :=
  (w.writeText w.style.comment.opening).push w.style.comment.margin

/-- The writer after a comment, given how its body ended.  A failed comment stays open. -/
def closeComment (body : Writer × Option WriteFailure) : Writer × Option WriteFailure :=
  match body.2 with
  | none => (body.1.pop.writeText body.1.style.comment.closing, none)
  | some failure => (body.1.pop, some failure)

end Writer

namespace WriteOp

mutual

def run : WriteOp → Writer → Writer × Option WriteFailure
  | write items, w => w.writeItems items
  | block body, w => Writer.closeBlock (runAll body w.openBlock)
  | blockBy body, w => Writer.closeBlock (runAll body w.openBlock)
  | comment body, w => Writer.closeComment (runAll body w.openComment)
  | commentBy body, w => Writer.closeComment (runAll body w.openComment)
  | blockByValue kind, w => (w, some (.noBlockBody kind))
  | commentByValue kind, w => (w, some (.noCommentBody kind))
  | amend change, w => w.amend change
  | fail, w => (w, some .gaveUp)

/-- The writer after operations in order, up to the first that fails. -/
def runAll : List WriteOp → Writer → Writer × Option WriteFailure
  | [], w => (w, none)
  | op :: rest, w =>
    match run op w with
    | (v, none) => runAll rest v
    | (v, some failure) => (v, some failure)

end

end WriteOp

/-- An operation that has ended, the writer after it, and why it failed if it did. -/
structure WriteStep where
  op : WriteOp
  writer : Writer
  failure : Option WriteFailure

namespace WriteOp

def ending (op : WriteOp) (w : Writer) : WriteStep :=
  ⟨op, (op.run w).1, (op.run w).2⟩

mutual

/-- The operations of a tree that end, in the order in which they do. -/
def history : WriteOp → Writer → List WriteStep
  | block body, w => historyOfAll body w.openBlock ++ [(block body).ending w]
  | blockBy body, w => historyOfAll body w.openBlock ++ [(blockBy body).ending w]
  | comment body, w => historyOfAll body w.openComment ++ [(comment body).ending w]
  | commentBy body, w => historyOfAll body w.openComment ++ [(commentBy body).ending w]
  | op, w => [op.ending w]

/-- The operations of several trees that end, up to the first that fails. -/
def historyOfAll : List WriteOp → Writer → List WriteStep
  | [], _ => []
  | op :: rest, w =>
    history op w ++
      match run op w with
      | (v, none) => historyOfAll rest v
      | (_, some _) => []

end

end WriteOp

namespace Writer

/-- The writer after operations of which each is tried whether or not those before it failed. -/
def runEach (w : Writer) (ops : List WriteOp) : Writer :=
  ops.foldl (fun v op => (op.run v).1) w

/-- The operations that end when each one is tried whether or not those before it failed. -/
def historyOfEach : Writer → List WriteOp → List WriteStep
  | _, [] => []
  | w, op :: rest => op.history w ++ (op.run w).1.historyOfEach rest

end Writer

end ApiStubs
