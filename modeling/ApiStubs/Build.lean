import ApiStubs.Model.Assembly
import ApiStubs.Model.Json
import ApiStubs.Oc.Printer
import ApiStubs.Ts.Printer

/-!
# Builds

From a graph of route definitions to the code of a target.  A build fails if there is no such
target, if the graph lacks a name, if a setting that is written as a literal is none, or if the
writer refuses what it is given.
-/

namespace ApiStubs

open Json (Value)

/-- The settings of a build besides its target, base address and graph. -/
structure BuildOptions where
  /-- leaves the banner out -/
  noHead : Bool
  /-- what the stubs import their runtime from, if not what the target has by itself -/
  runtime : Value
  /-- the beans and routes to keep; all of them if none are given -/
  apis : Option (List String)
  /-- the bindings of parameters without a binding annotation, if not the standard ones -/
  policy : Option BindingPolicy

def BuildOptions.none : BuildOptions := ⟨false, .null, Option.none, Option.none⟩

inductive BuildError where
  | invalidTarget (target : Value)
  | missing (m : Graph.Missing)
  | noLiteral (kind : Json.Kind)
  | misuse (failure : WriteFailure)

def BuildError.message : BuildError → String
  | invalidTarget target =>
    "Invalid target " ++ target.quotedText ++ ", expected one of: " ++
      ", ".intercalate Target.names
  | missing m => m.message
  | noLiteral kind => "Cannot render " ++ kind.name ++ " as a literal"
  | misuse failure => failure.message?.getD ""

/-- What a build produces: the writer at the end of the file, and the auxiliary types that were
needed. -/
structure BuildResult where
  writer : Writer
  aliases : AliasRegistry

def BuildResult.code (result : BuildResult) : String :=
  result.writer.text

namespace Build

/-- What the assembly of the model for a target depends on. -/
def modelOptions (target : Target) (options : BuildOptions) : ModelOptions :=
  ⟨target.separator, options.apis, options.policy, target.reserved⟩

/-- What the stubs import their runtime from. -/
def runtime (target : Target) (options : BuildOptions) : Value :=
  if options.runtime.isPresent then options.runtime else .string target.runtime

def literal (v : Value) : Except BuildError Literal :=
  match Literal.ofJson? v with
  | some l => .ok l
  | none => .error (.noLiteral v.kind)

def write (ops : List WriteOp) : Except BuildError Writer :=
  match WriteOp.runAll ops (.new .standard) with
  | (w, none) => .ok w
  | (_, some failure) => .error (.misuse failure)

/-- What is written for a target, and the auxiliary types that it needs. -/
structure File where
  ops : List WriteOp
  aliases : AliasRegistry

def file (target : Target) (base : Value) (options : BuildOptions) (model : Model) :
    Except BuildError File :=
  match target with
  | .ts => do
    let runtime ← literal (runtime .ts options)
    let base ← literal base
    let document := Ts.Document.ofModel (!options.noHead) runtime base model
    .ok ⟨document.ops, document.aliases⟩
  | .oc =>
    let document := Oc.Document.ofModel (!options.noHead) (runtime .oc options).text base.text model
    .ok ⟨document.ops, .empty⟩
  | .raw => .ok ⟨[.text (model.toJson base).print], .empty⟩

/-- The operations that write the file of a target for a model. -/
def operations (target : Target) (base : Value) (options : BuildOptions) (model : Model) :
    Except BuildError (List WriteOp) :=
  (file target base options model).map (·.ops)

def emit (target : Target) (base : Value) (options : BuildOptions) (model : Model) :
    Except BuildError BuildResult := do
  let file ← file target base options model
  let writer ← write file.ops
  .ok ⟨writer, file.aliases⟩

end Build

def buildTarget (target : Target) (base raw : Value) (options : BuildOptions) :
    Except BuildError BuildResult :=
  match Model.ofJson (Build.modelOptions target options) raw with
  | .ok model => Build.emit target base options model
  | .error m => .error (.missing m)

/-- The build of the target that a value names. -/
def build (target base raw : Value) (options : BuildOptions) : Except BuildError BuildResult :=
  match Target.ofJson? target with
  | some t => buildTarget t base raw options
  | none => .error (.invalidTarget target)

end ApiStubs
