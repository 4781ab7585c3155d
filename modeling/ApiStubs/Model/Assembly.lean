import ApiStubs.Annotations.Mapping
import ApiStubs.Graph.Decode
import ApiStubs.Grouping
import ApiStubs.Model.Basic
import ApiStubs.Namer
import ApiStubs.Text.Identifier

/-!
# Assembly of models

From a graph to the model of a build.  A graph that could be decoded always has a model.  Simple
names are handed out to classes and then to enums, also where a declaration is not kept because its
qualified name was declared before.
-/

namespace ApiStubs.Assembly

open Text

/-- Whether an entry of a filter selects a route: it names the bean, the simple name of the bean,
or the bean and the route with `.` or `#` between them. -/
def selects (bean route : String) (entry : String) : Bool :=
  entry = bean || entry = Identifier.simpleName bean || entry = bean ++ "." ++ route ||
    entry = bean ++ "#" ++ route

def keeps (apis : Option (List String)) (bean route : String) : Bool :=
  match apis with
  | none => true
  | some entries => entries.any (selects bean route)

def table (separator : String) (graph : Graph) : DeclarationTable :=
  let (classNames, namer) := (Namer.new separator).takeAll
    (graph.classes.map fun c => Identifier.simpleName c.name)
  let (enumNames, _) := namer.takeAll (graph.enums.map fun e => Identifier.simpleName e.name)
  .ofList
    (List.zipWith (fun c simpleName => .ofClass { toClassRecord := c, simpleName })
        graph.classes classNames ++
      List.zipWith (fun e simpleName => .ofEnum { toEnumRecord := e, simpleName })
        graph.enums enumNames)

/-- The binding of a parameter: by its annotations, else by the policy. -/
def binding (options : ModelOptions) (table : DeclarationTable) (method : String)
    (p : ParameterRecord) : Binding :=
  (Binding.ofRecords? p.name p.annotations).getD
    (Binding.ofPolicy (options.policy.getD .standard) table method p.name p.type)

/-- A parameter of a route with a given method.  One that the server supplies has no action; any
other is required if its binding is and has no default value. -/
def parameter (options : ModelOptions) (table : DeclarationTable) (method : String)
    (p : ParameterRecord) : Parameter :=
  if p.type.any fun t => injectedTypeNames.contains t.name then
    ⟨p.name, p.type, false, none, p.description⟩
  else
    let binding := binding options table method p
    ⟨p.name, p.type, binding.required && binding.defaultValue.isNone, binding.action p.type,
      p.description⟩

/-- The method of a route: that of its mapping, else the first one listed, else `GET`. -/
def method (mapping : Option RequestMapping) (methods : List String) : String :=
  match (mapping.bind (·.method)).filter (!·.isEmpty), methods with
  | some m, _ => m
  | none, m :: _ => toUpper m
  | none, [] => "GET"

/-- The pattern of a route: the first one listed, else that of its mapping. -/
def pattern (mapping : Option RequestMapping) : List String → String
  | p :: _ => p
  | [] => (mapping.map (·.pattern)).getD ""

/-- The content type of a request: that of the mapping, else the one for files if there are any. -/
def contentType (mapping : Option RequestMapping) (parameters : List Parameter) :
    Option String :=
  match mapping.bind (·.consumes) with
  | some type => some type
  | none =>
    if parameters.any fun p => p.action.any (·.kind = .file) then some "multipart/form-data"
    else none

def route (options : ModelOptions) (table : DeclarationTable) (r : RouteRecord)
    (uniqueName : String) : Route :=
  let mapping := RequestMapping.ofRecords? r.annotations
  let method := method mapping r.methods
  let parameters := r.parameters.map (parameter options table method)
  { bean := r.bean
    name := r.name
    uniqueName
    method
    pattern := pattern mapping r.patterns
    mapped := mapping.isSome
    contentType := contentType mapping parameters
    description := r.description
    returnType := r.returnType
    parameters }

def routes (options : ModelOptions) (table : DeclarationTable) (records : List RouteRecord) :
    List Route :=
  let kept := records.filter fun r => keeps options.apis r.bean r.name
  let (names, _) := (Namer.new options.separator).takeAll (kept.map (·.name))
  List.zipWith (route options table) kept names

def moduleIdentifier (reserved : List String) (bean : String) : String :=
  Identifier.repair reserved (Identifier.moduleName bean)

def modules (options : ModelOptions) (routes : List Route) : List Module :=
  let groups := groupBy (·.bean) routes
  let (identifiers, _) := (Namer.new options.separator).takeAll
    (groups.map fun g => moduleIdentifier options.reserved g.1)
  List.zipWith (fun g identifier => ⟨g.1, Identifier.simpleName g.1, identifier, g.2⟩)
    groups identifiers

/-- The types that routes mention: of each route those of its parameters and then the one it
returns. -/
def routeTypes (routes : List Route) : List TypeExpr :=
  routes.flatMap fun r => r.parameters.filterMap (·.type) ++ r.returnType.toList

/-- The declarations to put out, in order of discovery: those that routes lead to and, unless
routes were filtered, all others. -/
def collected (options : ModelOptions) (table : DeclarationTable) (routes : List Route) :
    List Declaration :=
  let found := Reach.fromTypes table (routeTypes routes)
  if options.apis.isSome then found else Reach.andOthers table found

end ApiStubs.Assembly

namespace ApiStubs.Model

def assemble (options : ModelOptions) (graph : Graph) : Model :=
  let table := Assembly.table options.separator graph
  let routes := Assembly.routes options table graph.routes
  let collected := Assembly.collected options table routes
  { routes
    modules := Assembly.modules options routes
    table
    classes := Class.inOrder table (collected.filterMap Declaration.class?)
    enums := collected.filterMap Declaration.enum? }

def ofJson (options : ModelOptions) (raw : Json.Value) : Except Graph.Missing Model :=
  (Graph.decode raw).map (assemble options)

end ApiStubs.Model
