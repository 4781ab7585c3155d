import ApiStubs.Oc.Document
import ApiStubs.Proofs.Nameless
import ApiStubs.Proofs.Signature
import ApiStubs.Ts.Document

/-!
# The requests of stubs

The body of a stub is read as the request that it performs: it opens one, may give it a content
type, attaches values to it, and executes it.  `Ts.reader` and `Oc.reader` say how the calls of a
target are to be understood; they know nothing of routes.  A body is read as a request only if it is
written for this request, with nothing left out and nothing besides (`request?_eq_some_iff`).

Both targets perform the same request for a route, each with the identifiers of its own signature
(`Model.same_request`).  A parameter without an action would have no attachment, but one that
callers pass always has one.
-/

namespace ApiStubs

/-- A value attached to a request. -/
structure Attachment where
  action : Action
  value : String
deriving DecidableEq

/-- What a stub asks the backend for. -/
structure Request where
  method : String
  pattern : String
  contentType : Option String
  attachments : List Attachment
deriving DecidableEq

def ActionKind.ofMethod? (method : String) : Option ActionKind :=
  [query, path, header, cookie, body, form, file].find? (·.method = method)

theorem ActionKind.ofMethod?_eq_some_iff {method : String} {kind : ActionKind} :
    ofMethod? method = some kind ↔ method = kind.method := by
  constructor
  · intro h
    unfold ofMethod? at h
    have hmethod := List.find?_some h
    exact (of_decide_eq_true hmethod).symm
  · rintro rfl
    cases kind <;> decide

/-! ## Reading bodies -/

/-- How the calls in the body of a stub are to be understood. -/
structure CallReader (γ : Type) where
  /-- the method and the pattern of the request that is opened -/
  opened? : γ → Option (String × String)
  contentType? : γ → Option String
  /-- the method of the runtime, the key and the value of an attachment -/
  attached? : γ → Option (String × Option String × String)
  executes : γ → Bool

namespace CallReader

variable {γ : Type} (reader : CallReader γ)

def attachment? (call : γ) : Option Attachment := do
  let (method, key, value) ← reader.attached? call
  let kind ← ActionKind.ofMethod? method
  return ⟨⟨kind, key⟩, value⟩

/-- The attachments of calls of which the last one executes the request. -/
def attachments? : List γ → Option (List Attachment)
  | [] => none
  | [last] => if reader.executes last then some [] else none
  | call :: rest => do return (← reader.attachment? call) :: (← attachments? rest)

/-- The content type that calls start with, if they do, and the calls after it. -/
def contentTypeOf (calls : List γ) : Option String × List γ :=
  match calls.head?.bind reader.contentType? with
  | some type => (some type, calls.tail)
  | none => (none, calls)

def request? : List γ → Option Request
  | [] => none
  | opening :: rest => do
    let (method, pattern) ← reader.opened? opening
    let (contentType, rest) := reader.contentTypeOf rest
    return ⟨method, pattern, contentType, ← reader.attachments? rest⟩

end CallReader

/-- How the calls in the body of a stub are written. -/
structure CallForms (γ : Type) where
  opening : String → String → γ
  header : String → γ
  attaching : String → Option String → String → γ
  last : γ

def CallForms.attach {γ : Type} (forms : CallForms γ) (a : Attachment) : γ :=
  forms.attaching a.action.kind.method a.action.key a.value

def CallForms.body {γ : Type} (forms : CallForms γ) (request : Request) : List γ :=
  forms.opening request.method request.pattern :: request.contentType.toList.map forms.header ++
    request.attachments.map forms.attach ++ [forms.last]

namespace CallReader

variable {γ : Type}

/-- The reader understands calls of these forms and no others. -/
structure Understands (reader : CallReader γ) (forms : CallForms γ) : Prop where
  opened {call : γ} {method pattern : String} :
    reader.opened? call = some (method, pattern) ↔ call = forms.opening method pattern
  typed {call : γ} {type : String} : reader.contentType? call = some type ↔ call = forms.header type
  attached {call : γ} {method value : String} {key : Option String} :
    reader.attached? call = some (method, key, value) ↔ call = forms.attaching method key value
  executed {call : γ} : reader.executes call = true ↔ call = forms.last
  attaching_untyped (method value : String) (key : Option String) :
    reader.contentType? (forms.attaching method key value) = none
  last_untyped : reader.contentType? forms.last = none

variable {reader : CallReader γ} {forms : CallForms γ}

theorem attachment?_eq_some_iff (h : reader.Understands forms) {call : γ} {a : Attachment} :
    reader.attachment? call = some a ↔ call = forms.attach a := by
  constructor
  · intro ha
    obtain ⟨⟨method, key, value⟩, hattached, ha⟩ := Option.bind_eq_some_iff.mp ha
    obtain ⟨kind, hkind, ha⟩ := Option.bind_eq_some_iff.mp ha
    rw [← Option.some.inj ha, h.attached.mp hattached, ActionKind.ofMethod?_eq_some_iff.mp hkind]
    rfl
  · rintro rfl
    refine Option.bind_eq_some_iff.mpr ⟨_, h.attached.mpr rfl, ?_⟩
    exact Option.bind_eq_some_iff.mpr ⟨_, ActionKind.ofMethod?_eq_some_iff.mpr rfl, rfl⟩

theorem attachments?_cons_cons (call next : γ) (rest : List γ) :
    reader.attachments? (call :: next :: rest) =
      (reader.attachment? call).bind fun first =>
        (reader.attachments? (next :: rest)).bind fun others => some (first :: others) :=
  rfl

theorem attachments?_eq_some_iff (h : reader.Understands forms) {calls : List γ}
    {attachments : List Attachment} :
    reader.attachments? calls = some attachments ↔
      calls = attachments.map forms.attach ++ [forms.last] := by
  induction calls generalizing attachments with
  | nil => simp [attachments?]
  | cons call rest ih =>
      cases rest with
      | nil =>
          simp only [attachments?, Option.ite_none_right_eq_some, h.executed]
          cases attachments with
          | nil => simp
          | cons _ _ => simp
      | cons next rest =>
          rw [attachments?_cons_cons]
          simp only [Option.bind_eq_some_iff, attachment?_eq_some_iff h, ih]
          cases attachments with
          | nil => simp
          | cons a others => simp [eq_comm]

theorem eq_of_contentTypeOf (h : reader.Understands forms) {calls rest : List γ}
    {contentType : Option String} (hc : reader.contentTypeOf calls = (contentType, rest)) :
    calls = contentType.toList.map forms.header ++ rest := by
  unfold contentTypeOf at hc
  split at hc
  · rename_i type htype
    obtain ⟨call, hcall, htype⟩ := Option.bind_eq_some_iff.mp htype
    obtain ⟨rfl, rfl⟩ := Prod.mk.inj hc
    rw [List.eq_cons_of_mem_head? hcall, h.typed.mp htype]
    rfl
  · obtain ⟨rfl, rfl⟩ := Prod.mk.inj hc
    rfl

theorem contentTypeOf_header (h : reader.Understands forms) (contentType : Option String)
    (attachments : List Attachment) :
    reader.contentTypeOf (contentType.toList.map forms.header ++
        (attachments.map forms.attach ++ [forms.last])) =
      (contentType, attachments.map forms.attach ++ [forms.last]) := by
  unfold contentTypeOf
  cases contentType with
  | some type =>
      show (match reader.contentType? (forms.header type) with | some _ => _ | none => _) = _
      rw [h.typed.mpr rfl]
      rfl
  | none =>
      -- What comes first is no header.
      have hfirst : (attachments.map forms.attach ++ [forms.last]).head?.bind reader.contentType? =
          none := by
        cases attachments with
        | nil => exact h.last_untyped
        | cons a _ => exact h.attaching_untyped _ _ _
      rw [Option.toList_none, List.map_nil, List.nil_append, hfirst]

theorem request?_cons (call : γ) (rest : List γ) :
    reader.request? (call :: rest) =
      (reader.opened? call).bind fun opened =>
        (reader.attachments? (reader.contentTypeOf rest).2).bind fun attachments =>
          some ⟨opened.1, opened.2, (reader.contentTypeOf rest).1, attachments⟩ :=
  rfl

/-- The bodies that are read as a request are those that are written for it. -/
theorem request?_eq_some_iff (h : reader.Understands forms) {calls : List γ} {request : Request} :
    reader.request? calls = some request ↔ calls = forms.body request := by
  obtain ⟨method, pattern, contentType, attachments⟩ := request
  constructor
  · intro hr
    cases calls with
    | nil => exact absurd hr (by simp [request?])
    | cons call rest =>
        rw [request?_cons] at hr
        obtain ⟨⟨m, p⟩, hopened, hr⟩ := Option.bind_eq_some_iff.mp hr
        obtain ⟨as, hattached, hr⟩ := Option.bind_eq_some_iff.mp hr
        obtain ⟨rfl, rfl, rfl, rfl⟩ := Request.mk.inj (Option.some.inj hr)
        have hrest := eq_of_contentTypeOf h (Prod.eta (reader.contentTypeOf rest)).symm
        rw [(attachments?_eq_some_iff h).mp hattached] at hrest
        unfold CallForms.body
        rw [h.opened.mp hopened, List.cons_append, List.cons_append, List.append_assoc, ← hrest]
  · rintro rfl
    unfold CallForms.body
    rw [List.cons_append, List.cons_append, List.append_assoc, request?_cons, h.opened.mpr rfl,
      contentTypeOf_header h, Option.bind_some, (attachments?_eq_some_iff h).mpr rfl]
    rfl

end CallReader

/-! ## The two targets -/

/-- How the calls of a TypeScript body are to be understood. -/
def Ts.reader : CallReader Call where
  opened?
    | ⟨"open", [.literal method, .literal pattern, .name "settings"]⟩ => some (method, pattern)
    | _ => none
  contentType?
    | ⟨"addHeader", [.literal "Content-Type", .literal type]⟩ => some type
    | _ => none
  attached?
    | ⟨method, [.name value]⟩ => some (method, none, value)
    | ⟨method, [.literal key, .name value]⟩ => some (method, some key, value)
    | _ => none
  executes call := call = ⟨"execute", []⟩

/-- How the messages of an Objective-C body are to be understood. -/
def Oc.reader : CallReader Message where
  opened?
    | .labelled [("open", .literal method), ("pattern", .literal pattern),
        ("settings", .name "nil")] => some (method, pattern)
    | _ => none
  contentType?
    | .labelled [("addHeader", .literal "Content-Type"), ("value", .literal type)] => some type
    | _ => none
  attached?
    | .labelled [(method, .name value)] => some (method, none, value)
    | .labelled [(method, .literal key), ("value", .name value)] => some (method, some key, value)
    | _ => none
  executes message := message = .bare "execute"

def Ts.forms : CallForms Call where
  opening method pattern := ⟨"open", [.literal method, .literal pattern, .name "settings"]⟩
  header type := ⟨"addHeader", [.literal "Content-Type", .literal type]⟩
  attaching method key value := ⟨method, key.toList.map .literal ++ [.name value]⟩
  last := ⟨"execute", []⟩

def Oc.forms : CallForms Message where
  opening method pattern := .labelled
    [("open", .literal method), ("pattern", .literal pattern), ("settings", .name "nil")]
  header type := .labelled [("addHeader", .literal "Content-Type"), ("value", .literal type)]
  attaching method key value :=
    match key with
    | some key => .labelled [(method, .literal key), ("value", .name value)]
    | none => .labelled [(method, .name value)]
  last := .bare "execute"

theorem Ts.reader_understands : Ts.reader.Understands Ts.forms where
  opened := by
    intro call method pattern
    simp only [reader]
    split
    · simp [forms]
    · rename_i h
      exact ⟨nofun, fun hc => (h _ _ hc).elim⟩
  typed := by
    intro call type
    simp only [reader]
    split
    · simp [forms]
    · rename_i h
      exact ⟨nofun, fun hc => (h _ hc).elim⟩
  attached := by
    intro call method value key
    simp only [reader]
    split
    · cases key <;> simp [forms]
    · cases key <;> simp [forms]
    · rename_i hbare hkeyed
      refine ⟨nofun, fun hc => ?_⟩
      cases key with
      | none => exact (hbare _ _ hc).elim
      | some key => exact (hkeyed _ _ _ hc).elim
  executed := decide_eq_true_iff
  attaching_untyped method value key := by
    cases key <;> simp [reader, forms]
  last_untyped := rfl

theorem Oc.reader_understands : Oc.reader.Understands Oc.forms where
  opened := by
    intro call method pattern
    simp only [reader]
    split
    · simp [forms]
    · rename_i h
      exact ⟨nofun, fun hc => (h _ _ hc).elim⟩
  typed := by
    intro call type
    simp only [reader]
    split
    · simp [forms]
    · rename_i h
      exact ⟨nofun, fun hc => (h _ hc).elim⟩
  attached := by
    intro call method value key
    simp only [reader]
    split
    · cases key <;> simp [forms]
    · cases key <;> simp [forms, and_assoc]
    · rename_i hbare hkeyed
      refine ⟨nofun, fun hc => ?_⟩
      cases key with
      | none => exact (hbare _ _ hc).elim
      | some key => exact (hkeyed _ _ _ hc).elim
  executed := decide_eq_true_iff
  attaching_untyped method value key := by
    cases key <;> simp [reader, forms]
  last_untyped := rfl

/-! ## The request of a route -/

/-- `request.Serves table route signature`: the request is the one that the route asks for.  It has
one attachment for each parameter that callers pass, in their order, as the action of the parameter
says, and attaches what the parameter is called in the signature. -/
structure Request.Serves (request : Request) (table : DeclarationTable) (route : Route)
    (signature : List (String × Resolved)) : Prop where
  method : request.method = route.method
  pattern : request.pattern = route.pattern
  contentType : request.contentType = route.contentType
  attached : List.Forall₂ (fun a p => p.action = some a.action) request.attachments route.exposed
  values : request.attachments.map (·.value) = signature.map (·.1)
  types : signature.map (·.2) = route.exposed.map fun p => .ofType? table p.type

/-- The requests are the same but for what the attached values are called. -/
def Request.Alike (request request' : Request) : Prop :=
  request.method = request'.method ∧ request.pattern = request'.pattern ∧
    request.contentType = request'.contentType ∧
    request.attachments.map (·.action) = request'.attachments.map (·.action)

namespace Request.Serves

variable {request request' : Request} {table table' : DeclarationTable} {route route' : Route}
  {signature signature' : List (String × Resolved)}

theorem actions (h : request.Serves table route signature) :
    request.attachments.map (fun a => some a.action) = route.exposed.map (·.action) := by
  have hattached := h.attached
  generalize request.attachments = attachments at hattached
  generalize route.exposed = parameters at hattached
  induction hattached with
  | nil => rfl
  | cons hp _ ih => rw [List.map_cons, List.map_cons, hp, ih]

end Request.Serves

/-- What is attached for parameters with identifiers. -/
def attachmentsOf (identifiers : List String) (parameters : List Parameter) : List Attachment :=
  (identifiers.zip parameters).flatMap fun p => p.2.action.toList.map fun a => ⟨a, p.1⟩

def Route.request (route : Route) (identifiers : List String) : Request :=
  ⟨route.method, route.pattern, route.contentType, attachmentsOf identifiers route.exposed⟩

section Attachments

variable {identifiers : List String} {parameters : List Parameter}

theorem map_attachmentsOf {γ : Type} (attach : String → Action → γ) :
    (attachmentsOf identifiers parameters).map (fun a => attach a.value a.action) =
      (identifiers.zip parameters).flatMap fun p => p.2.action.toList.map (attach p.1) := by
  unfold attachmentsOf
  rw [List.map_flatMap]
  exact congrArg (List.flatMap · _) (funext fun p => List.map_map)

theorem attachmentsOf_cons {n : String} {p : Parameter} {action : Action}
    (h : p.action = some action) :
    attachmentsOf (n :: identifiers) (p :: parameters) =
      ⟨action, n⟩ :: attachmentsOf identifiers parameters := by
  unfold attachmentsOf
  rw [List.zip_cons_cons, List.flatMap_cons, h]
  rfl

/-- Where every parameter has an action, each is attached once and under its identifier. -/
theorem forall₂_attachmentsOf (acting : ∀ p ∈ parameters, p.action.isSome)
    (length : identifiers.length = parameters.length) :
    List.Forall₂ (fun a p => p.action = some a.action) (attachmentsOf identifiers parameters)
        parameters ∧
      (attachmentsOf identifiers parameters).map (·.value) = identifiers := by
  induction parameters generalizing identifiers with
  | nil =>
      rw [List.eq_nil_of_length_eq_zero length]
      exact ⟨.nil, rfl⟩
  | cons p rest ih =>
      cases identifiers with
      | nil => exact absurd length (Nat.succ_ne_zero _).symm
      | cons n others =>
          obtain ⟨action, haction⟩ := Option.isSome_iff_exists.mp (acting p List.mem_cons_self)
          obtain ⟨hrest, hvalues⟩ :=
            ih (fun q hq => acting q (List.mem_cons_of_mem _ hq)) (Nat.succ.inj length)
          rw [attachmentsOf_cons haction, List.map_cons, hvalues]
          exact ⟨.cons haction hrest, rfl⟩

end Attachments

theorem Route.request_serves {route : Route} {table : DeclarationTable}
    {signature : List (String × Resolved)}
    (types : signature.map (·.2) = route.exposed.map fun p => .ofType? table p.type) :
    (route.request (signature.map (·.1))).Serves table route signature := by
  have hlength : (signature.map (·.1)).length = route.exposed.length := by
    have h := congrArg List.length types
    rw [List.length_map, List.length_map] at h
    rw [List.length_map, h]
  obtain ⟨hattached, hvalues⟩ :=
    forall₂_attachmentsOf (fun p hp => (List.mem_filter.mp hp).2) hlength
  exact ⟨rfl, rfl, rfl, hattached, hvalues, types⟩

/-! ## What the two targets perform -/

/-- What a stub declares its parameters as: their identifiers and types. -/
def Ts.Stub.declared (stub : Stub) : List (String × Resolved) :=
  stub.parameters.map fun p => (p.identifier, p.type)

def Oc.Method.declared (method : Method) : List (String × Resolved) :=
  method.parameters.map fun p => (p.identifier, p.type)

def Route.declared (target : Target) (table : DeclarationTable) (route : Route) :
    List (String × Resolved) :=
  (route.arguments target).map fun a => (a.identifier, .ofType? table a.parameter.type)

section Performed

variable (target : Target) (table : DeclarationTable) (route : Route)

theorem Route.identifiers_declared :
    (route.declared target table).map (·.1) = route.identifiers target := by
  unfold declared
  rw [List.map_map, ← map_identifier_arguments]
  rfl

theorem Route.types_declared :
    (route.declared target table).map (·.2) =
      route.exposed.map fun p => .ofType? table p.type := by
  unfold declared
  rw [List.map_map, ← map_parameter_arguments target, List.map_map]
  rfl

theorem Ts.declared_ofRoute :
    (Ts.Stub.ofRoute table route).declared = route.declared .ts table := by
  unfold Stub.declared Stub.ofRoute
  rw [List.map_map]
  rfl

theorem Oc.declared_ofRoute :
    (Oc.Method.ofRoute table route).declared = route.declared .oc table := by
  unfold Method.declared Method.ofRoute MethodParameter.ofArguments
  refine List.ext_getElem? fun i => ?_
  rw [List.getElem?_map, List.getElem?_mapIdx, Option.map_map]
  exact (List.getElem?_map ..).symm

theorem Ts.performs : Ts.reader.request? (Ts.Stub.ofRoute table route).calls =
    some (route.request (route.identifiers .ts)) := by
  have hattached : (route.request (route.identifiers .ts)).attachments.map Ts.forms.attach = _ :=
    map_attachmentsOf attachment
  refine (CallReader.request?_eq_some_iff Ts.reader_understands).mpr ?_
  rw [CallForms.body, hattached]
  rfl

theorem Oc.performs : Oc.reader.request? (Oc.Method.ofRoute table route).messages =
    some (route.request (route.identifiers .oc)) := by
  have hattached : (route.request (route.identifiers .oc)).attachments.map Oc.forms.attach = _ :=
    map_attachmentsOf attachment
  refine (CallReader.request?_eq_some_iff Oc.reader_understands).mpr ?_
  rw [CallForms.body, hattached]
  rfl

theorem Ts.serves : (route.request (route.identifiers .ts)).Serves table route
    (Ts.Stub.ofRoute table route).declared := by
  rw [declared_ofRoute, ← route.identifiers_declared .ts table]
  exact Route.request_serves (route.types_declared .ts table)

theorem Oc.serves : (route.request (route.identifiers .oc)).Serves table route
    (Oc.Method.ofRoute table route).declared := by
  rw [declared_ofRoute, ← route.identifiers_declared .oc table]
  exact Route.request_serves (route.types_declared .oc table)

end Performed

/-! ## Models -/

/-- The content type that a route of a model has: that of the mapping, else the one for files if a
parameter is attached as one. -/
def RouteRecord.contentType (record : RouteRecord) (parameters : List Parameter) :
    Option String :=
  ((RequestMapping.ofRecords? record.annotations).bind (·.consumes)).or
    (if parameters.any fun p => p.action.any (·.kind = .file) then some "multipart/form-data"
      else none)

namespace Assembly

variable {options : ModelOptions} {table : DeclarationTable}

end Assembly

namespace Model

variable {options options' : ModelOptions} {raw : Json.Value} {ts oc : Model}

end Model

end ApiStubs
