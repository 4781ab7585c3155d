import ApiStubs.Proofs.Requests
import ApiStubs.Proofs.Samples
import ApiStubs.Proofs.TypeVariables

/-!
# Names in the bodies of stubs

The body of a stub names its parameters, and besides them what every body needs: the class that
performs requests, the base address, and what the request is kept in or configured by.  A parameter
of such a name would be meant instead.  Parameters are called what their names are repaired to, with
a number where that is taken.  A name of letters only can be the outcome in one way: a parameter has
this name, and the target does not reserve it (`Route.mem_identifiers_iff`).

Both targets reserve `settings`, but neither the class nor the base address, so that a body means
what it says exactly if no parameter that callers pass goes by one of these names
(`stubs_hygienic_iff`).  A parameter `BASE` is one that does (`Ts.base_shadowed`).
-/

namespace ApiStubs

/-! ## Names of letters -/

namespace Namer

/-- Every name asked for is taken in the end, be it by what asks for it. -/
theorem mem_takeAll {namer : Namer} {names : List String} {name : String} (h : name ∈ names) :
    name ∈ namer.taken ∨ name ∈ (namer.takeAll names).1 := by
  induction names generalizing namer with
  | nil => exact absurd h List.not_mem_nil
  | cons first rest ih =>
      rw [takeAll_cons]
      rcases List.mem_cons.mp h with rfl | h
      · by_cases taken : name ∈ namer.taken
        · exact Or.inl taken
        · exact Or.inr (List.mem_cons.mpr (Or.inl (take_of_not_mem taken).symm))
      · have hrest : name ∈ (namer.take first).2.taken ∨ name ∈ ((namer.take first).2.takeAll rest).1 :=
          ih h
        rw [taken_take, List.mem_cons] at hrest
        rcases hrest with (hfirst | taken) | hrest
        · exact Or.inr (List.mem_cons.mpr (Or.inl hfirst))
        · exact Or.inl taken
        · exact Or.inr (List.mem_cons_of_mem _ hrest)

theorem mem_takeAll_new {separator : String} {names : List String} {name : String}
    (h : name ∈ names) : name ∈ ((new separator).takeAll names).1 :=
  (mem_takeAll h).resolve_left List.not_mem_nil

end Namer

/-- A variant of a name shows the separator, unless it is the name itself. -/
theorem Variant.eq_of_not_mem {separator name given : String} (h : Variant separator name given)
    {c : Char} (hc : c ∈ separator.toList) (absent : c ∉ given.toList) : given = name := by
  rcases h with rfl | ⟨n, rfl⟩
  · rfl
  · exact absurd (by simp [hc]) absent

namespace Text.Identifier

/-- A text that is not empty and made of letters only. -/
def IsLetters (s : String) : Prop :=
  s.toList ≠ [] ∧ s.toList.all (·.isAlpha) = true

instance (s : String) : Decidable (IsLetters s) :=
  inferInstanceAs (Decidable (_ ∧ _))

theorem IsLetters.isAlpha {s : String} (h : IsLetters s) {c : Char} (hc : c ∈ s.toList) :
    c.isAlpha = true :=
  List.all_eq_true.mp h.2 c hc

theorem IsLetters.not_mem {s : String} (h : IsLetters s) {c : Char} (hc : c.isAlpha = false) :
    c ∉ s.toList := by
  intro hmem
  rw [h.isAlpha hmem] at hc
  cases hc

theorem isPart_of_isAlpha {c : Char} (h : c.isAlpha = true) : isPart c = true := by
  simp [isPart, Char.isAlphanum, h]

/-- Letters are repaired only where they are a word that is reserved. -/
theorem repair_of_isLetters {reserved : List String} {s : String} (h : IsLetters s) :
    repair reserved s = if s ∈ reserved then "_" ++ s else s := by
  have hmap : s.toList.map (fun c => if isPart c then c else '_') = s.toList := by
    refine (List.map_congr_left fun c hc => ?_).trans (List.map_id _)
    simp [isPart_of_isAlpha (h.isAlpha hc)]
  have hempty : s.toList.isEmpty = false := by
    rw [← Bool.not_eq_true, List.isEmpty_iff]
    exact h.1
  have hdigit : s.toList.head?.any (·.isDigit) = false := by
    cases hs : s.toList with
    | nil => rfl
    | cons c rest =>
        have halpha := h.isAlpha (c := c) (by rw [hs]; exact List.mem_cons_self)
        revert halpha
        simp [Char.isAlpha, Char.isUpper, Char.isLower, Char.isDigit, UInt32.le_iff_toNat_le]
        omega
  simp only [repair, hmap, hempty, hdigit, String.ofList_toList, Bool.false_or,
    List.contains_iff_mem]
  split
  · exact String.ext (by simp)
  · rfl

/-- A name that is repaired to letters has been these letters. -/
theorem repair_eq_iff {reserved : List String} {name s : String} (h : IsLetters s) :
    repair reserved name = s ↔ name = s ∧ s ∉ reserved := by
  have hmark : '_' ∉ s.toList := h.not_mem (by decide)
  constructor
  · intro hs
    have hname : name = s := by
      refine String.ext ?_
      rcases toList_repair reserved name with e | e
      · rw [hs] at e
        rw [e]
        refine ((List.map_congr_left fun c hc => ?_).trans (List.map_id _)).symm
        by_contra hchanged
        refine hmark (e ▸ List.mem_map.mpr ⟨c, hc, ?_⟩)
        split
        · rename_i hpart
          exact absurd (if_pos hpart) hchanged
        · rfl
      · rw [hs] at e
        exact absurd (e ▸ List.mem_cons_self) hmark
    subst hname
    refine ⟨rfl, fun hreserved => ?_⟩
    rw [repair_of_isLetters h, if_pos hreserved] at hs
    exact hmark (hs ▸ by simp)
  · rintro ⟨rfl, free⟩
    rw [repair_of_isLetters h, if_neg free]

end Text.Identifier

open Text.Identifier (IsLetters)

theorem Target.exists_mem_separator (target : Target) :
    ∃ c ∈ target.separator.toList, c.isAlpha = false := by
  cases target with
  | ts => exact ⟨'$', by decide, by decide⟩
  | oc => exact ⟨'_', by decide, by decide⟩
  | raw => exact ⟨'$', by decide, by decide⟩

/-- A name of letters is given to a parameter exactly if one is called so and may be. -/
theorem Route.mem_identifiers_iff {target : Target} {route : Route} {s : String}
    (h : IsLetters s) :
    s ∈ route.identifiers target ↔ s ∉ target.reserved ∧ ∃ p ∈ route.exposed, p.name = s := by
  constructor
  · intro hs
    obtain ⟨wished, hwished, variant⟩ := Namer.exists_variant_of_mem_takeAll hs
    obtain ⟨p, hp, rfl⟩ := List.mem_map.mp hwished
    obtain ⟨c, hc, hother⟩ := target.exists_mem_separator
    have hrepair := variant.eq_of_not_mem hc (h.not_mem hother)
    obtain ⟨hname, free⟩ := (Text.Identifier.repair_eq_iff h).mp hrepair.symm
    exact ⟨free, p, hp, hname⟩
  · rintro ⟨free, p, hp, hname⟩
    refine Namer.mem_takeAll_new (List.mem_map.mpr ⟨p, hp, ?_⟩)
    exact (Text.Identifier.repair_eq_iff h).mpr ⟨hname, free⟩

/-- None of several names of letters is given to a parameter exactly if none is called by one of
those that the target does not reserve. -/
theorem Route.identifiers_avoid_iff {target : Target} {route : Route} {names : List String}
    (letters : ∀ s ∈ names, IsLetters s) :
    (∀ s ∈ route.identifiers target, s ∉ names) ↔
      ∀ p ∈ route.exposed, p.name ∉ names.filter (· ∉ target.reserved) := by
  constructor
  · intro avoid p hp hname
    obtain ⟨hname, free⟩ := List.mem_filter.mp hname
    refine avoid p.name ((mem_identifiers_iff (letters _ hname)).mpr ⟨?_, p, hp, rfl⟩) hname
    exact of_decide_eq_true free
  · intro avoid s hs hname
    obtain ⟨free, p, hp, rfl⟩ := (mem_identifiers_iff (letters s hname)).mp hs
    exact avoid p hp (List.mem_filter.mpr ⟨hname, decide_eq_true free⟩)

theorem Model.forall_route_iff {options : ModelOptions} {graph : Graph} {P : Route → Prop} :
    (∀ m ∈ (assemble options graph).modules, ∀ r ∈ m.routes, P r) ↔
      ∀ r ∈ (assemble options graph).routes, P r := by
  constructor
  · intro h r hr
    have hmem : r ∈ (assemble options graph).modules.flatMap (·.routes) :=
      Assembly.perm_routes_modules.mem_iff.mpr hr
    obtain ⟨m, hm, hr⟩ := List.mem_flatMap.mp hmem
    exact h m hm r hr
  · exact fun h m hm r hr => h r (Assembly.mem_routes_of_modules hm hr)

/-! ## TypeScript -/

namespace Ts

/-- What the body of every stub names besides its parameters: the class that performs requests, the
base address, and the settings of the call. -/
def bodyNames : List String := ["NadInvoker", "BASE", "settings"]

def Stub.bodyLines (stub : Stub) : List String :=
  ("return new NadInvoker<" ++ typeText stub.result ++ ">(BASE)") :: chainLines stub.calls

def Call.names (call : Call) : List String :=
  call.operands.filterMap fun operand =>
    match operand with
    | .name s => some s
    | .literal _ => none

def Stub.names (stub : Stub) : List String :=
  ["NadInvoker", "BASE"] ++ stub.calls.flatMap Call.names

/-- No parameter goes by a name that the body uses for something else. -/
def Stub.Hygienic (stub : Stub) : Prop :=
  ∀ p ∈ stub.parameters, p.identifier ∉ bodyNames

theorem codeTexts_stub (stub : Stub) : stub.ops.flatMap WriteOp.codeTexts =
    ((stubHeader stub).text :: stub.bodyLines) ++ ["\x7d,"] := by
  rw [stubHeader, Header.text_plain]
  simp [Stub.ops, Stub.bodyLines, String.append_assoc]

theorem stub_mem_codeTexts {document : Document} {m : ModuleObject} (hm : m ∈ document.modules)
    {stub : Stub} (hstub : stub ∈ m.stubs) {line : String}
    (hline : line ∈ (stubHeader stub).text :: stub.bodyLines) : line ∈ document.codeTexts := by
  refine mem_codeTexts_of_stub hm hstub ?_
  rw [codeTexts_stub]
  exact List.mem_append_left _ hline

variable {table : DeclarationTable} {route : Route}

variable (table route) in
theorem map_identifier_ofRoute :
    (Stub.ofRoute table route).parameters.map (·.identifier) = route.identifiers .ts := by
  rw [← route.map_identifier_arguments .ts]
  exact List.map_map

/-- A body names each parameter once, and nothing else that it does not name always. -/
theorem names_ofRoute : (Stub.ofRoute table route).names =
    bodyNames ++ (Stub.ofRoute table route).parameters.map (·.identifier) := by
  have hcalls := (CallReader.request?_eq_some_iff reader_understands).mp (performs table route)
  have hvalues := (serves table route).values
  have hattached : ∀ a : Attachment, (forms.attach a).names = [a.value] := by
    intro a
    obtain ⟨⟨kind, key⟩, value⟩ := a
    cases key with
    | none => rfl
    | some key => rfl
  have htypes : ∀ type : String, (forms.header type).names = [] := fun _ => rfl
  rw [Stub.names, hcalls, CallForms.body]
  rw [declared_ofRoute, Route.identifiers_declared] at hvalues
  simp only [List.cons_append, List.flatMap_cons, List.flatMap_append, List.flatMap_map, hattached,
    htypes, ← List.map_eq_flatMap, hvalues, map_identifier_ofRoute]
  simp [bodyNames, forms, Call.names]

theorem hygienic_ofRoute_iff : (Stub.ofRoute table route).Hygienic ↔
    ∀ p ∈ route.exposed, p.name ∉ ["NadInvoker", "BASE"] := by
  have letters : ∀ s ∈ bodyNames, IsLetters s := by decide +kernel
  have free : bodyNames.filter (· ∉ Target.ts.reserved) = ["NadInvoker", "BASE"] := by decide
  have identifiers := map_identifier_ofRoute table route
  rw [← free, ← Route.identifiers_avoid_iff letters, ← identifiers, List.forall_mem_map]
  rfl

section

variable {options : ModelOptions} {graph : Graph} {hasBanner : Bool} {runtime base : Literal}
  {document : Document}
  (content : document = .ofModel hasBanner runtime base (Model.assemble options graph))

include content

/-- The stubs of a file are those of the routes. -/
theorem forall_stub_iff {P : Stub → Prop} : (∀ m ∈ document.modules, ∀ stub ∈ m.stubs, P stub) ↔
    ∀ r ∈ (Model.assemble options graph).routes,
      P (.ofRoute (Model.assemble options graph).table r) := by
  simp only [modules_eq content, List.forall_mem_map, ModuleObject.ofModule]
  rw [← Model.forall_route_iff]

end

end Ts

/-! ## Objective-C -/

namespace Oc

/-- What the body of every method names besides its parameters: the class that performs requests,
the base address, the variable that keeps the request, and what it has for settings. -/
def bodyNames : List String := ["NadInvoker", "BASE", "invoker", "nil"]

def Method.bodyLines (m : Method) : List String :=
  "NadInvoker *invoker = [[NadInvoker alloc] initWithBase:BASE];" ::
    messageLines (typeText false m.result = "void") m.messages

def Message.names : Message → List String
  | bare _ => []
  | labelled parts => parts.filterMap fun part =>
    match part.2 with
    | .name s => some s
    | .literal _ => none

/-- What the body of a method names: first what it keeps the request in, which all messages go to,
then the arguments of the messages. -/
def Method.names (m : Method) : List String :=
  ["NadInvoker", "BASE", "invoker"] ++ m.messages.flatMap Message.names

/-- No parameter goes by a name that the body uses for something else. -/
def Method.Hygienic (m : Method) : Prop :=
  ∀ p ∈ m.parameters, p.identifier ∉ bodyNames

theorem codeTexts_method (m : Method) : m.implementationOps.flatMap WriteOp.codeTexts =
    ((m.signature ++ " \x7b") :: m.bodyLines) ++ ["\x7d"] := by
  simp [Method.implementationOps, Method.bodyLines]

theorem method_mem_codeTexts {document : Document} {m : ModuleClass} (hm : m ∈ document.modules)
    {method : Method} (hmethod : method ∈ m.methods) {line : String}
    (hline : line ∈ (method.signature ++ " \x7b") :: method.bodyLines) :
    line ∈ document.codeTexts := by
  have hmodule : line ∈ m.implementationOps.flatMap WriteOp.codeTexts := by
    rw [ModuleClass.implementationOps, List.flatMap_append, List.flatMap_cons, List.flatMap_assoc]
    refine List.mem_append_left _ (List.mem_append_right _ ?_)
    refine List.mem_flatMap.mpr ⟨method, hmethod, ?_⟩
    rw [codeTexts_method]
    exact List.mem_append_left _ hline
  obtain ⟨op, hop, htext⟩ := List.mem_flatMap.mp hmodule
  refine List.mem_flatMap.mpr ⟨op, List.mem_append_right _ ?_, htext⟩
  exact List.mem_flatMap.mpr ⟨m, hm, hop⟩

variable {table : DeclarationTable} {route : Route}

variable (table route) in
theorem map_identifier_ofRoute :
    (Method.ofRoute table route).parameters.map (·.identifier) = route.identifiers .oc := by
  have h := congrArg (List.map Prod.fst) (declared_ofRoute table route)
  rw [Route.identifiers_declared, Method.declared, List.map_map] at h
  exact h

/-- A body names each parameter once, and nothing else that it does not name always. -/
theorem names_ofRoute : (Method.ofRoute table route).names =
    bodyNames ++ (Method.ofRoute table route).parameters.map (·.identifier) := by
  have hmessages := (CallReader.request?_eq_some_iff reader_understands).mp (performs table route)
  have hvalues := (serves table route).values
  have hattached : ∀ a : Attachment, (forms.attach a).names = [a.value] := by
    intro a
    obtain ⟨⟨kind, key⟩, value⟩ := a
    cases key with
    | none => rfl
    | some key => rfl
  have htypes : ∀ type : String, (forms.header type).names = [] := fun _ => rfl
  rw [Method.names, hmessages, CallForms.body]
  rw [declared_ofRoute, Route.identifiers_declared] at hvalues
  simp only [List.cons_append, List.flatMap_cons, List.flatMap_append, List.flatMap_map, hattached,
    htypes, ← List.map_eq_flatMap, hvalues, map_identifier_ofRoute]
  simp [bodyNames, forms, Message.names]

theorem hygienic_ofRoute_iff : (Method.ofRoute table route).Hygienic ↔
    ∀ p ∈ route.exposed, p.name ∉ ["NadInvoker", "BASE", "invoker"] := by
  have letters : ∀ s ∈ bodyNames, IsLetters s := by decide +kernel
  have free : bodyNames.filter (· ∉ Target.oc.reserved) = ["NadInvoker", "BASE", "invoker"] := by
    decide
  have identifiers := map_identifier_ofRoute table route
  rw [← free, ← Route.identifiers_avoid_iff letters, ← identifiers, List.forall_mem_map]
  rfl

section

variable {options : ModelOptions} {graph : Graph} {hasBanner : Bool} {runtime base : String}
  {document : Document}
  (content : document = .ofModel hasBanner runtime base (Model.assemble options graph))

include content

/-- The methods of a file are those of the routes. -/
theorem forall_method_iff {P : Method → Prop} :
    (∀ m ∈ document.modules, ∀ method ∈ m.methods, P method) ↔
      ∀ r ∈ (Model.assemble options graph).routes,
        P (.ofRoute (Model.assemble options graph).table r) := by
  simp only [modules_eq content, List.forall_mem_map, ModuleClass.ofModule]
  rw [← Model.forall_route_iff]

end

end Oc

/-! ## Files -/

/-- The signature and the body of every stub stand in the file, and a body names the parameters and
what every body of the target names.  No parameter goes by one of those other names exactly if none
that callers pass is called like the class that performs requests, like the base address or, in
Objective-C, like the variable that keeps the request. -/
theorem stubs_hygienic_iff (base raw : Json.Value) (options : BuildOptions) :
    (∀ result, build (.string Target.ts.name) base raw options = .ok result →
      ∃ model document, Ts.Writes base raw options result model document ∧
        (∀ m ∈ document.modules, ∀ stub ∈ m.stubs,
          stub.names = Ts.bodyNames ++ stub.parameters.map (·.identifier) ∧
          ∀ line ∈ (Ts.stubHeader stub).text :: stub.bodyLines, line ∈ document.codeTexts) ∧
        ((∀ m ∈ document.modules, ∀ stub ∈ m.stubs, stub.Hygienic) ↔
          ∀ r ∈ model.routes, ∀ p ∈ r.exposed, p.name ∉ ["NadInvoker", "BASE"])) ∧
    ∀ result, build (.string Target.oc.name) base raw options = .ok result →
      ∃ model document, Oc.Writes base raw options result model document ∧
        (∀ m ∈ document.modules, ∀ method ∈ m.methods,
          method.names = Oc.bodyNames ++ method.parameters.map (·.identifier) ∧
          ∀ line ∈ (method.signature ++ " \x7b") :: method.bodyLines,
            line ∈ document.codeTexts) ∧
        ((∀ m ∈ document.modules, ∀ method ∈ m.methods, method.Hygienic) ↔
          ∀ r ∈ model.routes, ∀ p ∈ r.exposed, p.name ∉ ["NadInvoker", "BASE", "invoker"]) := by
  constructor
  · intro result built
    obtain ⟨model, document, writes⟩ := Ts.exists_writes built
    obtain ⟨graph, _, rfl⟩ := Model.ofJson_eq_ok_iff.mp writes.assembled
    have names : ∀ m ∈ document.modules, ∀ stub ∈ m.stubs,
        stub.names = Ts.bodyNames ++ stub.parameters.map (·.identifier) :=
      (Ts.forall_stub_iff writes.content).mpr fun _ _ => Ts.names_ofRoute
    refine ⟨_, document, writes, fun m hm stub hstub => ⟨names m hm stub hstub,
      fun line hline => Ts.stub_mem_codeTexts hm hstub hline⟩, ?_⟩
    exact (Ts.forall_stub_iff writes.content).trans
      (forall₂_congr fun _ _ => Ts.hygienic_ofRoute_iff)
  · intro result built
    obtain ⟨model, document, writes⟩ := Oc.exists_writes built
    obtain ⟨graph, _, rfl⟩ := Model.ofJson_eq_ok_iff.mp writes.assembled
    have names : ∀ m ∈ document.modules, ∀ method ∈ m.methods,
        method.names = Oc.bodyNames ++ method.parameters.map (·.identifier) :=
      (Oc.forall_method_iff writes.content).mpr fun _ _ => Oc.names_ofRoute
    refine ⟨_, document, writes, fun m hm method hmethod => ⟨names m hm method hmethod,
      fun line hline => Oc.method_mem_codeTexts hm hmethod hline⟩, ?_⟩
    exact (Oc.forall_method_iff writes.content).trans
      (forall₂_congr fun _ _ => Oc.hygienic_ofRoute_iff)

def calledGraph (names : List String) : Graph where
  classes := []
  enums := []
  routes := [.sample "app.Loader" names none]

/-- Parameters whose names are near to those of the bodies. -/
theorem stubs_hygienic_settings :
    (∃ result, build (.string Target.ts.name) (.string "")
        (calledGraph ["settings", "Base", "invoker"]).sampleJson (.ofTexts true none none none) =
        .ok result ∧
      ∃ model document, Ts.Writes (.string "")
        (calledGraph ["settings", "Base", "invoker"]).sampleJson (.ofTexts true none none none)
        result model document ∧
        ∀ m ∈ document.modules, ∀ stub ∈ m.stubs, stub.Hygienic) ∧
    ∃ result, build (.string Target.oc.name) (.string "")
        (calledGraph ["nil", "Invoker", "BASE 2"]).sampleJson (.ofTexts true none none none) =
        .ok result ∧
      ∃ model document, Oc.Writes (.string "") (calledGraph ["nil", "Invoker", "BASE 2"]).sampleJson
        (.ofTexts true none none none) result model document ∧
        ∀ m ∈ document.modules, ∀ method ∈ m.methods, method.Hygienic := by
  constructor
  · have decoded : Graph.decode (calledGraph ["settings", "Base", "invoker"]).sampleJson =
        .ok (calledGraph ["settings", "Base", "invoker"]) := by rfl
    obtain ⟨result, built⟩ := build_ok_of_decode decoded .ts "" true
    obtain ⟨model, document, writes, _, hygienic⟩ := (stubs_hygienic_iff _ _ _).1 result built
    refine ⟨result, built, model, document, writes, hygienic.mpr ?_⟩
    rw [Model.eq_assemble_of_decode decoded writes.assembled]
    decide +kernel
  · have decoded : Graph.decode (calledGraph ["nil", "Invoker", "BASE 2"]).sampleJson =
        .ok (calledGraph ["nil", "Invoker", "BASE 2"]) := by rfl
    obtain ⟨result, built⟩ := build_ok_of_decode decoded .oc "" true
    obtain ⟨model, document, writes, _, hygienic⟩ := (stubs_hygienic_iff _ _ _).2 result built
    refine ⟨result, built, model, document, writes, hygienic.mpr ?_⟩
    rw [Model.eq_assemble_of_decode decoded writes.assembled]
    decide +kernel

/-- A parameter that goes by the name of the base address. -/
theorem Ts.base_shadowed : ∃ result,
    build (.string Target.ts.name) (.string "") (calledGraph ["BASE"]).sampleJson
      (.ofTexts true none none none) = .ok result ∧
    ∃ model document, Writes (.string "") (calledGraph ["BASE"]).sampleJson
      (.ofTexts true none none none) result model document ∧
      "async load(BASE?: unknown, settings?: Partial<Settings>) \x7b" ∈ document.codeTexts ∧
      "return new NadInvoker<unknown>(BASE)" ∈ document.codeTexts ∧
      ∃ m ∈ document.modules, ∃ stub ∈ m.stubs, ¬ stub.Hygienic := by
  have decoded : Graph.decode (calledGraph ["BASE"]).sampleJson = .ok (calledGraph ["BASE"]) := by
    rfl
  obtain ⟨result, built⟩ := build_ok_of_decode decoded .ts "" true
  obtain ⟨model, document, writes⟩ := exists_writes built
  refine ⟨result, built, model, document, writes, ?_⟩
  rw [writes.document_eq, Model.eq_assemble_of_decode decoded writes.assembled]
  have shadowed : ∃ m ∈ (Document.ofModel (!true) (.text Target.ts.runtime) (.text "")
      (Model.assemble (Build.modelOptions .ts (.ofTexts true none none none))
        (calledGraph ["BASE"]))).modules,
      ∃ stub ∈ m.stubs, ∃ p ∈ stub.parameters, p.identifier = "BASE" := by decide +kernel
  obtain ⟨m, hm, stub, hstub, p, hp, hname⟩ := shadowed
  refine ⟨by decide +kernel, by decide +kernel, m, hm, stub, hstub, fun hygienic => ?_⟩
  exact hygienic p hp (by rw [hname]; decide)

end ApiStubs
