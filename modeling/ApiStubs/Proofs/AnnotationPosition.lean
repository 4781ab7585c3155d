import ApiStubs.Proofs.HandedOut
import ApiStubs.Proofs.Outcome
import ApiStubs.Proofs.WrittenAlike

/-!
# The position of annotations

Annotations are looked up by type: of each type that a rule names the first record counts, or
whether there is one.  So where annotations stand among those of other types does not matter, nor
does what other types there are.  `build_of_reannotated` states it of whole graphs: let the
annotations of routes, parameters, classes, members, enums and constants be replaced by others that
have the same records in the same order of every type that is looked for (`SameRecognised`).  Then
every build has the same result, the same code or the same error.

The proof follows the build.  What is read off a bag of annotations is the same, so graphs are
decoded to records that are alike, apart from the bags themselves which routes, parameters and
declarations keep.  Routes read nothing else off theirs, and declarations are not asked for them
again.
-/

namespace ApiStubs

open Json (Value)
open List (Forall₂)

/-! ## Bags of annotations -/

theorem findSome?_congr {α β : Type} {f g : α → Option β} {l : List α}
    (h : ∀ a ∈ l, f a = g a) : l.findSome? f = l.findSome? g := by
  induction l with
  | nil => rfl
  | cons a rest ih =>
      rw [List.findSome?_cons, List.findSome?_cons, h a List.mem_cons_self,
        ih fun b hb => h b (List.mem_cons_of_mem _ hb)]

namespace AnnotationRecord

def recognised : List String :=
  RequestMapping.rules.map (·.1) ++ Binding.rules.map (·.1) ++ descriptionRules.map (·.1) ++
    notNullTypes

/-- Of every annotation type that is looked for the records are the same in the same order. -/
def SameRecognised (records records' : List AnnotationRecord) : Prop :=
  ∀ type ∈ recognised, records.filter (·.type = type) = records'.filter (·.type = type)

/-- Null is forbidden if a record of one of the types is found that forbid it. -/
theorem forbidsNull_eq_any (records : List AnnotationRecord) :
    forbidsNull records = notNullTypes.any fun type => (find? type records).isSome := by
  unfold forbidsNull find?
  rw [Bool.eq_iff_iff, List.any_eq_true, List.any_eq_true]
  simp only [List.contains_iff_mem, List.find?_isSome, decide_eq_true_eq]
  constructor
  · rintro ⟨record, hmem, htype⟩
    exact ⟨record.type, htype, record, hmem, rfl⟩
  · rintro ⟨_, htype, record, hmem, rfl⟩
    exact ⟨record, hmem, htype⟩

namespace SameRecognised

/-! What may be done to a bag: records of different types change places, and records come in of
types that nothing looks for. -/

theorem refl (records : List AnnotationRecord) : SameRecognised records records :=
  fun _ _ => rfl

theorem trans {records records' records'' : List AnnotationRecord}
    (h : SameRecognised records records') (h' : SameRecognised records' records'') :
    SameRecognised records records'' :=
  fun type ht => (h type ht).trans (h' type ht)

theorem cons (a : AnnotationRecord) {records records' : List AnnotationRecord}
    (h : SameRecognised records records') : SameRecognised (a :: records) (a :: records') := by
  intro type ht
  rw [List.filter_cons, List.filter_cons, h type ht]

theorem swap {a b : AnnotationRecord} (hab : a.type ≠ b.type) (rest : List AnnotationRecord) :
    SameRecognised (a :: b :: rest) (b :: a :: rest) := by
  intro type _
  by_cases ha : a.type = type
  · have hb : b.type ≠ type := fun hb => hab (ha.trans hb.symm)
    simp [ha, hb]
  · simp [List.filter_cons, ha]

theorem add {a : AnnotationRecord} (ha : a.type ∉ recognised)
    {records records' : List AnnotationRecord} (h : SameRecognised records records') :
    SameRecognised records (a :: records') := by
  intro type ht
  have hne : a.type ≠ type := fun e => ha (e ▸ ht)
  rw [h type ht, List.filter_cons, if_neg (by simpa using hne)]

section Read

variable {records records' : List AnnotationRecord} (h : SameRecognised records records')

include h

theorem find?_eq {type : String} (ht : type ∈ recognised) :
    find? type records = find? type records' := by
  unfold find?
  rw [← List.head?_filter, ← List.head?_filter, h type ht]

theorem mapping_eq :
    RequestMapping.ofRecords? records = RequestMapping.ofRecords? records' := by
  refine findSome?_congr fun rule hrule => ?_
  have ht : rule.1 ∈ recognised :=
    List.mem_append_left _ (List.mem_append_left _ (List.mem_append_left _
      (List.mem_map_of_mem hrule)))
  rw [h.find?_eq ht]

theorem binding_eq (name : String) :
    Binding.ofRecords? name records = Binding.ofRecords? name records' := by
  refine findSome?_congr fun rule hrule => ?_
  have ht : rule.1 ∈ recognised :=
    List.mem_append_left _ (List.mem_append_left _ (List.mem_append_right _
      (List.mem_map_of_mem hrule)))
  rw [h.find?_eq ht]

theorem documentation_eq : documentation records = documentation records' := by
  refine congrArg (·.getD "") (findSome?_congr fun rule hrule => ?_)
  have ht : rule.1 ∈ recognised :=
    List.mem_append_left _ (List.mem_append_right _ (List.mem_map_of_mem hrule))
  rw [h.find?_eq ht]

theorem description_eq (explicit : Option Value) :
    description records explicit = description records' explicit := by
  unfold description
  rw [h.documentation_eq]

theorem forbidsNull_eq : forbidsNull records = forbidsNull records' := by
  rw [forbidsNull_eq_any, forbidsNull_eq_any, Bool.eq_iff_iff, List.any_eq_true, List.any_eq_true]
  refine exists_congr fun type => and_congr_right fun htype => ?_
  rw [h.find?_eq (List.mem_append_right _ htype)]

end Read

end SameRecognised

end AnnotationRecord

/-! ## Values with other annotations -/

/-- The values have the same fields but for their annotations and for what stands under `keys`, and
of every annotation type that is looked for they have the same records in the same order. -/
structure Json.Value.Reannotated (keys : List String) (v v' : Value) : Prop where
  field?_eq : ∀ key, key ≠ "annotations" → key ∉ keys → v.field? key = v'.field? key
  annotations : AnnotationRecord.SameRecognised (Graph.annotations v) (Graph.annotations v')

/-- The values also have lists of items under `key`, which have the same fields one by one but for
their annotations. -/
structure Json.Value.ReannotatedWithin (key : String) (v v' : Value) : Prop
    extends Value.Reannotated [key] v v' where
  items : Forall₂ (Value.Reannotated []) (v.itemsOf key) (v'.itemsOf key)

/-- The values are graphs of the same kind, and other annotations may stand on their routes and the
parameters of these, on their classes and the members of these, and on their enums and the constants
of these. -/
structure Graph.Reannotated (raw raw' : Value) : Prop where
  kind : raw.kind = raw'.kind
  classes : Forall₂ (Value.ReannotatedWithin "members") (raw.itemsOf "classes")
    (raw'.itemsOf "classes")
  enums : Forall₂ (Value.ReannotatedWithin "constants") (raw.itemsOf "enums")
    (raw'.itemsOf "enums")
  routes : Forall₂ (Value.ReannotatedWithin "parameters") (raw.itemsOf "routes")
    (raw'.itemsOf "routes")

/-- The last field of an object shows under its own key only. -/
theorem Json.Value.field?_of_ne (fields : List (String × Value)) {k key : String} (h : key ≠ k)
    (w w' : Value) :
    (Value.object (fields ++ [(k, w)])).field? key =
      (Value.object (fields ++ [(k, w')])).field? key := by
  have hne : (key == k) = false := beq_false_of_ne h
  show (fields ++ [(k, w)]).lookup key = (fields ++ [(k, w')]).lookup key
  rw [List.lookup_append, List.lookup_append, List.lookup_cons, List.lookup_cons, hne]

namespace Json.Value.Reannotated

variable {keys : List String} {v v' : Value} (h : Reannotated keys v v')

include h

theorem text?_eq {key : String} (ha : key ≠ "annotations") (hk : key ∉ keys) :
    v.text? key = v'.text? key := by
  unfold text?
  rw [h.field?_eq key ha hk]

theorem itemsOf_eq {key : String} (ha : key ≠ "annotations") (hk : key ∉ keys) :
    v.itemsOf key = v'.itemsOf key := by
  unfold itemsOf
  rw [h.field?_eq key ha hk]

theorem name_eq (missing : Graph.Missing) (hk : "name" ∉ keys) :
    Graph.name missing v = Graph.name missing v' := by
  unfold Graph.name
  rw [h.text?_eq (by decide) hk]

theorem type?_eq (vars : List String) {key : String} (ha : key ≠ "annotations") (hk : key ∉ keys) :
    Graph.type? vars key v = Graph.type? vars key v' := by
  unfold Graph.type?
  rw [h.field?_eq key ha hk]

theorem typeParameters_eq (hk : "typeParameters" ∉ keys) :
    Graph.typeParameters v = Graph.typeParameters v' := by
  unfold Graph.typeParameters
  rw [h.itemsOf_eq (by decide) hk]

theorem description_eq (hk : "description" ∉ keys) :
    Graph.description v = Graph.description v' := by
  unfold Graph.description
  rw [h.field?_eq "description" (by decide) hk, h.annotations.description_eq]

end Json.Value.Reannotated

/-! ## Records decoded from such values -/

/-- The parameters are the same but for annotations that nothing looks for, and for the order of
annotations of different types. -/
structure ParameterRecord.Alike (p p' : ParameterRecord) : Prop where
  name : p.name = p'.name
  type : p.type = p'.type
  annotations : AnnotationRecord.SameRecognised p.annotations p'.annotations
  description : p.description = p'.description

/-- The routes are the same but for annotations that nothing looks for, and for the order of
annotations of different types. -/
structure RouteRecord.Alike (r r' : RouteRecord) : Prop where
  name : r.name = r'.name
  bean : r.bean = r'.bean
  annotations : AnnotationRecord.SameRecognised r.annotations r'.annotations
  methods : r.methods = r'.methods
  patterns : r.patterns = r'.patterns
  parameters : Forall₂ ParameterRecord.Alike r.parameters r'.parameters
  returnType : r.returnType = r'.returnType
  description : r.description = r'.description

/-- The classes are the same but for their annotations. -/
def ClassRecord.Alike (c c' : ClassRecord) : Prop :=
  { c with annotations := [] } = { c' with annotations := [] }

def EnumRecord.Alike (e e' : EnumRecord) : Prop :=
  { e with annotations := [] } = { e' with annotations := [] }

/-- The graphs have records that are alike, one by one. -/
structure Graph.Alike (graph graph' : Graph) : Prop where
  classes : Forall₂ ClassRecord.Alike graph.classes graph'.classes
  enums : Forall₂ EnumRecord.Alike graph.enums graph'.enums
  routes : Forall₂ RouteRecord.Alike graph.routes graph'.routes

namespace Graph

variable {α β : Type}

/-- Both fail in the same way, or both succeed and `R` relates the results. -/
inductive SameOutcome (R : α → β → Prop) : Except Missing α → Except Missing β → Prop
  | error (m : Missing) : SameOutcome R (.error m) (.error m)
  | ok {a : α} {b : β} : R a b → SameOutcome R (.ok a) (.ok b)

theorem SameOutcome.refl {R : α → α → Prop} (h : ∀ a, R a a) (x : Except Missing α) :
    SameOutcome R x x := by
  cases x with
  | error m => exact .error m
  | ok a => exact .ok (h a)

theorem SameOutcome.bind {γ δ : Type} {R : α → β → Prop} {S : γ → δ → Prop}
    {x : Except Missing α} {y : Except Missing β} (h : SameOutcome R x y)
    {f : α → Except Missing γ} {g : β → Except Missing δ}
    (hfg : ∀ a b, R a b → SameOutcome S (f a) (g b)) : SameOutcome S (x >>= f) (y >>= g) := by
  cases h with
  | error m => exact .error m
  | ok hab => exact hfg _ _ hab

/-- The first computation is the same. -/
theorem SameOutcome.bind_same {γ δ : Type} {S : γ → δ → Prop} (x : Except Missing α)
    {f : α → Except Missing γ} {g : α → Except Missing δ}
    (hfg : ∀ a, SameOutcome S (f a) (g a)) : SameOutcome S (x >>= f) (x >>= g) :=
  (SameOutcome.refl (fun _ => rfl) x).bind fun a _ hab => hab ▸ hfg a

theorem sameOutcome_decodeAll {P : Value → Value → Prop} {vs vs' : List Value}
    (hvs : Forall₂ P vs vs') {R : α → β → Prop} {decode : Nat → Value → Except Missing α}
    {decode' : Nat → Value → Except Missing β}
    (h : ∀ i v v', P v v' → SameOutcome R (decode i v) (decode' i v')) (i : Nat) :
    SameOutcome (Forall₂ R) (decodeAll decode i vs) (decodeAll decode' i vs') := by
  -- Of the two lists the items at one index fail together, so the same index is reported.
  induction hvs generalizing i with
  | nil => exact .ok .nil
  | cons hv _ ih =>
      refine (h i _ _ hv).bind fun first first' hfirst => ?_
      exact (ih (i + 1)).bind fun others others' hothers => .ok (.cons hfirst hothers)

theorem decodeAll_eq {P : Value → Value → Prop} {vs vs' : List Value} (hvs : Forall₂ P vs vs')
    {decode : Nat → Value → Except Missing α} (h : ∀ i v v', P v v' → decode i v = decode i v')
    (i : Nat) : decodeAll decode i vs = decodeAll decode i vs' := by
  induction hvs generalizing i with
  | nil => rfl
  | cons hv _ ih => rw [decodeAll, decodeAll, h i _ _ hv, ih]

theorem forall₂_mapIdx {P : α → α → Prop} {R : β → β → Prop} {as as' : List α}
    (has : Forall₂ P as as') {f g : Nat → α → β} (h : ∀ i a a', P a a' → R (f i a) (g i a')) :
    Forall₂ R (as.mapIdx f) (as'.mapIdx g) := by
  induction has generalizing f g with
  | nil => exact .nil
  | cons ha _ ih =>
      rw [List.mapIdx_cons, List.mapIdx_cons]
      exact .cons (h 0 _ _ ha) (ih fun i a a' => h (i + 1) a a')

variable {v v' : Value}

theorem decodeMember_eq (h : Value.Reannotated [] v v') (vars : List String) (missing : Missing) :
    decodeMember vars missing v = decodeMember vars missing v' := by
  have hoptional : isOptional v = isOptional v' := by
    unfold isOptional
    rw [h.field?_eq "optional" (by decide) List.not_mem_nil,
      h.field?_eq "required" (by decide) List.not_mem_nil, h.annotations.forbidsNull_eq]
  unfold decodeMember
  rw [h.name_eq missing List.not_mem_nil, h.type?_eq vars (by decide) List.not_mem_nil, hoptional,
    h.description_eq List.not_mem_nil]

theorem decodeConstant_eq (h : Value.Reannotated [] v v') (missing : Missing) :
    decodeConstant missing v = decodeConstant missing v' := by
  have hmemo : memo v = memo v' := by
    unfold memo
    rw [h.field?_eq "memo" (by decide) List.not_mem_nil,
      h.field?_eq "properties" (by decide) List.not_mem_nil]
  unfold decodeConstant
  rw [h.name_eq missing List.not_mem_nil, h.field?_eq "value" (by decide) List.not_mem_nil,
    h.description_eq List.not_mem_nil, hmemo]

theorem sameOutcome_decodeClass (i : Nat) (h : Value.ReannotatedWithin "members" v v') :
    SameOutcome ClassRecord.Alike (decodeClass i v) (decodeClass i v') := by
  have hvars := h.typeParameters_eq (by decide)
  have hmembers (vars : List String) :
      decodeAll (fun j => decodeMember vars (.memberName i j)) 0 (v.itemsOf "members") =
        decodeAll (fun j => decodeMember vars (.memberName i j)) 0 (v'.itemsOf "members") :=
    decodeAll_eq h.items (fun j _ _ hw => decodeMember_eq hw vars (.memberName i j)) 0
  have hsuper (vars : List String) : superclass vars v = superclass vars v' := by
    unfold superclass
    rw [h.type?_eq vars (by decide) (by decide)]
  have hdescription := h.description_eq (by decide)
  -- The members keep no annotations and are the same; only the bag of the class itself differs.
  unfold decodeClass
  dsimp only
  rw [h.name_eq _ (by decide), hvars, hmembers, hsuper, hdescription]
  exact .bind_same _ fun n => .bind_same _ fun members => .ok rfl

theorem sameOutcome_decodeEnum (i : Nat) (h : Value.ReannotatedWithin "constants" v v') :
    SameOutcome EnumRecord.Alike (decodeEnum i v) (decodeEnum i v') := by
  have hconstants :
      decodeAll (fun j => decodeConstant (.constantName i j)) 0 (v.itemsOf "constants") =
        decodeAll (fun j => decodeConstant (.constantName i j)) 0 (v'.itemsOf "constants") :=
    decodeAll_eq h.items (fun j _ _ hw => decodeConstant_eq hw (.constantName i j)) 0
  unfold decodeEnum
  rw [h.name_eq _ (by decide), hconstants, h.description_eq (by decide)]
  exact .bind_same _ fun n => .bind_same _ fun constants => .ok rfl

theorem decodeParameter_alike (vars : List String) (i : Nat) (h : Value.Reannotated [] v v') :
    (decodeParameter vars i v).Alike (decodeParameter vars i v') where
  name := by
    unfold decodeParameter
    rw [h.text?_eq (by decide) List.not_mem_nil]
  type := h.type?_eq vars (by decide) List.not_mem_nil
  annotations := h.annotations
  description := h.description_eq List.not_mem_nil

theorem sameOutcome_decodeRoute (i : Nat) (h : Value.ReannotatedWithin "parameters" v v') :
    SameOutcome RouteRecord.Alike (decodeRoute i v) (decodeRoute i v') := by
  have hvars := h.typeParameters_eq (by decide)
  have hmethods : v.itemsOf "methods" = v'.itemsOf "methods" :=
    h.itemsOf_eq (by decide) (by decide)
  have hpatterns : v.itemsOf "patterns" = v'.itemsOf "patterns" :=
    h.itemsOf_eq (by decide) (by decide)
  have hparameters (vars : List String) :
      Forall₂ ParameterRecord.Alike ((v.itemsOf "parameters").mapIdx (decodeParameter vars))
        ((v'.itemsOf "parameters").mapIdx (decodeParameter vars)) :=
    forall₂_mapIdx h.items fun i _ _ hw => decodeParameter_alike vars i hw
  unfold decodeRoute
  dsimp only
  rw [h.name_eq _ (by decide), hvars, hmethods, hpatterns,
    h.field?_eq "bean" (by decide) (by decide), h.type?_eq _ (by decide) (by decide),
    h.description_eq (by decide)]
  exact .bind_same _ fun n => .ok ⟨rfl, rfl, h.annotations, rfl, rfl, hparameters _, rfl, rfl⟩

theorem routeValues_eq (v : Value) :
    routeValues v =
      if v.kind = .object then
        if (v.itemsOf "routes").isEmpty then .error .routes else .ok (v.itemsOf "routes")
      else .error .graph := by
  cases v with
  | object _ => rfl
  | _ => rfl

theorem sameOutcome_routeValues {raw raw' : Value} (h : Graph.Reannotated raw raw') :
    SameOutcome (Forall₂ (Value.ReannotatedWithin "parameters")) (routeValues raw)
      (routeValues raw') := by
  have hroutes := h.routes
  rw [routeValues_eq, routeValues_eq, h.kind]
  generalize raw.itemsOf "routes" = vs at hroutes
  generalize raw'.itemsOf "routes" = vs' at hroutes
  split
  · cases hroutes with
    | nil => exact .error _
    | cons hv hrest => exact .ok (.cons hv hrest)
  · exact .error _

/-- Graphs with other annotations are decoded to records that are alike, or lack the same name. -/
theorem sameOutcome_decode {raw raw' : Value} (h : Graph.Reannotated raw raw') :
    SameOutcome Graph.Alike (decode raw) (decode raw') := by
  refine (sameOutcome_routeValues h).bind fun vs vs' hvs => ?_
  refine (sameOutcome_decodeAll h.classes (fun i _ _ => sameOutcome_decodeClass i) 0).bind
    fun cs cs' hcs => ?_
  refine (sameOutcome_decodeAll h.enums (fun i _ _ => sameOutcome_decodeEnum i) 0).bind
    fun es es' hes => ?_
  exact (sameOutcome_decodeAll hvs (fun i _ _ => sameOutcome_decodeRoute i) 0).bind
    fun rs rs' hrs => .ok ⟨hcs, hes, hrs⟩

end Graph

/-! ## Models assembled from such records -/

theorem forall₂_zipWith_left {α β γ : Type} {P : α → α → Prop} {R : γ → γ → Prop} {as as' : List α}
    (h : Forall₂ P as as') {f g : α → β → γ} (hfg : ∀ a a' b, P a a' → R (f a b) (g a' b))
    (bs : List β) : Forall₂ R (List.zipWith f as bs) (List.zipWith g as' bs) := by
  induction h generalizing bs with
  | nil => exact .nil
  | cons ha _ ih =>
      cases bs with
      | nil => exact .nil
      | cons b rest => exact .cons (hfg _ _ b ha) (ih rest)

theorem ClassRecord.Alike.name_eq {c c' : ClassRecord} (h : c.Alike c') : c.name = c'.name :=
  show { c with annotations := [] }.name = { c' with annotations := [] }.name from congrArg _ h

/-- Under one simple name such classes are the same declaration but for annotations. -/
theorem ClassRecord.Alike.sameButAnnotations {c c' : ClassRecord} (h : c.Alike c')
    (simpleName : String) :
    (Declaration.ofClass ⟨c, simpleName⟩).SameButAnnotations (.ofClass ⟨c', simpleName⟩) :=
  congrArg (fun c : ClassRecord => Declaration.ofClass ⟨c, simpleName⟩) h

theorem EnumRecord.Alike.name_eq {e e' : EnumRecord} (h : e.Alike e') : e.name = e'.name :=
  show { e with annotations := [] }.name = { e' with annotations := [] }.name from congrArg _ h

theorem EnumRecord.Alike.sameButAnnotations {e e' : EnumRecord} (h : e.Alike e')
    (simpleName : String) :
    (Declaration.ofEnum ⟨e, simpleName⟩).SameButAnnotations (.ofEnum ⟨e', simpleName⟩) :=
  congrArg (fun e : EnumRecord => Declaration.ofEnum ⟨e, simpleName⟩) h

namespace Assembly

theorem entrywise_table (separator : String) {graph graph' : Graph} (h : graph.Alike graph') :
    (Assembly.table separator graph).Entrywise Declaration.SameButAnnotations
      (Assembly.table separator graph') := by
  have hclassNames : graph.classes.map (fun c => Text.Identifier.simpleName c.name) =
      graph'.classes.map fun c => Text.Identifier.simpleName c.name :=
    map_eq_of_forall₂ (fun _ _ hc => congrArg Text.Identifier.simpleName hc.name_eq) h.classes
  have henumNames : graph.enums.map (fun e => Text.Identifier.simpleName e.name) =
      graph'.enums.map fun e => Text.Identifier.simpleName e.name :=
    map_eq_of_forall₂ (fun _ _ he => congrArg Text.Identifier.simpleName he.name_eq) h.enums
  refine DeclarationTable.entrywise_ofList (fun _ _ hd => hd.shape.name_eq) ?_
  rw [hclassNames, henumNames]
  refine List.rel_append ?_ ?_
  · exact forall₂_zipWith_left h.classes (fun _ _ n hc => hc.sameButAnnotations n) _
  · exact forall₂_zipWith_left h.enums (fun _ _ n he => he.sameButAnnotations n) _

variable (options : ModelOptions) (table : DeclarationTable)

theorem parameter_of_alike (method : String) {p p' : ParameterRecord} (h : p.Alike p') :
    parameter options table method p = parameter options table method p' := by
  unfold parameter binding
  rw [h.name, h.type, h.description, h.annotations.binding_eq]

theorem route_of_alike {r r' : RouteRecord} (h : r.Alike r') (uniqueName : String) :
    route options table r uniqueName = route options table r' uniqueName := by
  have hparameters (method : String) : r.parameters.map (parameter options table method) =
      r'.parameters.map (parameter options table method) :=
    map_eq_of_forall₂ (fun _ _ hp => parameter_of_alike options table method hp) h.parameters
  unfold route
  simp only [hparameters, h.annotations.mapping_eq, h.name, h.bean, h.methods, h.patterns,
    h.returnType, h.description]

theorem routes_of_alike {records records' : List RouteRecord}
    (h : Forall₂ RouteRecord.Alike records records') :
    routes options table records = routes options table records' := by
  have hkept : Forall₂ RouteRecord.Alike
      (records.filter fun r => keeps options.apis r.bean r.name)
      (records'.filter fun r => keeps options.apis r.bean r.name) := by
    refine List.rel_filter (fun r r' hr => ?_) h
    show keeps options.apis r.bean r.name = true ↔ keeps options.apis r'.bean r'.name = true
    rw [hr.bean, hr.name]
  have hnames := map_eq_of_forall₂ (fun _ _ hr => hr.name) hkept
  unfold routes
  dsimp only
  rw [hnames, ← List.forall₂_eq_eq_eq]
  exact forall₂_zipWith_left hkept (fun _ _ n hr => route_of_alike options table hr n) _

end Assembly

/-- Graphs whose records are alike have models that are written alike. -/
theorem Model.writtenAlike_of_alike (options : ModelOptions) {graph graph' : Graph}
    (h : graph.Alike graph') : (assemble options graph).WrittenAlike (assemble options graph') := by
  have htable := Assembly.entrywise_table options.separator h
  have hcorresponds : (Assembly.table options.separator graph).Corresponds
      Declaration.SameButAnnotations (Assembly.table options.separator graph') :=
    ⟨Declaration.SameButAnnotations.shape, htable.finds⟩
  refine writtenAlike_assemble hcorresponds (fun _ => htable.declarations) ?_
  exact (Assembly.routes_eq hcorresponds graph.routes).trans
    (Assembly.routes_of_alike options _ h.routes)

/-- Let two graphs differ in annotations only, and of every annotation type that is looked for let
everything that can be annotated have the same well-formed records in the same order.  Then their
builds are the same for every target, base address and settings: the same code, or the same
error. -/
theorem build_of_reannotated {raw raw' : Value} (h : Graph.Reannotated raw raw')
    (target base : Value) (options : BuildOptions) :
    build target base raw options = build target base raw' options := by
  refine build_congr (fun t => ?_) target
  have hdecode := Graph.sameOutcome_decode h
  unfold buildTarget Model.ofJson
  generalize Graph.decode raw = x at hdecode
  generalize Graph.decode raw' = y at hdecode
  cases hdecode with
  | error m => rfl
  | ok hgraph =>
      exact Build.emit_eq (Model.writtenAlike_of_alike (Build.modelOptions t options) hgraph) t base
        options

/-- A mapping after the documentation in place of before it, with a record between that nothing
looks for and a malformed one, and another such record on a member that must not be null. -/
theorem build_of_reannotated_moved :
    let annotation (type value : String) : Value :=
      .object [("type", .string type), ("attributes", .object [("value", .string value)])]
    let mapping := annotation "org.springframework.web.bind.annotation.GetMapping" "/orders"
    let summary := annotation "io.swagger.annotations.ApiOperation" "All orders"
    let nonNull := annotation "lombok.NonNull" ""
    let other := annotation "java.lang.Deprecated" ""
    let graph (ofRoute ofMember : List Value) : Value := .object
      [("classes", .array [.object
         [("name", .string "shop.Order"), ("members", .array [.object
           [("name", .string "id"), ("type", .string "long"),
            ("annotations", .array ofMember)]])]]),
       ("routes", .array [.object
         [("name", .string "list"), ("bean", .string "Shop"), ("returnType", .string "shop.Order"),
          ("annotations", .array ofRoute)]])]
    let raw := graph [mapping, summary] [nonNull]
    let raw' := graph [summary, other, .null, mapping] [other, nonNull]
    Graph.Reannotated raw raw' ∧
      ∀ target base options, build target base raw options = build target base raw' options := by
  intro annotation mapping summary nonNull other graph raw raw'
  have hmapping : AnnotationRecord.SameRecognised (AnnotationRecord.listOfJson (some (.array
      [mapping, summary]))) (AnnotationRecord.listOfJson (some (.array
      [summary, other, .null, mapping]))) :=
    .trans (.swap (by decide) []) (.cons _ (.add (by decide) (.refl _)))
  have hnonNull : AnnotationRecord.SameRecognised
      (AnnotationRecord.listOfJson (some (.array [nonNull])))
      (AnnotationRecord.listOfJson (some (.array [other, nonNull]))) :=
    .add (by decide) (.refl _)
  have reannotated : Graph.Reannotated raw raw' := by
    refine ⟨rfl, .cons ⟨⟨fun key ha hk => ?_, ?_⟩, .cons ⟨fun key ha hk => ?_, ?_⟩ .nil⟩ .nil, .nil,
      .cons ⟨⟨fun key ha hk => ?_, ?_⟩, .nil⟩ .nil⟩
    · exact Value.field?_of_ne [_] (List.ne_of_not_mem_cons hk) _ _
    · exact .refl []
    · exact Value.field?_of_ne [_, _] ha _ _
    · exact hnonNull
    · exact Value.field?_of_ne [_, _, _] ha _ _
    · exact hmapping
  exact ⟨reannotated, build_of_reannotated reannotated⟩

end ApiStubs
