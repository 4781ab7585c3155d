import ApiStubs.Proofs.Samples
import ApiStubs.Proofs.TypeVariables

/-!
# What interfaces extend

A class without members becomes another name for its superclass, so that what an interface extends
may be anything the name stands for.  `StandsFor` is one step from such a name to what it is a name
for, with type arguments put for type parameters, and `EndsAt` says where all steps lead to.

An interface never extends the unknown type itself.  It may extend a name for it, since what is
looked at is only the superclass and not what that stands for.  `extends_unknown_iff` says exactly
when: in a hierarchy without cycles, in which no superclass is a type parameter, the steps come to an
end, and the end is the unknown type exactly if the superclass passes on, through classes without
members, to one whose own superclass cannot be resolved.  `base_unknown_extended` is a graph with
such a class.
-/

namespace ApiStubs

open Relation
open Resolved (ofType ofNamed ofMap ofType_eq_var looksUp_of_ofType)

namespace Resolved

/-! ## Types put for variables -/

mutual

/-- The type with other types put for its variables. -/
def instantiate (σ : String → Resolved) : Resolved → Resolved
  | .unknown => .unknown
  | .void => .void
  | .var name => σ name
  | .special type => .special type
  | .primitive type => .primitive type
  | .map none value => .map none (instantiate σ value)
  | .map (some key) value => .map (some (instantiate σ key)) (instantiate σ value)
  | .list item => .list (instantiate σ item)
  | .optional content => .optional (instantiate σ content)
  | .tuple items => .tuple (instantiateAll σ items)
  | .ofClass c args => .ofClass c (instantiateAll σ args)
  | .ofEnum e => .ofEnum e

def instantiateAll (σ : String → Resolved) : List Resolved → List Resolved
  | [] => []
  | t :: rest => instantiate σ t :: instantiateAll σ rest

end

variable {σ : String → Resolved} {t : Resolved}

theorem instantiate_eq_unknown_iff :
    t.instantiate σ = .unknown ↔ t = .unknown ∨ ∃ v, t = .var v ∧ σ v = .unknown := by
  cases t with
  | map key value => cases key <;> simp [instantiate]
  | _ => simp [instantiate]

theorem of_instantiate_eq_ofClass {c : Class} {args : List Resolved}
    (h : t.instantiate σ = .ofClass c args) :
    (∃ args', t = .ofClass c args') ∨ ∃ v, t = .var v := by
  cases t with
  | var v => exact Or.inr ⟨v, rfl⟩
  | ofClass d args' =>
      rw [instantiate] at h
      cases (ofClass.inj h).1
      exact Or.inl ⟨args', rfl⟩
  | map key value =>
      cases key with
      | _ => exact absurd h (by simp [instantiate])
  | _ => exact absurd h (by simp [instantiate])

/-- A type means a class only if that has the type's name. -/
theorem find?_of_ofType_eq_ofClass {table : DeclarationTable} {t : TypeExpr} {c : Class}
    {args : List Resolved} (h : ofType table t = .ofClass c args) :
    table.find? t.name = some (.ofClass c) := by
  have hlooks : LooksUp table t (.ofClass c) := by
    refine looksUp_of_ofType ?_
    rw [h]
    rfl
  cases hlooks with
  | name _ hd => exact hd
  | key hn _ _ =>
      rw [ofType, ofNamed.eq_def, hn] at h
      exact absurd h (by simp [ofMap])

end Resolved

/-- What the type parameters of a class stand for where it has the given arguments. -/
def Class.binding (c : Class) (args : List Resolved) (v : String) : Resolved :=
  ((c.typeParameters.zip args).lookup v).getD (.var v)

namespace Ts

/-! ## Names for other types -/

theorem ofClass_eq_sameAs_iff {table : DeclarationTable} {c : Class} {type : Resolved} :
    TypeBody.ofClass table c = .sameAs type ↔
      c.members = [] ∧ ∃ t, c.superclass = some t ∧ type = ofType table t := by
  unfold TypeBody.ofClass
  cases hm : c.members with
  | nil =>
      cases hs : c.superclass with
      | none => simp
      | some t => simp [eq_comm]
  | cons m rest => simp

theorem of_ofClass_eq_record {table : DeclarationTable} {c : Class} {parent : Resolved}
    {fields : List Field} (h : TypeBody.ofClass table c = .record (some parent) fields) :
    ∃ t, c.superclass = some t ∧ parent = ofType table t ∧ parent ≠ .unknown := by
  have hparent : (c.superclass.map (ofType table)).filter
      (fun type => typeText type ≠ unknownType) = some parent := by
    simp only [TypeBody.ofClass] at h
    split at h
    · exact absurd h (by simp)
    · exact (TypeBody.record.inj h).1
  obtain ⟨hmap, htext⟩ := Option.filter_eq_some_iff.mp hparent
  obtain ⟨t, ht, rfl⟩ := Option.map_eq_some_iff.mp hmap
  refine ⟨t, ht, rfl, fun hu => ?_⟩
  have hunknown : typeText .unknown = unknownType := rfl
  exact of_decide_eq_true htext (hu ▸ hunknown)

/-- `StandsFor model t u`: the type `t` is a class that is put out as another name for `u`. -/
inductive StandsFor (model : Model) : Resolved → Resolved → Prop
  | intro {c : Class} {type : Resolved} (args : List Resolved) : c ∈ model.classes →
      TypeBody.ofClass model.table c = .sameAs type →
      StandsFor model (.ofClass c args) (type.instantiate (c.binding args))

theorem StandsFor.exists_class {model : Model} {t u : Resolved} (h : StandsFor model t u) :
    ∃ c args type, t = .ofClass c args ∧ c ∈ model.classes ∧
      TypeBody.ofClass model.table c = .sameAs type ∧ u = type.instantiate (c.binding args) := by
  cases h with
  | intro args hc hbody => exact ⟨_, args, _, rfl, hc, hbody, rfl⟩

/-- `LeadsTo model t u`: the type `t` is in the end a name for `u`, in no step or in several. -/
abbrev LeadsTo (model : Model) : Resolved → Resolved → Prop :=
  ReflTransGen (StandsFor model)

/-- `EndsAt model t w`: the type `t` leads to `w`, and if that is a class, it is put out as an
interface. -/
structure EndsAt (model : Model) (t w : Resolved) : Prop where
  leads : LeadsTo model t w
  interface : ∀ c args, w = .ofClass c args →
    c ∈ model.classes ∧ ∃ parent fields, TypeBody.ofClass model.table c = .record parent fields

/-- The interface of a class is put out with a clause by which it extends the type `parent`. -/
def Extended (model : Model) (c : Class) (parent : Resolved) : Prop :=
  c ∈ model.classes ∧ ∃ fields, TypeBody.ofClass model.table c = .record (some parent) fields

/-- `PassesOn table c p`: a class without members passes on to its superclass. -/
def PassesOn (table : DeclarationTable) (c p : Class) : Prop :=
  c.members = [] ∧ ∃ t args, c.superclass = some t ∧ ofType table t = .ofClass p args

/-- A class without members whose superclass cannot be resolved. -/
def Lost (table : DeclarationTable) (c : Class) : Prop :=
  c.members = [] ∧ ∃ t, c.superclass = some t ∧ ofType table t = .unknown

theorem passesOn_iff {table : DeclarationTable} {c p : Class} :
    PassesOn table c p ↔ ∃ args, TypeBody.ofClass table c = .sameAs (.ofClass p args) := by
  constructor
  · rintro ⟨hm, t, args, ht, hp⟩
    exact ⟨args, ofClass_eq_sameAs_iff.mpr ⟨hm, t, ht, hp.symm⟩⟩
  · rintro ⟨args, hbody⟩
    obtain ⟨hm, t, ht, hp⟩ := ofClass_eq_sameAs_iff.mp hbody
    exact ⟨hm, t, args, ht, hp.symm⟩

theorem lost_iff {table : DeclarationTable} {c : Class} :
    Lost table c ↔ TypeBody.ofClass table c = .sameAs .unknown := by
  rw [ofClass_eq_sameAs_iff, Lost]
  simp only [eq_comm]

variable {model : Model}

theorem Extended.ne_unknown {c : Class} {parent : Resolved} (h : Extended model c parent) :
    parent ≠ .unknown := by
  obtain ⟨_, fields, hbody⟩ := h
  obtain ⟨_, _, _, hne⟩ := of_ofClass_eq_record hbody
  exact hne

/-- The last step to the unknown type is from a class whose superclass is not resolved, or from one
whose superclass is a type parameter for which the unknown type is put. -/
theorem leadsTo_unknown_iff {t : Resolved} (h : t ≠ .unknown) :
    LeadsTo model t .unknown ↔
      ∃ d args type, LeadsTo model t (.ofClass d args) ∧ d ∈ model.classes ∧
        TypeBody.ofClass model.table d = .sameAs type ∧
        (type = .unknown ∨ ∃ v, type = .var v ∧ d.binding args v = .unknown) := by
  constructor
  · intro hleads
    rcases ReflTransGen.cases_tail hleads with hu | ⟨u, hu, hstep⟩
    · exact absurd hu.symm h
    · obtain ⟨d, args, type, rfl, hd, hbody, htype⟩ := hstep.exists_class
      exact ⟨d, args, type, hu, hd, hbody, Resolved.instantiate_eq_unknown_iff.mp htype.symm⟩
  · rintro ⟨d, args, type, hleads, hd, hbody, htype⟩
    have hstep := StandsFor.intro args hd hbody
    rw [Resolved.instantiate_eq_unknown_iff.mpr htype] at hstep
    exact hleads.tail hstep

/-- A type stands for one other type at most. -/
theorem standsFor_unique {t u w : Resolved} (hu : StandsFor model t u) (hw : StandsFor model t w) :
    u = w := by
  cases hu with
  | intro _ _ hbody =>
      cases hw with
      | intro _ _ hbody' => rw [TypeBody.sameAs.inj (hbody.symm.trans hbody')]

theorem EndsAt.not_standsFor {t w u : Resolved} (h : EndsAt model t w) : ¬ StandsFor model w u := by
  intro hstep
  cases hstep with
  | intro _ _ hbody =>
      obtain ⟨_, parent, fields, hrecord⟩ := h.interface _ _ rfl
      exact absurd (hbody.symm.trans hrecord) (by simp)

/-- A type ends at one type at most. -/
theorem EndsAt.unique {t w w' : Resolved} (h : EndsAt model t w) (h' : EndsAt model t w') :
    w = w' := by
  obtain ⟨hleads, hinterface⟩ := h
  induction hleads using ReflTransGen.head_induction_on with
  | refl =>
      rcases ReflTransGen.cases_head h'.leads with e | ⟨u, hstep, _⟩
      · exact e
      · exact absurd hstep (EndsAt.not_standsFor ⟨.refl, hinterface⟩)
  | head hstep _ ih =>
      rcases ReflTransGen.cases_head h'.leads with rfl | ⟨u, hstep', hrest⟩
      · exact absurd hstep h'.not_standsFor
      · cases standsFor_unique hstep hstep'
        exact ih ⟨hrest, h'.interface⟩

/-! ## Where the steps end -/

/-- Without cycles, going from superclass to superclass comes to an end. -/
theorem acc_extends {table : DeclarationTable} {classes : List Class}
    (closed : ∀ c ∈ classes, ∀ p, Extends table c p → p ∈ classes)
    (acyclic : ∀ c ∈ classes, ¬ Descends table c c) :
    ∀ c ∈ classes, Acc (fun p c => Extends table c p) c := by
  -- Being an ancestor is well founded on the listed classes, which are finitely many.
  have : Finite {c // c ∈ classes} := (List.finite_toSet classes).to_subtype
  let above : {c // c ∈ classes} → {c // c ∈ classes} → Prop := fun p c => Descends table c.1 p.1
  have : IsTrans _ above := ⟨fun _ _ _ h h' => h'.trans h⟩
  have : Std.Irrefl above := ⟨fun c h => acyclic c.1 c.2 h⟩
  have wf : WellFounded above := Finite.wellFounded_of_trans_of_irrefl above
  intro c hc
  have hacc := wf.apply ⟨c, hc⟩
  generalize hs : (⟨c, hc⟩ : {c // c ∈ classes}) = s at hacc
  induction hacc generalizing c with
  | intro s _ ih =>
      subst hs
      refine ⟨c, fun p hp => ?_⟩
      exact ih ⟨p, closed c hc p hp⟩ (.single hp) p (closed c hc p hp) rfl

section Chains

variable (closed : ∀ c ∈ model.classes, ∀ p, Extends model.table c p → p ∈ model.classes)
  (proper : ∀ c ∈ model.classes, ∀ v, c.superclass ≠ some (.var v))

theorem PassesOn.extends {table : DeclarationTable} {c p : Class} (h : PassesOn table c p) :
    Extends table c p := by
  obtain ⟨_, t, args, ht, hp⟩ := h
  exact ⟨t, ht, Resolved.find?_of_ofType_eq_ofClass hp⟩

include proper in
theorem not_sameAs_var {c : Class} (hc : c ∈ model.classes) (v : String) :
    TypeBody.ofClass model.table c ≠ .sameAs (.var v) := by
  intro hbody
  obtain ⟨_, t, ht, hv⟩ := ofClass_eq_sameAs_iff.mp hbody
  exact proper c hc v (ofType_eq_var hv.symm ▸ ht)

include proper in
/-- Where no superclass is a type parameter, a class stands for the unknown type if its superclass
is not resolved. -/
theorem lost_of_standsFor {c : Class} {args : List Resolved}
    (h : StandsFor model (.ofClass c args) .unknown) : Lost model.table c := by
  obtain ⟨d, _, type, hd, hc, hbody, htype⟩ := h.exists_class
  cases (Resolved.ofClass.inj hd).1
  rcases Resolved.instantiate_eq_unknown_iff.mp htype.symm with rfl | ⟨v, rfl, _⟩
  · exact lost_iff.mpr hbody
  · exact absurd hbody (not_sameAs_var proper hc v)

include proper in
/-- Where no superclass is a type parameter, a class stands for another one if it passes on to it. -/
theorem passesOn_of_standsFor {c p : Class} {args args' : List Resolved}
    (h : StandsFor model (.ofClass c args) (.ofClass p args')) : PassesOn model.table c p := by
  obtain ⟨d, _, type, hd, hc, hbody, htype⟩ := h.exists_class
  cases (Resolved.ofClass.inj hd).1
  rcases Resolved.of_instantiate_eq_ofClass htype.symm with ⟨args', rfl⟩ | ⟨v, rfl⟩
  · exact passesOn_iff.mpr ⟨args', hbody⟩
  · exact absurd hbody (not_sameAs_var proper hc v)

theorem Lost.leadsTo {c : Class} (h : Lost model.table c) (hc : c ∈ model.classes)
    (args : List Resolved) : LeadsTo model (.ofClass c args) .unknown := by
  have hstep := StandsFor.intro args hc (lost_iff.mp h)
  rw [Resolved.instantiate] at hstep
  exact .single hstep

theorem PassesOn.standsFor {c p : Class} (h : PassesOn model.table c p) (hc : c ∈ model.classes)
    (args : List Resolved) : ∃ args', StandsFor model (.ofClass c args) (.ofClass p args') := by
  obtain ⟨_, hbody⟩ := passesOn_iff.mp h
  have hstep := StandsFor.intro args hc hbody
  rw [Resolved.instantiate] at hstep
  exact ⟨_, hstep⟩

include closed in
theorem leadsTo_of_passesOn {c d : Class} (h : ReflTransGen (PassesOn model.table) c d)
    (hd : Lost model.table d) (hc : c ∈ model.classes) (args : List Resolved) :
    LeadsTo model (.ofClass c args) .unknown := by
  induction h using ReflTransGen.head_induction_on generalizing args with
  | refl => exact hd.leadsTo hc args
  | head hstep _ ih =>
      obtain ⟨args', hs⟩ := hstep.standsFor hc args
      exact .head hs (ih (closed _ hc _ hstep.extends) args')

include proper in
theorem exists_lost_of_leadsTo {t : Resolved} (h : LeadsTo model t .unknown) (ht : t ≠ .unknown) :
    ∃ c args d, t = .ofClass c args ∧ ReflTransGen (PassesOn model.table) c d ∧
      Lost model.table d := by
  induction h using ReflTransGen.head_induction_on with
  | refl => exact absurd rfl ht
  | @head t u hstep _ ih =>
      obtain ⟨c, args, _, rfl, _⟩ := hstep.exists_class
      by_cases hu : u = .unknown
      · exact ⟨c, args, c, rfl, .refl, lost_of_standsFor proper (hu ▸ hstep)⟩
      · obtain ⟨p, args', d, rfl, hpd, hd⟩ := ih hu
        exact ⟨c, args, d, rfl, .head (passesOn_of_standsFor proper hstep) hpd, hd⟩

include closed proper in
/-- The steps from a class come to an end. -/
theorem exists_endsAt {c : Class} (hacc : Acc (fun p c => Extends model.table c p) c)
    (hc : c ∈ model.classes) (args : List Resolved) :
    ∃ w, EndsAt model (.ofClass c args) w := by
  induction hacc generalizing args with
  | intro c _ ih =>
      cases hbody : TypeBody.ofClass model.table c with
      | record parent fields =>
          refine ⟨.ofClass c args, .refl, fun d args' hd => ?_⟩
          cases (Resolved.ofClass.inj hd).1
          exact ⟨hc, parent, fields, hbody⟩
      | sameAs type =>
          have hstep := StandsFor.intro args hc hbody
          generalize type.instantiate (c.binding args) = u at hstep
          by_cases hu : ∃ p args', u = .ofClass p args'
          · -- The arguments change from step to step, so the induction is on the class alone.
            obtain ⟨p, args', rfl⟩ := hu
            have hp := (passesOn_of_standsFor proper hstep).extends
            obtain ⟨w, hw⟩ := ih p hp (closed c hc p hp) args'
            exact ⟨w, .head hstep hw.leads, hw.interface⟩
          · exact ⟨u, .single hstep, fun d args' hd => absurd ⟨d, args', hd⟩ hu⟩

include closed in
/-- A type that is the superclass of a class leads to the unknown type if it passes on, through
classes without members, to one whose superclass is not resolved. -/
theorem endsAt_unknown_of_passesOn {c : Class} (hc : c ∈ model.classes) {t : TypeExpr}
    (ht : c.superclass = some t) {p d : Class} {args : List Resolved}
    (hp : ofType model.table t = .ofClass p args)
    (hpd : ReflTransGen (PassesOn model.table) p d) (hd : Lost model.table d) :
    EndsAt model (ofType model.table t) .unknown := by
  have hmem : p ∈ model.classes := closed c hc p ⟨t, ht, Resolved.find?_of_ofType_eq_ofClass hp⟩
  refine ⟨hp ▸ leadsTo_of_passesOn closed hpd hd hmem args, ?_⟩
  exact fun _ _ h => absurd h (by simp)

include closed proper in
/-- Without cycles, what a class extends ends somewhere. -/
theorem exists_endsAt_of_superclass (acyclic : ∀ c ∈ model.classes, ¬ Descends model.table c c)
    {c : Class} (hc : c ∈ model.classes) {t : TypeExpr} (ht : c.superclass = some t) :
    ∃ w, EndsAt model (ofType model.table t) w := by
  by_cases h : ∃ p args, ofType model.table t = .ofClass p args
  · obtain ⟨p, args, hp⟩ := h
    have hmem : p ∈ model.classes := closed c hc p ⟨t, ht, Resolved.find?_of_ofType_eq_ofClass hp⟩
    rw [hp]
    exact exists_endsAt closed proper (acc_extends closed acyclic p hmem) hmem args
  · exact ⟨_, .refl, fun p args hp => absurd ⟨p, args, hp⟩ h⟩

end Chains

/-! ## Files -/

/-- The headers of all classes stand in the file, with the types that interfaces extend and with
those that aliases are names for.  No interface extends the unknown type itself; one that extends a
name for it leads to a class whose superclass is not resolved, or is a type parameter for which the
unknown type is put.  In a hierarchy without cycles, and without type parameters as superclasses,
what is extended ends at one type, and this is unknown exactly if the superclass passes on to a
class without members whose own superclass is not resolved. -/
theorem extends_unknown_iff {base raw : Json.Value} {options : BuildOptions} {result : BuildResult}
    (built : build (.string Target.ts.name) base raw options = .ok result) :
    ∃ model document, Writes base raw options result model document ∧
      (∀ c ∈ model.classes, (classHeader model.table c).text ∈ document.codeTexts) ∧
      (∀ c parent, Extended model c parent → parent ≠ .unknown ∧
        (LeadsTo model parent .unknown ↔ ∃ d args type, LeadsTo model parent (.ofClass d args) ∧
          d ∈ model.classes ∧ TypeBody.ofClass model.table d = .sameAs type ∧
          (type = .unknown ∨ ∃ v, type = .var v ∧ d.binding args v = .unknown))) ∧
      ((∀ c ∈ model.classes, ¬ Descends model.table c c) →
        (∀ c ∈ model.classes, ∀ v, c.superclass ≠ some (.var v)) →
        ∀ c parent, Extended model c parent → ∃ w, EndsAt model parent w ∧
          (w = .unknown ↔ ∃ p args d, parent = .ofClass p args ∧
            ReflTransGen (PassesOn model.table) p d ∧ Lost model.table d)) := by
  obtain ⟨model, document, writes⟩ := exists_writes built
  refine ⟨model, document, writes, fun c hc => text_class_mem writes.content hc,
    fun c parent h => ⟨h.ne_unknown, leadsTo_unknown_iff h.ne_unknown⟩, ?_⟩
  obtain ⟨graph, _, hmodel⟩ := Model.ofJson_eq_ok_iff.mp writes.assembled
  have settled : Class.Settled model.table model.classes := hmodel ▸ Model.settled_classes
  have closed := settled.closed
  intro acyclic proper c parent h
  obtain ⟨hc, fields, hbody⟩ := h
  obtain ⟨t, ht, rfl, hne⟩ := of_ofClass_eq_record hbody
  obtain ⟨w, hw⟩ := exists_endsAt_of_superclass closed proper acyclic hc ht
  refine ⟨w, hw, ?_, ?_⟩
  · rintro rfl
    exact exists_lost_of_leadsTo proper hw.leads hne
  · rintro ⟨p, args, d, hp, hpd, hd⟩
    exact hw.unique (endsAt_unknown_of_passesOn closed hc ht hp hpd hd)

def orderClass : Class where
  toClassRecord :=
    { ClassRecord.sample "app.Order" [("number", .named "int" [])] with
      superclass := some (.named "app.Base" []) }
  simpleName := "Order"

def baseClass : Class where
  toClassRecord :=
    { ClassRecord.sample "app.Base" [] with superclass := some (.named "app.Entity" []) }
  simpleName := "Base"

def entityClass : Class where
  toClassRecord := .sample "app.Entity" [("id", .named "int" [])]
  simpleName := "Entity"

/-- A class with a member, above it one without, whose superclass may be among further classes. -/
def orderGraph (further : List Class) : Graph :=
  .sample (([orderClass, baseClass] ++ further).map (·.toClassRecord)) []
    (some (.named "app.Order" []))

/-- A name for an interface is extended. -/
theorem extends_entity : ∃ result,
    build (.string Target.ts.name) (.string "") (orderGraph [entityClass]).sampleJson
      (.ofTexts true none none none) = .ok result ∧
    ∃ model document, Writes (.string "") (orderGraph [entityClass]).sampleJson
      (.ofTexts true none none none) result model document ∧
      "export interface Order extends Base \x7b" ∈ document.codeTexts ∧
      "export type Base = Entity;" ∈ document.codeTexts ∧
      (∀ c ∈ model.classes, ¬ Descends model.table c c) ∧
      (∀ c ∈ model.classes, ∀ v, c.superclass ≠ some (.var v)) ∧
      Extended model orderClass (.ofClass baseClass []) ∧
      ∃ w, EndsAt model (.ofClass baseClass []) w ∧ w ≠ .unknown := by
  have decoded : Graph.decode (orderGraph [entityClass]).sampleJson =
      .ok (orderGraph [entityClass]) := by rfl
  obtain ⟨result, built⟩ := build_ok_of_decode decoded .ts "" true
  obtain ⟨model, document, writes, texts, _, ends⟩ := extends_unknown_iff built
  cases Model.eq_assemble_of_decode decoded writes.assembled
  let model := (orderGraph [entityClass]).sampleModel .ts
  have hclasses : model.classes = [entityClass, baseClass, orderClass] := by
    refine Class.eq_of_names_eq Model.settled_classes.held ?_ (by decide +kernel)
    intro c hc
    simp only [List.mem_cons, List.not_mem_nil, or_false] at hc
    rcases hc with rfl | rfl | rfl <;> rfl
  have horder : orderClass ∈ model.classes := by simp [hclasses]
  have hbase : baseClass ∈ model.classes := by simp [hclasses]
  have hbody : TypeBody.ofClass model.table baseClass = .sameAs (.ofClass entityClass []) := by rfl
  have extended : Extended model orderClass (.ofClass baseClass []) := ⟨horder, _, by rfl⟩
  have acyclic : ∀ c ∈ model.classes, ¬ Descends model.table c c := by
    have test : ∀ c ∈ model.classes, ∀ p ∈ c.parent? model.table,
        c.name ∉ Class.names (p.chain model.table []) := by decide +kernel
    exact fun c hc => Class.not_descends_self Model.keyed_assemble.named (test c hc)
  have proper : ∀ c ∈ model.classes, ∀ v, c.superclass ≠ some (.var v) := by
    simp [hclasses, entityClass, baseClass, orderClass, ClassRecord.sample]
  refine ⟨result, built, model, document, writes, texts orderClass horder, texts baseClass hbase,
    acyclic, proper, extended, ?_⟩
  obtain ⟨w, hw, hunknown⟩ := ends acyclic proper _ _ extended
  refine ⟨w, hw, fun hu => ?_⟩
  obtain ⟨p, args, d, hp, hpd, hd⟩ := hunknown.mp hu
  cases (Resolved.ofClass.inj hp).1
  rcases ReflTransGen.cases_head hpd with rfl | ⟨q, hstep, hrest⟩
  · exact absurd (hbody.symm.trans (lost_iff.mp hd)) (by simp)
  · obtain ⟨args', hq⟩ := passesOn_iff.mp hstep
    cases hbody.symm.trans hq
    rcases ReflTransGen.cases_head hrest with rfl | ⟨r, hnext, _⟩
    · exact absurd hd.1 (by simp [entityClass, ClassRecord.sample])
    · exact absurd hnext.1 (by simp [entityClass, ClassRecord.sample])

/-- A name for the unknown type is extended. -/
theorem base_unknown_extended : ∃ result,
    build (.string Target.ts.name) (.string "") (orderGraph []).sampleJson
      (.ofTexts true none none none) = .ok result ∧
    ∃ model document, Writes (.string "") (orderGraph []).sampleJson (.ofTexts true none none none)
      result model document ∧
      "export interface Order extends Base \x7b" ∈ document.codeTexts ∧
      "export type Base = unknown;" ∈ document.codeTexts ∧
      (∀ c ∈ model.classes, ¬ Descends model.table c c) ∧
      Extended model orderClass (.ofClass baseClass []) ∧
      EndsAt model (.ofClass baseClass []) .unknown := by
  have decoded : Graph.decode (orderGraph []).sampleJson = .ok (orderGraph []) := by rfl
  obtain ⟨result, built⟩ := build_ok_of_decode decoded .ts "" true
  obtain ⟨model, document, writes⟩ := exists_writes built
  cases Model.eq_assemble_of_decode decoded writes.assembled
  let model := (orderGraph []).sampleModel .ts
  have hclasses : model.classes = [baseClass, orderClass] := by
    refine Class.eq_of_names_eq Model.settled_classes.held ?_ (by decide +kernel)
    intro c hc
    simp only [List.mem_cons, List.not_mem_nil, or_false] at hc
    rcases hc with rfl | rfl <;> rfl
  have horder : orderClass ∈ model.classes := by simp [hclasses]
  have hbase : baseClass ∈ model.classes := by simp [hclasses]
  have acyclic : ∀ c ∈ model.classes, ¬ Descends model.table c c := by
    have test : ∀ c ∈ model.classes, ∀ p ∈ c.parent? model.table,
        c.name ∉ Class.names (p.chain model.table []) := by decide +kernel
    exact fun c hc => Class.not_descends_self Model.keyed_assemble.named (test c hc)
  have hlost : Lost model.table baseClass := lost_iff.mpr (by rfl)
  exact ⟨result, built, model, document, writes, text_class_mem writes.content horder,
    text_class_mem writes.content hbase, acyclic, ⟨horder, _, by rfl⟩, hlost.leadsTo hbase [],
    fun _ _ h => absurd h (by simp)⟩

end Ts

end ApiStubs
