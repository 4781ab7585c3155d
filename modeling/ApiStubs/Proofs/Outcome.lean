import ApiStubs.Proofs.Decoding
import ApiStubs.Proofs.GeneratedFiles
import ApiStubs.Proofs.Offences

/-!
# How builds end

`outcome_build` says of every build how it ends: with an invalid target, with the first field that
the graph lacks, or with code.  Whatever else the records of the graph hold, and whatever the base
address, the filter and the policy are, nothing else happens.

A graph that could be decoded always has a model, so what is left to show is that the model can be
written: the settings that are written as literals are texts, and the operations of which a file is
made do not fail.
-/

namespace ApiStubs

open Json (Value)

inductive Outcome where
  | invalidTarget
  | missingField (field : String)
  | otherError
  | code
deriving DecidableEq

def BuildError.outcome : BuildError → Outcome
  | invalidTarget _ => .invalidTarget
  | missing m => .missingField m.field
  | noLiteral _ => .otherError
  | misuse _ => .otherError

def Outcome.ofResult : Except BuildError BuildResult → Outcome
  | .ok _ => code
  | .error e => e.outcome

/-- The end that the fields which a graph lacks lead to. -/
def Outcome.ofOffences : List String → Outcome
  | [] => code
  | field :: _ => missingField field

/-- Settings with the types that are declared for them. -/
def BuildOptions.ofTexts (noHead : Bool) (runtime : Option String) (apis : Option (List String))
    (policy : Option BindingPolicy) : BuildOptions :=
  ⟨noHead, textJson runtime, apis, policy⟩

theorem Target.ofJson?_eq_some_iff {v : Value} {target : Target} :
    Target.ofJson? v = some target ↔ v = .string target.name := by
  constructor
  · intro h
    obtain ⟨s, hs, hname⟩ := Option.bind_eq_some_iff.mp h
    have hname : target.name = s := by simpa using List.find?_some hname
    cases v with
    | string s' =>
        rw [hname, Option.some.inj hs]
    | _ => exact absurd hs (by simp [Value.string?])
  · rintro rfl
    cases target with
    | ts => rfl
    | oc => rfl
    | raw => rfl

/-- Builds of graphs are the same if they are for every target that there is. -/
theorem build_congr {base raw raw' : Value} {options : BuildOptions}
    (h : ∀ t, buildTarget t base raw options = buildTarget t base raw' options) (target : Value) :
    build target base raw options = build target base raw' options := by
  unfold build
  cases Target.ofJson? target with
  | none => rfl
  | some t => exact h t

/-- A build succeeds by naming a target, by assembling a model and by writing it. -/
theorem build_eq_ok_iff {target base raw : Value} {options : BuildOptions} {result : BuildResult} :
    build target base raw options = .ok result ↔
      ∃ t model, Target.ofJson? target = some t ∧
        Model.ofJson (Build.modelOptions t options) raw = .ok model ∧
        Build.emit t base options model = .ok result := by
  constructor
  · intro h
    unfold build at h
    cases ht : Target.ofJson? target with
    | none => exact absurd (ht ▸ h) (by simp)
    | some t =>
        rw [ht] at h
        have h : buildTarget t base raw options = .ok result := h
        unfold buildTarget at h
        cases hmodel : Model.ofJson (Build.modelOptions t options) raw with
        | error m =>
            rw [hmodel] at h
            exact absurd h (by simp)
        | ok model =>
            rw [hmodel] at h
            exact ⟨t, model, rfl, hmodel, h⟩
  · rintro ⟨t, model, ht, hmodel, h⟩
    unfold build buildTarget
    rw [ht]
    dsimp only
    rw [hmodel]
    exact h

section Settings

variable (target : Target) (base : String) (noHead : Bool) (runtime : Option String)
  (apis : Option (List String)) (policy : Option BindingPolicy)

theorem Build.runtime_eq_string :
    ∃ s, Build.runtime target (.ofTexts noHead runtime apis policy) = .string s := by
  unfold Build.runtime
  cases runtime with
  | none => exact ⟨target.runtime, rfl⟩
  | some s =>
      split
      · exact ⟨s, rfl⟩
      · exact ⟨target.runtime, rfl⟩

/-- A model is always written. -/
theorem Build.emit_ok (model : Model) :
    ∃ result, emit target (.string base) (.ofTexts noHead runtime apis policy) model =
      .ok result := by
  obtain ⟨s, hs⟩ := runtime_eq_string target noHead runtime apis policy
  cases target with
  | ts =>
      let document := Ts.Document.ofModel (!noHead) (.text s) (.text base) model
      obtain ⟨w, hw⟩ := document.write_ok
      have hruntime : literal (Build.runtime .ts (.ofTexts noHead runtime apis policy)) =
          .ok (.text s) := by
        rw [hs]
        rfl
      have hfile : file .ts (.string base) (.ofTexts noHead runtime apis policy) model =
          .ok ⟨document.ops, document.aliases⟩ :=
        bind_eq_ok.mpr ⟨.text s, hruntime, bind_eq_ok.mpr ⟨.text base, rfl, rfl⟩⟩
      exact ⟨⟨w, document.aliases⟩, bind_eq_ok.mpr ⟨_, hfile, bind_eq_ok.mpr ⟨w, hw, rfl⟩⟩⟩
  | oc =>
      let document := Oc.Document.ofModel (!noHead) s base model
      obtain ⟨w, hw⟩ := document.write_ok
      have hfile : file .oc (.string base) (.ofTexts noHead runtime apis policy) model =
          .ok ⟨document.ops, .empty⟩ := by
        rw [file, hs]
        rfl
      exact ⟨⟨w, .empty⟩, bind_eq_ok.mpr ⟨_, hfile, bind_eq_ok.mpr ⟨w, hw, rfl⟩⟩⟩
  | raw =>
      have generated : WriteOp.GeneratedAll [] := WriteOp.generatedAll_nil
      obtain ⟨w, hw⟩ := WriteOp.write_texts_cons
        (List.cons_ne_nil (model.toJson (.string base)).print []) generated
      exact ⟨⟨w, .empty⟩, bind_eq_ok.mpr ⟨_, rfl, bind_eq_ok.mpr ⟨w, hw, rfl⟩⟩⟩

/-- The build of a known target ends as the fields that the graph lacks tell. -/
theorem outcome_buildTarget (raw : Value) :
    Outcome.ofResult (buildTarget target (.string base) raw (.ofTexts noHead runtime apis policy)) =
      .ofOffences (Graph.offences raw) := by
  -- Decoding does not look at the target or the settings, and nothing behind it fails.
  have hfault := Graph.fault?_decode raw
  unfold buildTarget Model.ofJson
  cases hdecode : Graph.decode raw with
  | error m =>
      rw [hdecode] at hfault
      cases hoffences : Graph.offences raw with
      | nil =>
          rw [hoffences] at hfault
          exact absurd hfault (by simp [Graph.fault?])
      | cons field rest =>
          rw [hoffences] at hfault
          exact congrArg Outcome.missingField (Option.some.inj hfault)
  | ok graph =>
      rw [hdecode] at hfault
      obtain ⟨result, hresult⟩ := Build.emit_ok target base noHead runtime apis policy
        (.assemble (Build.modelOptions target (.ofTexts noHead runtime apis policy)) graph)
      have hnil : Graph.offences raw = [] := List.head?_eq_none_iff.mp hfault.symm
      rw [hnil]
      show Outcome.ofResult (Build.emit target _ _ _) = _
      rw [hresult]
      rfl

end Settings

/-- Every build ends in one of three ways.  The target is invalid exactly if it is not the name of
one; and for every target, whatever the base address and the settings are, the build ends with the
first field that the graph lacks, or with code if it lacks none. -/
theorem outcome_build (raw : Value) (base : String) (noHead : Bool) (runtime : Option String)
    (apis : Option (List String)) (policy : Option BindingPolicy) :
    (∀ target : Value,
      Outcome.ofResult (build target (.string base) raw (.ofTexts noHead runtime apis policy)) =
          .invalidTarget ↔
        ∀ t : Target, target ≠ .string t.name) ∧
    ∀ t : Target,
      Outcome.ofResult
          (build (.string t.name) (.string base) raw (.ofTexts noHead runtime apis policy)) =
        .ofOffences (Graph.offences raw) := by
  have known : ∀ t : Target,
      Outcome.ofResult
          (build (.string t.name) (.string base) raw (.ofTexts noHead runtime apis policy)) =
        .ofOffences (Graph.offences raw) := by
    intro t
    rw [build, Target.ofJson?_eq_some_iff.mpr rfl]
    exact outcome_buildTarget t base noHead runtime apis policy raw
  refine ⟨fun target => ?_, known⟩
  constructor
  · rintro h t rfl
    rw [known t] at h
    cases ho : Graph.offences raw with
    | nil => exact absurd (ho ▸ h) (by simp [Outcome.ofOffences])
    | cons _ _ => exact absurd (ho ▸ h) (by simp [Outcome.ofOffences])
  · intro h
    unfold build
    cases ht : Target.ofJson? target with
    | none => rfl
    | some t => exact absurd (Target.ofJson?_eq_some_iff.mp ht) (h t)

end ApiStubs
