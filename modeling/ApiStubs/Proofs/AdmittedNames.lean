import ApiStubs.Proofs.Samples
import ApiStubs.Proofs.StubNames

/-!
# Names that a target admits

Parameters and beans may be called anything, and what a file calls them has to be an identifier
that is not reserved.  A name comes there in steps, each of which could undo what another one did:
characters are replaced, a `_` is put in front, and a number behind a separator makes the name
distinct.

Repair leaves a text that starts with no digit, and numbers add only what may stand in an
identifier.  As for reserved words, these are made of letters only, so none of them is a name that
has been repaired or numbered (`Target.admits_of_variant`).  `Model.identifiers_admitted` says it of
all modules and parameters of a model.
-/

namespace ApiStubs

open Text.Identifier

/-- `target.Admits s`: a module or a parameter can be called `s`.  The name is not empty, is made of
ASCII letters, digits, `_` and `$`, does not start with a digit, and is no word that the target
reserves. -/
structure Target.Admits (target : Target) (s : String) : Prop where
  nonempty : s ≠ ""
  parts : ∀ c ∈ s.toList, c.isAlphanum = true ∨ c = '_' ∨ c = '$'
  start : ∀ c ∈ s.toList.head?, c.isDigit = false
  free : s ∉ target.reserved

theorem Text.Identifier.isPart_iff {c : Char} :
    isPart c = true ↔ c.isAlphanum = true ∨ c = '_' ∨ c = '$' := by
  simp [isPart, or_assoc]

/-- A repaired name starts, and not with a digit. -/
theorem Text.Identifier.exists_start_repair (reserved : List String) (name : String) :
    ∃ c rest, (repair reserved name).toList = c :: rest ∧ c.isDigit = false := by
  simp only [repair]
  split
  · exact ⟨'_', _, String.toList_ofList, by decide⟩
  · rename_i hfit
    rw [String.toList_ofList]
    cases hchars : name.toList.map fun c => if isPart c then c else '_' with
    | nil => exact absurd (by simp [hchars]) hfit
    | cons c rest =>
        refine ⟨c, rest, rfl, Bool.eq_false_iff.mpr fun hdigit => hfit ?_⟩
        simp [hchars, hdigit]

namespace Target

theorem isLetters_of_mem_reserved {target : Target} {s : String} (h : s ∈ target.reserved) :
    IsLetters s := by
  have letters : ∀ word ∈ target.reserved, IsLetters word := by
    cases target with
    | _ => decide +kernel
  exact letters s h

/-- Whatever number a repaired name gets, the target admits it. -/
theorem admits_of_variant {target : Target} {name given : String}
    (h : Variant target.separator (repair target.reserved name) given) : target.Admits given := by
  obtain ⟨more, e, hmore⟩ := h.isPart target.isPart_of_mem_separator
  obtain ⟨c, rest, hstart, hdigit⟩ := exists_start_repair target.reserved name
  have hlist : given.toList = c :: (rest ++ more.toList) := by
    rw [e, String.toList_append, hstart, List.cons_append]
  refine ⟨?_, ?_, ?_, ?_⟩
  · rintro rfl
    exact absurd hlist (by simp)
  · intro d hd
    rw [e, String.toList_append] at hd
    refine isPart_iff.mp ?_
    rcases List.mem_append.mp hd with hd | hd
    · exact isPart_of_mem_repair hd
    · exact hmore d hd
  · rw [hlist]
    rintro d ⟨⟩
    exact hdigit
  · -- A reserved word shows no separator, so it would have to be the repaired name itself.
    intro hreserved
    have letters := isLetters_of_mem_reserved hreserved
    obtain ⟨s, hs, hother⟩ := target.exists_mem_separator
    have hname : given = repair target.reserved name := h.eq_of_not_mem hs (letters.not_mem hother)
    exact ((repair_eq_iff letters).mp hname.symm).2 hreserved

end Target

theorem Route.admits_identifier {target : Target} {route : Route} {s : String}
    (h : s ∈ route.identifiers target) : target.Admits s := by
  obtain ⟨wished, hwished, variant⟩ := Namer.exists_variant_of_mem_takeAll h
  obtain ⟨p, _, rfl⟩ := List.mem_map.mp hwished
  exact Target.admits_of_variant variant

theorem Route.map_paired_arguments (target : Target) (route : Route) :
    (route.arguments target).map (fun a => (a.identifier, a.parameter)) =
      (route.identifiers target).zip route.exposed := by
  rw [← route.map_identifier_arguments target, ← route.map_parameter_arguments target,
    List.zip_map']

namespace Model

variable {target : Target} {options : BuildOptions} {raw : Json.Value} {model : Model}

/-- Whatever the beans and parameters of a graph are called, in the model for a target every module
and every parameter has an identifier that the target admits.  No two modules have the same one.
The parameters of a route that callers pass have one each, and no two of them the same. -/
theorem identifiers_admitted
    (built : ofJson (Build.modelOptions target options) raw = .ok model) :
    (∀ m ∈ model.modules, target.Admits m.identifier) ∧
    (model.modules.map (·.identifier)).Nodup ∧
    ∀ r ∈ model.routes,
      (∀ s ∈ r.identifiers target, target.Admits s) ∧
      (r.identifiers target).Nodup ∧
      (r.identifiers target).length = r.exposed.length ∧
      (r.arguments target).map (fun a => (a.identifier, a.parameter)) =
        (r.identifiers target).zip r.exposed := by
  obtain ⟨graph, _, rfl⟩ := ofJson_eq_ok_iff.mp built
  refine ⟨fun m hm => ?_, Assembly.nodup_identifiers_modules, fun r _ => ⟨fun s hs => ?_,
    r.nodup_identifiers target, r.length_identifiers target, r.map_paired_arguments target⟩⟩
  · exact Target.admits_of_variant (Assembly.module_spec hm).2
  · exact Route.admits_identifier hs

/-- Two beans of one simple name, one called by a reserved word, and one of whose name nothing can
stay; and parameters with names that are reserved, start with a digit, or are repaired to one
another. -/
def unicodeGraph : Graph where
  classes := []
  enums := []
  routes :=
    [.sample "a.Größe" ["delete", "_delete", "größe", "gr__e", "1", "id"] none,
     .sample "b.Größe" [] none, .sample "New" [] none, .sample "日本" ["日", "本", "_"] none]

theorem identifiers_admitted_unicode :
    (∃ model, ofJson (Build.modelOptions .ts .none) unicodeGraph.sampleJson = .ok model ∧
      model.modules.map (·.identifier) = ["grE", "grE$1", "_new", "unknownModule"] ∧
      model.routes.map (·.identifiers .ts) =
        [["_delete", "_delete$1", "gr__e", "gr__e$1", "_1", "id"], [], [], ["_", "_$1", "_$2"]] ∧
      (∀ m ∈ model.modules, Target.ts.Admits m.identifier) ∧
      ∀ r ∈ model.routes, ∀ s ∈ r.identifiers .ts, Target.ts.Admits s) ∧
    ∃ model, ofJson (Build.modelOptions .oc .none) unicodeGraph.sampleJson = .ok model ∧
      model.modules.map (·.identifier) = ["grE", "grE_1", "_new", "unknownModule"] ∧
      model.routes.map (·.identifiers .oc) =
        [["delete", "_delete", "gr__e", "gr__e_1", "_1", "_id"], [], [], ["_", "__1", "__2"]] ∧
      (∀ m ∈ model.modules, Target.oc.Admits m.identifier) ∧
      ∀ r ∈ model.routes, ∀ s ∈ r.identifiers .oc, Target.oc.Admits s := by
  have decoded : Graph.decode unicodeGraph.sampleJson = .ok unicodeGraph := by rfl
  constructor
  · have built := ofJson_eq_ok_iff.mpr
      ⟨_, decoded, Eq.refl (assemble (Build.modelOptions .ts .none) unicodeGraph)⟩
    obtain ⟨modules, _, routes⟩ := identifiers_admitted built
    refine ⟨_, built, ?_, ?_, modules, fun r hr => (routes r hr).1⟩
    · decide +kernel
    · decide +kernel
  · have built := ofJson_eq_ok_iff.mpr
      ⟨_, decoded, Eq.refl (assemble (Build.modelOptions .oc .none) unicodeGraph)⟩
    obtain ⟨modules, _, routes⟩ := identifiers_admitted built
    refine ⟨_, built, ?_, ?_, modules, fun r hr => (routes r hr).1⟩
    · decide +kernel
    · decide +kernel

end Model

end ApiStubs
