import ApiStubs.TypeExpr.Parser

/-!
# Parsed types

What holds of every type that is read from a text, at any depth.  The parser makes a type of a name
and of types which it has read before, so that a property of types need only be kept when this is
done (`Kept`).  The parser then has the invariant that the property holds of every type it has read
so far, those in the frames on its stack and the one at which it is (`Parser.Has`).

Two properties are kept: the variables of a type are among those that the reader was told of
(`scoped_parse?`), and all its names are tokens of the text (`spelt_parse?`).
-/

namespace ApiStubs.TypeExpr

/-- `Kept vars known P`: the property `P` holds of what the parser makes of a known name and types
of which it holds. -/
structure Kept (vars : List String) (known : String → Prop) (P : TypeExpr → Prop) : Prop where
  wildcard : P .wildcard
  build : ∀ {frame : Frame}, known frame.name → (∀ a ∈ frame.done, P a) →
    P (Parser.build vars frame)

/-- The name of a frame is known, and the types that it holds have a property. -/
structure Frame.Has (known : String → Prop) (P : TypeExpr → Prop) (frame : Frame) : Prop where
  name : known frame.name
  done : ∀ a ∈ frame.done, P a

/-- The name, the type or the frame at which the parser is has this property. -/
def Progress.Has (known : String → Prop) (P : TypeExpr → Prop) : Progress → Prop
  | .start => True
  | .argument frame => frame.Has known P
  | .separator frame => frame.Has known P
  | .name n => known n
  | .question => True
  | .suffix t => P t
  | .finished t => P t

/-- What holds of every state of the parser. -/
structure Parser.Has (known : String → Prop) (P : TypeExpr → Prop) (p : Parser) : Prop where
  stack : ∀ frame ∈ p.stack, frame.Has known P
  progress : p.progress.Has known P

section

variable {vars : List String} {known : String → Prop} {P : TypeExpr → Prop}

namespace Frame

theorem has_nil {n : String} (h : known n) : Has known P ⟨n, []⟩ :=
  ⟨h, fun _ h => absurd h List.not_mem_nil⟩

theorem Has.append {frame : Frame} (h : frame.Has known P) {t : TypeExpr} (ht : P t) :
    Has known P ⟨frame.name, frame.done ++ [t]⟩ := by
  refine ⟨h.name, fun a ha => ?_⟩
  rcases List.mem_append.mp ha with ha | ha
  · exact h.done a ha
  · rw [List.mem_singleton.mp ha]
    exact ht

end Frame

namespace Kept

variable (kept : Kept vars known P)

include kept

theorem of_frame {frame : Frame} (h : frame.Has known P) : P (Parser.build vars frame) :=
  kept.build h.name h.done

theorem of_name {n : String} (h : known n) : P (Parser.build vars ⟨n, []⟩) :=
  kept.of_frame (Frame.has_nil h)

theorem array (hname : known arrayName) {t : TypeExpr} (ht : P t) : P t.array :=
  kept.of_frame ((Frame.has_nil hname).append ht)

end Kept

namespace Parser

section Step

variable {stack : List Frame} (hs : ∀ frame ∈ stack, frame.Has known P) {token : Token}
  (htoken : known token.text)

include hs htoken

theorem has_begin : (begin stack token).Has known P := by
  unfold begin
  split
  · exact ⟨hs, trivial⟩
  · exact ⟨hs, htoken⟩

variable (kept : Kept vars known P)

include kept

theorem has_argument {frame : Frame} (hf : frame.Has known P) :
    (argument vars stack frame token).Has known P := by
  unfold argument
  split
  · exact ⟨hs, kept.of_frame hf⟩
  · exact has_begin (List.forall_mem_cons.mpr ⟨hf, hs⟩) htoken

theorem has_separator {frame : Frame} (hf : frame.Has known P) :
    (separator vars stack frame token).Has known P := by
  unfold separator
  split
  · exact ⟨hs, hf⟩
  · exact has_argument hs htoken kept hf

theorem has_complete {t : TypeExpr} (ht : P t) : (complete vars stack t token).Has known P := by
  cases stack with
  | nil => exact ⟨hs, ht⟩
  | cons frame rest =>
      obtain ⟨hf, hr⟩ := List.forall_mem_cons.mp hs
      exact has_separator hr htoken kept (hf.append ht)

theorem has_suffix {t : TypeExpr} (ht : P t) : (suffix vars stack t token).Has known P := by
  unfold suffix
  split
  · rename_i hbrackets
    rw [hbrackets] at htoken
    exact ⟨hs, kept.array htoken ht⟩
  · exact has_complete hs htoken kept ht

end Step

variable (kept : Kept vars known P)

include kept

theorem has_step {p : Parser} (h : p.Has known P) {token : Token} (htoken : known token.text) :
    (p.step vars token).Has known P := by
  obtain ⟨stack, progress⟩ := p
  obtain ⟨hs, hp⟩ := h
  cases progress with
  | start => exact has_begin hs htoken
  | argument frame => exact has_argument hs htoken kept hp
  | separator frame => exact has_separator hs htoken kept hp
  | name n =>
      show Has known P (if token = .less then ⟨stack, .argument ⟨n, []⟩⟩
        else suffix vars stack (build vars ⟨n, []⟩) token)
      split
      · exact ⟨hs, Frame.has_nil hp⟩
      · exact has_suffix hs htoken kept (kept.of_name hp)
  | question =>
      show Has known P (if token = .word "extends" || token = .word "super" then ⟨stack, .start⟩
        else complete vars stack .wildcard token)
      split
      · exact ⟨hs, trivial⟩
      · exact has_complete hs htoken kept kept.wildcard
  | suffix t => exact has_suffix hs htoken kept hp
  | finished t => exact ⟨hs, hp⟩

theorem has_run {tokens : List Token} (htokens : ∀ token ∈ tokens, known token.text) {p : Parser}
    (h : p.Has known P) : (p.run vars tokens).Has known P := by
  induction tokens generalizing p with
  | nil => exact h
  | cons token rest ih =>
      obtain ⟨htoken, hrest⟩ := List.forall_mem_cons.mp htokens
      exact ih hrest (has_step kept h htoken)

theorem has_close {stack : List Frame} (hs : ∀ frame ∈ stack, frame.Has known P) {t : TypeExpr}
    (ht : P t) : P (close vars t stack) := by
  induction stack generalizing t with
  | nil => exact ht
  | cons frame rest ih =>
      obtain ⟨hf, hr⟩ := List.forall_mem_cons.mp hs
      exact ih hr (kept.of_frame (hf.append ht))

theorem has_finish {p : Parser} (h : p.Has known P) : P (p.finish vars) := by
  obtain ⟨stack, progress⟩ := p
  obtain ⟨hs, hp⟩ := h
  cases progress with
  | start => exact has_close kept hs kept.wildcard
  | argument frame => exact has_close kept hs (kept.of_frame hp)
  | separator frame => exact has_close kept hs (kept.of_frame hp)
  | name n => exact has_close kept hs (kept.of_name hp)
  | question => exact has_close kept hs kept.wildcard
  | suffix t => exact has_close kept hs hp
  | finished t => exact hp

end Parser

/-- What is kept holds of the type that tokens write, where the names known are their texts. -/
theorem Kept.ofTokens (kept : Kept vars known P) {tokens : List Token}
    (htokens : ∀ token ∈ tokens, known token.text) : P (ofTokens vars tokens) :=
  Parser.has_finish kept
    (Parser.has_run kept htokens ⟨fun _ h => absurd h List.not_mem_nil, trivial⟩)

theorem Kept.parse? (kept : Kept vars known P) {text : String}
    (htokens : ∀ token ∈ Token.scan text.toList, known token.text) {t : TypeExpr}
    (h : parse? vars text = some t) : P t := by
  unfold TypeExpr.parse? at h
  split at h
  · exact absurd h (by simp)
  · rw [← Option.some.inj h]
    exact kept.ofTokens htokens

end

/-! ## Variables -/

/-- `Scoped vars t`: the variables of the type `t`, at any depth, are among `vars`. -/
inductive Scoped (vars : List String) : TypeExpr → Prop
  | wildcard : Scoped vars .wildcard
  | var {v : String} : v ∈ vars → Scoped vars (.var v)
  | named {n : String} {args : List TypeExpr} : (∀ a ∈ args, Scoped vars a) →
      Scoped vars (.named n args)

theorem Scoped.mem {vars : List String} {v : String} (h : Scoped vars (.var v)) : v ∈ vars := by
  cases h with
  | var h => exact h

theorem kept_scoped (vars : List String) : Kept vars (fun _ => True) (Scoped vars) where
  wildcard := .wildcard
  build := by
    intro frame _ hdone
    unfold Parser.build
    split
    · rename_i hv
      have hv : frame.done.isEmpty = true ∧ vars.contains frame.name = true := by simpa using hv
      exact .var (by simpa using hv.2)
    · exact .named hdone

theorem scoped_parse? {vars : List String} {text : String} {t : TypeExpr}
    (h : parse? vars text = some t) : t.Scoped vars :=
  (kept_scoped vars).parse? (fun _ _ => trivial) h

/-! ## Names -/

/-- `Spelt known t`: the names in the type `t`, at any depth, are known, those of variables too. -/
inductive Spelt (known : String → Prop) : TypeExpr → Prop
  | wildcard : Spelt known .wildcard
  | var {v : String} : known v → Spelt known (.var v)
  | named {n : String} {args : List TypeExpr} : known n → (∀ a ∈ args, Spelt known a) →
      Spelt known (.named n args)

theorem kept_spelt (vars : List String) (known : String → Prop) :
    Kept vars known (Spelt known) where
  wildcard := .wildcard
  build := by
    intro frame hname hdone
    unfold Parser.build
    split
    · exact .var hname
    · exact .named hname hdone

theorem spelt_parse? {vars : List String} {known : String → Prop} {text : String}
    (htokens : ∀ token ∈ Token.scan text.toList, known token.text) {t : TypeExpr}
    (h : parse? vars text = some t) : t.Spelt known :=
  (kept_spelt vars known).parse? htokens h

end ApiStubs.TypeExpr
