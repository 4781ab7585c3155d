import ApiStubs.Graph.Decode
import ApiStubs.Proofs.ParsedTypes
import Mathlib.Data.List.Forall2

/-!
# What decoding leaves behind

Every record of a decoded graph was decoded from an item of a list.  Of the superclass of a class,
what later statements need is `superclass_of_decode`: it mentions no variables but the type
parameters of its class, and it is no type of which nothing is known.
-/

namespace ApiStubs

theorem bind_eq_ok {ε α β : Type} {x : Except ε α} {f : α → Except ε β} {b : β} :
    (x >>= f) = .ok b ↔ ∃ a, x = .ok a ∧ f a = .ok b := by
  cases x with
  | error e =>
      constructor
      · exact fun h => absurd h (by simp [bind, Except.bind])
      · rintro ⟨a, h, _⟩
        exact absurd h (by simp)
  | ok a =>
      constructor
      · exact fun h => ⟨a, rfl, h⟩
      · rintro ⟨_, ha, h⟩
        rw [← Except.ok.inj ha] at h
        exact h

def error? {ε α : Type} : Except ε α → Option ε
  | .ok _ => none
  | .error e => some e

/-- Of two steps, one after the other, the first one that fails tells the error. -/
theorem error?_bind {ε δ α β : Type} {g : ε → δ} {x : Except ε α} {f : α → Except ε β}
    {first rest : List δ} (hx : (error? x).map g = first.head?)
    (hf : ∀ a, x = .ok a → (error? (f a)).map g = rest.head?) :
    (error? (x >>= f)).map g = (first ++ rest).head? := by
  cases x with
  | error e =>
      rw [List.head?_append, ← hx]
      rfl
  | ok a =>
      rw [List.head?_append, ← hx]
      exact hf a rfl

namespace Graph

open Json (Value)

theorem exists_of_mem_decodeAll {α : Type} {decode : Nat → Value → Except Missing α}
    {vs : List Value} {i : Nat} {xs : List α} (h : decodeAll decode i vs = .ok xs) {x : α}
    (hx : x ∈ xs) : ∃ j, ∃ v ∈ vs, decode j v = .ok x := by
  induction vs generalizing i xs with
  | nil =>
      have hnil : [] = xs := Except.ok.inj h
      rw [← hnil] at hx
      exact absurd hx List.not_mem_nil
  | cons v rest ih =>
      obtain ⟨first, hfirst, h⟩ := bind_eq_ok.mp h
      obtain ⟨others, hothers, h⟩ := bind_eq_ok.mp h
      have hxs : first :: others = xs := Except.ok.inj h
      rw [← hxs] at hx
      rcases List.mem_cons.mp hx with rfl | hx
      · exact ⟨i, v, List.mem_cons_self, hfirst⟩
      · obtain ⟨j, w, hw, hj⟩ := ih hothers hx
        exact ⟨j, w, List.mem_cons_of_mem _ hw, hj⟩

/-! ## Lists of records -/

/-- Whether a record is decoded, and what it is decoded to, does not depend on its place.  The place
matters only to what is reported if a name is missing. -/
def Steady {α : Type} (decode : Nat → Value → Except Missing α) : Prop :=
  ∀ i j v x, decode i v = .ok x → decode j v = .ok x

theorem decodeAll_eq_ok_iff {α : Type} {decode : Nat → Value → Except Missing α}
    (steady : Steady decode) {vs : List Value} {i : Nat} {xs : List α} :
    decodeAll decode i vs = .ok xs ↔ List.Forall₂ (fun v x => decode 0 v = .ok x) vs xs := by
  constructor
  · intro h
    induction vs generalizing i xs with
    | nil =>
        rw [← Except.ok.inj h]
        exact .nil
    | cons v rest ih =>
        obtain ⟨first, hfirst, h⟩ := bind_eq_ok.mp h
        obtain ⟨others, hothers, h⟩ := bind_eq_ok.mp h
        rw [← Except.ok.inj h]
        exact .cons (steady i 0 v first hfirst) (ih hothers)
  · intro h
    induction h generalizing i with
    | nil => rfl
    | cons hv _ ih =>
        exact bind_eq_ok.mpr ⟨_, steady 0 i _ _ hv, bind_eq_ok.mpr ⟨_, ih, rfl⟩⟩

theorem name_eq_ok_iff {missing : Missing} {v : Value} {n : String} :
    name missing v = .ok n ↔ v.text? "name" = some n := by
  unfold name
  cases v.text? "name" with
  | none => simp
  | some s => simp

/-- A way of decoding that succeeds with an item wherever another one does, and in the same way,
does so with lists of items. -/
theorem decodeAll_of_forall {α : Type} {decode decode' : Nat → Value → Except Missing α}
    (h : ∀ i v x, decode i v = .ok x → decode' i v = .ok x) {i : Nat} {vs : List Value}
    {xs : List α} (hxs : decodeAll decode i vs = .ok xs) : decodeAll decode' i vs = .ok xs := by
  induction vs generalizing i xs with
  | nil => exact hxs
  | cons v rest ih =>
      obtain ⟨first, hfirst, hxs⟩ := bind_eq_ok.mp hxs
      obtain ⟨others, hothers, hxs⟩ := bind_eq_ok.mp hxs
      exact bind_eq_ok.mpr ⟨first, h i v first hfirst, bind_eq_ok.mpr ⟨others, ih hothers, hxs⟩⟩

theorem name_of_name {missing missing' : Missing} {v : Value} {n : String}
    (h : name missing v = .ok n) : name missing' v = .ok n :=
  name_eq_ok_iff.mpr (name_eq_ok_iff.mp h)

theorem steady_decodeClass : Steady decodeClass := by
  intro i j v x h
  obtain ⟨n, hn, h⟩ := bind_eq_ok.mp h
  obtain ⟨members, hmembers, h⟩ := bind_eq_ok.mp h
  have hmembers' : decodeAll (fun k => decodeMember (typeParameters v) (.memberName j k)) 0
      (v.itemsOf "members") = .ok members := by
    refine decodeAll_of_forall (fun k w m hm => ?_) hmembers
    obtain ⟨n, hn, hm⟩ := bind_eq_ok.mp hm
    exact bind_eq_ok.mpr ⟨n, name_of_name hn, hm⟩
  exact bind_eq_ok.mpr ⟨n, name_of_name hn, bind_eq_ok.mpr ⟨members, hmembers', h⟩⟩

theorem steady_decodeEnum : Steady decodeEnum := by
  intro i j v x h
  obtain ⟨n, hn, h⟩ := bind_eq_ok.mp h
  obtain ⟨constants, hconstants, h⟩ := bind_eq_ok.mp h
  have hconstants' : decodeAll (fun k => decodeConstant (.constantName j k)) 0
      (v.itemsOf "constants") = .ok constants := by
    refine decodeAll_of_forall (fun k w c hc => ?_) hconstants
    obtain ⟨n, hn, hc⟩ := bind_eq_ok.mp hc
    exact bind_eq_ok.mpr ⟨n, name_of_name hn, hc⟩
  exact bind_eq_ok.mpr ⟨n, name_of_name hn, bind_eq_ok.mpr ⟨constants, hconstants', h⟩⟩

theorem steady_decodeRoute : Steady decodeRoute := by
  intro i j v x h
  obtain ⟨n, hn, h⟩ := bind_eq_ok.mp h
  exact bind_eq_ok.mpr ⟨n, name_of_name hn, h⟩

theorem text?_name_of_decodeClass {i : Nat} {v : Value} {c : ClassRecord}
    (h : decodeClass i v = .ok c) : v.text? "name" = some c.name := by
  obtain ⟨n, hn, h⟩ := bind_eq_ok.mp h
  obtain ⟨_, _, h⟩ := bind_eq_ok.mp h
  rw [← Except.ok.inj h]
  exact name_eq_ok_iff.mp hn

theorem text?_name_of_decodeEnum {i : Nat} {v : Value} {e : EnumRecord}
    (h : decodeEnum i v = .ok e) : v.text? "name" = some e.name := by
  obtain ⟨n, hn, h⟩ := bind_eq_ok.mp h
  obtain ⟨_, _, h⟩ := bind_eq_ok.mp h
  rw [← Except.ok.inj h]
  exact name_eq_ok_iff.mp hn

/-! ## Graphs -/

theorem routeValues_eq_ok_iff {raw : Value} {vs : List Value} :
    routeValues raw = .ok vs ↔ raw.itemsOf "routes" ≠ [] ∧ raw.itemsOf "routes" = vs := by
  cases raw with
  | object fields =>
      show (if _ then _ else _) = _ ↔ _
      split
      · rename_i h
        exact ⟨fun h => absurd h (by simp), fun h' => absurd (List.isEmpty_iff.mp h) h'.1⟩
      · rename_i h
        exact ⟨fun hvs => ⟨fun hnil => h (by rw [hnil]; rfl), Except.ok.inj hvs⟩,
          fun h' => congrArg _ h'.2⟩
  | _ => exact ⟨fun h => absurd h (by simp [routeValues]), fun h => absurd rfl h.1⟩

/-- A graph is decoded item by item, and there are routes. -/
theorem decode_eq_ok_iff {raw : Value} {graph : Graph} :
    decode raw = .ok graph ↔ raw.itemsOf "routes" ≠ [] ∧
      List.Forall₂ (fun v c => decodeClass 0 v = .ok c) (raw.itemsOf "classes") graph.classes ∧
      List.Forall₂ (fun v e => decodeEnum 0 v = .ok e) (raw.itemsOf "enums") graph.enums ∧
      List.Forall₂ (fun v r => decodeRoute 0 v = .ok r) (raw.itemsOf "routes") graph.routes := by
  constructor
  · intro h
    obtain ⟨vs, hvs, h⟩ := bind_eq_ok.mp h
    obtain ⟨classes, hclasses, h⟩ := bind_eq_ok.mp h
    obtain ⟨enums, henums, h⟩ := bind_eq_ok.mp h
    obtain ⟨routes, hroutes, h⟩ := bind_eq_ok.mp h
    obtain ⟨hne, hvs⟩ := routeValues_eq_ok_iff.mp hvs
    rw [← Except.ok.inj h, hvs]
    exact ⟨hvs ▸ hne, (decodeAll_eq_ok_iff steady_decodeClass).mp hclasses,
      (decodeAll_eq_ok_iff steady_decodeEnum).mp henums,
      (decodeAll_eq_ok_iff steady_decodeRoute).mp hroutes⟩
  · rintro ⟨hne, hclasses, henums, hroutes⟩
    exact bind_eq_ok.mpr ⟨_, routeValues_eq_ok_iff.mpr ⟨hne, rfl⟩,
      bind_eq_ok.mpr ⟨_, (decodeAll_eq_ok_iff steady_decodeClass).mpr hclasses,
      bind_eq_ok.mpr ⟨_, (decodeAll_eq_ok_iff steady_decodeEnum).mpr henums,
      bind_eq_ok.mpr ⟨_, (decodeAll_eq_ok_iff steady_decodeRoute).mpr hroutes, rfl⟩⟩⟩⟩

/-! ## Types -/

/-- The types of members are read with the type parameters of their class in scope. -/
theorem exists_type_of_decodeClass {i : Nat} {v : Value} {c : ClassRecord}
    (h : decodeClass i v = .ok c) {m : Member} (hm : m ∈ c.members) :
    ∃ w, m.type = type? c.typeParameters "type" w := by
  obtain ⟨_, _, h⟩ := bind_eq_ok.mp h
  obtain ⟨members, hmembers, h⟩ := bind_eq_ok.mp h
  rw [← Except.ok.inj h] at hm ⊢
  obtain ⟨_, w, _, hw⟩ := exists_of_mem_decodeAll hmembers hm
  obtain ⟨_, _, hw⟩ := bind_eq_ok.mp hw
  rw [← Except.ok.inj hw]
  exact ⟨w, rfl⟩

theorem scoped_type? {vars : List String} {key : String} {v : Value} {t : TypeExpr}
    (h : type? vars key v = some t) : t.Scoped vars := by
  obtain ⟨s, _, hs⟩ := Option.bind_eq_some_iff.mp h
  exact TypeExpr.scoped_parse? hs

theorem superclass_of_decodeClass {i : Nat} {v : Value} {c : ClassRecord}
    (h : decodeClass i v = .ok c) {t : TypeExpr} (ht : c.superclass = some t) :
    t.Scoped c.typeParameters ∧ t.kind ≠ .unknown := by
  obtain ⟨name, _, h⟩ := bind_eq_ok.mp h
  obtain ⟨members, _, h⟩ := bind_eq_ok.mp h
  rw [← Except.ok.inj h] at ht ⊢
  obtain ⟨htype, hkind⟩ := Option.filter_eq_some_iff.mp ht
  exact ⟨scoped_type? htype, by simpa using hkind⟩

theorem superclass_of_decode {raw : Value} {graph : Graph} (h : decode raw = .ok graph)
    {c : ClassRecord} (hc : c ∈ graph.classes) {t : TypeExpr} (ht : c.superclass = some t) :
    t.Scoped c.typeParameters ∧ t.kind ≠ .unknown := by
  obtain ⟨_, _, h⟩ := bind_eq_ok.mp h
  obtain ⟨classes, hclasses, h⟩ := bind_eq_ok.mp h
  obtain ⟨_, _, h⟩ := bind_eq_ok.mp h
  obtain ⟨_, _, h⟩ := bind_eq_ok.mp h
  rw [← Except.ok.inj h] at hc
  obtain ⟨i, v, _, hv⟩ := exists_of_mem_decodeAll hclasses hc
  exact superclass_of_decodeClass hv ht

end Graph

end ApiStubs
