import ApiStubs.Proofs.Correspondence
import ApiStubs.Proofs.Registering

/-!
# Declarations apart from their annotations

A declaration keeps the annotations that it was declared with, but no type that mentions it shows
them.  So over tables that correspond up to annotations the resolver writes every type in the same
way and registers the same names (`TypeGrammar.write_eq`), and a type has meanings that are written
alike (`Resolved.writtenAlike_ofType?`).

The resolver is what this is proved of, since it goes through a type once for both targets; that the
meanings of a type are written as it says has been proved before.
-/

namespace ApiStubs

open List (Forall₂)

/-! ## Declarations -/

def Class.unannotated (c : Class) : Class :=
  { c with annotations := [] }

def Enum.unannotated (e : Enum) : Enum :=
  { e with annotations := [] }

def Declaration.unannotated : Declaration → Declaration
  | ofClass c => ofClass c.unannotated
  | ofEnum e => ofEnum e.unannotated

def Declaration.SameButAnnotations (d d' : Declaration) : Prop :=
  d.unannotated = d'.unannotated

theorem Declaration.sameShape_unannotated (d : Declaration) : d.SameShape d.unannotated := by
  cases d with
  | ofClass c => exact .ofClass rfl rfl rfl
  | ofEnum e => exact .ofEnum rfl

theorem Declaration.SameButAnnotations.shape {d d' : Declaration} (h : d.SameButAnnotations d') :
    d.SameShape d' := by
  have hshape := d.sameShape_unannotated
  rw [h] at hshape
  exact hshape.trans d'.sameShape_unannotated.symm

theorem Class.unannotated_eq {c c' : Class} (h : OnClasses Declaration.SameButAnnotations c c') :
    c.unannotated = c'.unannotated :=
  Declaration.ofClass.inj h

theorem Enum.unannotated_eq {e e' : Enum} (h : OnEnums Declaration.SameButAnnotations e e') :
    e.unannotated = e'.unannotated :=
  Declaration.ofEnum.inj h

/-! ## Resolving over tables that correspond -/

variable {R : Declaration → Declaration → Prop} {table other : DeclarationTable}

namespace TypeGrammar

/-- The grammar makes no difference between declarations that `R` relates. -/
structure Respects (g : TypeGrammar) (R : Declaration → Declaration → Prop) : Prop where
  typeParameters {c c' : Class} : OnClasses R c c' → c.typeParameters = c'.typeParameters
  ofClass {c c' : Class} : OnClasses R c c' → g.ofClass c = g.ofClass c'
  ofEnum {e e' : Enum} : OnEnums R e e' → g.ofEnum e = g.ofEnum e'

variable {g : TypeGrammar}

section Named

variable (respects : g.Respects R) (h : table.Corresponds R other)

include h

theorem writeMap_eq (key : Option TypeExpr) (writes : List (Registering String)) :
    g.writeMap table key writes = g.writeMap other key writes := by
  have hkey : key.any (·.isKey table) = key.any (·.isKey other) := by
    cases key with
    | none => rfl
    | some k => exact h.isKey_eq k
  unfold writeMap
  rw [hkey]

include respects

theorem writeDeclared_eq (n : String) (writes : List (Registering String)) :
    g.writeDeclared table n writes = g.writeDeclared other n writes := by
  have hfinds := h.finds n
  unfold writeDeclared
  generalize table.find? n = x at hfinds
  generalize other.find? n = y at hfinds
  cases hfinds with
  | none => rfl
  | @some d d' hd =>
      have hshape := h.shape hd
      cases hshape with
      | ofClass _ _ _ =>
          dsimp only
          rw [respects.typeParameters hd, respects.ofClass hd]
      | ofEnum _ =>
          dsimp only
          rw [respects.ofEnum hd]

theorem writeNamed_eq (nested : Bool) (n : String) (args : List TypeExpr)
    (writes : List (Registering String)) :
    g.writeNamed table nested n args writes = g.writeNamed other nested n args writes := by
  unfold writeNamed
  cases TypeKind.ofName n with
  | map => exact writeMap_eq h args.head? writes
  | declared => exact writeDeclared_eq respects h n writes
  | _ => rfl

end Named

mutual

/-- Over tables that correspond a type is written in the same way. -/
theorem write_eq (respects : g.Respects R) (h : table.Corresponds R other) :
    ∀ (t : TypeExpr) (nested : Bool), g.write table nested t = g.write other nested t
  | .wildcard, _ => by rw [write, write]
  | .var _, _ => by rw [write, write]
  | .named n args, nested => by
      rw [write, write, writeAll_eq respects h args]
      exact writeNamed_eq respects h nested n args _

theorem writeAll_eq (respects : g.Respects R) (h : table.Corresponds R other) :
    ∀ ts : List TypeExpr, g.writeAll table ts = g.writeAll other ts
  | [] => by rw [writeAll, writeAll]
  | t :: rest => by
      rw [writeAll, writeAll, write_eq respects h t true, writeAll_eq respects h rest]

end

theorem write?_eq (respects : g.Respects R) (h : table.Corresponds R other) (t : Option TypeExpr)
    (nested : Bool) : g.write? table nested t = g.write? other nested t := by
  cases t with
  | none => rfl
  | some t => exact write_eq respects h t nested

end TypeGrammar

theorem Ts.grammar_respects : Ts.grammar.Respects Declaration.SameButAnnotations where
  typeParameters {c c'} hc :=
    show c.unannotated.typeParameters = c'.unannotated.typeParameters from
      congrArg (fun c : Class => c.typeParameters) (Class.unannotated_eq hc)
  ofClass {c c'} hc :=
    show Ts.grammar.ofClass c.unannotated = Ts.grammar.ofClass c'.unannotated from
      congrArg _ (Class.unannotated_eq hc)
  ofEnum {e e'} he :=
    show Ts.grammar.ofEnum e.unannotated = Ts.grammar.ofEnum e'.unannotated from
      congrArg _ (Enum.unannotated_eq he)

theorem Oc.grammar_respects : Oc.grammar.Respects Declaration.SameButAnnotations where
  typeParameters {c c'} hc :=
    show c.unannotated.typeParameters = c'.unannotated.typeParameters from
      congrArg (fun c : Class => c.typeParameters) (Class.unannotated_eq hc)
  ofClass {c c'} hc :=
    show Oc.grammar.ofClass c.unannotated = Oc.grammar.ofClass c'.unannotated from
      congrArg _ (Class.unannotated_eq hc)
  ofEnum {e e'} he :=
    show Oc.grammar.ofEnum e.unannotated = Oc.grammar.ofEnum e'.unannotated from
      congrArg _ (Enum.unannotated_eq he)

/-! ## Meanings written alike -/

/-- The meanings are written in the same way, and with the same auxiliary names. -/
structure Resolved.WrittenAlike (w w' : Resolved) : Prop where
  ts : Ts.typeText w = Ts.typeText w'
  oc (nested : Bool) : Oc.typeText nested w = Oc.typeText nested w'
  registers (registry : AliasRegistry) :
    registry.registerAll w.aliases = registry.registerAll w'.aliases

namespace Resolved

section

variable (h : table.Corresponds Declaration.SameButAnnotations other)

include h

theorem writtenAlike_ofType? (t : Option TypeExpr) :
    (ofType? table t).WrittenAlike (ofType? other t) := by
  -- The run of the resolver is the same, and it ends with the text and with what it registered.
  have hts (registry : AliasRegistry) :
      (Ts.typeText (ofType? table t), registry.registerAll (ofType? table t).aliases) =
        (Ts.typeText (ofType? other t), registry.registerAll (ofType? other t).aliases) := by
    rw [← TypeGrammar.writes_write? Ts.grammar_fits false t registry,
      ← TypeGrammar.writes_write? Ts.grammar_fits false t registry,
      TypeGrammar.write?_eq Ts.grammar_respects h]
  have hoc (nested : Bool) :
      (Oc.typeText nested (ofType? table t), AliasRegistry.empty) =
        (Oc.typeText nested (ofType? other t), AliasRegistry.empty) := by
    have hrun : (Oc.grammar.write? table nested t).run .empty =
        (Oc.typeText nested (ofType? table t), AliasRegistry.empty) :=
      TypeGrammar.writes_write? Oc.grammar_fits nested t .empty
    rw [TypeGrammar.write?_eq Oc.grammar_respects h] at hrun
    exact hrun.symm.trans (TypeGrammar.writes_write? Oc.grammar_fits nested t .empty)
  exact ⟨congrArg Prod.fst (hts .empty), fun nested => congrArg Prod.fst (hoc nested),
    fun registry => congrArg Prod.snd (hts registry)⟩

theorem writtenAlike_ofType (t : TypeExpr) : (ofType table t).WrittenAlike (ofType other t) :=
  writtenAlike_ofType? h (some t)

end

/-- Meanings that are written alike one by one register the same names in a row. -/
theorem registerAll_aliasesOfAll_eq {ws ws' : List Resolved} (h : Forall₂ WrittenAlike ws ws')
    (registry : AliasRegistry) :
    registry.registerAll (aliasesOfAll ws) = registry.registerAll (aliasesOfAll ws') := by
  rw [aliasesOfAll_eq_flatMap, aliasesOfAll_eq_flatMap]
  induction h generalizing registry with
  | nil => rfl
  | @cons w w' ws ws' hw _ ih =>
      rw [List.flatMap_cons, List.flatMap_cons, AliasRegistry.registerAll_append,
        AliasRegistry.registerAll_append, hw.registers, ih]

end Resolved

end ApiStubs
