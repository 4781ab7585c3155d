import ApiStubs.Proofs.Indentation
import Mathlib.Data.List.Infix

/-!
# What a run leaves as it was

However operations end, they leave the style and the margins of a writer as they were, and all
lines but the last one, which alone can be amended (`Writer.Framed`).  Every operation has a lemma
that says so, and failures in between need no case of their own, since a body that fails still ends
on margins from which its own one is taken off (`Writer.framed_pop`).  Operations that amend nothing
keep the last line too (`WriteOp.framed_runs`).

What fails by itself writes nothing: an amendment that gives up, or a comment whose body cannot be
run.  A write has written what stands before the first item that is no text.
-/

namespace ApiStubs

namespace Writer

/-- What stays the same when operations are run, however they end. -/
structure Framed (w v : Writer) : Prop where
  style : v.style = w.style
  margins : v.margins = w.margins
  count : w.lines.size ≤ v.lines.size
  /-- the lines before the last one -/
  settled : w.lines.toList.dropLast <+: v.lines.toList.dropLast

theorem Framed.refl (w : Writer) : Framed w w :=
  ⟨rfl, rfl, Nat.le_refl _, List.prefix_rfl⟩

theorem Framed.trans {u v w : Writer} (h : Framed w v) (h' : Framed v u) : Framed w u :=
  ⟨h'.style.trans h.style, h'.margins.trans h.margins, h.count.trans h'.count,
    h.settled.trans h'.settled⟩

theorem dropLast_isPrefix_append (front back : List String) :
    front.dropLast <+: (front ++ back).dropLast := by
  by_cases h : back = []
  · rw [h, List.append_nil]
  · rw [List.dropLast_append_of_ne_nil h]
    exact (List.dropLast_prefix front).trans (List.prefix_append _ _)

theorem framed_add (w : Writer) (lines : List String) : Framed w (w.add lines) where
  style := rfl
  margins := rfl
  count := by simp [add]
  settled := by
    rw [lines_add]
    exact dropLast_isPrefix_append _ _

theorem framed_amend (w : Writer) (change : String → Option String) :
    Framed w (w.amend change).1 := by
  rw [amend]
  cases hlast : w.last? with
  | none => exact .refl w
  | some line =>
      cases hc : change line with
      | none =>
          simp only [hc]
          exact .refl w
      | some changed =>
          have hlines : (w.lines.pop.push changed).toList.dropLast = w.lines.toList.dropLast := by
            simp
          have hsize : w.lines.size ≠ 0 := by
            intro h
            rw [last?, Array.eq_empty_of_size_eq_zero h] at hlast
            exact absurd hlast (by simp)
          simp only [hc]
          exact ⟨rfl, rfl, by simp; omega, hlines ▸ List.prefix_rfl⟩

/-- What is pushed is popped. -/
theorem framed_pop {w v : Writer} {margin : String} (h : Framed (w.push margin) v) :
    Framed w v.pop where
  style := h.style
  margins := by
    show v.margins.dropLast = w.margins
    rw [h.margins]
    exact List.dropLast_concat
  count := h.count
  settled := h.settled

theorem framed_closeComment {w : Writer} {body : Writer × Option WriteFailure}
    (h : Framed w.openComment body.1) : Framed w (closeComment body).1 := by
  have hpop : Framed w body.1.pop := (w.framed_add _).trans (framed_pop h)
  rw [closeComment]
  cases body.2 with
  | none => exact hpop.trans (framed_add _ _)
  | some failure => exact hpop

end Writer

/-! ## Writes -/

def WriteItem.isText : WriteItem → Bool
  | other _ => false
  | _ => true

def WriteItem.lines (margin : String) : WriteItem → List String
  | text s => Writer.indentLines margin s
  | _ => []

/-- Why an item cannot be written, if it cannot. -/
def WriteItem.failure? : WriteItem → Option WriteFailure
  | other kind => some (.notText kind)
  | _ => none

/-- A write adds the lines of the items before the first one that is no text. -/
theorem Writer.writeItems_eq (items : List WriteItem) (w : Writer) :
    w.writeItems items =
      (w.add ((items.takeWhile (·.isText)).flatMap (·.lines (String.join w.margins))),
        items.findSome? (·.failure?)) := by
  induction items generalizing w with
  | nil =>
      rw [writeItems, List.takeWhile_nil, List.flatMap_nil, add_nil, List.findSome?_nil]
  | cons item rest ih =>
      cases item with
      | nothing =>
          rw [writeItems, ih, List.takeWhile_cons_of_pos rfl, List.flatMap_cons]
          rfl
      | text s =>
          rw [writeItems, ih, List.takeWhile_cons_of_pos rfl, List.flatMap_cons, writeText_eq_add,
            add_add]
          rfl
      | other kind =>
          rw [writeItems, List.takeWhile_cons_of_neg Bool.false_ne_true, List.flatMap_nil, add_nil]
          rfl

/-! ## Operations -/

namespace WriteOp

open Writer (Framed)

mutual

theorem framed_run : ∀ (op : WriteOp) (w : Writer), Framed w (op.run w).1
  | .write items, w => by
      rw [run, Writer.writeItems_eq]
      exact w.framed_add _
  | .block body, w => by
      rw [run]
      exact Writer.framed_pop (framed_runAll body w.openBlock)
  | .blockBy body, w => by
      rw [run]
      exact Writer.framed_pop (framed_runAll body w.openBlock)
  | .comment body, w => by
      rw [run]
      exact Writer.framed_closeComment (framed_runAll body w.openComment)
  | .commentBy body, w => by
      rw [run]
      exact Writer.framed_closeComment (framed_runAll body w.openComment)
  | .blockByValue _, w => by
      rw [run]
      exact .refl w
  | .commentByValue _, w => by
      rw [run]
      exact .refl w
  | .amend change, w => by
      rw [run]
      exact w.framed_amend change
  | .fail, w => by
      rw [run]
      exact .refl w

/-- However operations end, style, margins and the lines before the last one are kept. -/
theorem framed_runAll : ∀ (ops : List WriteOp) (w : Writer), Framed w (runAll ops w).1
  | [], w => by
      rw [runAll]
      exact .refl w
  | op :: rest, w => by
      have hop := framed_run op w
      rw [runAll]
      cases hrun : run op w with
      | mk v failure =>
          rw [hrun] at hop
          cases failure with
          | none => exact hop.trans (framed_runAll rest v)
          | some failure => exact hop

end

/-- Where nothing is amended, the lines so far stay, the last one included. -/
theorem isPrefix_lines_runAll {ops : List WriteOp} (plain : amendsAny ops = false) (w : Writer) :
    w.lines.toList <+: (runAll ops w).1.lines.toList := by
  rw [(lines_indented ops plain w).1]
  exact List.prefix_append _ _

theorem runAll_singleton (op : WriteOp) (w : Writer) : runAll [op] w = op.run w := by
  rw [runAll]
  cases op.run w with
  | mk v failure =>
      cases failure with
      | none => simp only [runAll]
      | some failure => rfl

theorem isPrefix_lines_run {op : WriteOp} (plain : op.amends = false) (w : Writer) :
    w.lines.toList <+: (op.run w).1.lines.toList := by
  rw [← runAll_singleton]
  exact isPrefix_lines_runAll (by rw [amendsAny, plain, amendsAny, Bool.or_false]) w

theorem run_amend_of_failure {change : String → Option String} {w : Writer}
    {failure : WriteFailure} (h : ((amend change).run w).2 = some failure) :
    ((amend change).run w).1 = w := by
  rw [run, Writer.amend] at h ⊢
  cases hlast : w.last? with
  | none => rfl
  | some line =>
      cases hc : change line with
      | none => simp only [hc]
      | some changed => exact absurd h (by simp [hlast, hc])

/-- However operations nested to any depth end, the margins are those before, there are no fewer
lines, and the lines before the last one are the same, as is the last one where nothing is amended.
An amendment that fails and a comment whose body cannot be run change nothing; a write has added
the lines of the items before the first one that is no text, and fails because of that one. -/
theorem framed_runs (w : Writer) :
    (∀ op : WriteOp, Framed w (op.run w).1 ∧
      (op.amends = false → w.lines.toList <+: (op.run w).1.lines.toList)) ∧
    (∀ ops : List WriteOp, Framed w (runAll ops w).1 ∧
      (amendsAny ops = false → w.lines.toList <+: (runAll ops w).1.lines.toList)) ∧
    (∀ change failure, ((amend change).run w).2 = some failure → ((amend change).run w).1 = w) ∧
    (∀ kind, (commentByValue kind).run w = (w, some (.noCommentBody kind))) ∧
    ∀ items, (write items).run w =
      (w.add ((items.takeWhile (·.isText)).flatMap (·.lines (String.join w.margins))),
        items.findSome? (·.failure?)) := by
  refine ⟨fun op => ⟨framed_run op w, fun plain => isPrefix_lines_run plain w⟩,
    fun ops => ⟨framed_runAll ops w, fun plain => isPrefix_lines_runAll plain w⟩,
    fun _ _ => run_amend_of_failure, fun kind => ?_, fun items => ?_⟩
  · rw [run]
  · rw [run, Writer.writeItems_eq]

theorem framed_runs_nested :
    (runAll nestedOps nestedWriter).2 = some (.notText .int) ∧
    Framed nestedWriter (runAll nestedOps nestedWriter).1 ∧
    amendsAny nestedOps = false ∧
    ["x"] <+: (runAll nestedOps nestedWriter).1.lines.toList ∧
    ((amend fun _ => none).run nestedWriter).2 = some .gaveUp ∧
    ((amend fun _ => none).run nestedWriter).1 = nestedWriter := by
  obtain ⟨_, hruns, hamend, _⟩ := framed_runs nestedWriter
  obtain ⟨framed, kept⟩ := hruns nestedOps
  have plain : amendsAny nestedOps = false := by decide
  have failed : ((amend fun _ => none).run nestedWriter).2 = some .gaveUp := by decide +kernel
  exact ⟨by decide +kernel, framed, plain, kept plain, failed, hamend _ _ failed⟩

end WriteOp

end ApiStubs
