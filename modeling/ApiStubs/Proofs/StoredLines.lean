import ApiStubs.Proofs.Framing
import ApiStubs.Proofs.Headers
import ApiStubs.Proofs.Samples
import ApiStubs.Proofs.UnbrokenTypes

/-!
# Stored lines

A writer stores lines, and the text of a file is these lines with line feeds in between.  To get
them back by cutting the text at its line feeds no line may hold one.  Texts are cut when they are
written, but margins are not, and an amendment puts whatever it likes into the last line.

What is looked at is every state of a writer, not only the one at the end of a run: a run goes from
state to state (`WriteOp.states`), and each differs from the one before by a line, a margin or the
last line (`WriteOp.passes_run`).  All of them are clean (`Writer.Clean`) if the one at the start is
and the operations are those of generated files.  The only amendment among these is that of a memo,
whose line breaks are taken out before it is put behind a line (`WriteOp.run_memo`).
-/

namespace ApiStubs

open Text (Unbroken)

/-! ## Texts without breaks -/

namespace Text

theorem not_mem_of_mem_linesFrom {line cs : List Char} (hline : '\r' ∉ line ∧ '\n' ∉ line) :
    ∀ part ∈ linesFrom line cs, '\r' ∉ part ∧ '\n' ∉ part := by
  have hreverse : ∀ line : List Char, ('\r' ∉ line ∧ '\n' ∉ line) →
      '\r' ∉ line.reverse ∧ '\n' ∉ line.reverse := by
    simp
  have hnil : '\r' ∉ ([] : List Char) ∧ '\n' ∉ ([] : List Char) := by simp
  fun_induction linesFrom line cs with
  | case1 line => exact List.forall_mem_singleton.mpr (hreverse line hline)
  | case2 line rest ih => exact List.forall_mem_cons.mpr ⟨hreverse line hline, ih hnil⟩
  | case3 line rest _ ih => exact List.forall_mem_cons.mpr ⟨hreverse line hline, ih hnil⟩
  | case4 line rest ih => exact List.forall_mem_cons.mpr ⟨hreverse line hline, ih hnil⟩
  | case5 line c rest _ hreturn hfeed ih =>
      refine ih ⟨fun h => ?_, fun h => ?_⟩
      · exact hline.1 ((List.mem_cons.mp h).resolve_left fun e => hreturn e.symm)
      · exact hline.2 ((List.mem_cons.mp h).resolve_left fun e => hfeed e.symm)

/-- The lines of a text have no breaks. -/
theorem not_mem_of_mem_splitLines {cs line : List Char} (h : line ∈ splitLines cs) :
    '\r' ∉ line ∧ '\n' ∉ line :=
  not_mem_of_mem_linesFrom (by simp) line h

theorem unbroken_join {ss : List String} (h : ∀ s ∈ ss, Unbroken s) :
    Unbroken (String.join ss) := by
  induction ss with
  | nil => decide
  | cons s rest ih =>
      obtain ⟨hs, hrest⟩ := List.forall_mem_cons.mp h
      rw [String.join_cons]
      exact unbroken_append_iff.mpr ⟨hs, ih hrest⟩

end Text

/-! ## States -/

namespace Writer

/-- One change of a writer: a line or a margin more, a margin less, or another last line. -/
inductive Change : Writer → Writer → Prop
  | line (w : Writer) (line : String) : Change w (w.add [line])
  | push (w : Writer) (margin : String) : Change w (w.push margin)
  | pop (w : Writer) : Change w w.pop
  | last (w : Writer) {line : String} (changed : String) : w.last? = some line →
      Change w { w with lines := w.lines.pop.push changed }

/-- `Passes w states v`: going through `states`, change by change, takes the writer `w` to `v`. -/
inductive Passes : Writer → List Writer → Writer → Prop
  | done (w : Writer) : Passes w [] w
  | change {w u v : Writer} {states : List Writer} : Change w u → Passes u states v →
      Passes w (u :: states) v

theorem Passes.append {u v w : Writer} {states more : List Writer} (h : Passes w states u)
    (h' : Passes u more v) : Passes w (states ++ more) v := by
  induction h with
  | done _ => exact h'
  | change hchange _ ih => exact .change hchange (ih h')

theorem Change.passes {w v : Writer} (h : Change w v) : Passes w [v] v :=
  .change h (.done v)

def statesOfLines : Writer → List String → List Writer
  | _, [] => []
  | w, line :: rest => w.add [line] :: (w.add [line]).statesOfLines rest

def statesOfText (w : Writer) (s : String) : List Writer :=
  w.statesOfLines (indentLines (String.join w.margins) s)

/-- The writer after each line of several items, up to the first that is no text. -/
def statesOfItems : Writer → List WriteItem → List Writer
  | _, [] => []
  | w, .nothing :: rest => w.statesOfItems rest
  | w, .text s :: rest => w.statesOfText s ++ (w.writeText s).statesOfItems rest
  | _, .other _ :: _ => []

/-- The writer with its last line changed, unless that fails. -/
def statesOfAmend (w : Writer) (change : String → Option String) : List Writer :=
  if (w.amend change).2.isNone then [(w.amend change).1] else []

/-- The writer behind the body of a comment, given how that ended. -/
def statesOfClosing (body : Writer × Option WriteFailure) : List Writer :=
  body.1.pop ::
    match body.2 with
    | none => body.1.pop.statesOfText body.1.style.comment.closing
    | some _ => []

end Writer

namespace WriteOp

open Writer

mutual

/-- All states of a writer in the run of an operation, apart from the one at the start. -/
def states : WriteOp → Writer → List Writer
  | write items, w => w.statesOfItems items
  | block body, w =>
    w.openBlock :: statesOfAll body w.openBlock ++ [(runAll body w.openBlock).1.pop]
  | blockBy body, w =>
    w.openBlock :: statesOfAll body w.openBlock ++ [(runAll body w.openBlock).1.pop]
  | comment body, w =>
    w.statesOfText w.style.comment.opening ++ w.openComment :: statesOfAll body w.openComment ++
      statesOfClosing (runAll body w.openComment)
  | commentBy body, w =>
    w.statesOfText w.style.comment.opening ++ w.openComment :: statesOfAll body w.openComment ++
      statesOfClosing (runAll body w.openComment)
  | blockByValue _, _ => []
  | commentByValue _, _ => []
  | amend change, w => w.statesOfAmend change
  | fail, _ => []

def statesOfAll : List WriteOp → Writer → List Writer
  | [], _ => []
  | op :: rest, w =>
    states op w ++
      match run op w with
      | (v, none) => statesOfAll rest v
      | (_, some _) => []

end

end WriteOp

/-! ## Runs pass through their states -/

namespace Writer

theorem passes_lines (w : Writer) (lines : List String) :
    Passes w (w.statesOfLines lines) (w.add lines) := by
  induction lines generalizing w with
  | nil =>
      rw [add_nil]
      exact .done w
  | cons line rest ih =>
      have hrest := ih (w.add [line])
      rw [add_add] at hrest
      exact .change (.line w line) hrest

theorem passes_text (w : Writer) (s : String) : Passes w (w.statesOfText s) (w.writeText s) :=
  w.passes_lines _

theorem passes_items (items : List WriteItem) (w : Writer) :
    Passes w (w.statesOfItems items) (w.writeItems items).1 := by
  induction items generalizing w with
  | nil => exact .done w
  | cons item rest ih =>
      cases item with
      | nothing => exact ih w
      | text s => exact (w.passes_text s).append (ih _)
      | other kind => exact .done w

theorem passes_amend (w : Writer) (change : String → Option String) :
    Passes w (w.statesOfAmend change) (w.amend change).1 := by
  rw [statesOfAmend, amend]
  cases hlast : w.last? with
  | none => exact .done w
  | some line =>
      cases hchange : change line with
      | none =>
          simp only [hchange]
          exact .done w
      | some changed =>
          simp only [hchange]
          exact (Change.last w changed hlast).passes

theorem passes_closing (body : Writer × Option WriteFailure) :
    Passes body.1 (statesOfClosing body) (closeComment body).1 := by
  rw [statesOfClosing, closeComment]
  cases body.2 with
  | none => exact .change (.pop _) (passes_text _ _)
  | some failure => exact (Change.pop _).passes

/-- A body under a margin that is pushed before. -/
theorem passes_pushed {w v : Writer} {margin : String} {states : List Writer}
    (body : Passes (w.push margin) states v) : Passes w (w.push margin :: states) v :=
  .change (.push w margin) body

end Writer

namespace WriteOp

open Writer

mutual

theorem passes_run : ∀ (op : WriteOp) (w : Writer), Passes w (op.states w) (op.run w).1
  | .write items, w => by
      rw [states, run]
      exact passes_items items w
  | .block body, w => by
      rw [states, run]
      exact (passes_pushed (passes_runAll body w.openBlock)).append (Change.pop _).passes
  | .blockBy body, w => by
      rw [states, run]
      exact (passes_pushed (passes_runAll body w.openBlock)).append (Change.pop _).passes
  | .comment body, w => by
      rw [states, run, List.append_assoc]
      exact (w.passes_text _).append
        ((passes_pushed (passes_runAll body w.openComment)).append (passes_closing _))
  | .commentBy body, w => by
      rw [states, run, List.append_assoc]
      exact (w.passes_text _).append
        ((passes_pushed (passes_runAll body w.openComment)).append (passes_closing _))
  | .blockByValue _, w => by
      rw [states, run]
      exact .done w
  | .commentByValue _, w => by
      rw [states, run]
      exact .done w
  | .amend change, w => by
      rw [states, run]
      exact passes_amend w change
  | .fail, w => by
      rw [states, run]
      exact .done w

/-- A run goes through its states, change by change, and ends in the last one of them. -/
theorem passes_runAll : ∀ (ops : List WriteOp) (w : Writer),
    Passes w (statesOfAll ops w) (runAll ops w).1
  | [], w => by
      rw [statesOfAll, runAll]
      exact .done w
  | op :: rest, w => by
      have hop := passes_run op w
      rw [statesOfAll, runAll]
      cases hrun : run op w with
      | mk v failure =>
          rw [hrun] at hop
          cases failure with
          | none => exact hop.append (passes_runAll rest v)
          | some failure => exact hop.append (.done v)

end

end WriteOp

/-! ## Clean writers -/

namespace Writer

/-- No line and no margin has a break, and no margin that may be pushed has one. -/
structure Clean (w : Writer) : Prop where
  indentUnit : Unbroken w.style.indentUnit
  commentMargin : Unbroken w.style.comment.margin
  margins : ∀ margin ∈ w.margins, Unbroken margin
  lines : ∀ line ∈ w.lines, Unbroken line

theorem clean_new : (new .standard).Clean where
  indentUnit := by decide
  commentMargin := by decide
  margins _ h := absurd h List.not_mem_nil
  lines _ h := absurd h (Array.not_mem_empty _)

section

variable {w v : Writer}

theorem Clean.add (h : w.Clean) {lines : List String} (unbroken : ∀ line ∈ lines, Unbroken line) :
    (w.add lines).Clean where
  indentUnit := h.indentUnit
  commentMargin := h.commentMargin
  margins := h.margins
  lines line hline := by
    rcases Array.mem_append.mp hline with hline | hline
    · exact h.lines line hline
    · exact unbroken line (List.mem_toArray.mp hline)

theorem Clean.push (h : w.Clean) {margin : String} (unbroken : Unbroken margin) :
    (w.push margin).Clean where
  indentUnit := h.indentUnit
  commentMargin := h.commentMargin
  margins m hm := by
    rcases List.mem_append.mp hm with hm | hm
    · exact h.margins m hm
    · exact List.mem_singleton.mp hm ▸ unbroken
  lines := h.lines

theorem Clean.pop (h : w.Clean) : w.pop.Clean where
  indentUnit := h.indentUnit
  commentMargin := h.commentMargin
  margins m hm := h.margins m (List.mem_of_mem_dropLast hm)
  lines := h.lines

/-- A run through clean states ends in one. -/
theorem Passes.clean {states : List Writer} (h : Passes w states v) (start : w.Clean)
    (clean : ∀ u ∈ states, u.Clean) : v.Clean := by
  induction h with
  | done _ => exact start
  | change _ _ ih =>
      obtain ⟨hu, hstates⟩ := List.forall_mem_cons.mp clean
      exact ih hu hstates

theorem indent_subset (margin line : List Char) : indent margin line ⊆ margin ++ line := by
  rw [indent]
  split
  · rw [Text.trimEnd_eq_rdropWhile]
    exact List.Subset.trans (List.rdropWhile_prefix _ _).subset (List.subset_append_left _ _)
  · exact List.Subset.refl _

theorem Clean.indentLines (h : w.Clean) (s : String) :
    ∀ line ∈ indentLines (String.join w.margins) s, Unbroken line := by
  intro line hline
  obtain ⟨cs, hcs, rfl⟩ := List.mem_map.mp hline
  have hline : Unbroken (String.ofList cs) := by
    simpa [Unbroken] using Text.not_mem_of_mem_splitLines hcs
  have hboth : Unbroken (String.join w.margins ++ String.ofList cs) :=
    Text.unbroken_append_iff.mpr ⟨Text.unbroken_join h.margins, hline⟩
  exact hboth.of_subset (by simpa using indent_subset (String.join w.margins).toList cs)

theorem Clean.statesOfLines (h : w.Clean) {lines : List String}
    (unbroken : ∀ line ∈ lines, Unbroken line) : ∀ u ∈ w.statesOfLines lines, u.Clean := by
  induction lines generalizing w with
  | nil => exact fun _ hu => absurd hu List.not_mem_nil
  | cons line rest ih =>
      obtain ⟨hline, hrest⟩ := List.forall_mem_cons.mp unbroken
      have hadd : (w.add [line]).Clean := h.add (List.forall_mem_singleton.mpr hline)
      exact List.forall_mem_cons.mpr ⟨hadd, ih hadd hrest⟩

/-- Whatever text is written, it is cut into lines. -/
theorem Clean.statesOfText (h : w.Clean) (s : String) : ∀ u ∈ w.statesOfText s, u.Clean :=
  h.statesOfLines (h.indentLines s)

theorem Clean.writeText (h : w.Clean) (s : String) : (w.writeText s).Clean :=
  h.add (h.indentLines s)

theorem Clean.statesOfItems (h : w.Clean) (items : List WriteItem) :
    ∀ u ∈ w.statesOfItems items, u.Clean := by
  induction items generalizing w with
  | nil => exact fun _ hu => absurd hu List.not_mem_nil
  | cons item rest ih =>
      cases item with
      | nothing => exact ih h
      | text s => exact List.forall_mem_append.mpr ⟨h.statesOfText s, ih (h.writeText s)⟩
      | other kind => exact fun _ hu => absurd hu List.not_mem_nil

theorem Clean.statesOfAmend (h : w.Clean) {change : String → Option String}
    (keeps : ∀ line changed, Unbroken line → change line = some changed → Unbroken changed) :
    ∀ u ∈ w.statesOfAmend change, u.Clean := by
  rw [Writer.statesOfAmend, amend]
  cases hlast : w.last? with
  | none => exact fun _ hu => absurd hu List.not_mem_nil
  | some line =>
      cases hchange : change line with
      | none =>
          simp only [hchange]
          exact fun _ hu => absurd hu List.not_mem_nil
      | some changed =>
          simp only [hchange]
          refine List.forall_mem_singleton.mpr
            ⟨h.indentUnit, h.commentMargin, h.margins, fun l hl => ?_⟩
          rcases Array.mem_push.mp hl with hl | rfl
          · have hl : l ∈ w.lines.toList.dropLast := Array.toList_pop ▸ Array.mem_toList_iff.mpr hl
            exact h.lines l (Array.mem_toList_iff.mp (List.mem_of_mem_dropLast hl))
          · exact keeps line l (h.lines line (Array.mem_of_back? hlast)) hchange

theorem statesOfClosing_clean {body : Writer × Option WriteFailure} (h : body.1.Clean) :
    ∀ u ∈ statesOfClosing body, u.Clean := by
  refine List.forall_mem_cons.mpr ⟨h.pop, ?_⟩
  cases body.2 with
  | none => exact h.pop.statesOfText _
  | some _ => exact fun _ hu => absurd hu List.not_mem_nil

end

/-! ## Writers with a line -/

theorem Change.started {w v : Writer} (h : Change w v) (start : w.Started) : v.Started := by
  cases h with
  | line line => exact fun h => absurd (Array.append_eq_empty_iff.mp h).2 (by simp)
  | push margin => exact start
  | pop => exact start
  | last changed _ => exact Array.push_ne_empty

/-- A writer that has a line always has one. -/
theorem Passes.started {w v : Writer} {states : List Writer} (h : Passes w states v)
    (start : w.Started) : (∀ u ∈ states, u.Started) ∧ v.Started := by
  induction h with
  | done _ => exact ⟨fun _ hu => absurd hu List.not_mem_nil, start⟩
  | change hchange _ ih =>
      obtain ⟨hstates, hend⟩ := ih (hchange.started start)
      exact ⟨List.forall_mem_cons.mpr ⟨hchange.started start, hstates⟩, hend⟩

theorem started_statesOfLines (w : Writer) (lines : List String) :
    ∀ u ∈ w.statesOfLines lines, u.Started := by
  induction lines generalizing w with
  | nil => exact fun _ hu => absurd hu List.not_mem_nil
  | cons line rest ih =>
      have hadd : (w.add [line]).Started := fun h =>
        absurd (Array.append_eq_empty_iff.mp h).2 (by simp)
      exact List.forall_mem_cons.mpr ⟨hadd, ih _⟩

theorem started_statesOfItems (w : Writer) (items : List WriteItem) :
    ∀ u ∈ w.statesOfItems items, u.Started := by
  induction items generalizing w with
  | nil => exact fun _ hu => absurd hu List.not_mem_nil
  | cons item rest ih =>
      cases item with
      | nothing => exact ih w
      | text s => exact List.forall_mem_append.mpr ⟨w.started_statesOfLines _, ih _⟩
      | other kind => exact fun _ hu => absurd hu List.not_mem_nil

/-- What is put together by line feeds is cut into the same lines by them. -/
theorem splitOn_text {w : Writer} (started : w.Started)
    (unbroken : ∀ line ∈ w.lines, Unbroken line) :
    w.text.toList.splitOn '\n' = w.lines.toList.map String.toList := by
  rw [text, String.toList_intercalate]
  refine List.splitOn_intercalate '\n' ?_ ?_
  · intro cs hcs
    obtain ⟨line, hline, rfl⟩ := List.mem_map.mp hcs
    exact (unbroken line (Array.mem_toList_iff.mp hline)).2
  · have hlines : w.lines ≠ #[] := started
    simpa using hlines

end Writer

/-! ## Operations of generated files -/

namespace WriteOp

open Writer

/-- `KeepsClean op`: run on a clean writer, the operation goes through clean states. -/
def KeepsClean (op : WriteOp) : Prop :=
  ∀ w : Writer, w.Clean → ∀ u ∈ op.states w, u.Clean

theorem clean_statesOfAll {ops : List WriteOp} (h : ∀ op ∈ ops, op.KeepsClean) {w : Writer}
    (hw : w.Clean) : ∀ u ∈ statesOfAll ops w, u.Clean := by
  induction ops generalizing w with
  | nil =>
      rw [statesOfAll]
      exact fun _ hu => absurd hu List.not_mem_nil
  | cons op rest ih =>
      obtain ⟨hop, hrest⟩ := List.forall_mem_cons.mp h
      have hv : (op.run w).1.Clean := (passes_run op w).clean hw (hop w hw)
      rw [statesOfAll]
      refine List.forall_mem_append.mpr ⟨hop w hw, ?_⟩
      cases hrun : op.run w with
      | mk v failure =>
          rw [hrun] at hv
          cases failure with
          | none => exact ih hrest hv
          | some _ => exact fun _ hu => absurd hu List.not_mem_nil

/-- A memo is its lines with blanks in between. -/
theorem memoText_eq (memo : String) :
    memoText memo = " ".intercalate (Text.lines (String.ofList (Text.trim memo.toList))) := by
  rw [memoText, Text.onOneLine, Text.lines, String.toList_ofList, ← String.toList_inj,
    String.toList_intercalate, String.toList_ofList, List.map_map]
  simp

theorem unbroken_memoText (memo : String) : Unbroken (memoText memo) := by
  rw [memoText_eq]
  refine Text.unbroken_intercalate (by decide) fun line hline => ?_
  obtain ⟨cs, hcs, rfl⟩ := List.mem_map.mp hline
  simpa [Unbroken] using Text.not_mem_of_mem_splitLines hcs

theorem unbroken_memoTail (memo : String) : Unbroken (" // " ++ memoText memo) :=
  Text.unbroken_append_iff.mpr ⟨by decide, unbroken_memoText memo⟩

theorem keepsClean_texts (ss : List String) : (texts ss).KeepsClean := by
  intro w hw
  rw [texts, states]
  exact hw.statesOfItems _

theorem keepsClean_block {body : List WriteOp} (h : ∀ op ∈ body, op.KeepsClean) :
    (block body).KeepsClean := by
  intro w hw
  have hopen : w.openBlock.Clean := hw.push hw.indentUnit
  have hbody := clean_statesOfAll h hopen
  have hend : (runAll body w.openBlock).1.Clean := (passes_runAll body _).clean hopen hbody
  rw [states]
  exact List.forall_mem_append.mpr
    ⟨List.forall_mem_cons.mpr ⟨hopen, hbody⟩, List.forall_mem_singleton.mpr hend.pop⟩

theorem keepsClean_comment {body : List WriteOp} (h : ∀ op ∈ body, op.KeepsClean) :
    (comment body).KeepsClean := by
  intro w hw
  have hopen : w.openComment.Clean := (hw.writeText _).push hw.commentMargin
  have hbody := clean_statesOfAll h hopen
  have hend : (runAll body w.openComment).1.Clean := (passes_runAll body _).clean hopen hbody
  rw [states, List.append_assoc]
  exact List.forall_mem_append.mpr ⟨hw.statesOfText _, List.forall_mem_append.mpr
    ⟨List.forall_mem_cons.mpr ⟨hopen, hbody⟩, statesOfClosing_clean hend⟩⟩

theorem keepsClean_amend {change : String → Option String}
    (keeps : ∀ line changed, Unbroken line → change line = some changed → Unbroken changed) :
    (amend change).KeepsClean := by
  intro w hw
  rw [states]
  exact hw.statesOfAmend keeps

theorem started_texts {lines : List String} (hl : lines ≠ []) (ops : List WriteOp) (w : Writer) :
    (∀ u ∈ statesOfAll (texts lines :: ops) w, u.Started) ∧
      (runAll (texts lines :: ops) w).1.Started := by
  have hlines : (lines.foldl Writer.writeText w).Started := started_foldl_writeText (Or.inr hl)
  obtain ⟨hstates, hend⟩ := (passes_runAll ops _).started hlines
  rw [statesOfAll, runAll, run_texts]
  refine ⟨List.forall_mem_append.mpr ⟨?_, hstates⟩, hend⟩
  rw [texts, states]
  exact w.started_statesOfItems _

theorem Generated.keepsClean {op : WriteOp} (h : Generated op) : op.KeepsClean := by
  induction h with
  | texts ss => exact keepsClean_texts ss
  | block _ ih => exact keepsClean_block ih
  | comment ss => exact keepsClean_comment (List.forall_mem_singleton.mpr (keepsClean_texts ss))
  | memo s =>
      refine keepsClean_amend fun line changed hline hchanged => ?_
      rw [← Option.some.inj hchanged, String.append_assoc]
      exact Text.unbroken_append_iff.mpr ⟨hline, unbroken_memoTail s⟩

/-- A memo puts a text without breaks behind the last line and changes nothing else. -/
theorem run_memo {w : Writer} {front : List String} {last : String}
    (hlines : w.lines.toList = front ++ [last]) (s : String) :
    ∃ tail, Unbroken tail ∧
      runAll (memo s) w = ({ w with lines := (front ++ [last ++ tail]).toArray }, none) := by
  obtain ⟨style, margins, lines⟩ := w
  obtain rfl : lines = (front ++ [last]).toArray := by rw [← hlines]
  rw [memo]
  split
  · refine ⟨"", by decide, ?_⟩
    rw [runAll, String.append_empty]
  · refine ⟨" // " ++ memoText s, unbroken_memoTail s, ?_⟩
    rw [runAll_singleton, run, Writer.amend]
    simp [Writer.last?, String.append_assoc]

end WriteOp

/-! ## Builds -/

namespace Build

open Writer (Passes)
open WriteOp (GeneratedAll memo runAll statesOfAll)

/-- What is emitted is what the operations write.  First of all they write texts. -/
theorem operations_of_emit {target : Target} {base : Json.Value} {options : BuildOptions}
    {model : Model} {result : BuildResult} (emitted : emit target base options model = .ok result) :
    ∃ lines ops, lines ≠ [] ∧ GeneratedAll ops ∧
      operations target base options model = .ok (.texts lines :: ops) ∧
      write (.texts lines :: ops) = .ok result.writer := by
  obtain ⟨file, hfile, emitted⟩ := bind_eq_ok.mp emitted
  obtain ⟨writer, written, hresult⟩ := bind_eq_ok.mp emitted
  rw [← Except.ok.inj hresult]
  suffices h : ∃ lines ops, lines ≠ [] ∧ GeneratedAll ops ∧ file.ops = .texts lines :: ops by
    obtain ⟨lines, ops, hlines, generated, hops⟩ := h
    refine ⟨lines, ops, hlines, generated, ?_, hops ▸ written⟩
    rw [operations, hfile, ← hops]
    rfl
  cases target with
  | ts =>
      obtain ⟨runtime, _, hfile⟩ := bind_eq_ok.mp hfile
      obtain ⟨address, _, hfile⟩ := bind_eq_ok.mp hfile
      cases Except.ok.inj hfile
      obtain ⟨ops, hops, generated⟩ :=
        (Ts.Document.ofModel (!options.noHead) runtime address model).ops_eq
      exact ⟨_, ops, by simp [Ts.Document.headLines], generated, hops⟩
  | oc =>
      cases Except.ok.inj hfile
      obtain ⟨ops, hops, generated⟩ := (Oc.Document.ofModel (!options.noHead)
        (runtime .oc options).text base.text model).ops_eq
      exact ⟨_, ops, by simp [Oc.Document.headLines], generated, hops⟩
  | raw =>
      cases Except.ok.inj hfile
      exact ⟨[(model.toJson base).print], [], List.cons_ne_nil _ _, WriteOp.generatedAll_nil, rfl⟩

/-- A build that succeeds goes, change by change, through states of the writer in which no line has
a break, so that the text cut at its line feeds is the lines, in the end as in between.  A memo,
whatever breaks it has, is put behind the last line and changes nothing else. -/
theorem stored_lines {target base raw : Json.Value} {options : BuildOptions}
    {result : BuildResult} (built : build target base raw options = .ok result) :
    (∃ t model ops, Target.ofJson? target = some t ∧
      Model.ofJson (Build.modelOptions t options) raw = .ok model ∧
      Build.operations t base options model = .ok ops ∧ GeneratedAll ops ∧
      Passes (.new .standard) (statesOfAll ops (.new .standard)) result.writer ∧
      ∀ w ∈ statesOfAll ops (.new .standard), (∀ line ∈ w.lines, Unbroken line) ∧
        w.text.toList.splitOn '\n' = w.lines.toList.map String.toList) ∧
    (∀ line ∈ result.writer.lines, Unbroken line) ∧
    result.code.toList.splitOn '\n' = result.writer.lines.toList.map String.toList ∧
    ∀ (w : Writer) (front : List String) (last s : String), w.lines.toList = front ++ [last] →
      ∃ tail, Unbroken tail ∧
        runAll (memo s) w = ({ w with lines := (front ++ [last ++ tail]).toArray }, none) := by
  obtain ⟨t, model, htarget, assembled, emitted⟩ := build_eq_ok_iff.mp built
  obtain ⟨lines, ops, hlines, generated, hoperations, written⟩ := Build.operations_of_emit emitted
  have all : GeneratedAll (.texts lines :: ops) :=
    WriteOp.generatedAll_cons_iff.mpr ⟨WriteOp.generated_texts lines, generated⟩
  have passes := WriteOp.passes_runAll (.texts lines :: ops) (.new .standard)
  obtain ⟨started, hend⟩ := WriteOp.started_texts hlines ops (.new .standard)
  rw [runAll_of_write written] at passes hend
  have clean : ∀ w ∈ statesOfAll (.texts lines :: ops) (.new .standard), w.Clean :=
    WriteOp.clean_statesOfAll (fun op hop => (all op hop).keepsClean) Writer.clean_new
  have cleanEnd : result.writer.Clean := passes.clean Writer.clean_new clean
  refine ⟨⟨t, model, _, htarget, assembled, hoperations, all, passes, fun w hw => ?_⟩, ?_, ?_, ?_⟩
  · exact ⟨(clean w hw).lines, Writer.splitOn_text (started w hw) (clean w hw).lines⟩
  · exact cleanEnd.lines
  · exact Writer.splitOn_text hend cleanEnd.lines
  · exact fun w front last s h => WriteOp.run_memo h s

/-- An enum with a memo of several lines. -/
def levelGraph : Graph :=
  .sample [] [⟨"app.Level", [⟨"LOW", .int 1, "", "\r\nat the\r\nbottom\n"⟩], .number, "", []⟩] none

theorem stored_lines_level : ∃ result,
    build (.string Target.ts.name) (.string "") levelGraph.sampleJson
      (.ofTexts true none none none) = .ok result ∧
    "  LOW = 1, // at the bottom" ∈ result.writer.lines.toList ∧
    (∀ line ∈ result.writer.lines, Unbroken line) ∧
    result.code.toList.splitOn '\n' = result.writer.lines.toList.map String.toList := by
  have decoded : Graph.decode levelGraph.sampleJson = .ok levelGraph := by rfl
  obtain ⟨result, built⟩ := build_ok_of_decode decoded .ts "" true
  obtain ⟨model, document, writes⟩ := Ts.exists_writes built
  have hdocument := writes.document_eq
  cases Model.eq_assemble_of_decode decoded writes.assembled
  have hline : "  LOW = 1, // at the bottom" ∈
      (runAll document.ops (.new .standard)).1.lines.toList := by
    rw [hdocument]
    decide +kernel
  rw [runAll_of_write writes.written] at hline
  obtain ⟨_, unbroken, hsplit, _⟩ := stored_lines built
  exact ⟨result, built, hline, unbroken, hsplit⟩

end Build

end ApiStubs
