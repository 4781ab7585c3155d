import ApiStubs.Writer.Pieces
import Mathlib.Data.List.DropRight

/-!
# Indentation line by line

What operations write under margins is what they write without, with every line indented
(`WriteOp.lines_indented`).  A blank line takes the margin without the blanks at its end and another
one takes all of it, so that a margin made of two parts has to be seen to act like the two, one
after the other (`Writer.indent_append`); the rest follows the operations.

Two writers of one style are run side by side, one of which has a further margin around those of the
other one (`Writer.Around`).  As long as no line is amended, what is written depends on style and
margins alone, and operations end in the same way on both (`WriteOp.run_around`).
-/

namespace ApiStubs

/-! ## Margins of two parts -/

namespace Text

theorem trimEnd_eq_rdropWhile (cs : List Char) : trimEnd cs = cs.rdropWhile isBlank :=
  rfl

/-- What is left shows something exactly if the text does. -/
theorem isBlankText_trimEnd (cs : List Char) : isBlankText (trimEnd cs) = isBlankText cs := by
  rw [trimEnd_eq_rdropWhile]
  induction cs using List.reverseRecOn with
  | nil => rfl
  | append_singleton rest c ih =>
      rw [List.rdropWhile_concat]
      split
      · rename_i hc
        rw [ih, isBlankText, isBlankText, List.all_append]
        simp [hc]
      · rfl

theorem trimEnd_append (front back : List Char) :
    trimEnd (front ++ back) =
      if isBlankText back then trimEnd front else front ++ trimEnd back := by
  simp only [trimEnd_eq_rdropWhile]
  induction back using List.reverseRecOn with
  | nil => simp [isBlankText]
  | append_singleton rest c ih =>
      have hblank : isBlankText (rest ++ [c]) = (isBlankText rest && isBlank c) := by
        simp [isBlankText]
      rw [← List.append_assoc, List.rdropWhile_concat, List.rdropWhile_concat, hblank, ih]
      cases isBlank c with
      | true => simp
      | false => simp

end Text

namespace Writer

open Text (isBlankText trimEnd)

/-- A margin around another one acts on what the other one makes of a line. -/
theorem indent_append (outer inner line : List Char) :
    indent (outer ++ inner) line = indent outer (indent inner line) := by
  rw [indent, indent.eq_def inner]
  split
  · rw [indent, Text.trimEnd_append, Text.isBlankText_trimEnd]
  · rename_i hline
    have hshows : isBlankText (inner ++ line) = false := by
      rw [isBlankText, List.all_append, ← isBlankText, ← isBlankText]
      simp [hline]
    rw [indent, hshows, List.append_assoc, if_neg Bool.false_ne_true]

def indentLine (margin line : String) : String :=
  String.ofList (indent margin.toList line.toList)

theorem indentLines_append (outer inner text : String) :
    indentLines (outer ++ inner) text = (indentLines inner text).map (indentLine outer) := by
  rw [indentLines, indentLines, List.map_map]
  refine List.map_congr_left fun line _ => ?_
  rw [Function.comp_apply, indentLine, String.toList_ofList, ← indent_append,
    String.toList_append]

/-! ## Two writers side by side -/

def add (w : Writer) (lines : List String) : Writer :=
  { w with lines := w.lines ++ lines.toArray }

theorem add_nil (w : Writer) : w.add [] = w := by
  simp [add]

theorem add_add (w : Writer) (lines more : List String) :
    (w.add lines).add more = w.add (lines ++ more) := by
  simp [add]

theorem writeText_eq_add (w : Writer) (s : String) :
    w.writeText s = w.add (indentLines (String.join w.margins) s) :=
  rfl

/-- What is written within a margin stays where it is when the margin ends. -/
theorem pop_add_push (w : Writer) (margin : String) (lines : List String) :
    ((w.push margin).add lines).pop = w.add lines := by
  simp [push, pop, add]

theorem lines_add (w : Writer) (lines : List String) :
    (w.add lines).lines.toList = w.lines.toList ++ lines := by
  simp [add]

/-- `Around outer w v`: the writers have one style, and the margins of `w` are those of `v` with
`outer` around them. -/
structure Around (outer : String) (w v : Writer) : Prop where
  style : w.style = v.style
  margins : String.join w.margins = outer ++ String.join v.margins

/-- `Alike outer w v r s`: a run that took `w` to `r` ended like one that took `v` to `s`, and has
written the same lines, with `outer` around them. -/
def Alike (outer : String) (w v : Writer) (r s : Writer × Option WriteFailure) : Prop :=
  ∃ lines failure, s = (v.add lines, failure) ∧ r = (w.add (lines.map (indentLine outer)), failure)

section

variable {outer : String} {w v : Writer}

theorem Around.add (h : Around outer w v) (lines more : List String) :
    Around outer (w.add lines) (v.add more) :=
  ⟨h.style, h.margins⟩

theorem Around.push (h : Around outer w v) (margin : String) :
    Around outer (w.push margin) (v.push margin) where
  style := h.style
  margins := by
    simp only [Writer.push, String.join_append, h.margins, String.append_assoc]

theorem Around.openBlock (h : Around outer w v) : Around outer w.openBlock v.openBlock := by
  rw [Writer.openBlock, Writer.openBlock, h.style]
  exact h.push _

theorem Around.openComment (h : Around outer w v) : Around outer w.openComment v.openComment := by
  rw [Writer.openComment, Writer.openComment, h.style, writeText_eq_add, writeText_eq_add]
  exact (h.add _ _).push _

theorem Around.writeText (h : Around outer w v) (s : String) :
    w.writeText s = w.add ((indentLines (String.join v.margins) s).map (indentLine outer)) := by
  rw [writeText_eq_add, h.margins, indentLines_append]

theorem alike_end (failure : Option WriteFailure) : Alike outer w v (w, failure) (v, failure) :=
  ⟨[], failure, by rw [add_nil], by rw [List.map_nil, add_nil]⟩

/-- What is done after some lines have been written. -/
theorem Alike.after {lines : List String} {r s : Writer × Option WriteFailure}
    (h : Alike outer (w.add (lines.map (indentLine outer))) (v.add lines) r s) :
    Alike outer w v r s := by
  obtain ⟨more, failure, rfl, rfl⟩ := h
  exact ⟨lines ++ more, failure, by rw [add_add], by rw [add_add, List.map_append]⟩

theorem Around.alike_writeText (h : Around outer w v) (s : String) :
    Alike outer w v (w.writeText s, none) (v.writeText s, none) :=
  ⟨indentLines (String.join v.margins) s, none, rfl, by rw [h.writeText]⟩

theorem Around.alike_writeItems (h : Around outer w v) (items : List WriteItem) :
    Alike outer w v (w.writeItems items) (v.writeItems items) := by
  induction items generalizing w v with
  | nil => exact alike_end none
  | cons item rest ih =>
      cases item with
      | nothing => exact ih h
      | other kind => exact alike_end _
      | text s =>
          rw [writeItems, writeItems, h.writeText]
          exact .after (ih (h.add _ _))

/-- A block is alike if its body is. -/
theorem alike_closeBlock {r s : Writer × Option WriteFailure}
    (body : Alike outer w.openBlock v.openBlock r s) :
    Alike outer w v (closeBlock r) (closeBlock s) := by
  obtain ⟨lines, failure, rfl, rfl⟩ := body
  refine ⟨lines, failure, ?_, ?_⟩
  · exact congrArg (·, failure) (pop_add_push ..)
  · exact congrArg (·, failure) (pop_add_push ..)

/-- A comment is alike if its body is, whether or not the body ends so that it is closed. -/
theorem Around.alike_closeComment (h : Around outer w v) {r s : Writer × Option WriteFailure}
    (body : Alike outer w.openComment v.openComment r s) :
    Alike outer w v (closeComment r) (closeComment s) := by
  obtain ⟨lines, failure, rfl, rfl⟩ := body
  let opening := indentLines (String.join v.margins) v.style.comment.opening
  let opened := w.add (opening.map (indentLine outer))
  have hw : w.openComment = opened.push w.style.comment.margin := by
    rw [Writer.openComment, h.writeText, h.style]
  have hv : v.openComment = (v.add opening).push v.style.comment.margin := rfl
  have hopened : Around outer opened (v.add opening) := h.add _ _
  rw [closeComment, closeComment, hw, hv, pop_add_push, pop_add_push]
  suffices hclosed : Alike outer (opened.add (lines.map (indentLine outer)))
      ((v.add opening).add lines) _ _ from hclosed.after.after
  cases failure with
  | some failure => exact alike_end _
  | none =>
      have hclosing := (hopened.add (lines.map (indentLine outer)) lines).alike_writeText
        v.style.comment.closing
      show Alike outer _ _ (Writer.writeText _ w.style.comment.closing, none) _
      rw [h.style]
      exact hclosing

end

end Writer

/-! ## Operations -/

namespace WriteOp

open Writer (Around Alike indentLine)

mutual

/-- Whether an operation amends a line, at any depth. -/
def amends : WriteOp → Bool
  | block body => amendsAny body
  | blockBy body => amendsAny body
  | comment body => amendsAny body
  | commentBy body => amendsAny body
  | amend _ => true
  | _ => false

def amendsAny : List WriteOp → Bool
  | [] => false
  | op :: rest => amends op || amendsAny rest

end

section

variable {outer : String}

mutual

theorem run_around : ∀ (op : WriteOp), op.amends = false → ∀ {w v : Writer}, Around outer w v →
    Alike outer w v (op.run w) (op.run v)
  | .write items, _, w, v, h => by
      rw [run, run]
      exact h.alike_writeItems items
  | .block body, plain, w, v, h => by
      rw [run, run]
      exact Writer.alike_closeBlock (runAll_around body (by rwa [amends] at plain) h.openBlock)
  | .blockBy body, plain, w, v, h => by
      rw [run, run]
      exact Writer.alike_closeBlock (runAll_around body (by rwa [amends] at plain) h.openBlock)
  | .comment body, plain, w, v, h => by
      rw [run, run]
      exact h.alike_closeComment (runAll_around body (by rwa [amends] at plain) h.openComment)
  | .commentBy body, plain, w, v, h => by
      rw [run, run]
      exact h.alike_closeComment (runAll_around body (by rwa [amends] at plain) h.openComment)
  | .blockByValue kind, _, w, v, _ => by
      rw [run, run]
      exact Writer.alike_end _
  | .commentByValue kind, _, w, v, _ => by
      rw [run, run]
      exact Writer.alike_end _
  | .amend change, plain, _, _, _ => absurd plain (by simp [amends])
  | .fail, _, w, v, _ => by
      rw [run, run]
      exact Writer.alike_end _

/-- Operations that amend no line do the same on both writers. -/
theorem runAll_around : ∀ (ops : List WriteOp), amendsAny ops = false → ∀ {w v : Writer},
    Around outer w v → Alike outer w v (runAll ops w) (runAll ops v)
  | [], _, w, v, _ => by
      rw [runAll, runAll]
      exact Writer.alike_end none
  | op :: rest, plain, w, v, h => by
      rw [amendsAny, Bool.or_eq_false_iff] at plain
      obtain ⟨lines, failure, hv, hw⟩ := run_around op plain.1 h
      rw [runAll, runAll, hv, hw]
      cases failure with
      | some failure => exact .after (Writer.alike_end _)
      | none => exact .after (runAll_around rest plain.2 (h.add _ _))

end

end

/-- Operations that amend no line add to a writer what they add to a new one of its style, every
line indented by the margins of the writer, and end in the same way. -/
theorem lines_indented (ops : List WriteOp) (plain : amendsAny ops = false) (w : Writer) :
    (runAll ops w).1.lines.toList =
      w.lines.toList ++
        (runAll ops (.new w.style)).1.lines.toList.map (indentLine (String.join w.margins)) ∧
      (runAll ops w).2 = (runAll ops (.new w.style)).2 := by
  have around : Around (String.join w.margins) w (.new w.style) := ⟨rfl, by simp [Writer.new]⟩
  obtain ⟨lines, failure, hnew, hw⟩ := runAll_around ops plain around
  have hlines : (Writer.new w.style).lines.toList = [] := rfl
  rw [hnew, hw, Writer.lines_add, Writer.lines_add, hlines, List.nil_append]
  exact ⟨rfl, rfl⟩

/-- A comment within a block, with lines that are blank, whose second item is no text. -/
def nestedOps : List WriteOp :=
  [text "a", comment [block [text "b\r\n \nc"], write [.text "", .nothing, .other .int]], text "d"]

/-- A writer within a comment of a block. -/
def nestedWriter : Writer :=
  ⟨⟨"\t", ⟨"--[", "-- ", "--]"⟩⟩, ["\t", " * "], #["x"]⟩

theorem lines_indented_nested :
    amendsAny nestedOps = false ∧
    (runAll nestedOps (.new nestedWriter.style)).1.lines.toList =
      ["a", "--[", "-- \tb", "--", "-- \tc", "--"] ∧
    (runAll nestedOps nestedWriter).1.lines.toList =
      "x" :: ["\t * a", "\t * --[", "\t * -- \tb", "\t * --", "\t * -- \tc", "\t * --"] ∧
    (runAll nestedOps nestedWriter).2 = some (.notText .int) := by
  have plain : amendsAny nestedOps = false := by decide
  have hnew : (runAll nestedOps (.new nestedWriter.style)).1.lines.toList =
      ["a", "--[", "-- \tb", "--", "-- \tc", "--"] := by decide +kernel
  obtain ⟨hlines, hfailure⟩ := lines_indented nestedOps plain nestedWriter
  refine ⟨plain, hnew, ?_, ?_⟩
  · rw [hlines, hnew]
    decide +kernel
  · rw [hfailure]
    decide +kernel

end WriteOp

end ApiStubs
