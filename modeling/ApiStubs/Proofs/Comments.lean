import ApiStubs.Proofs.Framing
import ApiStubs.Proofs.Headers

/-!
# What ends a comment

A comment of generated code ends where `*/` comes first, whether or not the writer put it there.
That these two characters stand in a line is a matter of the text that is written and of nothing
else: a text is cut into lines at characters that are neither of them (`closes_lines_iff`), and the
margin under which a line is written ends in a blank (`closes_indentLines_iff`).

The lines between the delimiters of a comment are listed as the writer comes to them
(`WriteOp.comments`).  No more than the last line is ever changed again, so that they stand in the
file (`WriteOp.opened_comments`).  They hold `*/` exactly if one of the texts does that comments are
made of (`WriteOp.closes_comments_iff`).
-/

namespace ApiStubs

/-! ## The characters that end a comment -/

namespace Text

/-- The characters that end a comment come one after the other. -/
def Closes (cs : List Char) : Prop :=
  ['*', '/'] <:+: cs

/-- A character that is no part of what ends a comment. -/
def Inert (c : Char) : Prop :=
  c ≠ '*' ∧ c ≠ '/'

instance (cs : List Char) : Decidable (Closes cs) :=
  inferInstanceAs (Decidable (['*', '/'] <:+: cs))

instance (c : Char) : Decidable (Inert c) :=
  inferInstanceAs (Decidable (c ≠ '*' ∧ c ≠ '/'))

variable {a b cs : List Char} {c : Char}

theorem not_closes_nil : ¬ Closes [] :=
  fun h => absurd (List.infix_nil.mp h) (List.cons_ne_nil _ _)

theorem closes_cons_iff : Closes (c :: cs) ↔ (c = '*' ∧ cs.head? = some '/') ∨ Closes cs := by
  rw [Closes, List.infix_cons_iff, List.cons_prefix_cons]
  refine or_congr (and_congr eq_comm ?_) Iff.rfl
  cases cs with
  | nil => simp
  | cons d rest => simp [List.cons_prefix_cons, eq_comm]

theorem closes_append_iff : Closes (a ++ b) ↔
    Closes a ∨ Closes b ∨ (a.getLast? = some '*' ∧ b.head? = some '/') := by
  induction a with
  | nil => simp [not_closes_nil]
  | cons c rest ih =>
      rw [List.cons_append, closes_cons_iff, closes_cons_iff, ih]
      cases rest with
      | nil => simp [not_closes_nil, or_comm]
      | cons d more => simp [or_assoc]

theorem closes_cons_of_inert (h : Inert c) : Closes (c :: cs) ↔ Closes cs := by
  rw [closes_cons_iff]
  exact or_iff_right fun hc => h.1 hc.1

theorem not_closes_of_inert (h : ∀ c ∈ cs, Inert c) : ¬ Closes cs := by
  induction cs with
  | nil => exact not_closes_nil
  | cons c rest ih =>
      obtain ⟨hc, hrest⟩ := List.forall_mem_cons.mp h
      rw [closes_cons_of_inert hc]
      exact ih hrest

/-- What ends a comment does not reach across an inert character. -/
theorem closes_append_cons_iff (h : Inert c) : Closes (a ++ c :: b) ↔ Closes a ∨ Closes b := by
  rw [closes_append_iff, closes_cons_of_inert h]
  refine or_congr Iff.rfl (or_iff_left fun hb => h.2 ?_)
  exact Option.some.inj hb.2

theorem closes_append_of_inert (h : ∀ c ∈ b, Inert c) : Closes (a ++ b) ↔ Closes a := by
  cases b with
  | nil => rw [List.append_nil]
  | cons c rest =>
      obtain ⟨hc, hrest⟩ := List.forall_mem_cons.mp h
      rw [closes_append_cons_iff hc]
      exact or_iff_left (not_closes_of_inert hrest)

/-- Nothing is added by a text in front that does not end a comment and has an inert last
character. -/
theorem closes_label_iff (ha : ¬ Closes a) (hc : a.getLast? = some c) (h : Inert c) :
    Closes (a ++ b) ↔ Closes b := by
  rw [closes_append_iff]
  refine (or_iff_right ha).trans (or_iff_left fun hb => h.1 ?_)
  exact Option.some.inj (hc.symm.trans hb.1)

/-! ## Lines -/

theorem closes_linesFrom_iff (line cs : List Char) :
    (∃ l ∈ linesFrom line cs, Closes l) ↔ Closes (line.reverse ++ cs) := by
  have hcr : Inert '\r' := by decide
  have hlf : Inert '\n' := by decide
  fun_induction linesFrom line cs with
  | case1 line => simp
  | case2 line rest ih =>
      rw [List.exists_mem_cons_iff, closes_append_cons_iff hcr, closes_cons_of_inert hlf]
      exact or_congr Iff.rfl ih
  | case3 line rest _ ih =>
      rw [List.exists_mem_cons_iff, closes_append_cons_iff hcr]
      exact or_congr Iff.rfl ih
  | case4 line rest ih =>
      rw [List.exists_mem_cons_iff, closes_append_cons_iff hlf]
      exact or_congr Iff.rfl ih
  | case5 line c rest _ _ _ ih =>
      rw [List.reverse_cons, List.append_assoc] at ih
      exact ih

theorem closes_lines_iff (cs : List Char) : (∃ l ∈ splitLines cs, Closes l) ↔ Closes cs :=
  closes_linesFrom_iff [] cs

theorem trimEnd_isPrefix (cs : List Char) : trimEnd cs <+: cs := by
  rw [trimEnd_eq_rdropWhile]
  exact List.rdropWhile_prefix isBlank cs

theorem not_closes_of_isBlankText (h : isBlankText cs = true) : ¬ Closes cs := by
  refine not_closes_of_inert fun c hc => ?_
  have hblank := List.all_eq_true.mp h c hc
  refine ⟨?_, ?_⟩
  · rintro rfl
    exact absurd hblank (by decide)
  · rintro rfl
    exact absurd hblank (by decide)

end Text

open Text (Closes Inert)

namespace Writer

theorem closes_indent_iff {margin line : List Char} (hmargin : ¬ Closes margin) {c : Char}
    (hend : margin.getLast? = some c) (h : Inert c) :
    Closes (indent margin line) ↔ Closes line := by
  rw [indent]
  split
  · rename_i hblank
    refine iff_of_false (fun hc => hmargin ?_) (Text.not_closes_of_isBlankText hblank)
    exact hc.trans (Text.trimEnd_isPrefix margin).isInfix
  · exact Text.closes_label_iff hmargin hend h

theorem closes_indentLines_iff {margin text : String} (hmargin : ¬ Closes margin.toList) {c : Char}
    (hend : margin.toList.getLast? = some c) (h : Inert c) :
    (∃ line ∈ indentLines margin text, Closes line.toList) ↔ Closes text.toList := by
  rw [← Text.closes_lines_iff]
  constructor
  · rintro ⟨_, hline, hcloses⟩
    obtain ⟨l, hl, rfl⟩ := List.mem_map.mp hline
    rw [String.toList_ofList, closes_indent_iff hmargin hend h] at hcloses
    exact ⟨l, hl, hcloses⟩
  · rintro ⟨l, hl, hcloses⟩
    refine ⟨_, List.mem_map_of_mem hl, ?_⟩
    rw [String.toList_ofList, closes_indent_iff hmargin hend h]
    exact hcloses

/-! ## Margins -/

/-- The writer has a line, and stands within blocks only, which are indented by blanks. -/
structure Ready (w : Writer) : Prop where
  started : w.Started
  style : w.style = .standard
  margins : ∀ m ∈ w.margins, m = WriterStyle.standard.indentUnit

variable {w : Writer}

theorem Ready.openBlock (ready : w.Ready) : w.openBlock.Ready where
  started := ready.started
  style := ready.style
  margins := by
    intro m hm
    rcases List.mem_append.mp hm with hm | hm
    · exact ready.margins m hm
    · rw [List.mem_singleton.mp hm, ready.style]

/-- The margin within a comment ends in a blank and holds no more than one `*`. -/
theorem Ready.margin_openComment (ready : w.Ready) :
    ¬ Closes (String.join w.openComment.margins).toList ∧
      (String.join w.openComment.margins).toList.getLast? = some ' ' := by
  have hmargins : w.openComment.margins = w.margins ++ [" * "] := by
    show w.margins ++ [w.style.comment.margin] = _
    rw [ready.style]
    rfl
  have hblanks : ∀ ms : List String, (∀ m ∈ ms, m = WriterStyle.standard.indentUnit) →
      ∀ c ∈ (String.join ms).toList, Inert c := by
    intro ms hms
    induction ms with
    | nil => exact fun c hc => absurd hc (by simp)
    | cons m rest ih =>
        obtain ⟨hm, hrest⟩ := List.forall_mem_cons.mp hms
        rw [String.join_cons, String.toList_append]
        refine List.forall_mem_append.mpr ⟨?_, ih hrest⟩
        rw [hm]
        intro c hc
        have hc : c = ' ' := by simpa [WriterStyle.standard] using hc
        exact hc ▸ by decide
  have hjoin : (String.join w.openComment.margins).toList =
      (String.join w.margins).toList ++ [' ', '*', ' '] := by
    rw [hmargins]
    simp
  have hblank : Inert ' ' := by decide
  rw [hjoin]
  refine ⟨?_, by simp⟩
  rw [Text.closes_append_cons_iff hblank]
  rintro (h | h)
  · exact Text.not_closes_of_inert (hblanks _ ready.margins) h
  · exact absurd h (by decide)

theorem lines_writeText (w : Writer) (s : String) :
    (w.writeText s).lines.toList = w.lines.toList ++ indentLines (String.join w.margins) s :=
  w.lines_add _

end Writer

namespace WriteOp

theorem Generated.run_ready {op : WriteOp} (h : Generated op) {w : Writer} (ready : w.Ready) :
    ∃ v, op.run w = (v, none) ∧ v.Ready := by
  obtain ⟨v, hv, started⟩ := h.succeeds w ready.started
  have framed := framed_run op w
  rw [hv] at framed
  exact ⟨v, hv, started, framed.style.trans ready.style, framed.margins ▸ ready.margins⟩

/-! ## The comments that a run writes -/

/-- The lines that operations write within a comment, between its delimiters. -/
def enclosedLines (body : List WriteOp) (w : Writer) : List String :=
  (runAll body w.openComment).1.lines.toList.drop w.openComment.lines.size

mutual

/-- The lines of each comment that running an operation writes. -/
def comments : WriteOp → Writer → List (List String)
  | block body, w => commentsOfAll body w.openBlock
  | blockBy body, w => commentsOfAll body w.openBlock
  | comment body, w => enclosedLines body w :: commentsOfAll body w.openComment
  | commentBy body, w => enclosedLines body w :: commentsOfAll body w.openComment
  | _, _ => []

/-- The lines of each comment that running operations writes, up to the first that fails. -/
def commentsOfAll : List WriteOp → Writer → List (List String)
  | [], _ => []
  | op :: rest, w =>
    comments op w ++
      match run op w with
      | (v, none) => commentsOfAll rest v
      | (_, some _) => []

end

mutual

/-- The texts that the comments of an operation are made of. -/
def remarks : WriteOp → List String
  | block body => remarksOfAll body
  | blockBy body => remarksOfAll body
  | comment body => body.flatMap ownTexts
  | commentBy body => body.flatMap ownTexts
  | _ => []

def remarksOfAll : List WriteOp → List String
  | [] => []
  | op :: rest => remarks op ++ remarksOfAll rest

end

theorem remarksOfAll_eq_flatMap (ops : List WriteOp) : remarksOfAll ops = ops.flatMap remarks := by
  induction ops with
  | nil => simp only [remarksOfAll, List.flatMap_nil]
  | cons op rest ih => rw [remarksOfAll, ih, List.flatMap_cons]

@[simp] theorem comments_texts (ss : List String) (w : Writer) : (texts ss).comments w = [] := by
  simp only [texts, comments]

@[simp] theorem remarks_texts (ss : List String) : (texts ss).remarks = [] := by
  simp only [texts, remarks]

@[simp] theorem remarks_text (s : String) : (text s).remarks = [] :=
  remarks_texts [s]

@[simp] theorem remarks_block (body : List WriteOp) :
    (block body).remarks = body.flatMap remarks := by
  rw [remarks, remarksOfAll_eq_flatMap]

@[simp] theorem remarks_comment_texts (ss : List String) : (comment [texts ss]).remarks = ss := by
  rw [remarks, List.flatMap_singleton, ownTexts_texts]

@[simp] theorem remarks_comment_text (s : String) : (comment [text s]).remarks = [s] :=
  remarks_comment_texts [s]

@[simp] theorem remarks_memo (s : String) : (memo s).flatMap remarks = [] := by
  simp only [memo]
  split
  · rfl
  · simp only [List.flatMap_cons, remarks, List.flatMap_nil, List.append_nil]

theorem lines_foldl_writeText (ss : List String) (w : Writer) :
    (ss.foldl Writer.writeText w).lines.toList =
      w.lines.toList ++ ss.flatMap (Writer.indentLines (String.join w.margins)) := by
  induction ss generalizing w with
  | nil => exact (List.append_nil _).symm
  | cons s rest ih =>
      rw [List.foldl_cons, ih, List.flatMap_cons, ← List.append_assoc, Writer.lines_writeText]
      rfl

theorem runAll_texts (ss : List String) (w : Writer) :
    runAll [texts ss] w = (ss.foldl Writer.writeText w, none) := by
  simp only [runAll, run_texts]

theorem enclosedLines_texts (ss : List String) (w : Writer) :
    enclosedLines [texts ss] w =
      ss.flatMap (Writer.indentLines (String.join w.openComment.margins)) := by
  rw [enclosedLines, runAll_texts, lines_foldl_writeText]
  simp

theorem commentsOfAll_texts (ss : List String) (w : Writer) : commentsOfAll [texts ss] w = [] := by
  simp [commentsOfAll, run_texts]

/-! ## Comments stand in the file -/

def Opened (lines enclosed : List String) : Prop :=
  ∃ margin : String, ((margin ++ "/**") :: enclosed) <:+: lines

theorem Opened.mono {lines more enclosed : List String} (h : Opened lines enclosed)
    (kept : lines <+: more) : Opened more enclosed := by
  obtain ⟨margin, h⟩ := h
  exact ⟨margin, h.trans kept.isInfix⟩

theorem lines_openComment {w : Writer} (ready : w.Ready) :
    w.openComment.lines.toList = w.lines.toList ++ [String.join w.margins ++ "/**"] := by
  have hopening : w.style.comment.opening = "/**" := by
    rw [ready.style]
    rfl
  have hline : Writer.indentLines (String.join w.margins) "/**" =
      [String.join w.margins ++ "/**"] := by
    have hlines : Text.splitLines "/**".toList = [['/', '*', '*']] := by rfl
    have htext : Text.isBlankText ['/', '*', '*'] = false := by rfl
    rw [Writer.indentLines, hlines, List.map_singleton, Writer.indent, htext]
    exact congrArg (fun s => [s]) (String.ext (by simp))
  show (w.writeText w.style.comment.opening).lines.toList = _
  rw [hopening, Writer.lines_writeText, hline]

/-- `op.Opens`: what is listed of the comments of the operation stands in front of the last line
afterwards. -/
def Opens (op : WriteOp) : Prop :=
  ∀ w : Writer, w.Ready → ∀ c ∈ op.comments w, Opened (op.run w).1.lines.toList.dropLast c

theorem opens_all {ops : List WriteOp} (generated : ∀ op ∈ ops, Generated op)
    (opens : ∀ op ∈ ops, op.Opens) {w : Writer} (ready : w.Ready) {c : List String}
    (hc : c ∈ commentsOfAll ops w) : Opened (runAll ops w).1.lines.toList.dropLast c := by
  induction ops generalizing w with
  | nil => exact absurd (by rwa [commentsOfAll] at hc) List.not_mem_nil
  | cons op rest ih =>
      obtain ⟨hop, hrest⟩ := List.forall_mem_cons.mp generated
      obtain ⟨hopens, hothers⟩ := List.forall_mem_cons.mp opens
      obtain ⟨v, hv, hready⟩ := hop.run_ready ready
      have hopened := hopens w ready c
      rw [commentsOfAll, hv] at hc
      rw [hv] at hopened
      rw [runAll, hv]
      rcases List.mem_append.mp hc with hc | hc
      · exact (hopened hc).mono (framed_runAll rest v).settled
      · exact ih hrest hothers hready hc

theorem opens_of_generated {op : WriteOp} (h : Generated op) : op.Opens := by
  induction h with
  | texts ss =>
      intro w _ c hc
      exact absurd hc (by simp)
  | block generated ih =>
      intro w ready c hc
      rw [comments] at hc
      rw [run]
      exact opens_all generated ih ready.openBlock hc
  | comment ss =>
      intro w ready c hc
      rw [comments, commentsOfAll_texts, List.mem_singleton] at hc
      let v := ss.foldl Writer.writeText w.openComment
      let last := Writer.indentLines (String.join v.pop.margins) v.style.comment.closing
      have hlines : ((comment [texts ss]).run w).1.lines.toList =
          w.lines.toList ++ ((String.join w.margins ++ "/**") :: c ++ last) := by
        have hbody : v.pop.lines.toList = w.openComment.lines.toList ++ c := by
          rw [hc, enclosedLines_texts]
          exact lines_foldl_writeText ss w.openComment
        rw [run, runAll_texts]
        show (v.pop.writeText _).lines.toList = _
        rw [Writer.lines_writeText, hbody, lines_openComment ready]
        simp [last, v]
      have hlast : last ≠ [] := fun h =>
        Text.linesFrom_ne_nil _ _ (List.map_eq_nil_iff.mp h)
      refine ⟨String.join w.margins, ?_⟩
      rw [hlines, List.dropLast_append_of_ne_nil (by simp), List.dropLast_append_of_ne_nil hlast]
      exact ((List.prefix_append _ _).isInfix).trans (List.suffix_append _ _).isInfix
  | memo s =>
      intro w _ c hc
      exact absurd hc (by simp [comments])

/-! ## Comments that end early -/

def AnyCloses (ss : List String) : Prop :=
  ∃ s ∈ ss, Closes s.toList

@[simp] theorem anyCloses_append_iff {ss others : List String} :
    AnyCloses (ss ++ others) ↔ AnyCloses ss ∨ AnyCloses others := by
  simp only [AnyCloses, List.mem_append, or_and_right, exists_or]

theorem anyCloses_flatMap_iff {α : Type} {f : α → List String} {as : List α} :
    AnyCloses (as.flatMap f) ↔ ∃ a ∈ as, AnyCloses (f a) := by
  constructor
  · rintro ⟨s, hs, h⟩
    obtain ⟨a, ha, hs⟩ := List.mem_flatMap.mp hs
    exact ⟨a, ha, s, hs, h⟩
  · rintro ⟨a, ha, s, hs, h⟩
    exact ⟨s, List.mem_flatMap.mpr ⟨a, ha, hs⟩, h⟩

theorem anyCloses_enclosedLines_iff {w : Writer} (ready : w.Ready) (ss : List String) :
    AnyCloses (enclosedLines [texts ss] w) ↔ AnyCloses ss := by
  obtain ⟨hmargin, hend⟩ := ready.margin_openComment
  have hblank : Inert ' ' := by decide
  rw [enclosedLines_texts, anyCloses_flatMap_iff]
  exact exists_congr fun s => and_congr_right fun _ =>
    Writer.closes_indentLines_iff hmargin hend hblank

/-- `op.Tells`: the comments that the operation writes hold what ends a comment exactly if one of
the texts does that they are made of. -/
def Tells (op : WriteOp) : Prop :=
  ∀ w : Writer, w.Ready → ((∃ lines ∈ op.comments w, AnyCloses lines) ↔ AnyCloses op.remarks)

theorem tells_all {ops : List WriteOp} (generated : ∀ op ∈ ops, Generated op)
    (tells : ∀ op ∈ ops, op.Tells) {w : Writer} (ready : w.Ready) :
    (∃ lines ∈ commentsOfAll ops w, AnyCloses lines) ↔ AnyCloses (ops.flatMap remarks) := by
  induction ops generalizing w with
  | nil =>
      refine iff_of_false ?_ ?_
      · rintro ⟨_, h, _⟩
        exact absurd (by rwa [commentsOfAll] at h) List.not_mem_nil
      · rintro ⟨_, h, _⟩
        exact absurd h List.not_mem_nil
  | cons op rest ih =>
      obtain ⟨hop, hrest⟩ := List.forall_mem_cons.mp generated
      obtain ⟨htells, hothers⟩ := List.forall_mem_cons.mp tells
      obtain ⟨v, hv, hready⟩ := hop.run_ready ready
      rw [commentsOfAll, hv, List.flatMap_cons, anyCloses_append_iff]
      simp only [List.mem_append, or_and_right, exists_or]
      exact or_congr (htells w ready) (ih hrest hothers hready)

theorem tells_of_generated {op : WriteOp} (h : Generated op) : op.Tells := by
  induction h with
  | texts ss =>
      intro w _
      simp [AnyCloses]
  | block generated ih =>
      intro w ready
      rw [comments, remarks_block]
      exact tells_all generated ih ready.openBlock
  | comment ss =>
      intro w ready
      rw [comments, commentsOfAll_texts, remarks_comment_texts]
      simp only [List.mem_singleton, exists_eq_left]
      exact anyCloses_enclosedLines_iff ready ss
  | memo s =>
      intro w _
      simp [comments, remarks, AnyCloses]

/-! ## Files -/

section

variable {lines : List String} (hl : lines ≠ []) {ops : List WriteOp}
  (generated : GeneratedAll ops)

include hl in
/-- The writer behind the head of a file. -/
theorem ready_texts : (lines.foldl Writer.writeText (.new .standard)).Ready := by
  have framed := framed_run (texts lines) (.new .standard)
  rw [run_texts] at framed
  exact ⟨started_foldl_writeText (Or.inr hl), framed.style, fun m hm =>
    absurd (framed.margins ▸ hm) List.not_mem_nil⟩

include hl generated

theorem opened_comments {c : List String}
    (hc : c ∈ commentsOfAll (texts lines :: ops) (.new .standard)) :
    Opened (runAll (texts lines :: ops) (.new .standard)).1.lines.toList c := by
  rw [commentsOfAll, comments_texts, run_texts, List.nil_append] at hc
  rw [runAll, run_texts]
  exact (opens_all generated (fun op hop => opens_of_generated (generated op hop))
    (ready_texts hl) hc).mono (List.dropLast_prefix _)

theorem closes_comments_iff :
    (∃ c ∈ commentsOfAll (texts lines :: ops) (.new .standard), AnyCloses c) ↔
      AnyCloses (ops.flatMap remarks) := by
  rw [commentsOfAll, comments_texts, run_texts, List.nil_append]
  exact tells_all generated (fun op hop => tells_of_generated (generated op hop)) (ready_texts hl)

end

end WriteOp

end ApiStubs
