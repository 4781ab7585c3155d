import ApiStubs.Proofs.GeneratedFiles
import ApiStubs.Proofs.Indentation

/-!
# Line breaks

A text is cut into lines at each of its breaks, of which there are three: CR LF, CR and LF.  Cutting
a text that is put together from two with a break in between gives the lines of the one and then
those of the other, but only if the break is the same in the whole text as it is by itself.  A CR
in front of an LF and an LF behind a CR would be one break with it.  CR LF has no such neighbours:
the CR ends whatever stands in front of it, and nothing goes on behind the LF.

One fact about cutting says this for all three (`Text.linesFrom_break`), and the writer inherits it,
whatever its margins are (`Writer.writeText_joined`).  How many lines a text has is counted apart
from cutting it: one more than it has CRs and LFs, where a CR and an LF behind it count once
(`Text.breakCount`).
-/

namespace ApiStubs

namespace Text

/-! ## Counting breaks -/

/-- How often an LF stands right behind a CR. -/
def pairCount (cs : List Char) : Nat :=
  (cs.zip cs.tail).count ('\r', '\n')

def breakCount (cs : List Char) : Nat :=
  cs.count '\r' + cs.count '\n' - pairCount cs

theorem pairCount_cons_of_ne {c : Char} {rest : List Char}
    (h : c = '\r' → rest.head? ≠ some '\n') : pairCount (c :: rest) = pairCount rest := by
  cases rest with
  | nil => rfl
  | cons d rest =>
      have hpair : (c, d) ≠ ('\r', '\n') := by
        intro e
        obtain ⟨hc, hd⟩ := Prod.mk.inj e
        exact h hc (by rw [List.head?_cons, hd])
      exact List.count_cons_of_ne hpair

theorem pairCount_return_feed (rest : List Char) :
    pairCount ('\r' :: '\n' :: rest) = pairCount rest + 1 := by
  have hrest : pairCount ('\n' :: rest) = pairCount rest :=
    pairCount_cons_of_ne fun h => absurd h (by decide)
  rw [← hrest]
  exact List.count_cons_self

theorem head?_ne_of_forall {rest : List Char} (h : ∀ rest', rest = '\n' :: rest' → False) :
    rest.head? ≠ some '\n' := by
  intro hhead
  obtain ⟨rest', hrest⟩ := List.head?_eq_some_iff.mp hhead
  exact h rest' hrest

/-- Every CR and every LF starts a line, but for an LF behind a CR. -/
theorem length_linesFrom (line cs : List Char) :
    (linesFrom line cs).length + pairCount cs = cs.count '\r' + cs.count '\n' + 1 := by
  fun_induction linesFrom line cs with
  | case1 line => rfl
  | case2 line rest ih =>
      rw [pairCount_return_feed, List.length_cons]
      simp only [List.count_cons]
      simp
      omega
  | case3 line rest hfeed ih =>
      rw [pairCount_cons_of_ne fun _ => head?_ne_of_forall hfeed, List.length_cons]
      simp
      omega
  | case4 line rest ih =>
      rw [pairCount_cons_of_ne fun h => absurd h (by decide), List.length_cons]
      simp
      omega
  | case5 line c rest _ hreturn hfeed ih =>
      rw [pairCount_cons_of_ne fun h => absurd h hreturn, ih, List.count_cons_of_ne hreturn,
        List.count_cons_of_ne hfeed]

theorem length_splitLines (cs : List Char) : (splitLines cs).length = breakCount cs + 1 := by
  have hlength := length_linesFrom [] cs
  have hlines : (linesFrom [] cs).length ≠ 0 := by simpa using linesFrom_ne_nil [] cs
  rw [splitLines, breakCount]
  omega

/-! ## Cutting what is put together -/

/-- Where a text goes on with a break, it is cut there, unless a CR at the end of what comes before
belongs to the break. -/
theorem linesFrom_break {front tail back : List Char}
    (cut : ∀ line, linesFrom line tail = line.reverse :: splitLines back)
    (seam : front.getLast? = some '\r' → tail.head? ≠ some '\n') (line : List Char) :
    linesFrom line (front ++ tail) = linesFrom line front ++ splitLines back := by
  fun_induction linesFrom line front with
  | case1 line => exact cut line
  | case2 line rest ih =>
      have hrest := ih fun h => seam (by simp [List.getLast?_cons, h])
      exact congrArg (line.reverse :: ·) hrest
  | case3 line rest hfeed ih =>
      have hnext : ∀ rest', rest ++ tail = '\n' :: rest' → False := by
        intro rest' h
        cases rest with
        | nil => exact seam rfl (by rw [← List.nil_append tail, h, List.head?_cons])
        | cons c rest => exact hfeed rest (by rw [(List.cons.inj h).1])
      have hrest := ih fun h => seam (by simp [List.getLast?_cons, h])
      rw [List.cons_append, linesFrom.eq_3 line _ hnext, hrest]
      rfl
  | case4 line rest ih =>
      have hrest := ih fun h => seam (by simp [List.getLast?_cons, h])
      exact congrArg (line.reverse :: ·) hrest
  | case5 line c rest hpair hreturn hfeed ih =>
      have hrest := ih fun h => seam (by simp [List.getLast?_cons, h])
      rw [List.cons_append, linesFrom.eq_5 line c _ (fun _ e _ => hreturn e) hreturn hfeed, hrest]

theorem splitLines_return_feed (front back : List Char) :
    splitLines (front ++ '\r' :: '\n' :: back) = splitLines front ++ splitLines back :=
  linesFrom_break (fun line => linesFrom.eq_2 line back) (fun _ => by simp) []

theorem splitLines_feed {front : List Char} (h : front.getLast? ≠ some '\r') (back : List Char) :
    splitLines (front ++ '\n' :: back) = splitLines front ++ splitLines back :=
  linesFrom_break (fun line => linesFrom.eq_4 line back) (fun hlast => absurd hlast h) []

theorem splitLines_return (front : List Char) {back : List Char} (h : back.head? ≠ some '\n') :
    splitLines (front ++ '\r' :: back) = splitLines front ++ splitLines back := by
  have hback : ∀ rest, back ≠ '\n' :: rest := fun rest e => h (by rw [e, List.head?_cons])
  exact linesFrom_break (fun line => linesFrom.eq_3 line back hback) (fun _ => by simp) []

/-- A break that belongs together with a character next to it leaves one line out. -/
theorem length_splitLines_merged (front back : List Char) :
    (splitLines (front ++ '\r' :: '\n' :: back)).length + 1 =
        (splitLines (front ++ ['\r'])).length + (splitLines back).length ∧
      (splitLines (front ++ '\r' :: '\n' :: back)).length + 1 =
        (splitLines front).length + (splitLines ('\n' :: back)).length := by
  have hreturn : splitLines (front ++ ['\r']) = splitLines front ++ [[]] :=
    splitLines_return front (by simp)
  have hfeed : splitLines ('\n' :: back) = [] :: splitLines back := linesFrom.eq_4 [] back
  rw [splitLines_return_feed, hreturn, hfeed]
  simp only [List.length_append, List.length_cons, List.length_nil]
  omega

end Text

/-! ## The writer -/

namespace Writer

open Text (splitLines breakCount)

theorem length_indentLines (margin s : String) :
    (indentLines margin s).length = breakCount s.toList + 1 := by
  rw [indentLines, List.length_map, Text.length_splitLines]

theorem size_lines_writeText (w : Writer) (s : String) :
    (w.writeText s).lines.size = w.lines.size + (breakCount s.toList + 1) := by
  rw [← length_indentLines (String.join w.margins), writeText_eq_add, add]
  simp

/-- What is cut into the lines of two texts is written like the two, one after the other. -/
theorem writeText_of_splitLines {s a b : String}
    (h : splitLines s.toList = splitLines a.toList ++ splitLines b.toList) (w : Writer) :
    w.writeText s = (w.writeText a).writeText b := by
  have hlines : indentLines (String.join w.margins) s =
      indentLines (String.join w.margins) a ++ indentLines (String.join w.margins) b := by
    rw [indentLines, h, List.map_append]
    rfl
  rw [writeText_eq_add, hlines, ← add_add]
  rfl

/-- Two texts that are written with one line less than they have by themselves are not written one
after the other. -/
theorem writeText_ne {s a b : String}
    (h : (splitLines s.toList).length + 1 =
      (splitLines a.toList).length + (splitLines b.toList).length) (w : Writer) :
    w.writeText s ≠ (w.writeText a).writeText b := by
  intro hw
  have hsize := congrArg (fun v => v.lines.size) hw
  simp only [size_lines_writeText] at hsize
  simp only [Text.length_splitLines] at h
  omega

/-- A text made of two with a break in between is written like the two, one after the other, if the
break is CR LF; if it is LF, exactly if no CR stands in front of it; and if it is CR, exactly if no
LF stands behind it.  A text adds one line more than it has breaks. -/
theorem writeText_joined (w : Writer) (a b : String) :
    w.writeText (a ++ "\r\n" ++ b) = (w.writeText a).writeText b ∧
      (w.writeText (a ++ "\n" ++ b) = (w.writeText a).writeText b ↔
        a.toList.getLast? ≠ some '\r') ∧
      (w.writeText (a ++ "\r" ++ b) = (w.writeText a).writeText b ↔
        b.toList.head? ≠ some '\n') ∧
      ∀ s, (w.writeText s).lines.size = w.lines.size + (breakCount s.toList + 1) := by
  have hboth : (a ++ "\r\n" ++ b).toList = a.toList ++ '\r' :: '\n' :: b.toList := by
    simp [String.toList_append]
  have hfeed : (a ++ "\n" ++ b).toList = a.toList ++ '\n' :: b.toList := by
    simp [String.toList_append]
  have hreturn : (a ++ "\r" ++ b).toList = a.toList ++ '\r' :: b.toList := by
    simp [String.toList_append]
  refine ⟨?_, ⟨fun h hlast => ?_, fun hlast => ?_⟩, ⟨fun h hhead => ?_, fun hhead => ?_⟩,
    w.size_lines_writeText⟩
  · refine writeText_of_splitLines ?_ w
    rw [hboth, Text.splitLines_return_feed]
  · obtain ⟨front, hfront⟩ := List.getLast?_eq_some_iff.mp hlast
    refine writeText_ne ?_ w h
    rw [hfeed, hfront, List.append_assoc]
    exact (Text.length_splitLines_merged front b.toList).1
  · refine writeText_of_splitLines ?_ w
    rw [hfeed, Text.splitLines_feed hlast]
  · obtain ⟨back, hback⟩ := List.head?_eq_some_iff.mp hhead
    refine writeText_ne ?_ w h
    rw [hreturn, hback]
    exact (Text.length_splitLines_merged a.toList back).2
  · refine writeText_of_splitLines ?_ w
    rw [hreturn, Text.splitLines_return a.toList hhead]

/-- The second and the third CR stand for one break each, the latter with the LF behind it. -/
example : breakCount "a\r\n\r\r\nb\n".toList = 4 := by decide

end Writer

end ApiStubs
