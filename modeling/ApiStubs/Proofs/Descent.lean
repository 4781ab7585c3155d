import ApiStubs.Proofs.ParsedTypes
import ApiStubs.Proofs.SpellingParsed

/-!
# Reading types by descent

The parser is a machine that looks at every token once.  The same can be said as a recursion: a type
is read from its first token, its arguments, if `<` follows, are types up to `>` or the end, and
`[]` behind it makes arrays of it (`Reads`).  Nothing bounds this recursion by itself.  Commas and
`>` may be missing, and every other token stands for a name where no type can start with it, so
that it is the tokens it consumes which make it end (`exists_reads`).

What carries this is a bound for both kinds of reading (`Reads.size_le`, `ReadsAll.size_le`): the
nodes that are read and the tokens that are left are together no more than the tokens there were.
Without tokens a type is the wildcard, which is the one node that no token pays for.  The machine
reads what the descent reads (`Parser.outcome_reads`), and thus inherits the bound.
-/

namespace ApiStubs.TypeExpr

/-! ## Descent -/

/-- `Arrays t ts u rest`: behind the type `t`, the tokens `ts` start with `[]` as often as it takes
to get from `t` to the array `u`, and go on with `rest`. -/
inductive Arrays : TypeExpr → List Token → TypeExpr → List Token → Prop
  | ended {t : TypeExpr} {ts : List Token} : ts.head? ≠ some .brackets → Arrays t ts t ts
  | brackets {t u : TypeExpr} {ts rest : List Token} : Arrays t.array ts u rest →
      Arrays t (.brackets :: ts) u rest

/-- The tokens behind a comma, if they start with one. -/
def afterComma : List Token → List Token
  | .comma :: ts => ts
  | ts => ts

mutual

/-- `Reads vars ts t rest`: reading a type from the tokens `ts` gives `t` and leaves `rest`. -/
inductive Reads (vars : List String) : List Token → TypeExpr → List Token → Prop
  | nothing : Reads vars [] .wildcard []
  | bound {w : String} {ts : List Token} {t : TypeExpr} {rest : List Token} : w ∈ boundWords →
      Reads vars ts t rest → Reads vars (.question :: .word w :: ts) t rest
  | wildcard {ts : List Token} : (∀ w ∈ boundWords, ts.head? ≠ some (.word w)) →
      Reads vars (.question :: ts) .wildcard ts
  | plain {token : Token} {ts : List Token} {t : TypeExpr} {rest : List Token} :
      token ≠ .question → ts.head? ≠ some .less →
      Arrays (Parser.build vars ⟨token.text, []⟩) ts t rest → Reads vars (token :: ts) t rest
  | generic {token : Token} {ts : List Token} {args : List TypeExpr} {behind : List Token}
      {t : TypeExpr} {rest : List Token} : token ≠ .question → ReadsAll vars ts args behind →
      Arrays (Parser.build vars ⟨token.text, args⟩) behind t rest →
      Reads vars (token :: .less :: ts) t rest

/-- `ReadsAll vars ts args rest`: reading arguments from the tokens `ts`, up to `>` or the end,
gives `args` and leaves `rest`. -/
inductive ReadsAll (vars : List String) : List Token → List TypeExpr → List Token → Prop
  | ended : ReadsAll vars [] [] []
  | closed {ts : List Token} : ReadsAll vars (.greater :: ts) [] ts
  | more {token : Token} {ts : List Token} {t : TypeExpr} {behind : List Token}
      {args : List TypeExpr} {rest : List Token} : token ≠ .greater →
      Reads vars (token :: ts) t behind → ReadsAll vars (afterComma behind) args rest →
      ReadsAll vars (token :: ts) (t :: args) rest

end

variable {vars : List String}

/-! ## What a reading consumes -/

theorem one_le_size (t : TypeExpr) : 1 ≤ t.size := by
  cases t <;> simp [size]

theorem size_build (frame : Frame) : (Parser.build vars frame).size = sizeAll frame.done + 1 := by
  unfold Parser.build
  split
  · rename_i h
    have hdone : frame.done = [] := by simpa using (Bool.and_eq_true_iff.mp h).1
    rw [hdone, size, sizeAll]
  · rw [size]

theorem length_afterComma_le (ts : List Token) : (afterComma ts).length ≤ ts.length := by
  unfold afterComma
  split
  · exact Nat.le_succ _
  · exact Nat.le_refl _

/-- Each `[]` is a node. -/
theorem Arrays.size_eq {t u : TypeExpr} {ts rest : List Token} (h : Arrays t ts u rest) :
    u.size + rest.length = t.size + ts.length := by
  induction h with
  | ended _ => rfl
  | brackets _ ih =>
      rw [ih, List.length_cons, array, size, sizeAll, sizeAll]
      omega

mutual

/-- The nodes of a type that is read and the tokens that are left are no more than the tokens there
were.  Without tokens the type is a single node. -/
theorem Reads.size_le : ∀ {ts : List Token} {t : TypeExpr} {rest : List Token},
    Reads vars ts t rest → t.size + rest.length ≤ max 1 ts.length
  | _, _, _, .nothing => by
      rw [size]
      exact Nat.le_refl _
  | _, _, _, .bound _ h => by
      have hbound := h.size_le
      simp only [List.length_cons]
      omega
  | _, _, _, .wildcard _ => by
      rw [size, List.length_cons]
      omega
  | _, _, _, .plain _ _ h => by
      have harrays := h.size_eq
      rw [size_build, sizeAll] at harrays
      rw [List.length_cons]
      omega
  | _, _, _, .generic _ hargs h => by
      have hsize := hargs.size_le
      have harrays := h.size_eq
      rw [size_build] at harrays
      simp only [List.length_cons] at *
      omega

theorem ReadsAll.size_le : ∀ {ts : List Token} {args : List TypeExpr} {rest : List Token},
    ReadsAll vars ts args rest → sizeAll args + rest.length ≤ ts.length
  | _, _, _, .ended => Nat.le_refl _
  | _, _, _, .closed => by
      rw [sizeAll, List.length_cons]
      omega
  | _, _, _, @ReadsAll.more _ _ _ _ behind _ _ _ h hargs => by
      have hfirst := h.size_le
      have hothers := hargs.size_le
      have hcomma := length_afterComma_le behind
      rw [List.length_cons] at *
      rw [sizeAll]
      omega

end

theorem Reads.length_lt {token : Token} {ts : List Token} {t : TypeExpr} {rest : List Token}
    (h : Reads vars (token :: ts) t rest) : rest.length < (token :: ts).length := by
  have hsize := h.size_le
  have hnode := one_le_size t
  rw [List.length_cons] at *
  omega

/-! ## Descent ends -/

theorem exists_arrays (t : TypeExpr) (ts : List Token) : ∃ u rest, Arrays t ts u rest := by
  induction ts generalizing t with
  | nil => exact ⟨t, [], .ended (by simp)⟩
  | cons token ts ih =>
      by_cases h : token = .brackets
      · obtain ⟨u, rest, hu⟩ := ih t.array
        exact ⟨u, rest, h ▸ .brackets hu⟩
      · exact ⟨t, token :: ts, .ended (by simpa using h)⟩

-- A bound and an argument behind another one are read from fewer tokens; the first argument is
-- read from the tokens that are left for all of them.
mutual

theorem exists_reads (vars : List String) : ∀ ts : List Token, ∃ t rest, Reads vars ts t rest
  | [] => ⟨.wildcard, [], .nothing⟩
  | [token] => by
      by_cases htoken : token = .question
      · exact ⟨.wildcard, [], htoken ▸ .wildcard (by simp)⟩
      · obtain ⟨t, rest, harrays⟩ := exists_arrays (Parser.build vars ⟨token.text, []⟩) []
        exact ⟨t, rest, .plain htoken (by simp) harrays⟩
  | token :: next :: ts => by
      by_cases htoken : token = .question
      · by_cases hnext : ∃ w ∈ boundWords, next = .word w
        · obtain ⟨w, hw, rfl⟩ := hnext
          obtain ⟨t, rest, ht⟩ := exists_reads vars ts
          exact ⟨t, rest, htoken ▸ .bound hw ht⟩
        · refine ⟨.wildcard, next :: ts, htoken ▸ .wildcard fun w hw h => hnext ⟨w, hw, ?_⟩⟩
          exact Option.some.inj h
      · by_cases hnext : next = .less
        · obtain ⟨args, behind, hargs⟩ := exists_readsAll vars ts
          obtain ⟨t, rest, harrays⟩ := exists_arrays (Parser.build vars ⟨token.text, args⟩) behind
          exact ⟨t, rest, hnext ▸ .generic htoken hargs harrays⟩
        · obtain ⟨t, rest, harrays⟩ :=
            exists_arrays (Parser.build vars ⟨token.text, []⟩) (next :: ts)
          exact ⟨t, rest, .plain htoken (by simpa using hnext) harrays⟩
termination_by ts => (ts.length, 0)

theorem exists_readsAll (vars : List String) :
    ∀ ts : List Token, ∃ args rest, ReadsAll vars ts args rest
  | [] => ⟨[], [], .ended⟩
  | token :: ts => by
      by_cases h : token = .greater
      · exact ⟨[], ts, h ▸ .closed⟩
      · obtain ⟨t, behind, ht⟩ := exists_reads vars (token :: ts)
        have hfewer : (afterComma behind).length < ts.length + 1 :=
          Nat.lt_of_le_of_lt (length_afterComma_le behind) ht.length_lt
        obtain ⟨args, rest, hargs⟩ := exists_readsAll vars (afterComma behind)
        exact ⟨t :: args, rest, .more h ht hargs⟩
termination_by ts => (ts.length, 1)

end

/-! ## The machine reads what the descent reads -/

namespace Parser

variable {stack : List Frame}

/-- The parser that has read a type inside the types on the stack, with all `[]` behind it. -/
def returned (stack : List Frame) (t : TypeExpr) : Parser :=
  match stack with
  | [] => ⟨[], .finished t⟩
  | frame :: rest => ⟨rest, .separator ⟨frame.name, frame.done ++ [t]⟩⟩

/-- The type that the parser has read when these tokens have followed. -/
def outcome (vars : List String) (p : Parser) (tokens : List Token) : TypeExpr :=
  (p.run vars tokens).finish vars

theorem outcome_cons (p : Parser) (token : Token) (tokens : List Token) :
    p.outcome vars (token :: tokens) = (p.step vars token).outcome vars tokens :=
  rfl

/-- Two states that end alike and step alike on the next token. -/
theorem outcome_congr {p q : Parser} {tokens : List Token} (hfinish : p.finish vars = q.finish vars)
    (hstep : ∀ token ∈ tokens.head?, p.step vars token = q.step vars token) :
    p.outcome vars tokens = q.outcome vars tokens := by
  cases tokens with
  | nil => exact hfinish
  | cons token tokens =>
      rw [outcome_cons, outcome_cons, hstep token rfl]

theorem finish_returned (t : TypeExpr) : (returned stack t).finish vars = close vars t stack := by
  cases stack with
  | nil => rfl
  | cons frame rest => rfl

theorem step_returned (t : TypeExpr) (token : Token) :
    (returned stack t).step vars token = complete vars stack t token := by
  cases stack with
  | nil => rfl
  | cons frame rest => rfl

theorem outcome_finished (t : TypeExpr) (tokens : List Token) :
    outcome vars ⟨[], .finished t⟩ tokens = t := by
  induction tokens with
  | nil => rfl
  | cons token tokens ih => exact ih

theorem outcome_question {tokens : List Token}
    (h : ∀ w ∈ boundWords, tokens.head? ≠ some (.word w)) :
    outcome vars ⟨stack, .question⟩ tokens = outcome vars (returned stack .wildcard) tokens := by
  refine outcome_congr (finish_returned _).symm fun token htoken => ?_
  have hextends : token ≠ .word "extends" := fun e => h "extends" (by decide) (e ▸ htoken)
  have hsuper : token ≠ .word "super" := fun e => h "super" (by decide) (e ▸ htoken)
  rw [step_returned]
  exact if_neg (by simp [hextends, hsuper])

theorem outcome_name {n : String} {tokens : List Token} (h : tokens.head? ≠ some .less) :
    outcome vars ⟨stack, .name n⟩ tokens =
      outcome vars ⟨stack, .suffix (build vars ⟨n, []⟩)⟩ tokens := by
  refine outcome_congr rfl fun token htoken => ?_
  have hless : token ≠ .less := fun e => h (e ▸ htoken)
  show (if token = .less then _ else _) = _
  rw [if_neg hless]
  rfl

theorem outcome_arrays {t u : TypeExpr} {ts rest : List Token} (h : Arrays t ts u rest) :
    outcome vars ⟨stack, .suffix t⟩ ts = outcome vars (returned stack u) rest := by
  induction h with
  | @ended t ts hend =>
      refine outcome_congr (finish_returned _).symm fun token htoken => ?_
      have hbrackets : token ≠ .brackets := fun e => hend (e ▸ htoken)
      rw [step_returned]
      exact if_neg hbrackets
  | brackets _ ih => exact ih

theorem outcome_separator (frame : Frame) (ts : List Token) :
    outcome vars ⟨stack, .separator frame⟩ ts =
      outcome vars ⟨stack, .argument frame⟩ (afterComma ts) := by
  unfold afterComma
  split
  · rfl
  · rename_i hcomma
    refine outcome_congr rfl fun token htoken => if_neg fun e => ?_
    obtain ⟨rest, hrest⟩ := List.head?_eq_some_iff.mp htoken
    exact hcomma rest (e ▸ hrest)

mutual

/-- Behind what the descent reads, the machine goes on with the type that was read. -/
theorem outcome_reads : ∀ {ts : List Token} {t : TypeExpr} {rest : List Token},
    Reads vars ts t rest → ∀ stack : List Frame,
      outcome vars ⟨stack, .start⟩ ts = outcome vars (returned stack t) rest
  | _, _, _, .nothing, stack => (finish_returned _).symm
  | _, _, _, .bound hw h, stack => by
      rw [outcome_cons, outcome_cons]
      show outcome vars (step vars ⟨stack, .question⟩ _) _ = _
      rw [step_boundWord hw]
      exact outcome_reads h stack
  | _, _, _, .wildcard h, stack => outcome_question h
  | _, _, _, @Reads.plain _ token ts _ _ htoken hless h, stack => by
      have hstep : step vars ⟨stack, .start⟩ token = ⟨stack, .name token.text⟩ := if_neg htoken
      rw [outcome_cons, hstep, outcome_name hless]
      exact outcome_arrays h
  | _, _, _, @Reads.generic _ token ts args _ _ _ htoken hargs h, stack => by
      have hstep : step vars ⟨stack, .start⟩ token = ⟨stack, .name token.text⟩ := if_neg htoken
      rw [outcome_cons, hstep, outcome_cons]
      show outcome vars ⟨stack, .argument ⟨token.text, []⟩⟩ ts = _
      rw [outcome_readsAll hargs, List.nil_append]
      exact outcome_arrays h

/-- Behind the arguments that the descent reads, the machine goes on with their type. -/
theorem outcome_readsAll : ∀ {ts : List Token} {args : List TypeExpr} {rest : List Token},
    ReadsAll vars ts args rest → ∀ {stack : List Frame} {frame : Frame},
      outcome vars ⟨stack, .argument frame⟩ ts =
        outcome vars ⟨stack, .suffix (build vars ⟨frame.name, frame.done ++ args⟩)⟩ rest
  | _, _, _, .ended, stack, frame => by
      rw [List.append_nil]
      rfl
  | _, _, _, .closed, stack, frame => by
      rw [List.append_nil]
      rfl
  | _, _, _, @ReadsAll.more _ token ts t behind args rest htoken h hargs, stack, frame => by
      have hstep : step vars ⟨stack, .argument frame⟩ token =
          step vars ⟨frame :: stack, .start⟩ token := if_neg htoken
      have hfirst := outcome_reads h (frame :: stack)
      rw [outcome_cons, ← hstep, ← outcome_cons] at hfirst
      rw [hfirst]
      show outcome vars ⟨stack, .separator ⟨frame.name, frame.done ++ [t]⟩⟩ behind = _
      rw [outcome_separator, outcome_readsAll hargs, List.append_assoc]
      rfl

end

end Parser

/-- The parser reads what the descent reads first, and leaves alone what the descent leaves. -/
theorem ofTokens_of_reads {ts : List Token} {t : TypeExpr} {rest : List Token}
    (h : Reads vars ts t rest) : ofTokens vars ts = t :=
  (Parser.outcome_reads h []).trans (Parser.outcome_finished t rest)

theorem ofTokens_of_parse? {text : String} {t : TypeExpr} (h : parse? vars text = some t) :
    ofTokens vars (Token.scan text.toList) = t := by
  unfold parse? at h
  split at h
  · exact absurd h (by simp)
  · exact Option.some.inj h

theorem exists_reads_of_parse? {text : String} {t : TypeExpr} (h : parse? vars text = some t) :
    ∃ rest, Reads vars (Token.scan text.toList) t rest := by
  obtain ⟨u, rest, hu⟩ := exists_reads vars (Token.scan text.toList)
  have htype : u = t := (ofTokens_of_reads hu).symm.trans (ofTokens_of_parse? h)
  exact ⟨rest, htype ▸ hu⟩

/-! ## Nodes -/

mutual

/-- The nodes of a type, each one before those inside it. -/
def nodes : TypeExpr → List TypeExpr
  | wildcard => [wildcard]
  | var n => [var n]
  | named n args => named n args :: nodesOfAll args

def nodesOfAll : List TypeExpr → List TypeExpr
  | [] => []
  | t :: rest => nodes t ++ nodesOfAll rest

end

theorem nodesOfAll_eq_flatMap (ts : List TypeExpr) : nodesOfAll ts = ts.flatMap nodes := by
  induction ts with
  | nil => rw [nodesOfAll, List.flatMap_nil]
  | cons t rest ih => rw [nodesOfAll, ih, List.flatMap_cons]

mutual

theorem length_nodes : ∀ t : TypeExpr, t.nodes.length = t.size
  | .wildcard => by rw [nodes, size, List.length_singleton]
  | .var _ => by rw [nodes, size, List.length_singleton]
  | .named _ args => by rw [nodes, size, List.length_cons, length_nodesOfAll args]

theorem length_nodesOfAll : ∀ ts : List TypeExpr, (nodesOfAll ts).length = sizeAll ts
  | [] => by rw [nodesOfAll, sizeAll, List.length_nil]
  | t :: rest => by
      rw [nodesOfAll, sizeAll, List.length_append, length_nodes t, length_nodesOfAll rest]

end

theorem Spelt.of_mem_nodes {known : String → Prop} {t : TypeExpr} (h : t.Spelt known) :
    ∀ u ∈ t.nodes, u.name = "?" ∨ known u.name := by
  induction h with
  | wildcard =>
      intro u hu
      rw [nodes, List.mem_singleton] at hu
      exact Or.inl (by rw [hu, name])
  | var hv =>
      intro u hu
      rw [nodes, List.mem_singleton] at hu
      exact Or.inr (hu ▸ hv)
  | @named n args hn _ ih =>
      intro u hu
      rw [nodes, nodesOfAll_eq_flatMap] at hu
      rcases List.mem_cons.mp hu with rfl | hu
      · exact Or.inr hn
      · obtain ⟨a, ha, hu⟩ := List.mem_flatMap.mp hu
        exact ih a ha u hu

theorem Scoped.of_mem_nodes {t : TypeExpr} (h : t.Scoped vars) :
    ∀ u ∈ t.nodes, u.isVariable = true → u.args = [] ∧ u.name ∈ vars := by
  induction h with
  | wildcard =>
      intro u hu hvar
      rw [nodes, List.mem_singleton] at hu
      rw [hu] at hvar
      exact absurd hvar Bool.false_ne_true
  | var hv =>
      intro u hu _
      rw [nodes, List.mem_singleton] at hu
      exact hu ▸ ⟨rfl, hv⟩
  | @named n args _ ih =>
      intro u hu hvar
      rw [nodes, nodesOfAll_eq_flatMap] at hu
      rcases List.mem_cons.mp hu with rfl | hu
      · exact absurd hvar Bool.false_ne_true
      · obtain ⟨a, ha, hu⟩ := List.mem_flatMap.mp hu
        exact ih a ha u hu hvar

/-! ## Any text -/

/-- A text gives no type exactly if it is blank.  Any other text gives the one type that can be read
from its tokens by descent.  This has no more nodes than there are tokens, or a single one; the
names of its nodes are tokens, but for the wildcard; and its variables have no arguments and are
among those that the reader was told of. -/
theorem parse?_any_text (vars : List String) (text : String) :
    (parse? vars text = none ↔ Text.isBlankText text.toList = true) ∧
      ∀ t, parse? vars text = some t →
        (∀ u, (∃ rest, Reads vars (Token.scan text.toList) u rest) ↔ u = t) ∧
        t.nodes.length ≤ max 1 (Token.scan text.toList).length ∧
        (∀ u ∈ t.nodes, u.name = "?" ∨ ∃ token ∈ Token.scan text.toList, token.text = u.name) ∧
        ∀ u ∈ t.nodes, u.isVariable = true → u.args = [] ∧ u.name ∈ vars := by
  refine ⟨by simp [parse?], fun t parsed => ⟨fun u => ⟨?_, ?_⟩, ?_, ?_, ?_⟩⟩
  · rintro ⟨rest, h⟩
    rw [← ofTokens_of_reads h]
    exact ofTokens_of_parse? parsed
  · rintro rfl
    exact exists_reads_of_parse? parsed
  · obtain ⟨rest, h⟩ := exists_reads_of_parse? parsed
    rw [length_nodes]
    exact Nat.le_trans (Nat.le_add_right _ _) h.size_le
  · have spelt : t.Spelt fun n => ∃ token ∈ Token.scan text.toList, token.text = n :=
      spelt_parse? (fun token htoken => ⟨token, htoken, rfl⟩) parsed
    exact spelt.of_mem_nodes
  · exact (scoped_parse? parsed).of_mem_nodes

/-- Marks where names should be, a bracket that stays open, and a bound that is none. -/
theorem parse?_stray_marks :
    let tokens := Token.scan "> <K,, ?[] extends".toList
    let t := TypeExpr.named ">"
      [.var "K", .named "," [], .wildcard, .named "[]" [], .named "extends" []]
    parse? ["K"] "> <K,, ?[] extends" = some t ∧
      (∀ u, (∃ rest, Reads ["K"] tokens u rest) ↔ u = t) ∧
      t.nodes.length = 6 ∧ tokens.length = 8 ∧ t.nodes.length ≤ max 1 tokens.length := by
  intro tokens t
  have hblank : Text.isBlankText "> <K,, ?[] extends".toList = false := by decide
  have htokens : tokens = [.greater, .less, .word "K", .comma, .comma, .question, .brackets,
      .word "extends"] := by decide
  have parsed : parse? ["K"] "> <K,, ?[] extends" = some t := by
    show (if _ then none else some (ofTokens ["K"] tokens)) = some t
    rw [hblank, htokens]
    rfl
  obtain ⟨reads, bounded, _⟩ := (parse?_any_text ["K"] "> <K,, ?[] extends").2 t parsed
  exact ⟨parsed, reads, by rfl, by rw [htokens]; rfl, bounded⟩

end ApiStubs.TypeExpr
