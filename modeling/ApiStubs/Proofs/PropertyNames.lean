import ApiStubs.Proofs.AdmittedNames
import ApiStubs.Proofs.Headers
import ApiStubs.Proofs.Samples

/-!
# Names of properties

The interface of a class has a property for each member, and the name of the property is the name
of the member, repaired.  What a text declares is read off it from behind: the identifier in front
of the semicolon (`Oc.propertyName?`), which the type before it cannot reach into.

Repair always leaves an identifier that is no reserved word, but it leaves one and the same for many
names.  Two names meet (`Text.Identifier.Meet`) if they differ only in characters that are replaced,
or if one of them is what the other becomes when a `_` is put in front of it.  Nothing tells the
properties of such members apart afterwards, as numbers do for the parameters of a route.  So the
names of properties are distinct exactly if no two members meet (`Oc.property_names_iff`), which
members `order-id` and `order_id` do (`Oc.order_id_twice`).
-/

namespace ApiStubs

open Text.Identifier

/-! ## Names that are repaired to the same -/

namespace Text.Identifier

/-- The name with `_` for every character that cannot stand in an identifier. -/
def replaced (name : String) : List Char :=
  name.toList.map fun c => if isPart c then c else '_'

/-- Such a text cannot be taken as it is: it is empty, starts with a digit, or is reserved. -/
def IsUnfit (reserved : List String) (cs : List Char) : Prop :=
  cs = [] ∨ cs.head?.any (·.isDigit) = true ∨ String.ofList cs ∈ reserved

instance (reserved : List String) (cs : List Char) : Decidable (IsUnfit reserved cs) :=
  inferInstanceAs (Decidable (_ ∨ _ ∨ _))

/-- `Meet reserved n m`: with characters replaced the names read the same, or one of them cannot be
taken as it is, and the other reads like it with a `_` in front. -/
def Meet (reserved : List String) (n m : String) : Prop :=
  replaced n = replaced m ∨
    (IsUnfit reserved (replaced n) ∧ replaced m = '_' :: replaced n) ∨
    (IsUnfit reserved (replaced m) ∧ replaced n = '_' :: replaced m)

instance (reserved : List String) (n m : String) : Decidable (Meet reserved n m) :=
  inferInstanceAs (Decidable (_ ∨ _ ∨ _))

section

variable {reserved : List String} {n m : String}

theorem toList_repair_eq (reserved : List String) (name : String) :
    (repair reserved name).toList =
      if IsUnfit reserved (replaced name) then '_' :: replaced name else replaced name := by
  have hunfit : IsUnfit reserved (replaced name) ↔ ((replaced name).isEmpty ||
      (replaced name).head?.any (·.isDigit) ||
      reserved.contains (String.ofList (replaced name))) = true := by
    simp only [IsUnfit, Bool.or_eq_true, List.isEmpty_iff, List.contains_iff_mem, or_assoc]
  simp only [hunfit]
  show (ite _ _ _ : String).toList = _
  split
  · rw [String.toList_ofList, if_pos ‹_›]
    rfl
  · rw [String.toList_ofList, if_neg ‹_›]
    rfl

/-- A text with a `_` in front can be taken as it is. -/
theorem not_isUnfit_underscore (unmarked : ∀ word ∈ reserved, word.toList.head? ≠ some '_')
    (cs : List Char) : ¬ IsUnfit reserved ('_' :: cs) := by
  rintro (h | h | h)
  · cases h
  · exact absurd (show '_'.isDigit = true from h) (by decide)
  · exact unmarked _ h (by rw [String.toList_ofList]; rfl)

theorem repair_eq_repair_iff (unmarked : ∀ word ∈ reserved, word.toList.head? ≠ some '_') :
    repair reserved n = repair reserved m ↔ Meet reserved n m := by
  have hfit : ∀ {cs ds : List Char}, cs = '_' :: ds → ¬ IsUnfit reserved cs := by
    rintro cs ds rfl
    exact not_isUnfit_underscore unmarked ds
  rw [← String.toList_inj, toList_repair_eq, toList_repair_eq, Meet]
  by_cases hn : IsUnfit reserved (replaced n)
  · by_cases hm : IsUnfit reserved (replaced m)
    · rw [if_pos hn, if_pos hm]
      constructor
      · exact fun h => Or.inl (List.cons.inj h).2
      · rintro (h | ⟨_, h⟩ | ⟨_, h⟩)
        · rw [h]
        · exact absurd hm (hfit h)
        · exact absurd hn (hfit h)
    · rw [if_pos hn, if_neg hm]
      constructor
      · exact fun h => Or.inr (Or.inl ⟨hn, h.symm⟩)
      · rintro (h | ⟨_, h⟩ | ⟨h, _⟩)
        · exact absurd (h ▸ hn) hm
        · exact h.symm
        · exact absurd h hm
  · by_cases hm : IsUnfit reserved (replaced m)
    · rw [if_neg hn, if_pos hm]
      constructor
      · exact fun h => Or.inr (Or.inr ⟨hm, h⟩)
      · rintro (h | ⟨h, _⟩ | ⟨_, h⟩)
        · exact absurd (h ▸ hm) hn
        · exact absurd h hn
        · exact h
    · rw [if_neg hn, if_neg hm]
      constructor
      · exact Or.inl
      · rintro (h | ⟨h, _⟩ | ⟨h, _⟩)
        · exact h
        · exact absurd h hn
        · exact absurd h hm

end

end Text.Identifier

namespace Target

theorem unmarked_reserved (target : Target) :
    ∀ word ∈ target.reserved, word.toList.head? ≠ some '_' := by
  intro word hword hhead
  have letters := isLetters_of_mem_reserved hword
  exact letters.not_mem (by decide) (List.mem_of_head? hhead)

theorem admits_repair (target : Target) (name : String) :
    target.Admits (repair target.reserved name) :=
  admits_of_variant (Or.inl rfl)

/-- A name that the target admits is not changed. -/
theorem Admits.repair_eq {target : Target} {name : String} (h : target.Admits name) :
    repair target.reserved name = name := by
  have hreplaced : replaced name = name.toList := by
    refine (List.map_congr_left fun c hc => ?_).trans (List.map_id _)
    exact if_pos (isPart_iff.mpr (h.parts c hc))
  have hfit : ¬ IsUnfit target.reserved (replaced name) := by
    rw [hreplaced]
    rintro (hempty | hdigit | hreserved)
    · exact h.nonempty (String.toList_eq_nil_iff.mp hempty)
    · obtain ⟨c, hc, hdigit⟩ := (Option.any_eq_true _ _).mp hdigit
      exact absurd (h.start c hc) (by simp [hdigit])
    · rw [String.ofList_toList] at hreserved
      exact h.free hreserved
  rw [← String.toList_inj, toList_repair_eq, if_neg hfit, hreplaced]

end Target

/-! ## Properties as they are written -/

namespace Oc

def propertyOpening : String := "@property (nonatomic, assign) "

/-- The name that a text declares, if it declares a property: all that can stand in an identifier
in front of the last character. -/
def propertyName? (s : String) : Option String :=
  if propertyOpening.toList.isPrefixOf s.toList then
    some (String.ofList (s.toList.dropLast.reverse.takeWhile isPart).reverse)
  else none

/-- The names of the properties in the interface of a class, in the order in which they are
written. -/
def propertyNames (table : DeclarationTable) (c : Class) : List String :=
  ((Interface.ofClass table c).interfaceOps.flatMap WriteOp.codeTexts).filterMap propertyName?

def Property.declaration (p : Property) : String :=
  propertyOpening ++ declare (typeText false p.type) p.identifier ++ ";"

theorem codeTexts_property (p : Property) :
    p.ops.flatMap WriteOp.codeTexts = [p.declaration] := by
  simp [Property.ops, Property.declaration, propertyOpening]

/-- Whatever the type, what comes before the name cannot stand in an identifier. -/
theorem exists_declare (type name : String) : ∃ front c,
    (declare type name).toList = front ++ c :: name.toList ∧ isPart c = false := by
  unfold declare
  split
  · rename_i pointee _
    exact ⟨pointee.toList ++ [' '], '*', by simp [String.toList_append], by decide⟩
  · exact ⟨type.toList, ' ', by simp [String.toList_append], by decide⟩

theorem propertyName?_declaration {p : Property} (h : ∀ c ∈ p.identifier.toList, isPart c = true) :
    propertyName? p.declaration = some p.identifier := by
  obtain ⟨front, c, hdeclare, hc⟩ := exists_declare (typeText false p.type) p.identifier
  have hlist : p.declaration.toList =
      (propertyOpening.toList ++ front ++ c :: p.identifier.toList) ++ [';'] := by
    rw [Property.declaration, String.toList_append, String.toList_append, hdeclare,
      List.append_assoc, List.append_assoc, List.append_assoc]
    rfl
  have hopening : propertyOpening.toList.isPrefixOf p.declaration.toList = true := by
    rw [List.isPrefixOf_iff_prefix, hlist, List.append_assoc, List.append_assoc]
    exact List.prefix_append _ _
  have hname : (p.declaration.toList.dropLast.reverse.takeWhile isPart) =
      p.identifier.toList.reverse := by
    rw [hlist, List.dropLast_concat, List.reverse_append, List.reverse_cons, List.append_assoc,
      List.takeWhile_append_of_pos (by simpa using h), List.singleton_append,
      List.takeWhile_cons_of_neg (by simp [hc]), List.append_nil]
  rw [propertyName?, if_pos hopening, hname, List.reverse_reverse, String.ofList_toList]

theorem codeTexts_interface (i : Interface) : i.interfaceOps.flatMap WriteOp.codeTexts =
    ("@interface " ++ i.head ++ " : " ++ i.parent) ::
      (i.properties.map Property.declaration ++ ["@end", ""]) := by
  have hproperties : (i.properties.flatMap Property.ops).flatMap WriteOp.codeTexts =
      i.properties.map Property.declaration := by
    rw [List.flatMap_assoc, List.map_eq_flatMap]
    exact List.flatMap_congr fun p _ => codeTexts_property p
  rw [Interface.interfaceOps, List.flatMap_append, List.flatMap_append, hproperties]
  simp

/-- The interface of a class that is put out stands in the file. -/
theorem interface_infix {hasBanner : Bool} {runtime base : String} {model : Model} {c : Class}
    (h : c ∈ model.classes) :
    (Interface.ofClass model.table c).interfaceOps.flatMap WriteOp.codeTexts <:+:
      (Document.ofModel hasBanner runtime base model).codeTexts := by
  have hops : ∀ document : Document,
      document.interfaces.flatMap Interface.interfaceOps <:+: document.ops := by
    intro document
    rw [Document.ops, List.append_assoc (_ ++ _), List.append_assoc (_ ++ _)]
    exact List.infix_append _ _ _
  exact WriteOp.codeTexts_infix (hops _) (List.mem_map_of_mem h)

theorem propertyNames_eq (table : DeclarationTable) (c : Class) :
    propertyNames table c = c.members.map fun m => repair Target.oc.reserved m.name := by
  have hopening : ∀ s : String, propertyName? ("@interface " ++ s) = none := by
    intro s
    rw [propertyName?, if_neg]
    simp [propertyOpening, String.toList_append]
  have hclosing : ["@end", ""].filterMap propertyName? = [] := by decide +kernel
  have hproperties : ((c.members.map (Property.ofMember table)).map Property.declaration).filterMap
      propertyName? = c.members.map fun m => repair Target.oc.reserved m.name := by
    rw [List.map_map, List.filterMap_map, ← List.filterMap_eq_map]
    refine List.filterMap_congr fun m _ => ?_
    exact propertyName?_declaration (p := .ofMember table m) fun _ hc => isPart_of_mem_repair hc
  rw [propertyNames, codeTexts_interface, String.append_assoc, String.append_assoc,
    List.filterMap_cons_none (hopening _), List.filterMap_append, hclosing, List.append_nil]
  exact hproperties

/-- The interface of a class, which is a part of the file of every model that puts the class out,
has a property for each member in order, named by the repaired name of the member.  All these names
are identifiers that are not reserved.  They are distinct exactly if no two members have names that
meet, and they are the names of the members themselves if these are admitted. -/
theorem property_names_iff (table : DeclarationTable) (c : Class) :
    (∀ hasBanner runtime base, ∀ model : Model, model.table = table → c ∈ model.classes →
      (Interface.ofClass table c).interfaceOps.flatMap WriteOp.codeTexts <:+:
        (Document.ofModel hasBanner runtime base model).codeTexts) ∧
    propertyNames table c = c.members.map (fun m => repair Target.oc.reserved m.name) ∧
    (∀ s ∈ propertyNames table c, Target.oc.Admits s) ∧
    ((propertyNames table c).Nodup ↔
      c.members.Pairwise fun m m' => ¬ Meet Target.oc.reserved m.name m'.name) ∧
    ((∀ m ∈ c.members, Target.oc.Admits m.name) →
      propertyNames table c = c.members.map (·.name)) := by
  have hnames := propertyNames_eq table c
  refine ⟨?_, hnames, ?_, ?_, ?_⟩
  · rintro hasBanner runtime base model rfl h
    exact interface_infix h
  · rw [hnames]
    exact List.forall_mem_map.mpr fun m _ => Target.admits_repair .oc m.name
  · rw [hnames, List.Nodup, List.pairwise_map]
    exact List.Pairwise.iff fun m m' =>
      not_congr (repair_eq_repair_iff Target.oc.unmarked_reserved)
  · intro admitted
    rw [hnames]
    exact List.map_congr_left fun m hm => (admitted m hm).repair_eq

example : Meet Target.oc.reserved "order-id" "order_id" ∧
    Meet Target.oc.reserved "default" "_default" ∧ Meet Target.oc.reserved "_1" "1" ∧
    ¬ Meet Target.oc.reserved "order" "_order" := by
  decide +kernel

def orderModel (members : List (String × TypeExpr)) : Model :=
  (Graph.ofMembers members).sampleModel .oc

/-- A plain name, a reserved one, and one that is no identifier. -/
def plainMembers : List (String × TypeExpr) :=
  [("number", .named "long" []), ("default", .named "boolean" []), ("2nd try", .named "int" [])]

theorem property_names_plain :
    Model.ofJson (Build.modelOptions .oc (.ofTexts true none none none))
      (Graph.ofMembers plainMembers).sampleJson = .ok (orderModel plainMembers) ∧
    (orderModel plainMembers).classes = [.sample plainMembers] ∧
    propertyNames (orderModel plainMembers).table (.sample plainMembers) =
      ["number", "_default", "_2nd_try"] ∧
    (∀ s ∈ propertyNames (orderModel plainMembers).table (.sample plainMembers),
      Target.oc.Admits s) ∧
    (propertyNames (orderModel plainMembers).table (.sample plainMembers)).Nodup := by
  have decoded : Graph.decode (Graph.ofMembers plainMembers).sampleJson =
      .ok (Graph.ofMembers plainMembers) := by rfl
  have held : (orderModel plainMembers).table.Holds (.sample plainMembers) := by rfl
  obtain ⟨_, names, admitted, nodup, _⟩ :=
    property_names_iff (orderModel plainMembers).table (.sample plainMembers)
  refine ⟨Graph.ofJson_sampleJson decoded .oc, ?_, ?_, admitted, nodup.mpr ?_⟩
  · exact Class.eq_of_names_eq Model.settled_classes.held (List.forall_mem_singleton.mpr held)
      (by decide +kernel)
  · rw [names]
    decide +kernel
  · decide +kernel

def metMembers : List (String × TypeExpr) :=
  [("order-id", .named "long" []), ("order_id", .named "java.lang.String" [])]

/-- Members with different names have properties of one name. -/
theorem order_id_twice : ∃ result,
    build (.string Target.oc.name) (.string "") (Graph.ofMembers metMembers).sampleJson
      (.ofTexts true none none none) = .ok result ∧
    ["@interface Order : NSObject", "@property (nonatomic, assign) NSNumber *order_id;",
      "@property (nonatomic, assign) NSString *order_id;", "@end"] <:+:
      result.writer.lines.toList ∧
    ∃ model document, Writes (.string "") (Graph.ofMembers metMembers).sampleJson
      (.ofTexts true none none none) result model document ∧
      ∃ c ∈ model.classes, (c.members.map (·.name)).Nodup ∧
        propertyNames model.table c = ["order_id", "order_id"] ∧
        ¬ (propertyNames model.table c).Nodup := by
  have decoded : Graph.decode (Graph.ofMembers metMembers).sampleJson =
      .ok (Graph.ofMembers metMembers) := by rfl
  obtain ⟨result, built⟩ := build_ok_of_decode decoded .oc "" true
  obtain ⟨model, document, writes⟩ := exists_writes built
  have hcontent := writes.content
  have hmodel : model = orderModel metMembers :=
    Model.eq_assemble_of_decode decoded writes.assembled
  subst hmodel
  have held : (orderModel metMembers).table.Holds (.sample metMembers) := by rfl
  have hclasses : (orderModel metMembers).classes = [.sample metMembers] :=
    Class.eq_of_names_eq Model.settled_classes.held (List.forall_mem_singleton.mpr held)
      (by decide +kernel)
  have hlines : ["@interface Order : NSObject",
      "@property (nonatomic, assign) NSNumber *order_id;",
      "@property (nonatomic, assign) NSString *order_id;", "@end"] <:+:
      (WriteOp.runAll document.ops (.new .standard)).1.lines.toList := by
    rw [hcontent]
    decide +kernel
  rw [Build.runAll_of_write writes.written] at hlines
  have hnames : propertyNames (orderModel metMembers).table (.sample metMembers) =
      ["order_id", "order_id"] := by
    rw [propertyNames_eq]
    decide +kernel
  refine ⟨result, built, hlines, _, document, writes, .sample metMembers, by simp [hclasses],
    by decide, hnames, ?_⟩
  rw [hnames]
  decide

end Oc

end ApiStubs
