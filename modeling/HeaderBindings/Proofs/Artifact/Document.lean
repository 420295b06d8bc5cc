import HeaderBindings.Proofs.Artifact.Comment
import HeaderBindings.Proofs.Artifact.Template
import HeaderBindings.Proofs.Text.Token

set_option autoImplicit false

namespace HeaderBindings.Document

open Text

variable {x y : List Char}

theorem label_inj {t u : MappedType} (same : t.label = u.label) : t = u := by
  cases t <;> cases u <;> first | rfl | exact absurd same (by decide)

theorem displayType_inj {c d : String} {p q : Bool} (base : IsBaseType c.toList)
    (other : IsBaseType d.toList) (same : displayType c p = displayType d q) : c = d ∧ p = q := by
  have star := base.star_not_mem
  have none := other.star_not_mem
  cases p <;> cases q
  · exact ⟨same, rfl⟩
  · simp [displayType] at same
    simp [same] at star
  · simp [displayType] at same
    simp [← same] at none
  · exact ⟨(String.append_left_inj "*").mp same, rfl⟩

theorem eq_of_label {t u : MappedType}
    (same : t.label.toList ++ '}' :: x = u.label.toList ++ '}' :: y) : t = u ∧ x = y := by
  obtain ⟨label, rest⟩ :=
    eq_of_append_mark (not_mem_label t (by decide)) (not_mem_label u (by decide)) same
  exact ⟨label_inj (String.toList_inj.mp label), rest⟩

/-- A type is followed by a backquote, which can be in the type too, and a line break. -/
theorem eq_of_displayType {c d : String} {p q : Bool} (base : IsBaseType c.toList)
    (other : IsBaseType d.toList)
    (same : (displayType c p).toList ++ '`' :: '\n' :: x =
      (displayType d q).toList ++ '`' :: '\n' :: y) : (c = d ∧ p = q) ∧ x = y := by
  have free : '\n' ∉ (displayType c p).toList ++ ['`'] := by
    simp [line_not_mem_displayType base p]
  have absent : '\n' ∉ (displayType d q).toList ++ ['`'] := by
    simp [line_not_mem_displayType other q]
  obtain ⟨quoted, rest⟩ := eq_of_append_mark free absent (by simpa using same)
  exact ⟨displayType_inj base other (String.toList_inj.mp (List.append_cancel_right quoted)), rest⟩

theorem eq_of_parameterLine {p q : Parameter} (kept : p.Kept) (other : q.Kept)
    (same : (parameterLine p).toList ++ '\n' :: x = (parameterLine q).toList ++ '\n' :: y) :
    p = q ∧ x = y := by
  simp only [parameterLine_toList, List.append_assoc, List.append_cancel_left_eq,
    List.cons_append] at same
  obtain ⟨mappedType, named⟩ := eq_of_label (List.cons.inj same).2
  have spaced (name : String) (rest : List Char) :
      name.toList ++ (" - C Type: `".toList ++ rest) =
        name.toList ++ ' ' :: ("- C Type: `".toList ++ rest) := by simp
  rw [List.cons_inj_right, spaced, spaced] at named
  obtain ⟨name, typed⟩ := eq_of_append_mark (kept.not_mem_name (by decide))
    (other.not_mem_name (by decide)) named
  obtain ⟨⟨cType, isPointer⟩, rest⟩ := eq_of_displayType kept.cType other.cType
    (List.append_cancel_left typed)
  cases p
  cases q
  simp_all [String.toList_inj]

theorem eq_of_returnLine {f g : Function} (kept : f.Kept) (other : g.Kept)
    (same : (returnLine f).toList ++ '\n' :: x = (returnLine g).toList ++ '\n' :: y) :
    (f.returnMappedType = g.returnMappedType ∧ f.returnCType = g.returnCType ∧
      f.returnIsPointer = g.returnIsPointer) ∧ x = y := by
  simp only [returnLine_toList, List.append_assoc, List.append_cancel_left_eq,
    List.cons_append] at same
  obtain ⟨mappedType, typed⟩ := eq_of_label (List.cons.inj same).2
  obtain ⟨type, rest⟩ := eq_of_displayType kept.returnCType other.returnCType
    (List.append_cancel_left typed)
  exact ⟨⟨mappedType, type⟩, rest⟩

/-- The tags of a parameter and of a return type are different. -/
theorem parameterLine_ne_returnLine (p : Parameter) (f : Function) :
    (parameterLine p).toList ++ x ≠ (returnLine f).toList ++ y := by
  intro same
  simp only [parameterLine_toList, returnLine_toList, List.append_assoc,
    List.append_cancel_left_eq] at same
  simp at same

/-- The lines of parameters, of which the line of a return type marks the end. -/
theorem eq_of_parameterLines {f g : Function} (kept : f.Kept) (other : g.Kept)
    {ps qs : List Parameter} (keptAll : ∀ p ∈ ps, p.Kept) (otherAll : ∀ q ∈ qs, q.Kept)
    (same : ofLines (ps.map parameterLine) ++ ((returnLine f).toList ++ '\n' :: x) =
      ofLines (qs.map parameterLine) ++ ((returnLine g).toList ++ '\n' :: y)) :
    ps = qs ∧ (f.returnMappedType = g.returnMappedType ∧ f.returnCType = g.returnCType ∧
      f.returnIsPointer = g.returnIsPointer) ∧ x = y := by
  have lines (p : Parameter) (others : List Parameter) (rest : List Char) :
      ofLines ((p :: others).map parameterLine) ++ rest =
        (parameterLine p).toList ++ '\n' :: (ofLines (others.map parameterLine) ++ rest) := by
    simp [ofLines]
  induction ps generalizing qs with
  | nil =>
      cases qs with
      | nil => exact ⟨rfl, eq_of_returnLine kept other same⟩
      | cons q qs =>
          rw [lines] at same
          exact absurd same.symm (parameterLine_ne_returnLine q f)
  | cons p ps ih =>
      cases qs with
      | nil =>
          rw [lines] at same
          exact absurd same (parameterLine_ne_returnLine p g)
      | cons q qs =>
          rw [lines, lines] at same
          obtain ⟨rfl, later⟩ :=
            eq_of_parameterLine (keptAll p (by simp)) (otherAll q (by simp)) same
          obtain ⟨rfl, rest⟩ := ih (fun r member => keptAll r (List.mem_cons_of_mem p member))
            (fun r member => otherAll r (List.mem_cons_of_mem p member)) later
          exact ⟨rfl, rest⟩

theorem signatureLine_toList (o : Options) (f : Function) :
    (signatureLine o f).toList = "    ".toList ++ o.symbolPrefix.toList ++
      (f.name.toList ++ '(' :: ((arguments f).toList ++ "): ".toList ++
        f.returnMappedType.label.toList ++ [';'])) := by
  unfold signatureLine Options.symbolFor
  simp

/-- The block of a function determines the function, and where it ends. -/
theorem eq_of_block (o : Options) {f g : Function} (kept : f.Kept) (other : g.Kept)
    (same : (block o f).toList ++ x = (block o g).toList ++ y) : f = g ∧ x = y := by
  have lines (h : Function) (rest : List Char) : (block o h).toList ++ rest =
      "    /**\n".toList ++ (ofLines (h.parameters.map parameterLine) ++ ((returnLine h).toList ++
        '\n' :: ("     */\n".toList ++ ((signatureLine o h).toList ++ rest)))) := by
    rw [block_toList]
    simp [commentLines, ofLines]
  rw [lines, lines] at same
  -- The comment says all of the function but its name, and the signature the name.
  obtain ⟨parameters, ⟨mappedType, cType, isPointer⟩, closed⟩ := eq_of_parameterLines kept other
    kept.parameters other.parameters (List.append_cancel_left same)
  have signature := List.append_cancel_left closed
  have arguments_eq : arguments f = arguments g := by rw [arguments, arguments, parameters]
  simp only [signatureLine_toList, List.append_assoc, List.append_cancel_left_eq,
    List.cons_append] at signature
  obtain ⟨name, rest⟩ := eq_of_append_mark (kept.not_mem_name (by decide))
    (other.not_mem_name (by decide)) signature
  rw [arguments_eq, mappedType] at rest
  refine ⟨?_, by simpa using rest⟩
  cases f
  cases g
  simp_all [String.toList_inj]

def behind (o : Options) : List Function → List Char
  | [] => []
  | f :: functions => '\n' :: '\n' :: ("\n\n".intercalate ((f :: functions).map (block o))).toList

theorem blocks_cons (o : Options) (f : Function) (functions : List Function) :
    ("\n\n".intercalate ((f :: functions).map (block o))).toList =
      (block o f).toList ++ behind o functions := by
  cases functions with
  | nil => simp [behind]
  | cons g functions =>
      rw [behind, String.toList_intercalate, String.toList_intercalate]
      simp [List.intercalate_cons_cons]

theorem blocks_ne_nil (o : Options) (f : Function) (functions : List Function) :
    ("\n\n".intercalate ((f :: functions).map (block o))).toList ≠ [] := by
  rw [blocks_cons, block_toList]
  simp [commentLines, ofLines]

theorem behind_inj (o : Options) {functions others : List Function}
    (kept : ∀ f ∈ functions, f.Kept) (keptOthers : ∀ f ∈ others, f.Kept)
    (same : behind o functions = behind o others) : functions = others := by
  induction functions generalizing others with
  | nil =>
      cases others with
      | nil => rfl
      | cons g others => cases same
  | cons f functions ih =>
      cases others with
      | nil => cases same
      | cons g others =>
          have blocks := (List.cons.inj (List.cons.inj same).2).2
          rw [blocks_cons, blocks_cons] at blocks
          obtain ⟨rfl, later⟩ := eq_of_block o (kept f (by simp)) (keptOthers g (by simp)) blocks
          rw [ih (fun h member => kept h (List.mem_cons_of_mem f member))
            (fun h member => keptOthers h (List.mem_cons_of_mem f member)) later]

/-- Blocks with empty lines between them determine their functions, and the order of these. -/
theorem blocks_inj (o : Options) {functions others : List Function}
    (kept : ∀ f ∈ functions, f.Kept) (keptOthers : ∀ f ∈ others, f.Kept)
    (same : ("\n\n".intercalate (functions.map (block o))).toList =
      ("\n\n".intercalate (others.map (block o))).toList) : functions = others := by
  cases functions with
  | nil =>
      cases others with
      | nil => rfl
      | cons g others => exact absurd same.symm (blocks_ne_nil o g others)
  | cons f functions =>
      cases others with
      | nil => exact absurd same (blocks_ne_nil o f functions)
      | cons g others =>
          refine behind_inj o kept keptOthers ?_
          rw [behind, behind, same]

/-- The document determines the functions that it was rendered from, whatever they are called and
whatever stands around them. -/
theorem render_eq_iff (o : Options) (t : Template) {functions others : List Function}
    (read : ∀ f ∈ functions, f.IsRead) (readOthers : ∀ f ∈ others, f.IsRead) :
    render o t functions = render o t others ↔ functions = others := by
  constructor
  · intro same
    obtain ⟨before, after, rendered⟩ := t.exists_parts
    rw [render, render, rendered, rendered, String.append_left_inj, String.append_right_inj] at same
    have blocks := congrArg String.toList same
    exact blocks_inj o (fun f member => (read f member).kept)
      (fun f member => (readOthers f member).kept) blocks
  · rintro rfl
    rfl

/-- Two functions whose types look like parts of a comment line, in either order. -/
theorem render_eq_iff_backquotes :
    ∃ t f g, Template.ofText "<###OTHER_CODE###OTHER_CODE###>" = .ok t ∧
      Function.ofCandidate "ext_def".toList "ext_def(int) f(a` - C Type: `b *x);".toList = .ok f ∧
      Function.ofCandidate "ext_def".toList "ext_def(int) f(a x, ` `b *y);".toList = .ok g ∧
      (render { symbolPrefix := "_\n" } t [f, g] ≠ render { symbolPrefix := "_\n" } t [g, f]) := by
  have accepted : Template.ofText "<###OTHER_CODE###OTHER_CODE###>" =
      .ok ⟨"<###OTHER_CODE###OTHER_CODE###>", by decide⟩ := by decide +kernel
  have first : Function.ofCandidate "ext_def".toList "ext_def(int) f(a` - C Type: `b *x);".toList =
      .ok ⟨"f", "int", false, .numeric, [⟨"x", "a` - C Type: `b", true, .numeric⟩]⟩ := by
    decide +kernel
  have second : Function.ofCandidate "ext_def".toList "ext_def(int) f(a x, ` `b *y);".toList =
      .ok ⟨"f", "int", false, .numeric,
        [⟨"x", "a", false, .unknown⟩, ⟨"y", "` `b", true, .numeric⟩]⟩ := by decide +kernel
  refine ⟨_, _, _, accepted, first, second, fun same => ?_⟩
  rw [render_eq_iff _ _ (by simpa using ⟨⟨_, _, first⟩, _, _, second⟩)
    (by simpa using ⟨⟨_, _, second⟩, _, _, first⟩)] at same
  exact absurd same (by decide)

end HeaderBindings.Document
