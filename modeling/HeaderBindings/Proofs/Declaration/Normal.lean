import Mathlib.Data.List.Forall2
import HeaderBindings.Proofs.Declaration.Grammar
import HeaderBindings.Proofs.Declaration.Read
import HeaderBindings.Proofs.Declaration.Stars
import HeaderBindings.Proofs.Header.Spacing

set_option autoImplicit false

namespace HeaderBindings

open Text

/-- An opening bracket stands before a closing one, and anything may stand between them. -/
def Bracketed (cs : List Char) : Prop := ['[', ']'].Sublist cs

instance (cs : List Char) : Decidable (Bracketed cs) :=
  inferInstanceAs (Decidable (List.Sublist ['[', ']'] cs))

theorem bracketed_cons {c : Char} {cs : List Char} :
    Bracketed (c :: cs) ↔ Bracketed cs ∨ c = '[' ∧ ']' ∈ cs := by
  rw [Bracketed, List.cons_sublist_cons', List.singleton_sublist, eq_comm (a := '[')]
  rfl

def isBracket (c : Char) : Bool := c == '[' || c == ']'

theorem bracketed_filter {cs : List Char} : Bracketed (cs.filter isBracket) ↔ Bracketed cs :=
  ⟨fun pair => pair.trans List.filter_sublist, fun pair => pair.filter isBracket⟩

theorem isBracket_of_isBlank {c : Char} (blank : isBlank c = true) : isBracket c = false := by
  have opens : c ≠ '[' := ne_of_isBlank blank (by decide)
  have closes : c ≠ ']' := ne_of_isBlank blank (by decide)
  simp [isBracket, opens, closes]

theorem filter_isBracket_visible (cs : List Char) :
    (cs.filter (!isBlank ·)).filter isBracket = cs.filter isBracket := by
  rw [List.filter_filter]
  refine List.filter_congr fun c _ => ?_
  cases blank : isBlank c with
  | true => simp [isBracket_of_isBlank blank]
  | false => simp

theorem bracketed_baseType {cs : List Char} : Bracketed (baseType cs) ↔ Bracketed cs := by
  have starred : (cs.map fun c => if c = '*' then ' ' else c).filter isBracket =
      cs.filter isBracket := by
    induction cs with
    | nil => rfl
    | cons c cs ih =>
        by_cases star : c = '*'
        · subst star
          exact ih
        · simp only [List.map_cons, star, ↓reduceIte, List.filter_cons, ih]
  rw [← bracketed_filter, baseType, filter_joinWords (by decide), flatten_words,
    filter_isBracket_visible, starred, bracketed_filter]

theorem bracketed_of_before {cs last : List Char} {before : List (List Char)}
    (split : words cs = before ++ [last]) (pair : Bracketed (joinWords before)) : Bracketed cs := by
  have whole : cs.filter (!isBlank ·) = before.flatten ++ last := by
    rw [← flatten_words, split]
    simp
  rw [← bracketed_filter, filter_joinWords (by decide), bracketed_filter] at pair
  have longer : Bracketed (before.flatten ++ last) :=
    pair.trans (List.sublist_append_left _ last)
  rw [← whole] at longer
  exact longer.trans List.filter_sublist

/-- An opening bracket at which no suffix starts is never closed. -/
theorem close_not_mem {cs : List Char} {before : Option Char}
    (missed : arraySuffix before ('[' :: cs) = none) : ']' ∉ cs := by
  intro member
  obtain ⟨inner, rest, rfl, free⟩ := List.eq_append_cons_of_mem member
  have blanks : ∀ c ∈ ([] : List Char), isBlank c = true := by simp
  have found := Layout.arraySuffix_append before blanks free rest
  rw [List.nil_append, List.cons_append, List.append_assoc, List.singleton_append, missed] at found
  cases found

namespace Unsuffixed

variable {cs left : List Char} {found : Bool}

theorem sublist (walk : Unsuffixed cs left found) : left.Sublist cs := by
  induction walk with
  | nil => exact .slnil
  | keep missed rest ih => exact ih.cons_cons _
  | drop blanks free rest ih => exact ih.trans (List.sublist_append_right _ _)

/-- Without its suffixes a text has no brackets that belong together, and it has suffixes exactly if
it had such brackets. -/
theorem bracketed (walk : Unsuffixed cs left found) :
    ¬ Bracketed left ∧ (found = true ↔ Bracketed cs) := by
  induction walk with
  | nil => decide
  | @keep c cs left found missed rest ih =>
      obtain ⟨separate, suffixed⟩ := ih
      have never : ¬ (c = '[' ∧ ']' ∈ cs) := by
        rintro ⟨rfl, member⟩
        exact close_not_mem (missed none) member
      rw [bracketed_cons, bracketed_cons, or_iff_left never, suffixed]
      refine ⟨?_, Iff.rfl⟩
      rintro (pair | ⟨opens, member⟩)
      · exact separate pair
      · exact never ⟨opens, rest.sublist.subset member⟩
  | @drop gap inner cs left found blanks free rest ih =>
      refine ⟨ih.1, iff_of_true rfl ?_⟩
      have pair : Bracketed ('[' :: (inner ++ [']'])) := bracketed_cons.mpr (.inr ⟨rfl, by simp⟩)
      exact pair.trans ((List.sublist_append_right gap _).trans (List.sublist_append_left _ cs))

end Unsuffixed

/-- A type in normal form: words with one space between neighbours, no star, and no opening bracket
before a closing one. -/
structure NormalType (cs : List Char) : Prop extends SingleSpaced cs where
  starless : '*' ∉ cs
  unbracketed : ¬ Bracketed cs

theorem normalType_baseType {cs : List Char} (unbracketed : ¬ Bracketed cs) :
    NormalType (baseType cs) :=
  ⟨singleSpaced_words _, (isBaseType_baseType cs).star_not_mem,
    fun pair => unbracketed (bracketed_baseType.mp pair)⟩

/-- A parameter in normal form, and how its piece of the parameter list tells whether it is a
pointer. -/
structure Parameter.NormalFor (piece : List Char) (p : Parameter) : Prop where
  name : isIdentifier p.name.toList = true
  cType : NormalType p.cType.toList
  typed : p.cType ≠ ""
  mappedType : p.mappedType = .ofType p.cType p.isPointer
  numeric : p.isPointer = true → p.mappedType = .numeric
  isPointer : p.isPointer = true ↔ '*' ∈ piece ∨ Bracketed piece

/-- A function in normal form: the return type is so, and each parameter for its piece of the list
between the last parentheses. -/
structure Function.NormalFor (wrapper candidate : List Char) (f : Function) : Prop where
  returnCType : NormalType f.returnCType.toList
  returnMappedType : f.returnMappedType = .ofType f.returnCType f.returnIsPointer
  returnNumeric : f.returnIsPointer = true → f.returnMappedType = .numeric
  parameters : ∃ s : Shape, s.Splits wrapper (trim candidate) ∧
    ((isVoidList s.parameters = true ∧ f.parameters = []) ∨
      isVoidList s.parameters = false ∧ ∃ pieces, Pieces s.parameters pieces ∧
        List.Forall₂ Parameter.NormalFor pieces f.parameters)

theorem MappedType.ofType_of_pointer (name : String) {isPointer : Bool}
    (pointer : isPointer = true) : ofType name isPointer = numeric := by
  rw [pointer, ofType_pointer]

theorem Parameter.normalFor_of_ofPiece {piece : List Char} {p : Parameter}
    (read : ofPiece piece = .ok p) : p.NormalFor piece := by
  obtain ⟨before, last, isPointer, split, _, valid, filled, pointer, rfl⟩ :=
    exists_of_ofPiece read
  obtain ⟨left, found, walk⟩ := Unsuffixed.exists_walk piece
  obtain ⟨separate, suffixed⟩ := walk.bracketed
  rw [show replaceAll arraySuffix piece = left from (walk.walked none).1] at split
  rw [show (!(spans arraySuffix piece).isEmpty) = found from (walk.walked none).2] at pointer
  refine ⟨?_, ?_, ?_, rfl, MappedType.ofType_of_pointer _, ?_⟩
  · rw [String.toList_ofList]
    exact valid
  · rw [String.toList_ofList]
    exact normalType_baseType fun pair => separate (bracketed_of_before split pair)
  · intro empty
    have letters := congrArg String.toList empty
    rw [String.toList_ofList] at letters
    exact filled letters
  · rw [← pointer, Bool.or_eq_true, List.contains_iff_mem, suffixed]

theorem forall₂_of_map {α β ε : Type} {read : α → Except ε β} {xs : List α} {ys : List β}
    (each : xs.map read = ys.map .ok) : List.Forall₂ (fun x y => read x = .ok y) xs ys := by
  induction xs generalizing ys with
  | nil =>
      cases ys with
      | nil => exact .nil
      | cons y ys => cases each
  | cons x xs ih =>
      cases ys with
      | nil => cases each
      | cons y ys =>
          rw [List.map_cons, List.map_cons, List.cons.injEq] at each
          exact .cons each.1 (ih each.2)

theorem Function.normalFor_of_ofCandidate {wrapper candidate : List Char} {f : Function}
    (read : ofCandidate wrapper candidate = .ok f) : f.NormalFor wrapper candidate := by
  obtain ⟨s, splits, gives⟩ := gives_of_ofCandidate read
  have returned : NormalType (s.function f.parameters).returnCType.toList := by
    have noBracket : ']' ∉ s.returnType := fun member =>
      absurd (splits.ofReturn _ member) (by decide)
    show NormalType (String.ofList (baseType s.returnType)).toList
    rw [String.toList_ofList]
    exact normalType_baseType fun pair => noBracket (pair.subset (by simp))
  cases gives with
  | void spelled =>
      refine ⟨returned, rfl, MappedType.ofType_of_pointer _, s, splits, .inl ⟨?_, rfl⟩⟩
      exact decide_eq_true spelled
  | @read pieces parameters named cut each =>
      refine ⟨returned, rfl, MappedType.ofType_of_pointer _, s, splits, .inr ⟨?_, pieces, cut, ?_⟩⟩
      · exact decide_eq_false named
      · exact (forall₂_of_map each).imp fun _ _ => Parameter.normalFor_of_ofPiece

end HeaderBindings
