import HeaderBindings.Declaration.Parse
import HeaderBindings.Proofs.Text.Word
import HeaderBindings.Proofs.Text.Words

set_option autoImplicit false

namespace HeaderBindings

open Text

/-- A type as it is kept: no stars, and no blanks but spaces. -/
def IsBaseType (cs : List Char) : Prop := ∀ c ∈ cs, c = ' ' ∨ isBlank c = false ∧ c ≠ '*'

theorem IsBaseType.star_not_mem {cs : List Char} (base : IsBaseType cs) : '*' ∉ cs := by
  intro member
  rcases base '*' member with space | ⟨_, other⟩
  · exact absurd space (by decide)
  · exact other rfl

theorem IsBaseType.line_not_mem {cs : List Char} (base : IsBaseType cs) : '\n' ∉ cs := by
  intro member
  rcases base '\n' member with space | ⟨visible, _⟩
  · exact absurd space (by decide)
  · exact absurd visible (by decide)

theorem mem_of_mem_baseType {cs : List Char} {c : Char} (member : c ∈ baseType cs) :
    c = ' ' ∨ c ∈ cs ∧ isBlank c = false ∧ c ≠ '*' := by
  refine (mem_joinWords member).imp_right ?_
  rintro ⟨w, listed, inside⟩
  obtain ⟨part, visible⟩ := infix_of_mem_words listed
  obtain ⟨d, own, written⟩ := List.mem_map.mp (part.subset inside)
  split at written
  · rw [← written] at inside
    exact absurd (visible ' ' inside) (by decide)
  · subst written
    exact ⟨own, visible d inside, ‹_›⟩

theorem isBaseType_baseType (cs : List Char) : IsBaseType (baseType cs) :=
  fun _ member => (mem_of_mem_baseType member).imp_right And.right

/-- What every parameter that was read is like. -/
structure Parameter.Kept (p : Parameter) : Prop where
  name : isIdentifier p.name.toList = true
  cType : IsBaseType p.cType.toList

/-- What every function that was read is like. -/
structure Function.Kept (f : Function) : Prop where
  name : ∀ c ∈ f.name.toList, isWord c = true
  returnCType : IsBaseType f.returnCType.toList
  parameters : ∀ p ∈ f.parameters, p.Kept

theorem Parameter.Kept.not_mem_name {p : Parameter} (kept : p.Kept) {c : Char}
    (other : isAsciiWord c = false) : c ∉ p.name.toList := by
  intro member
  rw [isAsciiWord_of_isIdentifier kept.name c member] at other
  cases other

theorem Function.Kept.not_mem_name {f : Function} (kept : f.Kept) {c : Char}
    (noWord : isWord c = false) : c ∉ f.name.toList := by
  intro member
  rw [kept.name c member] at noWord
  cases noWord

theorem Parameter.ofPiece_kept {piece : List Char} {p : Parameter}
    (read : ofPiece piece = .ok p) : p.Kept := by
  unfold ofPiece at read
  split at read
  · rename_i last first before parts
    dsimp only at read
    split at read
    · cases read
    · rename_i accepted
      rw [Bool.or_eq_true, not_or, Bool.not_eq_true', Bool.not_eq_false] at accepted
      cases read
      exact ⟨by rw [String.toList_ofList]; exact accepted.1,
        by rw [String.toList_ofList]; exact isBaseType_baseType _⟩
  · cases read

theorem exists_of_mem_mapM {α β ε : Type} {read : α → Except ε β} {xs : List α} {ys : List β}
    (all : xs.mapM read = .ok ys) : ∀ y ∈ ys, ∃ x ∈ xs, read x = .ok y := by
  induction xs generalizing ys with
  | nil =>
      cases all
      simp
  | cons x xs ih =>
      rw [List.mapM_cons] at all
      cases first : read x with
      | error reason =>
          rw [first] at all
          cases all
      | ok y =>
          cases others : xs.mapM read with
          | error reason =>
              rw [first, others] at all
              cases all
          | ok rest =>
              rw [first, others] at all
              cases all
              intro z member
              rcases List.mem_cons.mp member with rfl | later
              · exact ⟨x, by simp, first⟩
              · obtain ⟨w, listed, same⟩ := ih others z later
                exact ⟨w, List.mem_cons_of_mem x listed, same⟩

theorem Shape.isWord_name {wrapper candidate : List Char} {shape : Shape}
    (found : ofCandidate? wrapper candidate = some shape) :
    ∀ c ∈ shape.name, isWord c = true := by
  simp only [ofCandidate?, Option.bind_eq_bind, Option.bind_eq_some_iff] at found
  obtain ⟨_, _, opened, _, found⟩ := found
  split at found
  · cases found
  · simp only [Option.bind_eq_some_iff] at found
    obtain ⟨typed, _, found⟩ := found
    split at found
    · cases found
    · simp only [Option.bind_eq_some_iff, Option.ite_none_right_eq_some, Option.some.injEq] at found
      obtain ⟨_, _, _, _, _, rfl⟩ := found
      intro c member
      exact List.all_eq_true.mp List.all_takeWhile c member

theorem Function.ofCandidate_kept {wrapper candidate : List Char} {f : Function}
    (read : ofCandidate wrapper candidate = .ok f) : f.Kept := by
  unfold ofCandidate at read
  split at read
  · cases read
  · rename_i shape found
    have name : ∀ c ∈ (String.ofList shape.name).toList, isWord c = true := by
      rw [String.toList_ofList]
      exact Shape.isWord_name found
    have base : IsBaseType (String.ofList (baseType shape.returnType)).toList := by
      rw [String.toList_ofList]
      exact isBaseType_baseType _
    dsimp only at read
    split at read
    · cases read
      exact ⟨name, base, by simp⟩
    · cases listed : (parameterPieces shape.parameters).mapM Parameter.ofPiece with
      | error reason =>
          rw [listed] at read
          cases read
      | ok parameters =>
          rw [listed] at read
          cases read
          refine ⟨name, base, fun p member => ?_⟩
          obtain ⟨piece, _, one⟩ := exists_of_mem_mapM listed p member
          exact Parameter.ofPiece_kept one

/-- Some candidate of some wrapper macro is read as the function. -/
def Function.IsRead (f : Function) : Prop :=
  ∃ wrapper candidate, ofCandidate wrapper candidate = .ok f

theorem Function.IsRead.kept {f : Function} (isRead : f.IsRead) : f.Kept := by
  obtain ⟨wrapper, candidate, read⟩ := isRead
  exact ofCandidate_kept read

end HeaderBindings
