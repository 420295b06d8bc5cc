import HeaderBindings.Proofs.Header.Whitespace
import HeaderBindings.Proofs.Text.Token

/-!
Texts that spell tokens with blanks between them. Where a blank has to stand is part of the
relation, so what a token is does not depend on how it was laid out.
-/

set_option autoImplicit false

namespace HeaderBindings.Layout

open Text

/-- A token of a declaration: a word, or a character that stands for itself. -/
inductive Token
  | word (letters : List Char)
  | mark (c : Char)
  deriving DecidableEq, Repr

/-- The characters that are tokens of their own. -/
def marks : List Char := ['(', ')', '*', ',', ';', '[', ']']

/-- The qualifier that says nothing about a binding. -/
def constLetters : List Char := ['c', 'o', 'n', 's', 't']

/-- ASCII letters, digits and underscores, at least one of them, other than the qualifier. -/
structure IsName (letters : List Char) : Prop where
  occupied : letters ≠ []
  plain : ∀ c ∈ letters, isAsciiWord c = true
  free : letters ≠ constLetters

instance (letters : List Char) : Decidable (IsName letters) :=
  decidable_of_iff
    (letters ≠ [] ∧ letters.all isAsciiWord = true ∧ letters ≠ constLetters)
    ⟨fun name => ⟨name.1, List.all_eq_true.mp name.2.1, name.2.2⟩,
      fun name => ⟨name.occupied, List.all_eq_true.mpr name.plain, name.free⟩⟩

/-- The text spells the tokens, with blanks anywhere between them. If `glued`, a word came before
the text, and no blank since, only stars; before the next word, a blank has to come. -/
inductive Spells : Bool → List Token → List Char → Prop
  | nil {glued : Bool} : Spells glued [] []
  | blank {glued : Bool} {c : Char} {tokens : List Token} {cs : List Char}
    (blank : isBlank c = true) (rest : Spells false tokens cs) : Spells glued tokens (c :: cs)
  | word {letters : List Char} {tokens : List Token} {cs : List Char} (name : IsName letters)
    (rest : Spells true tokens cs) : Spells false (.word letters :: tokens) (letters ++ cs)
  | mark {glued : Bool} {c : Char} {tokens : List Token} {cs : List Char} (known : c ∈ marks)
    (rest : Spells (c == '*' && glued) tokens cs) : Spells glued (.mark c :: tokens) (c :: cs)

theorem isBlank_of_mem_marks {c : Char} (known : c ∈ marks) : isBlank c = false :=
  forall_mem_of_all (by decide) c known

theorem isWord_of_mem_marks {c : Char} (known : c ∈ marks) : isWord c = false :=
  forall_mem_of_all (by decide) c known

theorem isAsciiWord_of_mem_marks {c : Char} (known : c ∈ marks) : isAsciiWord c = false :=
  forall_mem_of_all (by decide) c known

namespace IsName

variable {letters : List Char}

theorem isWord (name : IsName letters) : ∀ c ∈ letters, Text.isWord c = true := fun c member =>
  isWord_of_isAsciiWord (name.plain c member)

theorem isBlank (name : IsName letters) : ∀ c ∈ letters, Text.isBlank c = false :=
  fun c member => isBlank_of_isWord (name.isWord c member)

theorem not_mem (name : IsName letters) {c : Char} (other : isAsciiWord c = false) :
    c ∉ letters := by
  intro member
  rw [name.plain c member] at other
  cases other

theorem dropBlanks (name : IsName letters) (rest : List Char) :
    Text.dropBlanks (letters ++ rest) = letters ++ rest := by
  obtain ⟨c, own, rfl⟩ := List.exists_cons_of_ne_nil name.occupied
  exact dropBlanks_visible (own ++ rest) (name.isBlank c (by simp))

theorem squeeze (name : IsName letters) (inRun : Bool) (rest : List Char) :
    Header.squeeze inRun (letters ++ rest) = letters ++ Header.squeeze false rest := by
  obtain ⟨c, own, rfl⟩ := List.exists_cons_of_ne_nil name.occupied
  have behind := Header.squeeze_run (fun d member => name.isBlank d (List.mem_cons_of_mem c member))
    rest
  rw [List.cons_append, Header.squeeze_visible inRun _ (name.isBlank c (by simp)), behind,
    List.cons_append]

end IsName

namespace Spells

variable {glued : Bool} {tokens first second : List Token} {cs letters : List Char} {c : Char}

/-- A text can always come later, behind something else than a word. -/
theorem relax (spells : Spells glued tokens cs) : Spells false tokens cs := by
  induction spells with
  | nil => exact .nil
  | blank blank rest _ => exact .blank blank rest
  | word name rest _ => exact .word name rest
  | mark known _ ih => exact .mark known (by rwa [Bool.and_false])

theorem head (spells : Spells true tokens cs) : isWordAt cs.head? = false := by
  cases spells with
  | nil => rfl
  | blank blank rest => exact isWord_of_isBlank blank
  | mark known rest => exact isWord_of_mem_marks known

/-- Every character is a blank, stands in a word, or is one of the tokens. -/
theorem mem (spells : Spells glued tokens cs) (member : c ∈ cs) :
    isBlank c = true ∨ isAsciiWord c = true ∨ .mark c ∈ tokens := by
  induction spells with
  | nil => cases member
  | blank blank rest ih =>
      rcases List.mem_cons.mp member with rfl | later
      · exact .inl blank
      · exact ih later
  | word name rest ih =>
      rcases List.mem_append.mp member with here | later
      · exact .inr (.inl (name.plain c here))
      · exact (ih later).imp_right (.imp_right (List.mem_cons_of_mem _))
  | mark known rest ih =>
      rcases List.mem_cons.mp member with rfl | later
      · exact .inr (.inr (by simp))
      · exact (ih later).imp_right (.imp_right (List.mem_cons_of_mem _))

theorem not_mem (spells : Spells glued tokens cs) (known : c ∈ marks)
    (absent : .mark c ∉ tokens) : c ∉ cs := by
  intro member
  rcases spells.mem member with blank | word | token
  · rw [isBlank_of_mem_marks known] at blank
    cases blank
  · rw [isAsciiWord_of_mem_marks known] at word
    cases word
  · exact absent token

theorem mem_of_mark (spells : Spells glued tokens cs) (token : .mark c ∈ tokens) : c ∈ cs := by
  induction spells with
  | nil => cases token
  | blank _ _ ih => exact List.mem_cons_of_mem _ (ih token)
  | word _ _ ih =>
      rcases List.mem_cons.mp token with same | later
      · cases same
      · exact List.mem_append_right _ (ih later)
  | mark _ _ ih =>
      rcases List.mem_cons.mp token with same | later
      · cases same
        simp
      · exact List.mem_cons_of_mem _ (ih later)

theorem contains_eq (spells : Spells glued tokens cs) (known : c ∈ marks) :
    cs.contains c = tokens.contains (.mark c) := by
  rw [Bool.eq_iff_iff, List.contains_iff_mem, List.contains_iff_mem]
  constructor
  · intro member
    by_cases token : .mark c ∈ tokens
    · exact token
    · exact absurd member (spells.not_mem known token)
  · exact spells.mem_of_mark

theorem blanks (spells : Spells glued [] cs) : ∀ d ∈ cs, isBlank d = true := by
  generalize none : ([] : List Token) = tokens at spells
  induction spells with
  | nil => simp
  | blank blank _ ih =>
      intro d member
      rcases List.mem_cons.mp member with rfl | later
      · exact blank
      · exact ih none d later
  | word => cases none
  | mark => cases none

theorem tokens_eq_nil (spells : Spells glued tokens []) : tokens = [] := by
  generalize none : ([] : List Char) = cs at spells
  cases spells with
  | nil => rfl
  | blank => cases none
  | word name rest => exact absurd (List.append_eq_nil_iff.mp none.symm).1 name.occupied
  | mark => cases none

theorem word_inv (spells : Spells glued (.word letters :: tokens) cs) :
    ∃ gap rest, (∀ d ∈ gap, isBlank d = true) ∧ cs = gap ++ letters ++ rest ∧ IsName letters ∧
      Spells true tokens rest := by
  generalize same : Token.word letters :: tokens = all at spells
  induction spells with
  | nil => cases same
  | @blank glued d all cs blank rest ih =>
      obtain ⟨gap, behind, blanks, split, name, later⟩ := ih same
      refine ⟨d :: gap, behind, ?_, by rw [split]; rfl, name, later⟩
      intro e member
      rcases List.mem_cons.mp member with rfl | member
      · exact blank
      · exact blanks e member
  | @word own all cs name rest ih =>
      cases same
      exact ⟨[], cs, by simp, rfl, name, rest⟩
  | mark => cases same

theorem mark_inv (spells : Spells glued (.mark c :: tokens) cs) :
    ∃ gap rest, (∀ d ∈ gap, isBlank d = true) ∧ cs = gap ++ c :: rest ∧
      Spells false tokens rest := by
  generalize same : Token.mark c :: tokens = all at spells
  induction spells with
  | nil => cases same
  | @blank glued d all cs blank rest ih =>
      obtain ⟨gap, behind, blanks, split, later⟩ := ih same
      refine ⟨d :: gap, behind, ?_, by rw [split]; rfl, later⟩
      intro e member
      rcases List.mem_cons.mp member with rfl | member
      · exact blank
      · exact blanks e member
  | word => cases same
  | @mark glued d all cs known rest ih =>
      cases same
      exact ⟨[], cs, by simp, rfl, rest.relax⟩

theorem append_mark_inv (spells : Spells glued (first ++ .mark c :: second) cs) :
    ∃ before behind, cs = before ++ c :: behind ∧ Spells glued first before ∧
      Spells false second behind := by
  generalize same : first ++ Token.mark c :: second = all at spells
  induction spells generalizing first with
  | nil => simp at same
  | @blank glued d all cs blank rest ih =>
      obtain ⟨before, behind, split, left, right⟩ := ih same
      exact ⟨d :: before, behind, by rw [split]; rfl, .blank blank left, right⟩
  | @word own all cs name rest ih =>
      cases first with
      | nil => cases same
      | cons token first =>
          cases same
          obtain ⟨before, behind, split, left, right⟩ := ih rfl
          exact ⟨own ++ before, behind, by rw [split, List.append_assoc], .word name left, right⟩
  | @mark glued d all cs known rest ih =>
      cases first with
      | nil =>
          cases same
          exact ⟨[], cs, rfl, .nil, rest.relax⟩
      | cons token first =>
          cases same
          obtain ⟨before, behind, split, left, right⟩ := ih rfl
          exact ⟨d :: before, behind, by rw [split]; rfl, .mark known left, right⟩

theorem squeeze {inRun : Bool} (spells : Spells glued tokens cs)
    (free : inRun = true → glued = false) : Spells glued tokens (Header.squeeze inRun cs) := by
  induction spells generalizing inRun with
  | nil => exact .nil
  | @blank glued c tokens cs blank rest ih =>
      have space : isBlank ' ' = true := by decide
      cases inRun with
      | true =>
          have off : glued = false := free rfl
          rw [Header.squeeze_true_blank cs blank, off]
          exact ih fun _ => rfl
      | false =>
          rw [Header.squeeze_false_blank cs blank]
          exact .blank space (ih fun _ => rfl)
  | word name rest ih =>
      rw [name.squeeze]
      exact .word name (ih (by simp))
  | mark known rest ih =>
      rw [Header.squeeze_visible inRun _ (isBlank_of_mem_marks known)]
      exact .mark known (ih (by simp))

theorem dropBlanks (spells : Spells glued tokens cs) :
    Spells false tokens (Text.dropBlanks cs) := by
  induction spells with
  | nil => exact .nil
  | @blank glued c tokens cs blank rest ih =>
      rw [dropBlanks_blank cs blank]
      exact ih
  | @word letters tokens cs name rest ih =>
      rw [name.dropBlanks]
      exact .word name rest
  | @mark glued c tokens cs known rest ih =>
      rw [dropBlanks_visible cs (isBlank_of_mem_marks known)]
      exact (Spells.mark known rest).relax

theorem dropBlanksEnd (spells : Spells glued tokens cs) :
    Spells glued tokens (Text.dropBlanksEnd cs) := by
  induction spells with
  | nil => exact .nil
  | @blank glued c tokens cs blank rest ih =>
      simp only [Text.dropBlanksEnd]
      split
      · rename_i empty
        rw [empty] at ih
        rw [if_pos blank, ih.tokens_eq_nil]
        exact .nil
      · exact .blank blank ih
  | @word letters tokens cs name rest ih =>
      rw [Header.dropBlanksEnd_run name.isBlank]
      exact .word name ih
  | @mark glued c tokens cs known rest ih =>
      rw [Header.dropBlanksEnd_visible cs (isBlank_of_mem_marks known)]
      exact .mark known ih

theorem trim (spells : Spells glued tokens cs) : Spells false tokens (Text.trim cs) :=
  spells.dropBlanks.dropBlanksEnd

/-- Collapsing blanks changes no token. -/
theorem collapse (spells : Spells false tokens cs) : Spells false tokens (Header.collapse cs) :=
  (spells.squeeze fun _ => rfl).trim

end Spells

end HeaderBindings.Layout
