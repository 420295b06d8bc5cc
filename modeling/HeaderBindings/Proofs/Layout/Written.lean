import HeaderBindings.Proofs.Header.Rule
import HeaderBindings.Proofs.Layout.Spells

set_option autoImplicit false

namespace HeaderBindings.Layout

open Text Header

/-- The text is tokens with blanks, closed block comments and qualifiers anywhere between them.

Outside of comments there has to be a blank between two words, a qualifier counting as a word, and
between two words with only stars between them, as the last word of a type and the name of a
parameter are. `near` says that a word or a qualifier came before the text, with no blank or mark
since; `glued` says that a word came before it, with no blank and no mark but stars since. -/
inductive Written : Bool → Bool → List Token → List Char → Prop
  | nil {near glued : Bool} : Written near glued [] []
  | blank {near glued : Bool} {c : Char} {tokens : List Token} {cs : List Char}
    (blank : isBlank c = true) (rest : Written false false tokens cs) :
    Written near glued tokens (c :: cs)
  | comment {near glued : Bool} {body : List Char} {tokens : List Token} {cs : List Char}
    (plain : ¬ ['*', '/'] <:+: body) (rest : Written near glued tokens cs) :
    Written near glued tokens ('/' :: '*' :: (body ++ '*' :: '/' :: cs))
  | qualifier {glued : Bool} {tokens : List Token} {cs : List Char}
    (rest : Written true glued tokens cs) : Written false glued tokens (constLetters ++ cs)
  | word {letters : List Char} {tokens : List Token} {cs : List Char} (name : IsName letters)
    (rest : Written true true tokens cs) :
    Written false false (.word letters :: tokens) (letters ++ cs)
  | mark {near glued : Bool} {c : Char} {tokens : List Token} {cs : List Char} (known : c ∈ marks)
    (rest : Written false (c == '*' && glued) tokens cs) :
    Written near glued (.mark c :: tokens) (c :: cs)

theorem ne_of_mem_marks {c d : Char} (known : c ∈ marks) (other : d ∉ marks) : c ≠ d := by
  rintro rfl
  exact other known

namespace Written

variable {near glued : Bool} {tokens : List Token} {cs : List Char}

/-- Without its comments, the text is written too. -/
theorem stripComments (written : Written near glued tokens cs) :
    Written near glued tokens (Header.stripComments cs) ∧ '/' ∉ Header.stripComments cs := by
  induction written with
  | nil => exact ⟨.nil, by simp [Header.stripComments, replaceAll, replaceFrom, blockComment]⟩
  | @blank near glued c tokens cs blank rest ih =>
      have slash : c ≠ '/' := ne_of_isBlank blank (by decide)
      rw [stripComments_cons fun opener => slash opener.1]
      exact ⟨.blank blank ih.1, by simp [slash.symm, ih.2]⟩
  | @comment near glued body tokens cs plain rest ih =>
      rw [stripComments_body plain]
      exact ih
  | @qualifier glued tokens cs rest ih =>
      have free : '/' ∉ constLetters := by decide
      rw [stripComments_append_free free]
      exact ⟨.qualifier ih.1, by simp [free, ih.2]⟩
  | @word letters tokens cs name rest ih =>
      have free : '/' ∉ letters := name.not_mem (by decide)
      rw [stripComments_append_free free]
      exact ⟨.word name ih.1, by simp [free, ih.2]⟩
  | @mark near glued c tokens cs known rest ih =>
      have slash : c ≠ '/' := ne_of_mem_marks known (by decide)
      rw [stripComments_cons fun opener => slash opener.1]
      exact ⟨.mark known ih.1, by simp [slash.symm, ih.2]⟩

/-- Without comments, every character is a blank, stands in a word, or is a mark. -/
theorem not_mem (written : Written near glued tokens cs) (free : '/' ∉ cs) {d : Char}
    (visible : isBlank d = false) (noWord : isAsciiWord d = false) (noMark : d ∉ marks) :
    d ∉ cs := by
  induction written with
  | nil => simp
  | blank blank rest ih =>
      have other := ne_of_isBlank blank visible
      have later := ih fun member => free (List.mem_cons_of_mem _ member)
      simp [other.symm, later]
  | comment => exact absurd (by simp) free
  | qualifier rest ih =>
      have other : d ∉ constLetters := fun member => by
        have letter : isAsciiWord d = true := forall_mem_of_all (by decide) d member
        rw [letter] at noWord
        cases noWord
      have later := ih fun member => free (List.mem_append_right _ member)
      simp [other, later]
  | word name rest ih =>
      have later := ih fun member => free (List.mem_append_right _ member)
      simp [name.not_mem noWord, later]
  | mark known rest ih =>
      have other := ne_of_mem_marks known noMark
      have later := ih fun member => free (List.mem_cons_of_mem _ member)
      simp [other.symm, later]

theorem head (written : Written true glued tokens cs) (free : '/' ∉ cs) :
    isWordAt cs.head? = false := by
  cases written with
  | nil => rfl
  | blank blank rest => exact isWord_of_isBlank blank
  | comment plain rest => exact absurd (by simp) free
  | mark known rest => exact isWord_of_mem_marks known

end Written

theorem replaceFrom_constWord_name {letters : List Char} (name : IsName letters)
    (before : Option Char) {rest : List Char} (ends : isWordAt rest.head? = false) :
    replaceFrom Rule.constWord 0 true before (letters ++ rest) =
      letters ++ replaceFrom Rule.constWord 0 true (letters.getLast?.or before) rest := by
  refine replaceFrom_pass before letters rest fun first c second split => ?_
  cases found : Rule.constWord (first.getLast?.or before) (c :: second ++ rest) with
  | none => rfl
  | some hit =>
      obtain ⟨behind, same, alone, stop, _⟩ := Rule.constWord_eq_some found
      cases last : first.getLast? with
      | some d =>
          -- Behind another letter of the word there is no boundary.
          have word : isWord d = true :=
            name.isWord d (by rw [split]; exact List.mem_append_left _ (List.mem_of_getLast? last))
          rw [last, Option.some_or] at alone
          exact absurd word (by simpa [isWordAt] using alone)
      | none =>
          rw [List.getLast?_eq_none_iff.mp last, List.nil_append] at split
          have words := name.isWord
          rw [split] at words
          have whole := (eq_of_append_word same words (forall_mem_of_all (by decide)) ends stop).1
          exact absurd (split.trans whole) name.free

/-- Without its qualifiers, the text spells the tokens. -/
theorem Written.replaceFrom_constWord {near glued : Bool} {tokens : List Token} {cs : List Char}
    (written : Written near glued tokens cs) (free : '/' ∉ cs) (before : Option Char)
    (outside : isWordAt before = true → near = true) :
    Spells glued tokens (replaceFrom Rule.constWord 0 true before cs) := by
  have proper : Proper Rule.constWord := Rule.stripConst_separable.proper
  induction written generalizing before with
  | nil =>
      rw [replaceFrom_nil proper]
      exact .nil
  | @blank near glued c tokens cs blank rest ih =>
      have other : c ≠ 'c' := ne_of_isBlank blank (by decide)
      rw [replaceFrom_none (Rule.constWord_none other before cs)]
      refine .blank blank (ih (fun member => free (List.mem_cons_of_mem c member)) _ ?_)
      simp [isWordAt, isWord_of_isBlank blank]
  | comment => exact absurd (by simp) free
  | @qualifier glued tokens cs rest ih =>
      have later : '/' ∉ cs := fun member => free (List.mem_append_right _ member)
      have alone : isWordAt before = false := by
        cases word : isWordAt before with
        | false => rfl
        | true => cases outside word
      have found : Rule.constWord before (constLetters ++ cs) = some ⟨constLetters.length, []⟩ := by
        have literal : afterLiteral ['c', 'o', 'n', 's', 't'] (constLetters ++ cs) = some cs :=
          afterLiteral_append constLetters cs
        unfold Rule.constWord
        simp only [literal, alone, rest.head later, Bool.or_self, Bool.false_eq_true, ↓reduceIte]
        rfl
      have occupied : constLetters ≠ [] := by decide
      rw [replaceFrom_take proper occupied found, List.nil_append]
      exact ih later _ fun _ => rfl
  | @word letters tokens cs name rest ih =>
      have later : '/' ∉ cs := fun member => free (List.mem_append_right _ member)
      rw [replaceFrom_constWord_name name before (rest.head later)]
      exact .word name (ih later _ fun _ => rfl)
  | @mark near glued c tokens cs known rest ih =>
      have other : c ≠ 'c' := ne_of_mem_marks known (by decide)
      rw [replaceFrom_none (Rule.constWord_none other before cs)]
      refine .mark known (ih (fun member => free (List.mem_cons_of_mem c member)) _ ?_)
      simp [isWordAt, isWord_of_mem_marks known]

end HeaderBindings.Layout
