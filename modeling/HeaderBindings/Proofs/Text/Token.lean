import HeaderBindings.Proofs.Text.Scan
import HeaderBindings.Proofs.Text.Word
import HeaderBindings.Proofs.Text.Words

set_option autoImplicit false

namespace HeaderBindings.Text

/-- The first place of a mark is the same in the same text. -/
theorem eq_of_append_mark {α : Type} {mark : α} {first second x y : List α} (free : mark ∉ first)
    (absent : mark ∉ second) (same : first ++ mark :: x = second ++ mark :: y) :
    first = second ∧ x = y := by
  induction first generalizing second with
  | nil =>
      cases second with
      | nil => exact ⟨rfl, (List.cons.inj same).2⟩
      | cons d second =>
          rw [(List.cons.inj same).1] at absent
          exact absurd (by simp) absent
  | cons c first ih =>
      cases second with
      | nil =>
          rw [(List.cons.inj same).1] at free
          exact absurd (by simp) free
      | cons d second =>
          obtain ⟨rfl, rest⟩ := List.cons.inj same
          obtain ⟨rfl, behind⟩ := ih (fun member => free (List.mem_cons_of_mem c member))
            (fun member => absent (List.mem_cons_of_mem c member)) rest
          exact ⟨rfl, behind⟩

/-- Two words at the start of one text are the same, if nothing of a word follows either. -/
theorem eq_of_append_word {first second rest others : List Char}
    (same : first ++ rest = second ++ others) (words : ∀ c ∈ first, isWord c = true)
    (words' : ∀ c ∈ second, isWord c = true) (ends : isWordAt rest.head? = false)
    (ends' : isWordAt others.head? = false) : first = second ∧ rest = others := by
  have stops {tail : List Char} (ends : isWordAt tail.head? = false) :
      ∀ c ∈ tail.head?, isWord c = false := by
    cases tail with
    | nil => simp
    | cons c tail => simpa [isWordAt] using ends
  have letters : first = second := by
    rw [← (span_append words (stops ends)).1, same, (span_append words' (stops ends')).1]
  refine ⟨letters, ?_⟩
  rw [letters] at same
  exact List.append_cancel_left same

theorem afterTokens_gap {gap : List Char} (blanks : ∀ c ∈ gap, isBlank c = true) {c : Char}
    (visible : isBlank c = false) (rest : List Char) :
    afterTokens [[c]] (gap ++ c :: rest) = some rest := by
  rw [afterTokens, dropBlanks_gap blanks, dropBlanks_visible _ visible]
  simp [afterTokens, afterLiteral]

theorem exists_gap (cs : List Char) :
    ∃ gap, (∀ c ∈ gap, isBlank c = true) ∧ cs = gap ++ dropBlanks cs :=
  ⟨cs.takeWhile isBlank, fun c member => List.all_eq_true.mp List.all_takeWhile c member,
    List.takeWhile_append_dropWhile.symm⟩

theorem exists_gap_of_afterTokens {c : Char} {cs rest : List Char}
    (found : afterTokens [[c]] cs = some rest) :
    ∃ gap, (∀ d ∈ gap, isBlank d = true) ∧ cs = gap ++ c :: rest := by
  obtain ⟨gap, blanks, split⟩ := exists_gap cs
  simp only [afterTokens, Option.bind_eq_some_iff, Option.some.injEq, exists_eq_right] at found
  rw [eq_append_of_afterLiteral found] at split
  exact ⟨gap, blanks, split⟩

theorem infix_of_afterTokens {token : List Char} {tokens : List (List Char)}
    (member : token ∈ tokens) {cs rest : List Char} (found : afterTokens tokens cs = some rest) :
    token <:+: cs := by
  induction tokens generalizing cs with
  | nil => cases member
  | cons other tokens ih =>
      simp only [afterTokens, Option.bind_eq_some_iff] at found
      obtain ⟨next, here, later⟩ := found
      have part : other ++ next <:+ cs := by
        rw [← eq_append_of_afterLiteral here]
        exact List.dropWhile_suffix isBlank
      rcases List.mem_cons.mp member with rfl | member
      · exact (List.prefix_append token next).isInfix.trans part.isInfix
      · exact (ih member later).trans ((List.suffix_append other next).trans part).isInfix

theorem isWordAt_gap {gap : List Char} (blanks : ∀ c ∈ gap, isBlank c = true) {c : Char}
    (noWord : isWord c = false) (rest : List Char) :
    ∀ d ∈ (gap ++ c :: rest).head?, isWord d = false := by
  cases gap with
  | nil => simpa using noWord
  | cons d gap => simpa using isWord_of_isBlank (blanks d (by simp))

/-- What is found behind blanks stands at the start or behind a blank. -/
theorem head_of_dropBlanks {c : Char} {cs rest : List Char} (noWord : isWord c = false)
    (found : afterLiteral [c] (dropBlanks cs) = some rest) : isWordAt cs.head? = false := by
  have split := eq_append_of_afterLiteral found
  cases cs with
  | nil => rfl
  | cons d cs =>
      cases blank : isBlank d with
      | true => exact isWord_of_isBlank blank
      | false =>
          rw [dropBlanks_visible cs blank, List.singleton_append, List.cons.injEq] at split
          simp [isWordAt, split.1, noWord]

end HeaderBindings.Text
