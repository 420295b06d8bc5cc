import HeaderBindings.Header.Candidate
import HeaderBindings.Proofs.Text.Words

set_option autoImplicit false

namespace HeaderBindings.Header

open Text

theorem squeeze_true_blank {c : Char} (cs : List Char) (blank : isBlank c = true) :
    squeeze true (c :: cs) = squeeze true cs := by simp [squeeze, blank]

theorem squeeze_false_blank {c : Char} (cs : List Char) (blank : isBlank c = true) :
    squeeze false (c :: cs) = ' ' :: squeeze true cs := by simp [squeeze, blank]

theorem squeeze_visible (inRun : Bool) {c : Char} (cs : List Char) (visible : isBlank c = false) :
    squeeze inRun (c :: cs) = c :: squeeze false cs := by simp [squeeze, visible]

theorem squeeze_run {run : List Char} (visible : ∀ c ∈ run, isBlank c = false)
    (rest : List Char) : squeeze false (run ++ rest) = run ++ squeeze false rest := by
  induction run with
  | nil => rfl
  | cons c run ih =>
      rw [List.cons_append, squeeze_visible false _ (visible c (by simp)),
        ih fun d member => visible d (List.mem_cons_of_mem c member), List.cons_append]

theorem dropBlanks_squeeze_true (cs : List Char) :
    dropBlanks (squeeze true cs) = squeeze true cs := by
  induction cs with
  | nil => rfl
  | cons c cs ih =>
      cases blank : isBlank c with
      | true => rw [squeeze_true_blank cs blank, ih]
      | false =>
          rw [squeeze_visible true cs blank]
          exact dropBlanks_visible _ blank

theorem dropBlanks_squeeze (cs : List Char) :
    dropBlanks (squeeze false cs) = squeeze true cs := by
  cases cs with
  | nil => rfl
  | cons c cs =>
      cases blank : isBlank c with
      | true =>
          rw [squeeze_false_blank cs blank, squeeze_true_blank cs blank]
          exact dropBlanks_squeeze_true cs
      | false =>
          rw [squeeze_visible false cs blank, squeeze_visible true cs blank]
          exact dropBlanks_visible _ blank

theorem dropBlanksEnd_visible {c : Char} (cs : List Char) (visible : isBlank c = false) :
    dropBlanksEnd (c :: cs) = c :: dropBlanksEnd cs := by
  simp only [dropBlanksEnd]
  split <;> simp_all

theorem dropBlanksEnd_run {run : List Char} (visible : ∀ c ∈ run, isBlank c = false)
    (rest : List Char) : dropBlanksEnd (run ++ rest) = run ++ dropBlanksEnd rest := by
  induction run with
  | nil => rfl
  | cons c run ih =>
      rw [List.cons_append, dropBlanksEnd_visible _ (visible c (by simp)),
        ih fun d member => visible d (List.mem_cons_of_mem c member), List.cons_append]

theorem dropBlanksEnd_append (first : List Char) {rest : List Char}
    (left : dropBlanksEnd rest ≠ []) :
    dropBlanksEnd (first ++ rest) = first ++ dropBlanksEnd rest := by
  induction first with
  | nil => rfl
  | cons c first ih =>
      have filled : first ++ dropBlanksEnd rest ≠ [] := by simp [left]
      rw [List.cons_append, dropBlanksEnd, ih]
      split
      · rename_i empty
        exact absurd empty filled
      · rfl

theorem dropBlanksEnd_gap {gap : List Char} (blank : ∀ c ∈ gap, isBlank c = true) :
    dropBlanksEnd gap = [] := by
  induction gap with
  | nil => rfl
  | cons c gap ih =>
      rw [dropBlanksEnd, ih fun d member => blank d (List.mem_cons_of_mem c member)]
      simp [blank c (by simp)]

theorem exists_gap_end (cs : List Char) :
    ∃ gap, (∀ c ∈ gap, isBlank c = true) ∧ cs = dropBlanksEnd cs ++ gap := by
  induction cs with
  | nil => exact ⟨[], by simp, rfl⟩
  | cons c cs ih =>
      obtain ⟨gap, blanks, split⟩ := ih
      by_cases left : dropBlanksEnd cs = []
      · rw [left, List.nil_append] at split
        cases blank : isBlank c with
        | true =>
            refine ⟨c :: gap, by simpa [blank] using blanks, ?_⟩
            simp [dropBlanksEnd, left, blank, ← split]
        | false => exact ⟨gap, blanks, by simp [dropBlanksEnd, left, blank, ← split]⟩
      · have kept : dropBlanksEnd (c :: cs) = [c] ++ dropBlanksEnd cs :=
          dropBlanksEnd_append [c] left
        exact ⟨gap, blanks, by rw [kept, List.append_assoc, ← split]; rfl⟩

theorem dropBlanksEnd_dropBlanksEnd (cs : List Char) :
    dropBlanksEnd (dropBlanksEnd cs) = dropBlanksEnd cs := by
  induction cs with
  | nil => rfl
  | cons c cs ih =>
      cases blank : isBlank c with
      | false => rw [dropBlanksEnd_visible cs blank, dropBlanksEnd_visible _ blank, ih]
      | true =>
          by_cases left : dropBlanksEnd cs = []
          · have none_left : dropBlanksEnd (c :: cs) = [] := by simp [dropBlanksEnd, left, blank]
            rw [none_left]
            rfl
          · have kept : dropBlanksEnd (c :: cs) = [c] ++ dropBlanksEnd cs :=
              dropBlanksEnd_append [c] left
            rw [kept, dropBlanksEnd_append [c] (by rwa [ih]), ih]

theorem trim_trim (cs : List Char) : trim (trim cs) = trim cs := by
  have front : dropBlanks (dropBlanksEnd (dropBlanks cs)) = dropBlanksEnd (dropBlanks cs) := by
    induction cs with
    | nil => rfl
    | cons c cs ih =>
        cases blank : isBlank c with
        | true => rwa [dropBlanks_blank cs blank]
        | false =>
            rw [dropBlanks_visible cs blank, dropBlanksEnd_visible cs blank]
            exact dropBlanks_visible _ blank
  rw [trim, trim, front, dropBlanksEnd_dropBlanksEnd]

theorem trim_of_visible {cs : List Char} (starts : ∀ c ∈ cs.head?, isBlank c = false)
    (ends : ∀ c ∈ cs.getLast?, isBlank c = false) : trim cs = cs := by
  have front : dropBlanks cs = cs := by
    cases cs with
    | nil => rfl
    | cons c cs => exact dropBlanks_visible cs (starts c rfl)
  obtain ⟨gap, blanks, split⟩ := exists_gap_end cs
  rcases List.eq_nil_or_concat gap with rfl | ⟨start, c, rfl⟩
  · rw [List.append_nil] at split
    rw [trim, front, ← split]
  · -- The text would end in a blank.
    rw [List.concat_eq_append, ← List.append_assoc] at split
    have last : cs.getLast? = some c := by rw [split, List.getLast?_concat]
    have visible := ends c last
    rw [blanks c (by simp)] at visible
    cases visible

theorem dropBlanksEnd_space (cs : List Char) :
    dropBlanksEnd (' ' :: cs) =
      if dropBlanksEnd cs = [] then [] else ' ' :: dropBlanksEnd cs := by
  have blank : isBlank ' ' = true := by decide
  simp only [dropBlanksEnd]
  split <;> simp_all

theorem dropBlanksEnd_squeeze (cs : List Char) :
    dropBlanksEnd (squeeze true cs) = joinWords (words cs) := by
  induction cs with
  | nil => rfl
  | cons c cs ih =>
      cases blank : isBlank c with
      | true => rw [squeeze_true_blank cs blank, words_blank cs blank, ih]
      | false =>
          rw [squeeze_visible true cs blank, dropBlanksEnd_visible _ blank]
          rcases words_cons_cases cs blank with ⟨single, ends⟩ | ⟨d, tail, w, ws, rfl, next, rest,
            longer⟩
          · rw [single]
            cases cs with
            | nil => rfl
            | cons d cs =>
                have space : isBlank d = true := ends d rfl
                rw [squeeze_true_blank cs space] at ih
                rw [squeeze_false_blank cs space, dropBlanksEnd_space, ih]
                by_cases none_left : words (d :: cs) = []
                · simp [none_left, joinWords]
                · have filled : joinWords (words (d :: cs)) ≠ [] := fun empty =>
                    none_left ((joinWords_eq_nil fun _ => words_occupied).mp empty)
                  rw [joinWords_cons [c] none_left]
                  simp [filled]
          · rw [squeeze_visible true tail next, rest] at ih
            rw [squeeze_visible false tail next, longer, joinWords_extend, ih]

/-- A collapsed text is the words of the text with one space between neighbours. -/
theorem collapse_eq_joinWords (cs : List Char) : collapse cs = joinWords (words cs) := by
  rw [collapse, trim, dropBlanks_squeeze, dropBlanksEnd_squeeze]

/-- What is behind a blank is collapsed on its own; if anything is left of it, a space comes
before. -/
theorem collapse_append_blank (first second : List Char) {c : Char} (blank : isBlank c = true)
    (left : words first ≠ []) :
    collapse (first ++ c :: second) =
      collapse first ++ if collapse second = [] then [] else ' ' :: collapse second := by
  simp only [collapse_eq_joinWords]
  rw [words_append_blank first second blank]
  by_cases right : words second = []
  · simp [right, joinWords]
  · have filled : joinWords (words second) ≠ [] := fun empty =>
      right ((joinWords_eq_nil fun _ => words_occupied).mp empty)
    rw [joinWords_append left right]
    simp [filled]

/-- A collapsed text ends as the text does, blanks aside. -/
theorem collapse_append_visible (cs : List Char) {c : Char} (visible : isBlank c = false)
    {gap : List Char} (blank : ∀ d ∈ gap, isBlank d = true) :
    ∃ start, collapse (cs ++ c :: gap) = start ++ [c] := by
  obtain ⟨ws, w, last⟩ := words_append_singleton cs visible
  have same : words (cs ++ c :: gap) = words (cs ++ [c]) := by
    have behind := words_append_blanks (cs ++ [c]) blank
    rwa [List.append_assoc] at behind
  rw [collapse_eq_joinWords, same, last]
  by_cases single : ws = []
  · exact ⟨w, by simp [single, joinWords]⟩
  · refine ⟨joinWords ws ++ ' ' :: w, ?_⟩
    rw [joinWords_append single (by simp)]
    simp [joinWords]

end HeaderBindings.Header
