import HeaderBindings.Proofs.Text.Lexeme

set_option autoImplicit false

namespace HeaderBindings.Text

/-- Where two walks stand at places that correspond to each other. -/
structure Aligned (before : Option Char) (cs : List Char) (before' : Option Char)
    (ds : List Char) : Prop where
  same : SameLexemes cs ds
  word : isWordAt before = isWordAt before'
  next : goesOn cs = goesOn ds ∨ isWordAt before = false

theorem Alike.aligned {cs ds : List Char} (alike : Alike cs ds) {before before' : Option Char}
    (word : isWordAt before = isWordAt before') : Aligned before cs before' ds :=
  ⟨alike.same, word, .inl alike.next⟩

theorem SameLexemes.aligned {cs ds : List Char} (same : SameLexemes cs ds)
    {before before' : Option Char} (left : isWordAt before = false)
    (right : isWordAt before' = false) : Aligned before cs before' ds :=
  ⟨same, left.trans right.symm, .inr left⟩

theorem goesOn_gap {gap : List Char} (blanks : ∀ c ∈ gap, isBlank c = true) (rest : List Char) :
    goesOn (gap ++ rest) = (gap.isEmpty && goesOn rest) := by
  cases gap with
  | nil => rfl
  | cons c gap => exact isInner_of_isBlank (blanks c (by simp))

theorem isWordAt_behind {gap : List Char} (blanks : ∀ c ∈ gap, isBlank c = true)
    (before : Option Char) :
    isWordAt (gap.getLast?.or before) = (gap.isEmpty && isWordAt before) := by
  by_cases empty : gap = []
  · rw [empty]
    rfl
  · have last := isWord_of_isBlank (blanks _ (List.getLast_mem empty))
    rw [List.getLast?_eq_some_getLast empty, Option.some_or]
    rw [List.isEmpty_eq_false_iff.mpr empty, Bool.false_and]
    exact last

/-- What comes next for the walks: no more than blanks; a character that is a lexeme of its own; or
one that belongs to a longer lexeme, before which both see the same. -/
theorem Aligned.cases {before before' : Option Char} {cs ds : List Char}
    (aligned : Aligned before cs before' ds) :
    ((∀ c ∈ cs, isBlank c = true) ∧ ∀ c ∈ ds, isBlank c = true) ∨
      ∃ gap gap' c r s, (∀ d ∈ gap, isBlank d = true) ∧ (∀ d ∈ gap', isBlank d = true) ∧
        cs = gap ++ c :: r ∧ ds = gap' ++ c :: s ∧
        (c ∈ separators ∧ SameLexemes r s ∨
          isInner c = true ∧ Alike r s ∧
            isWordAt (gap.getLast?.or before) = isWordAt (gap'.getLast?.or before') ∧
            (goesOn cs = goesOn ds → gap.isEmpty = gap'.isEmpty)) := by
  obtain ⟨gap, blanks, left⟩ := exists_gap cs
  obtain ⟨gap', blanks', right⟩ := exists_gap ds
  rcases aligned.same.cases with ⟨none_left, none_right⟩ | ⟨c, r, s, first, first', visible, same,
    alike⟩
  · rw [none_left, List.append_nil] at left
    rw [none_right, List.append_nil] at right
    rw [left, right]
    exact .inl ⟨blanks, blanks'⟩
  · rw [first] at left
    rw [first'] at right
    refine .inr ⟨gap, gap', c, r, s, blanks, blanks', left, right, ?_⟩
    cases inner : isInner c with
    | false =>
        rcases of_isInner_false inner with blank | known
        · rw [blank] at visible
          cases visible
        · exact .inl ⟨known, same⟩
    | true =>
        have together : goesOn cs = goesOn ds → gap.isEmpty = gap'.isEmpty := by
          rw [left, right, goesOn_gap blanks, goesOn_gap blanks', goesOn_cons, goesOn_cons, inner,
            Bool.and_true, Bool.and_true]
          exact id
        refine .inr ⟨rfl, alike inner, ?_, together⟩
        rw [isWordAt_behind blanks, isWordAt_behind blanks', ← aligned.word]
        rcases aligned.next with next | outside
        · rw [together next]
        · rw [outside, Bool.and_false, Bool.and_false]

/-- What two searches that agree have found: nothing; the same characters, and what follows them is
alike; or parts that end on their own, for which texts are written that are alike and end so too. -/
inductive Agree (cs ds : List Char) : Option Hit → Option Hit → Prop
  | missed : Agree cs ds none none
  | inside {taken text rest rest' : List Char} (left : cs = taken ++ rest)
    (right : ds = taken ++ rest') (alike : Alike rest rest') :
    Agree cs ds (some ⟨taken.length, text⟩) (some ⟨taken.length, text⟩)
  | ended {taken taken' text text' rest rest' : List Char} (left : cs = taken ++ rest)
    (right : ds = taken' ++ rest') (taken_ended : Ended taken) (taken_ended' : Ended taken')
    (written : Alike text text') (text_ended : Ended text) (text_ended' : Ended text')
    (same : SameLexemes rest rest') :
    Agree cs ds (some ⟨taken.length, text⟩) (some ⟨taken'.length, text'⟩)

/-- The finder finds the same wherever two walks correspond to each other. -/
structure Respects (find : Finder) : Prop where
  proper : Proper find
  outer : ∀ {c}, isInner c = false → ∀ before cs, find before (c :: cs) = none
  agree : ∀ {before before' cs ds}, isWordAt before = isWordAt before' → Alike cs ds →
    Agree cs ds (find before cs) (find before' ds)

/-- What is written for two texts has the same lexemes, and it is alike if the texts are. -/
structure Corresponds (cs ds written written' : List Char) : Prop where
  same : SameLexemes written written'
  next : goesOn cs = goesOn ds → goesOn written = goesOn written'

section Respects

variable {find : Finder}

theorem Respects.replaceFrom_gap (respects : Respects find) {gap : List Char}
    (blanks : ∀ c ∈ gap, isBlank c = true) (before : Option Char) (rest : List Char) :
    replaceFrom find 0 true before (gap ++ rest) =
      gap ++ replaceFrom find 0 true (gap.getLast?.or before) rest :=
  replaceFrom_copy before gap rest fun c member =>
    respects.outer (isInner_of_isBlank (blanks c member))

/-- Both walks go on behind a character that is not replaced, or behind what they replace. -/
theorem Respects.replaceFrom_inner (respects : Respects find) {before before' : Option Char}
    {c : Char} {r s : List Char} (word : isWordAt before = isWordAt before') (alike : Alike r s)
    (later : ∀ {before before' rest rest'}, rest.length ≤ r.length →
      Aligned before rest before' rest' → Corresponds rest rest'
        (replaceFrom find 0 true before rest) (replaceFrom find 0 true before' rest')) :
    Alike (replaceFrom find 0 true before (c :: r)) (replaceFrom find 0 true before' (c :: s)) := by
  have proper := respects.proper
  have shorter {before : Option Char} {taken text rest : List Char} (split : c :: r = taken ++ rest)
      (found : find before (c :: r) = some ⟨taken.length, text⟩) : rest.length ≤ r.length := by
    have positive := proper.positive found
    have length := congrArg List.length split
    simp only [List.length_cons, List.length_append] at length positive
    omega
  have filled {before : Option Char} {cs taken text : List Char}
      (found : find before cs = some ⟨taken.length, text⟩) : taken ≠ [] := by
    have positive := proper.positive found
    exact List.length_pos_iff.mp positive
  have both := respects.agree word (alike.cons c)
  generalize first : find before (c :: r) = hit at both
  generalize second : find before' (c :: s) = hit' at both
  cases both with
  | missed =>
      have here : isWordAt (some c) = isWordAt (some c) := rfl
      obtain ⟨same, next⟩ := later (Nat.le_refl _) (alike.aligned here)
      rw [replaceFrom_none first, replaceFrom_none second]
      exact Alike.cons ⟨same, next alike.next⟩ c
  | @inside taken text rest rest' left right alike =>
      have front := shorter left first
      have occupied := filled first
      rw [left] at first ⊢
      rw [right] at second ⊢
      have here : isWordAt (taken.getLast?.or before) = isWordAt (taken.getLast?.or before') := by
        rw [List.getLast?_eq_some_getLast occupied]
        rfl
      obtain ⟨same, next⟩ := later front (alike.aligned here)
      rw [replaceFrom_take proper occupied first, replaceFrom_take proper occupied second]
      exact Alike.append ⟨same, next alike.next⟩ text
  | ended left right closed closed' written ends ends' same =>
      have front := shorter left first
      have occupied := filled first
      have occupied' := filled second
      rw [left] at first ⊢
      rw [right] at second ⊢
      have rest := later front
        (same.aligned (isWordAt_ended closed before) (isWordAt_ended closed' before'))
      rw [replaceFrom_take proper occupied first, replaceFrom_take proper occupied' second]
      exact written.ended ends ends' rest.same

theorem Respects.corresponds (respects : Respects find) {before before' : Option Char}
    {cs ds : List Char} (aligned : Aligned before cs before' ds) :
    Corresponds cs ds (replaceFrom find 0 true before cs) (replaceFrom find 0 true before' ds) := by
  induction size : cs.length using Nat.strongRecOn generalizing before before' cs ds with
  | ind n ih =>
    subst size
    rcases aligned.cases with ⟨blanks, blanks'⟩ | ⟨gap, gap', c, r, s, blanks, blanks', rfl, rfl,
      ⟨known, same⟩ | ⟨inner, alike, word, together⟩⟩
    · have kept {cs : List Char} (blanks : ∀ c ∈ cs, isBlank c = true) (before : Option Char) :
          replaceFrom find 0 true before cs = cs := by
        have whole := respects.replaceFrom_gap blanks before []
        rwa [List.append_nil, replaceFrom_nil respects.proper, List.append_nil] at whole
      rw [kept blanks, kept blanks']
      exact ⟨aligned.same, id⟩
    · have outer := isInner_of_mem_separators known
      have noWord : isWordAt (some c) = false := isWordAt_ended ⟨[], c, rfl, outer⟩ none
      have rest := ih r.length (by simp; omega) (same.aligned noWord noWord) rfl
      rw [respects.replaceFrom_gap blanks, respects.replaceFrom_gap blanks',
        replaceFrom_none (respects.outer outer _ _), replaceFrom_none (respects.outer outer _ _)]
      constructor
      · unfold SameLexemes
        rw [lexemes_gap blanks, lexemes_gap blanks', lexemes_separator known,
          lexemes_separator known, rest.same]
      · intro _
        rw [goesOn_gap blanks, goesOn_gap blanks', goesOn_cons, goesOn_cons, outer,
          Bool.and_false, Bool.and_false]
    · have here := respects.replaceFrom_inner (c := c) word alike fun bound aligned =>
        ih _ (by simp; omega) aligned rfl
      rw [respects.replaceFrom_gap blanks, respects.replaceFrom_gap blanks']
      constructor
      · unfold SameLexemes
        rw [lexemes_gap blanks, lexemes_gap blanks', here.same]
      · intro next
        rw [goesOn_gap blanks, goesOn_gap blanks', together next, here.next]

theorem Respects.replaceAll (respects : Respects find) {cs ds : List Char}
    (same : SameLexemes cs ds) : SameLexemes (replaceAll find cs) (replaceAll find ds) :=
  (respects.corresponds (same.aligned rfl rfl)).same

end Respects

end HeaderBindings.Text
