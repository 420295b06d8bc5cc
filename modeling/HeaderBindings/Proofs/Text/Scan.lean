import HeaderBindings.Text.Scan

set_option autoImplicit false

namespace HeaderBindings.Text

/-- Every match takes at least one character, and only characters that are there. -/
structure Proper (find : Finder) : Prop where
  positive : ∀ {before cs hit}, find before cs = some hit → 0 < hit.length
  within : ∀ {before cs hit}, find before cs = some hit → hit.length ≤ cs.length

/-- The finder looks at nothing from a mark on: it finds the same as if the text ended there. -/
def StopsBefore (mark : Char) (find : Finder) : Prop :=
  ∀ before first second, find before (first ++ mark :: second) = find before first

/-- The finder looks at nothing behind a mark. -/
def StopsBehind (mark : Char) (find : Finder) : Prop :=
  ∀ before first second, find before (first ++ mark :: second) = find before (first ++ [mark])

/-- No match starts at a blank, and to what follows a blank is like the start of a text. -/
structure PassesBlanks (find : Finder) : Prop where
  at_blank : ∀ before {c} cs, isBlank c = true → find before (c :: cs) = none
  after_blank : ∀ {c} cs, isBlank c = true → find (some c) cs = find none cs

theorem Proper.nil {find : Finder} (proper : Proper find) (before : Option Char) :
    find before [] = none := by
  cases found : find before [] with
  | none => rfl
  | some hit =>
      have positive := proper.positive found
      have within := proper.within found
      simp only [List.length_nil] at within
      omega

theorem Proper.cases {find : Finder} (proper : Proper find) (before : Option Char)
    (cs : List Char) :
    find before cs = none ∨ ∃ n text, find before cs = some ⟨n + 1, text⟩ ∧ n + 1 ≤ cs.length := by
  cases found : find before cs with
  | none => exact .inl rfl
  | some hit =>
      obtain ⟨length, text⟩ := hit
      have positive := proper.positive found
      have within := proper.within found
      cases length with
      | zero => exact absurd positive (Nat.lt_irrefl 0)
      | succ n => exact .inr ⟨n, text, rfl, within⟩

theorem getLast?_cons_or (c : Char) (part : List Char) (before : Option Char) :
    (c :: part).getLast?.or before = part.getLast?.or (some c) := by
  cases part with
  | nil => rfl
  | cons d part => simp [List.getLast?_cons]

section Replace

variable {find : Finder}

theorem replaceFrom_nil (proper : Proper find) (skip : Nat) (free : Bool)
    (before : Option Char) : replaceFrom find skip free before [] = [] := by
  simp only [replaceFrom, proper.nil before]

@[simp] theorem replaceFrom_skip (skip : Nat) (free : Bool) (before : Option Char) (c : Char)
    (cs : List Char) :
    replaceFrom find (skip + 1) free before (c :: cs) =
      replaceFrom find skip false (some c) cs := by
  simp only [replaceFrom]

theorem replaceFrom_none {before : Option Char} {c : Char} {cs : List Char}
    (missed : find before (c :: cs) = none) (free : Bool) :
    replaceFrom find 0 free before (c :: cs) = c :: replaceFrom find 0 true (some c) cs := by
  simp only [replaceFrom, missed]

theorem replaceFrom_hit {before : Option Char} {c : Char} {cs text : List Char} {n : Nat}
    (found : find before (c :: cs) = some ⟨n + 1, text⟩) (free : Bool) :
    replaceFrom find 0 free before (c :: cs) = text ++ replaceFrom find n false (some c) cs := by
  simp only [replaceFrom, found]

/-- Only empty matches ask whether their place is free. -/
theorem replaceFrom_free (proper : Proper find) (skip : Nat) (free : Bool)
    (before : Option Char) (cs : List Char) :
    replaceFrom find skip free before cs = replaceFrom find skip true before cs := by
  cases cs with
  | nil => rw [replaceFrom_nil proper, replaceFrom_nil proper]
  | cons c cs =>
      cases skip with
      | succ skip => simp only [replaceFrom_skip]
      | zero =>
          rcases proper.cases before (c :: cs) with missed | ⟨n, text, found, _⟩
          · rw [replaceFrom_none missed, replaceFrom_none missed]
          · rw [replaceFrom_hit found, replaceFrom_hit found]

theorem replaceFrom_append_skip (proper : Proper find) (free : Bool) (before : Option Char)
    (taken rest : List Char) :
    replaceFrom find taken.length free before (taken ++ rest) =
      replaceFrom find 0 true (taken.getLast?.or before) rest := by
  induction taken generalizing free before with
  | nil => exact replaceFrom_free proper 0 free before rest
  | cons c taken ih =>
      rw [List.cons_append, List.length_cons, replaceFrom_skip, ih, getLast?_cons_or]

theorem replaceFrom_eq_self (proper : Proper find) (before : Option Char) (cs : List Char)
    (absent : ∀ before first second, cs = first ++ second → find before second = none) :
    replaceFrom find 0 true before cs = cs := by
  induction cs generalizing before with
  | nil => exact replaceFrom_nil proper 0 true before
  | cons c cs ih =>
      rw [replaceFrom_none (absent before [] (c :: cs) rfl), ih]
      intro before first second split
      exact absent before (c :: first) second (by rw [split, List.cons_append])

theorem replaceAll_eq_self (proper : Proper find) (cs : List Char)
    (absent : ∀ before first second, cs = first ++ second → find before second = none) :
    replaceAll find cs = cs :=
  replaceFrom_eq_self proper none cs absent

/-- A match is replaced, and the walk goes on behind it. -/
theorem replaceFrom_take (proper : Proper find) {before : Option Char} {taken text rest : List Char}
    (occupied : taken ≠ [])
    (found : find before (taken ++ rest) = some ⟨taken.length, text⟩) (free : Bool) :
    replaceFrom find 0 free before (taken ++ rest) =
      text ++ replaceFrom find 0 true (taken.getLast?.or before) rest := by
  cases taken with
  | nil => exact absurd rfl occupied
  | cons c taken =>
      rw [List.cons_append] at found ⊢
      rw [replaceFrom_hit found, replaceFrom_append_skip proper, getLast?_cons_or]

theorem replaceFrom_pass (before : Option Char) (part rest : List Char)
    (quiet : ∀ first c second, part = first ++ c :: second →
      find (first.getLast?.or before) (c :: second ++ rest) = none) :
    replaceFrom find 0 true before (part ++ rest) =
      part ++ replaceFrom find 0 true (part.getLast?.or before) rest := by
  induction part generalizing before with
  | nil => rfl
  | cons c part ih =>
      have here : find before (c :: (part ++ rest)) = none := quiet [] c part rfl
      rw [List.cons_append, replaceFrom_none here, ih, getLast?_cons_or, List.cons_append]
      intro first d second split
      have later := quiet (c :: first) d second (by rw [split, List.cons_append])
      rwa [getLast?_cons_or] at later

theorem replaceFrom_copy (before : Option Char) (part rest : List Char)
    (quiet : ∀ c ∈ part, ∀ before cs, find before (c :: cs) = none) :
    replaceFrom find 0 true before (part ++ rest) =
      part ++ replaceFrom find 0 true (part.getLast?.or before) rest := by
  refine replaceFrom_pass before part rest fun first c second split => ?_
  exact quiet c (by simp [split]) _ _

/-- What is before a mark and what is behind it are replaced separately. -/
theorem replaceFrom_append_mark (proper : Proper find) {mark : Char}
    (stops : StopsBefore mark find) (skip : Nat) (free : Bool) (before : Option Char)
    (first second : List Char) (inside : skip ≤ first.length) :
    replaceFrom find skip free before (first ++ mark :: second) =
      replaceFrom find skip free before first ++
        mark :: replaceFrom find 0 true (some mark) second := by
  induction first generalizing skip free before with
  | nil =>
      have start : skip = 0 := by simpa using inside
      have missed : find before (mark :: second) = none := by
        have same := stops before [] second
        rwa [proper.nil before] at same
      rw [start, List.nil_append, replaceFrom_none missed, replaceFrom_nil proper,
        List.nil_append]
  | cons c first ih =>
      rw [List.cons_append]
      cases skip with
      | succ skip =>
          rw [replaceFrom_skip, replaceFrom_skip]
          exact ih _ _ _ (by simpa using inside)
      | zero =>
          have same := stops before (c :: first) second
          rw [List.cons_append] at same
          rcases proper.cases before (c :: first) with missed | ⟨n, text, found, bound⟩
          · rw [missed] at same
            rw [replaceFrom_none same, replaceFrom_none missed, ih _ _ _ (Nat.zero_le _),
              List.cons_append]
          · rw [found] at same
            rw [replaceFrom_hit same, replaceFrom_hit found, ih _ _ _ (by simpa using bound),
              List.append_assoc]

theorem replaceAll_append_mark (proper : Proper find) {mark : Char}
    (stops : StopsBefore mark find) (first second : List Char) :
    replaceAll find (first ++ mark :: second) =
      replaceAll find first ++ mark :: replaceFrom find 0 true (some mark) second :=
  replaceFrom_append_mark proper stops 0 true none first second (Nat.zero_le _)

/-- What follows a blank is replaced as a text of its own. -/
theorem replaceFrom_after_blank (blanks : PassesBlanks find) (c : Char) (cs : List Char)
    (blank : isBlank c = true) :
    replaceFrom find 0 true (some c) cs = replaceAll find cs := by
  unfold replaceAll
  cases cs with
  | nil => simp only [replaceFrom, blanks.after_blank [] blank]
  | cons d cs => simp only [replaceFrom, blanks.after_blank (d :: cs) blank]

theorem replaceFrom_pass_blank (blanks : PassesBlanks find) (before : Option Char)
    (part second : List Char) {c : Char} (blank : isBlank c = true)
    (quiet : ∀ first e behind, part = first ++ e :: behind →
      find (first.getLast?.or before) (e :: behind ++ c :: second) = none) :
    replaceFrom find 0 true before (part ++ c :: second) = part ++ c :: replaceAll find second := by
  rw [replaceFrom_pass before part (c :: second) quiet,
    replaceFrom_none (blanks.at_blank _ second blank),
    replaceFrom_after_blank blanks c second blank]

end Replace

section Spans

variable {find : Finder}

@[simp] theorem spansFrom_skip (skip : Nat) (before : Option Char) (c : Char) (cs : List Char) :
    spansFrom find (skip + 1) before (c :: cs) = spansFrom find skip (some c) cs := by
  simp only [spansFrom]

theorem spansFrom_none {before : Option Char} {c : Char} {cs : List Char}
    (missed : find before (c :: cs) = none) :
    spansFrom find 0 before (c :: cs) = spansFrom find 0 (some c) cs := by
  simp only [spansFrom, missed]

theorem spansFrom_hit {before : Option Char} {c : Char} {cs text : List Char} {n : Nat}
    (found : find before (c :: cs) = some ⟨n + 1, text⟩) :
    spansFrom find 0 before (c :: cs) =
      (c :: cs).take (n + 1) :: spansFrom find n (some c) cs := by
  simp only [spansFrom, found]

theorem spansFrom_append_skip (before : Option Char) (taken rest : List Char) :
    spansFrom find taken.length before (taken ++ rest) =
      spansFrom find 0 (taken.getLast?.or before) rest := by
  induction taken generalizing before with
  | nil => rfl
  | cons c taken ih =>
      rw [List.cons_append, List.length_cons, spansFrom_skip, ih, getLast?_cons_or]

theorem spansFrom_take {before : Option Char} {taken text rest : List Char}
    (occupied : taken ≠ [])
    (found : find before (taken ++ rest) = some ⟨taken.length, text⟩) :
    spansFrom find 0 before (taken ++ rest) =
      taken :: spansFrom find 0 (taken.getLast?.or before) rest := by
  cases taken with
  | nil => exact absurd rfl occupied
  | cons c taken =>
      have whole : (c :: (taken ++ rest)).take (taken.length + 1) = c :: taken := by simp
      rw [List.cons_append] at found ⊢
      rw [spansFrom_hit found, spansFrom_append_skip, getLast?_cons_or, whole]

theorem spansFrom_pass (before : Option Char) (part rest : List Char)
    (quiet : ∀ first c second, part = first ++ c :: second →
      find (first.getLast?.or before) (c :: second ++ rest) = none) :
    spansFrom find 0 before (part ++ rest) =
      spansFrom find 0 (part.getLast?.or before) rest := by
  induction part generalizing before with
  | nil => rfl
  | cons c part ih =>
      have here : find before (c :: (part ++ rest)) = none := quiet [] c part rfl
      rw [List.cons_append, spansFrom_none here, ih, getLast?_cons_or]
      intro first d second split
      have later := quiet (c :: first) d second (by rw [split, List.cons_append])
      rwa [getLast?_cons_or] at later

theorem spansFrom_gap (passes : PassesBlanks find) (before : Option Char) {gap : List Char}
    (blank : ∀ c ∈ gap, isBlank c = true) (rest : List Char) :
    spansFrom find 0 before (gap ++ rest) = spansFrom find 0 (gap.getLast?.or before) rest := by
  refine spansFrom_pass before gap rest fun first c second split => ?_
  have here : c ∈ gap := by
    rw [split]
    simp
  exact passes.at_blank _ _ (blank c here)

theorem spansFrom_append_mark (proper : Proper find) {mark : Char}
    (stops : StopsBehind mark find) (skip : Nat) (before : Option Char)
    (first second : List Char) (inside : skip ≤ first.length + 1) :
    spansFrom find skip before (first ++ mark :: second) =
      spansFrom find skip before (first ++ [mark]) ++ spansFrom find 0 (some mark) second := by
  induction first generalizing skip before with
  | nil =>
      rw [List.nil_append, List.nil_append]
      cases skip with
      | succ skip =>
          have one : skip = 0 := by simpa using inside
          rw [one, spansFrom_skip, spansFrom_skip]
          rfl
      | zero =>
          have same := stops before [] second
          rw [List.nil_append, List.nil_append] at same
          rcases proper.cases before [mark] with missed | ⟨n, text, found, bound⟩
          · rw [missed] at same
            rw [spansFrom_none same, spansFrom_none missed]
            rfl
          · have one : n = 0 := by simpa using bound
            subst one
            rw [found] at same
            rw [spansFrom_hit same, spansFrom_hit found]
            rfl
  | cons c first ih =>
      rw [List.cons_append, List.cons_append]
      cases skip with
      | succ skip =>
          rw [spansFrom_skip, spansFrom_skip]
          exact ih _ _ (by simpa using inside)
      | zero =>
          have same := stops before (c :: first) second
          rw [List.cons_append, List.cons_append] at same
          rcases proper.cases before (c :: (first ++ [mark])) with missed | ⟨n, text, found, bound⟩
          · rw [missed] at same
            rw [spansFrom_none same, spansFrom_none missed, ih _ _ (Nat.zero_le _)]
          · rw [found] at same
            have reach : n ≤ first.length + 1 := by simpa using bound
            have taken : (c :: (first ++ mark :: second)).take (n + 1) =
                (c :: (first ++ [mark])).take (n + 1) := by
              rw [show first ++ mark :: second = first ++ [mark] ++ second by simp,
                List.take_succ_cons, List.take_succ_cons,
                List.take_append_of_le_length (by simpa using reach)]
            rw [spansFrom_hit same, spansFrom_hit found, ih _ _ reach, taken, List.cons_append]

theorem infix_of_mem_spansFrom {skip : Nat} {before : Option Char} {part cs : List Char}
    (member : part ∈ spansFrom find skip before cs) : part <:+: cs := by
  induction cs generalizing skip before with
  | nil => cases member
  | cons c cs ih =>
      cases skip with
      | succ skip => exact List.infix_cons (ih member)
      | zero =>
          simp only [spansFrom] at member
          split at member
          · rcases List.mem_cons.mp member with rfl | later
            · exact (List.take_prefix _ _).isInfix
            · exact List.infix_cons (ih later)
          · exact List.infix_cons (ih member)

theorem spansFrom_after_blank (blanks : PassesBlanks find) (c : Char) (cs : List Char)
    (blank : isBlank c = true) : spansFrom find 0 (some c) cs = spans find cs := by
  unfold spans
  cases cs with
  | nil => rfl
  | cons d cs => simp only [spansFrom, blanks.after_blank (d :: cs) blank]

end Spans

section Literals

theorem span_append {p : Char → Bool} {run rest : List Char} (all : ∀ c ∈ run, p c = true)
    (ends : ∀ c ∈ rest.head?, p c = false) :
    (run ++ rest).takeWhile p = run ∧ (run ++ rest).dropWhile p = rest := by
  have stopped : rest.takeWhile p = [] ∧ rest.dropWhile p = rest := by
    cases rest with
    | nil => exact ⟨rfl, rfl⟩
    | cons c rest =>
        have other := ends c rfl
        simp [other]
  rw [List.takeWhile_append_of_pos all, List.dropWhile_append_of_pos all, stopped.1, stopped.2,
    List.append_nil]
  exact ⟨rfl, rfl⟩

theorem eq_append_of_afterLiteral {literal cs rest : List Char}
    (found : afterLiteral literal cs = some rest) : cs = literal ++ rest := by
  induction literal generalizing cs with
  | nil => simpa [afterLiteral] using found
  | cons p ps ih =>
      cases cs with
      | nil => simp [afterLiteral] at found
      | cons c cs =>
          by_cases same : p = c
          · simp only [afterLiteral, same, ↓reduceIte] at found
            rw [same, ih found, List.cons_append]
          · simp [afterLiteral, same] at found

@[simp] theorem afterLiteral_append (literal rest : List Char) :
    afterLiteral literal (literal ++ rest) = some rest := by
  induction literal with
  | nil => rfl
  | cons p ps ih => simp [afterLiteral, ih]

theorem afterLiteral_append_mark (literal first second : List Char) {mark : Char}
    (free : mark ∉ literal) :
    afterLiteral literal (first ++ mark :: second) =
      (afterLiteral literal first).map (· ++ mark :: second) := by
  induction literal generalizing first with
  | nil => simp [afterLiteral]
  | cons p ps ih =>
      have differs : p ≠ mark := fun same => free (by simp [same])
      cases first with
      | nil => simp [afterLiteral, differs]
      | cons c cs =>
          by_cases same : p = c
          · simp only [List.cons_append, afterLiteral, same, ↓reduceIte]
            exact ih cs fun member => free (List.mem_cons_of_mem p member)
          · simp [afterLiteral, same]

theorem dropBlanks_append_mark (first second : List Char) {mark : Char}
    (visible : isBlank mark = false) :
    dropBlanks (first ++ mark :: second) = dropBlanks first ++ mark :: second := by
  unfold dropBlanks
  rw [List.dropWhile_append]
  split
  · rename_i empty
    rw [List.isEmpty_iff.mp empty]
    simp [visible]
  · rfl

theorem afterTokens_append_mark (tokens : List (List Char)) (first second : List Char)
    {mark : Char} (visible : isBlank mark = false) (free : ∀ token ∈ tokens, mark ∉ token) :
    afterTokens tokens (first ++ mark :: second) =
      (afterTokens tokens first).map (· ++ mark :: second) := by
  induction tokens generalizing first with
  | nil => simp [afterTokens]
  | cons token tokens ih =>
      simp only [afterTokens, dropBlanks_append_mark first second visible,
        afterLiteral_append_mark token _ second (free token (by simp))]
      cases afterLiteral token (dropBlanks first) with
      | none => rfl
      | some rest =>
          exact ih rest fun other member => free other (List.mem_cons_of_mem token member)

theorem length_of_afterLiteral {literal cs rest : List Char}
    (found : afterLiteral literal cs = some rest) :
    cs.length = literal.length + rest.length := by
  rw [eq_append_of_afterLiteral found, List.length_append]

theorem length_of_afterTokens {tokens : List (List Char)} {cs rest : List Char}
    (found : afterTokens tokens cs = some rest) : rest.length ≤ cs.length := by
  induction tokens generalizing cs with
  | nil => simp_all [afterTokens]
  | cons token tokens ih =>
      simp only [afterTokens, Option.bind_eq_some_iff] at found
      obtain ⟨next, here, later⟩ := found
      have dropped := length_dropBlanks_le cs
      have taken := length_of_afterLiteral here
      have left := ih later
      omega

end Literals

end HeaderBindings.Text
