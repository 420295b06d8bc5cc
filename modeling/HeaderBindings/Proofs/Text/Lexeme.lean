import HeaderBindings.Proofs.Text.Token

/-!
Lexemes of a text: what is left if it is cut at its blanks, and before and behind each separator.
Two texts with the same lexemes differ only in blanks that separate nothing.
-/

set_option autoImplicit false

namespace HeaderBindings.Text

/-- The characters that are lexemes of their own. -/
def separators : List Char := ['(', ')', ',', ';']

/-- Whether a lexeme can go on with the character. -/
def isInner (c : Char) : Bool := !isBlank c && !separators.contains c

def spaceSeparators (cs : List Char) : List Char :=
  cs.flatMap fun c => if separators.contains c then [' ', c, ' '] else [c]

/-- The separators of a text and the runs of characters between them and the blanks. -/
def lexemes (cs : List Char) : List (List Char) := words (spaceSeparators cs)

/-- Whether a lexeme that came before the text would go on with it. -/
def goesOn (cs : List Char) : Bool := cs.head?.any isInner

theorem isBlank_of_isInner {c : Char} (inner : isInner c = true) : isBlank c = false := by
  rw [isInner, Bool.and_eq_true, Bool.not_eq_true'] at inner
  exact inner.1

theorem not_mem_of_isInner {c : Char} (inner : isInner c = true) : c ∉ separators := by
  rw [isInner, Bool.and_eq_true, Bool.not_eq_true', Bool.not_eq_true'] at inner
  intro known
  rw [List.contains_iff_mem.mpr known] at inner
  cases inner.2

theorem isBlank_of_mem_separators {c : Char} (known : c ∈ separators) : isBlank c = false :=
  forall_mem_of_all (by decide) c known

theorem isInner_of_mem_separators {c : Char} (known : c ∈ separators) : isInner c = false := by
  cases inner : isInner c with
  | false => rfl
  | true => exact absurd known (not_mem_of_isInner inner)

theorem isInner_of_isBlank {c : Char} (blank : isBlank c = true) : isInner c = false := by
  simp [isInner, blank]

theorem isInner_of_isWord {c : Char} (word : isWord c = true) : isInner c = true := by
  have visible := isBlank_of_isWord word
  have other : c ∉ separators := by
    intro known
    rw [show isWord c = false from forall_mem_of_all (by decide) c known] at word
    cases word
  simp [isInner, visible, other]

theorem of_isInner_false {c : Char} (outer : isInner c = false) :
    isBlank c = true ∨ c ∈ separators := by
  cases blank : isBlank c with
  | true => exact .inl rfl
  | false => simpa [isInner, blank] using outer

theorem goesOn_cons (c : Char) (cs : List Char) : goesOn (c :: cs) = isInner c := by simp [goesOn]

theorem spaceSeparators_append (first second : List Char) :
    spaceSeparators (first ++ second) = spaceSeparators first ++ spaceSeparators second :=
  List.flatMap_append

theorem spaceSeparators_other {c : Char} (other : c ∉ separators) (cs : List Char) :
    spaceSeparators (c :: cs) = c :: spaceSeparators cs := by
  simp [spaceSeparators, other]

theorem spaceSeparators_separator {c : Char} (known : c ∈ separators) (cs : List Char) :
    spaceSeparators (c :: cs) = ' ' :: c :: ' ' :: spaceSeparators cs := by
  simp [spaceSeparators, known]

theorem not_mem_of_isBlank {c : Char} (blank : isBlank c = true) : c ∉ separators := by
  intro known
  rw [isBlank_of_mem_separators known] at blank
  cases blank

/-! How a text begins -/

@[simp] theorem lexemes_nil : lexemes [] = [] := rfl

theorem lexemes_blank {c : Char} (blank : isBlank c = true) (cs : List Char) :
    lexemes (c :: cs) = lexemes cs := by
  rw [lexemes, spaceSeparators_other (not_mem_of_isBlank blank), words_blank _ blank]
  rfl

theorem lexemes_separator {c : Char} (known : c ∈ separators) (cs : List Char) :
    lexemes (c :: cs) = [c] :: lexemes cs := by
  have space : isBlank ' ' = true := by decide
  have visible := isBlank_of_mem_separators known
  rw [lexemes, spaceSeparators_separator known, words_blank _ space,
    words_end visible (by simpa using space), words_blank _ space]
  rfl

theorem goesOn_spaceSeparators (cs : List Char) :
    (∀ d ∈ (spaceSeparators cs).head?, isBlank d = true) ↔ goesOn cs = false := by
  cases cs with
  | nil => simp [spaceSeparators, goesOn]
  | cons c cs =>
      by_cases known : c ∈ separators
      · rw [spaceSeparators_separator known, goesOn_cons, isInner_of_mem_separators known]
        simpa using (by decide : isBlank ' ' = true)
      · rw [spaceSeparators_other known, goesOn_cons]
        cases blank : isBlank c <;> simp [isInner, blank, known]

theorem lexemes_single {c : Char} {cs : List Char} (inner : isInner c = true)
    (ends : goesOn cs = false) : lexemes (c :: cs) = [c] :: lexemes cs := by
  rw [lexemes, spaceSeparators_other (not_mem_of_isInner inner)]
  exact words_end (isBlank_of_isInner inner) ((goesOn_spaceSeparators cs).mpr ends)

theorem lexemes_extend {c : Char} {cs : List Char} (inner : isInner c = true)
    (more : goesOn cs = true) :
    ∃ w ws, w ≠ [] ∧ lexemes cs = w :: ws ∧ lexemes (c :: cs) = (c :: w) :: ws := by
  have visible := isBlank_of_isInner inner
  rcases words_cons_cases (spaceSeparators cs) visible with ⟨_, ends⟩ | ⟨d, tail, w, ws, _, _, rest,
    longer⟩
  · rw [(goesOn_spaceSeparators cs).mp ends] at more
    cases more
  · have filled : w ≠ [] := words_occupied (by rw [rest]; simp)
    refine ⟨w, ws, filled, rest, ?_⟩
    rw [lexemes, spaceSeparators_other (not_mem_of_isInner inner)]
    exact longer

theorem lexemes_gap {gap : List Char} (blanks : ∀ c ∈ gap, isBlank c = true) (rest : List Char) :
    lexemes (gap ++ rest) = lexemes rest := by
  induction gap with
  | nil => rfl
  | cons c gap ih =>
      rw [List.cons_append, lexemes_blank (blanks c (by simp)),
        ih fun d member => blanks d (List.mem_cons_of_mem c member)]

theorem lexemes_dropBlanks (cs : List Char) : lexemes (dropBlanks cs) = lexemes cs := by
  obtain ⟨gap, blanks, split⟩ := exists_gap cs
  exact (lexemes_gap blanks _).symm.trans (congrArg lexemes split.symm)

theorem lexemes_append_blank (first second : List Char) {c : Char} (blank : isBlank c = true) :
    lexemes (first ++ c :: second) = lexemes first ++ lexemes second := by
  rw [lexemes, spaceSeparators_append, spaceSeparators_other (not_mem_of_isBlank blank),
    words_append_blank _ _ blank]
  rfl

theorem lexemes_append_separator (first second : List Char) {c : Char} (known : c ∈ separators) :
    lexemes (first ++ c :: second) = lexemes first ++ [c] :: lexemes second := by
  have space : isBlank ' ' = true := by decide
  have visible := isBlank_of_mem_separators known
  rw [lexemes, spaceSeparators_append, spaceSeparators_separator known,
    words_append_blank _ _ space, words_end visible (by simpa using space), words_blank _ space]
  rfl

theorem lexemes_free {cs : List Char} (free : ∀ c ∈ cs, c ∉ separators) :
    lexemes cs = words cs := by
  have kept : spaceSeparators cs = cs := by
    induction cs with
    | nil => rfl
    | cons c cs ih =>
        rw [spaceSeparators_other (free c (by simp)),
          ih fun d member => free d (List.mem_cons_of_mem c member)]
  rw [lexemes, kept]

theorem lexemes_joinWords (cs : List Char) : lexemes (joinWords (words cs)) = lexemes cs := by
  have kept (c : Char) (blank : isBlank c = true) :
      ∃ d, isBlank d = true ∧ (if separators.contains c then [' ', c, ' '] else [c]) = [d] :=
    ⟨c, blank, by simp [not_mem_of_isBlank blank]⟩
  rw [lexemes, lexemes, spaceSeparators, spaceSeparators, words_flatMap_joinWords kept,
    words_flatMap kept]

/-- A visible character is part of the first lexeme, and the others are those of what follows. -/
theorem lexemes_visible {c : Char} (visible : isBlank c = false) (cs : List Char) :
    (lexemes (c :: cs) = [c] :: lexemes cs ∧ (isInner c = true → goesOn cs = false)) ∨
      isInner c = true ∧ goesOn cs = true ∧
        ∃ w ws, w ≠ [] ∧ lexemes cs = w :: ws ∧ lexemes (c :: cs) = (c :: w) :: ws := by
  cases inner : isInner c with
  | false =>
      rcases of_isInner_false inner with blank | known
      · rw [blank] at visible
        cases visible
      · exact .inl ⟨lexemes_separator known cs, nofun⟩
  | true =>
      cases more : goesOn cs with
      | false => exact .inl ⟨lexemes_single inner more, fun _ => rfl⟩
      | true => exact .inr ⟨rfl, rfl, lexemes_extend inner more⟩

theorem lexemes_ne_nil {c : Char} (visible : isBlank c = false) (cs : List Char) :
    lexemes (c :: cs) ≠ [] := by
  rcases lexemes_visible visible cs with ⟨single, _⟩ | ⟨_, _, w, ws, _, _, longer⟩
  · simp [single]
  · simp [longer]

theorem lexemes_cons_inj {c d : Char} {cs ds : List Char} (visible : isBlank c = false)
    (visible' : isBlank d = false) (same : lexemes (c :: cs) = lexemes (d :: ds)) :
    c = d ∧ lexemes cs = lexemes ds ∧ (isInner c = true → goesOn cs = goesOn ds) := by
  rcases lexemes_visible visible cs with ⟨single, ends⟩ | ⟨inner, more, w, ws, filled, rest, longer⟩
  · rcases lexemes_visible visible' ds with ⟨single', ends'⟩ | ⟨_, _, v, vs, filled', _, longer'⟩
    · rw [single, single', List.cons.injEq, List.cons.injEq] at same
      obtain ⟨⟨rfl, _⟩, later⟩ := same
      exact ⟨rfl, later, fun inner => (ends inner).trans (ends' inner).symm⟩
    · rw [single, longer', List.cons.injEq, List.cons.injEq] at same
      exact absurd same.1.2.symm filled'
  · rcases lexemes_visible visible' ds with ⟨single', _⟩ | ⟨_, more', v, vs, _, rest', longer'⟩
    · rw [longer, single', List.cons.injEq, List.cons.injEq] at same
      exact absurd same.1.2 filled
    · rw [longer, longer', List.cons.injEq, List.cons.injEq] at same
      obtain ⟨⟨rfl, rfl⟩, rfl⟩ := same
      exact ⟨rfl, rest.trans rest'.symm, fun _ => more.trans more'.symm⟩

/-! Texts with the same lexemes -/

def SameLexemes (cs ds : List Char) : Prop := lexemes cs = lexemes ds

/-- The lexemes are the same, and so is whether one that came before would go on. -/
structure Alike (cs ds : List Char) : Prop where
  same : SameLexemes cs ds
  next : goesOn cs = goesOn ds

/-- Behind the blanks at the start, the same character comes first. -/
theorem SameLexemes.cases {cs ds : List Char} (same : SameLexemes cs ds) :
    (dropBlanks cs = [] ∧ dropBlanks ds = []) ∨
      ∃ c r s, dropBlanks cs = c :: r ∧ dropBlanks ds = c :: s ∧ isBlank c = false ∧
        SameLexemes r s ∧ (isInner c = true → Alike r s) := by
  have first {cs r : List Char} {c : Char} (shape : dropBlanks cs = c :: r) :
      isBlank c = false := by
    have stops := List.head?_dropWhile_not isBlank cs
    rw [show cs.dropWhile isBlank = c :: r from shape] at stops
    simpa using stops
  unfold SameLexemes at same
  rw [← lexemes_dropBlanks cs, ← lexemes_dropBlanks ds] at same
  cases left : dropBlanks cs with
  | nil =>
      cases right : dropBlanks ds with
      | nil => exact .inl ⟨rfl, rfl⟩
      | cons d s =>
          rw [left, right] at same
          exact absurd same.symm (lexemes_ne_nil (first right) s)
  | cons c r =>
      cases right : dropBlanks ds with
      | nil =>
          rw [left, right] at same
          exact absurd same (lexemes_ne_nil (first left) r)
      | cons d s =>
          rw [left, right] at same
          obtain ⟨rfl, later, more⟩ := lexemes_cons_inj (first left) (first right) same
          exact .inr ⟨c, r, s, rfl, rfl, first left, later, fun inner => ⟨later, more inner⟩⟩

theorem Alike.cases {cs ds : List Char} (alike : Alike cs ds) :
    (goesOn cs = false ∧ goesOn ds = false) ∨
      ∃ c r s, cs = c :: r ∧ ds = c :: s ∧ isInner c = true ∧ Alike r s := by
  cases more : goesOn cs with
  | false => exact .inl ⟨rfl, alike.next.symm.trans more⟩
  | true =>
      have more' : goesOn ds = true := alike.next.symm.trans more
      cases cs with
      | nil => cases more
      | cons c r =>
          cases ds with
          | nil => cases more'
          | cons d s =>
              rw [goesOn_cons] at more more'
              obtain ⟨rfl, later, next⟩ := lexemes_cons_inj (isBlank_of_isInner more)
                (isBlank_of_isInner more') alike.same
              exact .inr ⟨c, r, s, rfl, rfl, more, later, next more⟩

theorem alike_dropBlanks {cs ds : List Char} (same : SameLexemes cs ds) :
    Alike (dropBlanks cs) (dropBlanks ds) := by
  refine ⟨?_, ?_⟩
  · unfold SameLexemes
    rw [lexemes_dropBlanks, lexemes_dropBlanks, same]
  · rcases same.cases with ⟨left, right⟩ | ⟨c, r, s, left, right, _⟩
    · rw [left, right]
    · rw [left, right, goesOn_cons, goesOn_cons]

theorem Alike.cons {cs ds : List Char} (alike : Alike cs ds) (c : Char) :
    Alike (c :: cs) (c :: ds) := by
  refine ⟨?_, rfl⟩
  unfold SameLexemes
  cases inner : isInner c with
  | false =>
      rcases of_isInner_false inner with blank | known
      · rw [lexemes_blank blank, lexemes_blank blank, alike.same]
      · rw [lexemes_separator known, lexemes_separator known, alike.same]
  | true =>
      cases more : goesOn cs with
      | false =>
          rw [lexemes_single inner more, lexemes_single inner (alike.next.symm.trans more),
            alike.same]
      | true =>
          obtain ⟨w, ws, _, rest, longer⟩ := lexemes_extend inner more
          obtain ⟨v, vs, _, rest', longer'⟩ := lexemes_extend inner (alike.next.symm.trans more)
          have same := rest.symm.trans (alike.same.trans rest')
          rw [List.cons.injEq] at same
          rw [longer, longer', same.1, same.2]

theorem Alike.append {cs ds : List Char} (alike : Alike cs ds) (front : List Char) :
    Alike (front ++ cs) (front ++ ds) := by
  induction front with
  | nil => exact alike
  | cons c front ih => exact ih.cons c

/-- The text ends in a character that no lexeme goes on with, so what follows it is on its own. -/
def Ended (cs : List Char) : Prop := ∃ start c, cs = start ++ [c] ∧ isInner c = false

theorem lexemes_ended {cs : List Char} (ended : Ended cs) (rest : List Char) :
    lexemes (cs ++ rest) = lexemes cs ++ lexemes rest := by
  obtain ⟨start, c, rfl, outer⟩ := ended
  rw [List.append_assoc, List.singleton_append]
  rcases of_isInner_false outer with blank | known
  · rw [lexemes_append_blank start rest blank, lexemes_append_blank start [] blank, lexemes_nil,
      List.append_nil]
  · rw [lexemes_append_separator start rest known, lexemes_append_separator start [] known,
      lexemes_nil, List.append_assoc, List.singleton_append]

theorem isWordAt_ended {cs : List Char} (ended : Ended cs) (before : Option Char) :
    isWordAt (cs.getLast?.or before) = false := by
  obtain ⟨start, c, rfl, outer⟩ := ended
  rw [List.getLast?_concat, Option.some_or]
  show isWord c = false
  cases word : isWord c with
  | false => rfl
  | true =>
      rw [isInner_of_isWord word] at outer
      cases outer

/-- Behind two texts that are on their own, others that have the same lexemes. -/
theorem Alike.ended {cs ds r s : List Char} (alike : Alike cs ds) (ended : Ended cs)
    (ended' : Ended ds) (same : SameLexemes r s) : Alike (cs ++ r) (ds ++ s) := by
  refine ⟨?_, ?_⟩
  · unfold SameLexemes
    rw [lexemes_ended ended, lexemes_ended ended', alike.same, same]
  · have heads := alike.next
    obtain ⟨start, c, rfl, _⟩ := ended
    obtain ⟨start', c', rfl, _⟩ := ended'
    cases start <;> cases start' <;> exact heads

theorem Alike.isWordAt_head {cs ds : List Char} (alike : Alike cs ds) :
    isWordAt cs.head? = isWordAt ds.head? := by
  have plain {cs : List Char} (ends : goesOn cs = false) : isWordAt cs.head? = false := by
    cases cs with
    | nil => rfl
    | cons c cs =>
        show isWord c = false
        cases word : isWord c with
        | false => rfl
        | true =>
            rw [goesOn_cons, isInner_of_isWord word] at ends
            cases ends
  rcases alike.cases with ⟨left, right⟩ | ⟨c, r, s, rfl, rfl, _⟩
  · rw [plain left, plain right]
  · rfl

theorem mem_lexemes {c : Char} (visible : isBlank c = false) (cs : List Char) :
    c ∈ cs ↔ ∃ w ∈ lexemes cs, c ∈ w := by
  induction cs with
  | nil => simp
  | cons d cs ih =>
      rw [List.mem_cons, ih]
      cases shown : isBlank d with
      | true =>
          have other : c ≠ d := (ne_of_isBlank shown visible).symm
          simp [lexemes_blank shown, other]
      | false =>
          rcases lexemes_visible shown cs with ⟨single, _⟩ | ⟨_, _, w, ws, _, rest, longer⟩
          · simp [single]
          · simp [longer, rest, or_assoc]

theorem SameLexemes.mem {cs ds : List Char} (same : SameLexemes cs ds) {c : Char}
    (visible : isBlank c = false) : c ∈ cs ↔ c ∈ ds := by
  rw [mem_lexemes visible, mem_lexemes visible, show lexemes cs = lexemes ds from same]

theorem SameLexemes.free {cs ds : List Char} (same : SameLexemes cs ds)
    (free : ∀ c ∈ cs, c ∉ separators) : ∀ c ∈ ds, c ∉ separators :=
  fun c member known =>
    free c ((same.mem (isBlank_of_mem_separators known)).mpr member) known

theorem SameLexemes.words {cs ds : List Char} (same : SameLexemes cs ds)
    (free : ∀ c ∈ cs, c ∉ separators) : Text.words cs = Text.words ds := by
  rw [← lexemes_free free, ← lexemes_free (same.free free)]
  exact same

/-- What holds of all characters of a text holds of those of the other, if it holds of blanks. -/
theorem SameLexemes.all {cs ds : List Char} (same : SameLexemes cs ds) {p : Char → Bool}
    (ofBlank : ∀ c, isBlank c = true → p c = true) (all : ∀ c ∈ cs, p c = true) :
    ∀ c ∈ ds, p c = true := by
  intro c member
  cases blank : isBlank c with
  | true => exact ofBlank c blank
  | false => exact all c ((same.mem blank).mpr member)

theorem SameLexemes.blanks {cs ds : List Char} (same : SameLexemes cs ds)
    (blanks : ∀ c ∈ cs, isBlank c = true) : ∀ c ∈ ds, isBlank c = true :=
  same.all (fun _ => id) blanks

theorem Alike.run {run gap ds : List Char} (inner : ∀ c ∈ run, isInner c = true)
    (blanks : ∀ c ∈ gap, isBlank c = true) (alike : Alike (run ++ gap) ds) :
    ∃ gap', (∀ c ∈ gap', isBlank c = true) ∧ ds = run ++ gap' := by
  induction run generalizing ds with
  | nil => exact ⟨ds, alike.same.blanks blanks, rfl⟩
  | cons c run ih =>
      rcases alike.cases with ⟨left, _⟩ | ⟨_, r, s, same, rfl, _, rest⟩
      · rw [List.cons_append, goesOn_cons, inner c (by simp)] at left
        cases left
      · obtain ⟨rfl, rfl⟩ := List.cons.inj same
        obtain ⟨gap', blanks', rfl⟩ :=
          ih (fun d member => inner d (List.mem_cons_of_mem c member)) rest
        exact ⟨gap', blanks', rfl⟩

theorem SameLexemes.run {before run after ds : List Char} (occupied : run ≠ [])
    (inner : ∀ c ∈ run, isInner c = true) (blanks : ∀ c ∈ before, isBlank c = true)
    (blanks' : ∀ c ∈ after, isBlank c = true) (same : SameLexemes (before ++ (run ++ after)) ds) :
    ∃ before' after', (∀ c ∈ before', isBlank c = true) ∧ (∀ c ∈ after', isBlank c = true) ∧
      ds = before' ++ (run ++ after') := by
  have alike := alike_dropBlanks same
  have front : dropBlanks (before ++ (run ++ after)) = run ++ after := by
    obtain ⟨c, own, rfl⟩ := List.exists_cons_of_ne_nil occupied
    rw [dropBlanks_gap blanks]
    exact dropBlanks_visible _ (isBlank_of_isInner (inner c (by simp)))
  rw [front] at alike
  obtain ⟨after', behind, rest⟩ := alike.run inner blanks'
  obtain ⟨before', gap, split⟩ := exists_gap ds
  rw [rest] at split
  exact ⟨before', after', gap, behind, split⟩

theorem SameLexemes.run_front {run after ds rest : List Char} (occupied : run ≠ [])
    (inner : ∀ c ∈ run, isInner c = true) (blanks : ∀ c ∈ after, isBlank c = true)
    (same : SameLexemes (run ++ after) ds) (begun : run <+: ds ++ rest) :
    ∃ after', (∀ c ∈ after', isBlank c = true) ∧ ds = run ++ after' := by
  obtain ⟨before, after', blanks', behind, rfl⟩ :=
    @SameLexemes.run [] run after ds occupied inner (by simp) blanks same
  cases before with
  | nil => exact ⟨after', behind, rfl⟩
  | cons c before =>
      obtain ⟨d, own, rfl⟩ := List.exists_cons_of_ne_nil occupied
      obtain ⟨rfl, _⟩ := List.cons_prefix_cons.mp begun
      have visible := isBlank_of_isInner (inner d (by simp))
      rw [blanks' d (by simp)] at visible
      cases visible

theorem singleton_mem_lexemes {c : Char} (known : c ∈ separators) (cs : List Char) :
    [c] ∈ lexemes cs ↔ c ∈ cs := by
  constructor
  · intro member
    exact (mem_lexemes (isBlank_of_mem_separators known) cs).mpr ⟨[c], member, by simp⟩
  · intro member
    obtain ⟨first, second, rfl⟩ := List.append_of_mem member
    rw [lexemes_append_separator first second known]
    simp

/-- The first place of a separator cuts texts with the same lexemes in the same way. -/
theorem SameLexemes.cut {first second ds : List Char} {c : Char} (known : c ∈ separators)
    (free : c ∉ first) (same : SameLexemes (first ++ c :: second) ds) :
    ∃ first' second', ds = first' ++ c :: second' ∧ c ∉ first' ∧ SameLexemes first first' ∧
      SameLexemes second second' := by
  have member : c ∈ ds := (same.mem (isBlank_of_mem_separators known)).mp (by simp)
  obtain ⟨first', second', rfl, free'⟩ := List.eq_append_cons_of_mem member
  unfold SameLexemes at same
  rw [lexemes_append_separator _ _ known, lexemes_append_separator _ _ known] at same
  have parts := eq_of_append_mark (fun within => free ((singleton_mem_lexemes known _).mp within))
    (fun within => free' ((singleton_mem_lexemes known _).mp within)) same
  exact ⟨first', second', rfl, free', parts.1, parts.2⟩

/-! Scanning texts with the same lexemes -/

theorem rel_bind {α β : Type} {R : α → α → Prop} {S : β → β → Prop} {x y : Option α}
    (first : Option.Rel R x y) {f g : α → Option β}
    (next : ∀ a b, R a b → Option.Rel S (f a) (g b)) : Option.Rel S (x.bind f) (y.bind g) := by
  cases first with
  | some related => exact next _ _ related
  | none => exact .none

theorem afterLiteral_inner {literal : List Char} (inner : ∀ c ∈ literal, isInner c = true)
    {cs ds : List Char} (alike : Alike cs ds) :
    Option.Rel Alike (afterLiteral literal cs) (afterLiteral literal ds) := by
  induction literal generalizing cs ds with
  | nil => exact .some alike
  | cons p ps ih =>
      have missed {cs : List Char} (ends : goesOn cs = false) :
          afterLiteral (p :: ps) cs = none := by
        cases cs with
        | nil => rfl
        | cons c cs =>
            have other : p ≠ c := by
              rintro rfl
              rw [goesOn_cons, inner p (by simp)] at ends
              cases ends
            simp [afterLiteral, other]
      rcases alike.cases with ⟨left, right⟩ | ⟨c, r, s, rfl, rfl, _, rest⟩
      · rw [missed left, missed right]
        exact .none
      · by_cases here : p = c
        · simp only [afterLiteral, here, ↓reduceIte]
          exact ih (fun d member => inner d (List.mem_cons_of_mem p member)) rest
        · simp only [afterLiteral, here, ↓reduceIte]
          exact .none

theorem afterLiteral_single (c : Char) {cs ds : List Char} (same : SameLexemes cs ds) :
    Option.Rel SameLexemes (afterLiteral [c] (dropBlanks cs))
      (afterLiteral [c] (dropBlanks ds)) := by
  rcases same.cases with ⟨left, right⟩ | ⟨d, r, s, left, right, _, rest, _⟩
  · rw [left, right]
    exact .none
  · rw [left, right]
    by_cases here : c = d
    · simp only [afterLiteral, here, ↓reduceIte]
      exact .some rest
    · simp only [afterLiteral, here, ↓reduceIte]
      exact .none

/-- A literal that is one character, or has no blank and no separator. -/
def IsToken (literal : List Char) : Prop :=
  (∀ c ∈ literal, isInner c = true) ∨ ∃ c, literal = [c]

theorem isToken_single (c : Char) : ∀ token ∈ [[c]], IsToken token :=
  fun _ member => .inr ⟨c, List.mem_singleton.mp member⟩

theorem afterTokens_lexemes {tokens : List (List Char)} (each : ∀ token ∈ tokens, IsToken token)
    {cs ds : List Char} (same : SameLexemes cs ds) :
    Option.Rel SameLexemes (afterTokens tokens cs) (afterTokens tokens ds) := by
  induction tokens generalizing cs ds with
  | nil => exact .some same
  | cons token tokens ih =>
      have later := fun (cs ds : List Char) (same : SameLexemes cs ds) =>
        ih (fun other member => each other (List.mem_cons_of_mem token member)) same
      rcases each token (by simp) with inner | ⟨c, rfl⟩
      · exact rel_bind (afterLiteral_inner inner (alike_dropBlanks same))
          fun _ _ alike => later _ _ alike.same
      · exact rel_bind (afterLiteral_single c same) later

theorem exists_of_afterTokens {tokens : List (List Char)} {c : Char}
    (last : tokens.getLast? = some [c]) {cs rest : List Char}
    (found : afterTokens tokens cs = some rest) : ∃ front, cs = front ++ c :: rest := by
  induction tokens generalizing cs with
  | nil => cases last
  | cons token tokens ih =>
      simp only [afterTokens, Option.bind_eq_some_iff] at found
      obtain ⟨next, here, later⟩ := found
      obtain ⟨gap, _, split⟩ := exists_gap cs
      rw [eq_append_of_afterLiteral here] at split
      cases tokens with
      | nil =>
          cases last
          cases later
          exact ⟨gap, split⟩
      | cons token' tokens =>
          obtain ⟨front, behind⟩ := ih (by simpa using last) later
          exact ⟨gap ++ token ++ front, by rw [split, behind]; simp⟩

theorem Alike.dropWhile_isWord {cs ds : List Char} (alike : Alike cs ds) :
    Alike (cs.dropWhile isWord) (ds.dropWhile isWord) := by
  induction cs generalizing ds with
  | nil =>
      have plain := alike.isWordAt_head
      cases ds with
      | nil => exact alike
      | cons d ds =>
          have noWord : isWord d = false := plain.symm
          rwa [List.dropWhile_cons_of_neg (by simp [noWord])]
  | cons c cs ih =>
      cases word : isWord c with
      | true =>
          rcases alike.cases with ⟨left, _⟩ | ⟨_, r, s, same, rfl, _, rest⟩
          · rw [goesOn_cons, isInner_of_isWord word] at left
            cases left
          · obtain ⟨rfl, rfl⟩ := List.cons.inj same
            rw [List.dropWhile_cons_of_pos word, List.dropWhile_cons_of_pos word]
            exact ih rest
      | false =>
          have plain := alike.isWordAt_head
          rw [List.dropWhile_cons_of_neg (by simp [word])]
          cases ds with
          | nil => exact alike
          | cons d ds =>
              have noWord : isWord d = false := plain.symm.trans word
              rwa [List.dropWhile_cons_of_neg (by simp [noWord])]

end HeaderBindings.Text
