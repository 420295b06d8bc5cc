import HeaderBindings.Text.Blank

set_option autoImplicit false

namespace HeaderBindings.Text

theorem dropBlanks_gap {gap : List Char} (blank : ∀ c ∈ gap, isBlank c = true)
    (rest : List Char) : dropBlanks (gap ++ rest) = dropBlanks rest :=
  List.dropWhile_append_of_pos blank

theorem dropBlanks_blank {c : Char} (cs : List Char) (blank : isBlank c = true) :
    dropBlanks (c :: cs) = dropBlanks cs := by simp [dropBlanks, blank]

theorem dropBlanks_visible {c : Char} (cs : List Char) (visible : isBlank c = false) :
    dropBlanks (c :: cs) = c :: cs := by simp [dropBlanks, visible]

theorem words_blank {c : Char} (cs : List Char) (blank : isBlank c = true) :
    words (c :: cs) = words cs := by
  cases cs <;> simp [words, blank]

theorem words_gap {gap : List Char} (blank : ∀ c ∈ gap, isBlank c = true) (rest : List Char) :
    words (gap ++ rest) = words rest := by
  induction gap with
  | nil => rfl
  | cons c gap ih =>
      rw [List.cons_append, words_blank _ (blank c (by simp)),
        ih fun d member => blank d (List.mem_cons_of_mem c member)]

theorem words_end {c : Char} {cs : List Char} (visible : isBlank c = false)
    (ends : ∀ d ∈ cs.head?, isBlank d = true) : words (c :: cs) = [c] :: words cs := by
  cases cs with
  | nil => simp [words, visible]
  | cons d cs => simp [words, visible, ends d rfl]

theorem words_ne_nil {c : Char} (cs : List Char) (visible : isBlank c = false) :
    words (c :: cs) ≠ [] := by
  cases cs with
  | nil => simp [words, visible]
  | cons d cs =>
      simp only [words, visible, Bool.false_eq_true, ↓reduceIte]
      split
      · exact List.cons_ne_nil _ _
      · split <;> exact List.cons_ne_nil _ _

theorem words_extend {c d : Char} {cs w : List Char} {ws : List (List Char)}
    (visible : isBlank c = false) (next : isBlank d = false) (rest : words (d :: cs) = w :: ws) :
    words (c :: d :: cs) = (c :: w) :: ws := by
  simp [words, visible, next, rest]

theorem words_cons_cases {c : Char} (cs : List Char) (visible : isBlank c = false) :
    (words (c :: cs) = [c] :: words cs ∧ ∀ d ∈ cs.head?, isBlank d = true) ∨
      ∃ d tail w ws, cs = d :: tail ∧ isBlank d = false ∧ words cs = w :: ws ∧
        words (c :: cs) = (c :: w) :: ws := by
  cases cs with
  | nil => exact .inl ⟨words_end visible (by simp), by simp⟩
  | cons d cs =>
      cases next : isBlank d with
      | true =>
          have ends : ∀ e ∈ (d :: cs).head?, isBlank e = true := by
            rintro e ⟨⟩
            exact next
          exact .inl ⟨words_end visible ends, ends⟩
      | false =>
          cases rest : words (d :: cs) with
          | nil => exact absurd rest (words_ne_nil cs next)
          | cons w ws => exact .inr ⟨d, cs, w, ws, rfl, next, rfl, words_extend visible next rest⟩

theorem words_append_blank (first second : List Char) {c : Char} (blank : isBlank c = true) :
    words (first ++ c :: second) = words first ++ words second := by
  induction first with
  | nil => exact words_blank second blank
  | cons d first ih =>
      rw [List.cons_append]
      cases visible : isBlank d with
      | true => rw [words_blank _ visible, words_blank _ visible, ih]
      | false =>
          rcases words_cons_cases first visible with ⟨single, ends⟩ | ⟨e, tail, w, ws, split, next,
            rest, longer⟩
          · have ends' : ∀ e ∈ (first ++ c :: second).head?, isBlank e = true := by
              cases first with
              | nil =>
                  rintro e ⟨⟩
                  exact blank
              | cons e first => exact ends
            rw [words_end visible ends', ih, single, List.cons_append]
          · subst split
            rw [rest, List.cons_append, List.cons_append] at ih
            rw [List.cons_append, words_extend visible next ih, longer, List.cons_append]

theorem words_append_gap (first second : List Char) {gap : List Char} (occupied : gap ≠ [])
    (blank : ∀ c ∈ gap, isBlank c = true) :
    words (first ++ gap ++ second) = words first ++ words second := by
  induction gap generalizing first with
  | nil => exact absurd rfl occupied
  | cons c gap ih =>
      have here := blank c (by simp)
      rw [List.append_assoc, List.cons_append, words_append_blank first _ here]
      cases gap with
      | nil => rfl
      | cons d gap =>
          have rest := ih [] (List.cons_ne_nil d gap)
            fun e member => blank e (List.mem_cons_of_mem c member)
          rw [List.nil_append] at rest
          rw [rest]
          rfl

theorem words_append_blanks (first : List Char) {gap : List Char}
    (blank : ∀ c ∈ gap, isBlank c = true) : words (first ++ gap) = words first := by
  by_cases empty : gap = []
  · rw [empty, List.append_nil]
  · have apart := words_append_gap first [] empty blank
    rwa [List.append_nil, words, List.append_nil] at apart

theorem words_run {run : List Char} (occupied : run ≠ [])
    (visible : ∀ c ∈ run, isBlank c = false) : words run = [run] := by
  induction run with
  | nil => exact absurd rfl occupied
  | cons c run ih =>
      have here := visible c (by simp)
      cases run with
      | nil => exact words_end here (by simp)
      | cons d run =>
          have rest := ih (List.cons_ne_nil d run)
            fun e member => visible e (List.mem_cons_of_mem c member)
          exact words_extend here (visible d (by simp)) rest

theorem words_run_append {run rest : List Char} (occupied : run ≠ [])
    (visible : ∀ c ∈ run, isBlank c = false) (ends : ∀ c ∈ rest.head?, isBlank c = true) :
    words (run ++ rest) = run :: words rest := by
  cases rest with
  | nil => rw [List.append_nil, words_run occupied visible]; rfl
  | cons c rest =>
      have blank := ends c rfl
      rw [words_append_blank run rest blank, words_run occupied visible, words_blank rest blank]
      rfl

theorem words_occupied {cs w : List Char} (member : w ∈ words cs) : w ≠ [] := by
  induction cs generalizing w with
  | nil => cases member
  | cons c cs ih =>
      cases visible : isBlank c with
      | true =>
          rw [words_blank cs visible] at member
          exact ih member
      | false =>
          rcases words_cons_cases cs visible with ⟨single, _⟩ | ⟨_, _, v, vs, _, _, rest, longer⟩
          · rw [single] at member
            rcases List.mem_cons.mp member with rfl | later
            · exact List.cons_ne_nil c []
            · exact ih later
          · rw [longer] at member
            rcases List.mem_cons.mp member with rfl | later
            · exact List.cons_ne_nil c v
            · exact ih (rest ▸ List.mem_cons_of_mem v later)

/-- The words have all visible characters of the text, and no others. -/
theorem flatten_words (cs : List Char) : (words cs).flatten = cs.filter (!isBlank ·) := by
  induction cs with
  | nil => rfl
  | cons c cs ih =>
      cases blank : isBlank c with
      | true => rw [words_blank cs blank, ih, List.filter_cons_of_neg (by simp [blank])]
      | false =>
          rw [List.filter_cons_of_pos (by simp [blank]), ← ih]
          rcases words_cons_cases cs blank with ⟨single, _⟩ | ⟨_, _, _, _, _, _, rest, longer⟩
          · rw [single]
            rfl
          · rw [longer, rest]
            rfl

theorem words_eq_nil_iff {cs : List Char} : words cs = [] ↔ ∀ c ∈ cs, isBlank c = true := by
  have none_there : words cs = [] ↔ (words cs).flatten = [] := by
    rw [List.flatten_eq_nil_iff]
    constructor
    · intro empty
      simp [empty]
    · intro each
      refine List.eq_nil_iff_forall_not_mem.mpr fun w member => ?_
      exact words_occupied member (each w member)
  rw [none_there, flatten_words, List.filter_eq_nil_iff]
  simp

theorem prefix_of_words_cons {c : Char} {cs w : List Char} {ws : List (List Char)}
    (visible : isBlank c = false) (first : words (c :: cs) = w :: ws) : w <+: c :: cs := by
  induction cs generalizing c w ws with
  | nil =>
      rw [words_end visible (by simp)] at first
      obtain ⟨rfl, _⟩ := List.cons.inj first
      exact ⟨[], rfl⟩
  | cons d cs ih =>
      rcases words_cons_cases (d :: cs) visible with ⟨single, _⟩ | ⟨e, tail, v, vs, same, next,
        rest, longer⟩
      · rw [single] at first
        obtain ⟨rfl, _⟩ := List.cons.inj first
        exact ⟨d :: cs, rfl⟩
      · obtain ⟨rfl, rfl⟩ := List.cons.inj same
        rw [longer] at first
        obtain ⟨rfl, _⟩ := List.cons.inj first
        exact (List.prefix_cons_inj c).mpr (ih next rest)

theorem infix_of_mem_words {cs w : List Char} (member : w ∈ words cs) :
    w <:+: cs ∧ ∀ c ∈ w, isBlank c = false := by
  induction cs generalizing w with
  | nil => cases member
  | cons c cs ih =>
      have later (other : w ∈ words cs) : w <:+: c :: cs ∧ ∀ d ∈ w, isBlank d = false :=
        ⟨List.infix_cons (ih other).1, (ih other).2⟩
      cases visible : isBlank c with
      | true =>
          rw [words_blank cs visible] at member
          exact later member
      | false =>
          rcases words_cons_cases cs visible with ⟨single, _⟩ | ⟨_, _, v, vs, _, _, rest, longer⟩
          · rw [single] at member
            rcases List.mem_cons.mp member with rfl | other
            · exact ⟨⟨[], cs, rfl⟩, by simpa using visible⟩
            · exact later other
          · have start := prefix_of_words_cons visible longer
            rw [longer] at member
            rcases List.mem_cons.mp member with rfl | other
            · have shown := (ih (rest ▸ List.mem_cons_self)).2
              exact ⟨start.isInfix, by simpa [visible] using shown⟩
            · exact later (rest ▸ List.mem_cons_of_mem v other)

/-- The last word of a text that ends in a word ends as the text does. -/
theorem words_append_singleton (cs : List Char) {c : Char} (visible : isBlank c = false) :
    ∃ ws w, words (cs ++ [c]) = ws ++ [w ++ [c]] := by
  induction cs with
  | nil => exact ⟨[], [], words_end visible (by simp)⟩
  | cons d cs ih =>
      obtain ⟨ws, w, last⟩ := ih
      rw [List.cons_append]
      cases shown : isBlank d with
      | true => exact ⟨ws, w, by rw [words_blank _ shown, last]⟩
      | false =>
          rcases words_cons_cases (cs ++ [c]) shown with ⟨single, _⟩ | ⟨_, _, v, vs, _, _, rest,
            longer⟩
          · exact ⟨[d] :: ws, w, by rw [single, last, List.cons_append]⟩
          · rw [longer]
            rw [last] at rest
            cases ws with
            | nil =>
                simp only [List.nil_append, List.cons.injEq] at rest
                obtain ⟨rfl, rfl⟩ := rest
                exact ⟨[], d :: w, rfl⟩
            | cons u us =>
                simp only [List.cons_append, List.cons.injEq] at rest
                obtain ⟨rfl, rfl⟩ := rest
                exact ⟨(d :: u) :: us, w, rfl⟩

/-- A text with a word in it, cut around the last one. -/
theorem exists_last_run (cs : List Char) :
    (∀ c ∈ cs, isBlank c = true) ∨
      ∃ start run gap, cs = start ++ run ++ gap ∧ run ≠ [] ∧ (∀ c ∈ run, isBlank c = false) ∧
        (∀ c ∈ gap, isBlank c = true) ∧
        (start = [] ∨ ∃ first c, start = first ++ [c] ∧ isBlank c = true) := by
  induction cs with
  | nil => exact .inl (by simp)
  | cons c cs ih =>
      rcases ih with blanks | ⟨start, run, gap, rfl, occupied, shown, blanks, front⟩
      · cases blank : isBlank c with
        | true => exact .inl (by simpa [blank] using blanks)
        | false =>
            exact .inr ⟨[], [c], cs, rfl, by simp, by simpa using blank, blanks, .inl rfl⟩
      · refine .inr ?_
        rcases front with rfl | ⟨first, d, rfl, space⟩
        · cases blank : isBlank c with
          | true =>
              exact ⟨[c], run, gap, rfl, occupied, shown, blanks, .inr ⟨[], c, rfl, blank⟩⟩
          | false =>
              exact ⟨[], c :: run, gap, rfl, by simp, by simpa [blank] using shown, blanks,
                .inl rfl⟩
        · exact ⟨c :: first ++ [d], run, gap, rfl, occupied, shown, blanks,
            .inr ⟨c :: first, d, rfl, space⟩⟩

theorem exists_last_word {cs last : List Char} {before : List (List Char)}
    (split : words cs = before ++ [last]) (more : before ≠ []) :
    ∃ start c gap, cs = start ++ c :: (last ++ gap) ∧ isBlank c = true ∧
      (∀ d ∈ gap, isBlank d = true) ∧ words start = before := by
  rcases exists_last_run cs with blanks | ⟨start, run, gap, rfl, occupied, shown, blanks, front⟩
  · have none_there := words_append_blanks [] blanks
    rw [List.nil_append, split] at none_there
    simp [words] at none_there
  · rw [words_append_blanks _ blanks] at split
    rcases front with rfl | ⟨first, c, rfl, blank⟩
    · rw [List.nil_append, words_run occupied shown] at split
      have single : before.length + 1 = 1 := by simpa using (congrArg List.length split).symm
      exact absurd (List.length_eq_zero_iff.mp (by omega)) more
    · rw [List.append_assoc, List.singleton_append, words_append_blank _ _ blank,
        words_run occupied shown] at split
      obtain ⟨rfl, same⟩ := List.append_inj' split rfl
      obtain ⟨rfl, _⟩ := List.cons.inj same
      exact ⟨first, c, gap, by simp, blank, blanks, rfl⟩

theorem joinWords_cons (w : List Char) {ws : List (List Char)} (more : ws ≠ []) :
    joinWords (w :: ws) = w ++ ' ' :: joinWords ws := by
  cases ws with
  | nil => exact absurd rfl more
  | cons v ws => rfl

theorem joinWords_extend (c : Char) (w : List Char) (ws : List (List Char)) :
    joinWords ((c :: w) :: ws) = c :: joinWords (w :: ws) := by
  cases ws <;> rfl

theorem joinWords_append {ws vs : List (List Char)} (left : ws ≠ []) (right : vs ≠ []) :
    joinWords (ws ++ vs) = joinWords ws ++ ' ' :: joinWords vs := by
  induction ws with
  | nil => exact absurd rfl left
  | cons w ws ih =>
      cases ws with
      | nil => exact joinWords_cons w right
      | cons u us =>
          have rest := ih (List.cons_ne_nil u us)
          rw [List.cons_append, joinWords_cons w (by simp), rest,
            joinWords_cons w (List.cons_ne_nil u us), List.append_assoc, List.cons_append]

theorem joinWords_eq_intercalate (ws : List (List Char)) :
    joinWords ws = [' '].intercalate ws := by
  induction ws with
  | nil => rfl
  | cons w ws ih =>
      cases ws with
      | nil => simp [joinWords]
      | cons v ws =>
          rw [joinWords_cons w (List.cons_ne_nil v ws), ih, List.intercalate_cons_cons,
            List.append_assoc, List.singleton_append]

theorem mem_joinWords {ws : List (List Char)} {c : Char} (member : c ∈ joinWords ws) :
    c = ' ' ∨ ∃ w ∈ ws, c ∈ w := by
  induction ws with
  | nil => cases member
  | cons w ws ih =>
      by_cases more : ws = []
      · rw [more, joinWords] at member
        exact .inr ⟨w, by simp, member⟩
      · rw [joinWords_cons w more] at member
        rcases List.mem_append.mp member with here | behind
        · exact .inr ⟨w, by simp, here⟩
        · rcases List.mem_cons.mp behind with space | later
          · exact .inl space
          · refine (ih later).imp_right ?_
            rintro ⟨v, listed, inside⟩
            exact ⟨v, List.mem_cons_of_mem w listed, inside⟩

theorem joinWords_eq_nil {ws : List (List Char)} (occupied : ∀ w ∈ ws, w ≠ []) :
    joinWords ws = [] ↔ ws = [] := by
  cases ws with
  | nil => simp [joinWords]
  | cons w ws =>
      have first := occupied w (by simp)
      cases ws <;> simp [joinWords, first]

theorem filter_joinWords {p : Char → Bool} (hidden : p ' ' = false) (ws : List (List Char)) :
    (joinWords ws).filter p = ws.flatten.filter p := by
  induction ws with
  | nil => rfl
  | cons w ws ih =>
      by_cases more : ws = []
      · simp [more, joinWords]
      · rw [joinWords_cons w more, List.filter_append, List.filter_cons_of_neg (by simp [hidden]),
          ih, List.flatten_cons, List.filter_append]

theorem words_joinWords {ws : List (List Char)}
    (each : ∀ w ∈ ws, w ≠ [] ∧ ∀ c ∈ w, isBlank c = false) : words (joinWords ws) = ws := by
  induction ws with
  | nil => rfl
  | cons w ws ih =>
      obtain ⟨occupied, visible⟩ := each w (by simp)
      by_cases more : ws = []
      · rw [more, joinWords, words_run occupied visible]
      · rw [joinWords_cons w more, words_append_blank w _ (by decide),
          words_run occupied visible, ih fun v member => each v (List.mem_cons_of_mem w member)]
        rfl

theorem words_joinWords_words (cs : List Char) : words (joinWords (words cs)) = words cs :=
  words_joinWords fun _ member => ⟨words_occupied member, (infix_of_mem_words member).2⟩

section FlatMap

variable {f : Char → List Char}
  (kept : ∀ c, isBlank c = true → ∃ d, isBlank d = true ∧ f c = [d])

include kept

/-- If something else is written for each character, and a blank for a blank, each word of a text is
changed on its own. -/
theorem words_flatMap (cs : List Char) :
    words (cs.flatMap f) = (words cs).flatMap fun w => words (w.flatMap f) := by
  -- What was already read of the word that is under way is carried along.
  suffices whole : ∀ run : List Char, (∀ c ∈ run, isBlank c = false) →
      words ((run ++ cs).flatMap f) = (words (run ++ cs)).flatMap fun w => words (w.flatMap f) from
    whole [] (by simp)
  have single (run : List Char) (shown : ∀ c ∈ run, isBlank c = false) :
      words (run.flatMap f) = (words run).flatMap fun w => words (w.flatMap f) := by
    by_cases empty : run = []
    · rw [empty]
      rfl
    · simp [words_run empty shown]
  induction cs with
  | nil =>
      intro run shown
      rw [List.append_nil]
      exact single run shown
  | cons c cs ih =>
      intro run shown
      cases blank : isBlank c with
      | true =>
          obtain ⟨d, blank', same⟩ := kept c blank
          rw [List.flatMap_append, List.flatMap_cons, same, List.singleton_append,
            words_append_blank _ _ blank', words_append_blank _ _ blank, List.flatMap_append,
            single run shown]
          exact congrArg _ (ih [] (by simp))
      | false =>
          have longer := ih (run ++ [c]) (by simpa [or_imp, forall_and, blank] using shown)
          rwa [List.append_assoc, List.singleton_append] at longer

theorem words_flatMap_joinWords (ws : List (List Char)) :
    words ((joinWords ws).flatMap f) = ws.flatMap fun w => words (w.flatMap f) := by
  induction ws with
  | nil => rfl
  | cons w ws ih =>
      by_cases more : ws = []
      · simp [more, joinWords]
      · obtain ⟨d, blank, same⟩ := kept ' ' (by decide)
        rw [joinWords_cons w more, List.flatMap_append, List.flatMap_cons, same,
          List.singleton_append, words_append_blank _ _ blank, ih, List.flatMap_cons]

end FlatMap

theorem infix_append_mark {part first second : List Char} {mark : Char} (free : mark ∉ part)
    (within : part <:+: first ++ mark :: second) : part <:+: first ∨ part <:+: second := by
  rcases List.infix_append_iff_ne_nil.mp within with left | right | ⟨before, behind, _, some, rfl,
    _, start⟩
  · exact .inl left
  · rcases List.infix_cons_iff.mp right with start | later
    · cases part with
      | nil => exact .inl (List.nil_infix)
      | cons c part =>
          obtain ⟨rfl, _⟩ := List.cons_prefix_cons.mp start
          exact absurd (by simp) free
    · exact .inr later
  · cases behind with
    | nil => exact absurd rfl some
    | cons c behind =>
        obtain ⟨rfl, _⟩ := List.cons_prefix_cons.mp start
        exact absurd (by simp) free

/-- A run without blanks stands inside of one word. -/
theorem infix_joinWords {run : List Char} (occupied : run ≠ [])
    (visible : ∀ c ∈ run, isBlank c = false) {ws : List (List Char)}
    (within : run <:+: joinWords ws) : ∃ w ∈ ws, run <:+: w := by
  have free : ' ' ∉ run := by
    intro member
    have space := visible ' ' member
    exact absurd space (by decide)
  induction ws with
  | nil => exact absurd (List.infix_nil.mp within) occupied
  | cons w ws ih =>
      by_cases more : ws = []
      · rw [more, joinWords] at within
        exact ⟨w, by simp, within⟩
      · rw [joinWords_cons w more] at within
        rcases infix_append_mark free within with here | later
        · exact ⟨w, by simp, here⟩
        · obtain ⟨v, listed, inside⟩ := ih later
          exact ⟨v, List.mem_cons_of_mem w listed, inside⟩

end HeaderBindings.Text
