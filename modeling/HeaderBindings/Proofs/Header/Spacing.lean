import HeaderBindings.Header.Candidate
import HeaderBindings.Proofs.Header.Whitespace
import HeaderBindings.Proofs.Text.Runs

set_option autoImplicit false

namespace HeaderBindings

open Text

/-- Every run of blanks is one space. -/
structure Tidy (cs : List Char) : Prop where
  spaces : ∀ c ∈ cs, isBlank c = true → c = ' '
  single : ¬ [' ', ' '] <:+: cs

theorem Tidy.part {part cs : List Char} (tidy : Tidy cs) (within : part <:+: cs) : Tidy part :=
  ⟨fun c member => tidy.spaces c (within.subset member),
    fun double => tidy.single (double.trans within)⟩

theorem Tidy.squeeze {cs : List Char} (tidy : Tidy cs) : Header.squeeze false cs = cs := by
  induction cs with
  | nil => rfl
  | cons c cs ih =>
      have rest := ih (tidy.part (List.suffix_cons c cs).isInfix)
      cases blank : isBlank c with
      | false => rw [Header.squeeze_visible false cs blank, rest]
      | true =>
          have space : c = ' ' := tidy.spaces c (by simp) blank
          subst space
          rw [Header.squeeze_false_blank cs blank]
          cases cs with
          | nil => rfl
          | cons d cs =>
              have visible : isBlank d = false := by
                cases next : isBlank d with
                | false => rfl
                | true =>
                    have twice : d = ' ' := tidy.spaces d (by simp) next
                    exact absurd ⟨[], cs, by rw [twice]; rfl⟩ tidy.single
              rw [Header.squeeze_visible true cs visible, ← Header.squeeze_visible false cs visible,
                rest]

theorem Tidy.trim {cs : List Char} (tidy : Tidy cs) : trim cs = joinWords (words cs) := by
  rw [← Header.collapse_eq_joinWords, Header.collapse, tidy.squeeze]

theorem tidy_joinWords {ws : List (List Char)}
    (each : ∀ w ∈ ws, w ≠ [] ∧ ∀ c ∈ w, isBlank c = false) : Tidy (joinWords ws) := by
  constructor
  · intro c member blank
    rcases mem_joinWords member with space | ⟨w, listed, inside⟩
    · exact space
    · rw [(each w listed).2 c inside] at blank
      cases blank
  · have front {w rest : List Char} (visible : ∀ c ∈ w, isBlank c = false)
        (within : [' ', ' '] <:+: w ++ rest) : [' ', ' '] <:+: rest := by
      induction w with
      | nil => exact within
      | cons c w ih =>
          rcases List.infix_cons_iff.mp within with here | later
          · obtain ⟨rfl, _⟩ := List.cons_prefix_cons.mp here
            exact absurd (visible ' ' (by simp)) (by decide)
          · exact ih (fun d member => visible d (List.mem_cons_of_mem c member)) later
    induction ws with
    | nil => exact fun within => absurd (List.infix_nil.mp within) (by simp)
    | cons w ws ih =>
        obtain ⟨occupied, visible⟩ := each w (by simp)
        have later := ih fun v member => each v (List.mem_cons_of_mem w member)
        cases ws with
        | nil =>
            intro within
            rw [joinWords, ← List.append_nil w] at within
            exact absurd (List.infix_nil.mp (front visible within)) (by simp)
        | cons v ws =>
            intro within
            rw [joinWords_cons w (by simp)] at within
            rcases List.infix_cons_iff.mp (front visible within) with here | rest
            · -- The next word begins with no blank.
              obtain ⟨filled, shown⟩ := each v (by simp)
              obtain ⟨c, own, rfl⟩ := List.exists_cons_of_ne_nil filled
              have next : ' ' = c := by
                obtain ⟨tail, same⟩ := (List.cons_prefix_cons.mp here).2
                rw [joinWords_extend] at same
                exact (List.cons.inj same).1
              exact absurd (shown c (by simp)) (by rw [← next]; decide)
            · exact later rest

theorem tidy_collapse (cs : List Char) : Tidy (Header.collapse cs) := by
  rw [Header.collapse_eq_joinWords]
  exact tidy_joinWords fun w member => ⟨words_occupied member, (infix_of_mem_words member).2⟩

/-- Every run of blanks is one space, and none stands at an end. -/
structure SingleSpaced (cs : List Char) : Prop extends Tidy cs where
  starts : ∀ c ∈ cs.head?, isBlank c = false
  ends : ∀ c ∈ cs.getLast?, isBlank c = false

theorem singleSpaced_joinWords {ws : List (List Char)}
    (each : ∀ w ∈ ws, w ≠ [] ∧ ∀ c ∈ w, isBlank c = false) : SingleSpaced (joinWords ws) := by
  refine ⟨tidy_joinWords each, ?_, ?_⟩
  · cases ws with
    | nil => simp [joinWords]
    | cons w ws =>
        obtain ⟨occupied, visible⟩ := each w (by simp)
        obtain ⟨c, own, rfl⟩ := List.exists_cons_of_ne_nil occupied
        rw [joinWords_extend]
        simpa using visible c (by simp)
  · induction ws with
    | nil => simp [joinWords]
    | cons w ws ih =>
        obtain ⟨_, visible⟩ := each w (by simp)
        have later := ih fun v member => each v (List.mem_cons_of_mem w member)
        by_cases more : ws = []
        · rw [more, joinWords]
          exact fun c last => visible c (List.mem_of_getLast? last)
        · rw [joinWords_cons w more]
          rcases List.eq_nil_or_concat (joinWords ws) with empty | ⟨start, c, split⟩
          · have occupied := fun v member => (each v (List.mem_cons_of_mem w member)).1
            exact absurd ((joinWords_eq_nil occupied).mp empty) more
          · rw [List.concat_eq_append] at split
            rw [split, List.getLast?_concat] at later
            rw [split, ← List.cons_append, ← List.append_assoc, List.getLast?_concat]
            exact later

theorem singleSpaced_words (cs : List Char) : SingleSpaced (joinWords (words cs)) :=
  singleSpaced_joinWords fun _ member => ⟨words_occupied member, (infix_of_mem_words member).2⟩

/-- A text with no other blanks is its words, joined. -/
theorem SingleSpaced.joinWords_words {cs : List Char} (spaced : SingleSpaced cs) :
    joinWords (words cs) = cs := by
  rw [← spaced.trim, Header.trim_of_visible spaced.starts spaced.ends]

namespace Header

theorem words_collapse (text : List Char) : words (collapse text) = words text := by
  rw [collapse_eq_joinWords, words_joinWords_words]

/-- Collapsing the white space of a text keeps exactly its words: the maximal runs of visible
characters, in order, come out with one space between neighbours. So collapsing twice changes
nothing, texts become the same exactly if they have the same words, and what a policy leaves of a
header has no other blanks, whatever its rules do. -/
theorem collapse_maximalRuns (policy : Policy) (text other : List Char) :
    (∃ runs, (∀ others, MaximalRuns text others ↔ others = runs) ∧
      (∀ others, MaximalRuns (collapse text) others ↔ others = runs) ∧
      collapse text = [' '].intercalate runs) ∧
    collapse (collapse text) = collapse text ∧
    (collapse text = collapse other ↔ ∀ runs, MaximalRuns text runs ↔ MaximalRuns other runs) ∧
    SingleSpaced (policy.apply text) := by
  refine ⟨⟨words text, fun _ => maximalRuns_iff, fun _ => ?_, ?_⟩, ?_, ?_, ?_⟩
  · rw [maximalRuns_iff, words_collapse]
  · rw [collapse_eq_joinWords, joinWords_eq_intercalate]
  · rw [collapse_eq_joinWords (collapse text), words_collapse, collapse_eq_joinWords]
  · simp only [maximalRuns_iff]
    constructor
    · intro same runs
      rw [← words_collapse text, same, words_collapse]
    · intro same
      rw [collapse_eq_joinWords, collapse_eq_joinWords, (same _).mp rfl]
  · unfold Policy.apply
    rw [collapse_eq_joinWords]
    exact singleSpaced_words _

example : collapse "\u2003 int\r\n\tx \u00a0".toList = "int x".toList := by decide

end Header

end HeaderBindings
