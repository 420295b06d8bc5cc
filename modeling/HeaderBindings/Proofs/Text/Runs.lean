import HeaderBindings.Proofs.Text.Place
import HeaderBindings.Proofs.Text.Words

set_option autoImplicit false

namespace HeaderBindings.Text

/-- At a position of the text a character stands, and it is no blank. -/
def VisibleAt (text : List Char) (i : Nat) : Prop := ∃ c, text[i]? = some c ∧ isBlank c = false

/-- A run of visible characters that can be made no longer on either side. -/
structure MaximalRun (text : List Char) (p : Place) : Prop where
  occupied : p.start < p.stop
  visible : ∀ i, p.Covers i → VisibleAt text i
  starts : ∀ i, i + 1 = p.start → ¬ VisibleAt text i
  stops : ¬ VisibleAt text p.stop

/-- The maximal runs of a text, from left to right. -/
def MaximalRuns (text : List Char) (runs : List (List Char)) : Prop :=
  ∃ places : List Place, runs = places.map (Place.part text) ∧
    (places.Pairwise fun p q => p.stop < q.start) ∧ ∀ p, p ∈ places ↔ MaximalRun text p

section Runs

variable {text : List Char} {p q : Place}

theorem MaximalRun.eq_of_covers (first : MaximalRun text p) (second : MaximalRun text q) {i : Nat}
    (inside : p.Covers i) (within : q.Covers i) : p = q := by
  have starts {p q : Place} (first : MaximalRun text p) (second : MaximalRun text q)
      (inside : p.Covers i) (within : q.Covers i) : q.start ≤ p.start := by
    obtain ⟨lower, upper⟩ := inside
    obtain ⟨lower', upper'⟩ := within
    refine Nat.le_of_not_lt fun later => ?_
    exact second.starts (q.start - 1) (by omega) (first.visible _ ⟨by omega, by omega⟩)
  have stops {p q : Place} (first : MaximalRun text p) (second : MaximalRun text q)
      (inside : p.Covers i) (within : q.Covers i) : p.stop ≤ q.stop := by
    obtain ⟨lower, upper⟩ := inside
    obtain ⟨lower', upper'⟩ := within
    refine Nat.le_of_not_lt fun longer => ?_
    exact second.stops (first.visible _ ⟨by omega, by omega⟩)
  obtain ⟨start, stop⟩ := p
  obtain ⟨start', stop'⟩ := q
  rw [Place.mk.injEq]
  exact ⟨Nat.le_antisymm (starts second first within inside) (starts first second inside within),
    Nat.le_antisymm (stops first second inside within) (stops second first within inside)⟩

theorem MaximalRuns.unique {runs others : List (List Char)} (first : MaximalRuns text runs)
    (second : MaximalRuns text others) : runs = others := by
  obtain ⟨places, rfl, order, listed⟩ := first
  obtain ⟨places', rfl, order', listed'⟩ := second
  have nodup {places : List Place} (order : places.Pairwise fun p q => p.stop < q.start)
      (listed : ∀ p, p ∈ places ↔ MaximalRun text p) : places.Nodup := by
    refine order.imp_of_mem fun {p q} member _ before same => ?_
    have := ((listed p).mp member).occupied
    subst same
    omega
  have perm : places.Perm places' := by
    rw [List.perm_ext_iff_of_nodup (nodup order listed) (nodup order' listed')]
    exact fun p => (listed p).trans (listed' p).symm
  have same : places = places' := by
    refine perm.eq_of_pairwise (fun p q member member' before after => ?_) order order'
    have := ((listed p).mp member).occupied
    have := ((listed' q).mp member').occupied
    omega
  rw [same]

theorem words_drop_succ {n : Nat} (hidden : ¬ VisibleAt text n) :
    words (text.drop n) = words (text.drop (n + 1)) := by
  by_cases inside : n < text.length
  · rw [List.drop_eq_getElem_cons inside]
    refine words_blank _ ?_
    cases blank : isBlank text[n] with
    | true => rfl
    | false => exact absurd ⟨_, List.getElem?_eq_getElem inside, blank⟩ hidden
  · rw [List.drop_eq_nil_of_le (by omega), List.drop_eq_nil_of_le (by omega)]

theorem exists_first_run (cs : List Char) :
    ∃ run rest, cs = run ++ rest ∧ (∀ c ∈ run, isBlank c = false) ∧
      ∀ c ∈ rest.head?, isBlank c = true := by
  induction cs with
  | nil => exact ⟨[], [], rfl, by simp, by simp⟩
  | cons c cs ih =>
      cases blank : isBlank c with
      | true => exact ⟨[], c :: cs, rfl, by simp, by simpa using blank⟩
      | false =>
          obtain ⟨run, rest, rfl, shown, ends⟩ := ih
          exact ⟨c :: run, rest, rfl, by simpa [blank] using shown, ends⟩

theorem exists_maximalRun {n : Nat} (shown : VisibleAt text n)
    (starts : ∀ i, i + 1 = n → ¬ VisibleAt text i) :
    ∃ stop, MaximalRun text ⟨n, stop⟩ ∧
      words (text.drop n) = Place.part text ⟨n, stop⟩ :: words (text.drop stop) := by
  obtain ⟨run, rest, split, visible, ends⟩ := exists_first_run (text.drop n)
  have at_offset (k : Nat) : text[n + k]? = (run ++ rest)[k]? := by
    rw [← split, List.getElem?_drop]
  have occupied : run ≠ [] := by
    rintro rfl
    obtain ⟨c, here, visible⟩ := shown
    have first : rest.head? = some c := by
      rw [List.head?_eq_getElem?, ← here]
      exact (at_offset 0).symm
    rw [ends c first] at visible
    cases visible
  have behind : text.drop (n + run.length) = rest := by
    rw [← List.drop_drop, split, List.drop_left]
  have part : Place.part text ⟨n, n + run.length⟩ = run := by
    rw [Place.part, List.drop_take, split, Nat.add_sub_cancel_left, List.take_left]
  refine ⟨n + run.length, ⟨?_, ?_, starts, ?_⟩, ?_⟩
  · have := List.length_pos_iff.mpr occupied
    show n < n + run.length
    omega
  · rintro i ⟨lower, upper⟩
    obtain ⟨k, rfl⟩ := Nat.exists_eq_add_of_le (show n ≤ i from lower)
    have inside : k < run.length := by
      have : n + k < n + run.length := upper
      omega
    refine ⟨run[k], ?_, visible _ (List.getElem_mem inside)⟩
    rw [at_offset, List.getElem?_append_left inside, List.getElem?_eq_getElem inside]
  · rintro ⟨c, here, visible⟩
    rw [at_offset, List.getElem?_append_right (Nat.le_refl _), Nat.sub_self,
      ← List.head?_eq_getElem?] at here
    rw [ends c here] at visible
    cases visible
  · rw [part, behind, split, words_run_append occupied visible ends]

/-- From a place on where no run is under way, the words are the maximal runs. -/
theorem words_drop (n : Nat) (starts : ∀ i, i + 1 = n → ¬ VisibleAt text i) :
    ∃ places : List Place, words (text.drop n) = places.map (Place.part text) ∧
      (places.Pairwise fun p q => p.stop < q.start) ∧
      ∀ p, p ∈ places ↔ n ≤ p.start ∧ MaximalRun text p := by
  induction left : text.length - n using Nat.strongRecOn generalizing n with
  | ind left ih =>
    by_cases shown : VisibleAt text n
    · obtain ⟨stop, run, split⟩ := exists_maximalRun shown starts
      have longer : n < stop := run.occupied
      have hidden : ¬ VisibleAt text stop := run.stops
      have next : ∀ i, i + 1 = stop + 1 → ¬ VisibleAt text i := by
        intro i same
        rwa [Nat.succ.inj same]
      have inside : n < text.length := by
        obtain ⟨c, here, _⟩ := shown
        exact (List.getElem?_eq_some_iff.mp here).1
      obtain ⟨places, later, order, listed⟩ := ih _ (by omega) (stop + 1) next rfl
      refine ⟨⟨n, stop⟩ :: places, ?_, ?_, fun p => ?_⟩
      · rw [split, words_drop_succ hidden, later, List.map_cons]
      · exact List.pairwise_cons.mpr ⟨fun p member => ((listed p).mp member).1, order⟩
      · rw [List.mem_cons, listed]
        constructor
        · rintro (rfl | ⟨behind, run'⟩)
          · exact ⟨Nat.le_refl n, run⟩
          · exact ⟨by omega, run'⟩
        · rintro ⟨lower, run'⟩
          by_cases behind : stop + 1 ≤ p.start
          · exact .inr ⟨behind, run'⟩
          · -- The run behind which `p` starts is `p` itself.
            have own : p.Covers p.start := ⟨Nat.le_refl _, run'.occupied⟩
            have apart : p.start ≠ stop := fun same => hidden (same ▸ run'.visible _ own)
            have within : Place.Covers ⟨n, stop⟩ p.start := ⟨lower, by show p.start < stop; omega⟩
            exact .inl (run'.eq_of_covers run own within)
    · have next : ∀ i, i + 1 = n + 1 → ¬ VisibleAt text i := by
        intro i same
        rwa [Nat.succ.inj same]
      by_cases inside : n < text.length
      · obtain ⟨places, later, order, listed⟩ := ih _ (by omega) (n + 1) next rfl
        refine ⟨places, by rw [words_drop_succ shown, later], order, fun p => ?_⟩
        rw [listed]
        refine and_congr_left fun run => ⟨fun lower => by omega, fun lower => ?_⟩
        have apart : p.start ≠ n := fun same =>
          shown (same ▸ run.visible _ ⟨Nat.le_refl _, run.occupied⟩)
        omega
      · refine ⟨[], by rw [List.drop_eq_nil_of_le (by omega)]; rfl, .nil, fun p => ?_⟩
        simp only [List.not_mem_nil, false_iff, not_and]
        intro lower run
        obtain ⟨c, here, _⟩ := run.visible p.start ⟨Nat.le_refl _, run.occupied⟩
        have := (List.getElem?_eq_some_iff.mp here).1
        omega

theorem maximalRuns_iff {runs : List (List Char)} : MaximalRuns text runs ↔ runs = words text := by
  have own : MaximalRuns text (words text) := by
    obtain ⟨places, parts, order, listed⟩ := @words_drop text 0 fun i same => by omega
    rw [List.drop_zero] at parts
    exact ⟨places, parts, order, by simpa using listed⟩
  exact ⟨fun runs => runs.unique own, fun same => same ▸ own⟩

end Runs

end HeaderBindings.Text
