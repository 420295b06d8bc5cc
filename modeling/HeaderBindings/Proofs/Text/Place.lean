import HeaderBindings.Proofs.Text.Scan

set_option autoImplicit false

namespace HeaderBindings.Text

/-- A part of a text: where it starts, and where it stops. -/
structure Place where
  start : Nat
  stop : Nat

namespace Place

def part (text : List Char) (p : Place) : List Char := (text.take p.stop).drop p.start

/-- A position lies in the part. -/
def Covers (p : Place) (i : Nat) : Prop := p.start ≤ i ∧ i < p.stop

theorem eq_of_covers {places : List Place}
    (apart : places.Pairwise fun p q => p.stop ≤ q.start) {p q : Place} (first : p ∈ places)
    (second : q ∈ places) {i : Nat} (inside : p.Covers i) (within : q.Covers i) : p = q := by
  obtain ⟨lower, upper⟩ := inside
  obtain ⟨lower', upper'⟩ := within
  obtain ⟨m, here⟩ := List.mem_iff_getElem?.mp first
  obtain ⟨n, there⟩ := List.mem_iff_getElem?.mp second
  obtain ⟨inside, rfl⟩ := List.getElem?_eq_some_iff.mp here
  obtain ⟨within, rfl⟩ := List.getElem?_eq_some_iff.mp there
  rcases Nat.lt_trichotomy m n with before | same | behind
  · have := List.pairwise_iff_getElem.mp apart m n inside within before
    omega
  · subst same
    rfl
  · have := List.pairwise_iff_getElem.mp apart n m within inside behind
    omega

end Place

def HitAt (find : Finder) (text : List Char) (i : Nat) (hit : Hit) : Prop :=
  find (text.take i).getLast? (text.drop i) = some hit

/-- The places of the matches that a walk takes from a position on. -/
structure Walked (find : Finder) (text : List Char) (lowest : Nat) (places : List Place) :
    Prop where
  apart : places.Pairwise fun p q => p.stop ≤ q.start
  hits : ∀ p ∈ places, lowest ≤ p.start ∧ ∃ hit, HitAt find text p.start hit ∧ 0 < hit.length ∧
    p.stop = p.start + hit.length
  complete : ∀ i, lowest ≤ i → ∀ hit, HitAt find text i hit → ∃ p ∈ places, p.Covers i

section Walk

variable {find : Finder}

theorem Walked.later {text : List Char} {i : Nat} {places : List Place}
    (walked : Walked find text (i + 1) places) (missed : ∀ hit, ¬ HitAt find text i hit) :
    Walked find text i places := by
  refine ⟨walked.apart, fun p member => ?_, fun j lower hit found => ?_⟩
  · obtain ⟨lower, hit⟩ := walked.hits p member
    exact ⟨by omega, hit⟩
  · rcases Nat.eq_or_lt_of_le lower with same | behind
    · exact absurd found (same ▸ missed hit)
    · exact walked.complete j behind hit found

theorem Walked.take {text : List Char} {i : Nat} {hit : Hit} {places : List Place}
    (walked : Walked find text (i + hit.length) places) (found : HitAt find text i hit)
    (positive : 0 < hit.length) :
    Walked find text i (⟨i, i + hit.length⟩ :: places) := by
  refine ⟨List.pairwise_cons.mpr ⟨fun p member => (walked.hits p member).1, walked.apart⟩, ?_, ?_⟩
  · intro p member
    rcases List.mem_cons.mp member with rfl | member
    · exact ⟨Nat.le_refl i, hit, found, positive, rfl⟩
    · obtain ⟨lower, later⟩ := walked.hits p member
      exact ⟨by omega, later⟩
  · intro j lower other seen
    by_cases inside : j < i + hit.length
    · exact ⟨_, List.mem_cons_self, lower, inside⟩
    · obtain ⟨p, member, covers⟩ := walked.complete j (by omega) other seen
      exact ⟨p, List.mem_cons_of_mem _ member, covers⟩

/-- The walk over the rest of a text takes its matches from where the last one stops. -/
theorem spansFrom_walked (proper : Proper find) (front cs : List Char) (skip : Nat) :
    ∃ places, spansFrom find skip front.getLast? cs = places.map (Place.part (front ++ cs)) ∧
      Walked find (front ++ cs) (front.length + skip) places := by
  induction cs generalizing front skip with
  | nil =>
      refine ⟨[], rfl, ⟨List.Pairwise.nil, by simp, fun i lower hit found => ?_⟩⟩
      -- Behind the text there is nothing to find.
      have behind : (front ++ []).drop i = [] := List.drop_of_length_le (by simp; omega)
      rw [HitAt, behind, proper.nil] at found
      cases found
  | cons c cs ih =>
      have next (skip : Nat) := ih (front ++ [c]) skip
      simp only [List.getLast?_append, List.getLast?_singleton, Option.some_or, List.append_assoc,
        List.singleton_append, List.length_append, List.length_singleton] at next
      have here (hit : Hit) :
          HitAt find (front ++ c :: cs) front.length hit ↔
            find front.getLast? (c :: cs) = some hit := by
        rw [HitAt, List.take_left, List.drop_left]
      cases skip with
      | succ skip =>
          obtain ⟨places, parts, walked⟩ := next skip
          refine ⟨places, by rw [spansFrom_skip, parts], ?_⟩
          rwa [Nat.add_assoc, Nat.add_comm 1] at walked
      | zero =>
          rcases proper.cases front.getLast? (c :: cs) with missed | ⟨n, text, found, bound⟩
          · obtain ⟨places, parts, walked⟩ := next 0
            refine ⟨places, by rw [spansFrom_none missed, parts], walked.later fun hit seen => ?_⟩
            rw [here, missed] at seen
            cases seen
          · obtain ⟨places, parts, walked⟩ := next n
            have seen := (here _).mpr found
            rw [show front.length + 1 + n = front.length + (n + 1) by omega] at walked
            refine ⟨_, ?_, walked.take seen (Nat.succ_pos n)⟩
            have taken : Place.part (front ++ c :: cs) ⟨front.length, front.length + (n + 1)⟩ =
                (c :: cs).take (n + 1) := by
              rw [Place.part, List.take_length_add_append, List.drop_left]
            rw [spansFrom_hit found, parts, ← taken]
            rfl

theorem spans_walked (proper : Proper find) (text : List Char) :
    ∃ places, spans find text = places.map (Place.part text) ∧ Walked find text 0 places :=
  spansFrom_walked proper [] text 0

end Walk

end HeaderBindings.Text
