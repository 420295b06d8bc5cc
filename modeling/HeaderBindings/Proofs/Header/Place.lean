import HeaderBindings.Proofs.Header.Candidate
import HeaderBindings.Options
import HeaderBindings.Proofs.Text.Place
import HeaderBindings.Proofs.Text.Token

set_option autoImplicit false

namespace HeaderBindings.Header

open Text

/-- What begins with the wrapper macro and, behind blanks, an opening parenthesis. -/
def Headed (wrapper cs : List Char) : Prop :=
  ∃ gap rest, (∀ c ∈ gap, isBlank c = true) ∧ cs = wrapper ++ (gap ++ '(' :: rest)

/-- What ends in a semicolon, and has no other. -/
def Closed (cs : List Char) : Prop := ∃ body, ';' ∉ body ∧ cs = body ++ [';']

/-- At a position of the text a word starts or ends, and there the wrapper macro stands with an
opening parenthesis behind it. -/
structure OpensAt (wrapper text : List Char) (i : Nat) : Prop where
  boundary : isWordBoundary (text.take i).getLast? (text.drop i).head? = true
  headed : Headed wrapper (text.drop i)

/-- The parts of a text that are its candidates, and where they stand. -/
structure Extracted (wrapper text : List Char) (places : List Place)
    (parts : List (List Char)) : Prop where
  parts : parts = places.map (Place.part text)
  inside : ∀ p ∈ places, p.start < p.stop ∧ p.stop ≤ text.length
  apart : places.Pairwise fun p q => p.stop ≤ q.start
  opened : ∀ p ∈ places, OpensAt wrapper text p.start ∧ Headed wrapper (p.part text)
  closed : ∀ p ∈ places, Closed (p.part text)
  complete : ∀ i, OpensAt wrapper text i → ';' ∈ text.drop i →
    ∃ p ∈ places, p.Covers i ∧ ∀ q ∈ places, q.Covers i → q = p

section Candidate

variable {wrapper cs : List Char} {before : Option Char}

theorem afterSemicolon_eq_some {rest : List Char} :
    afterLiteral [';'] (cs.dropWhile (· ≠ ';')) = some rest ↔
      ∃ body, ';' ∉ body ∧ cs = body ++ ';' :: rest := by
  constructor
  · intro found
    refine ⟨cs.takeWhile (· ≠ ';'), fun member => ?_, ?_⟩
    · simpa using List.all_eq_true.mp List.all_takeWhile _ member
    · have split := (List.takeWhile_append_dropWhile (p := (· ≠ ';')) (l := cs)).symm
      rwa [eq_append_of_afterLiteral found] at split
  · rintro ⟨body, free, rfl⟩
    have all : ∀ c ∈ body, decide (c ≠ ';') = true := by
      intro c member
      rw [decide_eq_true_eq]
      rintro rfl
      exact free member
    have stop : ∀ c ∈ (';' :: rest).head?, decide (c ≠ ';') = false := by simp
    rw [(span_append all stop).2]
    exact afterLiteral_append [';'] rest

theorem exists_cut {c : Char} (member : c ∈ cs) :
    ∃ body rest, c ∉ body ∧ cs = body ++ c :: rest := by
  obtain ⟨body, rest, split, free⟩ := List.eq_append_cons_of_mem member
  exact ⟨body, rest, free, split⟩

theorem Headed.cut (free : ';' ∉ wrapper) (headed : Headed wrapper cs) {body rest : List Char}
    (clear : ';' ∉ body) (split : cs = body ++ ';' :: rest) :
    ∃ gap inner, (∀ c ∈ gap, isBlank c = true) ∧ ';' ∉ inner ∧
      body = wrapper ++ (gap ++ '(' :: inner) := by
  obtain ⟨gap, tail, blanks, rfl⟩ := headed
  have visible : ';' ∉ gap := fun member => absurd (blanks _ member) (by decide)
  have mark : ';' ∈ tail := by
    have member : ';' ∈ wrapper ++ (gap ++ '(' :: tail) := by simp [split]
    simpa [free, visible] using member
  obtain ⟨inner, behind, fresh, rfl⟩ := exists_cut mark
  have same : body ++ ';' :: rest = (wrapper ++ (gap ++ '(' :: inner)) ++ ';' :: behind := by
    simp [← split]
  have absent : ';' ∉ wrapper ++ (gap ++ '(' :: inner) := by simp [free, visible, fresh]
  exact ⟨gap, inner, blanks, fresh, (eq_of_append_mark clear absent same).1⟩

/-- A candidate goes from the macro to the first semicolon behind it. -/
theorem candidate_eq_some_iff (free : ';' ∉ wrapper) (hit : Hit) :
    candidate wrapper before cs = some hit ↔
      isWordBoundary before cs.head? = true ∧ Headed wrapper cs ∧
        ∃ body rest, ';' ∉ body ∧ cs = body ++ ';' :: rest ∧ hit = ⟨body.length + 1, []⟩ := by
  constructor
  · intro found
    have boundary : isWordBoundary before cs.head? = true := by
      cases stands : isWordBoundary before cs.head? with
      | true => rfl
      | false => simp [candidate, stands] at found
    obtain ⟨named, inner, rest, atName, atOpen, atEnd, rfl⟩ := candidate_eq_some found
    obtain ⟨gap, blanks, rfl⟩ := exists_gap_of_afterTokens atOpen
    obtain ⟨body, clear, rfl⟩ := afterSemicolon_eq_some.mp atEnd
    have split := eq_append_of_afterLiteral atName
    have visible : ';' ∉ gap := fun member => absurd (blanks _ member) (by decide)
    refine ⟨boundary, ⟨gap, _, blanks, split⟩, wrapper ++ (gap ++ '(' :: body), rest, ?_, ?_, ?_⟩
    · simp [free, visible, clear]
    · simp [split]
    · rw [split]
      simp only [List.length_append, List.length_cons, Hit.mk.injEq, and_true]
      omega
  · rintro ⟨boundary, headed, body, rest, clear, rfl, rfl⟩
    obtain ⟨gap, inner, blanks, fresh, rfl⟩ := headed.cut free clear rfl
    have cut : wrapper ++ (gap ++ '(' :: inner) ++ ';' :: rest =
        wrapper ++ (gap ++ '(' :: (inner ++ ';' :: rest)) := by simp
    have length : (wrapper ++ (gap ++ '(' :: (inner ++ ';' :: rest))).length - rest.length =
        (wrapper ++ (gap ++ '(' :: inner)).length + 1 := by
      simp only [List.length_append, List.length_cons]
      omega
    have opening : afterTokens [['(']] (gap ++ '(' :: (inner ++ ';' :: rest)) =
        some (inner ++ ';' :: rest) := afterTokens_gap blanks (by decide) _
    have closing : afterLiteral [';'] ((inner ++ ';' :: rest).dropWhile (· ≠ ';')) = some rest :=
      afterSemicolon_eq_some.mpr ⟨inner, fresh, rfl⟩
    rw [cut] at boundary ⊢
    simp only [candidate, boundary, ↓reduceIte, afterLiteral_append, opening, closing,
      Option.bind_eq_bind, Option.bind_some, length]
    rfl

end Candidate

section Extract

variable {wrapper text : List Char} {i : Nat} {hit : Hit}

theorem hitAt_candidate_iff (free : ';' ∉ wrapper) :
    HitAt (candidate wrapper) text i hit ↔
      OpensAt wrapper text i ∧ ∃ body rest, ';' ∉ body ∧ text.drop i = body ++ ';' :: rest ∧
        hit = ⟨body.length + 1, []⟩ := by
  rw [HitAt, candidate_eq_some_iff free, ← and_assoc]
  exact and_congr_left fun _ => ⟨fun both => ⟨both.1, both.2⟩, fun opens => ⟨opens.1, opens.2⟩⟩

theorem part_of_hitAt {body rest : List Char} (split : text.drop i = body ++ ';' :: rest) :
    Place.part text ⟨i, i + (body.length + 1)⟩ = body ++ [';'] := by
  rw [Place.part, List.drop_take, split, Nat.add_sub_cancel_left]
  have cut : body ++ ';' :: rest = (body ++ [';']) ++ rest := by simp
  rw [cut]
  exact List.take_left' (by simp)

theorem extracted_of_walked (free : ';' ∉ wrapper) {places : List Place}
    (walked : Walked (candidate wrapper) text 0 places) :
    Extracted wrapper text places (places.map (Place.part text)) := by
  have seen (p : Place) (member : p ∈ places) : OpensAt wrapper text p.start ∧
      ∃ body rest, ';' ∉ body ∧ text.drop p.start = body ++ ';' :: rest ∧
        p = ⟨p.start, p.start + (body.length + 1)⟩ := by
    obtain ⟨_, hit, found, _, stop⟩ := walked.hits p member
    obtain ⟨opens, body, rest, clear, split, rfl⟩ := (hitAt_candidate_iff free).mp found
    exact ⟨opens, body, rest, clear, split, by rw [← stop]⟩
  refine ⟨rfl, fun p member => ?_, walked.apart, fun p member => ?_, fun p member => ?_, ?_⟩
  · obtain ⟨_, body, rest, _, split, same⟩ := seen p member
    have length := congrArg List.length split
    rw [List.length_drop, List.length_append, List.length_cons] at length
    have stop : p.stop = p.start + (body.length + 1) := congrArg Place.stop same
    omega
  · obtain ⟨opens, body, rest, clear, split, same⟩ := seen p member
    refine ⟨opens, ?_⟩
    obtain ⟨gap, inner, blanks, _, rfl⟩ := opens.headed.cut free clear split
    rw [same, part_of_hitAt split]
    exact ⟨gap, inner ++ [';'], blanks, by simp⟩
  · obtain ⟨_, body, rest, clear, split, same⟩ := seen p member
    rw [same, part_of_hitAt split]
    exact ⟨body, clear, rfl⟩
  · intro i opens mark
    obtain ⟨body, rest, clear, split⟩ := exists_cut mark
    have found := (hitAt_candidate_iff free).mpr ⟨opens, body, rest, clear, split, rfl⟩
    obtain ⟨p, member, covers⟩ := walked.complete i (Nat.zero_le i) _ found
    exact ⟨p, member, covers, fun q other within =>
      Place.eq_of_covers walked.apart other member within covers⟩

end Extract

/-- The candidates of any text are parts of it, one behind the other; each begins with the wrapper
macro as a word and an opening parenthesis, and ends in its only semicolon; and no place at which
the macro opens something that is closed later is outside of them. -/
theorem candidatesOf_extracted (o : Options) (text : List Char) (valid : o.validate = .ok ()) :
    ∃ places, Extracted o.wrapperMacro.toList text places
      (candidatesOf o.wrapperMacro.toList text) := by
  have free : ';' ∉ o.wrapperMacro.toList := Options.not_mem_wrapperMacro valid (by decide)
  obtain ⟨places, parts, walked⟩ := spans_walked (candidate_proper o.wrapperMacro.toList) text
  refine ⟨places, ?_⟩
  rw [candidatesOf, parts]
  exact extracted_of_walked free walked

/-- A macro that is part of a longer word, one inside of a candidate, and one that is never
closed. -/
theorem candidatesOf_extracted_nested :
    let text := "éext_def(a); ext_def\u2003(b ext_def(c; d; ext_def(e".toList
    ({} : Options).validate = .ok () ∧
      ∃ places, Extracted "ext_def".toList text places (candidatesOf "ext_def".toList text) := by
  intro text
  exact ⟨rfl, candidatesOf_extracted {} text rfl⟩

end HeaderBindings.Header
