import HeaderBindings.Proofs.Declaration.Function
import HeaderBindings.Proofs.Declaration.Grammar
import HeaderBindings.Proofs.Header.Spacing
import HeaderBindings.Proofs.Text.Lexeme

set_option autoImplicit false

namespace HeaderBindings

open Text

structure Shape.Alike (s t : Shape) : Prop where
  returned : SameLexemes s.returnType t.returnType
  named : s.name = t.name
  listed : SameLexemes s.parameters t.parameters

theorem exists_stop {gap stop front rest : List Char} (blanks : ∀ c ∈ gap, isBlank c = true)
    (stops : stop = [] ∨ stop = [';']) (same : SameLexemes (gap ++ stop) rest)
    (ended : (front ++ ')' :: rest).getLast? = some ';') :
    ∃ gap' stop', (∀ c ∈ gap', isBlank c = true) ∧ (stop' = [] ∨ stop' = [';']) ∧
      rest = gap' ++ stop' := by
  rcases stops with rfl | rfl
  · rw [List.append_nil] at same
    exact ⟨rest, [], same.blanks blanks, .inl rfl, (List.append_nil rest).symm⟩
  · have free : ';' ∉ gap := fun member => absurd (blanks ';' member) (by decide)
    obtain ⟨gap', trail, rfl, _, atGap, atTrail⟩ := same.cut (by decide) free
    have behind := atTrail.blanks (by simp)
    rcases List.eq_nil_or_concat trail with rfl | ⟨start, c, rfl⟩
    · exact ⟨gap', [';'], atGap.blanks blanks, .inr rfl, rfl⟩
    · simp only [List.concat_eq_append] at ended behind
      have last : c = ';' := by simpa [List.getLast?_append, List.getLast?_cons] using ended
      exact absurd (behind c (by simp)) (by rw [last]; decide)

/-- The first parentheses of the text hold nothing. -/
def HoldsNothing (cs : List Char) : Prop := ['(', ')'] <+: cs.dropWhile (· ≠ '(')

instance (cs : List Char) : Decidable (HoldsNothing cs) :=
  inferInstanceAs (Decidable (_ <+: _))

theorem holdsNothing_iff {front rest : List Char} (free : '(' ∉ front) :
    HoldsNothing (front ++ '(' :: rest) ↔ rest.head? = some ')' := by
  have passed : ∀ c ∈ front, decide (c ≠ '(') = true := by
    intro c member
    exact decide_eq_true fun same => free (same ▸ member)
  rw [HoldsNothing, List.dropWhile_append_of_pos passed, List.dropWhile_cons_of_neg (by simp)]
  cases rest <;> simp [eq_comm]

/-- A text that begins with the wrapper macro and ends in a semicolon has the parts that another one
with the same lexemes has, if its return type is not empty. -/
theorem Shape.Splits.of_lexemes {s : Shape} {wrapper cs ds : List Char} (occupied : wrapper ≠ [])
    (words : ∀ c ∈ wrapper, isWord c = true) (splits : s.Splits wrapper cs)
    (same : SameLexemes cs ds) (begun : wrapper <+: ds) (ended : ds.getLast? = some ';')
    (typed : HoldsNothing ds → HoldsNothing cs) : ∃ t, s.Alike t ∧ t.Splits wrapper ds := by
  obtain ⟨returned, ofReturn, named, ofName, ofList, gap₁, gap₂, gap₃, gap₄, stop, blanks₁, blanks₂,
    blanks₃, blanks₄, stops, rfl⟩ := splits
  have inner {run : List Char} (words : ∀ c ∈ run, isWord c = true) :
      ∀ c ∈ run, isInner c = true := fun c member => isInner_of_isWord (words c member)
  have noBlank {gap : List Char} (blanks : ∀ c ∈ gap, isBlank c = true) : '(' ∉ gap :=
    fun member => absurd (blanks '(' member) (by decide)
  have noWord {run : List Char} (words : ∀ c ∈ run, isWord c = true) : '(' ∉ run :=
    fun member => absurd (words '(' member) (by decide)
  have inReturn : ')' ∉ s.returnType := fun member => absurd (ofReturn ')' member) (by decide)
  have inList : ')' ∉ s.parameters := fun member => absurd (ofList ')' member) (by decide)
  have first : '(' ∉ wrapper ++ gap₁ := by simp [noWord words, noBlank blanks₁]
  have second : '(' ∉ gap₂ ++ (s.name ++ gap₃) := by
    simp [noWord ofName, noBlank blanks₂, noBlank blanks₃]
  have whole : wrapper ++ (gap₁ ++ '(' :: (s.returnType ++ ')' :: (gap₂ ++ (s.name ++
      (gap₃ ++ '(' :: (s.parameters ++ ')' :: (gap₄ ++ stop))))))) =
      (wrapper ++ gap₁) ++ '(' :: (s.returnType ++ ')' :: ((gap₂ ++ (s.name ++ gap₃)) ++
        '(' :: (s.parameters ++ ')' :: (gap₄ ++ stop)))) := by simp
  rw [whole] at same typed
  -- The parentheses cut the other text in the same way.
  obtain ⟨front, rest, rfl, _, atWrapper, same⟩ := same.cut (by decide) first
  obtain ⟨returnType, rest, rfl, _, atReturn, same⟩ := same.cut (by decide) inReturn
  obtain ⟨middle, rest, rfl, _, atName, same⟩ := same.cut (by decide) second
  obtain ⟨parameters, rest, rfl, noClose, atList, atEnd⟩ := same.cut (by decide) inList
  obtain ⟨gap₁', blanks₁', rfl⟩ := atWrapper.run_front occupied (inner words) blanks₁ begun
  obtain ⟨gap₂', gap₃', blanks₂', blanks₃', rfl⟩ :=
    atName.run named (inner ofName) blanks₂ blanks₃
  have behind : (wrapper ++ gap₁' ++ '(' :: (returnType ++ ')' ::
      (gap₂' ++ (s.name ++ gap₃') ++ '(' :: parameters)) ++ ')' :: rest).getLast? = some ';' := by
    rw [← ended]
    congr 1
    simp
  obtain ⟨gap₄', stop', blanks₄', stops', rfl⟩ := exists_stop blanks₄ stops atEnd behind
  refine ⟨⟨returnType, s.name, parameters⟩, ⟨atReturn, rfl, atList⟩, ⟨?_, ?_, named, ofName, ?_,
    gap₁', gap₂', gap₃', gap₄', stop', blanks₁', blanks₂', blanks₃', blanks₄', stops', by simp⟩⟩
  · rintro rfl
    have free : '(' ∉ wrapper ++ gap₁' := by simp [noWord words, noBlank blanks₁']
    have nothing := typed ((holdsNothing_iff free).mpr rfl)
    rw [holdsNothing_iff first] at nothing
    obtain ⟨c, type, shape⟩ := List.exists_cons_of_ne_nil returned
    rw [shape, List.cons_append, List.head?_cons, Option.some.injEq] at nothing
    exact inReturn (by simp [shape, nothing])
  · exact atReturn.all (fun c blank => by simp [isReturnChar, blank]) ofReturn
  · refine atList.all (fun c blank => ?_) ofList
    have opens : c ≠ '(' := ne_of_isBlank blank (by decide)
    have closes : c ≠ ')' := ne_of_isBlank blank (by decide)
    simp [isListChar, opens, closes]

theorem trim_run {run gap gap' : List Char} (occupied : run ≠ [])
    (visible : ∀ c ∈ run, isBlank c = false) (blanks : ∀ c ∈ gap, isBlank c = true)
    (blanks' : ∀ c ∈ gap', isBlank c = true) : trim (gap ++ (run ++ gap')) = run := by
  have front : dropBlanks (gap ++ (run ++ gap')) = run ++ gap' := by
    obtain ⟨c, own, rfl⟩ := List.exists_cons_of_ne_nil occupied
    rw [dropBlanks_gap blanks]
    exact dropBlanks_visible _ (visible c (by simp))
  rw [trim, front, Header.dropBlanksEnd_run visible, Header.dropBlanksEnd_gap blanks',
    List.append_nil]

theorem void_of_lexemes {cs ds : List Char} (same : SameLexemes cs ds)
    (void : (trim cs).map Char.toLower = ['v', 'o', 'i', 'd']) :
    (trim ds).map Char.toLower = ['v', 'o', 'i', 'd'] := by
  obtain ⟨gap, blanks, front⟩ := exists_gap cs
  obtain ⟨gap', blanks', back⟩ := Header.exists_gap_end (dropBlanks cs)
  have split : cs = gap ++ (trim cs ++ gap') := front.trans (congrArg (gap ++ ·) back)
  have occupied : trim cs ≠ [] := by
    intro empty
    rw [empty] at void
    cases void
  have inner : ∀ c ∈ trim cs, isInner c = true := fun c member =>
    isInner_of_isWord (isWord_of_isAsciiWord (Layout.isWord_of_void void member))
  rw [split] at same
  obtain ⟨before, after, blank, blank', rfl⟩ := same.run occupied inner blanks blanks'
  rwa [trim_run occupied (fun c member => isBlank_of_isInner (inner c member)) blank blank']

theorem baseType_of_lexemes {cs ds : List Char} (same : SameLexemes cs ds)
    (free : ∀ c ∈ cs, c ∉ separators) : baseType cs = baseType ds := by
  have kept (c : Char) (blank : isBlank c = true) :
      ∃ d, isBlank d = true ∧ [if c = '*' then ' ' else c] = [d] := by
    have other : c ≠ '*' := ne_of_isBlank blank (by decide)
    exact ⟨c, blank, by simp [other]⟩
  have shape (cs : List Char) : words (cs.map fun c => if c = '*' then ' ' else c) =
      (words cs).flatMap fun w => words (w.flatMap fun c => [if c = '*' then ' ' else c]) := by
    rw [← words_flatMap kept, List.map_eq_flatMap]
  rw [baseType, baseType, shape, shape, same.words free]

theorem map_trim_splitCommas {cs ds : List Char} (tidy : Tidy cs) (tidy' : Tidy ds)
    (commas : ∀ c ∈ cs, c ∈ separators → c = ',') (same : SameLexemes cs ds) :
    (splitCommas cs).map trim = (splitCommas ds).map trim := by
  have piece {cs ds : List Char} (tidy : Tidy cs) (tidy' : Tidy ds)
      (commas : ∀ c ∈ cs, c ∈ separators → c = ',') (free : ',' ∉ cs) (same : SameLexemes cs ds) :
      trim cs = trim ds := by
    rw [tidy.trim, tidy'.trim, same.words]
    intro c member known
    rw [commas c member known] at member
    exact free member
  induction size : cs.length using Nat.strongRecOn generalizing cs ds with
  | ind n ih =>
    subst size
    by_cases comma : ',' ∈ cs
    · obtain ⟨first, second, rfl, free⟩ := List.eq_append_cons_of_mem comma
      obtain ⟨first', second', rfl, free', front, behind⟩ := same.cut (by decide) free
      have here := piece (tidy.part (List.prefix_append _ _).isInfix)
        (tidy'.part (List.prefix_append _ _).isInfix)
        (fun c member => commas c (List.mem_append_left _ member)) free front
      have suffix (first second : List Char) : second <:+: first ++ ',' :: second :=
        ⟨first ++ [','], [], by simp⟩
      rw [splitCommas_append free, splitCommas_append free', List.map_cons, List.map_cons, here,
        ih second.length (by simp; omega) (tidy.part (suffix first second))
          (tidy'.part (suffix first' second'))
          (fun c member => commas c (by simp [member])) behind rfl]
    · have comma' : ',' ∉ ds := fun member => comma ((same.mem (by decide)).mpr member)
      rw [splitCommas_free comma, splitCommas_free comma', List.map_singleton, List.map_singleton,
        piece tidy tidy' commas comma same]

theorem Shape.Gives.of_lexemes {s t : Shape} (alike : s.Alike t)
    (ofReturn : ∀ c ∈ s.returnType, isReturnChar c = true)
    (ofList : ∀ c ∈ s.parameters, isListChar c = true) (noMark : ';' ∉ s.parameters)
    (tidy : Tidy s.parameters) (tidy' : Tidy t.parameters) {f : Function}
    (gives : s.Gives (.ok f)) : t.Gives (.ok f) := by
  have free : ∀ c ∈ s.returnType, c ∉ separators := by
    intro c member known
    have never : isReturnChar c = false := forall_mem_of_all (by decide) c known
    rw [ofReturn c member] at never
    cases never
  have commas : ∀ c ∈ s.parameters, c ∈ separators → c = ',' := by
    intro c member known
    simp only [separators, List.mem_cons, List.not_mem_nil, or_false] at known
    rcases known with rfl | rfl | rfl | rfl
    · exact absurd (ofList '(' member) (by decide)
    · exact absurd (ofList ')' member) (by decide)
    · rfl
    · exact absurd member noMark
  have star : s.returnType.contains '*' = t.returnType.contains '*' := by
    rw [Bool.eq_iff_iff, List.contains_iff_mem, List.contains_iff_mem]
    exact alike.returned.mem (by decide)
  have function (parameters : List Parameter) : s.function parameters = t.function parameters := by
    simp only [Shape.function, alike.named, baseType_of_lexemes alike.returned free, star]
  have pieces : parameterPieces s.parameters = parameterPieces t.parameters := by
    rw [parameterPieces, parameterPieces, map_trim_splitCommas tidy tidy' commas alike.listed]
  cases gives with
  | void spelled =>
      rw [function]
      exact .void (void_of_lexemes alike.listed spelled)
  | read named cut each =>
      rw [function]
      refine .read (fun spelled => named (void_of_lexemes alike.listed.symm spelled)) ?_ each
      rw [pieces_iff, ← pieces]
      exact pieces_iff.mp cut

/-- A candidate in normal form: it begins with the wrapper macro, and its only semicolon comes
last. -/
structure Normal (wrapper candidate : List Char) : Prop where
  tidy : Tidy candidate
  shaped : ∃ body, candidate = body ++ [';'] ∧ ';' ∉ body ∧ wrapper <+: body

theorem Normal.trim {wrapper candidate : List Char} (normal : Normal wrapper candidate)
    (occupied : wrapper ≠ []) (words : ∀ c ∈ wrapper, isWord c = true) :
    Text.trim candidate = candidate := by
  obtain ⟨body, rfl, _, ⟨rest, rfl⟩⟩ := normal.shaped
  obtain ⟨c, own, rfl⟩ := List.exists_cons_of_ne_nil occupied
  have front : dropBlanks (c :: own ++ rest ++ [';']) = c :: own ++ rest ++ [';'] :=
    dropBlanks_visible _ (isBlank_of_isWord (words c (by simp)))
  have back : dropBlanksEnd [';'] = [';'] := rfl
  rw [Text.trim, front, Header.dropBlanksEnd_append _ (by rw [back]; simp), back]

/-- Of candidates with the same lexemes the same function is read, if the return type is not empty
in one only. -/
theorem Function.ofCandidate_lexemes {wrapper candidate other : List Char} (occupied : wrapper ≠ [])
    (words : ∀ c ∈ wrapper, isWord c = true) (normal : Normal wrapper candidate)
    (normal' : Normal wrapper other) (same : SameLexemes candidate other)
    (typed : HoldsNothing other → HoldsNothing candidate) {f : Function}
    (read : ofCandidate wrapper candidate = .ok f) : ofCandidate wrapper other = .ok f := by
  obtain ⟨s, splits, gives⟩ := gives_of_ofCandidate read
  rw [normal.trim occupied words] at splits
  obtain ⟨body, shape, noMark, begun⟩ := normal.shaped
  obtain ⟨body', shape', _, begun'⟩ := normal'.shaped
  obtain ⟨t, alike, splits'⟩ := splits.of_lexemes occupied words same
    (begun'.trans (by rw [shape']; exact List.prefix_append _ _)) (by rw [shape']; simp) typed
  have inside {s : Shape} {cs : List Char} (splits : s.Splits wrapper cs) :
      ∃ front behind, cs = front ++ (s.parameters ++ ')' :: behind) := by
    obtain ⟨_, _, _, _, _, gap₁, gap₂, gap₃, gap₄, stop, _, _, _, _, _, rfl⟩ := splits
    exact ⟨wrapper ++ (gap₁ ++ '(' :: (s.returnType ++ ')' :: (gap₂ ++ (s.name ++
      (gap₃ ++ ['(']))))), gap₄ ++ stop, by simp⟩
  obtain ⟨front, behind, cut⟩ := inside splits
  obtain ⟨front', behind', cut'⟩ := inside splits'
  have last : ';' ∉ s.parameters := by
    intro member
    have whole := congrArg List.dropLast (shape.symm.trans cut)
    rw [List.dropLast_concat, ← List.append_assoc,
      List.dropLast_append_of_ne_nil (List.cons_ne_nil _ _)] at whole
    exact noMark (by rw [whole]; simp [member])
  have kept := gives.of_lexemes alike splits.ofReturn splits.ofList last
    (normal.tidy.part ⟨front, ')' :: behind, by rw [cut, List.append_assoc]⟩)
    (normal'.tidy.part ⟨front', ')' :: behind', by rw [cut', List.append_assoc]⟩)
  rw [← normal'.trim occupied words] at splits'
  exact ofCandidate_of_gives splits' kept

end HeaderBindings
