import HeaderBindings.Proofs.Declaration.Name
import HeaderBindings.Proofs.Layout.Rewritten

set_option autoImplicit false

namespace HeaderBindings.Layout

open Text Header

namespace Written

variable {near glued : Bool} {tokens first second : List Token} {cs : List Char} {c : Char}

theorem append_mark_inv (written : Written near glued (first ++ .mark c :: second) cs) :
    ∃ before behind, cs = before ++ c :: behind ∧ Written near glued first before := by
  generalize same : first ++ Token.mark c :: second = all at written
  induction written generalizing first with
  | nil => simp at same
  | @blank near glued d all cs blank rest ih =>
      obtain ⟨before, behind, rfl, front⟩ := ih same
      exact ⟨d :: before, behind, rfl, .blank blank front⟩
  | @comment near glued body all cs plain rest ih =>
      obtain ⟨before, behind, rfl, front⟩ := ih same
      exact ⟨_, behind, by simp, .comment plain front⟩
  | @qualifier glued all cs rest ih =>
      obtain ⟨before, behind, rfl, front⟩ := ih same
      exact ⟨_, behind, by simp, .qualifier front⟩
  | @word own all cs name rest ih =>
      cases first with
      | nil => cases same
      | cons token first =>
          cases same
          obtain ⟨before, behind, rfl, front⟩ := ih rfl
          exact ⟨_, behind, by simp, .word name front⟩
  | @mark near glued d all cs known rest ih =>
      cases first with
      | nil =>
          cases same
          exact ⟨[], cs, rfl, .nil⟩
      | cons token first =>
          cases same
          obtain ⟨before, behind, rfl, front⟩ := ih rfl
          exact ⟨d :: before, behind, rfl, .mark known front⟩

theorem run_outside (written : Written near glued tokens cs) :
    CommentState.outside.run cs = .outside := by
  have kept {part rest : List Char} (free : '/' ∉ part) :
      CommentState.outside.run (part ++ rest) = CommentState.outside.run rest := by
    induction part with
    | nil => rfl
    | cons c part ih =>
        have other : c ≠ '/' := fun same => free (by simp [same])
        rw [List.cons_append, CommentState.run_cons, CommentState.next, if_neg other,
          ih fun member => free (List.mem_cons_of_mem c member)]
  induction written with
  | nil => rfl
  | @blank near glued c tokens cs blank rest ih =>
      have other : c ≠ '/' := ne_of_isBlank blank (by decide)
      rw [← List.singleton_append, kept (by simpa using other.symm), ih]
  | @comment near glued body tokens cs plain rest ih =>
      have closer := (throughCloser_some (throughCloser_body body cs plain)).2.1
      show CommentState.inside.run (body ++ '*' :: '/' :: cs) = .outside
      rw [closer]
      simpa using ih
  | qualifier rest ih => rw [kept (by decide), ih]
  | word name rest ih => rw [kept (name.not_mem (by decide)), ih]
  | @mark near glued c tokens cs known rest ih =>
      have other : c ≠ '/' := ne_of_mem_marks known (by decide)
      rw [← List.singleton_append, kept (by simpa using other.symm), ih]

/-- Without its comments, the text has a mark as often as it is one of the tokens. -/
theorem count (written : Written near glued tokens cs) (known : c ∈ marks) :
    (Header.stripComments cs).count c = tokens.count (.mark c) := by
  have inWord {letters : List Char} (plain : ∀ d ∈ letters, isAsciiWord d = true) :
      letters.count c = 0 := by
    refine List.count_eq_zero.mpr fun member => ?_
    have letter := plain c member
    rw [isAsciiWord_of_mem_marks known] at letter
    cases letter
  induction written with
  | nil => rfl
  | @blank near glued d tokens cs blank rest ih =>
      have slash : d ≠ '/' := ne_of_isBlank blank (by decide)
      have other : d ≠ c := ne_of_isBlank blank (isBlank_of_mem_marks known)
      rw [stripComments_cons fun opener => slash opener.1, List.count_cons_of_ne other, ih]
  | comment plain rest ih => rw [stripComments_body plain, ih]
  | qualifier rest ih =>
      rw [stripComments_append_free (by decide), List.count_append,
        inWord (forall_mem_of_all (by decide)), ih, Nat.zero_add]
  | word name rest ih =>
      rw [stripComments_append_free (name.not_mem (by decide)), List.count_append,
        inWord name.plain, ih, Nat.zero_add, List.count_cons_of_ne (by simp)]
  | @mark near glued d tokens cs here rest ih =>
      have slash : d ≠ '/' := ne_of_mem_marks here (by decide)
      rw [stripComments_cons fun opener => slash opener.1, List.count_cons, ih, List.count_cons]
      simp

end Written

namespace Declared

variable (d : Declared) (wrapper : List Char)

/-- The declaration up to its last closing parenthesis. -/
def front : List Token :=
  .word wrapper :: .mark '(' :: (d.returnType.tokens ++ .mark ')' ::
    .word d.name.letters :: .mark '(' :: d.arguments.tokens)

theorem tokens_eq_front : d.tokens wrapper = d.front wrapper ++ .mark ')' :: [.mark ';'] := by
  simp [Declared.tokens, Declared.body, front, Identifier.token]

theorem count_front : (d.front wrapper).count (.mark ')') = 1 := by
  have typed : (d.returnType.tokens).count (.mark ')') = 0 :=
    List.count_eq_zero.mpr fun member => by cases d.returnType.typeTokens.eq_star_of_mem member
  have listed : (d.arguments.tokens).count (.mark ')') = 0 :=
    List.count_eq_zero.mpr (d.arguments.not_mem_of_mark (by decide))
  simp [front, List.count_append, typed, listed]

theorem wordBehind_front {cs : List Char} (spells : Spells false (d.front wrapper) cs)
    (rest : List Char) : wordBehind (cs ++ ')' :: rest) = d.name.letters := by
  have cut : d.front wrapper = (.word wrapper :: .mark '(' :: d.returnType.tokens) ++
      .mark ')' :: (.word d.name.letters :: .mark '(' :: d.arguments.tokens) := by
    simp [front]
  rw [cut] at spells
  obtain ⟨before, behind, rfl, returned, called⟩ := spells.append_mark_inv
  obtain ⟨gap, list, blanks, rfl, name, listed⟩ := called.word_inv
  have typed : .mark ')' ∉ Token.word wrapper :: .mark '(' :: d.returnType.tokens := by
    have inType : .mark ')' ∉ d.returnType.tokens := fun member => by
      cases d.returnType.typeTokens.eq_star_of_mem member
    simp [inType]
  have free : ')' ∉ before := returned.not_mem (by decide) typed
  have ends : isWordAt (list ++ ')' :: rest).head? = false := by
    rw [Rule.isWordAt_append_mark _ _ (by decide)]
    exact listed.head
  have found := wordBehind_eq free blanks name.occupied name.isWord ends
  simpa using found

end Declared

/-- The start of a text has no character more often than the text, comments aside. -/
theorem count_stripComments_le {first : List Char} (closed : isClosed first = true)
    (second : List Char) {c : Char} (other : c ≠ '/') :
    (Header.stripComments first).count c ≤ (Header.stripComments (first ++ second)).count c := by
  obtain ⟨left, isPart, same | slash⟩ := stripComments_prefix closed second
  · rw [same]
    exact isPart.sublist.count_le c
  · rw [slash, List.count_append, List.count_singleton, if_neg (by simpa using other.symm)]
    exact isPart.sublist.count_le c

namespace Declared

variable {d : Declared} {wrapper part rest before : List Char}

/-- No start of a declaration has more than its two closing parentheses. -/
theorem count_part_le (written : Written false false (d.tokens wrapper) (part ++ rest))
    (closed : isClosed part = true) : (Header.stripComments part).count ')' ≤ 2 := by
  refine Nat.le_trans (@count_stripComments_le part closed rest ')' (by decide)) ?_
  rw [written.count (by decide), d.tokens_eq_front, List.count_append, d.count_front]
  decide

/-- A start that has them both reaches behind the second one. -/
theorem exists_front (written : Written false false (d.tokens wrapper) (part ++ rest))
    (closed : isClosed part = true) (two : 2 ≤ (Header.stripComments part).count ')') :
    ∃ before more, part = before ++ ')' :: more ∧
      Written false false (d.front wrapper) before := by
  rw [d.tokens_eq_front] at written
  obtain ⟨before, others, split, front⟩ := written.append_mark_inv
  have once : (Header.stripComments before).count ')' = 1 := by
    rw [front.count (by decide), d.count_front]
  rcases List.append_eq_append_iff.mp split with ⟨more, longer, _⟩ | ⟨more, longer, tail⟩
  · have fewer := @count_stripComments_le part closed more ')' (by decide)
    rw [← longer] at fewer
    omega
  · cases more with
    | nil =>
        rw [longer, List.append_nil] at two
        omega
    | cons c more =>
        obtain ⟨rfl, _⟩ := List.cons.inj tail
        exact ⟨before, more, longer, front⟩

theorem wordBehind_written (front : Written false false (d.front wrapper) before)
    (rest : List Char) :
    wordBehind (Rule.stripConst.apply (Header.stripComments (before ++ ')' :: rest))) =
      d.name.letters := by
  have outer : isClosed before = true := by
    rw [isClosed, front.run_outside]
    rfl
  have spells : Spells false (d.front wrapper)
      (Rule.stripConst.apply (Header.stripComments before)) :=
    front.stripComments.1.replaceFrom_constWord front.stripComments.2 none (by simp [isWordAt])
  have rewritten : Rule.stripConst.apply (Header.stripComments (before ++ ')' :: rest)) =
      Rule.stripConst.apply (Header.stripComments before) ++
        ')' :: replaceFrom Rule.constWord 0 true (some ')') (Header.stripComments rest) := by
    rw [stripComments_append before _ outer (by simp), stripComments_cons (by simp)]
    exact replaceAll_append_mark Rule.constWord_proper (Rule.constWord_stopsBefore (by decide)) _ _
  rw [rewritten]
  exact d.wordBehind_front wrapper spells _

end Declared

/-- Whatever is read of the start of a declaration, with a semicolon at the cut, has the name of the
declaration. -/
theorem name_of_cut {wrapper : String} (free : ')' ∉ wrapper.toList) {d : Declared}
    {part rest candidate : List Char}
    (written : Written false false (d.tokens wrapper.toList) (part ++ rest))
    (closed : isClosed part = true)
    (found : candidate ∈ candidates (.forWrapper wrapper) wrapper.toList (part ++ [';']))
    {f : Function} (read : Function.ofCandidate wrapper.toList candidate = .ok f) :
    f.name.toList = d.name.letters := by
  have cut : Header.stripComments (part ++ [';']) = Header.stripComments part ++ [';'] :=
    stripComments_append part [';'] closed (by decide)
  obtain ⟨plain, slashless⟩ := written.stripComments
  have hash : '#' ∉ Header.stripComments (part ++ [';']) := by
    have absent : '#' ∉ Header.stripComments (part ++ rest) :=
      plain.not_mem slashless (by decide) (by decide) (by decide)
    have fewer := @count_stripComments_le part closed rest '#' (by decide)
    rw [List.count_eq_zero.mpr absent] at fewer
    simp [cut, List.count_eq_zero.mp (Nat.le_zero.mp fewer)]
  have same : (Header.stripComments (part ++ [';'])).count ')' =
      (Header.stripComments part).count ')' := by
    rw [cut, List.count_append]
    rfl
  obtain ⟨count, behind⟩ := wordBehind_apply wrapper hash
  rw [same] at count
  obtain ⟨two, name⟩ := name_of_candidate free (infix_of_mem_spansFrom found) read
  -- There are two closing parentheses to read, and the declaration has no more.
  have few := Declared.count_part_le written closed
  obtain ⟨before, more, rfl, front⟩ :=
    Declared.exists_front written closed (Nat.le_trans two count)
  rw [name (Nat.le_trans count few), behind, List.append_assoc]
  exact Declared.wordBehind_written front (more ++ [';'])

end HeaderBindings.Layout
