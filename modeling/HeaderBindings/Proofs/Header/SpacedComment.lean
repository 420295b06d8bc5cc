import HeaderBindings.Proofs.Header.Statement

set_option autoImplicit false

namespace HeaderBindings.Header

open Text CommentState

/-- A block comment, for which a space is written. -/
def spacedComment : Finder := fun before cs =>
  (blockComment before cs).map fun hit => ⟨hit.length, [' ']⟩

def spaceComments (cs : List Char) : List Char := replaceAll spacedComment cs

/-- An end of the text, or a character that no lexeme goes on with. -/
def isOuterAt (c : Option Char) : Bool := !c.any isInner

/-- A comment between the texts can be a space: their statement does not name the wrapper macro, or
no lexeme goes on from one text to the other. -/
def IsApart (wrapper left right : List Char) : Prop :=
  wrapper <:+: statementAt left right →
    isOuterAt left.getLast? = true ∨ isOuterAt right.head? = true

instance (wrapper left right : List Char) : Decidable (IsApart wrapper left right) :=
  inferInstanceAs (Decidable (_ → _))

/-- Every block comment in a statement that names the wrapper macro has, once the comments are gone,
an end of the text, white space or a separator on one of its sides. -/
def CommentsApart (wrapper header : List Char) : Prop :=
  ∀ before rest, header = before ++ rest → isClosed before = true →
    ∀ hit, blockComment none rest = some hit →
      IsApart wrapper (stripComments before) (stripComments (rest.drop hit.length))

/-- Whether a comment that starts behind so many characters is apart. -/
def isApartAt (wrapper header : List Char) (i : Nat) : Bool :=
  !isClosed (header.take i) || (blockComment none (header.drop i)).all fun hit =>
    IsApart wrapper (stripComments (header.take i))
      (stripComments ((header.drop i).drop hit.length))

theorem commentsApart_iff (wrapper header : List Char) :
    (List.range (header.length + 1)).all (isApartAt wrapper header) = true ↔
      CommentsApart wrapper header := by
  simp only [List.all_eq_true, List.mem_range]
  constructor
  · rintro each before rest rfl closed hit found
    have here := each before.length (by rw [List.length_append]; omega)
    rw [isApartAt, List.take_left, List.drop_left, closed, found] at here
    simpa using here
  · intro apart i _
    cases closed : isClosed (header.take i) with
    | false => simp [isApartAt, closed]
    | true =>
        cases found : blockComment none (header.drop i) with
        | none => simp [isApartAt, found]
        | some hit =>
            have here := apart (header.take i) (header.drop i)
              (List.take_append_drop i header).symm closed hit found
            simpa [isApartAt, closed, found] using here

instance (wrapper header : List Char) : Decidable (CommentsApart wrapper header) :=
  decidable_of_iff _ (commentsApart_iff wrapper header)

theorem stripComments_hit {cs : List Char} {hit : Hit} (found : blockComment none cs = some hit) :
    stripComments cs = stripComments (cs.drop hit.length) := by
  unfold blockComment at found
  split at found
  · obtain ⟨n, closer, rfl⟩ := Option.map_eq_some_iff.mp found
    exact stripComments_comment closer
  · cases found

theorem stripComments_plain {c : Char} {cs : List Char}
    (missed : blockComment none (c :: cs) = none) :
    stripComments (c :: cs) = c :: stripComments cs := by
  unfold stripComments replaceAll
  rw [replaceFrom_none missed, replaceFrom_blockComment]
  rfl

theorem spacedComment_proper : Proper spacedComment := by
  constructor
  · intro before cs hit found
    obtain ⟨plain, here, rfl⟩ := Option.map_eq_some_iff.mp found
    show 0 < plain.length
    exact blockComment_proper.positive here
  · intro before cs hit found
    obtain ⟨plain, here, rfl⟩ := Option.map_eq_some_iff.mp found
    show plain.length ≤ cs.length
    exact blockComment_proper.within here

theorem replaceFrom_spacedComment (before : Option Char) (cs : List Char) :
    replaceFrom spacedComment 0 true before cs = spaceComments cs := by
  unfold spaceComments replaceAll
  cases cs <;> rfl

theorem spaceComments_plain {c : Char} {cs : List Char}
    (missed : blockComment none (c :: cs) = none) :
    spaceComments (c :: cs) = c :: spaceComments cs := by
  have here : spacedComment none (c :: cs) = none := by rw [spacedComment, missed]; rfl
  unfold spaceComments replaceAll
  rw [replaceFrom_none here, replaceFrom_spacedComment]
  rfl

theorem spaceComments_hit {cs : List Char} {hit : Hit} (found : blockComment none cs = some hit) :
    spaceComments cs = ' ' :: spaceComments (cs.drop hit.length) := by
  have positive := blockComment_proper.positive found
  have within := blockComment_proper.within found
  have length : (cs.take hit.length).length = hit.length := by simp [Nat.min_eq_left within]
  have occupied : cs.take hit.length ≠ [] := List.length_pos_iff.mp (by omega)
  have here : spacedComment none (cs.take hit.length ++ cs.drop hit.length) =
      some ⟨(cs.take hit.length).length, [' ']⟩ := by
    rw [List.take_append_drop, spacedComment, found, length]
    rfl
  have taken := replaceFrom_take spacedComment_proper occupied here true
  rw [List.take_append_drop, replaceFrom_spacedComment, replaceFrom_spacedComment] at taken
  exact taken

/-- A text is read character by character, but each comment as a whole. -/
theorem comments_induction {motive : List Char → Prop} (nil : motive [])
    (plain : ∀ c cs, blockComment none (c :: cs) = none → motive cs → motive (c :: cs))
    (comment : ∀ cs hit, blockComment none cs = some hit → motive (cs.drop hit.length) → motive cs)
    (cs : List Char) : motive cs := by
  induction size : cs.length using Nat.strongRecOn generalizing cs with
  | ind n ih =>
    subst size
    cases cs with
    | nil => exact nil
    | cons c cs =>
        cases found : blockComment none (c :: cs) with
        | none => exact plain c cs found (ih cs.length (by simp) cs rfl)
        | some hit =>
            have positive := blockComment_proper.positive found
            exact comment _ hit found (ih _ (by simp; omega) _ rfl)

theorem closer_of_throughCloser {cs : List Char} {n : Nat} (found : throughCloser cs = some n) :
    ['*', '/'] <:+: cs := by
  fun_induction throughCloser cs generalizing n with
  | case1 => cases found
  | case2 => cases found
  | case3 c d cs both =>
      obtain ⟨rfl, rfl⟩ := both
      exact ⟨[], cs, rfl⟩
  | case4 c d cs open_ ih =>
      obtain ⟨m, later, _⟩ := Option.map_eq_some_iff.mp found
      exact List.infix_cons (ih later)

theorem not_closer_of_throughCloser {cs : List Char} (missed : throughCloser cs = none) :
    ¬ ['*', '/'] <:+: cs := by
  rintro ⟨before, rest, rfl⟩
  induction before with
  | nil => simp [throughCloser] at missed
  | cons c before ih =>
      refine ih ?_
      cases tail : before ++ ['*', '/'] ++ rest with
      | nil => simp at tail
      | cons d tail' =>
          rw [List.cons_append, List.cons_append, tail] at missed
          by_cases both : c = '*' ∧ d = '/'
          · simp [throughCloser, both] at missed
          · rwa [throughCloser_cons _ both, Option.map_eq_none_iff] at missed

theorem spaceComments_eq_self {cs : List Char} (plain : ¬ ['*', '/'] <:+: cs) :
    spaceComments cs = cs := by
  refine replaceAll_eq_self spacedComment_proper cs fun before first second split => ?_
  cases found : spacedComment before second with
  | none => rfl
  | some hit =>
      obtain ⟨comment, here, _⟩ := Option.map_eq_some_iff.mp found
      unfold blockComment at here
      split at here
      · obtain ⟨n, closer, _⟩ := Option.map_eq_some_iff.mp here
        obtain ⟨body, rest, same⟩ := closer_of_throughCloser closer
        refine absurd ⟨first ++ '/' :: '*' :: body, rest, ?_⟩ plain
        rw [split, ← same]
        simp
      · cases here

theorem stripComments_spaceComments (cs : List Char) :
    stripComments (spaceComments cs) = spaceComments cs := by
  induction cs using comments_induction with
  | nil => rfl
  | comment cs hit found ih =>
      rw [spaceComments_hit found, stripComments_cons (by simp), ih]
  | plain c cs missed ih =>
      rw [spaceComments_plain missed]
      have still : blockComment none (c :: spaceComments cs) = none := by
        by_cases opener : c = '/' ∧ (spaceComments cs).head? = some '*'
        · -- An opener that was there before has no closer behind it.
          obtain ⟨rfl, star⟩ := opener
          cases cs with
          | nil => cases star
          | cons d cs =>
              cases found : blockComment none (d :: cs) with
              | some hit =>
                  rw [spaceComments_hit found] at star
                  cases star
              | none =>
                  rw [spaceComments_plain found] at star ⊢
                  obtain rfl : d = '*' := by simpa using star
                  rw [blockComment_opener, Option.map_eq_none_iff] at missed
                  rw [spaceComments_eq_self (not_closer_of_throughCloser missed),
                    blockComment_opener, missed]
                  rfl
        · exact blockComment_none none opener
      rw [stripComments_plain still, ih]

theorem throughCloser_take {cs : List Char} {n : Nat} (found : throughCloser cs = some n) :
    throughCloser (cs.take n) = some n := by
  fun_induction throughCloser cs generalizing n with
  | case1 => cases found
  | case2 => cases found
  | case3 c d cs both =>
      cases found
      simp [throughCloser, both]
  | case4 c d cs open_ ih =>
      obtain ⟨m, later, rfl⟩ := Option.map_eq_some_iff.mp found
      have rest := ih later
      cases m with
      | zero => simp [throughCloser] at rest
      | succ m =>
          rw [List.take_succ_cons] at rest
          rw [List.take_succ_cons, List.take_succ_cons, throughCloser_cons _ open_, rest]
          rfl

/-- A comment is the same whatever follows it, and none is open behind it. -/
theorem comment_take {cs : List Char} {hit : Hit} (found : blockComment none cs = some hit)
    (rest : List Char) :
    blockComment none (cs.take hit.length ++ rest) = some hit ∧
      run outside (cs.take hit.length) = outside := by
  unfold blockComment at found
  split at found
  · rename_i tail
    obtain ⟨n, closer, rfl⟩ := Option.map_eq_some_iff.mp found
    obtain ⟨bound, state, more⟩ := throughCloser_some (throughCloser_take closer)
    have front : ('/' :: '*' :: tail).take (n + 2) = '/' :: '*' :: tail.take n := rfl
    rw [front]
    constructor
    · rw [List.cons_append, List.cons_append, blockComment_opener, more rest]
      rfl
    · have nothing : (tail.take n).drop n = [] := by
        apply List.drop_eq_nil_of_le
        rw [List.length_take]
        omega
      rw [nothing] at state
      exact state
  · cases found

/-- A character before which no comment is open, and which is in none, opens none. -/
theorem closed_cons {c : Char} {before rest : List Char} {hit : Hit}
    (missed : blockComment none (c :: (before ++ rest)) = none)
    (found : blockComment none rest = some hit) (closed : isClosed before = true) :
    isClosed (c :: before) = true ∧ stripComments (c :: before) = c :: stripComments before := by
  have shut : ¬ (c = '/' ∧ before.head? = some '*') := by
    rintro ⟨rfl, star⟩
    obtain ⟨behind, rfl⟩ := List.head?_eq_some_iff.mp star
    rw [List.cons_append, blockComment_opener, Option.map_eq_none_iff] at missed
    unfold blockComment at found
    split at found
    · obtain ⟨n, closer, _⟩ := Option.map_eq_some_iff.mp found
      obtain ⟨body, rest, same⟩ := closer_of_throughCloser closer
      refine not_closer_of_throughCloser missed ⟨behind ++ '/' :: '*' :: body, rest, ?_⟩
      rw [← same]
      simp
    · cases found
  refine ⟨?_, stripComments_cons shut⟩
  cases before with
  | nil => by_cases slash : c = '/' <;> simp [isClosed, next, slash, isOutside]
  | cons d before =>
      rw [isClosed, run_outside_cons before (by simpa using shut)]
      exact closed

/-- A space next to what no lexeme goes on with separates nothing. -/
theorem sameLexemes_space {first second : List Char}
    (apart : isOuterAt first.getLast? = true ∨ isOuterAt second.head? = true) :
    SameLexemes (first ++ second) (first ++ ' ' :: second) := by
  have space : isBlank ' ' = true := by decide
  unfold SameLexemes
  rcases apart with left | right
  · rcases List.eq_nil_or_concat first with rfl | ⟨start, c, rfl⟩
    · exact (lexemes_blank space second).symm
    · rw [List.concat_eq_append] at left ⊢
      have ended : Ended (start ++ [c]) := ⟨start, c, rfl, by simpa [isOuterAt] using left⟩
      rw [lexemes_ended ended, lexemes_ended ended, lexemes_blank space]
  · rw [lexemes_append_blank first second space]
    cases second with
    | nil => simp
    | cons c second =>
        have outer : isInner c = false := by simpa [isOuterAt] using right
        rcases of_isInner_false outer with blank | known
        · rw [lexemes_append_blank first second blank, lexemes_blank blank]
        · rw [lexemes_append_separator first second known, lexemes_separator known]

/-- The comments of a text are apart where it stands behind another one that has none. -/
def ApartBehind (wrapper front text : List Char) : Prop :=
  ∀ before rest, text = before ++ rest → isClosed before = true →
    ∀ hit, blockComment none rest = some hit →
      IsApart wrapper (front ++ stripComments before) (stripComments (rest.drop hit.length))

theorem ApartBehind.plain {wrapper front cs : List Char} {c : Char}
    (apart : ApartBehind wrapper front (c :: cs)) (missed : blockComment none (c :: cs) = none) :
    ApartBehind wrapper (front ++ [c]) cs := by
  intro before rest split closed hit found
  rw [split] at missed
  obtain ⟨closed', stripped⟩ := closed_cons missed found closed
  have next := apart (c :: before) rest (by rw [split]; rfl) closed' hit found
  rw [stripped] at next
  simpa using next

/-- The space for a comment is on one side of those behind it, or something that was there before
is. -/
theorem ApartBehind.comment {wrapper front cs : List Char} {hit : Hit} (space : ' ' ∉ wrapper)
    (apart : ApartBehind wrapper front cs) (found : blockComment none cs = some hit) :
    ApartBehind wrapper (front ++ [' ']) (cs.drop hit.length) := by
  intro before rest split closed later found' within
  obtain ⟨comment, state⟩ := comment_take found before
  have inside := blockComment_proper.within found
  have whole : cs = cs.take hit.length ++ before ++ rest := by
    rw [List.append_assoc, ← split, List.take_append_drop]
  have closed' : isClosed (cs.take hit.length ++ before) = true := by
    rw [isClosed, run_append, state]
    exact closed
  have stripped : stripComments (cs.take hit.length ++ before) = stripComments before := by
    rw [stripComments_hit comment, List.drop_left' (by simp [Nat.min_eq_left inside])]
  have here := apart _ rest whole closed' later found'
  rw [stripped] at here
  rw [List.append_assoc, List.singleton_append] at within
  rcases here (infix_statementAt space within) with left | right
  · refine .inl ?_
    rcases List.eq_nil_or_concat (stripComments before) with empty | ⟨start, c, last⟩
    · rw [empty, List.append_nil, List.getLast?_concat]
      decide
    · rw [last, List.concat_eq_append, ← List.append_assoc, List.getLast?_concat] at left ⊢
      exact left
  · exact .inr right

section Candidates

variable {wrapper : String} (named : IsRun wrapper.toList)

include named

theorem IsApart.lexemes_candidatesIn {left right : List Char}
    (apart : IsApart wrapper.toList left right) :
    (candidatesIn (.forWrapper wrapper) wrapper.toList (left ++ right)).map lexemes =
      (candidatesIn (.forWrapper wrapper) wrapper.toList (left ++ ' ' :: right)).map lexemes := by
  by_cases within : wrapper.toList <:+: statementAt left right
  · exact Header.lexemes_candidatesIn named (sameLexemes_space (apart within))
  · exact lexemes_candidatesIn_space named within

theorem ApartBehind.lexemes_candidatesIn {front cs : List Char}
    (apart : ApartBehind wrapper.toList front cs) :
    (candidatesIn (.forWrapper wrapper) wrapper.toList (front ++ stripComments cs)).map lexemes =
      (candidatesIn (.forWrapper wrapper) wrapper.toList (front ++ spaceComments cs)).map
        lexemes := by
  induction cs using comments_induction generalizing front with
  | nil => rfl
  | plain c cs missed ih =>
      rw [stripComments_plain missed, spaceComments_plain missed]
      simpa using ih (apart.plain missed)
  | comment cs hit found ih =>
      have here := apart [] cs rfl rfl hit found
      rw [show stripComments [] = [] from rfl, List.append_nil] at here
      have later := ih (apart.comment (named.not_mem (by decide)) found)
      rw [List.append_assoc, List.append_assoc] at later
      rw [stripComments_hit found, spaceComments_hit found]
      exact (here.lexemes_candidatesIn named).trans later

theorem CommentsApart.lexemes_candidates {header : List Char}
    (apart : CommentsApart wrapper.toList header) :
    (candidates (.forWrapper wrapper) wrapper.toList header).map lexemes =
      (candidates (.forWrapper wrapper) wrapper.toList (spaceComments header)).map lexemes := by
  show _ = (candidatesIn _ _ (stripComments (spaceComments header))).map lexemes
  rw [stripComments_spaceComments]
  exact @ApartBehind.lexemes_candidatesIn _ named [] header apart

end Candidates

end HeaderBindings.Header
