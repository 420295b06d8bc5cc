import HeaderBindings.Header.Candidate
import HeaderBindings.Proofs.Text.Scan

set_option autoImplicit false

namespace HeaderBindings.Header

open Text

/-- Where a reader stands: outside of comments, there behind a slash, inside of a comment, or there
behind a star. -/
inductive CommentState
  | outside
  | slash
  | inside
  | star
  deriving DecidableEq, Repr

namespace CommentState

def next : CommentState → Char → CommentState
  | outside, c => if c = '/' then slash else outside
  | slash, c => if c = '*' then inside else if c = '/' then slash else outside
  | inside, c => if c = '*' then star else inside
  | star, c => if c = '/' then outside else if c = '*' then star else inside

def run (s : CommentState) (cs : List Char) : CommentState := cs.foldl next s

def isOutside : CommentState → Bool
  | outside => true
  | slash => true
  | _ => false

@[simp] theorem run_nil (s : CommentState) : s.run [] = s := rfl

@[simp] theorem run_cons (s : CommentState) (c : Char) (cs : List Char) :
    s.run (c :: cs) = (s.next c).run cs := rfl

theorem run_append (s : CommentState) (first second : List Char) :
    s.run (first ++ second) = (s.run first).run second := List.foldl_append

/-- Unless it completes a closer, a star makes no difference for what follows it. -/
theorem run_inside_cons {c d : Char} (cs : List Char) (open_ : ¬ (c = '*' ∧ d = '/')) :
    run inside (c :: d :: cs) = run inside (d :: cs) := by
  by_cases star : c = '*'
  · have other : d ≠ '/' := fun slash => open_ ⟨star, slash⟩
    simp [next, star, other]
  · simp [next, star]

/-- Unless it completes an opener, a slash makes no difference for what follows it. -/
theorem run_outside_cons {c d : Char} (cs : List Char) (shut : ¬ (c = '/' ∧ d = '*')) :
    run outside (c :: d :: cs) = run outside (d :: cs) := by
  by_cases slash : c = '/'
  · have other : d ≠ '*' := fun star => shut ⟨slash, star⟩
    simp [next, slash, other]
  · simp [next, slash]

theorem next_eq_slash {s : CommentState} {c : Char} (stands : s.next c = slash) :
    c = '/' ∧ s.isOutside = true := by
  by_cases same : c = '/'
  · cases s with
    | outside => exact ⟨same, rfl⟩
    | slash => exact ⟨same, rfl⟩
    | inside => simp [next, same] at stands
    | star => simp [next, same] at stands
  · cases s <;> simp only [next, same, ↓reduceIte] at stands
    · cases stands
    all_goals split at stands <;> cases stands

end CommentState

open CommentState

/-- The text leaves no block comment open. -/
def isClosed (cs : List Char) : Bool := (run outside cs).isOutside

theorem isClosed_append_singleton {cs : List Char} (closed : isClosed cs = true) {c : Char}
    (other : c ≠ '*') : isClosed (cs ++ [c]) = true := by
  rw [isClosed] at closed
  rw [isClosed, run_append, run_cons, run_nil]
  cases state : run outside cs with
  | outside => by_cases slash : c = '/' <;> simp [next, slash, isOutside]
  | slash => by_cases slash : c = '/' <;> simp [next, slash, other, isOutside]
  | inside => simp [state, isOutside] at closed
  | star => simp [state, isOutside] at closed

theorem throughCloser_cons {c d : Char} (cs : List Char) (open_ : ¬ (c = '*' ∧ d = '/')) :
    throughCloser (c :: d :: cs) = (throughCloser (d :: cs)).map (· + 1) := by
  simp only [throughCloser, open_, ↓reduceIte]

theorem throughCloser_some {cs : List Char} {n : Nat} (found : throughCloser cs = some n) :
    n ≤ cs.length ∧ run inside cs = run outside (cs.drop n) ∧
      ∀ rest, throughCloser (cs ++ rest) = some n := by
  fun_induction throughCloser cs generalizing n with
  | case1 => cases found
  | case2 => cases found
  | case3 c d cs both =>
      obtain ⟨rfl, rfl⟩ := both
      cases found
      refine ⟨by simp, by simp [next], fun rest => ?_⟩
      simp [throughCloser]
  | case4 c d cs open_ ih =>
      obtain ⟨m, later, rfl⟩ := Option.map_eq_some_iff.mp found
      obtain ⟨bound, state, more⟩ := ih later
      refine ⟨by simpa using bound, ?_, fun rest => ?_⟩
      · rw [run_inside_cons cs open_, state, List.drop_succ_cons]
      · have again := more rest
        rw [List.cons_append] at again
        rw [List.cons_append, List.cons_append, throughCloser_cons _ open_, again]
        rfl

theorem throughCloser_none {cs : List Char} (missed : throughCloser cs = none) :
    (run inside cs).isOutside = false := by
  fun_induction throughCloser cs with
  | case1 => rfl
  | case2 c => by_cases star : c = '*' <;> simp [next, star, isOutside]
  | case3 => cases missed
  | case4 c d cs open_ ih =>
      rw [run_inside_cons cs open_]
      exact ih (Option.map_eq_none_iff.mp missed)

/-- Up to a closer behind a body without one, there are the body and the closer. -/
theorem throughCloser_body (body rest : List Char) (plain : ¬ ['*', '/'] <:+: body) :
    throughCloser (body ++ '*' :: '/' :: rest) = some (body.length + 2) := by
  induction body with
  | nil => simp [throughCloser]
  | cons c body ih =>
      have later := ih fun within => plain (List.infix_cons within)
      have open_ : ∀ d tail, body ++ '*' :: '/' :: rest = d :: tail → ¬ (c = '*' ∧ d = '/') := by
        rintro d tail split ⟨rfl, rfl⟩
        cases body with
        | nil => simp at split
        | cons e body =>
            simp only [List.cons_append, List.cons.injEq] at split
            obtain ⟨rfl, _⟩ := split
            exact plain ⟨[], body, by simp⟩
      cases tail : body ++ '*' :: '/' :: rest with
      | nil => simp at tail
      | cons d tail' =>
          rw [tail] at later
          rw [List.cons_append, tail, throughCloser_cons tail' (open_ d tail' tail), later]
          simp

theorem blockComment_opener (before : Option Char) (cs : List Char) :
    blockComment before ('/' :: '*' :: cs) = (throughCloser cs).map fun n => ⟨n + 2, []⟩ := rfl

theorem blockComment_none (before : Option Char) {c : Char} {cs : List Char}
    (shut : ¬ (c = '/' ∧ cs.head? = some '*')) : blockComment before (c :: cs) = none := by
  unfold blockComment
  split
  · rename_i rest same
    simp only [List.cons.injEq] at same
    obtain ⟨rfl, rfl⟩ := same
    exact absurd ⟨rfl, rfl⟩ shut
  · rfl

theorem blockComment_proper : Proper blockComment := by
  constructor
  · intro before cs hit found
    unfold blockComment at found
    split at found
    · obtain ⟨n, _, rfl⟩ := Option.map_eq_some_iff.mp found
      exact Nat.succ_pos _
    · cases found
  · intro before cs hit found
    unfold blockComment at found
    split at found
    · obtain ⟨n, closer, rfl⟩ := Option.map_eq_some_iff.mp found
      have bound := (throughCloser_some closer).1
      simp only [List.length_cons]
      omega
    · cases found

theorem replaceFrom_blockComment (before : Option Char) (cs : List Char) :
    replaceFrom blockComment 0 true before cs = stripComments cs := by
  unfold stripComments replaceAll
  cases cs <;> rfl

theorem stripComments_cons {c : Char} {cs : List Char}
    (shut : ¬ (c = '/' ∧ cs.head? = some '*')) :
    stripComments (c :: cs) = c :: stripComments cs := by
  unfold stripComments replaceAll
  rw [replaceFrom_none (blockComment_none none shut), replaceFrom_blockComment]
  rfl

theorem stripComments_comment {cs : List Char} {n : Nat} (closer : throughCloser cs = some n) :
    stripComments ('/' :: '*' :: cs) = stripComments (cs.drop n) := by
  have bound := (throughCloser_some closer).1
  have cut : '/' :: '*' :: cs = ('/' :: '*' :: cs.take n) ++ cs.drop n := by simp
  have length : ('/' :: '*' :: cs.take n).length = n + 2 := by simp [Nat.min_eq_left bound]
  have found : blockComment none (('/' :: '*' :: cs.take n) ++ cs.drop n) =
      some ⟨('/' :: '*' :: cs.take n).length, []⟩ := by
    rw [← cut, blockComment_opener, closer, length]
    rfl
  have taken := replaceFrom_take blockComment_proper (List.cons_ne_nil _ _) found true
  rw [← cut, replaceFrom_blockComment, replaceFrom_blockComment] at taken
  exact taken

/-- A comment is taken out whatever its body is, as long as no closer is in it. -/
theorem stripComments_body {body : List Char} (plain : ¬ ['*', '/'] <:+: body)
    (rest : List Char) :
    stripComments ('/' :: '*' :: (body ++ '*' :: '/' :: rest)) = stripComments rest := by
  have left : (body ++ '*' :: '/' :: rest).drop (body.length + 2) = rest := by simp
  rw [stripComments_comment (throughCloser_body body rest plain), left]

theorem stripComments_append_free {part : List Char} (free : '/' ∉ part) (rest : List Char) :
    stripComments (part ++ rest) = part ++ stripComments rest := by
  induction part with
  | nil => rfl
  | cons c part ih =>
      have slash : c ≠ '/' := fun same => free (by simp [same])
      rw [List.cons_append, stripComments_cons fun opener => slash opener.1,
        ih fun member => free (List.mem_cons_of_mem c member), List.cons_append]

/-- Text without an opener is kept, if none has its halves there and in what follows. -/
theorem stripComments_append_plain {part rest : List Char} (plain : ¬ ['/', '*'] <:+: part)
    (apart : rest.head? ≠ some '*') :
    stripComments (part ++ rest) = part ++ stripComments rest := by
  induction part with
  | nil => rfl
  | cons c part ih =>
      have shut : ¬ (c = '/' ∧ (part ++ rest).head? = some '*') := by
        rintro ⟨rfl, star⟩
        cases part with
        | nil => exact apart star
        | cons d part =>
            cases star
            exact plain ⟨[], part, rfl⟩
      rw [List.cons_append, stripComments_cons shut,
        ih fun within => plain (List.infix_cons within), List.cons_append]

/-- Comments of a closed text and of what follows it are taken out separately, if no opener has its
halves in both. -/
theorem stripComments_append_state (first second : List Char) (closed : isClosed first = true)
    (apart : ¬ (run outside first = slash ∧ second.head? = some '*')) :
    stripComments (first ++ second) = stripComments first ++ stripComments second := by
  induction length : first.length using Nat.strongRecOn generalizing first with
  | ind n ih =>
    match first, length with
    | [], _ => rfl
    | [c], _ =>
        have shut : ¬ (c = '/' ∧ second.head? = some '*') := by
          rintro ⟨rfl, star⟩
          exact apart ⟨rfl, star⟩
        rw [List.singleton_append, stripComments_cons shut, stripComments_cons (by simp)]
        rfl
    | c :: d :: rest, length =>
        subst length
        by_cases opener : c = '/' ∧ d = '*'
        · obtain ⟨rfl, rfl⟩ := opener
          cases closer : throughCloser rest with
          | none =>
              have opened := throughCloser_none closer
              change (run inside rest).isOutside = true at closed
              rw [opened] at closed
              cases closed
          | some m =>
              obtain ⟨bound, state, more⟩ := throughCloser_some closer
              have same : run outside ('/' :: '*' :: rest) = run outside (rest.drop m) := state
              rw [isClosed, same] at closed
              rw [same] at apart
              rw [List.cons_append, List.cons_append, stripComments_comment (more second),
                stripComments_comment closer, List.drop_append_of_le_length bound]
              exact ih _ (by simp only [List.length_drop, List.length_cons]; omega) _ closed apart
                rfl
        · rw [isClosed, run_outside_cons rest opener] at closed
          rw [run_outside_cons rest opener] at apart
          have shut (tail : List Char) : ¬ (c = '/' ∧ (d :: tail).head? = some '*') := by
            simpa using opener
          have parts := ih (d :: rest).length (Nat.lt_succ_self _) (d :: rest) closed apart rfl
          rw [List.cons_append] at parts
          rw [List.cons_append, List.cons_append, stripComments_cons (shut _),
            stripComments_cons (shut rest), parts, List.cons_append]

theorem stripComments_append (first second : List Char) (closed : isClosed first = true)
    (apart : second.head? ≠ some '*') :
    stripComments (first ++ second) = stripComments first ++ stripComments second :=
  stripComments_append_state first second closed fun both => apart both.2

/-- What is left of the start of a text is the start of what is left of the text, unless a slash at
the cut opens a comment there. -/
theorem stripComments_prefix {first : List Char} (closed : isClosed first = true)
    (second : List Char) :
    ∃ left, left <+: stripComments (first ++ second) ∧
      (stripComments first = left ∨ stripComments first = left ++ ['/']) := by
  by_cases cut : run outside first = slash ∧ second.head? = some '*'
  · obtain ⟨last, star⟩ := cut
    obtain ⟨rest, rfl⟩ := List.head?_eq_some_iff.mp star
    rcases List.eq_nil_or_concat first with rfl | ⟨start, c, rfl⟩
    · cases last
    · rw [List.concat_eq_append] at closed last ⊢
      rw [run_append] at last
      obtain ⟨rfl, outer⟩ : c = '/' ∧ isClosed start = true := by
        rw [run_cons, run_nil] at last
        exact next_eq_slash last
      have whole := stripComments_append start ('/' :: '*' :: rest) outer (by simp)
      have front := stripComments_append start ['/'] outer (by simp)
      refine ⟨stripComments start, ?_, .inr ?_⟩
      · rw [List.append_assoc, List.singleton_append, whole]
        exact List.prefix_append _ _
      · rw [front]
        rfl
  · rw [stripComments_append_state first second closed cut]
    exact ⟨_, List.prefix_append _ _, .inl rfl⟩

theorem stripComments_between {first body : List Char} (closed : isClosed first = true)
    (plain : ¬ ['*', '/'] <:+: body) (second : List Char) :
    stripComments (first ++ '/' :: '*' :: (body ++ '*' :: '/' :: second)) =
      stripComments first ++ stripComments second := by
  rw [stripComments_append first _ closed (by simp), stripComments_body plain]

end HeaderBindings.Header
