import HeaderBindings.Header.Candidate
import HeaderBindings.Proofs.Header.Rule
import HeaderBindings.Proofs.Header.Whitespace

set_option autoImplicit false

namespace HeaderBindings.Header

open Text

theorem candidate_eq_some {wrapper : List Char} {before : Option Char} {cs : List Char} {hit : Hit}
    (found : candidate wrapper before cs = some hit) :
    ∃ named inner rest, afterLiteral wrapper cs = some named ∧
      afterTokens [['(']] named = some inner ∧
      afterLiteral [';'] (inner.dropWhile (· ≠ ';')) = some rest ∧
      hit = ⟨cs.length - rest.length, []⟩ := by
  unfold candidate at found
  split at found
  · simp only [Option.bind_eq_bind, Option.bind_eq_some_iff] at found
    obtain ⟨named, atName, inner, atOpen, rest, atEnd, same⟩ := found
    cases same
    exact ⟨named, inner, rest, atName, atOpen, atEnd, rfl⟩
  · cases found

theorem candidate_proper (wrapper : List Char) : Proper (candidate wrapper) := by
  constructor
  · intro before cs hit found
    obtain ⟨named, inner, rest, atName, atOpen, atEnd, rfl⟩ := candidate_eq_some found
    have name := length_of_afterLiteral atName
    have parenthesis := length_of_afterTokens atOpen
    have mark := length_of_afterLiteral atEnd
    have dropped : (inner.dropWhile (· ≠ ';')).length ≤ inner.length :=
      (List.dropWhile_sublist _).length_le
    simp only [List.length_cons, List.length_nil] at mark
    show 0 < cs.length - rest.length
    omega
  · intro before cs hit found
    obtain ⟨_, _, rest, _, _, _, rfl⟩ := candidate_eq_some found
    exact Nat.sub_le _ _

theorem afterLiteral_semicolon (inner second : List Char) :
    afterLiteral [';'] ((inner ++ ';' :: second).dropWhile (· ≠ ';')) =
      some ((afterLiteral [';'] (inner.dropWhile (· ≠ ';'))).elim second (· ++ ';' :: second)) := by
  induction inner with
  | nil => simp [afterLiteral]
  | cons c inner ih =>
      by_cases mark : c = ';'
      · simp [mark, afterLiteral]
      · simpa [mark] using ih

theorem candidate_stopsBehind {wrapper : List Char} (free : ';' ∉ wrapper) :
    StopsBehind ';' (candidate wrapper) := by
  intro before first second
  have visible : isBlank ';' = false := by decide
  have heads : (first ++ ';' :: second).head? = (first ++ [';']).head? := by
    cases first <;> rfl
  unfold candidate
  rw [heads, afterLiteral_append_mark wrapper first second free,
    afterLiteral_append_mark wrapper first [] free]
  cases afterLiteral wrapper first with
  | none => rfl
  | some named =>
      simp only [Option.map_some, Option.bind_eq_bind, Option.bind_some]
      rw [afterTokens_append_mark _ named second visible (by decide),
        afterTokens_append_mark _ named [] visible (by decide)]
      cases afterTokens [['(']] named with
      | none => rfl
      | some inner =>
          simp only [Option.map_some, Option.bind_some, afterLiteral_semicolon]
          cases afterLiteral [';'] (inner.dropWhile (· ≠ ';')) with
          | none =>
              have length : (first ++ ';' :: second).length - second.length =
                  (first ++ [';']).length - ([] : List Char).length := by
                simp only [List.length_append, List.length_cons, List.length_nil]
                omega
              simp only [Option.elim_none, length]
          | some rest =>
              have length : (first ++ ';' :: second).length - (rest ++ ';' :: second).length =
                  (first ++ [';']).length - (rest ++ [';']).length := by
                simp only [List.length_append, List.length_cons, List.length_nil]
                omega
              simp only [Option.elim_some, length]

theorem candidate_passesBlanks {wrapper : List Char} {c : Char} {cs : List Char}
    (named : wrapper = c :: cs) (word : isWord c = true) : PassesBlanks (candidate wrapper) := by
  constructor
  · intro before d rest blank
    have differs : c ≠ d := by
      rintro rfl
      rw [isWord_of_isBlank blank] at word
      cases word
    simp [candidate, named, afterLiteral, differs]
  · intro d rest blank
    have same : isWordBoundary (some d) rest.head? = isWordBoundary none rest.head? := by
      simp [isWordBoundary, isWordAt, isWord_of_isBlank blank]
    unfold candidate
    rw [same]

theorem candidates_gap {policy : Policy} (separable : ∀ rule ∈ policy.rules, rule.Separable)
    {gap : List Char} (blank : ∀ c ∈ gap, isBlank c = true) (wrapper cs : List Char) :
    candidates policy wrapper (gap ++ cs) = candidates policy wrapper cs := by
  have rewritten : policy.rewrite (gap ++ cs) = gap ++ policy.rewrite cs := by
    induction gap with
    | nil => rfl
    | cons c gap ih =>
        rw [List.cons_append, Policy.rewrite_blank separable (blank c (by simp)),
          ih fun d member => blank d (List.mem_cons_of_mem c member), List.cons_append]
  simp only [candidates, Policy.apply_eq, rewritten, collapse_eq_joinWords, words_gap blank]

/-- The candidates of a text that has no comments any more. -/
def candidatesIn (policy : Policy) (wrapper cs : List Char) : List (List Char) :=
  candidatesOf wrapper (collapse (policy.rules.foldl (fun text rule => rule.apply text) cs))

section Seam

variable {policy : Policy} {wrapper first : List Char}

theorem candidatesIn_append (separable : ∀ rule ∈ policy.rules, rule.Separable)
    {w : Char} {ws : List Char} (named : wrapper = w :: ws) (word : isWord w = true)
    (free : ';' ∉ wrapper) (ends : EndsStatement first) {c : Char} (blank : isBlank c = true)
    (second : List Char) :
    candidatesIn policy wrapper (first ++ c :: second) =
      candidatesIn policy wrapper first ++ candidatesIn policy wrapper second := by
  have visible : isBlank ';' = false := by decide
  have blanks := candidate_passesBlanks named word
  obtain ⟨parts, start, gap, left, spaces⟩ :=
    foldl_apply_append policy.rules separable ends c second blank
  unfold candidatesIn candidatesOf
  rw [parts]
  generalize policy.rules.foldl (fun text rule => rule.apply text) first = front at left ⊢
  generalize policy.rules.foldl (fun text rule => rule.apply text) second = behind
  have occupied : words front ≠ [] := by
    obtain ⟨before, last, some⟩ := words_append_singleton start visible
    rw [left]
    cases gap with
    | nil => simp [some]
    | cons d gap =>
        have behind := words_append_gap (start ++ [';']) [] (List.cons_ne_nil d gap) spaces
        rw [List.append_nil, List.append_assoc, List.singleton_append] at behind
        simp [behind, some]
  obtain ⟨whole, collapsed⟩ := collapse_append_visible start visible spaces
  rw [← left] at collapsed
  rw [collapse_append_blank _ _ blank occupied, collapsed]
  by_cases none_behind : collapse behind = []
  · simp [none_behind, spans, spansFrom]
  · -- The first text ends in the mark, and a single space stands before the second.
    have cut : whole ++ [';'] ++ ' ' :: collapse behind =
        whole ++ ';' :: ' ' :: collapse behind := by
      simp
    have space : isBlank ' ' = true := by decide
    rw [if_neg none_behind, cut, spans,
      spansFrom_append_mark (candidate_proper wrapper) (candidate_stopsBehind free) 0 none whole _
        (Nat.zero_le _),
      spansFrom_none (blanks.at_blank _ _ space), spansFrom_after_blank blanks ' ' _ space]
    rfl

theorem candidates_append (separable : ∀ rule ∈ policy.rules, rule.Separable)
    {w : Char} {ws : List Char} (named : wrapper = w :: ws) (word : isWord w = true)
    (free : ';' ∉ wrapper) (closed : isClosed first = true)
    (ends : EndsStatement (stripComments first)) {c : Char} (blank : isBlank c = true)
    (second : List Char) :
    candidates policy wrapper (first ++ c :: second) =
      candidates policy wrapper first ++ candidates policy wrapper second := by
  have star : c ≠ '*' := ne_of_isBlank blank (by decide)
  have slash : c ≠ '/' := ne_of_isBlank blank (by decide)
  have stripped : stripComments (first ++ c :: second) =
      stripComments first ++ c :: stripComments second := by
    rw [stripComments_append first (c :: second) closed (by simpa using star),
      stripComments_cons fun opener => slash opener.1]
  show candidatesIn policy wrapper (stripComments (first ++ c :: second)) = _
  rw [stripped]
  exact candidatesIn_append separable named word free ends blank (stripComments second)

/-- Another header can stand behind this one: no comment is open at its end, and its last statement
is ended. -/
structure Finished (cs : List Char) : Prop where
  closed : isClosed cs = true
  ends : EndsStatement (stripComments cs)

instance (cs : List Char) : Decidable (Finished cs) :=
  decidable_of_iff (isClosed cs = true ∧ EndsStatement (stripComments cs))
    ⟨fun both => ⟨both.1, both.2⟩, fun finished => ⟨finished.closed, finished.ends⟩⟩

/-- Candidates of headers one below the other are found separately. -/
theorem candidates_intercalate (separable : ∀ rule ∈ policy.rules, rule.Separable)
    {w : Char} {ws : List Char} (named : wrapper = w :: ws) (word : isWord w = true)
    (free : ';' ∉ wrapper) (chunks : List (List Char))
    (finished : ∀ chunk ∈ chunks, Finished chunk) :
    candidates policy wrapper (['\n'].intercalate chunks) =
      chunks.flatMap (candidates policy wrapper) := by
  have line : isBlank '\n' = true := by decide
  induction chunks with
  | nil =>
      rw [List.intercalate_nil, candidates, Policy.apply_eq, Policy.rewrite_nil separable]
      rfl
  | cons chunk chunks ih =>
      have here := finished chunk (by simp)
      have later := ih fun other member => finished other (List.mem_cons_of_mem chunk member)
      cases chunks with
      | nil => simp
      | cons next chunks =>
          rw [List.intercalate_cons_cons, List.append_assoc, List.singleton_append,
            candidates_append separable named word free here.closed here.ends line, later]
          rfl

end Seam

end HeaderBindings.Header
