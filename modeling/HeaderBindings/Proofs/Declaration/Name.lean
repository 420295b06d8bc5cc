import HeaderBindings.Proofs.Declaration.Grammar
import HeaderBindings.Proofs.Header.Candidate
import HeaderBindings.Proofs.Layout.Rewritten

set_option autoImplicit false

namespace HeaderBindings

open Text

/-- The word behind the first closing parenthesis. -/
def wordBehind (cs : List Char) : List Char :=
  (dropBlanks ((cs.dropWhile (· ≠ ')')).drop 1)).takeWhile isWord

theorem wordBehind_close (cs : List Char) :
    wordBehind (')' :: cs) = (dropBlanks cs).takeWhile isWord := rfl

theorem wordBehind_cons {c : Char} (other : c ≠ ')') (cs : List Char) :
    wordBehind (c :: cs) = wordBehind cs := by simp [wordBehind, other]

theorem wordBehind_append {front : List Char} (free : ')' ∉ front) (rest : List Char) :
    wordBehind (front ++ rest) = wordBehind rest := by
  induction front with
  | nil => rfl
  | cons c front ih =>
      have other : c ≠ ')' := fun same => free (by simp [same])
      rw [List.cons_append, wordBehind_cons other,
        ih fun member => free (List.mem_cons_of_mem c member)]

theorem wordBehind_eq {front gap name behind : List Char} (free : ')' ∉ front)
    (blanks : ∀ c ∈ gap, isBlank c = true) (named : name ≠ [])
    (letters : ∀ c ∈ name, isWord c = true) (ends : isWordAt behind.head? = false) :
    wordBehind (front ++ ')' :: (gap ++ (name ++ behind))) = name := by
  have stops : ∀ c ∈ behind.head?, isWord c = false := by
    cases behind with
    | nil => simp
    | cons c behind => simpa [isWordAt] using ends
  obtain ⟨c, own, shape⟩ := List.exists_cons_of_ne_nil named
  have visible : isBlank c = false := isBlank_of_isWord (letters c (by simp [shape]))
  rw [wordBehind_append free, wordBehind_close, dropBlanks_gap blanks]
  rw [shape, List.cons_append, dropBlanks_visible _ visible, ← List.cons_append, ← shape]
  exact (span_append letters stops).1

/-! White space does not matter -/

theorem takeWhile_squeeze (cs : List Char) :
    (Header.squeeze false cs).takeWhile isWord = cs.takeWhile isWord := by
  induction cs with
  | nil => rfl
  | cons c cs ih =>
      cases blank : isBlank c with
      | true =>
          rw [Header.squeeze_false_blank cs blank, List.takeWhile_cons, List.takeWhile_cons,
            isWord_of_isBlank blank]
          rfl
      | false =>
          rw [Header.squeeze_visible false cs blank, List.takeWhile_cons, List.takeWhile_cons, ih]

theorem takeWhile_squeeze_true (cs : List Char) :
    (Header.squeeze true cs).takeWhile isWord = (dropBlanks cs).takeWhile isWord := by
  rw [← Header.dropBlanks_squeeze]
  induction cs with
  | nil => rfl
  | cons c cs ih =>
      cases blank : isBlank c with
      | true =>
          rw [Header.dropBlanks_squeeze] at ih ⊢
          rw [Header.squeeze_true_blank cs blank, dropBlanks_blank cs blank, ih]
      | false =>
          rw [Header.squeeze_visible false cs blank, dropBlanks_visible _ blank,
            dropBlanks_visible _ blank, List.takeWhile_cons, List.takeWhile_cons, takeWhile_squeeze]

theorem wordBehind_squeeze (inRun : Bool) (cs : List Char) :
    wordBehind (Header.squeeze inRun cs) = wordBehind cs := by
  induction cs generalizing inRun with
  | nil => rfl
  | cons c cs ih =>
      cases blank : isBlank c with
      | true =>
          have other : c ≠ ')' := ne_of_isBlank blank (by decide)
          rw [wordBehind_cons other]
          cases inRun with
          | true => rw [Header.squeeze_true_blank cs blank, ih]
          | false =>
              rw [Header.squeeze_false_blank cs blank, wordBehind_cons (by decide), ih]
      | false =>
          rw [Header.squeeze_visible inRun cs blank]
          by_cases close : c = ')'
          · rw [close, wordBehind_close, wordBehind_close, Header.dropBlanks_squeeze,
              takeWhile_squeeze_true]
          · rw [wordBehind_cons close, wordBehind_cons close, ih]

theorem wordBehind_dropBlanks (cs : List Char) : wordBehind (dropBlanks cs) = wordBehind cs := by
  obtain ⟨gap, blanks, split⟩ := exists_gap cs
  have free : ')' ∉ gap := fun member => absurd (blanks ')' member) (by decide)
  exact (wordBehind_append free _).symm.trans (congrArg wordBehind split.symm)

theorem takeWhile_blanks (cs : List Char) {gap : List Char} (blanks : ∀ c ∈ gap, isBlank c = true) :
    (cs ++ gap).takeWhile isWord = cs.takeWhile isWord := by
  induction cs with
  | nil =>
      cases gap with
      | nil => rfl
      | cons c gap => simp [isWord_of_isBlank (blanks c (by simp))]
  | cons c cs ih => rw [List.cons_append, List.takeWhile_cons, List.takeWhile_cons, ih]

theorem wordBehind_blanks (cs : List Char) {gap : List Char}
    (blanks : ∀ c ∈ gap, isBlank c = true) :
    wordBehind (cs ++ gap) = wordBehind cs := by
  have behind (cs : List Char) :
      (dropBlanks (cs ++ gap)).takeWhile isWord = (dropBlanks cs).takeWhile isWord := by
    induction cs with
    | nil =>
        have none_left := dropBlanks_gap blanks []
        rw [List.append_nil] at none_left
        rw [List.nil_append, none_left]
    | cons c cs ih =>
        cases blank : isBlank c with
        | true => rw [List.cons_append, dropBlanks_blank _ blank, dropBlanks_blank _ blank, ih]
        | false =>
            rw [List.cons_append, dropBlanks_visible _ blank, dropBlanks_visible _ blank,
              ← List.cons_append, takeWhile_blanks _ blanks]
  induction cs with
  | nil =>
      have free : ')' ∉ gap := fun member => absurd (blanks ')' member) (by decide)
      have passed := wordBehind_append free []
      rwa [List.append_nil] at passed
  | cons c cs ih =>
      by_cases close : c = ')'
      · rw [close, List.cons_append, wordBehind_close, wordBehind_close, behind]
      · rw [List.cons_append, wordBehind_cons close, wordBehind_cons close, ih]

theorem wordBehind_collapse (cs : List Char) :
    wordBehind (Header.collapse cs) = wordBehind cs := by
  obtain ⟨gap, blanks, split⟩ :=
    Header.exists_gap_end (dropBlanks (Header.squeeze false cs))
  rw [Header.collapse, trim, ← wordBehind_blanks _ blanks, ← split, wordBehind_dropBlanks,
    wordBehind_squeeze]

theorem count_squeeze (inRun : Bool) (cs : List Char) :
    (Header.squeeze inRun cs).count ')' = cs.count ')' := by
  induction cs generalizing inRun with
  | nil => rfl
  | cons c cs ih =>
      cases blank : isBlank c with
      | true =>
          have other : c ≠ ')' := ne_of_isBlank blank (by decide)
          rw [List.count_cons_of_ne other]
          cases inRun with
          | true => rw [Header.squeeze_true_blank cs blank, ih]
          | false =>
              rw [Header.squeeze_false_blank cs blank, List.count_cons_of_ne (by decide), ih]
      | false =>
          rw [Header.squeeze_visible inRun cs blank, List.count_cons, List.count_cons, ih]

theorem count_collapse_le (cs : List Char) :
    (Header.collapse cs).count ')' ≤ cs.count ')' := by
  obtain ⟨gap, _, split⟩ := Header.exists_gap_end (dropBlanks (Header.squeeze false cs))
  have trimmed : Header.collapse cs <+: dropBlanks (Header.squeeze false cs) :=
    ⟨gap, split.symm⟩
  have dropped : (dropBlanks (Header.squeeze false cs)).Sublist (Header.squeeze false cs) :=
    List.dropWhile_sublist _
  have fewer := (trimmed.sublist.trans dropped).count_le ')'
  rwa [count_squeeze] at fewer

/-! The rules for the ephemeris header do not matter -/

theorem replaceFrom_sublist {find : Finder} (proper : Proper find)
    (empty : ∀ {before cs hit}, find before cs = some hit → hit.text = []) (skip : Nat)
    (free : Bool) (before : Option Char) (cs : List Char) :
    (replaceFrom find skip free before cs).Sublist cs := by
  induction cs generalizing skip free before with
  | nil => simp [replaceFrom_nil proper]
  | cons c cs ih =>
      cases skip with
      | succ skip =>
          rw [replaceFrom_skip]
          exact (ih _ _ _).trans (List.sublist_cons_self c cs)
      | zero =>
          rcases proper.cases before (c :: cs) with missed | ⟨n, text, found, _⟩
          · rw [replaceFrom_none missed]
            exact (ih _ _ _).cons_cons c
          · have nothing : text = [] := empty found
            rw [replaceFrom_hit found, nothing]
            exact (ih _ _ _).trans (List.sublist_cons_self c cs)

theorem count_stripConst_le (cs : List Char) (c : Char) :
    (Header.Rule.stripConst.apply cs).count c ≤ cs.count c := by
  refine (replaceFrom_sublist Header.Rule.constWord_proper ?_ 0 true none cs).count_le c
  intro before cs hit found
  obtain ⟨_, _, _, _, rfl⟩ := Header.Rule.constWord_eq_some found
  rfl

/-- The second text is the first with other lists behind some places of the word. -/
inductive Relisted (word : List Char) : List Char → List Char → Prop
  | nil : Relisted word [] []
  | keep {c : Char} {cs ds : List Char} (rest : Relisted word cs ds) :
    Relisted word (c :: cs) (c :: ds)
  | list {inner other cs ds : List Char} (free : ')' ∉ inner) (free' : ')' ∉ other)
    (ends : isWordAt inner.head? = false) (ends' : isWordAt other.head? = false)
    (rest : Relisted word cs ds) :
    Relisted word (word ++ (inner ++ ')' :: cs)) (word ++ (other ++ ')' :: ds))

namespace Relisted

variable {word cs ds : List Char}

theorem count (relisted : Relisted word cs ds) : ds.count ')' = cs.count ')' := by
  induction relisted with
  | nil => rfl
  | keep rest ih => rw [List.count_cons, List.count_cons, ih]
  | list free free' ends ends' rest ih =>
      simp only [List.count_append, List.count_cons_self, List.count_eq_zero_of_not_mem free,
        List.count_eq_zero_of_not_mem free', ih]

theorem takeWhile (relisted : Relisted word cs ds) (letters : ∀ c ∈ word, isWord c = true) :
    ds.takeWhile isWord = cs.takeWhile isWord := by
  induction relisted with
  | nil => rfl
  | keep rest ih => rw [List.takeWhile_cons, List.takeWhile_cons, ih]
  | @list inner other cs ds free free' ends ends' rest ih =>
      have stops {inner : List Char} (ends : isWordAt inner.head? = false) (cs : List Char) :
          ∀ c ∈ (inner ++ ')' :: cs).head?, isWord c = false := by
        cases inner with
        | nil => simp; decide
        | cons c inner => simpa [isWordAt] using ends
      rw [(span_append letters (stops ends' ds)).1, (span_append letters (stops ends cs)).1]

theorem takeWhile_dropBlanks (relisted : Relisted word cs ds) (named : word ≠ [])
    (letters : ∀ c ∈ word, isWord c = true) :
    (dropBlanks ds).takeWhile isWord = (dropBlanks cs).takeWhile isWord := by
  induction relisted with
  | nil => rfl
  | @keep c cs ds rest ih =>
      cases blank : isBlank c with
      | true => rw [dropBlanks_blank _ blank, dropBlanks_blank _ blank, ih]
      | false =>
          rw [dropBlanks_visible _ blank, dropBlanks_visible _ blank]
          exact (keep rest).takeWhile letters
  | list free free' ends ends' rest ih =>
      obtain ⟨c, own, shape⟩ := List.exists_cons_of_ne_nil named
      have visible : isBlank c = false := isBlank_of_isWord (letters c (by simp [shape]))
      have shown (tail : List Char) : dropBlanks (word ++ tail) = word ++ tail := by
        rw [shape]
        exact dropBlanks_visible _ visible
      rw [shown, shown]
      exact (list free free' ends ends' rest).takeWhile letters

theorem wordBehind (relisted : Relisted word cs ds) (named : word ≠ [])
    (letters : ∀ c ∈ word, isWord c = true) :
    HeaderBindings.wordBehind ds = HeaderBindings.wordBehind cs := by
  induction relisted with
  | nil => rfl
  | @keep c cs ds rest ih =>
      by_cases close : c = ')'
      · rw [close, wordBehind_close, wordBehind_close, rest.takeWhile_dropBlanks named letters]
      · rw [wordBehind_cons close, wordBehind_cons close, ih]
  | list free free' ends ends' rest ih =>
      have inWord : ')' ∉ word := fun member => absurd (letters ')' member) (by decide)
      rw [wordBehind_append inWord, wordBehind_append inWord, wordBehind_append free,
        wordBehind_append free', wordBehind_close, wordBehind_close,
        rest.takeWhile_dropBlanks named letters]

end Relisted

/-- A list of one unnamed `char *` has one closing parenthesis, at its end. -/
theorem exists_of_unnamedList {cs rest : List Char}
    (found : afterTokens [['('], ['c', 'h', 'a', 'r'], ['*'], [')']] cs = some rest) :
    ∃ inner, ')' ∉ inner ∧ isWordAt inner.head? = false ∧ cs = inner ++ ')' :: rest := by
  have token {token : List Char} {cs rest : List Char}
      (found : afterLiteral token (dropBlanks cs) = some rest) :
      ∃ gap, (∀ c ∈ gap, isBlank c = true) ∧ cs = gap ++ (token ++ rest) := by
    obtain ⟨gap, blanks, split⟩ := exists_gap cs
    rw [eq_append_of_afterLiteral found] at split
    exact ⟨gap, blanks, split⟩
  simp only [afterTokens, Option.bind_eq_some_iff] at found
  obtain ⟨first, opened, second, char, third, star, fourth, closed, last⟩ := found
  cases last
  have front := head_of_dropBlanks (c := '(') (by decide) opened
  obtain ⟨gap₁, blanks₁, rfl⟩ := token opened
  obtain ⟨gap₂, blanks₂, rfl⟩ := token char
  obtain ⟨gap₃, blanks₃, rfl⟩ := token star
  obtain ⟨gap₄, blanks₄, rfl⟩ := token closed
  have free {gap : List Char} (blanks : ∀ c ∈ gap, isBlank c = true) : ')' ∉ gap :=
    fun member => absurd (blanks ')' member) (by decide)
  refine ⟨gap₁ ++ '(' :: (gap₂ ++ (['c', 'h', 'a', 'r'] ++ (gap₃ ++ '*' :: gap₄))), ?_, ?_, ?_⟩
  · simp [free blanks₁, free blanks₂, free blanks₃, free blanks₄]
  · cases gap₁ with
    | nil => exact (by decide : isWord '(' = false)
    | cons c gap => exact front
  · simp

theorem relisted_unnamedText (function : String) {c : Char} {own : List Char}
    (named : function.toList = c :: own) (letters : ∀ d ∈ c :: own, isWord d = true)
    (before : Option Char) (cs : List Char) :
    Relisted function.toList cs
      (replaceFrom (Header.Rule.unnamedText function) 0 true before cs) := by
  have proper : Proper (Header.Rule.unnamedText function) :=
    (Header.Rule.unnamedText_separable function function named letters).proper
  induction size : cs.length using Nat.strongRecOn generalizing before cs with
  | ind n ih =>
      subst size
      cases cs with
      | nil =>
          rw [replaceFrom_nil proper]
          exact .nil
      | cons d cs =>
          cases found : Header.Rule.unnamedText function before (d :: cs) with
          | none =>
              rw [replaceFrom_none found]
              exact .keep (ih cs.length (by simp) _ cs rfl)
          | some hit =>
              obtain ⟨list, rest, split, closed, rfl⟩ := Header.Rule.unnamedText_eq_some found
              obtain ⟨inner, free, ends, rfl⟩ := exists_of_unnamedList closed
              have cut : d :: cs = function.toList ++ (inner ++ [')']) ++ rest := by
                rw [split]
                simp
              have length : (d :: cs).length - rest.length =
                  (function.toList ++ (inner ++ [')'])).length := by
                rw [cut, List.length_append, Nat.add_sub_cancel]
              have shorter : rest.length < (d :: cs).length := by
                rw [cut]
                simp
                omega
              rw [length, cut] at found
              rw [cut, replaceFrom_take proper (by simp) found]
              have later := ih rest.length shorter
                ((function.toList ++ (inner ++ [')'])).getLast?.or before) rest rfl
              have whole := @Relisted.list function.toList inner "(char *s".toList rest _ free
                (by decide) ends (by decide) later
              simpa using whole

namespace Header

open Rule

theorem relisted_nameVersionArgument (cs : List Char) :
    Relisted "swe_version".toList cs (nameVersionArgument.apply cs) :=
  relisted_unnamedText "swe_version" rfl (forall_mem_of_all (by decide)) none cs

theorem relisted_nameLibraryPathArgument (cs : List Char) :
    Relisted "swe_get_library_path".toList cs (nameLibraryPathArgument.apply cs) :=
  relisted_unnamedText "swe_get_library_path" rfl (forall_mem_of_all (by decide)) none cs

/-- The normal form of a header without definitions has no more closing parentheses than are left
without the comments, and the word behind the first one is the same once the qualifier is gone. -/
theorem wordBehind_apply (wrapper : String) {cs : List Char} (hash : '#' ∉ stripComments cs) :
    ((Policy.forWrapper wrapper).apply cs).count ')' ≤ (stripComments cs).count ')' ∧
      wordBehind ((Policy.forWrapper wrapper).apply cs) =
        wordBehind (stripConst.apply (stripComments cs)) := by
  have shape : (Policy.forWrapper wrapper).apply cs =
      collapse (nameLibraryPathArgument.apply (nameVersionArgument.apply
        (stripConst.apply (stripComments cs)))) := by
    show collapse (nameLibraryPathArgument.apply (nameVersionArgument.apply
      (stripConst.apply ((macroDefinition wrapper).apply (stripComments cs))))) = _
    rw [Layout.apply_macroDefinition wrapper hash]
  have version := relisted_nameVersionArgument (stripConst.apply (stripComments cs))
  have path := relisted_nameLibraryPathArgument
    (nameVersionArgument.apply (stripConst.apply (stripComments cs)))
  rw [shape]
  constructor
  · refine Nat.le_trans (count_collapse_le _) ?_
    rw [path.count, version.count]
    exact count_stripConst_le _ _
  · rw [wordBehind_collapse,
      path.wordBehind (by decide) (forall_mem_of_all (by decide)),
      version.wordBehind (by decide) (forall_mem_of_all (by decide))]

end Header

/-! What is read -/

/-- What is read has the wrapper macro and the return type before its first closing parenthesis, the
name and a second one behind. -/
theorem Function.exists_of_ofCandidate {wrapper candidate : List Char} {f : Function}
    (free : ')' ∉ wrapper) (read : ofCandidate wrapper candidate = .ok f) :
    ∃ front gap behind, ')' ∉ front ∧ (∀ c ∈ gap, isBlank c = true) ∧ f.name.toList ≠ [] ∧
      (∀ c ∈ f.name.toList, isWord c = true) ∧ isWordAt behind.head? = false ∧ behind ≠ [] ∧
      ')' ∈ behind ∧ candidate = front ++ ')' :: (gap ++ (f.name.toList ++ behind)) := by
  obtain ⟨s, parameters, splits, rfl⟩ := splits_of_ofCandidate read
  obtain ⟨_, ofReturn, named, ofName, _, gap₁, gap₂, gap₃, gap₄, stop, blanks₁, blanks₂, blanks₃,
    _, _, text⟩ := splits
  obtain ⟨lead, blanks, first⟩ := exists_gap candidate
  obtain ⟨trail, _, last⟩ := Header.exists_gap_end (dropBlanks candidate)
  have name : (s.function parameters).name.toList = s.name := String.toList_ofList
  have noClose {gap : List Char} (blanks : ∀ c ∈ gap, isBlank c = true) : ')' ∉ gap :=
    fun member => absurd (blanks ')' member) (by decide)
  have inReturn : ')' ∉ s.returnType := fun member => absurd (ofReturn ')' member) (by decide)
  refine ⟨lead ++ (wrapper ++ (gap₁ ++ '(' :: s.returnType)), gap₂,
    gap₃ ++ '(' :: (s.parameters ++ ')' :: (gap₄ ++ stop)) ++ trail, ?_, blanks₂, by rwa [name],
    by rwa [name], ?_, by simp, by simp, ?_⟩
  · simp [noClose blanks, free, noClose blanks₁, inReturn]
  · cases gap₃ with
    | nil => exact (by decide : isWord '(' = false)
    | cons c gap => exact isWord_of_isBlank (blanks₃ c (by simp))
  · rw [first, last, show dropBlanksEnd (dropBlanks candidate) = trim candidate from rfl, text,
      name]
    simp

/-- Of a candidate that is read, two closing parentheses stand in the text; and if there are no
more, the name that is read is the word behind the first. -/
theorem name_of_candidate {wrapper text candidate : List Char} {f : Function} (free : ')' ∉ wrapper)
    (within : candidate <:+: text) (read : Function.ofCandidate wrapper candidate = .ok f) :
    2 ≤ text.count ')' ∧ (text.count ')' ≤ 2 → f.name.toList = wordBehind text) := by
  obtain ⟨front, gap, behind, inFront, blanks, named, letters, ends, occupied, closed, rfl⟩ :=
    Function.exists_of_ofCandidate free read
  obtain ⟨before, after, rfl⟩ := within
  have one : 0 < behind.count ')' := List.count_pos_iff.mpr closed
  simp only [List.count_append, List.count_cons_self]
  refine ⟨by omega, fun few => ?_⟩
  have inBefore : ')' ∉ before := List.count_eq_zero.mp (by omega)
  have ends' : isWordAt (behind ++ after).head? = false := by
    obtain ⟨c, own, rfl⟩ := List.exists_cons_of_ne_nil occupied
    exact ends
  have found := @wordBehind_eq (before ++ front) gap _ _ (by simp [inBefore, inFront]) blanks named
    letters ends'
  exact found.symm.trans (congrArg wordBehind (by simp))

end HeaderBindings
