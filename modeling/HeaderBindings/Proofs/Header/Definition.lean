import HeaderBindings.Proofs.Header.Candidate
import HeaderBindings.Proofs.Text.Token

/-!
The wrapper macro's own definition in a header. Its head is taken off, and what stays of the line is
the directive and the replacement text. No rule finds anything that begins in there, and no
candidate does, so the rest of the header is read as if the line was not there.
-/

set_option autoImplicit false

namespace HeaderBindings.Header

open Text

/-- Any number of blanks. -/
abbrev Gap := { cs : List Char // ∀ c ∈ cs, isBlank c = true }

/-- Word characters, at least one of them. -/
structure IsRun (cs : List Char) : Prop where
  occupied : cs ≠ []
  letters : ∀ c ∈ cs, isWord c = true

/-- A macro definition of one parameter, as far as it is the writer's choice: the parameter's name,
and the blanks in front of each token. -/
structure Definition where
  beforeHash : Gap
  beforeDefine : Gap
  beforeName : Gap
  apart : beforeName.val ≠ []
  beforeOpen : Gap
  beforeParameter : Gap
  parameter : List Char
  named : IsRun parameter
  beforeClose : Gap

namespace Definition

def define : List Char := ['d', 'e', 'f', 'i', 'n', 'e']

def directive (d : Definition) : List Char :=
  '#' :: (d.beforeDefine.val ++ (define ++ d.beforeName.val))

def head (d : Definition) (wrapper : List Char) : List Char :=
  wrapper ++ (d.beforeOpen.val ++ '(' ::
    (d.beforeParameter.val ++ (d.parameter ++ (d.beforeClose.val ++ [')']))))

def line (d : Definition) (wrapper replacement : List Char) : List Char :=
  d.beforeHash.val ++ (d.directive ++ (d.head wrapper ++ replacement))

end Definition

/-- A replacement text in which nothing begins that is looked for in a header. -/
structure Plain (wrapper replacement : List Char) : Prop where
  wrapper : ¬ wrapper <:+: replacement
  hash : '#' ∉ replacement
  opener : ¬ ['/', '*'] <:+: replacement
  version : ¬ "swe_version".toList <:+: replacement
  path : ¬ "swe_get_library_path".toList <:+: replacement

theorem not_mem_gap (gap : Gap) {c : Char} (visible : isBlank c = false) : c ∉ gap.val :=
  fun member => ne_of_isBlank (gap.property c member) visible rfl

theorem IsRun.not_mem {cs : List Char} (run : IsRun cs) {c : Char} (noWord : isWord c = false) :
    c ∉ cs := by
  intro member
  rw [run.letters c member] at noWord
  cases noWord

theorem IsRun.visible {cs : List Char} (run : IsRun cs) : ∀ c ∈ cs, isBlank c = false :=
  fun c member => isBlank_of_isWord (run.letters c member)

theorem IsRun.dropBlanks {cs : List Char} (run : IsRun cs) (rest : List Char) :
    dropBlanks (cs ++ rest) = cs ++ rest := by
  obtain ⟨c, own, rfl⟩ := List.exists_cons_of_ne_nil run.occupied
  exact dropBlanks_visible _ (run.visible c (by simp))

namespace Definition

variable (d : Definition) {wrapper : List Char}

/-! The head is taken off -/

theorem afterHead_head (rest : List Char) :
    Rule.afterHead wrapper (d.head wrapper ++ rest) = some rest := by
  obtain ⟨c, own, shape⟩ := List.exists_cons_of_ne_nil d.named.occupied
  have word : isWord c = true := d.named.letters c (by simp [shape])
  have others : ∀ e ∈ own, isWord e = true := fun e member =>
    d.named.letters e (by simp [shape, member])
  have opened := afterTokens_gap d.beforeOpen.property (c := '(') (by decide)
    (d.beforeParameter.val ++ (d.parameter ++ (d.beforeClose.val ++ ')' :: rest)))
  have closed := afterTokens_gap d.beforeClose.property (c := ')') (by decide) rest
  have inside : dropBlanks (d.beforeParameter.val ++ (d.parameter ++ (d.beforeClose.val ++
      ')' :: rest))) = c :: (own ++ (d.beforeClose.val ++ ')' :: rest)) := by
    rw [dropBlanks_gap d.beforeParameter.property, d.named.dropBlanks, shape, List.cons_append]
  have behind := (span_append others
    (isWordAt_gap d.beforeClose.property (c := ')') (by decide) rest)).2
  have split : d.head wrapper ++ rest = wrapper ++ (d.beforeOpen.val ++ '(' ::
      (d.beforeParameter.val ++ (d.parameter ++ (d.beforeClose.val ++ ')' :: rest)))) := by
    simp [head]
  unfold Rule.afterHead
  rw [split, afterLiteral_append]
  simp only [Rule.openToken, Rule.closeToken, opened, inside, word, behind, closed,
    Option.bind_eq_bind, Option.bind_some, ↓reduceIte]

theorem blanksThenHead_gap {gap : List Char} (blank : ∀ c ∈ gap, isBlank c = true)
    (run : IsRun wrapper) (rest : List Char) :
    Rule.blanksThenHead wrapper (gap ++ (d.head wrapper ++ rest)) = some (gap.length, rest) := by
  have found : Rule.afterHead wrapper (d.head wrapper ++ rest) = some rest := d.afterHead_head rest
  induction gap with
  | nil =>
      obtain ⟨c, own, shape⟩ := List.exists_cons_of_ne_nil run.occupied
      have visible : isBlank c = false := run.visible c (by simp [shape])
      have split : d.head wrapper ++ rest = c :: (own ++ ((d.head wrapper).drop wrapper.length ++
          rest)) := by
        simp [head, shape]
      rw [split] at found
      rw [List.nil_append, split, Rule.blanksThenHead, found]
      simp [visible]
  | cons c gap ih =>
      have later := ih fun e member => blank e (List.mem_cons_of_mem c member)
      rw [List.cons_append, Rule.blanksThenHead, later]
      simp [blank c (by simp)]

/-- The search finds directive and head, and keeps the directive. -/
theorem definitionHead_directive (run : IsRun wrapper) (before : Option Char) (rest : List Char) :
    Rule.definitionHead wrapper before (d.directive ++ d.head wrapper ++ rest) =
      some ⟨(d.directive ++ d.head wrapper).length, d.directive⟩ := by
  obtain ⟨c, gap, shape⟩ := List.exists_cons_of_ne_nil d.apart
  have blank : isBlank c = true := d.beforeName.property c (by simp [shape])
  have blanks : ∀ e ∈ gap, isBlank e = true := fun e member =>
    d.beforeName.property e (by simp [shape, member])
  have head := d.blanksThenHead_gap blanks run rest
  have word (tail : List Char) :
      afterTokens [['d', 'e', 'f', 'i', 'n', 'e']] (d.beforeDefine.val ++ (define ++ tail)) =
        some tail := by
    have shown : dropBlanks (define ++ tail) = define ++ tail := dropBlanks_visible _ (by decide)
    rw [afterTokens, dropBlanks_gap d.beforeDefine.property, shown]
    exact congrArg (Option.bind · (afterTokens [])) (afterLiteral_append define tail)
  have split : d.directive ++ d.head wrapper ++ rest =
      '#' :: (d.beforeDefine.val ++ (define ++ (c :: (gap ++ (d.head wrapper ++ rest))))) := by
    simp [directive, shape]
  -- What the hit takes and what it writes are given by lengths of what is left.
  have kept : (d.directive ++ d.head wrapper ++ rest).length -
      (gap ++ (d.head wrapper ++ rest)).length + gap.length = d.directive.length := by
    simp [directive, shape]
    omega
  have taken : (d.directive ++ d.head wrapper ++ rest).take d.directive.length = d.directive := by
    rw [List.append_assoc, List.take_left]
  have length : (d.directive ++ d.head wrapper ++ rest).length - rest.length =
      (d.directive ++ d.head wrapper).length := by
    rw [List.length_append, Nat.add_sub_cancel]
  have hash : afterLiteral ['#'] (d.directive ++ d.head wrapper ++ rest) =
      some (d.beforeDefine.val ++ (define ++ (c :: (gap ++ (d.head wrapper ++ rest))))) := by
    rw [split]
    rfl
  unfold Rule.definitionHead
  simp only [hash, word, blank, head, kept, taken, length, ↓reduceIte, Option.bind_eq_bind,
    Option.bind_some, Option.pure_def]

theorem apply_macroDefinition {wrapper : String} (run : IsRun wrapper.toList)
    {replacement : List Char} (hash : '#' ∉ replacement) (second : List Char) :
    (Rule.macroDefinition wrapper).apply
        (d.directive ++ d.head wrapper.toList ++ (replacement ++ '\n' :: second)) =
      d.directive ++ (replacement ++ '\n' :: (Rule.macroDefinition wrapper).apply second) := by
  have found := d.definitionHead_directive run none (replacement ++ '\n' :: second)
  have occupied : d.directive ++ d.head wrapper.toList ≠ [] := by simp [directive]
  unfold Rule.apply Rule.macroDefinition
  rw [replaceAll, replaceFrom_take (Rule.definitionHead_proper _) occupied found,
    replaceFrom_pass_blank (Rule.definitionHead_passesBlanks _) _ _ _ (by decide)]
  intro first e behind split
  have other : '#' ≠ e := by
    rintro rfl
    exact hash (by simp [split])
  simp [Rule.definitionHead, afterLiteral, other]

/-! The other rules -/

theorem directive_eq : ∃ gap c, (∀ e ∈ gap, isBlank e = true) ∧ isBlank c = true ∧
    d.directive = '#' :: (d.beforeDefine.val ++ (define ++ gap)) ++ [c] := by
  obtain ⟨gap, c, split⟩ := (List.eq_nil_or_concat d.beforeName.val).resolve_left d.apart
  rw [List.concat_eq_append] at split
  have blanks := d.beforeName.property
  rw [split] at blanks
  refine ⟨gap, c, fun e member => ?_, blanks c (by simp), by simp [directive, split]⟩
  exact blanks e (List.mem_append_left [c] member)

theorem not_mem_directive {e : Char} (visible : isBlank e = false) (other : e ∉ '#' :: define) :
    e ∉ d.directive := by
  simp only [List.mem_cons, not_or] at other
  simp [directive, not_mem_gap _ visible, other.1, other.2]

/-- Qualifiers are taken out of the replacement text, and separately of what follows the line. -/
theorem apply_stripConst (replacement second : List Char) :
    Rule.stripConst.apply (d.directive ++ (replacement ++ '\n' :: second)) =
      d.directive ++
        (Rule.stripConst.apply replacement ++ '\n' :: Rule.stripConst.apply second) := by
  have separable := Rule.stripConst_separable
  obtain ⟨gap, c, _, blank, split⟩ := d.directive_eq
  have absent : 'c' ∉ d.directive := d.not_mem_directive (by decide) (by decide)
  have stops : StopsBefore '\n' Rule.constWord := Rule.constWord_stopsBefore (by decide)
  rw [split] at absent ⊢
  generalize '#' :: (d.beforeDefine.val ++ (define ++ gap)) = start at absent ⊢
  have quiet : ∀ first e behind, start = first ++ e :: behind →
      Rule.stripConst.find (first.getLast?.or none)
        (e :: behind ++ c :: (replacement ++ '\n' :: second)) = none := by
    rintro first e behind rfl
    have other : e ≠ 'c' := by
      rintro rfl
      exact absent (by simp)
    exact Rule.constWord_none other _ _
  have passed := replaceFrom_pass_blank separable.blanks none start
    (replacement ++ '\n' :: second) blank quiet
  have parted := replaceAll_append_mark separable.proper stops replacement second
  have apart := replaceFrom_after_blank separable.blanks '\n' second (by decide)
  unfold Rule.apply
  rw [List.append_assoc, List.singleton_append, replaceAll, passed, parted, apart]
  simp

/-- A name that is neither in the replacement text nor like a directive is not in what is left of
the line. -/
theorem not_infix_line {function : List Char} (run : IsRun function) (like : 's' ∈ function)
    {replacement : List Char} (absent : ¬ function <:+: replacement) :
    ¬ function <:+: d.directive ++ Rule.stripConst.apply replacement := by
  intro within
  obtain ⟨gap, c, _, blank, split⟩ := d.directive_eq
  have outside : 's' ∉ d.directive := d.not_mem_directive (by decide) (by decide)
  have mark : c ∉ function := fun member => ne_of_isBlank blank (run.visible c member) rfl
  rw [split] at outside within
  rw [List.append_assoc, List.singleton_append] at within
  rcases infix_append_mark mark within with left | right
  · exact outside (List.mem_append_left [c] (left.subset like))
  · exact absent (Rule.infix_of_constWord run.letters right)

theorem slash_not_mem_head (run : IsRun wrapper) : '/' ∉ d.head wrapper := by
  have blank (gap : Gap) : '/' ∉ gap.val := not_mem_gap gap (by decide)
  have name : '/' ∉ wrapper := run.not_mem (by decide)
  have parameter : '/' ∉ d.parameter := d.named.not_mem (by decide)
  simp [head, blank, name, parameter]

theorem rewrite_line {wrapper : String} (run : IsRun wrapper.toList) {replacement : List Char}
    (plain : Plain wrapper.toList replacement) (second : List Char) :
    (Policy.forWrapper wrapper).rewrite
        (d.directive ++ d.head wrapper.toList ++ (replacement ++ '\n' :: second)) =
      d.directive ++ (Rule.stripConst.apply replacement ++
        '\n' :: (Policy.forWrapper wrapper).rewrite second) := by
  have stripped : stripComments
      (d.directive ++ d.head wrapper.toList ++ (replacement ++ '\n' :: second)) =
        d.directive ++ d.head wrapper.toList ++ (replacement ++ '\n' :: stripComments second) := by
    have free : '/' ∉ d.directive ++ d.head wrapper.toList := by
      rw [List.mem_append, not_or]
      exact ⟨d.not_mem_directive (by decide) (by decide), d.slash_not_mem_head run⟩
    rw [stripComments_append_free free, stripComments_append_plain plain.opener (by simp),
      stripComments_cons (by simp)]
  have version : IsRun "swe_version".toList := ⟨by decide, forall_mem_of_all (by decide)⟩
  have path : IsRun "swe_get_library_path".toList := ⟨by decide, forall_mem_of_all (by decide)⟩
  have first := Rule.apply_unnamedText Rule.nameVersionArgument_separable (by decide)
    (d.not_infix_line version (by decide) plain.version)
  have last := Rule.apply_unnamedText Rule.nameLibraryPathArgument_separable (by decide)
    (d.not_infix_line path (by decide) plain.path)
  simp only [Policy.rewrite, Policy.forWrapper, List.foldl_cons, List.foldl_nil]
  rw [stripped, d.apply_macroDefinition run plain.hash, d.apply_stripConst, ← List.append_assoc,
    Rule.nameVersionArgument, first, Rule.nameLibraryPathArgument, last, List.append_assoc]

end Definition

/-! No candidate begins in what is left -/

section Silent

variable {wrapper : List Char}

/-- No candidate begins in the text, whatever follows it behind a blank. -/
def Silent (wrapper text : List Char) : Prop :=
  ∀ rest, (∀ c ∈ rest.head?, isBlank c = true) →
    ∃ before, spans (candidate wrapper) (text ++ rest) = spansFrom (candidate wrapper) 0 before rest

theorem candidate_passesBlanks_of_run (run : IsRun wrapper) : PassesBlanks (candidate wrapper) := by
  obtain ⟨c, own, shape⟩ := List.exists_cons_of_ne_nil run.occupied
  exact candidate_passesBlanks shape (run.letters c (by simp [shape]))

theorem candidatesOf_collapse (run : IsRun wrapper) {first : List Char}
    (silent : Silent wrapper (collapse first)) {c : Char} (blank : isBlank c = true)
    (second : List Char) :
    candidatesOf wrapper (collapse (first ++ c :: second)) =
      candidatesOf wrapper (collapse second) := by
  have passes := candidate_passesBlanks_of_run run
  have space : isBlank ' ' = true := by decide
  unfold candidatesOf
  by_cases left : words first = []
  · simp only [collapse_eq_joinWords, words_append_blank first second blank, left, List.nil_append]
  · rw [collapse_append_blank first second blank left]
    split
    · rename_i nothing
      obtain ⟨before, passed⟩ := silent [] (by simp)
      rw [passed, nothing]
      rfl
    · obtain ⟨before, passed⟩ := silent (' ' :: collapse second) (by simp [space])
      rw [passed, spansFrom_none (passes.at_blank _ _ space),
        spansFrom_after_blank passes ' ' _ space]

theorem candidate_none (run : IsRun wrapper) {c : Char} (noWord : isWord c = false)
    (before : Option Char) (cs : List Char) : candidate wrapper before (c :: cs) = none := by
  obtain ⟨e, own, shape⟩ := List.exists_cons_of_ne_nil run.occupied
  have other : e ≠ c := fun same => run.not_mem noWord (by simp [shape, same])
  simp [candidate, shape, afterLiteral, other]

/-- A word other than the wrapper macro begins no candidate, and none begins inside of a word. -/
theorem spansFrom_run (run : IsRun wrapper) {word : List Char} (isRun : IsRun word)
    (other : word ≠ wrapper) {rest : List Char} (ends : isWordAt rest.head? = false)
    (before : Option Char) :
    spansFrom (candidate wrapper) 0 before (word ++ rest) =
      spansFrom (candidate wrapper) 0 (word.getLast?.or before) rest := by
  refine spansFrom_pass before word rest fun first e behind split => ?_
  have letters : ∀ c ∈ first ++ e :: behind, isWord c = true := by
    rw [← split]
    exact isRun.letters
  cases found : candidate wrapper (first.getLast?.or before) (e :: behind ++ rest) with
  | none => rfl
  | some hit =>
      cases last : first.getLast? with
      | none =>
          -- The macro starts with the word and ends before a bracket, so it is all of the word.
          rw [List.getLast?_eq_none_iff.mp last, List.nil_append] at split letters
          obtain ⟨named, inner, _, atName, atOpen, _, _⟩ := candidate_eq_some found
          simp only [afterTokens, Option.bind_eq_some_iff] at atOpen
          obtain ⟨_, opened, _⟩ := atOpen
          have stops : isWordAt named.head? = false :=
            head_of_dropBlanks (c := '(') (by decide) opened
          have same := eq_append_of_afterLiteral atName
          have whole := (eq_of_append_word same letters run.letters ends stops).1
          exact absurd (split.trans whole) other
      | some d =>
          have inside : isWord d = true :=
            letters d (List.mem_append_left _ (List.mem_of_getLast? last))
          have here : isWord e = true := letters e (by simp)
          rw [last] at found
          simp [candidate, isWordBoundary, isWordAt, inside, here] at found

theorem isWordAt_of_blank {rest : List Char} (blank : ∀ c ∈ rest.head?, isBlank c = true) :
    isWordAt rest.head? = false := by
  cases rest with
  | nil => rfl
  | cons c rest => exact isWord_of_isBlank (blank c rfl)

theorem silent_collapse (run : IsRun wrapper) {cs : List Char} (absent : ¬ wrapper <:+: cs) :
    Silent wrapper (collapse cs) := by
  intro rest blank
  refine ⟨_, spansFrom_pass none (collapse cs) rest fun first e behind split => ?_⟩
  cases found : candidate wrapper (first.getLast?.or none) (e :: behind ++ rest) with
  | none => rfl
  | some hit =>
      obtain ⟨named, _, _, atName, _⟩ := candidate_eq_some found
      have start : wrapper <+: e :: behind := by
        cases rest with
        | nil =>
            rw [List.append_nil] at atName
            exact ⟨named, (eq_append_of_afterLiteral atName).symm⟩
        | cons c rest =>
            have mark : c ∉ wrapper := run.not_mem (isWord_of_isBlank (blank c rfl))
            rw [afterLiteral_append_mark wrapper _ rest mark] at atName
            obtain ⟨later, here, _⟩ := Option.map_eq_some_iff.mp atName
            exact ⟨later, (eq_append_of_afterLiteral here).symm⟩
      -- The macro has no blanks, so it stands inside of one word of the text.
      have within : wrapper <:+: joinWords (words cs) := by
        rw [← collapse_eq_joinWords, split]
        exact start.isInfix.trans (List.suffix_append first _).isInfix
      obtain ⟨w, listed, inside⟩ := infix_joinWords run.occupied run.visible within
      exact absurd (inside.trans (infix_of_mem_words listed).1) absent

theorem collapse_directive {gap after : List Char} (blank : ∀ c ∈ gap, isBlank c = true)
    (blanks : ∀ c ∈ after, isBlank c = true) :
    collapse ('#' :: (gap ++ (Definition.define ++ after))) = '#' :: Definition.define ∨
      collapse ('#' :: (gap ++ (Definition.define ++ after))) =
        '#' :: ' ' :: Definition.define := by
  have visible : ∀ c ∈ '#' :: Definition.define, isBlank c = false :=
    forall_mem_of_all (by decide)
  have ended := words_append_blanks ('#' :: (gap ++ Definition.define)) blanks
  rw [List.cons_append, List.append_assoc] at ended
  rw [collapse_eq_joinWords, ended]
  by_cases glued : gap = []
  · left
    rw [glued, List.nil_append, words_run (List.cons_ne_nil _ _) visible]
    rfl
  · right
    have apart := words_append_gap ['#'] Definition.define glued blank
    rw [List.append_assoc, List.singleton_append] at apart
    rw [apart]
    rfl

theorem silent_directive (run : IsRun wrapper) (other : wrapper ≠ Definition.define)
    {gap after : List Char} (blank : ∀ c ∈ gap, isBlank c = true)
    (blanks : ∀ c ∈ after, isBlank c = true) :
    Silent wrapper (collapse ('#' :: (gap ++ (Definition.define ++ after)))) := by
  intro rest ends
  have isRun : IsRun Definition.define := ⟨by decide, forall_mem_of_all (by decide)⟩
  have word (before : Option Char) :=
    spansFrom_run run isRun other.symm (isWordAt_of_blank ends) before
  have mark {c : Char} (noWord : isWord c = false) (before : Option Char) (cs : List Char) :
      spansFrom (candidate wrapper) 0 before (c :: cs) =
        spansFrom (candidate wrapper) 0 (some c) cs :=
    spansFrom_none (candidate_none run noWord before cs)
  rcases collapse_directive blank blanks with glued | apart
  · rw [glued, List.cons_append, spans, mark (by decide), word]
    exact ⟨_, rfl⟩
  · rw [apart, List.cons_append, List.cons_append, spans, mark (by decide), mark (by decide), word]
    exact ⟨_, rfl⟩

end Silent

/-- A header that begins with the definition of the wrapper macro has the candidates of what follows
the definition. -/
theorem candidates_definition {wrapper : String} (run : IsRun wrapper.toList)
    (other : wrapper.toList ≠ Definition.define) (d : Definition) {replacement : List Char}
    (plain : Plain wrapper.toList replacement) (second : List Char) :
    candidates (.forWrapper wrapper) wrapper.toList
        (d.line wrapper.toList replacement ++ '\n' :: second) =
      candidates (.forWrapper wrapper) wrapper.toList second := by
  have separable := Policy.forWrapper_separable (run.not_mem (c := ';') (by decide))
  have line : d.line wrapper.toList replacement ++ '\n' :: second = d.beforeHash.val ++
      (d.directive ++ d.head wrapper.toList ++ (replacement ++ '\n' :: second)) := by
    simp [Definition.line]
  obtain ⟨gap, c, blanks, blank, split⟩ := d.directive_eq
  have absent : ¬ wrapper.toList <:+: Rule.stripConst.apply replacement := fun within =>
    plain.wrapper (Rule.infix_of_constWord run.letters within)
  rw [line, candidates_gap separable d.beforeHash.property]
  unfold candidates
  rw [Policy.apply_eq, Policy.apply_eq, d.rewrite_line run plain, split, List.append_assoc,
    List.singleton_append,
    candidatesOf_collapse run (silent_directive run other d.beforeDefine.property blanks) blank,
    candidatesOf_collapse run (silent_collapse run absent) (by decide)]

end HeaderBindings.Header
