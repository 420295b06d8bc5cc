import HeaderBindings.Header.Candidate
import HeaderBindings.Proofs.Header.Comment
import HeaderBindings.Proofs.Text.Word
import HeaderBindings.Proofs.Text.Words

set_option autoImplicit false

namespace HeaderBindings.Header

open Text

/-- The last character that is no blank is a semicolon. -/
def EndsStatement (cs : List Char) : Prop :=
  ∃ start gap, cs = start ++ ';' :: gap ∧ ∀ c ∈ gap, isBlank c = true

theorem endsStatement_iff (cs : List Char) :
    EndsStatement cs ↔ (dropBlanks cs.reverse).head? = some ';' := by
  constructor
  · rintro ⟨start, gap, rfl, blanks⟩
    have turned : (start ++ ';' :: gap).reverse = gap.reverse ++ ';' :: start.reverse := by simp
    have passed : dropBlanks (start ++ ';' :: gap).reverse = ';' :: start.reverse := by
      rw [turned, dropBlanks_gap (by simpa using blanks)]
      exact dropBlanks_visible _ (by decide)
    rw [passed]
    rfl
  · intro mark
    obtain ⟨start, found⟩ := List.head?_eq_some_iff.mp mark
    have split := List.takeWhile_append_dropWhile (p := isBlank) (l := cs.reverse)
    rw [show cs.reverse.dropWhile isBlank = ';' :: start from found] at split
    refine ⟨start.reverse, (cs.reverse.takeWhile isBlank).reverse, ?_, fun c member => ?_⟩
    · have turned := congrArg List.reverse split
      simpa using turned.symm
    · exact List.all_eq_true.mp List.all_takeWhile c (List.mem_reverse.mp member)

instance (cs : List Char) : Decidable (EndsStatement cs) :=
  decidable_of_iff _ (endsStatement_iff cs).symm

namespace Rule

/-- The rule sees one statement at a time. -/
structure Separable (rule : Rule) : Prop where
  proper : Proper rule.find
  stops : StopsBefore ';' rule.find
  blanks : PassesBlanks rule.find

theorem Separable.apply_nil {rule : Rule} (separable : rule.Separable) : rule.apply [] = [] :=
  replaceFrom_nil separable.proper 0 true none

theorem Separable.apply_blank {rule : Rule} (separable : rule.Separable) {c : Char}
    (blank : isBlank c = true) (cs : List Char) : rule.apply (c :: cs) = c :: rule.apply cs := by
  unfold Rule.apply
  rw [replaceAll, replaceFrom_none (separable.blanks.at_blank none cs blank),
    replaceFrom_after_blank separable.blanks c cs blank]

/-- A statement's text and what follows it, a blank between them, are rewritten separately. -/
theorem Separable.apply_append {rule : Rule} (separable : rule.Separable) {first : List Char}
    (ends : EndsStatement first) (c : Char) (second : List Char) (blank : isBlank c = true) :
    rule.apply (first ++ c :: second) = rule.apply first ++ c :: rule.apply second := by
  obtain ⟨start, gap, rfl, blanks⟩ := ends
  have quiet : ∀ d ∈ gap ++ [c], ∀ before cs, rule.find before (d :: cs) = none := by
    intro d member before cs
    rcases List.mem_append.mp member with inside | last
    · exact separable.blanks.at_blank before cs (blanks d inside)
    · rw [List.mem_singleton.mp last]
      exact separable.blanks.at_blank before cs blank
  have whole := replaceFrom_copy (some ';') (gap ++ [c]) second quiet
  have alone := replaceFrom_copy (some ';') gap [] fun d member =>
    quiet d (List.mem_append_left [c] member)
  rw [List.append_nil, replaceFrom_nil separable.proper, List.append_nil] at alone
  rw [List.getLast?_concat, Option.some_or, List.append_assoc, List.singleton_append,
    replaceFrom_after_blank separable.blanks c second blank] at whole
  unfold Rule.apply
  rw [List.append_assoc, List.cons_append,
    replaceAll_append_mark separable.proper separable.stops start (gap ++ c :: second), whole,
    replaceAll_append_mark separable.proper separable.stops start gap, alone]
  simp

theorem Separable.endsStatement {rule : Rule} (separable : rule.Separable) {cs : List Char}
    (ends : EndsStatement cs) : EndsStatement (rule.apply cs) := by
  obtain ⟨start, gap, rfl, blanks⟩ := ends
  have alone := replaceFrom_copy (some ';') gap [] fun d member before cs =>
    separable.blanks.at_blank before cs (blanks d member)
  rw [List.append_nil, replaceFrom_nil separable.proper, List.append_nil] at alone
  refine ⟨replaceAll rule.find start, gap, ?_, blanks⟩
  unfold Rule.apply
  rw [replaceAll_append_mark separable.proper separable.stops start gap, alone]

/-! The definition of the wrapper macro -/

theorem afterHead_append_mark {wrapper : List Char} (free : ';' ∉ wrapper)
    (first second : List Char) :
    afterHead wrapper (first ++ ';' :: second) =
      (afterHead wrapper first).map (· ++ ';' :: second) := by
  have visible : isBlank ';' = false := by decide
  have noWord : isWord ';' = false := by decide
  unfold afterHead
  rw [afterLiteral_append_mark wrapper first second free]
  cases afterLiteral wrapper first with
  | none => rfl
  | some rest =>
      simp only [Option.map_some, Option.bind_eq_bind, Option.bind_some]
      rw [afterTokens_append_mark _ rest second visible (by simp [openToken])]
      cases afterTokens [openToken] rest with
      | none => rfl
      | some inner =>
          simp only [Option.map_some, Option.bind_some]
          rw [dropBlanks_append_mark inner second visible]
          cases dropBlanks inner with
          | nil => simp [noWord]
          | cons c tail =>
              simp only [List.cons_append]
              cases word : isWord c with
              | false => rfl
              | true =>
                  have rest_word : (tail ++ ';' :: second).dropWhile isWord =
                      tail.dropWhile isWord ++ ';' :: second := by
                    rw [List.dropWhile_append]
                    split
                    · rename_i empty
                      rw [List.isEmpty_iff.mp empty]
                      simp [noWord]
                    · rfl
                  simp only [↓reduceIte, rest_word]
                  exact afterTokens_append_mark _ _ second visible (by simp [closeToken])

theorem length_of_afterHead {wrapper cs rest : List Char}
    (found : afterHead wrapper cs = some rest) : rest.length ≤ cs.length := by
  unfold afterHead at found
  simp only [Option.bind_eq_bind, Option.bind_eq_some_iff] at found
  obtain ⟨named, atName, opened, atOpen, closed⟩ := found
  have name := length_of_afterLiteral atName
  have open_ := length_of_afterTokens atOpen
  have blanks := length_dropBlanks_le opened
  split at closed
  · cases closed
  · rename_i c tail same
    split at closed
    · have close := length_of_afterTokens closed
      have word : (tail.dropWhile isWord).length ≤ tail.length :=
        (List.dropWhile_sublist _).length_le
      rw [same, List.length_cons] at blanks
      omega
    · cases closed

theorem blanksThenHead_append_mark {wrapper : List Char} (free : ';' ∉ wrapper)
    (first second : List Char) :
    blanksThenHead wrapper (first ++ ';' :: second) =
      (blanksThenHead wrapper first).map fun (n, rest) => (n, rest ++ ';' :: second) := by
  have visible : isBlank ';' = false := by decide
  induction first with
  | nil =>
      have same := afterHead_append_mark free [] second
      rw [List.nil_append] at same
      simp only [List.nil_append, blanksThenHead, visible, Bool.false_eq_true, ↓reduceIte, same,
        Option.map_map, Function.comp_def, Option.map_none, Option.none_or]
  | cons c first ih =>
      have same := afterHead_append_mark free (c :: first) second
      rw [List.cons_append] at same
      simp only [List.cons_append, blanksThenHead, ih, same]
      cases isBlank c <;> cases blanksThenHead wrapper first <;>
        simp [Option.map_map, Function.comp_def]

theorem length_of_blanksThenHead {wrapper cs rest : List Char} {n : Nat}
    (found : blanksThenHead wrapper cs = some (n, rest)) : n + rest.length ≤ cs.length := by
  induction cs generalizing n with
  | nil =>
      simp only [blanksThenHead, Option.map_eq_some_iff, Prod.mk.injEq] at found
      obtain ⟨after, head, none, same⟩ := found
      have shorter := length_of_afterHead head
      rw [← none, ← same]
      omega
  | cons c cs ih =>
      simp only [blanksThenHead, Option.or_eq_some_iff, Option.map_eq_some_iff,
        Prod.mk.injEq] at found
      rcases found with ⟨⟨m, after⟩, later, one, same⟩ | ⟨_, after, head, none, same⟩
      · subst one same
        split at later
        · have shorter : m + after.length ≤ cs.length := ih later
          show m + 1 + after.length ≤ cs.length + 1
          omega
        · cases later
      · have shorter := length_of_afterHead head
        rw [← none, ← same]
        omega

theorem definitionHead_eq_some {wrapper cs : List Char} {before : Option Char} {hit : Hit}
    (found : definitionHead wrapper before cs = some hit) :
    ∃ rest c tail n after, afterLiteral ['#'] cs = some rest ∧
      afterTokens [['d', 'e', 'f', 'i', 'n', 'e']] rest = some (c :: tail) ∧
      isBlank c = true ∧ blanksThenHead wrapper tail = some (n, after) ∧
      hit = ⟨cs.length - after.length, cs.take (cs.length - tail.length + n)⟩ := by
  unfold definitionHead at found
  simp only [Option.bind_eq_bind, Option.bind_eq_some_iff] at found
  obtain ⟨rest, hash, defined, word, more⟩ := found
  cases defined with
  | nil => cases more
  | cons c tail =>
      cases blank : isBlank c with
      | false => simp [blank] at more
      | true =>
          simp only [blank, ↓reduceIte, Option.bind_eq_some_iff] at more
          obtain ⟨⟨n, after⟩, head, same⟩ := more
          cases same
          exact ⟨rest, c, tail, n, after, hash, word, blank, head, rfl⟩

theorem definitionHead_proper (wrapper : List Char) : Proper (definitionHead wrapper) := by
  constructor
  · intro before cs hit found
    obtain ⟨rest, c, tail, n, after, hash, word, _, head, rfl⟩ := definitionHead_eq_some found
    have first := length_of_afterLiteral hash
    have second := length_of_afterTokens word
    have third := length_of_blanksThenHead head
    simp only [List.length_cons, List.length_nil] at first second
    show 0 < cs.length - after.length
    omega
  · intro before cs hit found
    obtain ⟨_, _, _, _, after, _, _, _, _, rfl⟩ := definitionHead_eq_some found
    exact Nat.sub_le _ _

theorem definitionHead_stopsBefore {wrapper : List Char} (free : ';' ∉ wrapper) :
    StopsBefore ';' (definitionHead wrapper) := by
  intro before first second
  have visible : isBlank ';' = false := by decide
  unfold definitionHead
  rw [afterLiteral_append_mark ['#'] first second (by decide)]
  cases hash : afterLiteral ['#'] first with
  | none => rfl
  | some rest =>
      simp only [Option.map_some, Option.bind_eq_bind, Option.bind_some]
      rw [afterTokens_append_mark _ rest second visible (by decide)]
      cases word : afterTokens [['d', 'e', 'f', 'i', 'n', 'e']] rest with
      | none => rfl
      | some defined =>
          have shorter := length_of_afterTokens word
          have short := length_of_afterLiteral hash
          simp only [Option.map_some, Option.bind_some]
          cases defined with
          | nil => simp [visible]
          | cons c tail =>
              simp only [List.cons_append, blanksThenHead_append_mark free tail second]
              cases isBlank c with
              | false => rfl
              | true =>
                  cases head : blanksThenHead wrapper tail with
                  | none => rfl
                  | some found =>
                      obtain ⟨n, after⟩ := found
                      have bound := length_of_blanksThenHead head
                      simp only [List.length_cons, List.length_nil] at shorter short
                      have all : (first ++ ';' :: second).length - (after ++ ';' :: second).length =
                          first.length - after.length := by
                        simp only [List.length_append]
                        omega
                      have kept : (first ++ ';' :: second).length -
                          (tail ++ ';' :: second).length = first.length - tail.length := by
                        simp only [List.length_append]
                        omega
                      simp only [↓reduceIte, Option.map_some, Option.bind_some, all, kept]
                      rw [List.take_append_of_le_length (by omega)]

theorem definitionHead_passesBlanks (wrapper : List Char) :
    PassesBlanks (definitionHead wrapper) := by
  constructor
  · intro before c cs blank
    have differs : '#' ≠ c := (ne_of_isBlank blank (by decide)).symm
    simp [definitionHead, afterLiteral, differs]
  · intro c cs _
    rfl

theorem macroDefinition_separable {wrapper : String} (free : ';' ∉ wrapper.toList) :
    (macroDefinition wrapper).Separable :=
  ⟨definitionHead_proper _, definitionHead_stopsBefore free, definitionHead_passesBlanks _⟩

/-! The qualifier -/

theorem isWordAt_append_mark (first second : List Char) {mark : Char}
    (noWord : isWord mark = false) :
    isWordAt (first ++ mark :: second).head? = isWordAt first.head? := by
  cases first with
  | nil => exact noWord
  | cons c first => rfl

theorem constWord_eq_some {before : Option Char} {cs : List Char} {hit : Hit}
    (found : constWord before cs = some hit) :
    ∃ rest, cs = ['c', 'o', 'n', 's', 't'] ++ rest ∧ isWordAt before = false ∧
      isWordAt rest.head? = false ∧ hit = ⟨5, []⟩ := by
  unfold constWord at found
  split at found
  · rename_i rest literal
    split at found
    · cases found
    · rename_i alone
      simp only [Bool.or_eq_true, not_or, Bool.not_eq_true] at alone
      cases found
      exact ⟨rest, eq_append_of_afterLiteral literal, alone.1, alone.2, rfl⟩
  · cases found

theorem constWord_proper : Proper constWord := by
  constructor
  · intro before cs hit found
    obtain ⟨_, _, _, _, rfl⟩ := constWord_eq_some found
    exact Nat.succ_pos _
  · intro before cs hit found
    obtain ⟨rest, rfl, _, _, rfl⟩ := constWord_eq_some found
    simp only [List.length_append, List.length_cons, List.length_nil]
    omega

theorem constWord_stopsBefore {mark : Char} (noWord : isWord mark = false) :
    StopsBefore mark constWord := by
  intro before first second
  have free : mark ∉ ['c', 'o', 'n', 's', 't'] := by
    intro member
    have word : isWord mark = true := forall_mem_of_all (by decide) mark member
    rw [noWord] at word
    cases word
  unfold constWord
  rw [afterLiteral_append_mark _ first second free]
  cases afterLiteral ['c', 'o', 'n', 's', 't'] first with
  | none => rfl
  | some rest => simp only [Option.map_some, isWordAt_append_mark _ _ noWord]

theorem constWord_none {c : Char} (other : c ≠ 'c') (before : Option Char) (cs : List Char) :
    constWord before (c :: cs) = none := by
  simp [constWord, afterLiteral, other.symm]

theorem stripConst_separable : stripConst.Separable := by
  refine ⟨constWord_proper, constWord_stopsBefore (by decide), ⟨?_, ?_⟩⟩
  · intro before c cs blank
    exact constWord_none (ne_of_isBlank blank (by decide)) before cs
  · intro c cs blank
    simp [stripConst, constWord, isWordAt, isWord_of_isBlank blank]

/-- Behind a qualifier no word goes on, so a word that is left at the start was there before. -/
theorem prefix_of_constWord {run cs : List Char} (letters : ∀ c ∈ run, isWord c = true)
    {before : Option Char} (within : run <+: replaceFrom constWord 0 true before cs) :
    run <+: cs := by
  have proper := constWord_proper
  induction cs generalizing run before with
  | nil => rwa [replaceFrom_nil proper] at within
  | cons c cs ih =>
      cases run with
      | nil => exact List.nil_prefix
      | cons e run =>
          cases found : constWord before (c :: cs) with
          | none =>
              rw [replaceFrom_none found, List.cons_prefix_cons] at within
              obtain ⟨rfl, later⟩ := within
              exact (List.prefix_cons_inj e).mpr
                (ih (fun d member => letters d (List.mem_cons_of_mem e member)) later)
          | some hit =>
              obtain ⟨rest, split, _, ends, rfl⟩ := constWord_eq_some found
              rw [split] at found within
              rw [replaceFrom_take proper (by simp) found, List.nil_append] at within
              cases rest with
              | nil =>
                  rw [replaceFrom_nil proper] at within
                  exact absurd (List.prefix_nil.mp within) (List.cons_ne_nil e run)
              | cons d rest =>
                  -- What follows the qualifier is kept, and is no part of a word.
                  have noWord : isWord d = false := ends
                  have other : d ≠ 'c' := by
                    rintro rfl
                    exact absurd noWord (by decide)
                  rw [replaceFrom_none (constWord_none other _ rest), List.cons_prefix_cons]
                    at within
                  rw [← within.1, letters e (by simp)] at noWord
                  cases noWord

theorem infix_of_constWord {run cs : List Char} (letters : ∀ c ∈ run, isWord c = true) {skip : Nat}
    {free : Bool} {before : Option Char}
    (within : run <:+: replaceFrom constWord skip free before cs) : run <:+: cs := by
  have proper := constWord_proper
  induction cs generalizing skip free before with
  | nil => rwa [replaceFrom_nil proper] at within
  | cons c cs ih =>
      cases skip with
      | succ skip =>
          rw [replaceFrom_skip] at within
          exact List.infix_cons (ih within)
      | zero =>
          rw [replaceFrom_free proper] at within
          rcases proper.cases before (c :: cs) with missed | ⟨n, text, found, _⟩
          · rw [replaceFrom_none missed] at within
            rcases List.infix_cons_iff.mp within with start | later
            · rw [← replaceFrom_none missed true] at start
              exact (prefix_of_constWord letters start).isInfix
            · exact List.infix_cons (ih later)
          · obtain ⟨_, _, _, _, same⟩ := constWord_eq_some found
            cases same
            rw [replaceFrom_hit found, List.nil_append] at within
            exact List.infix_cons (ih within)

/-! The unnamed parameters -/

theorem unnamedText_eq_some {function : String} {before : Option Char} {cs : List Char} {hit : Hit}
    (found : unnamedText function before cs = some hit) :
    ∃ named rest, cs = function.toList ++ named ∧
      afterTokens [['('], ['c', 'h', 'a', 'r'], ['*'], [')']] named = some rest ∧
      hit = ⟨cs.length - rest.length, function.toList ++ "(char *s)".toList⟩ := by
  unfold unnamedText at found
  simp only [Option.bind_eq_bind, Option.bind_eq_some_iff] at found
  obtain ⟨named, atName, rest, atList, same⟩ := found
  cases same
  exact ⟨named, rest, eq_append_of_afterLiteral atName, atList, rfl⟩

theorem unnamedText_separable (name function : String) {c : Char} {cs : List Char}
    (named : function.toList = c :: cs) (words : ∀ d ∈ c :: cs, isWord d = true) :
    (Rule.mk name (unnamedText function)).Separable := by
  have free : ';' ∉ function.toList := by
    intro member
    rw [named] at member
    exact absurd (words _ member) (by decide)
  have visible : isBlank ';' = false := by decide
  refine ⟨⟨?_, ?_⟩, ?_, ⟨?_, ?_⟩⟩
  · intro before cs hit found
    have here : unnamedText function before cs = some hit := found
    obtain ⟨after, rest, rfl, list, rfl⟩ := unnamedText_eq_some here
    have shorter := length_of_afterTokens list
    show 0 < (function.toList ++ after).length - rest.length
    rw [named]
    simp only [List.length_append, List.length_cons]
    omega
  · intro before cs hit found
    have here : unnamedText function before cs = some hit := found
    obtain ⟨_, rest, _, _, rfl⟩ := unnamedText_eq_some here
    exact Nat.sub_le _ _
  · intro before first second
    show unnamedText function before (first ++ ';' :: second) = unnamedText function before first
    unfold unnamedText
    rw [afterLiteral_append_mark _ first second free]
    cases afterLiteral function.toList first with
    | none => rfl
    | some after =>
        simp only [Option.map_some, Option.bind_eq_bind, Option.bind_some]
        rw [afterTokens_append_mark _ after second visible (by decide)]
        cases afterTokens [['('], ['c', 'h', 'a', 'r'], ['*'], [')']] after with
        | none => rfl
        | some rest =>
            have all : (first ++ ';' :: second).length - (rest ++ ';' :: second).length =
                first.length - rest.length := by
              simp only [List.length_append]
              omega
            simp only [Option.map_some, Option.bind_some, all]
  · intro before d rest blank
    have differs : c ≠ d := by
      rintro rfl
      have word := words c (by simp)
      rw [isWord_of_isBlank blank] at word
      cases word
    simp [unnamedText, named, afterLiteral, differs]
  · intro d rest _
    rfl

theorem apply_unnamedText {name function : String}
    (separable : (Rule.mk name (unnamedText function)).Separable)
    (free : '\n' ∉ function.toList) {part : List Char} (absent : ¬ function.toList <:+: part)
    (second : List Char) :
    (Rule.mk name (unnamedText function)).apply (part ++ '\n' :: second) =
      part ++ '\n' :: (Rule.mk name (unnamedText function)).apply second := by
  refine replaceFrom_pass_blank separable.blanks none part second (by decide) ?_
  rintro first e behind rfl
  cases found : unnamedText function (first.getLast?.or none)
      (e :: behind ++ '\n' :: second) with
  | none => exact found
  | some hit =>
      obtain ⟨named, rest, split, _, _⟩ := unnamedText_eq_some found
      have start := congrArg (afterLiteral function.toList) split
      rw [afterLiteral_append, afterLiteral_append_mark _ _ _ free] at start
      obtain ⟨later, here, _⟩ := Option.map_eq_some_iff.mp start
      refine absurd ?_ absent
      rw [eq_append_of_afterLiteral here]
      exact ⟨first, later, by simp⟩

theorem nameVersionArgument_separable : nameVersionArgument.Separable :=
  unnamedText_separable _ "swe_version" rfl (forall_mem_of_all (by decide))

theorem nameLibraryPathArgument_separable : nameLibraryPathArgument.Separable :=
  unnamedText_separable _ "swe_get_library_path" rfl (forall_mem_of_all (by decide))

end Rule

theorem Policy.forWrapper_separable {wrapper : String} (free : ';' ∉ wrapper.toList) :
    ∀ rule ∈ (Policy.forWrapper wrapper).rules, rule.Separable := by
  intro rule member
  simp only [Policy.forWrapper, List.mem_cons, List.not_mem_nil, or_false] at member
  rcases member with rfl | rfl | rfl | rfl
  · exact Rule.macroDefinition_separable free
  · exact Rule.stripConst_separable
  · exact Rule.nameVersionArgument_separable
  · exact Rule.nameLibraryPathArgument_separable

/-- The text that is left of a header before its white space is collapsed. -/
def Policy.rewrite (policy : Policy) (cs : List Char) : List Char :=
  policy.rules.foldl (fun text rule => rule.apply text) (stripComments cs)

theorem Policy.apply_eq (policy : Policy) (cs : List Char) :
    policy.apply cs = collapse (policy.rewrite cs) := rfl

theorem Policy.rewrite_nil {policy : Policy} (separable : ∀ rule ∈ policy.rules, rule.Separable) :
    policy.rewrite [] = [] := by
  have kept (rules : List Rule) (each : ∀ rule ∈ rules, rule.Separable) :
      rules.foldl (fun text rule => rule.apply text) [] = [] := by
    induction rules with
    | nil => rfl
    | cons rule rules ih =>
        rw [List.foldl_cons, (each rule (by simp)).apply_nil]
        exact ih fun other member => each other (List.mem_cons_of_mem rule member)
  exact kept policy.rules separable

theorem Policy.rewrite_blank {policy : Policy} (separable : ∀ rule ∈ policy.rules, rule.Separable)
    {c : Char} (blank : isBlank c = true) (cs : List Char) :
    policy.rewrite (c :: cs) = c :: policy.rewrite cs := by
  have kept (rules : List Rule) (each : ∀ rule ∈ rules, rule.Separable) (text : List Char) :
      rules.foldl (fun text rule => rule.apply text) (c :: text) =
        c :: rules.foldl (fun text rule => rule.apply text) text := by
    induction rules generalizing text with
    | nil => rfl
    | cons rule rules ih =>
        rw [List.foldl_cons, (each rule (by simp)).apply_blank blank, List.foldl_cons]
        exact ih (fun other member => each other (List.mem_cons_of_mem rule member)) _
  have slash : c ≠ '/' := ne_of_isBlank blank (by decide)
  rw [rewrite, stripComments_cons fun opener => slash opener.1, kept policy.rules separable]
  rfl

theorem foldl_apply_append (rules : List Rule) (separable : ∀ rule ∈ rules, rule.Separable)
    {first : List Char} (ends : EndsStatement first) (c : Char) (second : List Char)
    (blank : isBlank c = true) :
    rules.foldl (fun text rule => rule.apply text) (first ++ c :: second) =
        rules.foldl (fun text rule => rule.apply text) first ++
          c :: rules.foldl (fun text rule => rule.apply text) second ∧
      EndsStatement (rules.foldl (fun text rule => rule.apply text) first) := by
  induction rules generalizing first second with
  | nil => exact ⟨rfl, ends⟩
  | cons rule rules ih =>
      have here := separable rule (by simp)
      rw [List.foldl_cons, List.foldl_cons, List.foldl_cons, here.apply_append ends c second blank]
      exact ih (fun other member => separable other (List.mem_cons_of_mem rule member))
        (here.endsStatement ends) _

end HeaderBindings.Header
