import HeaderBindings.Proofs.Header.Definition
import HeaderBindings.Proofs.Header.Lexeme

/-!
Statements that do not name the wrapper macro. No rule writes the name where it did not stand, so
such a statement has no candidates, and a space in it changes none.
-/

set_option autoImplicit false

namespace HeaderBindings.Header

open Text

namespace Rule

/-- What the finder writes for a match ends in a character that is no part of a word, and the run
stands nowhere before that where it did not stand in the text. -/
def WritesNo (run : List Char) (find : Finder) : Prop :=
  ∀ before cs hit, find before cs = some hit → ∃ kept last, hit.text = kept ++ [last] ∧
    isWord last = false ∧ ∀ front, run <:+: front ++ kept → run <:+: front ++ cs

theorem infix_of_replaceFrom {find : Finder} (proper : Proper find) {run : List Char}
    (isRun : IsRun run) (writes : WritesNo run find) {skip : Nat} {free : Bool}
    {before : Option Char} {front cs : List Char} (start : skip = 0 ∨ front = [])
    (within : run <:+: front ++ replaceFrom find skip free before cs) : run <:+: front ++ cs := by
  induction cs generalizing skip free before front with
  | nil => rwa [replaceFrom_nil proper] at within
  | cons c cs ih =>
      cases skip with
      | succ skip =>
          obtain rfl : front = [] := by simpa using start
          rw [replaceFrom_skip] at within
          exact List.infix_cons (ih (.inr rfl) within)
      | zero =>
          rw [replaceFrom_free proper] at within
          rcases proper.cases before (c :: cs) with missed | ⟨n, text, found, _⟩
          · rw [replaceFrom_none missed, List.append_cons] at within
            rw [List.append_cons]
            exact ih (.inl rfl) within
          · obtain ⟨kept, last, same, noWord, brings⟩ := writes _ _ _ found
            have split : front ++ (text ++ replaceFrom find n false (some c) cs) =
                (front ++ kept) ++ last :: replaceFrom find n false (some c) cs := by
              rw [show text = kept ++ [last] from same]
              simp
            rw [replaceFrom_hit found, split] at within
            -- The run stands before the last character that is written, or behind it.
            rcases infix_append_mark (isRun.not_mem noWord) within with here | later
            · exact brings front here
            · have inside : run <:+: [] ++ cs := ih (.inr rfl) later
              exact inside.trans ((List.suffix_cons c cs).trans (List.suffix_append _ _)).isInfix

theorem definitionHead_writesNo {wrapper : List Char} (isRun : IsRun wrapper) (run : List Char) :
    WritesNo run (definitionHead wrapper) := by
  intro before cs hit found
  have inner : ∀ c ∈ wrapper, isInner c = true := fun c member =>
    isInner_of_isWord (isRun.letters c member)
  cases defined : afterDefine cs with
  | none =>
      rw [definitionHead_none defined] at found
      cases found
  | some rest =>
      rw [definitionHead_eq isRun.occupied inner defined] at found
      split at found
      case isTrue => cases found
      case isFalse ends =>
        obtain ⟨after, head, rfl⟩ := Option.map_eq_some_iff.mp found
        obtain ⟨own, split, start, last, ended, outer⟩ := exists_kept isRun.occupied inner defined
          (by simpa using ends) (exists_of_afterHead head).1
        have text : cs.take (cs.length - (dropBlanks rest).length) = start ++ [last] := by
          rw [split, List.length_append, Nat.add_sub_cancel, List.take_left, ended]
        refine ⟨start, last, text, ?_, fun front within => within.trans ?_⟩
        · cases word : isWord last with
          | false => rfl
          | true =>
              rw [isInner_of_isWord word] at outer
              cases outer
        · rw [split, ended]
          exact ⟨[], last :: dropBlanks rest, by simp⟩

theorem unnamedText_writesNo {function : String} (letter : 's' ∈ function.toList)
    {run : List Char} (isRun : IsRun run) : WritesNo run (unnamedText function) := by
  intro before cs hit found
  obtain ⟨named, rest, rfl, list, rfl⟩ := unnamedText_eq_some found
  refine ⟨function.toList ++ "(char *s".toList, ')', by simp, by decide, fun front within => ?_⟩
  have split : front ++ (function.toList ++ "(char *s".toList) =
      (front ++ function.toList) ++
        '(' :: (['c', 'h', 'a', 'r'] ++ ' ' :: ([] ++ '*' :: ['s'])) := by
    simp
  have mark {c : Char} (noWord : isWord c = false) := isRun.not_mem noWord
  rw [split] at within
  rcases infix_append_mark (mark (by decide)) within with before | within
  · exact before.trans ⟨[], named, by simp⟩
  rcases infix_append_mark (mark (by decide)) within with type | within
  · have typed : ['c', 'h', 'a', 'r'] <:+: named := infix_of_afterTokens (by simp) list
    exact type.trans (typed.trans ⟨front ++ function.toList, [], by simp⟩)
  rcases infix_append_mark (mark (by decide)) within with nothing | name
  · exact absurd (List.infix_nil.mp nothing) isRun.occupied
  · obtain ⟨first, second, same⟩ := List.append_of_mem letter
    exact name.trans ⟨front ++ first, second ++ named, by rw [same]; simp⟩

theorem infix_of_apply {wrapper : String} (named : IsRun wrapper.toList) {rule : Rule}
    (member : rule ∈ (Policy.forWrapper wrapper).rules) {run : List Char} (isRun : IsRun run)
    {cs : List Char} (within : run <:+: rule.apply cs) : run <:+: cs := by
  have semicolon : ';' ∉ wrapper.toList := named.not_mem (by decide)
  have proper := (Policy.forWrapper_separable semicolon rule member).proper
  have kept (writes : WritesNo run rule.find) : run <:+: [] ++ cs :=
    infix_of_replaceFrom proper isRun writes (.inl rfl) within
  simp only [Policy.forWrapper, List.mem_cons, List.not_mem_nil, or_false] at member
  rcases member with rfl | rfl | rfl | rfl
  · exact kept (definitionHead_writesNo named run)
  · exact infix_of_constWord isRun.letters within
  · exact kept (unnamedText_writesNo (by decide) isRun)
  · exact kept (unnamedText_writesNo (by decide) isRun)

end Rule

section Statements

variable {wrapper : String} (named : IsRun wrapper.toList)

include named

theorem candidatesIn_eq_nil {cs : List Char} (absent : ¬ wrapper.toList <:+: cs) :
    candidatesIn (.forWrapper wrapper) wrapper.toList cs = [] := by
  have kept (rules : List Rule) (each : ∀ rule ∈ rules, rule ∈ (Policy.forWrapper wrapper).rules)
      (text : List Char) (absent : ¬ wrapper.toList <:+: text) :
      ¬ wrapper.toList <:+: rules.foldl (fun text rule => rule.apply text) text := by
    induction rules generalizing text with
    | nil => exact absent
    | cons rule rules ih =>
        have here : ¬ wrapper.toList <:+: rule.apply text := fun within =>
          absent (Rule.infix_of_apply named (each rule (by simp)) named within)
        exact ih (fun other member => each other (List.mem_cons_of_mem rule member)) _ here
  refine List.eq_nil_iff_forall_not_mem.mpr fun part member => ?_
  obtain ⟨body, rfl, _, begun⟩ := exists_body_of_mem (named.not_mem (by decide)) member
  have inside := begun.isInfix.trans
    ((List.prefix_append body [';']).isInfix.trans (infix_of_mem_spansFrom member))
  rw [collapse_eq_joinWords] at inside
  obtain ⟨word, listed, within⟩ := infix_joinWords named.occupied named.visible inside
  exact kept _ (fun _ member => member) cs absent (within.trans (infix_of_mem_words listed).1)

theorem lexemes_candidatesIn {cs ds : List Char} (same : SameLexemes cs ds) :
    (candidatesIn (.forWrapper wrapper) wrapper.toList cs).map lexemes =
      (candidatesIn (.forWrapper wrapper) wrapper.toList ds).map lexemes := by
  obtain ⟨w, own, shape⟩ := List.exists_cons_of_ne_nil named.occupied
  have respects := forWrapper_respects named.occupied fun c member =>
    isInner_of_isWord (named.letters c member)
  exact map_lexemes_candidatesIn respects shape named.letters same

/-- A statement and what follows it have their candidates separately. -/
theorem lexemes_candidatesIn_append (first second : List Char) :
    (candidatesIn (.forWrapper wrapper) wrapper.toList (first ++ ';' :: second)).map lexemes =
      (candidatesIn (.forWrapper wrapper) wrapper.toList (first ++ [';'])).map lexemes ++
        (candidatesIn (.forWrapper wrapper) wrapper.toList second).map lexemes := by
  obtain ⟨w, own, shape⟩ := List.exists_cons_of_ne_nil named.occupied
  have space : isBlank ' ' = true := by decide
  have spaced : SameLexemes (first ++ ';' :: second) (first ++ [';'] ++ ' ' :: second) := by
    unfold SameLexemes
    rw [lexemes_append_blank _ _ space, lexemes_append_separator _ _ (by decide),
      lexemes_append_separator _ _ (by decide)]
    simp
  have apart := candidatesIn_append (Policy.forWrapper_separable (named.not_mem (by decide))) shape
    (named.letters w (by simp [shape])) (named.not_mem (by decide))
    ⟨first, [], rfl, by simp⟩ space second
  rw [lexemes_candidatesIn named spaced, apart, List.map_append]

theorem lexemes_candidatesIn_pass {part rest : List Char} (absent : ¬ wrapper.toList <:+: part)
    (ends : rest = [] ∨ ∃ behind, rest = ';' :: behind) :
    (candidatesIn (.forWrapper wrapper) wrapper.toList (part ++ rest)).map lexemes =
      (candidatesIn (.forWrapper wrapper) wrapper.toList rest.tail).map lexemes := by
  have nothing : ¬ wrapper.toList <:+: [] := fun within =>
    named.occupied (List.infix_nil.mp within)
  rcases ends with rfl | ⟨behind, rfl⟩
  · rw [List.append_nil, List.tail_nil, candidatesIn_eq_nil named absent,
      candidatesIn_eq_nil named nothing]
  · have ended : ¬ wrapper.toList <:+: part ++ [';'] := by
      intro within
      rcases infix_append_mark (named.not_mem (by decide)) within with here | behind
      · exact absent here
      · exact nothing behind
    rw [lexemes_candidatesIn_append named, candidatesIn_eq_nil named ended]
    rfl

end Statements

/-- What stands between the last semicolon of one text and the first of another one behind it. -/
def statementAt (left right : List Char) : List Char :=
  (left.reverse.takeWhile (· ≠ ';')).reverse ++ right.takeWhile (· ≠ ';')

theorem exists_statementAt (left right : List Char) :
    ∃ start part part' rest, left = start ++ part ∧ right = part' ++ rest ∧
      statementAt left right = part ++ part' ∧ (start = [] ∨ ∃ before, start = before ++ [';']) ∧
      (rest = [] ∨ ∃ behind, rest = ';' :: behind) := by
  have cut (cs : List Char) : ∃ rest, cs = cs.takeWhile (· ≠ ';') ++ rest ∧
      (rest = [] ∨ ∃ behind, rest = ';' :: behind) := by
    refine ⟨cs.dropWhile (· ≠ ';'), List.takeWhile_append_dropWhile.symm, ?_⟩
    have stops := List.head?_dropWhile_not (· ≠ ';') cs
    cases tail : cs.dropWhile (· ≠ ';') with
    | nil => exact .inl rfl
    | cons c behind =>
        rw [tail] at stops
        obtain rfl : c = ';' := by simpa using stops
        exact .inr ⟨behind, rfl⟩
  obtain ⟨turned, split, before⟩ := cut left.reverse
  obtain ⟨rest, split', behind⟩ := cut right
  refine ⟨turned.reverse, _, _, rest, ?_, split', rfl, ?_, behind⟩
  · rw [← List.reverse_append, ← split, List.reverse_reverse]
  · rcases before with rfl | ⟨before, rfl⟩
    · exact .inl rfl
    · exact .inr ⟨before.reverse, List.reverse_cons⟩

theorem infix_statementAt {run : List Char} (space : ' ' ∉ run) {first second rest : List Char}
    (within : run <:+: statementAt (first ++ ' ' :: second) rest) :
    run <:+: statementAt (first ++ second) rest := by
  unfold statementAt at within ⊢
  rw [List.reverse_append, List.reverse_cons, List.append_assoc, List.takeWhile_append] at within
  rw [List.reverse_append, List.takeWhile_append]
  split at within
  case isTrue whole =>
    rw [if_pos whole]
    rw [List.singleton_append, List.takeWhile_cons_of_pos (by decide), List.reverse_append,
      List.reverse_reverse, List.reverse_cons, List.append_assoc, List.append_assoc,
      List.singleton_append] at within
    rw [List.reverse_append, List.reverse_reverse, List.append_assoc]
    rcases infix_append_mark space within with before | behind
    · exact before.trans (List.prefix_append _ _).isInfix
    · exact behind.trans (List.suffix_append _ _).isInfix
  case isFalse part => rwa [if_neg part]

/-- A space changes no candidates where the statement does not name the wrapper macro. -/
theorem lexemes_candidatesIn_space {wrapper : String} (named : IsRun wrapper.toList)
    {left right : List Char} (absent : ¬ wrapper.toList <:+: statementAt left right) :
    (candidatesIn (.forWrapper wrapper) wrapper.toList (left ++ right)).map lexemes =
      (candidatesIn (.forWrapper wrapper) wrapper.toList (left ++ ' ' :: right)).map lexemes := by
  obtain ⟨start, part, part', rest, rfl, rfl, statement, begins, ends⟩ :=
    exists_statementAt left right
  rw [statement] at absent
  have spaced : ¬ wrapper.toList <:+: part ++ ' ' :: part' := by
    intro within
    rcases infix_append_mark (named.not_mem (by decide)) within with before | behind
    · exact absent (before.trans (List.prefix_append part part').isInfix)
    · exact absent (behind.trans (List.suffix_append part part').isInfix)
  have same := (lexemes_candidatesIn_pass named absent ends).trans
    (lexemes_candidatesIn_pass named spaced ends).symm
  simp only [List.append_assoc, List.cons_append] at same ⊢
  rcases begins with rfl | ⟨before, rfl⟩
  · exact same
  · have front := lexemes_candidatesIn_append named before
    rw [List.append_assoc, List.append_assoc, List.singleton_append, List.singleton_append,
      front (part ++ (part' ++ rest)), front (part ++ ' ' :: (part' ++ rest)), same]

end HeaderBindings.Header
