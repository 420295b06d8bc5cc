import HeaderBindings.Proofs.Header.Candidate
import HeaderBindings.Proofs.Text.Walk

set_option autoImplicit false

namespace HeaderBindings.Header

open Text

namespace Rule

theorem afterLiteral_outer {literal : List Char} (occupied : literal ≠ [])
    (inner : ∀ c ∈ literal, isInner c = true) {d : Char} (outer : isInner d = false)
    (cs : List Char) : afterLiteral literal (d :: cs) = none := by
  obtain ⟨c, own, rfl⟩ := List.exists_cons_of_ne_nil occupied
  have other : c ≠ d := by
    rintro rfl
    rw [inner c (by simp)] at outer
    cases outer
  simp [afterLiteral, other]

theorem constWord_respects : Respects constWord := by
  have inner : ∀ c ∈ ['c', 'o', 'n', 's', 't'], isInner c = true := forall_mem_of_all (by decide)
  refine ⟨constWord_proper, ?_, ?_⟩
  · intro c outer before cs
    simp [constWord, afterLiteral_outer (by simp) inner outer]
  · intro before before' cs ds word alike
    have both := afterLiteral_inner inner alike
    unfold constWord
    generalize first : afterLiteral ['c', 'o', 'n', 's', 't'] cs = left at both
    generalize second : afterLiteral ['c', 'o', 'n', 's', 't'] ds = right at both
    cases both with
    | none => exact .missed
    | some rest =>
        simp only [word, rest.isWordAt_head]
        split
        · exact .missed
        · exact .inside (eq_append_of_afterLiteral first) (eq_append_of_afterLiteral second) rest

theorem agree_of_close {cs ds front front' rest rest' text text' : List Char} {c : Char}
    (outer : isInner c = false) (left : cs = front ++ c :: rest) (right : ds = front' ++ c :: rest')
    (written : Alike text text') (ended : Ended text) (ended' : Ended text')
    (same : SameLexemes rest rest') :
    Agree cs ds (some ⟨cs.length - rest.length, text⟩)
      (some ⟨ds.length - rest'.length, text'⟩) := by
  have length {cs front rest : List Char} (split : cs = front ++ c :: rest) :
      cs = front ++ [c] ++ rest ∧ cs.length - rest.length = (front ++ [c]).length := by
    rw [split]
    simp
    omega
  rw [(length left).2, (length right).2]
  exact .ended (length left).1 (length right).1 ⟨front, c, rfl, outer⟩ ⟨front', c, rfl, outer⟩
    written ended ended' same

def unnamedTokens : List (List Char) := [['('], ['c', 'h', 'a', 'r'], ['*'], [')']]

theorem unnamedText_eq (function : String) (before : Option Char) (cs : List Char) :
    unnamedText function before cs =
      ((afterLiteral function.toList cs).bind (afterTokens unnamedTokens)).map fun rest =>
        ⟨cs.length - rest.length, function.toList ++ "(char *s)".toList⟩ := by
  unfold unnamedText
  cases afterLiteral function.toList cs with
  | none => rfl
  | some rest =>
      show (afterTokens unnamedTokens rest).bind _ = (afterTokens unnamedTokens rest).map _
      cases afterTokens unnamedTokens rest <;> rfl

theorem unnamedText_respects (function : String) {c : Char} {own : List Char}
    (named : function.toList = c :: own) (words : ∀ d ∈ c :: own, isWord d = true) :
    Respects (unnamedText function) := by
  have inner : ∀ d ∈ function.toList, isInner d = true := by
    rw [named]
    exact fun d member => isInner_of_isWord (words d member)
  have tokens : ∀ token ∈ unnamedTokens, IsToken token := by
    simp only [unnamedTokens, List.mem_cons, List.not_mem_nil, or_false]
    rintro token (rfl | rfl | rfl | rfl)
    · exact .inr ⟨'(', rfl⟩
    · exact .inl (forall_mem_of_all (by decide))
    · exact .inr ⟨'*', rfl⟩
    · exact .inr ⟨')', rfl⟩
  refine ⟨(unnamedText_separable function function named words).proper, ?_, ?_⟩
  · intro d outer before cs
    have missed := afterLiteral_outer (by simp [named]) inner outer cs
    rw [unnamedText_eq, missed]
    rfl
  · intro before before' cs ds _ alike
    have both := rel_bind (afterLiteral_inner inner alike)
      (g := afterTokens unnamedTokens) fun _ _ alike => afterTokens_lexemes tokens alike.same
    rw [unnamedText_eq, unnamedText_eq]
    generalize first : (afterLiteral function.toList cs).bind (afterTokens unnamedTokens) = left
      at both
    generalize second : (afterLiteral function.toList ds).bind (afterTokens unnamedTokens) = right
      at both
    cases both with
    | none => exact .missed
    | @some rest rest' same =>
        have cut {cs rest : List Char} (found : (afterLiteral function.toList cs).bind
            (afterTokens unnamedTokens) = some rest) : ∃ front, cs = front ++ ')' :: rest := by
          obtain ⟨list, here, closed⟩ := Option.bind_eq_some_iff.mp found
          obtain ⟨front, split⟩ := exists_of_afterTokens rfl closed
          exact ⟨function.toList ++ front, by
            rw [eq_append_of_afterLiteral here, split, List.append_assoc]⟩
        obtain ⟨front, left⟩ := cut first
        obtain ⟨front', right⟩ := cut second
        have ended : Ended (function.toList ++ "(char *s)".toList) :=
          ⟨function.toList ++ "(char *s".toList, ')', by simp, by decide⟩
        exact agree_of_close (by decide) left right ⟨rfl, rfl⟩ ended ended same

/-! The definition of the wrapper macro -/

theorem blanksThenHead_eq {wrapper : List Char} (occupied : wrapper ≠ [])
    (inner : ∀ c ∈ wrapper, isInner c = true) (cs : List Char) :
    blanksThenHead wrapper cs = (afterHead wrapper (dropBlanks cs)).map fun rest =>
      (cs.length - (dropBlanks cs).length, rest) := by
  induction cs with
  | nil => rfl
  | cons c cs ih =>
      have shorter := length_dropBlanks_le cs
      cases blank : isBlank c with
      | true =>
          have here : afterHead wrapper (c :: cs) = none := by
            simp [afterHead, afterLiteral_outer occupied inner (isInner_of_isBlank blank)]
          have length : (c :: cs).length - (dropBlanks cs).length =
              cs.length - (dropBlanks cs).length + 1 := by
            simp only [List.length_cons]
            omega
          rw [dropBlanks_blank cs blank, length, blanksThenHead, ih, here]
          simp [blank, Function.comp_def]
      | false =>
          rw [dropBlanks_visible cs blank, blanksThenHead]
          simp [blank]

def afterDefine (cs : List Char) : Option (List Char) :=
  (afterLiteral ['#'] cs).bind (afterTokens [['d', 'e', 'f', 'i', 'n', 'e']])

theorem definitionHead_none {wrapper cs : List Char} (missed : afterDefine cs = none)
    (before : Option Char) : definitionHead wrapper before cs = none := by
  unfold afterDefine at missed
  unfold definitionHead
  cases hash : afterLiteral ['#'] cs with
  | none => rfl
  | some rest =>
      rw [hash] at missed
      simp only [Option.bind_some] at missed
      simp [missed]

/-- Behind the word there has to be a blank, so no lexeme may go on there. -/
theorem definitionHead_eq {wrapper cs rest : List Char} (occupied : wrapper ≠ [])
    (inner : ∀ c ∈ wrapper, isInner c = true) (found : afterDefine cs = some rest)
    (before : Option Char) :
    definitionHead wrapper before cs =
      if goesOn rest then none
      else (afterHead wrapper (dropBlanks rest)).map fun after =>
        ⟨cs.length - after.length, cs.take (cs.length - (dropBlanks rest).length)⟩ := by
  obtain ⟨defined, hash, word⟩ := Option.bind_eq_some_iff.mp found
  have short := length_of_afterLiteral hash
  have shorter := length_of_afterTokens word
  unfold definitionHead
  simp only [Option.bind_eq_bind, hash, Option.bind_some, word]
  cases rest with
  | nil =>
      obtain ⟨c, own, rfl⟩ := List.exists_cons_of_ne_nil occupied
      rfl
  | cons c tail =>
      have left := length_dropBlanks_le tail
      cases blank : isBlank c with
      | true =>
          simp only [List.length_cons] at shorter
          have kept : cs.length - tail.length + (tail.length - (dropBlanks tail).length) =
              cs.length - (dropBlanks tail).length := by omega
          simp only [blank, ↓reduceIte, goesOn_cons, isInner_of_isBlank blank, Bool.false_eq_true,
            dropBlanks_blank tail blank, blanksThenHead_eq occupied inner]
          cases afterHead wrapper (dropBlanks tail) with
          | none => rfl
          | some after =>
              simp only [Option.map_some, Option.bind_some, kept]
              rfl
      | false =>
          simp only [blank, Bool.false_eq_true, ↓reduceIte, goesOn_cons,
            dropBlanks_visible tail blank]
          cases more : isInner c with
          | true => rfl
          | false => simp [afterHead, afterLiteral_outer occupied inner more]

theorem afterHead_lexemes {wrapper : List Char} (inner : ∀ c ∈ wrapper, isInner c = true)
    {cs ds : List Char} (alike : Alike cs ds) :
    Option.Rel SameLexemes (afterHead wrapper cs) (afterHead wrapper ds) := by
  refine rel_bind (afterLiteral_inner inner alike) fun _ _ named => ?_
  refine rel_bind (afterTokens_lexemes (isToken_single '(') named.same) fun _ _ opened => ?_
  rcases opened.cases with ⟨left, right⟩ | ⟨c, r, s, left, right, _, _, rest⟩
  · rw [left, right]
    exact .none
  · simp only [left, right]
    cases word : isWord c with
    | false => exact .none
    | true =>
        exact afterTokens_lexemes (isToken_single ')')
          (rest (isInner_of_isWord word)).dropWhile_isWord.same

theorem exists_of_afterHead {wrapper cs rest : List Char}
    (found : afterHead wrapper cs = some rest) :
    wrapper <+: cs ∧ ∃ front, cs = front ++ ')' :: rest := by
  unfold afterHead at found
  simp only [Option.bind_eq_bind, Option.bind_eq_some_iff] at found
  obtain ⟨named, atName, opened, atOpen, closed⟩ := found
  obtain ⟨front, split⟩ := exists_of_afterTokens rfl atOpen
  obtain ⟨gap, _, inner⟩ := exists_gap opened
  have name := eq_append_of_afterLiteral atName
  refine ⟨⟨named, name.symm⟩, ?_⟩
  split at closed
  · cases closed
  · rename_i c tail same
    split at closed
    · obtain ⟨behind, close⟩ := exists_of_afterTokens rfl closed
      have whole : opened = gap ++ c :: (tail.takeWhile isWord ++ (behind ++ ')' :: rest)) := by
        rw [← close, List.takeWhile_append_dropWhile, ← same]
        exact inner
      refine ⟨wrapper ++ (front ++ '(' :: (gap ++ c :: (tail.takeWhile isWord ++ behind))), ?_⟩
      rw [name, split, whole]
      simp
    · cases closed

theorem afterDefine_alike {cs ds : List Char} (alike : Alike cs ds) :
    Option.Rel Alike (afterDefine cs) (afterDefine ds) := by
  have hash : ∀ c ∈ ['#'], isInner c = true := forall_mem_of_all (by decide)
  have word : ∀ c ∈ ['d', 'e', 'f', 'i', 'n', 'e'], isInner c = true :=
    forall_mem_of_all (by decide)
  refine rel_bind (afterLiteral_inner hash alike) fun _ _ rest => ?_
  exact rel_bind (afterLiteral_inner word (alike_dropBlanks rest.same)) fun _ _ => .some

/-- What is kept of a definition: all up to the head of the macro, before which a blank stands. -/
theorem exists_kept {wrapper cs rest : List Char} (occupied : wrapper ≠ [])
    (inner : ∀ c ∈ wrapper, isInner c = true) (found : afterDefine cs = some rest)
    (ends : goesOn rest = false) (head : wrapper <+: dropBlanks rest) :
    ∃ own, cs = '#' :: own ++ dropBlanks rest ∧ Ended ('#' :: own) := by
  obtain ⟨defined, hash, word⟩ := Option.bind_eq_some_iff.mp found
  obtain ⟨gap, blanks, split⟩ := exists_gap rest
  obtain ⟨lead, _, front⟩ := exists_gap defined
  simp only [afterTokens, Option.bind_eq_some_iff, Option.some.injEq, exists_eq_right] at word
  rw [eq_append_of_afterLiteral word] at front
  have whole := eq_append_of_afterLiteral hash
  have filled : gap ≠ [] := by
    rintro rfl
    obtain ⟨c, letters, rfl⟩ := List.exists_cons_of_ne_nil occupied
    obtain ⟨behind, same⟩ := head
    rw [split, List.nil_append, ← same, List.cons_append, goesOn_cons, inner c (by simp)] at ends
    cases ends
  obtain ⟨start, c, rfl⟩ := (List.eq_nil_or_concat gap).resolve_left filled
  rw [List.concat_eq_append] at blanks split
  refine ⟨lead ++ ['d', 'e', 'f', 'i', 'n', 'e'] ++ start ++ [c], ?_,
    '#' :: (lead ++ ['d', 'e', 'f', 'i', 'n', 'e'] ++ start), c, rfl,
    isInner_of_isBlank (blanks c (by simp))⟩
  calc cs = ['#'] ++ (lead ++ (['d', 'e', 'f', 'i', 'n', 'e'] ++ rest)) := by rw [whole, front]
    _ = ['#'] ++ (lead ++ (['d', 'e', 'f', 'i', 'n', 'e'] ++
          (start ++ [c] ++ dropBlanks rest))) := by rw [← split]
    _ = _ := by simp

theorem agree_definition {wrapper cs ds rest rest' after after' : List Char}
    (occupied : wrapper ≠ []) (inner : ∀ c ∈ wrapper, isInner c = true) (alike : Alike cs ds)
    (first : afterDefine cs = some rest) (second : afterDefine ds = some rest')
    (next : Alike rest rest') (ends : goesOn rest' = false)
    (head : afterHead wrapper (dropBlanks rest) = some after)
    (head' : afterHead wrapper (dropBlanks rest') = some after') (same : SameLexemes after after') :
    Agree cs ds
      (some ⟨cs.length - after.length, cs.take (cs.length - (dropBlanks rest).length)⟩)
      (some ⟨ds.length - after'.length, ds.take (ds.length - (dropBlanks rest').length)⟩) := by
  obtain ⟨named, behind, close⟩ := exists_of_afterHead head
  obtain ⟨named', behind', close'⟩ := exists_of_afterHead head'
  obtain ⟨own, split, ended⟩ := exists_kept occupied inner first (next.next.trans ends) named
  obtain ⟨own', split', ended'⟩ := exists_kept occupied inner second ends named'
  have kept {cs front rest : List Char} (split : cs = front ++ rest) :
      cs.take (cs.length - rest.length) = front := by
    rw [split, List.length_append, Nat.add_sub_cancel, List.take_left]
  have written : SameLexemes ('#' :: own) ('#' :: own') := by
    have whole := alike.same
    unfold SameLexemes at whole
    rw [split, split', lexemes_ended ended, lexemes_ended ended',
      (alike_dropBlanks next.same).same] at whole
    exact List.append_cancel_right whole
  have left : cs = '#' :: own ++ behind ++ ')' :: after := by
    rw [split, close, List.append_assoc]
  have right : ds = '#' :: own' ++ behind' ++ ')' :: after' := by
    rw [split', close', List.append_assoc]
  rw [kept split, kept split']
  exact agree_of_close (by decide) left right ⟨written, rfl⟩ ended ended' same

theorem definitionHead_respects {wrapper : List Char} (occupied : wrapper ≠ [])
    (inner : ∀ c ∈ wrapper, isInner c = true) : Respects (definitionHead wrapper) := by
  refine ⟨definitionHead_proper wrapper, ?_, ?_⟩
  · intro c outer before cs
    have hash : ∀ c ∈ ['#'], isInner c = true := forall_mem_of_all (by decide)
    have missed : afterDefine (c :: cs) = none := by
      rw [afterDefine, afterLiteral_outer (by simp) hash outer]
      rfl
    exact definitionHead_none missed before
  · intro before before' cs ds _ alike
    have both := afterDefine_alike alike
    generalize first : afterDefine cs = left at both
    generalize second : afterDefine ds = right at both
    cases both with
    | none =>
        rw [definitionHead_none first, definitionHead_none second]
        exact .missed
    | @some rest rest' next =>
        rw [definitionHead_eq occupied inner first, definitionHead_eq occupied inner second,
          next.next]
        cases ends : goesOn rest' with
        | true => exact .missed
        | false =>
            have heads := afterHead_lexemes inner (alike_dropBlanks next.same)
            generalize head : afterHead wrapper (dropBlanks rest) = left at heads
            generalize head' : afterHead wrapper (dropBlanks rest') = right at heads
            cases heads with
            | none => exact .missed
            | some same =>
                exact agree_definition occupied inner alike first second next ends head head' same

end Rule

/-- The normal forms of texts with the same lexemes have the same lexemes. -/
theorem foldl_apply_lexemes {rules : List Rule} (respects : ∀ rule ∈ rules, Respects rule.find)
    {cs ds : List Char} (same : SameLexemes cs ds) :
    SameLexemes (rules.foldl (fun text rule => rule.apply text) cs)
      (rules.foldl (fun text rule => rule.apply text) ds) := by
  induction rules generalizing cs ds with
  | nil => exact same
  | cons rule rules ih =>
      rw [List.foldl_cons, List.foldl_cons]
      exact ih (fun other member => respects other (List.mem_cons_of_mem rule member))
        ((respects rule (by simp)).replaceAll same)

theorem forWrapper_respects {wrapper : String} (occupied : wrapper.toList ≠ [])
    (inner : ∀ c ∈ wrapper.toList, isInner c = true) :
    ∀ rule ∈ (Policy.forWrapper wrapper).rules, Respects rule.find := by
  intro rule member
  simp only [Policy.forWrapper, List.mem_cons, List.not_mem_nil, or_false] at member
  rcases member with rfl | rfl | rfl | rfl
  · exact Rule.definitionHead_respects occupied inner
  · exact Rule.constWord_respects
  · exact Rule.unnamedText_respects "swe_version" rfl (forall_mem_of_all (by decide))
  · exact Rule.unnamedText_respects "swe_get_library_path" rfl (forall_mem_of_all (by decide))

/-! Candidates -/

theorem isSome_afterLiteral_semicolon (cs : List Char) :
    (afterLiteral [';'] (cs.dropWhile (· ≠ ';'))).isSome = decide (';' ∈ cs) := by
  induction cs with
  | nil => rfl
  | cons c cs ih =>
      by_cases mark : c = ';'
      · simp [mark, afterLiteral]
      · have other : ';' ≠ c := fun same => mark same.symm
        simpa [mark, other] using ih

/-- A candidate ends at the first semicolon, and the search goes on behind it. -/
theorem spansFrom_candidate {wrapper : List Char} (free : ';' ∉ wrapper) {before : Option Char}
    {cs : List Char} (found : (candidate wrapper before cs).isSome = true) :
    ∃ body rest, cs = body ++ ';' :: rest ∧ ';' ∉ body ∧ wrapper <+: body ∧
      spansFrom (candidate wrapper) 0 before cs =
        (body ++ [';']) :: spansFrom (candidate wrapper) 0 (some ';') rest := by
  obtain ⟨hit, here⟩ := Option.isSome_iff_exists.mp found
  obtain ⟨named, inner, rest, atName, atOpen, atEnd, rfl⟩ := candidate_eq_some here
  obtain ⟨gap, blanks, opened⟩ := exists_gap_of_afterTokens atOpen
  have noMark : ';' ∉ gap := fun member => absurd (blanks ';' member) (by decide)
  have noEnd : ';' ∉ inner.takeWhile (· ≠ ';') := by
    intro member
    have passed := List.all_eq_true.mp List.all_takeWhile ';' member
    simp at passed
  have close : inner = inner.takeWhile (· ≠ ';') ++ ';' :: rest := by
    have whole := List.takeWhile_append_dropWhile (p := (· ≠ ';')) (l := inner)
    rw [eq_append_of_afterLiteral atEnd] at whole
    exact whole.symm
  generalize inner.takeWhile (· ≠ ';') = list at noEnd close
  have split : cs = wrapper ++ (gap ++ '(' :: list) ++ [';'] ++ rest := by
    rw [eq_append_of_afterLiteral atName, opened, close]
    simp
  refine ⟨wrapper ++ (gap ++ '(' :: list), rest, by rw [split]; simp, ?_,
    List.prefix_append _ _, ?_⟩
  · simp [free, noMark, noEnd]
  · rw [split, List.length_append, Nat.add_sub_cancel] at here
    rw [split, spansFrom_take (by simp) here, List.getLast?_concat, Option.some_or]

theorem isSome_candidate {wrapper : List Char} (inner : ∀ c ∈ wrapper, isInner c = true)
    {before before' : Option Char} (word : isWordAt before = isWordAt before') {cs ds : List Char}
    (alike : Alike cs ds) :
    (candidate wrapper before cs).isSome = (candidate wrapper before' ds).isSome := by
  have both := rel_bind (afterLiteral_inner inner alike) (g := afterTokens [['(']])
    fun _ _ alike => afterTokens_lexemes (isToken_single '(') alike.same
  have shape (before : Option Char) (cs : List Char) : (candidate wrapper before cs).isSome =
      (isWordBoundary before cs.head? &&
        ((afterLiteral wrapper cs).bind (afterTokens [['(']])).any (';' ∈ ·)) := by
    unfold candidate
    split
    · rename_i boundary
      rw [boundary, Bool.true_and]
      cases afterLiteral wrapper cs with
      | none => rfl
      | some named =>
          simp only [Option.bind_eq_bind, Option.bind_some]
          cases afterTokens [['(']] named with
          | none => rfl
          | some list =>
              rw [Option.any_some, ← isSome_afterLiteral_semicolon]
              simp only [Option.bind_some]
              cases afterLiteral [';'] (list.dropWhile (· ≠ ';')) <;> rfl
    · rename_i boundary
      simp [boundary]
  rw [shape, shape, isWordBoundary, isWordBoundary, word, alike.isWordAt_head]
  congr 1
  generalize (afterLiteral wrapper cs).bind (afterTokens [['(']]) = left at both
  generalize (afterLiteral wrapper ds).bind (afterTokens [['(']]) = right at both
  cases both with
  | none => rfl
  | some same => simp [same.mem (c := ';') (by decide)]

theorem candidate_outer {wrapper : List Char} (occupied : wrapper ≠ [])
    (inner : ∀ c ∈ wrapper, isInner c = true) {c : Char} (outer : isInner c = false)
    (before : Option Char) (cs : List Char) : candidate wrapper before (c :: cs) = none := by
  simp [candidate, Rule.afterLiteral_outer occupied inner outer]

theorem spansFrom_both {wrapper : List Char} (free : ';' ∉ wrapper) {before before' : Option Char}
    {cs ds : List Char} (same : SameLexemes cs ds)
    (found : (candidate wrapper before cs).isSome = true)
    (found' : (candidate wrapper before' ds).isSome = true) :
    ∃ part part' rest rest', cs = part ++ rest ∧ part ≠ [] ∧ lexemes part = lexemes part' ∧
      SameLexemes rest rest' ∧
      spansFrom (candidate wrapper) 0 before cs =
        part :: spansFrom (candidate wrapper) 0 (some ';') rest ∧
      spansFrom (candidate wrapper) 0 before' ds =
        part' :: spansFrom (candidate wrapper) 0 (some ';') rest' := by
  obtain ⟨body, rest, split, noMark, _, walked⟩ := spansFrom_candidate free found
  obtain ⟨body', rest', split', noMark', _, walked'⟩ := spansFrom_candidate free found'
  rw [split] at same
  obtain ⟨first, second, again, absent, front, behind⟩ := SameLexemes.cut (by decide) noMark same
  rw [split'] at again
  obtain ⟨rfl, rfl⟩ := eq_of_append_mark noMark' absent again
  refine ⟨body ++ [';'], body' ++ [';'], rest, rest', ?_, by simp, ?_, behind, walked, walked'⟩
  · rw [split, List.append_assoc]
    rfl
  · rw [lexemes_append_separator _ _ (by decide), lexemes_append_separator _ _ (by decide), front]

theorem map_lexemes_spansFrom {wrapper own : List Char} {w : Char} (named : wrapper = w :: own)
    (words : ∀ c ∈ wrapper, isWord c = true) {before before' : Option Char} {cs ds : List Char}
    (aligned : Aligned before cs before' ds) :
    (spansFrom (candidate wrapper) 0 before cs).map lexemes =
      (spansFrom (candidate wrapper) 0 before' ds).map lexemes := by
  have occupied : wrapper ≠ [] := by simp [named]
  have inner : ∀ c ∈ wrapper, isInner c = true := fun c member => isInner_of_isWord (words c member)
  have free : ';' ∉ wrapper := fun member => absurd (words ';' member) (by decide)
  have passes : PassesBlanks (candidate wrapper) :=
    candidate_passesBlanks named (words w (by simp [named]))
  induction size : cs.length using Nat.strongRecOn generalizing before before' cs ds with
  | ind n ih =>
    subst size
    rcases aligned.cases with ⟨blanks, blanks'⟩ | ⟨gap, gap', c, r, s, blanks, blanks', rfl, rfl,
      ⟨known, same⟩ | ⟨inside, alike, word, _⟩⟩
    · have nothing {cs : List Char} (blanks : ∀ c ∈ cs, isBlank c = true) (before : Option Char) :
          spansFrom (candidate wrapper) 0 before cs = [] := by
        have passed := spansFrom_gap passes before blanks []
        rwa [List.append_nil] at passed
      rw [nothing blanks, nothing blanks']
    · have outer := isInner_of_mem_separators known
      have noWord : isWordAt (some c) = false := isWordAt_ended ⟨[], c, rfl, outer⟩ none
      rw [spansFrom_gap passes before blanks, spansFrom_gap passes before' blanks',
        spansFrom_none (candidate_outer occupied inner outer _ _),
        spansFrom_none (candidate_outer occupied inner outer _ _)]
      exact ih r.length (by simp; omega) (same.aligned noWord noWord) rfl
    · rw [spansFrom_gap passes before blanks, spansFrom_gap passes before' blanks']
      have both := isSome_candidate inner word (alike.cons c)
      cases found : (candidate wrapper (gap.getLast?.or before) (c :: r)).isSome with
      | false =>
          have here : isWordAt (some c) = isWordAt (some c) := rfl
          rw [spansFrom_none (by simpa using found), spansFrom_none (by simpa [found] using both)]
          exact ih r.length (by simp; omega) (alike.aligned here) rfl
      | true =>
          obtain ⟨part, part', rest, rest', split, filled, same, behind, walked, walked'⟩ :=
            spansFrom_both free (alike.cons c).same found (both.symm.trans found)
          have positive := List.length_pos_iff.mpr filled
          have length := congrArg List.length split
          simp only [List.length_cons, List.length_append] at length
          rw [walked, walked', List.map_cons, List.map_cons, same]
          congr 1
          exact ih rest.length (by simp; omega) (behind.aligned (by decide) (by decide)) rfl

theorem exists_body_of_mem {wrapper : List Char} (free : ';' ∉ wrapper) {before : Option Char}
    {cs part : List Char} (member : part ∈ spansFrom (candidate wrapper) 0 before cs) :
    ∃ body, part = body ++ [';'] ∧ ';' ∉ body ∧ wrapper <+: body := by
  induction size : cs.length using Nat.strongRecOn generalizing before cs with
  | ind n ih =>
    subst size
    cases cs with
    | nil => cases member
    | cons c cs =>
        cases found : (candidate wrapper before (c :: cs)).isSome with
        | false =>
            rw [spansFrom_none (by simpa using found)] at member
            exact ih cs.length (by simp) member rfl
        | true =>
            obtain ⟨body, rest, split, noMark, begun, walked⟩ := spansFrom_candidate free found
            rw [walked] at member
            rcases List.mem_cons.mp member with rfl | later
            · exact ⟨body, rfl, noMark, begun⟩
            · refine ih rest.length ?_ later rfl
              rw [split]
              simp
              omega

/-- The candidates of two texts with the same lexemes have the same lexemes. -/
theorem map_lexemes_candidatesIn {policy : Policy}
    (respects : ∀ rule ∈ policy.rules, Respects rule.find) {wrapper own : List Char} {w : Char}
    (named : wrapper = w :: own) (words : ∀ c ∈ wrapper, isWord c = true) {cs ds : List Char}
    (same : SameLexemes cs ds) :
    (candidatesIn policy wrapper cs).map lexemes =
      (candidatesIn policy wrapper ds).map lexemes := by
  have rewritten := foldl_apply_lexemes respects same
  have collapsed : SameLexemes
      (collapse (policy.rules.foldl (fun text rule => rule.apply text) cs))
      (collapse (policy.rules.foldl (fun text rule => rule.apply text) ds)) := by
    unfold SameLexemes at rewritten ⊢
    rw [collapse_eq_joinWords, collapse_eq_joinWords, lexemes_joinWords, lexemes_joinWords,
      rewritten]
  exact map_lexemes_spansFrom named words (collapsed.aligned rfl rfl)

end HeaderBindings.Header
