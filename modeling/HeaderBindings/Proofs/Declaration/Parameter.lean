import HeaderBindings.Declaration.Parse
import HeaderBindings.Proofs.Header.Whitespace
import HeaderBindings.Proofs.Layout.Declared
import HeaderBindings.Proofs.Layout.Written

set_option autoImplicit false

namespace HeaderBindings.Layout

open Text

namespace Spells

variable {glued : Bool} {tokens first second : List Token} {cs letters : List Char}

/-- With stars taken as spaces, the words of the text are the words among the tokens. -/
theorem words_spaced (spells : Spells glued tokens cs) (plain : TypeTokens tokens) :
    words (cs.map fun c => if c = '*' then ' ' else c) = wordsOf tokens := by
  have space : isBlank ' ' = true := by decide
  induction spells with
  | nil => rfl
  | @blank glued c tokens cs blank rest ih =>
      have other : c ≠ '*' := ne_of_isBlank blank (by decide)
      rw [List.map_cons, if_neg other, words_blank _ blank]
      exact ih plain
  | @word letters tokens cs name rest ih =>
      have same : (letters.map fun c => if c = '*' then ' ' else c) = letters := by
        refine (List.map_congr_left fun c member => ?_).trans (List.map_id letters)
        have other : c ≠ '*' := by
          rintro rfl
          exact name.not_mem (by decide) member
        exact if_neg other
      have ends : ∀ c ∈ (cs.map fun c => if c = '*' then ' ' else c).head?, isBlank c = true := by
        cases rest with
        | nil => simp
        | @blank _ c _ cs blank behind =>
            have other : c ≠ '*' := ne_of_isBlank blank (by decide)
            simpa [other] using blank
        | @mark _ c _ cs known behind =>
            have star : c = '*' := plain.tail.eq_star
            simpa [star] using space
      rw [List.map_append, same, words_run_append name.occupied name.isBlank ends, ih plain.tail]
      rfl
  | @mark glued c tokens cs known rest ih =>
      have star : c = '*' := plain.eq_star
      rw [List.map_cons, if_pos star, words_blank _ space, ih plain.tail]
      rfl

theorem baseType (spells : Spells glued tokens cs) (plain : TypeTokens tokens) :
    HeaderBindings.baseType cs = joinWords (wordsOf tokens) := by
  rw [HeaderBindings.baseType, spells.words_spaced plain]

/-- A word behind a type has stars before it, and before those a blank. Only where the type is
nothing but stars, and no word comes before, the blank may be missing. -/
theorem last_word (spells : Spells glued (first ++ .word letters :: second) cs)
    (plain : TypeTokens first) :
    ∃ n rest, Spells true second rest ∧
      ((glued = false ∧ first = List.replicate n star ∧
          cs = List.replicate n '*' ++ letters ++ rest) ∨
        ∃ left start c, isBlank c = true ∧ first = left ++ List.replicate n star ∧
          Spells glued left start ∧
          cs = start ++ c :: (List.replicate n '*' ++ letters) ++ rest) := by
  generalize same : first ++ Token.word letters :: second = all at spells
  induction spells generalizing first with
  | nil => simp at same
  | @blank glued d all cs blank rest ih =>
      obtain ⟨n, behind, spelled, stars | typed⟩ := ih plain same
      · obtain ⟨_, parts, split⟩ := stars
        exact ⟨n, behind, spelled, .inr ⟨[], [], d, blank, parts, .nil, by rw [split]; rfl⟩⟩
      · obtain ⟨left, start, c, gap, parts, before, split⟩ := typed
        exact ⟨n, behind, spelled, .inr ⟨left, d :: start, c, gap, parts, .blank blank before,
          by rw [split]; rfl⟩⟩
  | @word own all cs name rest ih =>
      cases first with
      | nil =>
          cases same
          exact ⟨0, cs, rest, .inl ⟨rfl, rfl, rfl⟩⟩
      | cons token first =>
          cases same
          obtain ⟨n, behind, spelled, stars | typed⟩ := ih plain.tail rfl
          · cases stars.1
          · obtain ⟨left, start, c, gap, parts, before, split⟩ := typed
            exact ⟨n, behind, spelled, .inr ⟨.word own :: left, own ++ start, c, gap,
              by rw [parts]; rfl, .word name before, by rw [split]; simp⟩⟩
  | @mark glued d all cs known rest ih =>
      cases first with
      | nil => cases same
      | cons token first =>
          cases same
          have star : d = '*' := plain.eq_star
          subst star
          obtain ⟨n, behind, spelled, stars | typed⟩ := ih plain.tail rfl
          · obtain ⟨loose, parts, split⟩ := stars
            exact ⟨n + 1, behind, spelled, .inl ⟨by simpa using loose, by rw [parts]; rfl,
              by rw [split]; rfl⟩⟩
          · obtain ⟨left, start, c, gap, parts, before, split⟩ := typed
            exact ⟨n, behind, spelled, .inr ⟨.mark '*' :: left, '*' :: start, c, gap,
              by rw [parts]; rfl, .mark known before, by rw [split]; rfl⟩⟩

end Spells

theorem arraySuffix_eq_none (before : Option Char) {part : List Char} (rest : List Char)
    (free : '[' ∉ part) (shown : ∃ c ∈ part, isBlank c = false) :
    arraySuffix before (part ++ rest) = none := by
  have other : ∀ tail, dropBlanks (part ++ rest) ≠ '[' :: tail := by
    induction part with
    | nil => simp at shown
    | cons c part ih =>
        intro tail
        cases blank : isBlank c with
        | false =>
            rw [List.cons_append, dropBlanks_visible _ blank]
            intro same
            exact free (by simp [(List.cons.inj same).1])
        | true =>
            obtain ⟨d, member, visible⟩ := shown
            have later : d ∈ part := by
              rcases List.mem_cons.mp member with rfl | later
              · rw [blank] at visible
                cases visible
              · exact later
            rw [List.cons_append, dropBlanks_blank _ blank]
            exact ih (fun inside => free (List.mem_cons_of_mem c inside)) ⟨d, later, visible⟩ tail
  unfold arraySuffix
  split
  · rename_i tail same
    exact absurd same (other tail)
  · rfl

theorem arraySuffix_pass {part : List Char} (free : '[' ∉ part) {last : Char}
    (ends : part.getLast? = some last) (visible : isBlank last = false) (first : List Char)
    (c : Char) (second : List Char) (split : part = first ++ c :: second) (before : Option Char)
    (rest : List Char) : arraySuffix before (c :: second ++ rest) = none := by
  refine arraySuffix_eq_none before rest (fun member => free ?_) ⟨last, ?_, visible⟩
  · rw [split]
    exact List.mem_append_right _ member
  · cases own : (c :: second).getLast? with
    | none => cases List.getLast?_eq_none_iff.mp own
    | some d =>
        rw [split, List.getLast?_append, own, Option.some_or, Option.some.injEq] at ends
        rw [← ends]
        exact List.mem_of_getLast? own

theorem throughBracket_bounds {cs : List Char} {n : Nat} (found : throughBracket cs = some n) :
    0 < n ∧ n ≤ cs.length := by
  induction cs generalizing n with
  | nil => cases found
  | cons c cs ih =>
      by_cases bracket : c = ']'
      · simp only [throughBracket, bracket, ↓reduceIte, Option.some.injEq] at found
        simp only [List.length_cons]
        omega
      · simp only [throughBracket, bracket, ↓reduceIte, Option.map_eq_some_iff] at found
        obtain ⟨m, later, same⟩ := found
        have bounds := ih later
        simp only [List.length_cons]
        omega

theorem arraySuffix_proper : Proper arraySuffix := by
  have bounds {before : Option Char} {cs : List Char} {hit : Hit}
      (found : arraySuffix before cs = some hit) : 0 < hit.length ∧ hit.length ≤ cs.length := by
    unfold arraySuffix at found
    split at found
    · rename_i rest opened
      rw [Option.map_eq_some_iff] at found
      obtain ⟨n, closed, rfl⟩ := found
      have inside := throughBracket_bounds closed
      have dropped := length_dropBlanks_le cs
      rw [opened, List.length_cons] at dropped
      show 0 < cs.length - rest.length + n ∧ cs.length - rest.length + n ≤ cs.length
      omega
    · cases found
  exact ⟨fun found => (bounds found).1, fun found => (bounds found).2⟩

theorem throughBracket_append {inner : List Char} (free : ']' ∉ inner) (rest : List Char) :
    throughBracket (inner ++ ']' :: rest) = some (inner.length + 1) := by
  induction inner with
  | nil => rfl
  | cons c inner ih =>
      have other : c ≠ ']' := fun same => free (by simp [same])
      have later := ih fun member => free (List.mem_cons_of_mem c member)
      simp [throughBracket, other, later]

theorem arraySuffix_append (before : Option Char) {gap inner : List Char}
    (blanks : ∀ c ∈ gap, isBlank c = true) (free : ']' ∉ inner) (rest : List Char) :
    arraySuffix before (gap ++ '[' :: (inner ++ [']']) ++ rest) =
      some ⟨(gap ++ '[' :: (inner ++ [']'])).length, []⟩ := by
  have visible : isBlank '[' = false := by decide
  have opened : dropBlanks (gap ++ '[' :: (inner ++ [']']) ++ rest) =
      '[' :: (inner ++ ']' :: rest) := by
    rw [List.append_assoc, dropBlanks_gap blanks, List.cons_append, dropBlanks_visible _ visible]
    simp
  unfold arraySuffix
  rw [opened]
  simp only [throughBracket_append free, Option.map_some, Option.some.injEq, Hit.mk.injEq,
    List.length_append, List.length_cons, List.length_nil, and_true]
  omega

theorem arraySuffix_gap (before : Option Char) {gap : List Char}
    (blanks : ∀ c ∈ gap, isBlank c = true) :
    replaceFrom arraySuffix 0 true before gap = gap ∧ spansFrom arraySuffix 0 before gap = [] := by
  have missed (first : List Char) (c : Char) (second : List Char)
      (split : gap = first ++ c :: second) (last : Option Char) :
      arraySuffix last (c :: second ++ []) = none := by
    have empty : dropBlanks (c :: second ++ []) = [] := by
      refine dropBlanks_gap (fun d member => blanks d ?_) []
      rw [split]
      exact List.mem_append_right _ member
    rw [arraySuffix, empty]
  have kept := replaceFrom_pass before gap [] fun first c second split =>
    missed first c second split _
  have passed := spansFrom_pass before gap [] fun first c second split =>
    missed first c second split _
  rw [List.append_nil] at kept passed
  rw [kept, passed, replaceFrom_nil arraySuffix_proper, List.append_nil]
  exact ⟨rfl, rfl⟩

/-- Of suffixes only the blanks behind them are left, and every one of them is found. -/
theorem suffixes_of_spells {suffixes : List ArraySuffix} {glued : Bool} {cs : List Char}
    (spells : Spells glued (suffixes.flatMap ArraySuffix.tokens) cs) (before : Option Char) :
    (∀ c ∈ replaceFrom arraySuffix 0 true before cs, isBlank c = true) ∧
      (spansFrom arraySuffix 0 before cs).isEmpty = suffixes.isEmpty := by
  induction suffixes generalizing glued cs before with
  | nil =>
      obtain ⟨kept, none_found⟩ := arraySuffix_gap before spells.blanks
      rw [kept, none_found]
      exact ⟨spells.blanks, rfl⟩
  | cons suffix suffixes ih =>
      have tokens : (suffix :: suffixes).flatMap ArraySuffix.tokens =
          .mark '[' :: (suffix.size ++ .mark ']' :: suffixes.flatMap ArraySuffix.tokens) := by
        simp [ArraySuffix.tokens]
      rw [tokens] at spells
      obtain ⟨gap, inside, blanks, rfl, spelled⟩ := spells.mark_inv
      obtain ⟨inner, behind, rfl, size, later⟩ := spelled.append_mark_inv
      have free : ']' ∉ inner := by
        refine size.not_mem (by decide) ?_
        rw [ArraySuffix.size]
        split <;> simp
      have found := arraySuffix_append before blanks free behind
      have split : gap ++ '[' :: (inner ++ ']' :: behind) =
          gap ++ '[' :: (inner ++ [']']) ++ behind := by simp
      rw [split, replaceFrom_take arraySuffix_proper (by simp) found,
        spansFrom_take (by simp) found, List.nil_append]
      exact ⟨(ih later _).1, rfl⟩

theorem ofPiece_eq {piece last name cType : List Char} {before : List (List Char)}
    {isPointer : Bool} (split : words (replaceAll arraySuffix piece) = before ++ [last])
    (occupied : before ≠ []) (named : dropStars last = name) (valid : isIdentifier name = true)
    (typed : baseType (joinWords before) = cType) (filled : cType ≠ [])
    (pointer : (piece.contains '*' || !(spans arraySuffix piece).isEmpty) = isPointer) :
    Parameter.ofPiece piece = .ok {
      name := String.ofList name
      cType := String.ofList cType
      isPointer
      mappedType := .ofType (String.ofList cType) isPointer } := by
  have reversed : (words (replaceAll arraySuffix piece)).reverse = last :: before.reverse := by
    rw [split, List.reverse_append]
    rfl
  have some_type : cType.isEmpty = false := by simpa using filled
  unfold Parameter.ofPiece
  cases shape : before.reverse with
  | nil => exact absurd (List.reverse_eq_nil_iff.mp shape) occupied
  | cons word others =>
      have back : (word :: others).reverse = before := by rw [← shape, List.reverse_reverse]
      rw [reversed, shape]
      simp only [back, named, valid, typed, some_type, pointer, Bool.not_true, Bool.or_self,
        Bool.false_eq_true, ↓reduceIte]

theorem dropStars_stars (n : Nat) {letters : List Char} (free : '*' ∉ letters) :
    dropStars (List.replicate n '*' ++ letters) = letters := by
  have kept : letters.filter (· ≠ '*') = letters := by
    rw [List.filter_eq_self]
    intro c member
    have other : c ≠ '*' := fun same => free (same ▸ member)
    simpa using other
  rw [dropStars, List.filter_append, kept, List.filter_replicate]
  simp

theorem words_of_piece {piece start rest letters : List Char} {c : Char} {n : Nat}
    {suffixes : List ArraySuffix}
    (split : piece = start ++ c :: (List.replicate n '*' ++ letters) ++ rest) (free : '[' ∉ start)
    (blank : isBlank c = true) (name : IsName letters)
    (spelled : Spells true (suffixes.flatMap ArraySuffix.tokens) rest) :
    words (replaceAll arraySuffix piece) = words start ++ [List.replicate n '*' ++ letters] ∧
      (spans arraySuffix piece).isEmpty = suffixes.isEmpty := by
  subst split
  have unbracketed : '[' ∉ start ++ c :: (List.replicate n '*' ++ letters) := by
    have inGap : c ≠ '[' := ne_of_isBlank blank (by decide)
    have inName : '[' ∉ letters := name.not_mem (by decide)
    simp [free, inGap.symm, inName]
  obtain ⟨last, ends, visible⟩ : ∃ last,
      (start ++ c :: (List.replicate n '*' ++ letters)).getLast? = some last ∧
        isBlank last = false := by
    cases own : letters.getLast? with
    | none => exact absurd (List.getLast?_eq_none_iff.mp own) name.occupied
    | some last =>
        exact ⟨last, by simp [List.getLast?_append, List.getLast?_cons, own],
          name.isBlank last (List.mem_of_getLast? own)⟩
  have passed := arraySuffix_pass unbracketed ends visible
  have replaced := replaceFrom_pass none _ rest fun first d second same =>
    passed first d second same _ rest
  have listed := spansFrom_pass none _ rest fun first d second same =>
    passed first d second same _ rest
  obtain ⟨blanks, found⟩ := suffixes_of_spells spelled
    ((start ++ c :: (List.replicate n '*' ++ letters)).getLast?.or none)
  have starred : List.replicate n '*' ++ letters ≠ [] := by simp [name.occupied]
  have shown : ∀ d ∈ List.replicate n '*' ++ letters, isBlank d = false := by
    intro d member
    rcases List.mem_append.mp member with star | letter
    · rw [List.eq_of_mem_replicate star]
      decide
    · exact name.isBlank d letter
  constructor
  · rw [replaceAll, replaced, words_append_blanks _ blanks, words_append_blank _ _ blank,
      words_run starred shown]
  · rw [spans, listed, found]

/-- A piece that spells an argument is read as the argument's parameter. -/
theorem ofPiece_tokens (a : Argument) {piece : List Char} (spells : Spells false a.tokens piece) :
    Parameter.ofPiece piece = .ok a.parameter := by
  have plain := a.type.typeTokens
  obtain ⟨n, rest, suffixes, stars | typed⟩ := spells.last_word plain
  · -- A type has at least one word.
    have first : a.type.first.token ∈ List.replicate n star := by
      rw [← stars.2.1]
      simp [TypeName.tokens, TypeName.words]
    cases List.eq_of_mem_replicate first
  · obtain ⟨left, start, c, blank, parts, before, split⟩ := typed
    have ofLeft : TypeTokens left := fun token member =>
      plain token (by rw [parts]; exact List.mem_append_left _ member)
    have free : '[' ∉ start := by
      refine before.not_mem (by decide) fun member => ?_
      cases ofLeft.eq_star_of_mem member
    obtain ⟨shape, found⟩ := words_of_piece split free blank a.name.isName suffixes
    have typed : baseType (joinWords (words start)) =
        joinWords (a.type.words.map Identifier.letters) := by
      rw [← Header.collapse_eq_joinWords, before.collapse.baseType ofLeft,
        ← a.type.wordsOf_tokens, parts, wordsOf_append_stars]
    have occupied : words start ≠ [] := by
      intro empty
      rw [empty] at typed
      exact a.type.base_filled typed.symm
    refine ofPiece_eq shape occupied (dropStars_stars n (a.name.isName.not_mem (by decide)))
      a.name.valid typed a.type.base_filled ?_
    rw [found, spells.contains_eq (by decide), ← star, a.contains_star]
    rfl

end HeaderBindings.Layout
