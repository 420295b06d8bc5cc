import HeaderBindings.Proofs.Declaration.Grammar
import HeaderBindings.Proofs.Declaration.Parameter

set_option autoImplicit false

namespace HeaderBindings.Layout

open Text

theorem Spells.trim_ne_nil {glued : Bool} {token : Token} {tokens : List Token} {cs : List Char}
    (spells : Spells glued (token :: tokens) cs) : Text.trim cs ≠ [] := by
  intro empty
  have trimmed := spells.trim
  rw [empty] at trimmed
  cases trimmed.tokens_eq_nil

theorem parameterPieces_free {cs : List Char} (free : ',' ∉ cs) (filled : trim cs ≠ []) :
    parameterPieces cs = [trim cs] := by
  simp [parameterPieces, splitCommas_free free, filled]

theorem parameterPieces_append {first : List Char} (free : ',' ∉ first) (filled : trim first ≠ [])
    (second : List Char) :
    parameterPieces (first ++ ',' :: second) = trim first :: parameterPieces second := by
  simp [parameterPieces, splitCommas_append free, filled]

theorem mapM_pieces (first : Argument) (others : List Argument) {glued : Bool} {cs : List Char}
    (spells : Spells glued (ArgumentList.named first others).tokens cs) :
    (parameterPieces cs).mapM Parameter.ofPiece =
      .ok ((first :: others).map Argument.parameter) := by
  have filled (a : Argument) {glued : Bool} {cs : List Char} (spells : Spells glued a.tokens cs) :
      trim cs ≠ [] := by
    obtain ⟨token, tokens, behind⟩ := a.tokens_eq
    rw [behind] at spells
    exact spells.trim_ne_nil
  have read (a : Argument) {glued : Bool} {cs : List Char} (spells : Spells glued a.tokens cs) :
      Parameter.ofPiece (trim cs) = .ok a.parameter := ofPiece_tokens a spells.trim
  induction others generalizing first glued cs with
  | nil =>
      rw [ArgumentList.tokens, List.flatMap_nil, List.append_nil] at spells
      have free : ',' ∉ cs := spells.not_mem (by decide) (first.not_mem_of_mark (by decide))
      rw [parameterPieces_free free (filled first spells), List.mapM_cons, read first spells]
      rfl
  | cons a others ih =>
      rw [ArgumentList.tokens, List.flatMap_cons, List.cons_append] at spells
      obtain ⟨before, behind, rfl, here, later⟩ := spells.append_mark_inv
      have free : ',' ∉ before := here.not_mem (by decide) (first.not_mem_of_mark (by decide))
      rw [parameterPieces_append free (filled first here), List.mapM_cons, read first here,
        ih a later]
      rfl

theorem isAsciiWord_of_toLower {c : Char} (letter : c.toLower ∈ ['v', 'o', 'i', 'd']) :
    isAsciiWord c = true := by
  by_cases upper : c.val ≥ 'A'.val ∧ c.val ≤ 'Z'.val
  · have capital : c.isUpper = true := decide_eq_true upper
    show ((c.isUpper || c.isLower) || c.isDigit || c == '_') = true
    rw [capital]
    rfl
  · have same : c.toLower = c := dif_neg upper
    rw [same] at letter
    exact forall_mem_of_all (by decide) c letter

theorem isWord_of_void {cs : List Char} (void : cs.map Char.toLower = ['v', 'o', 'i', 'd'])
    {c : Char} (member : c ∈ cs) : isAsciiWord c = true := by
  refine isAsciiWord_of_toLower ?_
  rw [← void]
  exact List.mem_map_of_mem member

theorem isVoidList_eq_false {glued : Bool} {letters cs : List Char} {token : Token}
    {tokens : List Token} (spells : Spells glued (.word letters :: token :: tokens) cs) :
    isVoidList cs = false := by
  obtain ⟨gap, rest, _, split, _, behind⟩ := spells.trim.word_inv
  have ends := behind.head
  cases rest with
  | nil => cases behind.tokens_eq_nil
  | cons c rest =>
      -- Behind the first word there is a character that stands in no word.
      have other : isWord c = false := ends
      unfold isVoidList
      rw [decide_eq_false_iff_not]
      intro void
      have word := isWord_of_isAsciiWord (isWord_of_void void (c := c) (by rw [split]; simp))
      rw [other] at word
      cases word

theorem isVoidList_void {spelling cs : List Char}
    (spelled : spelling.map Char.toLower = ['v', 'o', 'i', 'd']) {glued : Bool}
    (spells : Spells glued [.word spelling] cs) : isVoidList cs = true := by
  obtain ⟨gap, rest, blanks, split, name, behind⟩ := spells.word_inv
  have trimmed : trim cs = spelling := by
    rw [split, List.append_assoc, trim, dropBlanks_gap blanks, name.dropBlanks,
      Header.dropBlanksEnd_run name.isBlank, Header.dropBlanksEnd_gap behind.blanks,
      List.append_nil]
  rw [isVoidList, trimmed, spelled]
  rfl

/-- A list that says that there are no parameters stands for none; any other list is read as the
parameters that it stands for. -/
theorem parameters_of_spells (list : ArgumentList) {glued : Bool} {cs : List Char}
    (spells : Spells glued list.tokens cs) :
    (isVoidList cs = true ∧ list.parameters = []) ∨
      (isVoidList cs = false ∧
        (parameterPieces cs).mapM Parameter.ofPiece = .ok list.parameters) := by
  cases list with
  | nothing =>
      have free : ',' ∉ cs := spells.not_mem (by decide) (by simp [ArgumentList.tokens])
      have trimmed : trim cs = [] := by
        have dropped := dropBlanks_gap spells.blanks []
        rw [List.append_nil] at dropped
        rw [trim, dropped]
        rfl
      have pieces : parameterPieces cs = [] := by
        simp [parameterPieces, splitCommas_free free, trimmed]
      refine .inr ⟨?_, ?_⟩
      · rw [isVoidList, trimmed]
        rfl
      · rw [pieces]
        rfl
  | void spelling spelled => exact .inl ⟨isVoidList_void spelled spells, rfl⟩
  | named first others =>
      obtain ⟨token, tokens, behind⟩ := first.tokens_eq
      have read := mapM_pieces first others spells
      rw [ArgumentList.tokens, behind] at spells
      exact .inr ⟨isVoidList_eq_false spells, read⟩

theorem trim_statement {letters : List Char} (name : IsName letters) (body : List Char) :
    trim (letters ++ body ++ [';']) = letters ++ body ++ [';'] := by
  have mark : isBlank ';' = false := by decide
  have ends : dropBlanksEnd [';'] = [';'] := Header.dropBlanksEnd_visible [] mark
  have kept : dropBlanks (letters ++ body ++ [';']) = letters ++ body ++ [';'] := by
    rw [List.append_assoc, name.dropBlanks]
  rw [trim, kept, Header.dropBlanksEnd_append (letters ++ body) (by rw [ends]; simp), ends]

theorem isReturnChar_of_spells {glued : Bool} {t : TypeName} {cs : List Char}
    (spells : Spells glued t.tokens cs) : ∀ c ∈ cs, Shape.isReturnChar c = true := by
  intro c member
  rcases spells.mem member with blank | word | token
  · simp [Shape.isReturnChar, blank]
  · simp [Shape.isReturnChar, isWord_of_isAsciiWord word]
  · simp [Shape.isReturnChar, t.typeTokens.eq_star_of_mem token]

theorem isListChar_of_spells {glued : Bool} {list : ArgumentList} {cs : List Char}
    (spells : Spells glued list.tokens cs) : ∀ c ∈ cs, Shape.isListChar c = true := by
  have opening : '(' ∉ cs := spells.not_mem (by decide) (list.not_mem_of_mark (by decide))
  have closing : ')' ∉ cs := spells.not_mem (by decide) (list.not_mem_of_mark (by decide))
  intro c member
  have notOpening : c ≠ '(' := fun same => opening (same ▸ member)
  have notClosing : c ≠ ')' := fun same => closing (same ▸ member)
  simp [Shape.isListChar, notOpening, notClosing]

theorem ofCandidate?_body {wrapper : List Char} (wrapped : IsName wrapper) (d : Declared)
    {glued : Bool} {body : List Char} (spells : Spells glued d.body body) :
    ∃ returnType parameters,
      Shape.ofCandidate? wrapper (wrapper ++ body ++ [';']) =
        some ⟨returnType, d.name.letters, parameters⟩ ∧
      Spells false d.returnType.tokens returnType ∧
      Spells false d.arguments.tokens parameters := by
  have tokens : d.body = .mark '(' :: (d.returnType.tokens ++ .mark ')' ::
      .word d.name.letters :: .mark '(' :: (d.arguments.tokens ++ .mark ')' :: [])) := by
    simp [Declared.body, Identifier.token]
  rw [tokens] at spells
  obtain ⟨gap₁, opened, blanks₁, first, inside⟩ := spells.mark_inv
  obtain ⟨returnType, typed, second, ofType, rest⟩ := inside.append_mark_inv
  obtain ⟨gap₂, named, blanks₂, third, isName, behind⟩ := rest.word_inv
  obtain ⟨gap₃, listed, blanks₃, fourth, arguments⟩ := behind.mark_inv
  obtain ⟨parameters, gap₄, fifth, list, closed⟩ := arguments.append_mark_inv
  have someType : returnType ≠ [] := by
    intro empty
    rw [empty] at ofType
    cases ofType.tokens_eq_nil
  have splits : Shape.Splits ⟨returnType, d.name.letters, parameters⟩ wrapper
      (trim (wrapper ++ body ++ [';'])) := by
    refine ⟨someType, isReturnChar_of_spells ofType, isName.occupied, isName.isWord,
      isListChar_of_spells list, gap₁, gap₂, gap₃, gap₄, [';'], blanks₁, blanks₂, blanks₃,
      closed.blanks, .inr rfl, ?_⟩
    rw [trim_statement wrapped body, first, second, third, fourth, fifth]
    simp
  exact ⟨returnType, parameters, splits.ofCandidate?, ofType, list⟩

/-- A candidate that spells a declaration is read as the function that is declared. -/
theorem ofCandidate_body {wrapper : List Char} (wrapped : IsName wrapper) (d : Declared)
    {glued : Bool} {body : List Char} (spells : Spells glued d.body body) :
    Function.ofCandidate wrapper (wrapper ++ body ++ [';']) = .ok d.function := by
  obtain ⟨returnType, parameters, shape, ofType, list⟩ := ofCandidate?_body wrapped d spells
  have read := parameters_of_spells d.arguments list
  have base : String.ofList (baseType returnType) = d.returnType.base := by
    rw [ofType.baseType d.returnType.typeTokens, d.returnType.wordsOf_tokens]
    rfl
  have pointer : returnType.contains '*' = (d.returnType.stars != 0) := by
    rw [ofType.contains_eq (by decide), ← star, d.returnType.contains_star]
  unfold Function.ofCandidate
  rcases read with ⟨void, none⟩ | ⟨notVoid, read⟩
  · simp only [shape, void, base, pointer, ↓reduceIte]
    rw [Declared.function, none]
    rfl
  · simp only [shape, notVoid, read, base, pointer, Bool.false_eq_true, ↓reduceIte]
    rfl

end HeaderBindings.Layout
