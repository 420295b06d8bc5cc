import HeaderBindings.Proofs.Declaration.Normal
import HeaderBindings.Options

set_option autoImplicit false

namespace HeaderBindings

open Text

theorem baseType_eq_nil_iff {cs : List Char} :
    baseType cs = [] ↔ ∀ c ∈ cs, isBlank c = true ∨ c = '*' := by
  rw [baseType, joinWords_eq_nil fun _ member => words_occupied member, words_eq_nil_iff,
    List.forall_mem_map]
  refine forall₂_congr fun c _ => ?_
  by_cases star : c = '*'
  · simp only [star, ↓reduceIte, or_true, iff_true]
    decide
  · simp [star]

theorem baseType_ne_nil_iff {cs : List Char} (ofReturn : ∀ c ∈ cs, Shape.isReturnChar c = true) :
    baseType cs ≠ [] ↔ ∃ c ∈ cs, isWord c = true := by
  constructor
  · intro filled
    refine Classical.byContradiction fun wordless => filled (baseType_eq_nil_iff.mpr ?_)
    intro c member
    have typed := ofReturn c member
    rw [Shape.isReturnChar, Bool.or_eq_true, Bool.or_eq_true, beq_iff_eq] at typed
    rcases typed with (word | blank) | star
    · exact absurd ⟨c, member, word⟩ wordless
    · exact .inl blank
    · exact .inr star
  · rintro ⟨c, member, word⟩ empty
    rcases baseType_eq_nil_iff.mp empty c member with blank | rfl
    · rw [isWord_of_isBlank blank] at word
      cases word
    · exact absurd word (by decide)

theorem isWord_of_mem_baseType {cs : List Char} (ofReturn : ∀ c ∈ cs, Shape.isReturnChar c = true)
    {c : Char} (member : c ∈ baseType cs) : c = ' ' ∨ isWord c = true := by
  refine (mem_of_mem_baseType member).imp_right ?_
  rintro ⟨own, visible, noStar⟩
  have typed := ofReturn c own
  rw [Shape.isReturnChar, Bool.or_eq_true, Bool.or_eq_true, beq_iff_eq, visible] at typed
  simpa [noStar] using typed

/-- A type without stars and with one space between neighbours stays as it is. -/
theorem baseType_of_singleSpaced {cs : List Char} (spaced : SingleSpaced cs) (free : '*' ∉ cs) :
    baseType (' ' :: cs) = cs := by
  have same : (cs.map fun c => if c = '*' then ' ' else c) = cs := by
    refine (List.map_congr_left fun c member => if_neg ?_).trans (List.map_id cs)
    rintro rfl
    exact free member
  rw [baseType, List.map_cons, same]
  exact (congrArg joinWords (words_blank cs (by decide))).trans spaced.joinWords_words

structure ParameterStandard (name cType : String) : Prop where
  name : isIdentifier name.toList = true
  typed : cType ≠ ""

/-- What a name and a type need in a function. The name can begin with a digit and have letters of
any script, and the type can be empty. -/
structure FunctionStandard (name cType : String) : Prop where
  named : name ≠ ""
  word : ∀ c ∈ name.toList, isWord c = true
  spaced : SingleSpaced cType.toList
  typed : ∀ c ∈ cType.toList, c = ' ' ∨ isWord c = true

/-- What a function that was read is held to: its parameters are up to their standard, and it is so
itself as far as its name is ASCII without a digit in front, and a word stands in the parentheses of
its return type. -/
structure Function.Held (wrapper candidate : List Char) (f : Function) : Prop where
  parameters : ∀ p ∈ f.parameters, ParameterStandard p.name p.cType
  function : FunctionStandard f.name f.returnCType
  name : isIdentifier f.name.toList = true ↔
    (∀ c ∈ f.name.toList, c.toNat < 0x80) ∧ ∀ c ∈ f.name.toList.head?, c.isDigit = false
  typed : f.returnCType ≠ "" ↔
    ∃ s : Shape, s.Splits wrapper (trim candidate) ∧ ∃ c ∈ s.returnType, isWord c = true

namespace Function

variable {wrapper candidate : List Char} {f : Function}

theorem exists_piece_of_mem (read : ofCandidate wrapper candidate = .ok f) {p : Parameter}
    (member : p ∈ f.parameters) : ∃ piece, Parameter.ofPiece piece = .ok p := by
  obtain ⟨s, _, gives⟩ := gives_of_ofCandidate read
  cases gives with
  | void => cases member
  | read _ _ each =>
      have listed : Except.ok p ∈ List.map Parameter.ofPiece _ :=
        each ▸ List.mem_map_of_mem member
      obtain ⟨piece, _, one⟩ := List.mem_map.mp listed
      exact ⟨piece, one⟩

theorem held_of_ofCandidate (read : ofCandidate wrapper candidate = .ok f) :
    f.Held wrapper candidate := by
  have parameters : ∀ p ∈ f.parameters, ParameterStandard p.name p.cType := by
    intro p member
    obtain ⟨piece, one⟩ := exists_piece_of_mem read member
    have normal := Parameter.normalFor_of_ofPiece one
    exact ⟨normal.name, normal.typed⟩
  have normal := normalFor_of_ofCandidate read
  obtain ⟨s, listed, splits, rfl⟩ := splits_of_ofCandidate read
  have name : (s.function listed).name.toList = s.name := String.toList_ofList
  have cType : (s.function listed).returnCType.toList = baseType s.returnType :=
    String.toList_ofList
  have filled {text : String} : text ≠ "" ↔ text.toList ≠ [] := by
    rw [Ne, Ne, String.toList_eq_nil_iff]
  refine ⟨parameters, ⟨?_, ?_, normal.returnCType.toSingleSpaced, ?_⟩, ?_, ?_⟩
  · rw [filled, name]
    exact splits.named
  · rw [name]
    exact splits.ofName
  · rw [cType]
    exact fun c => isWord_of_mem_baseType splits.ofReturn
  · rw [name]
    exact isIdentifier_iff splits.named splits.ofName
  · rw [filled, cType, baseType_ne_nil_iff splits.ofReturn]
    constructor
    · exact fun word => ⟨s, splits, word⟩
    · rintro ⟨t, others, word⟩
      have same : s = t := Option.some.inj (splits.ofCandidate?.symm.trans others.ofCandidate?)
      rwa [same]

/-- All that a function is held to can be declared: for every word there is a candidate with it as
the name, and with any words as the return type. -/
theorem exists_ofCandidate (starts : ∀ c ∈ wrapper.head?, isBlank c = false) {name cType : String}
    (standard : FunctionStandard name cType) :
    ∃ candidate f, ofCandidate wrapper candidate = .ok f ∧ f.name = name ∧
      f.returnCType = cType := by
  obtain ⟨named, word, spaced, typed⟩ := standard
  -- The space in front leaves something in the parentheses where the type is empty.
  let s : Shape := ⟨' ' :: cType.toList, name.toList, []⟩
  let text := wrapper ++ '(' :: (s.returnType ++ ')' :: (s.name ++ ['('])) ++ [')']
  have whole : trim text = text := by
    refine Header.trim_of_visible ?_ ?_
    · cases wrapper with
      | nil =>
          rintro c ⟨⟩
          decide
      | cons d wrapper => exact starts
    · rw [List.getLast?_concat]
      rintro c ⟨⟩
      decide
  have splits : s.Splits wrapper (trim text) := by
    rw [whole]
    refine ⟨List.cons_ne_nil _ _, List.forall_mem_cons.mpr ⟨by decide, fun c member => ?_⟩, ?_,
      word, by simp [s], [], [], [], [], [], by simp, by simp, by simp, by simp, .inl rfl,
      by simp [text, s]⟩
    · rcases typed c member with rfl | word
      · decide
      · simp [Shape.isReturnChar, word]
    · exact fun empty => named (String.toList_eq_nil_iff.mp empty)
  have gives : s.Gives (.ok (s.function [])) := by
    have noVoid : (trim []).map Char.toLower ≠ ['v', 'o', 'i', 'd'] := by decide
    have cut : Pieces [] [] := pieces_iff.mpr rfl
    exact .read noVoid cut rfl
  have starless : '*' ∉ cType.toList := by
    intro member
    exact absurd (typed '*' member) (by decide)
  have base : String.ofList (baseType s.returnType) = cType := by
    rw [baseType_of_singleSpaced spaced starless, String.ofList_toList]
  exact ⟨text, _, ofCandidate_of_gives splits gives, String.ofList_toList, base⟩

end Function

end HeaderBindings
