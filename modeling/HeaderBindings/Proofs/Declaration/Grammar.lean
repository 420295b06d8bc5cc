import HeaderBindings.Declaration.Parse
import HeaderBindings.Proofs.Header.Whitespace
import HeaderBindings.Proofs.Text.Token

set_option autoImplicit false

namespace HeaderBindings

open Text

/-- The text is the wrapper macro, a return type in parentheses, a name, and a parameter list in
parentheses, with blanks anywhere between them; a semicolon may come last. -/
structure Shape.Splits (s : Shape) (wrapper text : List Char) : Prop where
  returned : s.returnType ≠ []
  ofReturn : ∀ c ∈ s.returnType, isReturnChar c = true
  named : s.name ≠ []
  ofName : ∀ c ∈ s.name, isWord c = true
  ofList : ∀ c ∈ s.parameters, isListChar c = true
  laidOut : ∃ gap₁ gap₂ gap₃ gap₄ stop,
    (∀ c ∈ gap₁, isBlank c = true) ∧ (∀ c ∈ gap₂, isBlank c = true) ∧
      (∀ c ∈ gap₃, isBlank c = true) ∧ (∀ c ∈ gap₄, isBlank c = true) ∧
      (stop = [] ∨ stop = [';']) ∧
      text = wrapper ++ (gap₁ ++ '(' :: (s.returnType ++ ')' :: (gap₂ ++ (s.name ++
        (gap₃ ++ '(' :: (s.parameters ++ ')' :: (gap₄ ++ stop)))))))

namespace Shape

variable {wrapper candidate : List Char} {s : Shape}

theorem splits_of_ofCandidate? (found : ofCandidate? wrapper candidate = some s) :
    s.Splits wrapper (trim candidate) := by
  simp only [ofCandidate?, Option.bind_eq_bind, Option.bind_eq_some_iff] at found
  obtain ⟨wrapped, atWrapper, opened, atOpen, found⟩ := found
  split at found
  · cases found
  · rename_i returned
    simp only [Option.bind_eq_some_iff] at found
    obtain ⟨typed, atType, found⟩ := found
    split at found
    · cases found
    · rename_i named
      simp only [Option.bind_eq_some_iff, Option.ite_none_right_eq_some, Option.some.injEq] at found
      obtain ⟨listed, atList, closed, atEnd, stop, rfl⟩ := found
      obtain ⟨gap₁, blanks₁, split₁⟩ := exists_gap_of_afterTokens atOpen
      obtain ⟨gap₂, blanks₂, split₂⟩ := exists_gap typed
      obtain ⟨gap₃, blanks₃, split₃⟩ := exists_gap_of_afterTokens atList
      obtain ⟨gap₄, blanks₄, split₄⟩ := exists_gap closed
      have ofType : opened.takeWhile isReturnChar ++ ')' :: typed = opened := by
        rw [← List.singleton_append, ← eq_append_of_afterLiteral atType,
          List.takeWhile_append_dropWhile]
      have ofWord : (dropBlanks typed).takeWhile isWord ++ (gap₃ ++ '(' :: listed) =
          dropBlanks typed := by
        rw [← split₃, List.takeWhile_append_dropWhile]
      have ofRest : listed.takeWhile isListChar ++ ')' :: (gap₄ ++ dropBlanks closed) = listed := by
        rw [← split₄, ← List.singleton_append, ← eq_append_of_afterLiteral atEnd,
          List.takeWhile_append_dropWhile]
      refine ⟨by simpa using returned, fun c => List.all_eq_true.mp List.all_takeWhile c,
        by simpa using named, fun c => List.all_eq_true.mp List.all_takeWhile c,
        fun c => List.all_eq_true.mp List.all_takeWhile c,
        gap₁, gap₂, gap₃, gap₄, dropBlanks closed, blanks₁, blanks₂, blanks₃, blanks₄, stop, ?_⟩
      rw [ofRest, ofWord, ← split₂, ofType, ← split₁, ← eq_append_of_afterLiteral atWrapper]

/-- The classes of neighbouring parts are disjoint, so the reader cannot miss a shape. -/
theorem Splits.ofCandidate? (splits : s.Splits wrapper (trim candidate)) :
    Shape.ofCandidate? wrapper candidate = some s := by
  obtain ⟨returned, ofReturn, named, ofName, ofList, gap₁, gap₂, gap₃, gap₄, stop, blanks₁, blanks₂,
    blanks₃, blanks₄, stops, text⟩ := splits
  have close (rest : List Char) : afterLiteral [')'] (')' :: rest) = some rest :=
    afterLiteral_append [')'] rest
  have atOpen (rest : List Char) := afterTokens_gap blanks₁ (c := '(') (by decide) rest
  have atList (rest : List Char) := afterTokens_gap blanks₃ (c := '(') (by decide) rest
  have ofType (rest : List Char) :=
    @span_append isReturnChar s.returnType (')' :: rest) ofReturn (by simp; decide)
  have ofRest (rest : List Char) :=
    @span_append isListChar s.parameters (')' :: rest) ofList (by simp; decide)
  have ofWord (rest : List Char) :=
    span_append ofName (isWordAt_gap blanks₃ (c := '(') (by decide) rest)
  have shown (rest : List Char) : dropBlanks (gap₂ ++ (s.name ++ rest)) = s.name ++ rest := by
    obtain ⟨c, own, shape⟩ := List.exists_cons_of_ne_nil named
    have word : isWord c = true := ofName c (by simp [shape])
    rw [dropBlanks_gap blanks₂, shape]
    exact dropBlanks_visible _ (isBlank_of_isWord word)
  have ended : dropBlanks (gap₄ ++ stop) = stop := by
    rw [dropBlanks_gap blanks₄]
    rcases stops with rfl | rfl
    · rfl
    · exact dropBlanks_visible [] (by decide)
  unfold Shape.ofCandidate?
  simp only [text, afterLiteral_append, atOpen, ofType, close, shown, ofWord, atList, ofRest, ended,
    stops, returned, named, Option.bind_eq_bind, Option.bind_some, List.isEmpty_iff, ↓reduceIte]

end Shape

theorem splitCommas_free {cs : List Char} (free : ',' ∉ cs) : splitCommas cs = [cs] := by
  induction cs with
  | nil => rfl
  | cons c cs ih =>
      have other : c ≠ ',' := fun same => free (by simp [same])
      have later := ih fun member => free (List.mem_cons_of_mem c member)
      simp [splitCommas, other, later]

theorem splitCommas_append {first : List Char} (free : ',' ∉ first) (second : List Char) :
    splitCommas (first ++ ',' :: second) = first :: splitCommas second := by
  induction first with
  | nil => simp [splitCommas]
  | cons c first ih =>
      have other : c ≠ ',' := fun same => free (by simp [same])
      have later := ih fun member => free (List.mem_cons_of_mem c member)
      simp [splitCommas, other, later]

/-- What stands between the commas of a list. -/
structure BetweenCommas (list : List Char) (cut : List (List Char)) : Prop where
  occupied : cut ≠ []
  free : ∀ piece ∈ cut, ',' ∉ piece
  joined : [','].intercalate cut = list

/-- What stands between the commas of a list, without the blanks around it, where anything is
left. -/
def Pieces (list : List Char) (pieces : List (List Char)) : Prop :=
  ∃ cut, BetweenCommas list cut ∧ pieces = (cut.map trim).filter (!·.isEmpty)

theorem betweenCommas_splitCommas (list : List Char) : BetweenCommas list (splitCommas list) := by
  induction list with
  | nil => exact ⟨by simp [splitCommas], by simp [splitCommas], by simp [splitCommas]⟩
  | cons c list ih =>
      obtain ⟨occupied, free, joined⟩ := ih
      obtain ⟨piece, pieces, shape⟩ := List.exists_cons_of_ne_nil occupied
      by_cases comma : c = ','
      · have cut : splitCommas (c :: list) = [] :: splitCommas list := by simp [splitCommas, comma]
        rw [cut]
        refine ⟨by simp, ?_, ?_⟩
        · intro other member
          rcases List.mem_cons.mp member with rfl | later
          · simp
          · exact free other later
        · rw [shape] at joined ⊢
          rw [List.intercalate_cons_cons, joined, comma]
          rfl
      · have cut : splitCommas (c :: list) = (c :: piece) :: pieces := by
          simp [splitCommas, comma, shape]
        rw [shape] at free joined
        rw [cut]
        refine ⟨by simp, ?_, ?_⟩
        · intro other member
          rcases List.mem_cons.mp member with rfl | later
          · have here : ',' ∉ piece := free piece (by simp)
            simp [here, Ne.symm comma]
          · exact free other (List.mem_cons_of_mem piece later)
        · cases pieces <;> simpa [List.intercalate] using joined

/-- A list can be cut at its commas in one way. -/
theorem splitCommas_of_betweenCommas {list : List Char} {cut : List (List Char)}
    (between : BetweenCommas list cut) : splitCommas list = cut := by
  obtain ⟨occupied, free, rfl⟩ := between
  induction cut with
  | nil => exact absurd rfl occupied
  | cons piece cut ih =>
      have here : ',' ∉ piece := free piece (by simp)
      have later := fun others => ih others fun other member =>
        free other (List.mem_cons_of_mem piece member)
      cases cut with
      | nil => rw [List.intercalate_singleton, splitCommas_free here]
      | cons next cut =>
          rw [List.intercalate_cons_cons, List.append_assoc, List.singleton_append,
            splitCommas_append here, later (by simp)]

theorem pieces_iff {list : List Char} {pieces : List (List Char)} :
    Pieces list pieces ↔ pieces = parameterPieces list := by
  constructor
  · rintro ⟨cut, between, rfl⟩
    rw [parameterPieces, splitCommas_of_betweenCommas between]
  · intro same
    exact ⟨splitCommas list, betweenCommas_splitCommas list, same⟩

section List

variable {α β ε : Type} {read : α → Except ε β}

theorem all_read_or_first (read : α → Except ε β) (xs : List α) :
    (∃ ys : List β, xs.map read = ys.map .ok) ∨
      ∃ before x behind reason, xs = before ++ x :: behind ∧
        (∀ y ∈ before, ∃ z, read y = .ok z) ∧ read x = .error reason := by
  induction xs with
  | nil => exact .inl ⟨[], rfl⟩
  | cons x xs ih =>
      cases first : read x with
      | error reason => exact .inr ⟨[], x, xs, reason, rfl, by simp, first⟩
      | ok y =>
          rcases ih with ⟨ys, later⟩ | ⟨before, z, behind, reason, split, good, bad⟩
          · exact .inl ⟨y :: ys, by rw [List.map_cons, first, later, List.map_cons]⟩
          · refine .inr ⟨x :: before, z, behind, reason, by rw [split]; rfl, ?_, bad⟩
            intro w member
            rcases List.mem_cons.mp member with rfl | later
            · exact ⟨y, first⟩
            · exact good w later

theorem mapM_of_map {xs : List α} {ys : List β} (each : xs.map read = ys.map .ok) :
    xs.mapM read = .ok ys := by
  induction xs generalizing ys with
  | nil =>
      cases ys with
      | nil => rfl
      | cons y ys => cases each
  | cons x xs ih =>
      cases ys with
      | nil => cases each
      | cons y ys =>
          rw [List.map_cons, List.map_cons, List.cons.injEq] at each
          rw [List.mapM_cons, each.1, ih each.2]
          rfl

theorem mapM_of_first {before behind : List α} {x : α} {reason : ε}
    (good : ∀ y ∈ before, ∃ z, read y = .ok z) (bad : read x = .error reason) :
    (before ++ x :: behind).mapM read = .error reason := by
  induction before with
  | nil =>
      rw [List.nil_append, List.mapM_cons, bad]
      rfl
  | cons y before ih =>
      obtain ⟨z, first⟩ := good y (by simp)
      rw [List.cons_append, List.mapM_cons, first,
        ih fun w member => good w (List.mem_cons_of_mem y member)]
      rfl

end List

theorem Parameter.ofPiece_error {piece : List Char} {reason : Malformed}
    (failed : ofPiece piece = .error reason) :
    reason = .parameter (String.ofList (trim piece)) := by
  unfold ofPiece at failed
  split at failed
  · dsimp only at failed
    split at failed
    · cases failed
      rfl
    · cases failed
  · cases failed
    rfl

theorem trim_of_pieces {list : List Char} {pieces : List (List Char)} (cut : Pieces list pieces) :
    ∀ piece ∈ pieces, trim piece = piece := by
  obtain ⟨between, _, rfl⟩ := cut
  intro piece member
  obtain ⟨whole, _, rfl⟩ := List.mem_map.mp (List.mem_filter.mp member).1
  exact Header.trim_trim whole

/-- The function that has the parts of a declaration, and parameters that were read from its
list. -/
def Shape.function (s : Shape) (parameters : List Parameter) : Function where
  name := String.ofList s.name
  returnCType := String.ofList (baseType s.returnType)
  returnIsPointer := s.returnType.contains '*'
  returnMappedType := .ofType (String.ofList (baseType s.returnType)) (s.returnType.contains '*')
  parameters

/-- What reading gives for a declaration with these parts: a list that is `void` in any case stands
for no parameters; of any other list each piece is one parameter, and the first piece that is none
is reported. -/
inductive Shape.Gives (s : Shape) : Except Malformed Function → Prop
  | void (spelled : (trim s.parameters).map Char.toLower = ['v', 'o', 'i', 'd']) :
    Gives s (.ok (s.function []))
  | read {pieces : List (List Char)} {parameters : List Parameter}
    (named : (trim s.parameters).map Char.toLower ≠ ['v', 'o', 'i', 'd'])
    (cut : Pieces s.parameters pieces)
    (each : pieces.map Parameter.ofPiece = parameters.map .ok) :
    Gives s (.ok (s.function parameters))
  | rejected {before behind : List (List Char)} {piece : List Char} {reason : Malformed}
    (named : (trim s.parameters).map Char.toLower ≠ ['v', 'o', 'i', 'd'])
    (cut : Pieces s.parameters (before ++ piece :: behind))
    (good : ∀ earlier ∈ before, ∃ p, Parameter.ofPiece earlier = .ok p)
    (bad : Parameter.ofPiece piece = .error reason) :
    Gives s (.error (.parameter (String.ofList piece)))

namespace Function

variable {wrapper candidate : List Char} {s : Shape}

theorem exists_gives (s : Shape) : ∃ result, s.Gives result := by
  by_cases spelled : (trim s.parameters).map Char.toLower = ['v', 'o', 'i', 'd']
  · exact ⟨_, .void spelled⟩
  · have cut : Pieces s.parameters (parameterPieces s.parameters) := pieces_iff.mpr rfl
    rcases all_read_or_first Parameter.ofPiece (parameterPieces s.parameters) with
      ⟨parameters, each⟩ | ⟨before, piece, behind, reason, split, good, bad⟩
    · exact ⟨_, .read spelled cut each⟩
    · rw [split] at cut
      exact ⟨_, .rejected spelled cut good bad⟩

theorem ofCandidate_of_gives (splits : s.Splits wrapper (trim candidate))
    {result : Except Malformed Function} (gives : s.Gives result) :
    ofCandidate wrapper candidate = result := by
  unfold ofCandidate
  rw [splits.ofCandidate?]
  cases gives with
  | void spelled =>
      simp only [isVoidList, spelled, decide_true, ↓reduceIte]
      rfl
  | read named cut each =>
      rw [pieces_iff.mp cut] at each
      simp only [isVoidList, named, decide_false, Bool.false_eq_true, ↓reduceIte, mapM_of_map each]
      rfl
  | @rejected before behind piece reason named cut good bad =>
      have whole := trim_of_pieces cut piece (by simp)
      rw [← whole, ← Parameter.ofPiece_error bad]
      simp only [isVoidList, named, decide_false, Bool.false_eq_true, ↓reduceIte,
        ← pieces_iff.mp cut, mapM_of_first good bad]
      rfl

theorem gives_of_ofCandidate {f : Function} (read : ofCandidate wrapper candidate = .ok f) :
    ∃ s : Shape, s.Splits wrapper (trim candidate) ∧ s.Gives (.ok f) := by
  cases found : Shape.ofCandidate? wrapper candidate with
  | none =>
      unfold ofCandidate at read
      rw [found] at read
      cases read
  | some s =>
      have splits := Shape.splits_of_ofCandidate? found
      obtain ⟨result, gives⟩ := exists_gives s
      have same := (ofCandidate_of_gives splits gives).symm.trans read
      rw [same] at gives
      exact ⟨s, splits, gives⟩

theorem splits_of_ofCandidate {f : Function} (read : ofCandidate wrapper candidate = .ok f) :
    ∃ (s : Shape) (parameters : List Parameter),
      s.Splits wrapper (trim candidate) ∧ f = s.function parameters := by
  obtain ⟨s, splits, gives⟩ := gives_of_ofCandidate read
  cases gives with
  | void => exact ⟨s, [], splits, rfl⟩
  | read => exact ⟨s, _, splits, rfl⟩

/-- Reading accepts exactly its grammar. A text has the parts of a declaration in at most one way;
if it has them, they give the result, and otherwise the shape is reported. -/
theorem ofCandidate_grammar (wrapper candidate : List Char) :
    (∀ s t : Shape, s.Splits wrapper (trim candidate) → t.Splits wrapper (trim candidate) → s = t) ∧
      ∀ result, ofCandidate wrapper candidate = result ↔
        (∃ s : Shape, s.Splits wrapper (trim candidate) ∧ s.Gives result) ∨
          (∀ s : Shape, ¬ s.Splits wrapper (trim candidate)) ∧ result = .error .shape := by
  constructor
  · intro s t first second
    exact Option.some.inj (first.ofCandidate?.symm.trans second.ofCandidate?)
  · intro result
    constructor
    · rintro rfl
      by_cases shaped : ∃ s : Shape, s.Splits wrapper (trim candidate)
      · obtain ⟨s, splits⟩ := shaped
        obtain ⟨result, gives⟩ := exists_gives s
        rw [ofCandidate_of_gives splits gives]
        exact .inl ⟨s, splits, gives⟩
      · refine .inr ⟨fun s splits => shaped ⟨s, splits⟩, ?_⟩
        cases found : Shape.ofCandidate? wrapper candidate with
        | none =>
            unfold ofCandidate
            rw [found]
        | some s => exact absurd ⟨s, Shape.splits_of_ofCandidate? found⟩ shaped
    · rintro (⟨s, splits, gives⟩ | ⟨unshaped, rfl⟩)
      · exact ofCandidate_of_gives splits gives
      · cases found : Shape.ofCandidate? wrapper candidate with
        | none =>
            unfold ofCandidate
            rw [found]
        | some s => exact absurd (Shape.splits_of_ofCandidate? found) (unshaped s)

end Function

end HeaderBindings
