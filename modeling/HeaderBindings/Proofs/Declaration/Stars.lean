import HeaderBindings.Proofs.Declaration.Parameter

/-!
Spaces around the stars of a piece. In the type a star counts as a space, but from the last word it
is taken out; so the spaces do not matter exactly where the stars of the last word are all before
the name.
-/

set_option autoImplicit false

namespace HeaderBindings

open Text

/-- The text with a space on both sides of every star. -/
def spaceStars (cs : List Char) : List Char :=
  cs.flatMap fun c => if c = '*' then [' ', '*', ' '] else [c]

/-- The words of a text with every star taken as a space. -/
def starWords (cs : List Char) : List (List Char) :=
  words (cs.map fun c => if c = '*' then ' ' else c)

theorem baseType_eq (cs : List Char) : baseType cs = joinWords (starWords cs) := rfl

theorem starWords_append (first second : List Char) {c : Char}
    (apart : isBlank c = true ∨ c = '*') :
    starWords (first ++ c :: second) = starWords first ++ starWords second := by
  have space : isBlank (if c = '*' then ' ' else c) = true := by
    split
    · decide
    · exact apart.resolve_right ‹_›
  rw [starWords, List.map_append, List.map_cons, words_append_blank _ _ space]
  rfl

theorem starWords_words (cs : List Char) : starWords (joinWords (words cs)) = starWords cs := by
  have kept (c : Char) (blank : isBlank c = true) :
      ∃ d, isBlank d = true ∧ [if c = '*' then ' ' else c] = [d] := by
    refine ⟨_, ?_, rfl⟩
    split
    · decide
    · exact blank
  simp only [starWords, List.map_eq_flatMap]
  rw [words_flatMap_joinWords kept, words_flatMap kept]

theorem starWords_replicate (n : Nat) : starWords (List.replicate n '*') = [] := by
  have spaces : ∀ c ∈ List.replicate n ' ', isBlank c = true := by
    intro c member
    rw [List.eq_of_mem_replicate member]
    decide
  have none_there := words_append_blanks [] spaces
  rw [List.nil_append] at none_there
  rw [starWords, List.map_replicate]
  exact none_there

theorem spaceStars_star (cs : List Char) :
    spaceStars ('*' :: cs) = ' ' :: '*' :: ' ' :: spaceStars cs := rfl

theorem spaceStars_other {c : Char} (differs : c ≠ '*') (cs : List Char) :
    spaceStars (c :: cs) = c :: spaceStars cs := by simp [spaceStars, differs]

theorem spaceStars_append (first second : List Char) :
    spaceStars (first ++ second) = spaceStars first ++ spaceStars second :=
  List.flatMap_append

theorem spaceStars_free {cs : List Char} (free : '*' ∉ cs) : spaceStars cs = cs := by
  induction cs with
  | nil => rfl
  | cons c cs ih =>
      have differs : c ≠ '*' := fun same => free (by simp [same])
      rw [spaceStars_other differs, ih fun member => free (List.mem_cons_of_mem c member)]

theorem mem_spaceStars {c : Char} {cs : List Char} (member : c ∈ cs) : c ∈ spaceStars cs := by
  refine List.mem_flatMap.mpr ⟨c, member, ?_⟩
  split <;> simp_all

theorem of_mem_spaceStars {c : Char} {cs : List Char} (member : c ∈ spaceStars cs) :
    c = ' ' ∨ c ∈ cs := by
  obtain ⟨d, inside, made⟩ := List.mem_flatMap.mp member
  by_cases star : d = '*'
  · simp only [star, ↓reduceIte, List.mem_cons, List.not_mem_nil, or_false] at made
    rcases made with space | same | space
    · exact .inl space
    · exact .inr (by rwa [same, ← star])
    · exact .inl space
  · simp only [star, ↓reduceIte, List.mem_singleton] at made
    exact .inr (by rwa [made])

theorem spaceStars_eq_append_mark {mark : Char} (notStar : mark ≠ '*') (notSpace : mark ≠ ' ')
    {cs left right : List Char} (split : spaceStars cs = left ++ mark :: right) :
    ∃ first second, cs = first ++ mark :: second ∧ spaceStars first = left ∧
      spaceStars second = right := by
  induction cs generalizing left with
  | nil => simp [spaceStars] at split
  | cons c cs ih =>
      by_cases star : c = '*'
      · subst star
        rw [spaceStars_star] at split
        obtain ⟨behind, shape⟩ : ∃ behind, left = ' ' :: '*' :: ' ' :: behind := by
          match left, split with
          | [], split => exact absurd (List.cons.inj split).1.symm notSpace
          | [_], split => simp [notStar.symm] at split
          | [_, _], split => simp [notSpace.symm] at split
          | _ :: _ :: _ :: behind, split =>
              simp only [List.cons_append, List.cons.injEq] at split
              obtain ⟨rfl, rfl, rfl, -⟩ := split
              exact ⟨behind, rfl⟩
        subst shape
        simp only [List.cons_append, List.cons.injEq, true_and] at split
        obtain ⟨first, second, rfl, rfl, rfl⟩ := ih split
        exact ⟨'*' :: first, second, rfl, rfl, rfl⟩
      · rw [spaceStars_other star] at split
        cases left with
        | nil =>
            obtain ⟨rfl, rfl⟩ := List.cons.inj split
            exact ⟨[], cs, rfl, rfl, rfl⟩
        | cons d left =>
            obtain ⟨rfl, behind⟩ := List.cons.inj split
            obtain ⟨first, second, rfl, rfl, rfl⟩ := ih behind
            exact ⟨c :: first, second, rfl, spaceStars_other star first, rfl⟩

/-! Without the array suffixes -/

theorem mem_of_throughBracket {cs : List Char} {n : Nat} (found : throughBracket cs = some n) :
    ']' ∈ cs := by
  induction cs generalizing n with
  | nil => cases found
  | cons c cs ih =>
      by_cases bracket : c = ']'
      · simp [bracket]
      · simp only [throughBracket, bracket, ↓reduceIte, Option.map_eq_some_iff] at found
        obtain ⟨m, later, _⟩ := found
        exact List.mem_cons_of_mem c (ih later)

theorem exists_of_arraySuffix {before : Option Char} {cs : List Char} {hit : Hit}
    (found : arraySuffix before cs = some hit) :
    ∃ gap inner rest, (∀ c ∈ gap, isBlank c = true) ∧ ']' ∉ inner ∧
      cs = gap ++ '[' :: (inner ++ [']']) ++ rest := by
  unfold arraySuffix at found
  split at found
  · rename_i behind opened
    obtain ⟨n, closed, _⟩ := Option.map_eq_some_iff.mp found
    obtain ⟨inner, rest, rfl, free⟩ := List.eq_append_cons_of_mem (mem_of_throughBracket closed)
    obtain ⟨gap, blanks, split⟩ := exists_gap cs
    exact ⟨gap, inner, rest, blanks, free, by rw [split, opened]; simp⟩
  · cases found

/-- What is left of a text without its array suffixes, and whether there were any. -/
inductive Unsuffixed : List Char → List Char → Bool → Prop
  | nil : Unsuffixed [] [] false
  | keep {c : Char} {cs left : List Char} {found : Bool}
    (missed : ∀ before, arraySuffix before (c :: cs) = none) (rest : Unsuffixed cs left found) :
    Unsuffixed (c :: cs) (c :: left) found
  | drop {gap inner cs left : List Char} {found : Bool} (blanks : ∀ c ∈ gap, isBlank c = true)
    (free : ']' ∉ inner) (rest : Unsuffixed cs left found) :
    Unsuffixed (gap ++ '[' :: (inner ++ [']']) ++ cs) left true

namespace Unsuffixed

variable {cs left : List Char} {found : Bool}

theorem walked (walk : Unsuffixed cs left found) (before : Option Char) :
    replaceFrom arraySuffix 0 true before cs = left ∧
      (!(spansFrom arraySuffix 0 before cs).isEmpty) = found := by
  induction walk generalizing before with
  | nil => exact ⟨replaceFrom_nil Layout.arraySuffix_proper 0 true before, rfl⟩
  | keep missed rest ih =>
      rw [replaceFrom_none (missed before), spansFrom_none (missed before), (ih _).1]
      exact ⟨rfl, (ih _).2⟩
  | drop blanks free rest ih =>
      have hit := Layout.arraySuffix_append before blanks free
      rw [replaceFrom_take Layout.arraySuffix_proper (by simp) (hit _), (ih _).1,
        spansFrom_take (by simp) (hit _)]
      exact ⟨rfl, rfl⟩

theorem exists_walk (cs : List Char) : ∃ left found, Unsuffixed cs left found := by
  induction size : cs.length using Nat.strongRecOn generalizing cs with
  | ind n ih =>
      subst size
      cases hit : arraySuffix none cs with
      | some hit =>
          obtain ⟨gap, inner, rest, blanks, free, rfl⟩ := exists_of_arraySuffix hit
          obtain ⟨left, found, walk⟩ := ih rest.length (by simp; omega) rest rfl
          exact ⟨left, true, .drop blanks free walk⟩
      | none =>
          cases cs with
          | nil => exact ⟨[], false, .nil⟩
          | cons c cs =>
              obtain ⟨left, found, walk⟩ := ih cs.length (by simp) cs rfl
              exact ⟨c :: left, found, .keep (fun _ => hit) walk⟩

theorem blank (walk : Unsuffixed cs left found) {c : Char} (blank : isBlank c = true) :
    Unsuffixed (c :: cs) left found ∨ Unsuffixed (c :: cs) (c :: left) found := by
  have missed (cs : List Char) (before : Option Char) (hit : arraySuffix before cs = none) :
      arraySuffix before (c :: cs) = none := by
    unfold arraySuffix at hit ⊢
    rw [dropBlanks_blank cs blank]
    split at hit
    · rw [Option.map_eq_none_iff] at hit ⊢
      exact hit
    · rfl
  cases walk with
  | nil => exact .inr (.keep (fun before => missed [] before rfl) .nil)
  | keep none_here rest =>
      exact .inr (.keep (fun before => missed _ before (none_here before)) (.keep none_here rest))
  | @drop gap inner cs left found blanks free rest =>
      have longer : ∀ d ∈ c :: gap, isBlank d = true := by simpa [blank] using blanks
      exact .inl (.drop longer free rest)

end Unsuffixed

/-! The spaced text -/

/-- The second text is the first with a space before each star and, where it likes, one behind. -/
inductive Spread : List Char → List Char → Prop
  | nil : Spread [] []
  | other {c : Char} {cs ds : List Char} (differs : c ≠ '*') (rest : Spread cs ds) :
    Spread (c :: cs) (c :: ds)
  | before {cs ds : List Char} (rest : Spread cs ds) : Spread ('*' :: cs) (' ' :: '*' :: ds)
  | around {cs ds : List Char} (rest : Spread cs ds) :
    Spread ('*' :: cs) (' ' :: '*' :: ' ' :: ds)

theorem arraySuffix_spaceStars {cs : List Char}
    (missed : ∀ before, arraySuffix before cs = none) (before : Option Char) :
    arraySuffix before (spaceStars cs) = none := by
  cases hit : arraySuffix before (spaceStars cs) with
  | none => rfl
  | some hit =>
      obtain ⟨gap, inner, rest, blanks, free, split⟩ := exists_of_arraySuffix hit
      rw [List.append_assoc, List.cons_append, List.append_assoc, List.singleton_append] at split
      obtain ⟨first, behind, rfl, rfl, opened⟩ :=
        spaceStars_eq_append_mark (by decide) (by decide) split
      obtain ⟨middle, last, rfl, rfl, -⟩ :=
        spaceStars_eq_append_mark (by decide) (by decide) opened
      have found := @Layout.arraySuffix_append before first middle
        (fun c member => blanks c (mem_spaceStars member))
        (fun member => free (mem_spaceStars member)) last
      rw [List.append_assoc, List.cons_append, List.append_assoc, List.singleton_append,
        missed before] at found
      cases found

theorem Unsuffixed.spaceStars {cs left : List Char} {found : Bool}
    (walk : Unsuffixed cs left found) :
    ∃ spaced, Unsuffixed (spaceStars cs) spaced found ∧ Spread left spaced := by
  have space : isBlank ' ' = true := by decide
  induction walk with
  | nil => exact ⟨[], .nil, .nil⟩
  | @keep c cs left found missed rest ih =>
      obtain ⟨spaced, walk, spread⟩ := ih
      by_cases star : c = '*'
      · subst star
        have quiet (cs : List Char) (before : Option Char) :
            arraySuffix before (' ' :: '*' :: cs) = none ∧ arraySuffix before ('*' :: cs) = none :=
          ⟨rfl, rfl⟩
        rw [spaceStars_star]
        rcases walk.blank space with taken | stays
        · exact ⟨_, .keep (fun before => (quiet _ before).1)
            (.keep (fun before => (quiet _ before).2) taken), .before spread⟩
        · exact ⟨_, .keep (fun before => (quiet _ before).1)
            (.keep (fun before => (quiet _ before).2) stays), .around spread⟩
      · have none_here := arraySuffix_spaceStars missed
        rw [spaceStars_other star] at none_here ⊢
        exact ⟨_, .keep none_here walk, .other star spread⟩
  | @drop gap inner cs left found blanks free rest ih =>
      obtain ⟨spaced, walk, spread⟩ := ih
      have starless : '*' ∉ gap := fun member => absurd (blanks '*' member) (by decide)
      have closed : ']' ∉ HeaderBindings.spaceStars inner := by
        intro member
        rcases of_mem_spaceStars member with same | inside
        · cases same
        · exact free inside
      refine ⟨spaced, ?_, spread⟩
      rw [spaceStars_append, spaceStars_append, spaceStars_free starless,
        spaceStars_other (by decide), spaceStars_append]
      exact .drop blanks closed walk

namespace Spread

variable {cs ds first second : List Char}

theorem append_inv (spread : Spread (first ++ second) ds) :
    ∃ left right, ds = left ++ right ∧ Spread first left ∧ Spread second right := by
  induction first generalizing ds with
  | nil => exact ⟨[], ds, rfl, .nil, spread⟩
  | cons c first ih =>
      cases spread with
      | other differs rest =>
          obtain ⟨left, right, rfl, front, behind⟩ := ih rest
          exact ⟨c :: left, right, rfl, .other differs front, behind⟩
      | before rest =>
          obtain ⟨left, right, rfl, front, behind⟩ := ih rest
          exact ⟨' ' :: '*' :: left, right, rfl, .before front, behind⟩
      | around rest =>
          obtain ⟨left, right, rfl, front, behind⟩ := ih rest
          exact ⟨' ' :: '*' :: ' ' :: left, right, rfl, .around front, behind⟩

theorem eq_of_free (spread : Spread cs ds) (free : '*' ∉ cs) : ds = cs := by
  induction spread with
  | nil => rfl
  | other differs rest ih => rw [ih fun member => free (List.mem_cons_of_mem _ member)]
  | before rest ih => exact absurd (by simp) free
  | around rest ih => exact absurd (by simp) free

theorem starWords (spread : Spread cs ds) :
    HeaderBindings.starWords ds = HeaderBindings.starWords cs := by
  have space : isBlank ' ' = true := by decide
  -- What was already read of the word that is under way is carried along.
  suffices whole : ∀ front : List Char,
      words (front ++ ds.map fun c => if c = '*' then ' ' else c) =
        words (front ++ cs.map fun c => if c = '*' then ' ' else c) from whole []
  induction spread with
  | nil => exact fun front => rfl
  | @other c cs ds differs rest ih =>
      intro front
      have longer := ih (front ++ [c])
      simpa [differs] using longer
  | before rest ih =>
      intro front
      simp only [List.map_cons, Char.reduceEq, ↓reduceIte, words_append_blank _ _ space,
        words_blank _ space]
      exact congrArg _ (ih [])
  | around rest ih =>
      intro front
      simp only [List.map_cons, Char.reduceEq, ↓reduceIte, words_append_blank _ _ space,
        words_blank _ space]
      exact congrArg _ (ih [])

/-- The last word of the spaced text is, stars aside, what is behind the last star of the last
word. All before that counts as type. -/
theorem last_word {front marked name gap : List Char} {c : Char}
    (spread : Spread (front ++ c :: (marked ++ name ++ gap)) ds) (blank : isBlank c = true)
    (blanks : ∀ d ∈ gap, isBlank d = true) (shown : ∀ d ∈ name, isBlank d = false)
    (free : '*' ∉ name) (filled : marked ++ name ≠ [])
    (starred : marked = [] ∨ ∃ others, marked = others ++ ['*']) :
    ∃ before last, words ds = words before ++ [last] ∧ dropStars last = name ∧
      HeaderBindings.starWords before = HeaderBindings.starWords (front ++ c :: marked) := by
  have space : isBlank ' ' = true := by decide
  have star : isBlank '*' = false := by decide
  have inGap : '*' ∉ gap := fun member => absurd (blanks '*' member) (by decide)
  have plain : dropStars name = name := Layout.dropStars_stars 0 free
  rcases starred with rfl | ⟨others, rfl⟩
  · obtain ⟨before, behind, rfl, ofFront, ofRest⟩ := spread.append_inv
    have differs : c ≠ '*' := ne_of_isBlank blank star
    have same := ofRest.eq_of_free (by simp [differs.symm, free, inGap])
    rw [List.nil_append] at same filled
    refine ⟨before, name, ?_, plain, ?_⟩
    · rw [same, words_append_blank _ _ blank, words_append_blanks _ blanks, words_run filled shown]
    · rw [ofFront.starWords, starWords_append _ _ (.inl blank)]
      exact (List.append_nil _).symm
  · have cut : front ++ c :: (others ++ ['*'] ++ name ++ gap) =
        (front ++ c :: others) ++ '*' :: (name ++ gap) := by simp
    rw [cut] at spread
    obtain ⟨before, behind, rfl, ofFront, ofRest⟩ := spread.append_inv
    have typed : HeaderBindings.starWords (front ++ c :: (others ++ ['*'])) =
        HeaderBindings.starWords before := by
      rw [ofFront.starWords, ← List.cons_append, ← List.append_assoc,
        starWords_append _ _ (.inr rfl)]
      exact List.append_nil _
    rw [typed]
    have ending (rest : List Char) (same : Spread (name ++ gap) rest) : rest = name ++ gap :=
      same.eq_of_free (by simp [free, inGap])
    cases ofRest with
    | other differs rest => exact absurd rfl differs
    | before rest =>
        refine ⟨before, '*' :: name, ?_, Layout.dropStars_stars 1 free, rfl⟩
        rw [ending _ rest, words_append_blank _ _ space, ← List.cons_append,
          words_append_blanks _ blanks,
          @words_run ('*' :: name) (by simp) (by simpa [star] using shown)]
    | around rest =>
        by_cases named : name = []
        · refine ⟨before, ['*'], ?_, by rw [named]; rfl, rfl⟩
          rw [ending _ rest, named, words_append_blank _ _ space, List.nil_append,
            ← List.singleton_append, words_append_blanks ['*'] (by simpa [space] using blanks),
            @words_run ['*'] (by simp) (by simpa using star)]
        · refine ⟨before ++ [' ', '*'], name, ?_, plain, ?_⟩
          · rw [ending _ rest, ← words_run named shown, ← words_append_blanks name blanks,
              ← words_append_blank _ _ space]
            simp
          · rw [starWords_append before _ (.inl space)]
            exact List.append_nil _

end Spread

/-! Reading the spaced text -/

theorem exists_behind_stars (word : List Char) :
    ∃ marked name, word = marked ++ name ∧ '*' ∉ name ∧
      (marked = [] ∨ ∃ others, marked = others ++ ['*']) := by
  induction word with
  | nil => exact ⟨[], [], rfl, by simp, .inl rfl⟩
  | cons c word ih =>
      obtain ⟨marked, name, rfl, free, rfl | ⟨others, rfl⟩⟩ := ih
      · by_cases star : c = '*'
        · exact ⟨[c], name, rfl, free, .inr ⟨[], by simp [star]⟩⟩
        · exact ⟨[], c :: name, rfl, by simp [Ne.symm star, free], .inl rfl⟩
      · exact ⟨c :: others ++ ['*'], name, rfl, free, .inr ⟨c :: others, rfl⟩⟩

theorem star_notMem_dropStars (cs : List Char) : '*' ∉ dropStars cs := by simp [dropStars]

theorem eq_replicate_of_dropStars {marked : List Char} (none_left : dropStars marked = []) :
    marked = List.replicate marked.length '*' := by
  refine List.eq_replicate_of_mem fun c member => ?_
  by_cases star : c = '*'
  · exact star
  · have left : c ∈ dropStars marked := List.mem_filter.mpr ⟨member, by simpa using star⟩
    rw [none_left] at left
    cases left

theorem replicate_starred (n : Nat) :
    List.replicate n '*' = [] ∨ ∃ others, List.replicate n '*' = others ++ ['*'] := by
  cases n with
  | zero => exact .inl rfl
  | succ n => exact .inr ⟨List.replicate n '*', List.replicate_succ'⟩

namespace Parameter

theorem exists_of_ofPiece {piece : List Char} {p : Parameter} (read : ofPiece piece = .ok p) :
    ∃ before last isPointer, words (replaceAll arraySuffix piece) = before ++ [last] ∧
      before ≠ [] ∧ isIdentifier (dropStars last) = true ∧ baseType (joinWords before) ≠ [] ∧
      (piece.contains '*' || !(spans arraySuffix piece).isEmpty) = isPointer ∧
      p = ⟨String.ofList (dropStars last), String.ofList (baseType (joinWords before)), isPointer,
        .ofType (String.ofList (baseType (joinWords before))) isPointer⟩ := by
  unfold ofPiece at read
  split at read
  · rename_i last first before parts
    dsimp only at read
    split at read
    · cases read
    · rename_i accepted
      rw [Bool.or_eq_true, not_or, Bool.not_eq_true', Bool.not_eq_false, List.isEmpty_iff]
        at accepted
      cases read
      refine ⟨(first :: before).reverse, last, _, ?_, by simp, accepted.1, accepted.2, rfl, rfl⟩
      rw [← List.reverse_reverse (words _), parts, List.reverse_cons]
  · cases read

theorem contains_spaceStars (cs : List Char) : (spaceStars cs).contains '*' = cs.contains '*' := by
  rw [Bool.eq_iff_iff, List.contains_iff_mem, List.contains_iff_mem]
  constructor
  · intro member
    exact (of_mem_spaceStars member).resolve_left (by decide)
  · exact mem_spaceStars

/-- Spaces around the stars of an accepted piece make no difference exactly if its last word,
without array suffixes, is the name with nothing but stars before it. -/
theorem ofPiece_spaceStars_iff {piece : List Char} {p : Parameter} (read : ofPiece piece = .ok p) :
    ofPiece (spaceStars piece) = .ok p ↔
      ∃ n, (words (replaceAll arraySuffix piece)).getLast? =
        some (List.replicate n '*' ++ p.name.toList) := by
  obtain ⟨before, last, isPointer, split, more, valid, filled, pointer, shape⟩ :=
    exists_of_ofPiece read
  obtain ⟨left, found, walk⟩ := Unsuffixed.exists_walk piece
  obtain ⟨spaced, walk', spread⟩ := walk.spaceStars
  rw [show replaceAll arraySuffix piece = left from (walk.walked none).1] at split ⊢
  have kept : replaceAll arraySuffix (spaceStars piece) = spaced := (walk'.walked none).1
  have named : p.name.toList = dropStars last := by rw [shape, String.toList_ofList]
  obtain ⟨front, c, gap, rfl, blank, blanks, rfl⟩ := exists_last_word split more
  have shown : ∀ d ∈ last, isBlank d = false :=
    (infix_of_mem_words (by rw [split]; simp)).2
  have occupied : last ≠ [] := words_occupied (by rw [split]; simp)
  rw [split, List.getLast?_concat]
  constructor
  · intro same
    obtain ⟨marked, name, rfl, free, starred⟩ := exists_behind_stars last
    obtain ⟨before, last, split', stripped, typed⟩ := spread.last_word blank blanks
      (fun d member => shown d (List.mem_append_right _ member)) free occupied starred
    obtain ⟨others, word, pointer', splitSpaced, _, _, _, _, shape'⟩ := exists_of_ofPiece same
    rw [kept, split'] at splitSpaced
    obtain ⟨-, alike⟩ := List.append_inj' splitSpaced rfl
    obtain ⟨rfl, -⟩ := List.cons.inj alike
    have behind : p.name.toList = name := by rw [shape', String.toList_ofList, stripped]
    have only : dropStars marked = [] := by
      rw [behind, dropStars, List.filter_append] at named
      have plain : name.filter (· ≠ '*') = name := Layout.dropStars_stars 0 free
      rw [plain] at named
      exact List.append_left_eq_self.mp named.symm
    exact ⟨marked.length, by rw [behind, ← eq_replicate_of_dropStars only]⟩
  · rintro ⟨n, same⟩
    have letters := Option.some.inj same
    have free : '*' ∉ p.name.toList := named ▸ star_notMem_dropStars last
    rw [letters] at spread shown occupied
    obtain ⟨before, word, split', stripped, typed⟩ := spread.last_word blank blanks
      (fun d member => shown d (List.mem_append_right _ member)) free occupied (replicate_starred n)
    have same_type : baseType (joinWords (words before)) = baseType (joinWords (words front)) := by
      rw [baseType_eq, baseType_eq, starWords_words, starWords_words, typed,
        starWords_append front _ (.inl blank), starWords_replicate, List.append_nil]
    have typed_before : words before ≠ [] := by
      intro empty
      rw [empty] at same_type
      exact filled same_type.symm
    rw [shape, ← named]
    refine Layout.ofPiece_eq (kept ▸ split') typed_before stripped (named ▸ valid) same_type
      filled ?_
    rw [contains_spaceStars, ← pointer]
    show (_ || !(spansFrom arraySuffix 0 none (spaceStars piece)).isEmpty) =
      (_ || !(spansFrom arraySuffix 0 none piece).isEmpty)
    rw [(walk'.walked none).2, (walk.walked none).2]

/-- Stars before the name, whether the name touches them or not. -/
theorem ofPiece_spaceStars_before :
    ofPiece "char * *x [2]".toList = .ok ⟨"x", "char", true, .numeric⟩ ∧
      ofPiece (spaceStars "char * *x [2]".toList) = .ok ⟨"x", "char", true, .numeric⟩ := by
  have read : ofPiece "char * *x [2]".toList = .ok ⟨"x", "char", true, .numeric⟩ := by
    rfl
  exact ⟨read, (ofPiece_spaceStars_iff read).mpr ⟨1, by decide +kernel⟩⟩

/-- A star inside the last word is taken out of it, and then two words are one name. With spaces
around it the first is part of the type. -/
theorem ofPiece_spaceStars_between :
    ofPiece "int a*b".toList = .ok ⟨"ab", "int", true, .numeric⟩ ∧
      ofPiece (spaceStars "int a*b".toList) = .ok ⟨"b", "int a", true, .numeric⟩ := by
  exact ⟨rfl, rfl⟩

end Parameter

end HeaderBindings
