import HeaderBindings.Declaration.Basic
import HeaderBindings.Proofs.Layout.Spells

set_option autoImplicit false

namespace HeaderBindings.Layout

open Text

/-- A name as C has it, other than the qualifier. -/
structure Identifier where
  letters : List Char
  valid : isIdentifier letters = true
  free : letters ≠ constLetters

namespace Identifier

theorem isName (i : Identifier) : IsName i.letters :=
  ⟨ne_nil_of_isIdentifier i.valid, isAsciiWord_of_isIdentifier i.valid, i.free⟩

def token (i : Identifier) : Token := .word i.letters

def text (i : Identifier) : String := String.ofList i.letters

end Identifier

def star : Token := .mark '*'

/-- One or more words, then stars. -/
structure TypeName where
  first : Identifier
  others : List Identifier
  stars : Nat

namespace TypeName

def words (t : TypeName) : List Identifier := t.first :: t.others

def tokens (t : TypeName) : List Token :=
  t.words.map Identifier.token ++ List.replicate t.stars star

def base (t : TypeName) : String := String.ofList (joinWords (t.words.map Identifier.letters))

end TypeName

/-- An array suffix: digits in brackets, or nothing in them. -/
structure ArraySuffix where
  digits : List Char
  decimal : digits.all Char.isDigit = true

namespace ArraySuffix

def size (s : ArraySuffix) : List Token := if s.digits = [] then [] else [.word s.digits]

def tokens (s : ArraySuffix) : List Token := .mark '[' :: s.size ++ [.mark ']']

end ArraySuffix

structure Argument where
  type : TypeName
  name : Identifier
  suffixes : List ArraySuffix

namespace Argument

def tokens (a : Argument) : List Token :=
  a.type.tokens ++ a.name.token :: a.suffixes.flatMap ArraySuffix.tokens

def isPointer (a : Argument) : Bool := a.type.stars != 0 || !a.suffixes.isEmpty

/-- Stars and array suffixes make the parameter a pointer. -/
def parameter (a : Argument) : Parameter where
  name := a.name.text
  cType := a.type.base
  isPointer := a.isPointer
  mappedType := .ofType a.type.base a.isPointer

end Argument

/-- A parameter list. That there are no parameters is written with nothing, or with `void` in any
case. -/
inductive ArgumentList
  | nothing
  | void (spelling : List Char) (spelled : spelling.map Char.toLower = ['v', 'o', 'i', 'd'])
  | named (first : Argument) (others : List Argument)

namespace ArgumentList

def tokens : ArgumentList → List Token
  | nothing => []
  | void spelling _ => [.word spelling]
  | named first others => first.tokens ++ others.flatMap fun a => .mark ',' :: a.tokens

def parameters : ArgumentList → List Parameter
  | nothing => []
  | void _ _ => []
  | named first others => (first :: others).map Argument.parameter

end ArgumentList

structure Declared where
  name : Identifier
  returnType : TypeName
  arguments : ArgumentList

namespace Declared

def body (d : Declared) : List Token :=
  .mark '(' :: d.returnType.tokens ++ .mark ')' :: d.name.token ::
    .mark '(' :: d.arguments.tokens ++ [.mark ')']

def tokens (wrapper : List Char) (d : Declared) : List Token :=
  .word wrapper :: d.body ++ [.mark ';']

/-- The function that the declaration stands for. -/
def function (d : Declared) : Function where
  name := d.name.text
  returnCType := d.returnType.base
  returnIsPointer := d.returnType.stars != 0
  returnMappedType := .ofType d.returnType.base (d.returnType.stars != 0)
  parameters := d.arguments.parameters

end Declared

def Token.letters? : Token → Option (List Char)
  | .word letters => some letters
  | .mark _ => none

def wordsOf (tokens : List Token) : List (List Char) := tokens.filterMap Token.letters?

def TypeTokens (tokens : List Token) : Prop :=
  ∀ token ∈ tokens, token = star ∨ ∃ letters, token = .word letters

theorem TypeTokens.tail {token : Token} {tokens : List Token}
    (plain : TypeTokens (token :: tokens)) : TypeTokens tokens :=
  fun other member => plain other (List.mem_cons_of_mem token member)

theorem TypeTokens.eq_star_of_mem {c : Char} {tokens : List Token} (plain : TypeTokens tokens)
    (member : .mark c ∈ tokens) : c = '*' := by
  rcases plain (.mark c) member with same | ⟨_, same⟩
  · cases same
    rfl
  · cases same

theorem TypeTokens.eq_star {c : Char} {tokens : List Token}
    (plain : TypeTokens (.mark c :: tokens)) : c = '*' :=
  plain.eq_star_of_mem (by simp)

theorem TypeName.typeTokens (t : TypeName) : TypeTokens t.tokens := by
  intro token member
  rcases List.mem_append.mp member with word | stars
  · obtain ⟨i, _, rfl⟩ := List.mem_map.mp word
    exact .inr ⟨i.letters, rfl⟩
  · exact .inl (List.eq_of_mem_replicate stars)

theorem wordsOf_append_stars (tokens : List Token) (n : Nat) :
    wordsOf (tokens ++ List.replicate n star) = wordsOf tokens := by
  simp [wordsOf, star, Token.letters?]

theorem TypeName.wordsOf_tokens (t : TypeName) :
    wordsOf t.tokens = t.words.map Identifier.letters := by
  have words (names : List Identifier) :
      wordsOf (names.map Identifier.token) = names.map Identifier.letters := by
    induction names with
    | nil => rfl
    | cons name names ih => exact congrArg (name.letters :: ·) ih
  rw [TypeName.tokens, wordsOf_append_stars, words]

theorem TypeName.base_filled (t : TypeName) :
    joinWords (t.words.map Identifier.letters) ≠ [] := by
  have occupied : ∀ letters ∈ t.words.map Identifier.letters, letters ≠ [] := by
    intro letters member
    obtain ⟨name, _, rfl⟩ := List.mem_map.mp member
    exact name.isName.occupied
  intro empty
  cases (joinWords_eq_nil occupied).mp empty

theorem TypeName.contains_star (t : TypeName) : t.tokens.contains star = (t.stars != 0) := by
  have nonzero : (t.stars != 0) = true ↔ t.stars ≠ 0 := by simp
  rw [Bool.eq_iff_iff, List.contains_iff_mem, nonzero]
  constructor
  · intro member
    rcases List.mem_append.mp member with word | stars
    · obtain ⟨name, _, same⟩ := List.mem_map.mp word
      cases same
    · exact (List.mem_replicate.mp stars).1
  · intro more
    exact List.mem_append_right _ (List.mem_replicate.mpr ⟨more, rfl⟩)

theorem ArraySuffix.mem_of_mark {s : ArraySuffix} {c : Char} (member : .mark c ∈ s.tokens) :
    c = '[' ∨ c = ']' := by
  rw [ArraySuffix.tokens, ArraySuffix.size] at member
  split at member <;> simpa using member

theorem Argument.mem_of_mark {a : Argument} {c : Char} (member : .mark c ∈ a.tokens) :
    .mark c ∈ a.type.tokens ∨ c = '[' ∨ c = ']' := by
  rcases List.mem_append.mp member with typed | behind
  · exact .inl typed
  · rcases List.mem_cons.mp behind with name | suffix
    · cases name
    · obtain ⟨suffix, _, inside⟩ := List.mem_flatMap.mp suffix
      exact .inr (ArraySuffix.mem_of_mark inside)

theorem Argument.contains_star (a : Argument) : a.tokens.contains star = (a.type.stars != 0) := by
  rw [← a.type.contains_star, Bool.eq_iff_iff, List.contains_iff_mem, List.contains_iff_mem]
  constructor
  · intro member
    rcases Argument.mem_of_mark member with typed | opening | closing
    · exact typed
    · cases opening
    · cases closing
  · exact List.mem_append_left _

theorem Argument.tokens_eq (a : Argument) :
    ∃ token tokens, a.tokens = .word a.type.first.letters :: token :: tokens := by
  obtain ⟨token, tokens, behind⟩ := List.exists_cons_of_ne_nil (show
    a.type.others.map Identifier.token ++ List.replicate a.type.stars star ++
      a.name.token :: a.suffixes.flatMap ArraySuffix.tokens ≠ [] by simp)
  refine ⟨token, tokens, ?_⟩
  rw [← behind, Argument.tokens, TypeName.tokens, TypeName.words]
  simp [Identifier.token]

/-- No comma and no parenthesis stands in an argument. -/
theorem Argument.not_mem_of_mark (a : Argument) {c : Char} (other : c ∉ ['*', '[', ']']) :
    .mark c ∉ a.tokens := by
  intro member
  rcases Argument.mem_of_mark member with typed | rfl | rfl
  · rw [a.type.typeTokens.eq_star_of_mem typed] at other
    exact other (by decide)
  · exact other (by decide)
  · exact other (by decide)

theorem ArgumentList.not_mem_of_mark (list : ArgumentList) {c : Char}
    (other : c ∉ ['*', '[', ']', ',']) : .mark c ∉ list.tokens := by
  have inArgument (a : Argument) : .mark c ∉ a.tokens :=
    a.not_mem_of_mark fun member => other (by simp_all)
  cases list with
  | nothing => simp [ArgumentList.tokens]
  | void spelling spelled => simp [ArgumentList.tokens]
  | named first others =>
      intro member
      rcases List.mem_append.mp member with here | later
      · exact inArgument first here
      · obtain ⟨a, _, inside⟩ := List.mem_flatMap.mp later
        rcases List.mem_cons.mp inside with comma | inside
        · cases comma
          exact other (by decide)
        · exact inArgument a inside

theorem Declared.semicolon_not_mem (d : Declared) : .mark ';' ∉ d.body := by
  have typed : .mark ';' ∉ d.returnType.tokens := fun member => by
    cases d.returnType.typeTokens.eq_star_of_mem member
  have listed : .mark ';' ∉ d.arguments.tokens := d.arguments.not_mem_of_mark (by decide)
  simp [Declared.body, Identifier.token, typed, listed]

end HeaderBindings.Layout
