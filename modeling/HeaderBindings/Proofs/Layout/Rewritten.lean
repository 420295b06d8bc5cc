import HeaderBindings.Proofs.Layout.Declared
import HeaderBindings.Proofs.Layout.Written

set_option autoImplicit false

namespace HeaderBindings.Layout

open Text Header

def unnamedList : List Token :=
  [.mark '(', .word ['c', 'h', 'a', 'r'], .mark '*', .mark ')']

def unnamedType : List Token := [.word ['c', 'h', 'a', 'r'], star]

/-- Behind no word that ends in the function's name is there a list of one unnamed parameter. -/
def Quiet (function : List Char) : List Token → Prop
  | [] => True
  | .word letters :: tokens =>
    (function <:+ letters → ¬ unnamedList <+: tokens) ∧ Quiet function tokens
  | .mark _ :: tokens => Quiet function tokens

namespace Spells

variable {glued : Bool} {tokens : List Token} {cs rest : List Char}

theorem cons_inv {c : Char} (spells : Spells glued tokens (c :: rest)) (visible : isBlank c = false)
    (noWord : isAsciiWord c = false) :
    ∃ later, tokens = .mark c :: later ∧ Spells false later rest := by
  generalize same : c :: rest = all at spells
  cases spells with
  | nil => cases same
  | blank blank rest =>
      cases same
      rw [blank] at visible
      cases visible
  | @word letters later cs name rest =>
      obtain ⟨d, own, rfl⟩ := List.exists_cons_of_ne_nil name.occupied
      cases same
      rw [name.plain c (by simp)] at noWord
      cases noWord
  | mark known rest =>
      cases same
      exact ⟨_, rfl, rest.relax⟩

theorem after_mark {c : Char} (spells : Spells glued tokens cs) (visible : isBlank c = false)
    (noWord : isAsciiWord c = false) (found : afterLiteral [c] (Text.dropBlanks cs) = some rest) :
    ∃ later, tokens = .mark c :: later ∧ Spells false later rest := by
  have spelled := spells.dropBlanks
  rw [eq_append_of_afterLiteral found] at spelled
  exact spelled.cons_inv visible noWord

theorem after_word {letters : List Char} (spells : Spells glued tokens cs)
    (words : ∀ c ∈ letters, isWord c = true) (occupied : letters ≠ [])
    (found : afterLiteral letters (Text.dropBlanks cs) = some rest)
    (ends : isWordAt rest.head? = false) :
    ∃ later, tokens = .word letters :: later ∧ Spells true later rest := by
  have spelled := spells.dropBlanks
  rw [eq_append_of_afterLiteral found] at spelled
  obtain ⟨c, own, rfl⟩ := List.exists_cons_of_ne_nil occupied
  generalize same : c :: own ++ rest = all at spelled
  cases spelled with
  | nil => cases same
  | blank blank _ =>
      cases same
      have word := words c (by simp)
      rw [isWord_of_isBlank blank] at word
      cases word
  | @word others later cs name behind =>
      obtain ⟨rfl, rfl⟩ := eq_of_append_word same words name.isWord ends behind.head
      exact ⟨later, rfl, behind⟩
  | mark known _ =>
      cases same
      have word := words c (by simp)
      rw [isWord_of_mem_marks known] at word
      cases word

/-- Where the list of one unnamed parameter is found, its tokens are spelled. -/
theorem after_unnamedList (spells : Spells glued tokens cs)
    (found : afterTokens [['('], ['c', 'h', 'a', 'r'], ['*'], [')']] cs = some rest) :
    unnamedList <+: tokens := by
  simp only [afterTokens, Option.bind_eq_some_iff] at found
  obtain ⟨first, opened, second, char, third, star, fourth, closed, _⟩ := found
  obtain ⟨list, rfl, inside⟩ := spells.after_mark (c := '(') (by decide) (by decide) opened
  have ends : isWordAt second.head? = false := head_of_dropBlanks (c := '*') (by decide) star
  obtain ⟨list, rfl, behind⟩ := inside.after_word (forall_mem_of_all (by decide)) (by decide) char
    ends
  obtain ⟨list, rfl, closing⟩ := behind.after_mark (c := '*') (by decide) (by decide) star
  obtain ⟨later, rfl, _⟩ := closing.after_mark (c := ')') (by decide) (by decide) closed
  exact ⟨later, rfl⟩

/-- Where no list of one unnamed parameter is, a rule that looks for one changes nothing. -/
theorem replaceFrom_unnamedText (function : String) {c : Char} {own : List Char}
    (spells : Spells glued tokens cs) (named : function.toList = c :: own)
    (words : ∀ d ∈ c :: own, isWord d = true) (quiet : Quiet function.toList tokens)
    (before : Option Char) : replaceFrom (Rule.unnamedText function) 0 true before cs = cs := by
  have separable := Rule.unnamedText_separable function function named words
  induction spells generalizing before with
  | nil => exact replaceFrom_nil separable.proper 0 true before
  | blank blank rest ih =>
      rw [replaceFrom_none (separable.blanks.at_blank before _ blank), ih quiet]
  | @word letters tokens cs spelled rest ih =>
      have passed : replaceFrom (Rule.unnamedText function) 0 true before (letters ++ cs) =
          letters ++ replaceFrom (Rule.unnamedText function) 0 true
            (letters.getLast?.or before) cs := by
        refine replaceFrom_pass before letters cs fun first d second split => ?_
        cases found : Rule.unnamedText function (first.getLast?.or before) (d :: second ++ cs) with
        | none => rfl
        | some hit =>
            obtain ⟨behind, left, same, list, _⟩ := Rule.unnamedText_eq_some found
            have ends : isWordAt behind.head? = false := by
              simp only [afterTokens, Option.bind_eq_some_iff] at list
              obtain ⟨_, opened, _⟩ := list
              exact head_of_dropBlanks (c := '(') (by decide) opened
            have own : ∀ e ∈ d :: second, isWord e = true := fun e member =>
              spelled.isWord e (by rw [split]; exact List.mem_append_right _ member)
            rw [named] at same
            obtain ⟨whole, rfl⟩ := eq_of_append_word same own words rest.head ends
            have ending : function.toList <:+ letters := ⟨first, by rw [named, ← whole, split]⟩
            exact absurd (rest.after_unnamedList list) (quiet.1 ending)
      rw [passed, ih quiet.2]
  | @mark glued d tokens cs known rest ih =>
      have other : c ≠ d := by
        rintro rfl
        have word := words c (by simp)
        rw [isWord_of_mem_marks known] at word
        cases word
      have missed : Rule.unnamedText function before (d :: cs) = none := by
        simp [Rule.unnamedText, named, afterLiteral, other]
      rw [replaceFrom_none missed, ih quiet]

end Spells

theorem apply_macroDefinition (wrapper : String) {cs : List Char} (free : '#' ∉ cs) :
    (Rule.macroDefinition wrapper).apply cs = cs := by
  refine replaceAll_eq_self (Rule.definitionHead_proper _) cs fun before first second split => ?_
  cases found : Rule.definitionHead wrapper.toList before second with
  | none => rfl
  | some hit =>
      obtain ⟨rest, _, _, _, _, hash, _⟩ := Rule.definitionHead_eq_some found
      rw [split, eq_append_of_afterLiteral hash] at free
      exact absurd (by simp) free

/-- The normal form of a header spells the tokens of the header. -/
theorem Written.apply {wrapper : String} {tokens : List Token} {cs : List Char}
    (written : Written false false tokens cs) (version : Quiet "swe_version".toList tokens)
    (path : Quiet "swe_get_library_path".toList tokens) :
    Spells false tokens ((Policy.forWrapper wrapper).apply cs) := by
  obtain ⟨plain, free⟩ := written.stripComments
  have hash : '#' ∉ Header.stripComments cs :=
    plain.not_mem free (by decide) (by decide) (by decide)
  have spells : Spells false tokens (Rule.stripConst.apply (Header.stripComments cs)) :=
    plain.replaceFrom_constWord free none (by simp [isWordAt])
  have sameVersion : Rule.nameVersionArgument.apply (Rule.stripConst.apply
      (Header.stripComments cs)) = Rule.stripConst.apply (Header.stripComments cs) :=
    spells.replaceFrom_unnamedText "swe_version" rfl (forall_mem_of_all (by decide)) version none
  have samePath : Rule.nameLibraryPathArgument.apply (Rule.stripConst.apply
      (Header.stripComments cs)) = Rule.stripConst.apply (Header.stripComments cs) :=
    spells.replaceFrom_unnamedText "swe_get_library_path" rfl (forall_mem_of_all (by decide)) path
      none
  have kept : (Policy.forWrapper wrapper).apply cs =
      Header.collapse (Rule.stripConst.apply (Header.stripComments cs)) := by
    show Header.collapse (Rule.nameLibraryPathArgument.apply (Rule.nameVersionArgument.apply
      (Rule.stripConst.apply ((Rule.macroDefinition wrapper).apply
        (Header.stripComments cs))))) = _
    rw [apply_macroDefinition wrapper hash, sameVersion, samePath]
  rw [kept]
  exact spells.collapse

variable {function : List Char} {tokens : List Token}

theorem Quiet.word (letters : List Char) (quiet : Quiet function tokens)
    (other : tokens.head? ≠ some (.mark '(')) : Quiet function (.word letters :: tokens) := by
  refine ⟨fun _ list => ?_, quiet⟩
  obtain ⟨later, rfl⟩ := list
  exact other rfl

theorem Quiet.words {words : List Identifier} (quiet : Quiet function tokens)
    (other : tokens.head? ≠ some (.mark '(')) :
    Quiet function (words.map Identifier.token ++ tokens) := by
  induction words with
  | nil => exact quiet
  | cons word words ih =>
      refine Quiet.word word.letters ih ?_
      cases words with
      | nil => exact other
      | cons next words => simp [Identifier.token]

theorem Quiet.stars (n : Nat) (quiet : Quiet function tokens) :
    Quiet function (List.replicate n star ++ tokens) := by
  induction n with
  | zero => exact quiet
  | succ n ih => exact ih

theorem Quiet.type (t : TypeName) (quiet : Quiet function tokens)
    (other : tokens.head? ≠ some (.mark '(')) : Quiet function (t.tokens ++ tokens) := by
  rw [TypeName.tokens, List.append_assoc]
  refine (quiet.stars t.stars).words ?_
  cases t.stars with
  | zero => exact other
  | succ n => simp [List.replicate_succ, star]

theorem Quiet.suffixes (suffixes : List ArraySuffix) (quiet : Quiet function tokens) :
    Quiet function (suffixes.flatMap ArraySuffix.tokens ++ tokens) := by
  induction suffixes with
  | nil => exact quiet
  | cons suffix suffixes ih =>
      rw [List.flatMap_cons, List.append_assoc, ArraySuffix.tokens, ArraySuffix.size]
      split
      · exact ih
      · have closed : Quiet function
            (.mark ']' :: (suffixes.flatMap ArraySuffix.tokens ++ tokens)) := ih
        exact Quiet.word suffix.digits closed (by simp)

theorem Quiet.argument (a : Argument) (quiet : Quiet function tokens)
    (other : tokens.head? ≠ some (.mark '(')) : Quiet function (a.tokens ++ tokens) := by
  rw [Argument.tokens, List.append_assoc]
  refine Quiet.type a.type (Quiet.word a.name.letters (quiet.suffixes a.suffixes) ?_) ?_
  · cases a.suffixes with
    | nil => exact other
    | cons suffix suffixes => simp [ArraySuffix.tokens]
  · simp [Identifier.token]

theorem Quiet.arguments (list : ArgumentList) (quiet : Quiet function (.mark ')' :: tokens)) :
    Quiet function (list.tokens ++ .mark ')' :: tokens) := by
  cases list with
  | nothing => exact quiet
  | void spelling spelled => exact Quiet.word spelling quiet (by simp)
  | named first others =>
      rw [ArgumentList.tokens, List.append_assoc]
      have later : Quiet function
          ((others.flatMap fun a => .mark ',' :: a.tokens) ++ .mark ')' :: tokens) ∧
          ((others.flatMap fun a => .mark ',' :: a.tokens) ++ .mark ')' :: tokens).head? ≠
            some (.mark '(') := by
        induction others with
        | nil => exact ⟨quiet, by simp⟩
        | cons a others ih =>
            refine ⟨?_, by simp⟩
            rw [List.flatMap_cons, List.append_assoc]
            exact Quiet.argument a ih.1 ih.2
      exact Quiet.argument first later.1 later.2

theorem not_unnamedList (list : ArgumentList) (tokens : List Token) :
    ¬ unnamedList <+: .mark '(' :: (list.tokens ++ .mark ')' :: tokens) := by
  intro found
  simp only [unnamedList, List.cons_prefix_cons, true_and] at found
  cases list with
  | nothing => simp [ArgumentList.tokens] at found
  | void spelling spelled => simp [ArgumentList.tokens] at found
  | named first others =>
      -- Behind the first word of the type comes another word, or stars and then a word.
      obtain ⟨⟨word, words, stars⟩, name, suffixes⟩ := first
      cases words with
      | nil =>
          rcases stars with _ | _ | stars <;>
            simp [ArgumentList.tokens, Argument.tokens, TypeName.tokens, TypeName.words,
              Identifier.token, star, List.replicate_succ] at found
      | cons next words =>
          simp [ArgumentList.tokens, Argument.tokens, TypeName.tokens, TypeName.words,
            Identifier.token] at found

theorem eq_of_unnamedList {t : TypeName} {tokens : List Token}
    (found : unnamedList <+: .mark '(' :: (t.tokens ++ .mark ')' :: tokens)) :
    t.tokens = unnamedType := by
  obtain ⟨later, same⟩ := found
  have cut : unnamedType ++ .mark ')' :: later =
      t.tokens ++ .mark ')' :: tokens := (List.cons.inj same).2
  have absent : .mark ')' ∉ t.tokens := fun member => by
    cases t.typeTokens.eq_star_of_mem member
  exact (eq_of_append_mark (by decide) absent cut).1.symm

/-- Behind no function name is there a list of one unnamed parameter, and behind the wrapper macro
there is none but for that return type. -/
theorem Quiet.declared {wrapper : List Char} (d : Declared)
    (other : function <:+ wrapper → d.returnType.tokens ≠ unnamedType)
    (quiet : Quiet function tokens) : Quiet function (d.tokens wrapper ++ tokens) := by
  have list : Quiet function (.mark '(' :: (d.arguments.tokens ++ .mark ')' ::
      .mark ';' :: tokens)) := Quiet.arguments d.arguments quiet
  have named : Quiet function (.mark ')' :: d.name.token :: .mark '(' ::
      (d.arguments.tokens ++ .mark ')' :: .mark ';' :: tokens)) :=
    ⟨fun _ => not_unnamedList d.arguments _, list⟩
  have returned : Quiet function (.mark '(' :: (d.returnType.tokens ++ .mark ')' ::
      d.name.token :: .mark '(' :: (d.arguments.tokens ++ .mark ')' :: .mark ';' :: tokens))) :=
    Quiet.type d.returnType named (by simp)
  have whole : Quiet function (.word wrapper :: .mark '(' :: (d.returnType.tokens ++
      .mark ')' :: d.name.token :: .mark '(' ::
        (d.arguments.tokens ++ .mark ')' :: .mark ';' :: tokens))) :=
    ⟨fun ending found => other ending (eq_of_unnamedList found), returned⟩
  simpa [Declared.tokens, Declared.body] using whole

theorem quiet_tokens {wrapper : List Char} (other : ¬ function <:+ wrapper)
    (declarations : List Declared) :
    Quiet function (declarations.flatMap (Declared.tokens wrapper)) := by
  induction declarations with
  | nil => exact trivial
  | cons d declarations ih =>
      rw [List.flatMap_cons]
      exact Quiet.declared d (fun ending => absurd ending other) ih

end HeaderBindings.Layout
