import HeaderBindings.Proofs.Declaration.Function
import HeaderBindings.Proofs.Header.Candidate
import HeaderBindings.Proofs.Layout.Rewritten
import HeaderBindings.Proofs.Model.Account
import HeaderBindings.Options

set_option autoImplicit false

namespace HeaderBindings

open Text

namespace Layout

/-- A candidate starts where a declaration does, and takes all of it. -/
theorem candidate_body {wrapper : List Char} (wrapped : IsName wrapper) (d : Declared)
    {glued : Bool} {body : List Char} (spells : Spells glued d.body body) {before : Option Char}
    (outside : isWordAt before = false) (rest : List Char) :
    Header.candidate wrapper before (wrapper ++ body ++ [';'] ++ rest) =
      some ⟨(wrapper ++ body ++ [';']).length, []⟩ := by
  have boundary : isWordBoundary before (wrapper ++ body ++ [';'] ++ rest).head? = true := by
    obtain ⟨c, own, shape⟩ := List.exists_cons_of_ne_nil wrapped.occupied
    have word : isWord c = true := wrapped.isWord c (by rw [shape]; simp)
    rw [shape, isWordBoundary, outside]
    simp [isWordAt, word]
  have free : ';' ∉ body := spells.not_mem (by decide) d.semicolon_not_mem
  have opening : Spells glued (.mark '(' :: (d.body.drop 1)) body := spells
  obtain ⟨gap, inner, blanks, split, _⟩ := opening.mark_inv
  have named : afterLiteral wrapper (wrapper ++ body ++ [';'] ++ rest) =
      some (gap ++ '(' :: (inner ++ ';' :: rest)) := by
    have shape : wrapper ++ body ++ [';'] ++ rest =
        wrapper ++ (gap ++ '(' :: (inner ++ ';' :: rest)) := by
      rw [split]
      simp
    rw [shape]
    exact afterLiteral_append wrapper _
  have opened := afterTokens_gap blanks (c := '(') (by decide) (inner ++ ';' :: rest)
  have inside : ∀ c ∈ inner, decide (c ≠ ';') = true := by
    intro c member
    have other : c ≠ ';' := by
      rintro rfl
      exact free (by rw [split]; simp [member])
    simpa using other
  have ended : afterLiteral [';'] ((inner ++ ';' :: rest).dropWhile (· ≠ ';')) = some rest := by
    rw [(span_append inside (by simp)).2]
    exact afterLiteral_append [';'] rest
  have length : (wrapper ++ body ++ [';'] ++ rest).length - rest.length =
      (wrapper ++ body ++ [';']).length := by
    rw [List.length_append, Nat.add_sub_cancel]
  unfold Header.candidate
  rw [if_pos boundary, named]
  simp only [opened, ended, length, Option.bind_eq_bind, Option.bind_some, Option.pure_def]

/-- The candidates of a text that spells declarations are read as the functions declared. -/
theorem read_candidates {wrapper : List Char} (wrapped : IsName wrapper)
    (declarations : List Declared) {glued : Bool} {cs : List Char} {before : Option Char}
    (spells : Spells glued (declarations.flatMap (Declared.tokens wrapper)) cs)
    (outside : isWordAt before = false) :
    (spansFrom (Header.candidate wrapper) 0 before cs).map (Function.ofCandidate wrapper) =
      declarations.map fun d => .ok d.function := by
  have passes : PassesBlanks (Header.candidate wrapper) := by
    obtain ⟨c, own, shape⟩ := List.exists_cons_of_ne_nil wrapped.occupied
    exact Header.candidate_passesBlanks shape (wrapped.isWord c (by rw [shape]; simp))
  induction declarations generalizing glued cs before with
  | nil =>
      have nothing := spansFrom_gap passes before spells.blanks []
      rw [List.append_nil] at nothing
      rw [nothing]
      rfl
  | cons d declarations ih =>
      have tokens : (d :: declarations).flatMap (Declared.tokens wrapper) =
          .word wrapper :: (d.body ++ .mark ';' ::
            declarations.flatMap (Declared.tokens wrapper)) := by
        simp [Declared.tokens]
      rw [tokens] at spells
      obtain ⟨gap, rest, blanks, first, _, declared⟩ := spells.word_inv
      obtain ⟨body, behind, second, here, later⟩ := declared.append_mark_inv
      have split : cs = gap ++ (wrapper ++ body ++ [';'] ++ behind) := by
        rw [first, second]
        simp
      have outside' : isWordAt (gap.getLast?.or before) = false := by
        cases last : gap.getLast? with
        | none => exact outside
        | some c => exact isWord_of_isBlank (blanks c (List.mem_of_getLast? last))
      have found := candidate_body wrapped d here outside' behind
      have ends : (wrapper ++ body ++ [';']).getLast?.or (gap.getLast?.or before) = some ';' := by
        simp
      rw [split, spansFrom_gap passes before blanks, spansFrom_take (by simp) found, ends,
        List.map_cons, ofCandidate_body wrapped d here, ih later (by decide)]
      rfl

end Layout

namespace Model

open Layout

theorem sift_distinct (length : UInt64) (seen : List String) (readings : List Reading)
    (functions : List Function) (read : readings.map (·.result) = functions.map .ok)
    (distinct : (functions.map (·.name)).Nodup) (new : ∀ f ∈ functions, f.name ∉ seen) :
    sift length seen readings = (functions, []) := by
  induction functions generalizing seen readings with
  | nil =>
      rw [List.map_eq_nil_iff.mp read]
      rfl
  | cons f functions ih =>
      cases readings with
      | nil => cases read
      | cons r readings =>
          rw [List.map_cons, List.map_cons, List.cons.injEq] at read
          rw [List.map_cons, List.nodup_cons] at distinct
          have unseen : seen.contains f.name = false := by
            simpa using new f (by simp)
          have later : ∀ g ∈ functions, g.name ∉ f.name :: seen := by
            intro g member known
            rcases List.mem_cons.mp known with same | before
            · exact distinct.1 (by rw [← same]; exact List.mem_map_of_mem member)
            · exact new g (List.mem_cons_of_mem f member) before
          rw [sift_new length readings read.1 unseen, ih _ _ read.2 distinct.2 later]

/-- The model has exactly the functions declared, in the order of their names. -/
structure Records (declarations : List Declared) (m : Model) : Prop where
  functions : m.functions.Perm (declarations.map Declared.function)
  sorted : m.functions.Pairwise fun f g => f.name < g.name
  diagnostics : m.diagnostics = []
  count : m.candidateCount = UInt64.ofNat declarations.length

theorem records_ofHeader {o : Options} {policy : Header.Policy} {header : String}
    {declarations : List Declared} (distinct : (declarations.map (·.name.letters)).Nodup)
    (read : (Header.candidates policy o.wrapperMacro.toList header.toList).map
        (Function.ofCandidate o.wrapperMacro.toList) = declarations.map fun d => .ok d.function) :
    Records declarations (ofHeader o policy header) := by
  have results : (readings o policy header).map (·.result) =
      (declarations.map Declared.function).map .ok := by
    rw [readings, List.map_map, List.map_map]
    exact read
  have names : ((declarations.map Declared.function).map (·.name)).Nodup := by
    have same : (declarations.map Declared.function).map (·.name) =
        (declarations.map (·.name.letters)).map String.ofList := by
      rw [List.map_map, List.map_map]
      rfl
    rw [same]
    refine distinct.map fun first second alike => ?_
    have letters := congrArg String.toList alike
    rwa [String.toList_ofList, String.toList_ofList] at letters
  have sifted := sift_distinct o.previewLength [] _ _ results names (by simp)
  have counted := congrArg List.length read
  rw [List.length_map, List.length_map] at counted
  refine ⟨?_, sorted_ofHeader o policy header, ?_, ?_⟩
  · rw [functions_ofHeader, sifted]
    exact List.mergeSort_perm _ _
  · rw [diagnostics_ofHeader, sifted]
  · rw [candidateCount_ofHeader, counted]

/-- The wrapper macro of valid options is a name, if it is not the qualifier. -/
theorem isName_wrapperMacro {o : Options} (valid : o.validate = .ok ())
    (plain : o.wrapperMacro ≠ "const") : IsName o.wrapperMacro.toList := by
  obtain ⟨c, cs, letters, words⟩ := Options.wrapperMacro_of_valid valid
  refine ⟨by rw [letters]; exact List.cons_ne_nil c cs, by rwa [letters], fun same => ?_⟩
  exact plain (String.toList_injective same)

/-- A header that writes declarations of different functions, in any layout, has exactly these
functions in its model, and nothing is reported. A wrapper macro that ends in the name of one of the
two functions that leave out the name of their parameter would be taken for that function. -/
theorem build_declared (o : Options) (declarations : List Declared) (header : String)
    (valid : o.validate = .ok ()) (plain : o.wrapperMacro ≠ "const")
    (version : ¬ "swe_version".toList <:+ o.wrapperMacro.toList)
    (path : ¬ "swe_get_library_path".toList <:+ o.wrapperMacro.toList)
    (distinct : (declarations.map (·.name.letters)).Nodup)
    (written : Written false false (declarations.flatMap (Declared.tokens o.wrapperMacro.toList))
      header.toList) :
    ∃ m, build o header = .ok m ∧ Records declarations m := by
  have wrapped : IsName o.wrapperMacro.toList := isName_wrapperMacro valid plain
  have spells : Spells false (declarations.flatMap (Declared.tokens o.wrapperMacro.toList))
      ((Header.Policy.forWrapper o.wrapperMacro).apply header.toList) :=
    written.apply (quiet_tokens version declarations) (quiet_tokens path declarations)
  refine ⟨_, buildWith_valid valid _ header, records_ofHeader distinct ?_⟩
  exact read_candidates wrapped declarations spells rfl

theorem build_declared_layout :
    ({} : Options).validate = .ok () ∧
      ∃ m, build {} "ext_def(char const*)f(int x [2]);/* ; */ext_def(int)g(Void)\n;" = .ok m ∧
        m.functions.Perm [⟨"f", "char", true, .numeric, [⟨"x", "int", true, .numeric⟩]⟩,
          ⟨"g", "int", false, .numeric, []⟩] ∧ m.diagnostics = [] := by
  obtain ⟨m, built, records⟩ := build_declared {} [
    { name := ⟨['f'], by decide, by decide⟩
      returnType := ⟨⟨['c', 'h', 'a', 'r'], by decide, by decide⟩, [], 1⟩
      arguments := .named {
        type := ⟨⟨['i', 'n', 't'], by decide, by decide⟩, [], 0⟩
        name := ⟨['x'], by decide, by decide⟩
        suffixes := [⟨['2'], by decide⟩] } [] },
    { name := ⟨['g'], by decide, by decide⟩
      returnType := ⟨⟨['i', 'n', 't'], by decide, by decide⟩, [], 0⟩
      arguments := .void ['V', 'o', 'i', 'd'] (by decide) }]
    "ext_def(char const*)f(int x [2]);/* ; */ext_def(int)g(Void)\n;" rfl (by decide) (by decide)
    (by decide) (by decide) <|
      .word (by decide) <| .mark (by decide) <|
      .word (by decide) <| .blank (by decide) <| .qualifier <|
      .mark (by decide) <| .mark (by decide) <| .word (by decide) <|
      .mark (by decide) <| .word (by decide) <| .blank (by decide) <|
      .word (by decide) <| .blank (by decide) <| .mark (by decide) <|
      .word (by decide) <| .mark (by decide) <| .mark (by decide) <|
      .mark (by decide) <| @Written.comment _ _ [' ', ';', ' '] _ _ (by decide) <|
      .word (by decide) <| .mark (by decide) <|
      .word (by decide) <| .mark (by decide) <|
      .word (by decide) <| .mark (by decide) <|
      .word (by decide) <| .mark (by decide) <| .blank (by decide) <|
      .mark (by decide) .nil
  exact ⟨rfl, m, built, records.functions.trans (.of_eq (by decide +kernel)), records.diagnostics⟩

end Model

end HeaderBindings
