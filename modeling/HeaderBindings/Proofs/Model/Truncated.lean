import HeaderBindings.Proofs.Layout.Cut
import HeaderBindings.Proofs.Model.Complete

set_option autoImplicit false

namespace HeaderBindings.Model

open Layout Text

/-- Behind the start of another function's declaration and a semicolon, a declaration is in the
model. The start must not end inside of a comment. A wrapper macro that ends in the name of one of
the two functions that leave out the name of their parameter is taken for that function where the
return type is that of the parameter. -/
theorem build_truncated (o : Options) (d broken : Declared) (start : String) (rest : List Char)
    (text : String) (valid : o.validate = .ok ()) (plain : o.wrapperMacro ≠ "const")
    (listed : ∀ function ∈ ["swe_version", "swe_get_library_path"],
      function.toList <:+ o.wrapperMacro.toList → d.returnType.tokens ≠ unnamedType)
    (other : broken.name.letters ≠ d.name.letters)
    (begun : Written false false (broken.tokens o.wrapperMacro.toList) (start.toList ++ rest))
    (closed : Header.isClosed start.toList = true)
    (written : Written false false (d.tokens o.wrapperMacro.toList) text.toList) :
    ∃ m, build o (start ++ ";" ++ "\n" ++ text) = .ok m ∧ d.function ∈ m.functions := by
  obtain ⟨c, cs, named, words⟩ := Options.wrapperMacro_of_valid valid
  have wrapped : IsName o.wrapperMacro.toList := isName_wrapperMacro valid plain
  have semicolon : ';' ∉ o.wrapperMacro.toList := wrapped.not_mem (by decide)
  have shape : (start ++ ";" ++ "\n" ++ text).toList =
      (start.toList ++ [';']) ++ '\n' :: text.toList := by simp
  have finished : Header.Finished (start.toList ++ [';']) := by
    exact ⟨Header.isClosed_append_singleton closed (by decide), Header.stripComments start.toList,
      [], Header.stripComments_append _ [';'] closed (by decide), by simp⟩
  have parts := Header.candidates_append (Header.Policy.forWrapper_separable semicolon) named
    (isWord_of_isAsciiWord (words c (by simp))) semicolon finished.closed finished.ends
    (show isBlank '\n' = true by decide) text.toList
  rw [← shape] at parts
  have quiet {function : List Char} (ending : function <:+ o.wrapperMacro.toList →
      d.returnType.tokens ≠ unnamedType) : Quiet function (d.tokens o.wrapperMacro.toList) := by
    have whole : Quiet function (d.tokens o.wrapperMacro.toList ++ []) :=
      Quiet.declared d ending trivial
    rwa [List.append_nil] at whole
  have spells : Spells false (d.tokens o.wrapperMacro.toList)
      ((Header.Policy.forWrapper o.wrapperMacro).apply text.toList) :=
    written.apply (quiet (listed "swe_version" (by simp)))
      (quiet (listed "swe_get_library_path" (by simp)))
  have read := @read_candidates _ wrapped [d] _ _ none (by simpa using spells) rfl
  obtain ⟨candidate, found, same⟩ := List.map_eq_singleton_iff.mp read
  have only : Header.candidates (.forWrapper o.wrapperMacro) o.wrapperMacro.toList text.toList =
      [candidate] := found
  rw [only] at parts
  refine ⟨_, buildWith_valid valid _ _, (mem_functions_ofHeader _ _ _ _).mpr
    ⟨(Header.candidates (.forWrapper o.wrapperMacro) o.wrapperMacro.toList
      (start.toList ++ [';'])).length, candidate, ?_, same, ?_⟩⟩
  · rw [parts, List.getElem?_concat_length]
  · rw [parts, List.take_left]
    intro earlier member f found alike
    have letters := name_of_cut (wrapped.not_mem (by decide)) begun closed member found
    rw [alike] at letters
    refine other (letters.symm.trans ?_)
    exact String.toList_ofList

/-- A list that breaks off behind a comma, inside of which a comment was closed. -/
theorem build_truncated_list :
    ({} : Options).validate = .ok () ∧
      ∃ m, build {} "ext_def(int)f(int x,/* ) */;\next_def(void*)g();" = .ok m ∧
        ⟨"g", "void", true, .numeric, []⟩ ∈ m.functions := by
  obtain ⟨m, built, member⟩ := build_truncated {}
    { name := ⟨['g'], by decide, by decide⟩
      returnType := ⟨⟨['v', 'o', 'i', 'd'], by decide, by decide⟩, [], 1⟩
      arguments := .nothing }
    { name := ⟨['f'], by decide, by decide⟩
      returnType := ⟨⟨['i', 'n', 't'], by decide, by decide⟩, [], 0⟩
      arguments := .named {
        type := ⟨⟨['i', 'n', 't'], by decide, by decide⟩, [], 0⟩
        name := ⟨['x'], by decide, by decide⟩
        suffixes := [] } [{
        type := ⟨⟨['i', 'n', 't'], by decide, by decide⟩, [], 0⟩
        name := ⟨['y'], by decide, by decide⟩
        suffixes := [] }] }
    "ext_def(int)f(int x,/* ) */" "int y);".toList "ext_def(void*)g();" rfl (by decide) (by decide)
    (by decide)
    (.word (by decide) <| .mark (by decide) <| .word (by decide) <| .mark (by decide) <|
      .word (by decide) <| .mark (by decide) <| .word (by decide) <| .blank (by decide) <|
      .word (by decide) <| .mark (by decide) <|
      @Written.comment _ _ [' ', ')', ' '] _ _ (by decide) <| .word (by decide) <|
      .blank (by decide) <| .word (by decide) <| .mark (by decide) <|
      .mark (by decide) .nil)
    (by decide)
    (.word (by decide) <| .mark (by decide) <| .word (by decide) <| .mark (by decide) <|
      .mark (by decide) <| .word (by decide) <| .mark (by decide) <| .mark (by decide) <|
      .mark (by decide) .nil)
  exact ⟨rfl, m, built, member⟩

theorem exists_lacking {o : Options} {header : String} {f : Function} (valid : o.validate = .ok ())
    (absent : f ∉ (sift o.previewLength [] (readings o (.forWrapper o.wrapperMacro) header)).1) :
    ∃ m, build o header = .ok m ∧ f ∉ m.functions := by
  refine ⟨_, buildWith_valid valid _ _, ?_⟩
  rwa [functions_ofHeader, List.mem_mergeSort]

/-- Without a semicolon at the cut, both declarations are one candidate. With one, another
declaration of the function may have stood in the comment that is cut. Of a wrapper macro that is
the qualifier nothing is left, and behind one that is taken for a function the return type is taken
for its list. -/
theorem build_truncated_unended :
    (∃ m, build {} "ext_def(int) f(\next_def(void) g(void);" = .ok m ∧
        ⟨"g", "void", false, .void, []⟩ ∉ m.functions) ∧
      (∃ m, build {} "ext_def(int) f( /* ; ext_def(int) g(int a);\next_def(void) g(void);" = .ok m ∧
        ⟨"g", "void", false, .void, []⟩ ∉ m.functions) ∧
      (∃ m, build { wrapperMacro := "const" } "const(int) f(;\nconst(void) g(void);" = .ok m ∧
        ⟨"g", "void", false, .void, []⟩ ∉ m.functions) ∧
      ∃ m, build { wrapperMacro := "swe_version" }
          "swe_version(int) f(;\nswe_version(char *) g(void);" = .ok m ∧
        ⟨"g", "char", true, .numeric, []⟩ ∉ m.functions :=
  ⟨exists_lacking rfl (by decide +kernel), exists_lacking rfl (by decide +kernel),
    exists_lacking rfl (by decide +kernel), exists_lacking rfl (by decide +kernel)⟩

end HeaderBindings.Model
