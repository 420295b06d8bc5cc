import HeaderBindings.Proofs.Header.Definition
import HeaderBindings.Proofs.Model.Account
import HeaderBindings.Options

set_option autoImplicit false

namespace HeaderBindings.Model

open Header (Definition Finished Plain)

theorem isRun_wrapperMacro {o : Options} (valid : o.validate = .ok ()) :
    Header.IsRun o.wrapperMacro.toList := by
  obtain ⟨c, cs, letters, words⟩ := Options.wrapperMacro_of_valid valid
  rw [letters]
  exact ⟨List.cons_ne_nil c cs, fun d member => Text.isWord_of_isAsciiWord (words d member)⟩

/-- Behind a line break, what has the same candidates can stand in place of each other. -/
theorem candidates_behind {wrapper : String} (run : Header.IsRun wrapper.toList)
    {first second other : List Char} (before : first = [] ∨ Finished first)
    (same : Header.candidates (.forWrapper wrapper) wrapper.toList second =
      Header.candidates (.forWrapper wrapper) wrapper.toList other) :
    Header.candidates (.forWrapper wrapper) wrapper.toList (first ++ '\n' :: second) =
      Header.candidates (.forWrapper wrapper) wrapper.toList (first ++ '\n' :: other) := by
  have free : ';' ∉ wrapper.toList := run.not_mem (by decide)
  have separable := Header.Policy.forWrapper_separable free
  have line : Text.isBlank '\n' = true := by decide
  rcases before with rfl | finished
  · have blank : ∀ c ∈ ['\n'], Text.isBlank c = true := by simpa using line
    have gap := Header.candidates_gap separable blank wrapper.toList
    exact (gap second).trans (same.trans (gap other).symm)
  · obtain ⟨c, own, shape⟩ := List.exists_cons_of_ne_nil run.occupied
    have word : Text.isWord c = true := run.letters c (by simp [shape])
    have parts := Header.candidates_append separable shape word free finished.closed finished.ends
      line
    rw [parts second, parts other, same]

/-- The definition of the wrapper macro makes no difference, wherever a statement can stand. -/
theorem build_definition (o : Options) (first second replacement : String) (d : Definition)
    (valid : o.validate = .ok ()) (other : o.wrapperMacro ≠ "define")
    (before : first = "" ∨ Finished first.toList)
    (plain : Plain o.wrapperMacro.toList replacement.toList) :
    ∃ m,
      build o (first ++ "\n" ++ String.ofList (d.line o.wrapperMacro.toList replacement.toList) ++
        "\n" ++ second) = .ok m ∧
      build o (first ++ "\n" ++ second) = .ok m := by
  have run := isRun_wrapperMacro valid
  have name : o.wrapperMacro.toList ≠ Definition.define := fun same =>
    other (String.toList_injective same)
  have start : first.toList = [] ∨ Finished first.toList :=
    before.imp_left fun empty => by rw [empty]; rfl
  have same := candidates_behind run start
    (Header.candidates_definition run name d plain second.toList)
  refine ⟨_, buildWith_valid valid _ _, (buildWith_valid valid _ _).trans (congrArg Except.ok ?_)⟩
  refine ofHeader_of_candidates o _ ?_
  simpa using same.symm

/-- A definition over several lines whose replacement text looks like the start of a declaration,
between declarations. -/
theorem build_definition_lines :
    let d : Definition := {
      beforeHash := ⟨[' '], Text.forall_mem_of_all (by decide)⟩
      beforeDefine := ⟨['\t'], Text.forall_mem_of_all (by decide)⟩
      beforeName := ⟨['\n', ' '], Text.forall_mem_of_all (by decide)⟩
      apart := by decide
      beforeOpen := ⟨[' '], Text.forall_mem_of_all (by decide)⟩
      beforeParameter := ⟨[], by simp⟩
      parameter := ['x', '1']
      named := ⟨by decide, Text.forall_mem_of_all (by decide)⟩
      beforeClose := ⟨['\n'], Text.forall_mem_of_all (by decide)⟩ }
    let o : Options := { wrapperMacro := "def" }
    let first := "def(int) f(int x); /* def( */"
    let replacement := "(x) const de const f (char *) extern \"C\""
    let second := "def(int) g(void); #define def(x) x\n def(void) h(void);"
    o.validate = .ok () ∧ o.wrapperMacro ≠ "define" ∧ Finished first.toList ∧
      Plain o.wrapperMacro.toList replacement.toList ∧
      ∃ m,
        build o (first ++ "\n" ++ String.ofList (d.line o.wrapperMacro.toList replacement.toList) ++
          "\n" ++ second) = .ok m ∧
        build o (first ++ "\n" ++ second) = .ok m := by
  intro d o first replacement second
  have valid : o.validate = .ok () := by decide +kernel
  have other : o.wrapperMacro ≠ "define" := by decide
  have finished : Finished first.toList := by decide +kernel
  have plain : Plain o.wrapperMacro.toList replacement.toList :=
    ⟨by decide +kernel, by decide +kernel, by decide +kernel, by decide +kernel, by decide +kernel⟩
  exact ⟨valid, other, finished, plain,
    build_definition o first second replacement d valid other (.inr finished) plain⟩

end HeaderBindings.Model
