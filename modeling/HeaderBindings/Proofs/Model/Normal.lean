import HeaderBindings.Proofs.Declaration.Normal
import HeaderBindings.Proofs.Declaration.Standard
import HeaderBindings.Proofs.Model.Account

set_option autoImplicit false

namespace HeaderBindings.Model

open Text

/-- Whatever a candidate looks like, what is read is in normal form. So is every function of a
model, for the candidate it was read from, whatever the rules of the policy do to the header. -/
theorem buildWith_normal :
    (∀ wrapper candidate f, Function.ofCandidate wrapper candidate = .ok f →
      f.NormalFor wrapper candidate) ∧
    ∀ o policy header m, buildWith o policy header = .ok m → ∀ f ∈ m.functions,
      ∃ candidate ∈ Header.candidates policy o.wrapperMacro.toList header.toList,
        Function.ofCandidate o.wrapperMacro.toList candidate = .ok f ∧
          f.NormalFor o.wrapperMacro.toList candidate := by
  constructor
  · intro wrapper candidate f read
    exact Function.normalFor_of_ofCandidate read
  · intro o policy header m built f member
    obtain ⟨candidate, listed, read⟩ := exists_candidate_of_mem built member
    exact ⟨candidate, listed, read, Function.normalFor_of_ofCandidate read⟩

/-- Nested suffixes, and brackets in an order in which they are none. -/
theorem buildWith_normal_brackets :
    (∃ f, Function.ofCandidate "ext_def".toList
          "ext_def(* char\t*) f(T[[1]]] [ *x, int n);".toList = .ok f ∧
        f.parameters.map (·.cType) = ["T]] [", "int"] ∧
        f.NormalFor "ext_def".toList "ext_def(* char\t*) f(T[[1]]] [ *x, int n);".toList) ∧
      ∃ m, buildWith {} .standard "ext_def(* char\t*) f(T[[1]]] [ *x, int n);" = .ok m ∧
        m.functions.length = 1 ∧ ∀ f ∈ m.functions,
          ∃ candidate ∈ Header.candidates .standard "ext_def".toList
            "ext_def(* char\t*) f(T[[1]]] [ *x, int n);".toList,
            Function.ofCandidate "ext_def".toList candidate = .ok f ∧
              f.NormalFor "ext_def".toList candidate := by
  have read : Function.ofCandidate "ext_def".toList
      "ext_def(* char\t*) f(T[[1]]] [ *x, int n);".toList =
        .ok ⟨"f", "char", true, .numeric,
          [⟨"x", "T]] [", true, .numeric⟩, ⟨"n", "int", false, .numeric⟩]⟩ := by
    decide +kernel
  have built := buildWith_valid (o := {}) rfl .standard
    "ext_def(* char\t*) f(T[[1]]] [ *x, int n);"
  have normal := buildWith_normal.2 _ _ _ _ built
  exact ⟨⟨_, read, rfl, buildWith_normal.1 _ _ _ read⟩, _, built, by decide +kernel, normal⟩

/-- A function is held to less than its parameters: its name has to be a word and its return type
words, and all words can come, for the type also none. It is up to the standard of parameters
exactly where the name has only ASCII characters and no digit in front, and a word stands in the
parentheses of the return type. So it is for every function of every model. -/
theorem functions_standard {o : Options} (valid : o.validate = .ok ()) :
    (∀ candidate f, Function.ofCandidate o.wrapperMacro.toList candidate = .ok f →
      f.Held o.wrapperMacro.toList candidate) ∧
    (∀ name cType, (∃ candidate f,
        Function.ofCandidate o.wrapperMacro.toList candidate = .ok f ∧ f.name = name ∧
          f.returnCType = cType) ↔ FunctionStandard name cType) ∧
    ∀ policy header, ∃ m, buildWith o policy header = .ok m ∧ ∀ f ∈ m.functions,
      ∃ candidate ∈ Header.candidates policy o.wrapperMacro.toList header.toList,
        Function.ofCandidate o.wrapperMacro.toList candidate = .ok f ∧
          f.Held o.wrapperMacro.toList candidate := by
  obtain ⟨d, ds, letters, words⟩ := o.wrapperMacro_of_valid valid
  have starts : ∀ c ∈ o.wrapperMacro.toList.head?, isBlank c = false := by
    rw [letters]
    rintro c ⟨⟩
    exact isBlank_of_isWord (isWord_of_isAsciiWord (words d (by simp)))
  refine ⟨fun candidate f => Function.held_of_ofCandidate, fun name cType => ?_,
    fun policy header => ?_⟩
  · constructor
    · rintro ⟨candidate, f, read, rfl, rfl⟩
      exact (Function.held_of_ofCandidate read).function
    · exact Function.exists_ofCandidate starts
  · refine ⟨_, buildWith_valid valid policy header, fun f member => ?_⟩
    obtain ⟨candidate, listed, read⟩ :=
      exists_candidate_of_mem (buildWith_valid valid policy header) member
    exact ⟨candidate, listed, read, Function.held_of_ofCandidate read⟩

/-- The default options, a name with a letter that is not ASCII, and a header with a declaration
below the standard of parameters. -/
theorem functions_standard_default :
    ({} : Options).validate = .ok () ∧
      (∃ candidate f, Function.ofCandidate "ext_def".toList candidate = .ok f ∧ f.name = "1é" ∧
        f.returnCType = "") ∧
      ∃ m, buildWith {} .standard "ext_def(int) f(int x); ext_def(*) 1f(void);" = .ok m ∧
        m.functions.length = 2 ∧ ∀ f ∈ m.functions,
          ∃ candidate ∈ Header.candidates .standard "ext_def".toList
            "ext_def(int) f(int x); ext_def(*) 1f(void);".toList,
            Function.ofCandidate "ext_def".toList candidate = .ok f ∧
              f.Held "ext_def".toList candidate := by
  have standard : FunctionStandard "1é" "" :=
    ⟨by decide, forall_mem_of_all (by decide +kernel), singleSpaced_words [], by simp⟩
  obtain ⟨_, range, models⟩ := functions_standard (o := {}) rfl
  obtain ⟨m, built, held⟩ := models .standard "ext_def(int) f(int x); ext_def(*) 1f(void);"
  refine ⟨rfl, (range "1é" "").mpr standard, m, built, ?_, held⟩
  obtain rfl := Except.ok.inj ((buildWith_valid rfl _ _).symm.trans built)
  rw [functions_ofHeader, List.length_mergeSort]
  decide +kernel

/-- What would make a parameter malformed does not reject a declaration: a name that begins with a
digit and a type of nothing but a star are read, and both come into a model. -/
theorem functions_below_standard :
    ({} : Options).validate = .ok () ∧
      Parameter.ofPiece "int 1f".toList = .error (.parameter "int 1f") ∧
      Parameter.ofPiece "* f".toList = .error (.parameter "* f") ∧
      (∃ f, Function.ofCandidate "ext_def".toList "ext_def(int) 1f(void);".toList = .ok f ∧
        isIdentifier f.name.toList = false) ∧
      (∃ f, Function.ofCandidate "ext_def".toList "ext_def(*) f(void);".toList = .ok f ∧
        f.returnCType = "") ∧
      ∃ m, build {} "ext_def(*) 1f(void);" = .ok m ∧
        ∃ f ∈ m.functions, isIdentifier f.name.toList = false ∧ f.returnCType = "" := by
  have digit : Function.ofCandidate "ext_def".toList "ext_def(int) 1f(void);".toList =
      .ok ⟨"1f", "int", false, .numeric, []⟩ := by
    decide +kernel
  have typeless : Function.ofCandidate "ext_def".toList "ext_def(*) f(void);".toList =
      .ok ⟨"f", "", true, .numeric, []⟩ := by
    decide +kernel
  have functions : (ofHeader {} (.forWrapper "ext_def") "ext_def(*) 1f(void);").functions =
      [⟨"1f", "", true, .numeric, []⟩] :=
    functions_of_sift (by decide +kernel)
  refine ⟨rfl, by decide +kernel, by decide +kernel, ⟨_, digit, by decide⟩, ⟨_, typeless, rfl⟩,
    _, buildWith_valid rfl _ _, ⟨"1f", "", true, .numeric, []⟩, ?_, by decide, rfl⟩
  rw [functions]
  exact List.mem_singleton_self _

end HeaderBindings.Model
