import HeaderBindings.Bindings
import HeaderBindings.Proofs.Model.Order

set_option autoImplicit false

namespace HeaderBindings

namespace Options

theorem symbolFor_injective (o : Options) : Function.Injective o.symbolFor :=
  fun _ _ same => (String.append_right_inj o.symbolPrefix).mp same

end Options

namespace Artifacts

/-- The symbols of functions of different names are distinct, if no function takes a symbol of the
runtime. -/
theorem symbols_nodup_iff (o : Options) {functions : List HeaderBindings.Function}
    (distinct : (functions.map (·.name)).Nodup) :
    (symbols o functions).Nodup ↔
      o.runtimeSymbols.Nodup ∧ ∀ f ∈ functions, o.symbolFor f.name ∉ o.runtimeSymbols := by
  have own : (functions.map fun f => o.symbolFor f.name).Nodup := by
    have mapped := distinct.map o.symbolFor_injective
    rwa [List.map_map] at mapped
  rw [symbols, List.nodup_append]
  constructor
  · rintro ⟨runtime, _, apart⟩
    refine ⟨runtime, fun f member taken => ?_⟩
    exact apart _ taken _ (List.mem_map_of_mem member) rfl
  · rintro ⟨runtime, free⟩
    refine ⟨runtime, own, ?_⟩
    rintro symbol taken _ member rfl
    obtain ⟨f, listed, rfl⟩ := List.mem_map.mp member
    exact free f listed taken

end Artifacts

namespace Bindings

theorem generate_valid {o : Options} (valid : o.validate = .ok ()) (header : String) :
    generate o header = .ok (ofModel o (.ofHeader o (.forWrapper o.wrapperMacro) header)) := by
  rw [generate, Model.build, Model.buildWith_valid valid]
  rfl

theorem exportSymbols_ofModel (o : Options) (m : Model) :
    (ofModel o m).artifacts.exportSymbols = Artifacts.symbols o m.functions := rfl

/-- The exported symbols are distinct exactly if those of the runtime are, and no function takes one
of these. -/
theorem exportSymbols_nodup_iff (o : Options) (header : String) (valid : o.validate = .ok ()) :
    ∃ b, generate o header = .ok b ∧
      (b.artifacts.exportSymbols.Nodup ↔
        o.runtimeSymbols.Nodup ∧
          ∀ f ∈ b.model.functions, o.symbolFor f.name ∉ o.runtimeSymbols) := by
  refine ⟨_, generate_valid valid header, ?_⟩
  rw [exportSymbols_ofModel]
  exact Artifacts.symbols_nodup_iff o (Model.names_ofHeader o _ header)

theorem exportSymbols_nodup_iff_close :
    ({} : Options).validate = .ok () ∧
      ∃ b, generate {} "ext_def(void) swe_close(void);" = .ok b ∧
        b.artifacts.exportSymbols.Nodup := by
  obtain ⟨b, built, exactly⟩ := exportSymbols_nodup_iff {} "ext_def(void) swe_close(void);" rfl
  refine ⟨rfl, b, built, exactly.mpr ⟨by decide, ?_⟩⟩
  have functions : b.model.functions = [⟨"swe_close", "void", false, .void, []⟩] := by
    rw [generate_valid rfl, Except.ok.injEq] at built
    rw [← built]
    exact Model.functions_of_sift (by decide +kernel)
  rw [functions]
  decide

/-- A function can be declared whose symbol is one of the runtime, and is then exported twice. -/
theorem exportSymbols_free :
    ({} : Options).validate = .ok () ∧ ({} : Options).runtimeSymbols.Nodup ∧
      ∃ b, generate {} "ext_def(void) free(void *p);" = .ok b ∧
        b.artifacts.exportSymbols = ["_free", "_malloc", "_free"] ∧
        ¬ b.artifacts.exportSymbols.Nodup := by
  have functions :
      (Model.ofHeader {} (.forWrapper "ext_def") "ext_def(void) free(void *p);").functions =
        [⟨"free", "void", false, .void, [⟨"p", "void", true, .numeric⟩]⟩] :=
    Model.functions_of_sift (by decide +kernel)
  have symbols : (ofModel {} (Model.ofHeader {} (.forWrapper "ext_def")
      "ext_def(void) free(void *p);")).artifacts.exportSymbols = ["_free", "_malloc", "_free"] := by
    rw [exportSymbols_ofModel, functions]
    rfl
  refine ⟨rfl, by decide, _, generate_valid rfl _, symbols, ?_⟩
  rw [symbols]
  decide

theorem ofHeader_of_stripComments (o : Options) (policy : Header.Policy) {header other : String}
    (same : Header.stripComments header.toList = Header.stripComments other.toList) :
    Model.ofHeader o policy header = Model.ofHeader o policy other := by
  have normal : policy.apply header.toList = policy.apply other.toList := by
    rw [Header.Policy.apply_eq, Header.Policy.apply_eq, Header.Policy.rewrite,
      Header.Policy.rewrite, same]
  simp only [Model.ofHeader, Header.candidates, normal]

/-- Under every policy the model is the same whatever a comment says, and so are the bindings. -/
theorem comment_irrelevant (o : Options) (policy : Header.Policy)
    (first second body other : String) (valid : o.validate = .ok ())
    (closed : Header.isClosed first.toList = true) (plain : ¬ "*/".toList <:+: body.toList)
    (plain' : ¬ "*/".toList <:+: other.toList) :
    (∃ m, Model.buildWith o policy (first ++ "/*" ++ body ++ "*/" ++ second) = .ok m ∧
      Model.buildWith o policy (first ++ "/*" ++ other ++ "*/" ++ second) = .ok m) ∧
    ∃ b, generate o (first ++ "/*" ++ body ++ "*/" ++ second) = .ok b ∧
      generate o (first ++ "/*" ++ other ++ "*/" ++ second) = .ok b := by
  have stripped (text : String) (plain : ¬ "*/".toList <:+: text.toList) :
      Header.stripComments (first ++ "/*" ++ text ++ "*/" ++ second).toList =
        Header.stripComments first.toList ++ Header.stripComments second.toList := by
    have shape : (first ++ "/*" ++ text ++ "*/" ++ second).toList =
        first.toList ++ '/' :: '*' :: (text.toList ++ '*' :: '/' :: second.toList) := by simp
    rw [shape]
    exact Header.stripComments_between closed plain second.toList
  have same (policy : Header.Policy) := ofHeader_of_stripComments o policy
    ((stripped body plain).trans (stripped other plain').symm)
  refine ⟨⟨_, Model.buildWith_valid valid policy _, ?_⟩, _, generate_valid valid _, ?_⟩
  · rw [Model.buildWith_valid valid, same policy]
  · rw [generate_valid valid, same]

/-- A comment that holds declarations, an opener and half a closer, between halves of an opener. -/
theorem comment_irrelevant_declaration :
    let first := "ext_def(int) f(int x); /"
    let second := "* ext_def(int) g(void); /* ;"
    let body := "/ ext_def(int) h(void); /* #define ext_def(x) x\n*"
    ({} : Options).validate = .ok () ∧ Header.isClosed first.toList = true ∧
      ¬ "*/".toList <:+: body.toList ∧ ¬ "*/".toList <:+: "".toList ∧
      (∃ m, Model.buildWith {} .empty (first ++ "/*" ++ body ++ "*/" ++ second) = .ok m ∧
        Model.buildWith {} .empty (first ++ "/*" ++ "" ++ "*/" ++ second) = .ok m) ∧
      ∃ b, generate {} (first ++ "/*" ++ body ++ "*/" ++ second) = .ok b ∧
        generate {} (first ++ "/*" ++ "" ++ "*/" ++ second) = .ok b := by
  intro first second body
  have closed : Header.isClosed first.toList = true := by decide +kernel
  have plain : ¬ "*/".toList <:+: body.toList := by decide +kernel
  have empty : ¬ "*/".toList <:+: "".toList := by decide
  exact ⟨rfl, closed, plain, empty,
    comment_irrelevant {} .empty first second body "" rfl closed plain empty⟩

/-- Bindings whose models agree, and whose artifacts are the same. -/
structure Agrees (b c : Bindings) : Prop where
  model : b.model.Agrees c.model
  artifacts : b.artifacts = c.artifacts
  functionsFlag : b.artifacts.exportedFunctionsFlag = c.artifacts.exportedFunctionsFlag
  methodsFlag : b.artifacts.exportedRuntimeMethodsFlag = c.artifacts.exportedRuntimeMethodsFlag

theorem ofModel_agrees (o : Options) {m n : Model} (agree : m.Agrees n) :
    (ofModel o m).Agrees (ofModel o n) := by
  have artifacts : (ofModel o m).artifacts = (ofModel o n).artifacts := by
    simp only [ofModel, agree.functions]
  exact ⟨agree, artifacts, by rw [artifacts], by rw [artifacts]⟩

/-- Headers one below the other can stand in any order, if a header can stand behind each, and
declarations of one name agree. -/
theorem generate_perm (o : Options) (chunks others : List String) (valid : o.validate = .ok ())
    (finished : ∀ chunk ∈ chunks, Header.Finished chunk.toList)
    (consistent : Model.Consistent
      (Model.declared (chunks.flatMap (Model.readings o (.forWrapper o.wrapperMacro)))))
    (same : chunks.Perm others) :
    ∃ b c, generate o ("\n".intercalate chunks) = .ok b ∧
      generate o ("\n".intercalate others) = .ok c ∧ b.Agrees c := by
  have finished' : ∀ chunk ∈ others, Header.Finished chunk.toList :=
    fun chunk member => finished chunk (same.mem_iff.mpr member)
  have first := Model.readings_intercalate valid finished
  have second := Model.readings_intercalate valid finished'
  refine ⟨_, _, generate_valid valid _, generate_valid valid _, ofModel_agrees o ?_⟩
  apply Model.ofHeader_agrees
  · rw [first, second]
    exact same.flatMap_right _
  · rw [first]
    exact consistent

/-- A function that is declared twice and a malformed declaration, upside down. -/
theorem generate_perm_reverse :
    let chunks :=
      ["ext_def(int) g(int); /* ; */", "ext_def(int) f(int x);", "ext_def( int )f(int\nx);"]
    ({} : Options).validate = .ok () ∧ (∀ chunk ∈ chunks, Header.Finished chunk.toList) ∧
      Model.Consistent
        (Model.declared (chunks.flatMap (Model.readings {} (.forWrapper "ext_def")))) ∧
      chunks.Perm chunks.reverse ∧
      ∃ b c, generate {} ("\n".intercalate chunks) = .ok b ∧
        generate {} ("\n".intercalate chunks.reverse) = .ok c ∧ b.Agrees c := by
  intro chunks
  have finished : ∀ chunk ∈ chunks, Header.Finished chunk.toList := by decide +kernel
  have consistent : Model.Consistent
      (Model.declared (chunks.flatMap (Model.readings {} (.forWrapper "ext_def")))) := by
    unfold Model.Consistent
    decide +kernel
  have same : chunks.Perm chunks.reverse := chunks.reverse_perm.symm
  exact ⟨rfl, finished, consistent, same,
    generate_perm {} chunks chunks.reverse rfl finished consistent same⟩

end Bindings

end HeaderBindings
