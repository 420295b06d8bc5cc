import HeaderBindings.Proofs.Header.Candidate
import HeaderBindings.Proofs.Model.Account
import HeaderBindings.Options

set_option autoImplicit false

namespace HeaderBindings.Model

/-- Sifting asks of the names already seen only which there are. -/
theorem sift_congr (length : UInt64) {seen other : List String}
    (same : ∀ name, name ∈ seen ↔ name ∈ other) (readings : List Reading) :
    sift length seen readings = sift length other readings := by
  induction readings generalizing seen other with
  | nil => rfl
  | cons r rest ih =>
      have agree (name : String) : seen.contains name = other.contains name := by
        rw [Bool.eq_iff_iff, List.contains_iff_mem, List.contains_iff_mem]
        exact same name
      rcases sift_cons_cases seen r with ⟨reason, failed⟩ | ⟨f, read, known⟩ | ⟨f, read, new⟩
      · rw [sift_error length seen rest failed, sift_error length other rest failed, ih same]
      · rw [sift_known length rest read known, ih same,
          sift_known length rest read ((agree f.name).symm.trans known)]
      · have next (name : String) : name ∈ f.name :: seen ↔ name ∈ f.name :: other := by
          rw [List.mem_cons, List.mem_cons, same name]
        rw [sift_new length rest read new, ih next,
          sift_new length rest read ((agree f.name).symm.trans new)]

/-- The second readings are sifted as if the functions of the first had been seen. -/
theorem sift_append (length : UInt64) (seen : List String) (first second : List Reading) :
    sift length seen (first ++ second) =
      let later := sift length ((sift length seen first).1.map (·.name) ++ seen) second
      ((sift length seen first).1 ++ later.1, (sift length seen first).2 ++ later.2) := by
  induction first generalizing seen with
  | nil => rfl
  | cons r rest ih =>
      rw [List.cons_append]
      rcases sift_cons_cases seen r with ⟨reason, failed⟩ | ⟨f, read, known⟩ | ⟨f, read, new⟩
      · rw [sift_error length seen _ failed, sift_error length seen rest failed, ih]
        rfl
      · rw [sift_known length _ read known, sift_known length rest read known, ih]
        rfl
      · have moved (name : String) :
            name ∈ (sift length (f.name :: seen) rest).1.map (·.name) ++ f.name :: seen ↔
              name ∈ f.name :: (sift length (f.name :: seen) rest).1.map (·.name) ++ seen := by
          simp only [List.mem_append, List.mem_cons, List.cons_append]
          exact or_left_comm
        rw [sift_new length _ read new, sift_new length rest read new, ih,
          sift_congr length moved]
        rfl

theorem sift_functions_more (length : UInt64) (more seen : List String)
    (readings : List Reading) :
    (sift length (more ++ seen) readings).1 =
      (sift length seen readings).1.filter fun f => !more.contains f.name := by
  induction readings generalizing seen with
  | nil => rfl
  | cons r rest ih =>
      rcases sift_cons_cases seen r with ⟨reason, failed⟩ | ⟨f, read, known⟩ | ⟨f, read, new⟩
      · rw [sift_error length _ rest failed, sift_error length _ rest failed]
        exact ih seen
      · have still : (more ++ seen).contains f.name = true := by
          rw [List.contains_append, known, Bool.or_true]
        rw [sift_known length rest read known, sift_known length rest read still]
        exact ih seen
      · rw [sift_new length rest read new, List.filter_cons]
        cases old : more.contains f.name with
        | true =>
            have still : (more ++ seen).contains f.name = true := by
              rw [List.contains_append, old, Bool.true_or]
            have there (name : String) : name ∈ more ++ seen ↔ name ∈ more ++ f.name :: seen := by
              rw [List.contains_iff_mem] at old
              simp only [List.mem_append, List.mem_cons]
              constructor
              · rintro (first | second)
                · exact .inl first
                · exact .inr (.inr second)
              · rintro (first | rfl | second)
                · exact .inl first
                · exact .inl old
                · exact .inr second
            rw [sift_known length rest read still, sift_congr length there]
            exact ih (f.name :: seen)
        | false =>
            have fresh : (more ++ seen).contains f.name = false := by
              rw [List.contains_append, old, new, Bool.or_false]
            have moved (name : String) :
                name ∈ f.name :: (more ++ seen) ↔ name ∈ more ++ f.name :: seen := by
              simp only [List.mem_append, List.mem_cons]
              exact or_left_comm
            rw [sift_new length rest read fresh, sift_congr length moved, ih (f.name :: seen)]
            rfl

/-- Functions of different names have one order. -/
theorem mergeSort_nameLe_congr {functions others : List Function} (same : functions.Perm others)
    (distinct : (functions.map (·.name)).Nodup) :
    functions.mergeSort nameLe = others.mergeSort nameLe := by
  have sorted := sorted_names functions distinct
  have sorted' := sorted_names others ((same.map _).nodup_iff.mp distinct)
  refine List.Perm.eq_of_pairwise ?_ sorted sorted' ?_
  · intro f g _ _ less more
    exact absurd (String.lt_trans less more) (String.lt_irrefl _)
  · exact ((List.mergeSort_perm functions nameLe).trans same).trans
      (List.mergeSort_perm others nameLe).symm

def newFunctions (first second : Model) : List Function :=
  second.functions.filter fun f => !(first.functions.map (·.name)).contains f.name

/-- The model has what the first one has, and the new functions of the second. -/
structure Composes (first second m : Model) : Prop where
  count : m.candidateCount = first.candidateCount + second.candidateCount
  functions : m.functions = (first.functions ++ newFunctions first second).mergeSort nameLe
  sorted : m.functions.Pairwise fun f g => f.name < g.name
  diagnostics : first.diagnostics <+: m.diagnostics

theorem ofHeader_composes (o : Options) (policy : Header.Policy) {first second whole : String}
    (parts : readings o policy whole = readings o policy first ++ readings o policy second) :
    Composes (ofHeader o policy first) (ofHeader o policy second) (ofHeader o policy whole) := by
  refine ⟨?_, ?_, sorted_ofHeader o policy whole, ?_⟩
  · simp only [candidateCount_readings, parts, List.length_append, UInt64.ofNat_add]
  · have distinct := (sift_names o.previewLength [] (readings o policy whole)).1
    have added := sift_functions_more o.previewLength
      ((sift o.previewLength [] (readings o policy first)).1.map (·.name)) []
      (readings o policy second)
    have names (name : String) :
        ((ofHeader o policy first).functions.map (·.name)).contains name =
          ((sift o.previewLength [] (readings o policy first)).1.map (·.name)).contains name :=
      ((List.mergeSort_perm _ nameLe).map _).contains_eq
    rw [functions_ofHeader]
    rw [List.append_nil] at added
    rw [parts, sift_append, List.append_nil] at distinct ⊢
    refine mergeSort_nameLe_congr ?_ distinct
    simp only [newFunctions, names]
    rw [added, functions_ofHeader, functions_ofHeader]
    exact (List.mergeSort_perm _ nameLe).symm.append
      ((List.mergeSort_perm _ nameLe).symm.filter _)
  · rw [diagnostics_ofHeader, diagnostics_ofHeader, parts, sift_append]
    exact List.prefix_append _ _

/-- A header behind one that ends in a semicolon, with no comment left open, adds its candidates
behind those of the first, and its new functions. -/
theorem build_append (o : Options) (first second : String) (valid : o.validate = .ok ())
    (closed : Header.isClosed first.toList = true)
    (ends : Header.EndsStatement (Header.stripComments first.toList)) :
    Header.candidates (.forWrapper o.wrapperMacro) o.wrapperMacro.toList
        (first ++ "\n" ++ second).toList =
      Header.candidates (.forWrapper o.wrapperMacro) o.wrapperMacro.toList first.toList ++
        Header.candidates (.forWrapper o.wrapperMacro) o.wrapperMacro.toList second.toList ∧
    ∃ m n both, build o first = .ok m ∧ build o second = .ok n ∧
      build o (first ++ "\n" ++ second) = .ok both ∧ Composes m n both := by
  obtain ⟨c, cs, named, words⟩ := Options.wrapperMacro_of_valid valid
  have free : ';' ∉ o.wrapperMacro.toList := Options.not_mem_wrapperMacro valid (by decide)
  have text : (first ++ "\n" ++ second).toList = first.toList ++ '\n' :: second.toList := by
    simp
  have parts := Header.candidates_append (Header.Policy.forWrapper_separable free) named
    (Text.isWord_of_isAsciiWord (words c (by simp))) free closed ends
    (show Text.isBlank '\n' = true by decide) second.toList
  rw [← text] at parts
  have read : readings o (.forWrapper o.wrapperMacro) (first ++ "\n" ++ second) =
      readings o (.forWrapper o.wrapperMacro) first ++
        readings o (.forWrapper o.wrapperMacro) second := by
    rw [readings, parts, List.map_append]
    rfl
  exact ⟨parts, _, _, _, buildWith_valid valid _ first, buildWith_valid valid _ second,
    buildWith_valid valid _ _, ofHeader_composes o _ read⟩

/-- The second header declares a function of the first again, and leaves a comment open. -/
theorem build_append_comment :
    let first := "ext_def(int) f(int x); ext_def(int) g(int); /* ; */ "
    let second := "ext_def(int) f(void); ext_def(int) a(void); /* ext_def(int) b(void);"
    ({} : Options).validate = .ok () ∧ Header.isClosed first.toList = true ∧
      Header.EndsStatement (Header.stripComments first.toList) ∧
      ∃ m n both, build {} first = .ok m ∧ build {} second = .ok n ∧
        build {} (first ++ "\n" ++ second) = .ok both ∧ Composes m n both := by
  intro first second
  have closed : Header.isClosed first.toList = true := by decide +kernel
  have ends : Header.EndsStatement (Header.stripComments first.toList) :=
    ⟨"ext_def(int) f(int x); ext_def(int) g(int)".toList, [' ', ' '], by decide +kernel,
      Text.forall_mem_of_all (by decide)⟩
  exact ⟨rfl, closed, ends, (build_append {} first second rfl closed ends).2⟩

end HeaderBindings.Model
