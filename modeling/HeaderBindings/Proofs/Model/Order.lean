import HeaderBindings.Proofs.Model.Compose

set_option autoImplicit false

namespace HeaderBindings.Model

def declared (readings : List Reading) : List Function :=
  readings.filterMap fun r => r.result.toOption

/-- Functions of one name are one function. -/
def Consistent (functions : List Function) : Prop :=
  ∀ f ∈ functions, ∀ g ∈ functions, f.name = g.name → f = g

theorem Consistent.perm {functions others : List Function} (consistent : Consistent functions)
    (same : functions.Perm others) : Consistent others :=
  fun f here g there => consistent f (same.mem_iff.mpr here) g (same.mem_iff.mpr there)

theorem Consistent.tail {f : Function} {functions : List Function}
    (consistent : Consistent (f :: functions)) : Consistent functions :=
  fun g here h there =>
    consistent g (List.mem_cons_of_mem f here) h (List.mem_cons_of_mem f there)

theorem declared_error {r : Reading} {reason : Malformed} (failed : r.result = .error reason)
    (rest : List Reading) : declared (r :: rest) = declared rest := by
  simp [declared, failed, Except.toOption]

theorem declared_ok {r : Reading} {f : Function} (read : r.result = .ok f)
    (rest : List Reading) : declared (r :: rest) = f :: declared rest := by
  simp [declared, read, Except.toOption]

/-- The first function of each name that was not seen. -/
def firsts (seen : List String) : List Function → List Function
  | [] => []
  | f :: fs => if seen.contains f.name then firsts seen fs else f :: firsts (f.name :: seen) fs

/-- Sifting keeps the first declaration of each name, whatever else is read. -/
theorem sift_functions (length : UInt64) (seen : List String) (readings : List Reading) :
    (sift length seen readings).1 = firsts seen (declared readings) := by
  induction readings generalizing seen with
  | nil => rfl
  | cons r rest ih =>
      rcases sift_cons_cases seen r with ⟨reason, failed⟩ | ⟨f, read, known⟩ | ⟨f, read, new⟩
      · rw [sift_error length seen rest failed, declared_error failed, ih]
      · rw [sift_known length rest read known, declared_ok read, firsts, known, ih]
        rfl
      · rw [sift_new length rest read new, declared_ok read, firsts, new, ih]
        rfl

theorem functions_of_declared {o : Options} {policy : Header.Policy} {first second : String}
    (same : declared (readings o policy first) = declared (readings o policy second)) :
    (ofHeader o policy first).functions = (ofHeader o policy second).functions := by
  rw [functions_ofHeader, functions_ofHeader, sift_functions, sift_functions, same]

/-- Where declarations agree, sifting keeps every function declared whose name is new. -/
theorem mem_sift_of_consistent (length : UInt64) (seen : List String) {readings : List Reading}
    (consistent : Consistent (declared readings)) (f : Function) :
    f ∈ (sift length seen readings).1 ↔ f ∈ declared readings ∧ f.name ∉ seen := by
  induction readings generalizing seen with
  | nil => simp [sift, declared]
  | cons r rest ih =>
      rcases sift_cons_cases seen r with ⟨reason, failed⟩ | ⟨g, read, known⟩ | ⟨g, read, new⟩
      · rw [declared_error failed] at consistent ⊢
        rw [sift_error length seen rest failed]
        exact ih seen consistent
      · rw [declared_ok read] at consistent ⊢
        rw [sift_known length rest read known, ih seen consistent.tail, List.mem_cons]
        constructor
        · rintro ⟨later, unseen⟩
          exact ⟨.inr later, unseen⟩
        · rintro ⟨rfl | later, unseen⟩
          · exact absurd (List.contains_iff_mem.mp known) unseen
          · exact ⟨later, unseen⟩
      · rw [declared_ok read] at consistent ⊢
        rw [sift_new length rest read new]
        simp only [List.mem_cons, ih _ consistent.tail, not_or]
        constructor
        · rintro (rfl | ⟨later, _, unseen⟩)
          · exact ⟨.inl rfl, by simpa using new⟩
          · exact ⟨.inr later, unseen⟩
        · rintro ⟨rfl | later, unseen⟩
          · exact .inl rfl
          · -- A later declaration of the same name is dropped, but it is the same function.
            by_cases same : f.name = g.name
            · exact .inl (consistent f (List.mem_cons_of_mem g later) g (by simp) same)
            · exact .inr ⟨later, same, unseen⟩

theorem sift_perm (length : UInt64) {readings others : List Reading}
    (same : readings.Perm others) (consistent : Consistent (declared readings)) :
    (sift length [] readings).1.Perm (sift length [] others).1 := by
  have moved : (declared readings).Perm (declared others) := same.filterMap _
  have first := (sift_names length [] readings).1.of_map
  have second := (sift_names length [] others).1.of_map
  refine (List.perm_ext_iff_of_nodup first second).mpr fun f => ?_
  rw [mem_sift_of_consistent length [] consistent,
    mem_sift_of_consistent length [] (consistent.perm moved), moved.mem_iff]

/-- Two models that differ in their diagnostics at most, and not in how many these are. -/
structure Agrees (m n : Model) : Prop where
  functions : m.functions = n.functions
  count : m.candidateCount = n.candidateCount
  reported : m.diagnostics.length = n.diagnostics.length

theorem ofHeader_agrees (o : Options) (policy : Header.Policy) {first second : String}
    (same : (readings o policy first).Perm (readings o policy second))
    (consistent : Consistent (declared (readings o policy first))) :
    (ofHeader o policy first).Agrees (ofHeader o policy second) := by
  have functions :
      (ofHeader o policy first).functions = (ofHeader o policy second).functions := by
    rw [functions_ofHeader, functions_ofHeader]
    exact mergeSort_nameLe_congr (sift_perm o.previewLength same consistent)
      (sift_names o.previewLength [] _).1
  refine ⟨functions, ?_, ?_⟩
  · rw [candidateCount_readings, candidateCount_readings, same.length_eq]
  · have left := total_readings o policy first
    have right := total_readings o policy second
    rw [functions, same.length_eq] at left
    omega

theorem readings_intercalate {o : Options} (valid : o.validate = .ok ()) {chunks : List String}
    (finished : ∀ chunk ∈ chunks, Header.Finished chunk.toList) :
    readings o (.forWrapper o.wrapperMacro) ("\n".intercalate chunks) =
      chunks.flatMap (readings o (.forWrapper o.wrapperMacro)) := by
  obtain ⟨c, cs, named, words⟩ := Options.wrapperMacro_of_valid valid
  have free : ';' ∉ o.wrapperMacro.toList := Options.not_mem_wrapperMacro valid (by decide)
  have text : ("\n".intercalate chunks).toList = ['\n'].intercalate (chunks.map String.toList) :=
    String.toList_intercalate
  have parts := Header.candidates_intercalate (Header.Policy.forWrapper_separable free) named
    (Text.isWord_of_isAsciiWord (words c (by simp))) free
    (chunks.map String.toList) (by simpa using finished)
  rw [readings, text, parts, List.flatMap_map, List.map_flatMap]
  rfl

end HeaderBindings.Model
