import HeaderBindings.Proofs.Declaration.Read
import HeaderBindings.Proofs.Model.Sift

set_option autoImplicit false

namespace HeaderBindings

/-- A candidate with what reading it as a declaration of the wrapper macro gives. -/
def Reading.ofCandidate (wrapper candidate : List Char) : Reading :=
  ⟨candidate, Function.ofCandidate wrapper candidate⟩

namespace Model

/-- The model accounts for the candidates: how many there are, which of them are functions, and what
is reported about the others. -/
structure Accounts (o : Options) (candidates : List (List Char)) (m : Model) : Prop where
  count : m.candidateCount = UInt64.ofNat candidates.length
  count_exact : candidates.length < UInt64.size → m.candidateCount.toNat = candidates.length
  total : m.functions.length + m.diagnostics.length = candidates.length
  sorted : m.functions.Pairwise fun f g => f.name < g.name
  functions : ∀ f, f ∈ m.functions ↔
    ∃ i candidate, candidates[i]? = some candidate ∧
      Function.ofCandidate o.wrapperMacro.toList candidate = .ok f ∧
      ∀ earlier ∈ candidates.take i, ∀ g,
        Function.ofCandidate o.wrapperMacro.toList earlier = .ok g → g.name ≠ f.name
  diagnostics : m.diagnostics =
    let readings := candidates.map (Reading.ofCandidate o.wrapperMacro.toList)
    (List.range readings.length).filterMap fun i =>
      readings[i]?.bind (Reading.report o.previewLength (readings.take i))

def readings (o : Options) (policy : Header.Policy) (header : String) : List Reading :=
  (Header.candidates policy o.wrapperMacro.toList header.toList).map
    (Reading.ofCandidate o.wrapperMacro.toList)

theorem functions_ofHeader (o : Options) (policy : Header.Policy) (header : String) :
    (ofHeader o policy header).functions =
      (sift o.previewLength [] (readings o policy header)).1.mergeSort nameLe := rfl

theorem diagnostics_ofHeader (o : Options) (policy : Header.Policy) (header : String) :
    (ofHeader o policy header).diagnostics =
      (sift o.previewLength [] (readings o policy header)).2 := rfl

theorem candidateCount_ofHeader (o : Options) (policy : Header.Policy) (header : String) :
    (ofHeader o policy header).candidateCount =
      UInt64.ofNat (Header.candidates policy o.wrapperMacro.toList header.toList).length := rfl

theorem candidateCount_readings (o : Options) (policy : Header.Policy) (header : String) :
    (ofHeader o policy header).candidateCount =
      UInt64.ofNat (readings o policy header).length := by
  rw [candidateCount_ofHeader, readings, List.length_map]

theorem ofHeader_of_candidates (o : Options) (policy : Header.Policy) {header other : String}
    (same : Header.candidates policy o.wrapperMacro.toList header.toList =
      Header.candidates policy o.wrapperMacro.toList other.toList) :
    ofHeader o policy header = ofHeader o policy other := by
  simp only [ofHeader, same]

/-- Valid options always give the model of the header. -/
theorem buildWith_valid {o : Options} (valid : o.validate = .ok ()) (policy : Header.Policy)
    (header : String) : buildWith o policy header = .ok (ofHeader o policy header) := by
  simp only [buildWith, valid]

theorem declares_ofCandidate_eq_false (wrapper candidate : List Char) (name : String) :
    (Reading.ofCandidate wrapper candidate).declares name = false ↔
      ∀ g, Function.ofCandidate wrapper candidate = .ok g → g.name ≠ name := by
  cases read : Function.ofCandidate wrapper candidate with
  | error reason => simp [Reading.declares, Reading.ofCandidate, read]
  | ok f => simp [Reading.declares, Reading.ofCandidate, read]

theorem total_readings (o : Options) (policy : Header.Policy) (header : String) :
    (ofHeader o policy header).functions.length + (ofHeader o policy header).diagnostics.length =
      (readings o policy header).length := by
  rw [functions_ofHeader, diagnostics_ofHeader, List.length_mergeSort, sift_length]

theorem total_ofHeader (o : Options) (policy : Header.Policy) (header : String) :
    (ofHeader o policy header).functions.length + (ofHeader o policy header).diagnostics.length =
      (Header.candidates policy o.wrapperMacro.toList header.toList).length := by
  rw [total_readings, readings, List.length_map]

theorem sorted_ofHeader (o : Options) (policy : Header.Policy) (header : String) :
    (ofHeader o policy header).functions.Pairwise fun f g => f.name < g.name := by
  rw [functions_ofHeader]
  exact sorted_names _ (sift_names _ _ _).1

theorem names_ofHeader (o : Options) (policy : Header.Policy) (header : String) :
    ((ofHeader o policy header).functions.map (·.name)).Nodup := by
  rw [functions_ofHeader]
  exact ((List.mergeSort_perm _ nameLe).map _).nodup_iff.mpr (sift_names _ _ _).1

/-- A model with one function needs no sorting. -/
theorem functions_of_sift {o : Options} {policy : Header.Policy} {header : String} {f : Function}
    (single : (sift o.previewLength [] (readings o policy header)).1 = [f]) :
    (ofHeader o policy header).functions = [f] := by
  rw [functions_ofHeader, single, List.mergeSort_singleton]

/-- The functions of a model are the first declarations of their names. -/
theorem mem_functions_ofHeader (o : Options) (policy : Header.Policy) (header : String)
    (f : Function) :
    f ∈ (ofHeader o policy header).functions ↔
      ∃ i candidate,
        (Header.candidates policy o.wrapperMacro.toList header.toList)[i]? = some candidate ∧
        Function.ofCandidate o.wrapperMacro.toList candidate = .ok f ∧
        ∀ earlier ∈ (Header.candidates policy o.wrapperMacro.toList header.toList).take i, ∀ g,
          Function.ofCandidate o.wrapperMacro.toList earlier = .ok g → g.name ≠ f.name := by
  rw [functions_ofHeader, List.mem_mergeSort, mem_sift_functions _ _ [] _ seenBy_nil]
  simp only [readings, List.nil_append, List.getElem?_map, ← List.map_take, List.any_map,
    List.any_eq_false, Function.comp_apply, Bool.not_eq_true, declares_ofCandidate_eq_false]
  constructor
  · rintro ⟨i, r, here, read, fresh⟩
    obtain ⟨candidate, there, rfl⟩ := Option.map_eq_some_iff.mp here
    exact ⟨i, candidate, there, read, fresh⟩
  · rintro ⟨i, candidate, there, read, fresh⟩
    exact ⟨i, _, Option.map_eq_some_iff.mpr ⟨candidate, there, rfl⟩, read, fresh⟩

theorem exists_candidate_of_mem {o : Options} {policy : Header.Policy} {header : String}
    {m : Model} (built : buildWith o policy header = .ok m) {f : Function}
    (member : f ∈ m.functions) :
    ∃ candidate ∈ Header.candidates policy o.wrapperMacro.toList header.toList,
      Function.ofCandidate o.wrapperMacro.toList candidate = .ok f := by
  unfold buildWith at built
  split at built
  · cases built
  · cases built
    obtain ⟨_, candidate, here, read, _⟩ := (mem_functions_ofHeader o policy header f).mp member
    exact ⟨candidate, List.mem_of_getElem? here, read⟩

theorem isRead_of_buildWith {o : Options} {policy : Header.Policy} {header : String}
    {m : Model} (built : buildWith o policy header = .ok m) {f : Function}
    (member : f ∈ m.functions) : f.IsRead := by
  obtain ⟨candidate, _, read⟩ := exists_candidate_of_mem built member
  exact ⟨_, candidate, read⟩

/-- Under valid options a model is built, and no candidate is lost, counted twice or misfiled,
whatever the rules of the policy do to the header. -/
theorem buildWith_accounts (o : Options) (policy : Header.Policy) (header : String)
    (valid : o.validate = .ok ()) :
    ∃ m, buildWith o policy header = .ok m ∧
      Accounts o (Header.candidates policy o.wrapperMacro.toList header.toList) m := by
  refine ⟨_, buildWith_valid valid policy header, ?_⟩
  refine ⟨candidateCount_ofHeader o policy header, ?_, total_ofHeader o policy header,
    sorted_ofHeader o policy header, mem_functions_ofHeader o policy header, ?_⟩
  · intro small
    rw [candidateCount_ofHeader, UInt64.toNat_ofNat', Nat.mod_eq_of_lt small]
  · rw [diagnostics_ofHeader, sift_diagnostics _ _ [] _ seenBy_nil]
    simp only [List.nil_append, readings]

/-- A header with a malformed candidate, a declaration and a second one of the same function. -/
theorem buildWith_accounts_duplicate :
    ({} : Options).validate = .ok () ∧
      ∃ m, buildWith {} .standard
          "ext_def(int) g(int); ext_def(int) f(int x); ext_def(void) f(void);" = .ok m ∧
        Accounts {} (Header.candidates .standard "ext_def".toList
          "ext_def(int) g(int); ext_def(int) f(int x); ext_def(void) f(void);".toList) m :=
  ⟨rfl, buildWith_accounts {} .standard _ rfl⟩

end Model

end HeaderBindings
