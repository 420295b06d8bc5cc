import HeaderBindings.Proofs.Model.Account

set_option autoImplicit false

namespace HeaderBindings.Model

section Search

variable {functions : Array Function} {name : String} {low high : Nat} {f : Function}

/-- What is found has the name and stands in the range, in whatever order the functions are. -/
theorem of_search (found : search functions name low high = some f) :
    ∃ i, low ≤ i ∧ i < high ∧ functions[i]? = some f ∧ f.name = name := by
  fun_induction search functions name low high with
  | case1 low high nonempty middle absent => cases found
  | case2 low high nonempty middle g here named =>
      cases found
      exact ⟨middle, by omega, by omega, here, named⟩
  | case3 low high nonempty middle g here other before ih =>
      obtain ⟨i, lower, upper, there, named⟩ := ih found
      exact ⟨i, by omega, upper, there, named⟩
  | case4 low high nonempty middle g here other behind ih =>
      obtain ⟨i, lower, upper, there, named⟩ := ih found
      exact ⟨i, lower, by omega, there, named⟩
  | case5 low high empty => cases found

theorem name_lt_name (sorted : functions.toList.Pairwise fun f g => f.name < g.name) {i j : Nat}
    {g : Function} (before : i < j) (here : functions[i]? = some f)
    (there : functions[j]? = some g) : f.name < g.name := by
  obtain ⟨inside, rfl⟩ := Array.getElem?_eq_some_iff.mp here
  obtain ⟨within, rfl⟩ := Array.getElem?_eq_some_iff.mp there
  exact List.pairwise_iff_getElem.mp sorted i j inside within before

/-- A function in the range is found, if the functions are sorted: each step keeps the half where it
stands. -/
theorem search_of_mem (sorted : functions.toList.Pairwise fun f g => f.name < g.name) {i : Nat}
    (lower : low ≤ i) (upper : i < high) (within : high ≤ functions.size)
    (here : functions[i]? = some f) : search functions f.name low high = some f := by
  fun_induction search functions f.name low high with
  | case1 low high nonempty middle absent =>
      rw [Array.getElem?_eq_none_iff] at absent
      omega
  | case2 low high nonempty middle g there named =>
      by_cases same : middle = i
      · rw [same, here] at there
        exact there.symm
      · -- Two positions with one name would be in order.
        have apart : f.name < f.name := by
          rcases Nat.lt_or_gt_of_ne same with before | behind
          · have order := name_lt_name sorted before there here
            rwa [named] at order
          · have order := name_lt_name sorted behind here there
            rwa [named] at order
        exact absurd apart (String.lt_irrefl _)
  | case3 low high nonempty middle g there other before ih =>
      apply ih _ upper within
      by_contra outside
      have order : f.name ≤ g.name := by
        rcases Nat.lt_or_eq_of_le (show i ≤ middle by omega) with left | same
        · exact Std.le_of_lt (name_lt_name sorted left here there)
        · rw [same, there, Option.some.injEq] at here
          exact here ▸ String.le_refl _
      exact absurd before (String.not_lt.mpr order)
  | case4 low high nonempty middle g there other behind ih =>
      apply ih lower _ (by omega)
      by_contra outside
      rcases Nat.lt_or_eq_of_le (show middle ≤ i by omega) with right | same
      · exact behind (name_lt_name sorted right there here)
      · rw [same, here, Option.some.injEq] at there
        exact other (congrArg Function.name there.symm)
  | case5 low high empty => omega

end Search

theorem function?_eq_some_iff {m : Model} (sorted : m.functions.Pairwise fun f g => f.name < g.name)
    (name : String) (f : Function) :
    m.function? name = some f ↔ f ∈ m.functions ∧ f.name = name := by
  constructor
  · intro found
    obtain ⟨i, _, _, here, named⟩ := of_search found
    refine ⟨?_, named⟩
    rw [List.getElem?_toArray] at here
    exact List.mem_of_getElem? here
  · rintro ⟨member, rfl⟩
    obtain ⟨i, here⟩ := List.mem_iff_getElem?.mp member
    obtain ⟨inside, _⟩ := List.getElem?_eq_some_iff.mp here
    apply search_of_mem (by simpa using sorted) (Nat.zero_le i) (by simpa using inside)
      (Nat.le_refl _)
    rwa [List.getElem?_toArray]

/-- The names of a model are those that its candidates declare: the first that declares a name gives
the function. -/
theorem exists_function_iff (o : Options) (policy : Header.Policy) (header name : String) :
    (∃ f ∈ (ofHeader o policy header).functions, f.name = name) ↔
      ∃ candidate ∈ Header.candidates policy o.wrapperMacro.toList header.toList, ∃ f,
        Function.ofCandidate o.wrapperMacro.toList candidate = .ok f ∧ f.name = name := by
  constructor
  · rintro ⟨f, member, named⟩
    obtain ⟨i, candidate, here, read, _⟩ := (mem_functions_ofHeader o policy header f).mp member
    exact ⟨candidate, List.mem_of_getElem? here, f, read, named⟩
  · intro declared
    have somewhere : ∃ (i : Nat) (candidate : List Char) (f : Function),
        (Header.candidates policy o.wrapperMacro.toList header.toList)[i]? = some candidate ∧
          Function.ofCandidate o.wrapperMacro.toList candidate = .ok f ∧ f.name = name := by
      obtain ⟨candidate, member, f, read, named⟩ := declared
      obtain ⟨i, here⟩ := List.mem_iff_getElem?.mp member
      exact ⟨i, candidate, f, here, read, named⟩
    classical
    obtain ⟨candidate, f, here, read, rfl⟩ := Nat.find_spec somewhere
    refine ⟨f, ?_, rfl⟩
    refine (mem_functions_ofHeader o policy header f).mpr ⟨_, candidate, here, read, ?_⟩
    intro earlier member g again same
    obtain ⟨j, before, there⟩ := List.mem_take_iff_getElem.mp member
    refine Nat.find_min somewhere (m := j) (by omega) ⟨earlier, g, ?_, again, same⟩
    rw [List.getElem?_eq_some_iff]
    exact ⟨by omega, there⟩

/-- Looking up a name in the model of a header is exact, whatever the rules of the policy do: what
is found is the function of that name, and only a name that no candidate declares is not found. -/
theorem function?_buildWith (o : Options) (policy : Header.Policy) (header name : String)
    (valid : o.validate = .ok ()) :
    ∃ m, buildWith o policy header = .ok m ∧
      (∀ f, m.function? name = some f ↔ f ∈ m.functions ∧ f.name = name) ∧
      (m.function? name = none ↔
        ∀ candidate ∈ Header.candidates policy o.wrapperMacro.toList header.toList, ∀ f,
          Function.ofCandidate o.wrapperMacro.toList candidate = .ok f → f.name ≠ name) := by
  have found := function?_eq_some_iff (sorted_ofHeader o policy header) name
  refine ⟨_, buildWith_valid valid policy header, found, ?_⟩
  have known : (ofHeader o policy header).function? name = none ↔
      ¬ ∃ f ∈ (ofHeader o policy header).functions, f.name = name := by
    rw [Option.eq_none_iff_forall_ne_some]
    simp only [ne_eq, found, not_exists]
  rw [known, exists_function_iff]
  simp only [not_exists, not_and, ne_eq]

/-- Four names, of which two begin alike, two differ in case, and one is outside of ASCII. -/
theorem function?_buildWith_prefixes :
    let header := "ext_def(int) é(int x); ext_def(int) ab(int x); ext_def(int) Ab(int x); " ++
      "ext_def(int) a(int x);"
    ({} : Options).validate = .ok () ∧
      ∃ m, buildWith {} .standard header = .ok m ∧
        (∀ f, m.function? "a" = some f ↔ f ∈ m.functions ∧ f.name = "a") ∧
        (m.function? "a" = none ↔
          ∀ candidate ∈ Header.candidates .standard "ext_def".toList header.toList, ∀ f,
            Function.ofCandidate "ext_def".toList candidate = .ok f → f.name ≠ "a") := by
  intro header
  exact ⟨rfl, function?_buildWith {} .standard header "a" rfl⟩

end HeaderBindings.Model
