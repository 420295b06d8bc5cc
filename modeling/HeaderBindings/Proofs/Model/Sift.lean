import Mathlib.Data.List.Sort
import HeaderBindings.Model.Build

set_option autoImplicit false

namespace HeaderBindings

namespace Reading

def declares (name : String) (r : Reading) : Bool :=
  match r.result with
  | .ok f => f.name == name
  | .error _ => false

theorem declares_ok {r : Reading} {f : Function} (read : r.result = .ok f) (name : String) :
    r.declares name = (f.name == name) := by
  simp only [declares, read]

theorem declares_error {r : Reading} {reason : Malformed} (failed : r.result = .error reason)
    (name : String) : r.declares name = false := by
  simp only [declares, failed]

/-- What is reported about a reading that comes after some others: nothing about the first
declaration of a name, else why it is not in the model and how its candidate begins. -/
def report (length : UInt64) (earlier : List Reading) (r : Reading) : Option Diagnostic :=
  let preview := String.ofList (r.candidate.take length.toNat)
  match r.result with
  | .error reason => some ⟨"malformed-signature", reason.message, preview⟩
  | .ok f =>
    if earlier.any (declares f.name) then
      some ⟨"duplicate-function", "duplicate declaration of '" ++ f.name ++ "'", preview⟩
    else none

end Reading

namespace Model

open Reading (declares report)

/-- The names already seen are those that the readings before declare. -/
def SeenBy (seen : List String) (earlier : List Reading) : Prop :=
  ∀ name, seen.contains name = earlier.any (declares name)

theorem seenBy_nil : SeenBy [] [] := fun _ => rfl

theorem SeenBy.skip {seen : List String} {earlier : List Reading} {r : Reading}
    (known : SeenBy seen earlier) (silent : ∀ name, r.declares name = true → name ∈ seen) :
    SeenBy seen (earlier ++ [r]) := by
  intro name
  rw [List.any_append, ← known name]
  cases declared : r.declares name with
  | false => simp [declared]
  | true => simp [declared, silent name declared]

theorem SeenBy.add {seen : List String} {earlier : List Reading} {r : Reading} {f : Function}
    (known : SeenBy seen earlier) (read : r.result = .ok f) :
    SeenBy (f.name :: seen) (earlier ++ [r]) := by
  intro name
  rw [List.any_append, ← known name, List.contains_cons, Bool.or_comm]
  simp only [List.any_cons, List.any_nil, Bool.or_false, Reading.declares_ok read,
    BEq.comm (a := name)]

theorem sift_error (length : UInt64) (seen : List String) {r : Reading} (rest : List Reading)
    {reason : Malformed} (failed : r.result = .error reason) :
    sift length seen (r :: rest) =
      ((sift length seen rest).1,
        .malformed length r.candidate reason :: (sift length seen rest).2) := by
  simp only [sift, failed]

theorem sift_known (length : UInt64) {seen : List String} {r : Reading} (rest : List Reading)
    {f : Function} (read : r.result = .ok f) (known : seen.contains f.name = true) :
    sift length seen (r :: rest) =
      ((sift length seen rest).1,
        .duplicate length r.candidate f.name :: (sift length seen rest).2) := by
  simp only [sift, read, known, ↓reduceIte]

theorem sift_new (length : UInt64) {seen : List String} {r : Reading} (rest : List Reading)
    {f : Function} (read : r.result = .ok f) (new : seen.contains f.name = false) :
    sift length seen (r :: rest) =
      (f :: (sift length (f.name :: seen) rest).1, (sift length (f.name :: seen) rest).2) := by
  simp only [sift, read, new, Bool.false_eq_true, ↓reduceIte]

theorem sift_cons_cases (seen : List String) (r : Reading) :
    (∃ reason, r.result = .error reason) ∨
      (∃ f, r.result = .ok f ∧ seen.contains f.name = true) ∨
      ∃ f, r.result = .ok f ∧ seen.contains f.name = false := by
  cases read : r.result with
  | error reason => exact .inl ⟨reason, rfl⟩
  | ok f =>
      cases known : seen.contains f.name with
      | true => exact .inr (.inl ⟨f, rfl, known⟩)
      | false => exact .inr (.inr ⟨f, rfl, known⟩)

theorem declares_seen {seen : List String} {r : Reading} {f : Function}
    (read : r.result = .ok f) (known : seen.contains f.name = true) (name : String)
    (declared : r.declares name = true) : name ∈ seen := by
  rw [Reading.declares_ok read, beq_iff_eq] at declared
  simpa [declared] using known

theorem sift_length (length : UInt64) (seen : List String) (readings : List Reading) :
    (sift length seen readings).1.length + (sift length seen readings).2.length =
      readings.length := by
  induction readings generalizing seen with
  | nil => rfl
  | cons r rest ih =>
      rcases sift_cons_cases seen r with ⟨reason, failed⟩ | ⟨f, read, known⟩ | ⟨f, read, new⟩
      · rw [sift_error length seen rest failed]
        have := ih seen
        simp only [List.length_cons]
        omega
      · rw [sift_known length rest read known]
        have := ih seen
        simp only [List.length_cons]
        omega
      · rw [sift_new length rest read new]
        have := ih (f.name :: seen)
        simp only [List.length_cons]
        omega

/-- The diagnostics are the reports about the readings, in their order. -/
theorem sift_diagnostics (length : UInt64) (seen : List String)
    (earlier readings : List Reading) (known : SeenBy seen earlier) :
    (sift length seen readings).2 =
      (List.range readings.length).filterMap fun i =>
        readings[i]?.bind (report length (earlier ++ readings.take i)) := by
  induction readings generalizing seen earlier with
  | nil => rfl
  | cons r rest ih =>
      -- The first reading's report comes from position 0, the others move up by one.
      have shift : ((List.range (rest.length + 1)).filterMap fun i =>
            (r :: rest)[i]?.bind (report length (earlier ++ (r :: rest).take i))) =
          (report length earlier r).toList ++
            (List.range rest.length).filterMap fun i =>
              rest[i]?.bind (report length (earlier ++ [r] ++ rest.take i)) := by
        rw [List.range_succ_eq_map, List.filterMap_cons, List.filterMap_map]
        cases first : report length earlier r <;>
          simp [first, Function.comp_def, List.append_assoc]
      rw [List.length_cons, shift]
      rcases sift_cons_cases seen r with ⟨reason, failed⟩ | ⟨f, read, old⟩ | ⟨f, read, new⟩
      · have next : SeenBy seen (earlier ++ [r]) :=
          known.skip fun name declared => by
            simp [Reading.declares_error failed] at declared
        rw [sift_error length seen rest failed, ih seen _ next]
        simp [report, failed, Diagnostic.malformed, Diagnostic.previewOf]
      · have next : SeenBy seen (earlier ++ [r]) := known.skip (declares_seen read old)
        rw [sift_known length rest read old, ih seen _ next]
        rw [known f.name] at old
        simp [report, read, old, Diagnostic.duplicate, Diagnostic.previewOf]
      · rw [sift_new length rest read new, ih _ _ (known.add read)]
        rw [known f.name] at new
        simp [report, read, new]

/-- The functions are the first declarations of their names. -/
theorem mem_sift_functions (length : UInt64) (seen : List String)
    (earlier readings : List Reading) (known : SeenBy seen earlier) (f : Function) :
    f ∈ (sift length seen readings).1 ↔
      ∃ i r, readings[i]? = some r ∧ r.result = .ok f ∧
        (earlier ++ readings.take i).any (declares f.name) = false := by
  induction readings generalizing seen earlier with
  | nil => simp [sift]
  | cons r rest ih =>
      -- A first declaration stands at the head or further on.
      have split : (∃ i s, (r :: rest)[i]? = some s ∧ s.result = .ok f ∧
            (earlier ++ (r :: rest).take i).any (declares f.name) = false) ↔
          (r.result = .ok f ∧ earlier.any (declares f.name) = false) ∨
            ∃ i s, rest[i]? = some s ∧ s.result = .ok f ∧
              (earlier ++ [r] ++ rest.take i).any (declares f.name) = false := by
        constructor
        · rintro ⟨_ | i, s, here, read, fresh⟩
          · simp only [List.getElem?_cons_zero, Option.some.injEq] at here
            subst here
            exact .inl ⟨read, by simpa using fresh⟩
          · exact .inr ⟨i, s, by simpa using here, read, by simpa using fresh⟩
        · rintro (⟨read, fresh⟩ | ⟨i, s, here, read, fresh⟩)
          · exact ⟨0, r, rfl, read, by simpa using fresh⟩
          · exact ⟨i + 1, s, by simpa using here, read, by simpa using fresh⟩
      rw [split]
      rcases sift_cons_cases seen r with ⟨reason, failed⟩ | ⟨g, read, old⟩ | ⟨g, read, new⟩
      · have next : SeenBy seen (earlier ++ [r]) :=
          known.skip fun name declared => by
            simp [Reading.declares_error failed] at declared
        rw [sift_error length seen rest failed, ih seen _ next]
        simp [failed]
      · have next : SeenBy seen (earlier ++ [r]) := known.skip (declares_seen read old)
        rw [sift_known length rest read old, ih seen _ next]
        rw [known g.name] at old
        constructor
        · exact .inr
        · rintro (⟨same, fresh⟩ | later)
          · rw [read, Except.ok.injEq] at same
            rw [same, fresh] at old
            cases old
          · exact later
      · rw [sift_new length rest read new, List.mem_cons, ih _ _ (known.add read)]
        rw [known g.name] at new
        constructor
        · rintro (rfl | later)
          · exact .inl ⟨read, new⟩
          · exact .inr later
        · rintro (⟨same, _⟩ | later)
          · rw [read, Except.ok.injEq] at same
            exact .inl same.symm
          · exact .inr later

theorem sift_names (length : UInt64) (seen : List String) (readings : List Reading) :
    ((sift length seen readings).1.map (·.name)).Nodup ∧
      ∀ f ∈ (sift length seen readings).1, f.name ∉ seen := by
  induction readings generalizing seen with
  | nil => simp [sift]
  | cons r rest ih =>
      rcases sift_cons_cases seen r with ⟨reason, failed⟩ | ⟨f, read, known⟩ | ⟨f, read, new⟩
      · rw [sift_error length seen rest failed]
        exact ih seen
      · rw [sift_known length rest read known]
        exact ih seen
      · obtain ⟨distinct, fresh⟩ := ih (f.name :: seen)
        have unseen : f.name ∉ seen := by simpa using new
        rw [sift_new length rest read new]
        refine ⟨?_, ?_⟩
        · simp only [List.map_cons, List.nodup_cons, List.mem_map, not_exists, not_and]
          refine ⟨fun g member same => ?_, distinct⟩
          exact fresh g member (by simp [same])
        · intro g member
          rcases List.mem_cons.mp member with rfl | member
          · exact unseen
          · exact fun old => fresh g member (List.mem_cons_of_mem _ old)

theorem nameLe_iff (f g : Function) : nameLe f g = true ↔ f.name ≤ g.name := by
  rw [nameLe, Bool.not_eq_true', decide_eq_false_iff_not]
  exact String.not_lt

/-- Functions of different names come out strictly in the order of their names. -/
theorem sorted_names (functions : List Function)
    (distinct : (functions.map (·.name)).Nodup) :
    (functions.mergeSort nameLe).Pairwise fun f g => f.name < g.name := by
  have order : (functions.mergeSort nameLe).Pairwise fun f g => nameLe f g = true := by
    apply List.pairwise_mergeSort
    · intro f g h first second
      rw [nameLe_iff] at first second ⊢
      exact String.le_trans first second
    · intro f g
      rw [Bool.or_eq_true, nameLe_iff, nameLe_iff]
      exact String.le_total f.name g.name
  have apart : (functions.mergeSort nameLe).Pairwise fun f g => f.name ≠ g.name := by
    have permuted : ((functions.mergeSort nameLe).map (·.name)).Nodup :=
      ((List.mergeSort_perm functions nameLe).map _).nodup_iff.mpr distinct
    exact List.pairwise_map.mp permuted
  refine (order.and apart).imp fun {f g} both => ?_
  rw [nameLe_iff] at both
  exact Std.lt_of_le_of_ne both.1 both.2

end Model

end HeaderBindings
