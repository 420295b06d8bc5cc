import HeaderBindings.Proofs.Discovery.Way
import Mathlib.Data.String.Basic

/-!
What a search answers. The names of a directory are tried in order and the first answer is taken, so
the answer is the regular file whose names come first: all behind an earlier name come before all
behind a later one. A search may go as deep as a way has room.
-/

set_option autoImplicit false

namespace HeaderBindings.Discovery

variable {t : FileTree} {root name : String}

section Step

variable {path child : String} {above : List Location} {place next : Location}
  {below : Location → String → Option String}

theorem answer_directory (here : t.entryAt? (place ++ [child]) = some .directory)
    (status : t.status (Path.join path child) = .ok (next, .directory)) :
    answer t name above place path below child = below next (Path.join path child) := by
  simp only [answer, here, ask, status, isLink, Bool.false_and, Bool.false_eq_true, if_false]

theorem answer_link {target : String} (here : t.entryAt? (place ++ [child]) = some (.link target))
    (status : t.status (Path.join path child) = .ok (next, .directory)) :
    answer t name above place path below child =
      if next ∈ place :: above then none else below next (Path.join path child) := by
  simp only [answer, here, ask, status, isLink, Bool.true_and, List.contains_iff_mem]

end Step

/-- An answer is the path of the least list of names that is wanted, and there is none if nothing is
wanted. -/
def Least (wanted : List String → Prop) (path : List String → String) : Option String → Prop
  | none => ∀ names, ¬ wanted names
  | some found =>
    ∃ names, wanted names ∧ found = path names ∧ ∀ other, wanted other → ¬ other < names

section Children

variable {wanted : List String → Prop} {path : List String → String} {child : String}

theorem least_nil (here : wanted []) : Least wanted path (some (path [])) :=
  ⟨[], here, rfl, fun other _ => List.not_lt_nil other⟩

/-- The first answer in a list of names that is in order is the least of all. -/
theorem least_findSome? {children : List String} {answer : String → Option String}
    (sorted : children.Pairwise fun first second => ¬ second < first)
    (each : ∀ child ∈ children,
      Least (fun rest => wanted (child :: rest)) (fun rest => path (child :: rest)) (answer child))
    (starts : ∀ names, wanted names → ∃ child ∈ children, ∃ rest, names = child :: rest) :
    Least wanted path (children.findSome? answer) := by
  have missing {other : String} {rest : List String} (listed : other ∈ children)
      (none : answer other = none) : ¬ wanted (other :: rest) := by
    have nothing := each other listed
    rw [none] at nothing
    exact nothing rest
  cases result : children.findSome? answer with
  | none =>
      rw [List.findSome?_eq_none_iff] at result
      intro names want
      obtain ⟨other, listed, rest, rfl⟩ := starts names want
      exact missing listed (result other listed) want
  | some found =>
      obtain ⟨before, child, behind, rfl, here, skipped⟩ :=
        List.findSome?_eq_some_iff.mp result
      have least := each child (by simp)
      rw [here] at least
      obtain ⟨rest, want, path, first⟩ := least
      refine ⟨child :: rest, want, path, fun other wants less => ?_⟩
      obtain ⟨head, listed, others, rfl⟩ := starts other wants
      have inside := listed
      rw [List.mem_append, List.mem_cons] at listed
      rcases listed with early | rfl | late
      · exact missing inside (skipped head early) wants
      · rw [List.cons_lt_cons_iff] at less
        rcases less with less | ⟨-, less⟩
        · exact String.lt_irrefl head less
        · exact first others wants less
      · have order := (List.pairwise_append.mp sorted).2.1
        have later := (List.pairwise_cons.mp order).1 head late
        rw [List.cons_lt_cons_iff] at less
        rcases less with less | ⟨rfl, less⟩
        · exact later less
        · exact first others wants less

end Children

section Search

variable {names : List String} {above : List Location} {place : Location} {child : String}

theorem pairwise_names (t : FileTree) (place : Location) :
    (t.names place).Pairwise fun first second => ¬ second < first := by
  have sorted := @List.pairwise_mergeSort String (fun a b => !decide (b < a))
    (fun a b c => by
      simp only [Bool.not_eq_true', decide_eq_false_iff_not, not_lt]
      exact le_trans)
    (fun a b => by
      simp only [Bool.or_eq_true, Bool.not_eq_true', decide_eq_false_iff_not, not_lt]
      exact le_total a b)
  unfold FileTree.names
  refine (sorted _).imp fun less => ?_
  simpa using less

theorem mem_names {e : FileTree.Entry} (here : t.entryAt? (place ++ [child]) = some e) :
    child ∈ t.names place := by
  have member := FileTree.mem_entries_of_entryAt? (by simp) here
  unfold FileTree.names
  rw [List.mem_mergeSort, List.mem_filterMap]
  exact ⟨_, member, by simp⟩

theorem Regular.starts (way : Way t root names above place) {rest : List String}
    (found : Regular t root name (names ++ rest)) :
    ∃ child ∈ t.names place, ∃ others, rest = child :: others := by
  cases rest with
  | nil =>
      rw [List.append_nil] at found
      exact absurd found way.not_regular
  | cons child others =>
      refine ⟨child, ?_, others, rfl⟩
      rcases found.cons_inv way with
        ⟨_, _, ⟨content, file⟩ | ⟨target, next, content, link, _⟩⟩ | ⟨next, further⟩
      · exact mem_names file
      · exact mem_names link
      · obtain ⟨_, _, same, _, kind⟩ := further.concat_inv
        obtain ⟨rfl, rfl⟩ := List.cons.inj same
        rcases kind with directory | ⟨⟨target, link⟩, _⟩
        · exact mem_names directory
        · exact mem_names link

/-- The answer is the path of the least regular file at or behind the names. -/
def LeastAt (t : FileTree) (root name : String) (names : List String) : Option String → Prop :=
  Least (fun rest => Regular t root name (names ++ rest)) fun rest => pathOf root (names ++ rest)

theorem leastAt_concat {found : Option String} :
    LeastAt t root name (names ++ [child]) found ↔
      Least (fun rest => Regular t root name (names ++ child :: rest))
        (fun rest => pathOf root (names ++ child :: rest)) found := by
  simp only [LeastAt, List.append_assoc, List.singleton_append]

theorem least_leaf (way : Way t root names above place)
    (ends : ∀ next, ¬ Way t root (names ++ [child]) (place :: above) next)
    (found : child = name → Regular t root name (names ++ [child])) :
    LeastAt t root name (names ++ [child])
      (if child = name then some (pathOf root (names ++ [child])) else none) := by
  rw [leastAt_concat]
  by_cases wanted : child = name
  · rw [if_pos wanted]
    exact least_nil (found wanted)
  · rw [if_neg wanted]
    intro rest regular
    rcases regular.cons_inv way with ⟨same, _⟩ | ⟨next, further⟩
    · exact wanted same
    · exact ends next further

theorem least_none (way : Way t root names above place)
    (ends : ∀ next, ¬ Way t root (names ++ [child]) (place :: above) next)
    (nothing : child = name → ¬ Regular t root name (names ++ [child])) :
    LeastAt t root name (names ++ [child]) none := by
  rw [leastAt_concat]
  intro rest regular
  have whole := regular
  rcases regular.cons_inv way with ⟨same, empty, _⟩ | ⟨next, further⟩
  · rw [empty] at whole
    exact nothing same whole
  · exact ends next further

theorem Regular.concat_inv (way : Way t root names above place)
    (found : Regular t root name (names ++ [child])) :
    (∃ content, t.entryAt? (place ++ [child]) = some (.file content)) ∨
      ∃ next content, (∃ target, t.entryAt? (place ++ [child]) = some (.link target)) ∧
        t.status (pathOf root (names ++ [child])) = .ok (next, .file content) := by
  have whole := found
  rcases found.cons_inv way with
    ⟨_, _, file | ⟨target, next, content, link, status⟩⟩ | ⟨next, further⟩
  · exact .inl file
  · exact .inr ⟨next, content, ⟨target, link⟩, status⟩
  · exact absurd whole further.not_regular

theorem Way.step {next : Location}
    (further : Way t root (names ++ [child]) (place :: above) next) :
    t.entryAt? (place ++ [child]) = some .directory ∨
      (∃ target, t.entryAt? (place ++ [child]) = some (.link target)) ∧ next ∉ place :: above := by
  obtain ⟨_, _, same, _, kind⟩ := further.concat_inv
  obtain ⟨rfl, rfl⟩ := List.cons.inj same
  exact kind

section Answer

variable {below : Location → String → Option String}

theorem least_ask_directory (named : FileTree.Named t) (way : Way t root names above place)
    (here : t.entryAt? (place ++ [child]) = some .directory)
    (behind : ∀ next, Way t root (names ++ [child]) (place :: above) next →
      LeastAt t root name (names ++ [child]) (below next (pathOf root (names ++ [child])))) :
    LeastAt t root name (names ++ [child])
      (ask t (child = name) (place :: above) .directory (pathOf root (names ++ [child]))
        below) := by
  unfold ask
  cases status : t.status (pathOf root (names ++ [child])) with
  | error reason =>
      apply least_none way
      · intro next further
        simpa [status] using further.status
      · intro _ found
        simpa [here] using found.concat_inv way
  | ok there =>
      obtain ⟨next, e⟩ := there
      have same := way.enter_place (named.single here) here rfl status
      have kind := (FileTree.status_eq_ok.mp status).2
      rw [same, here, Option.some.injEq] at kind
      subst kind
      exact behind next (.enter way here status)

theorem least_ask_link (way : Way t root names above place) {target : String}
    (here : t.entryAt? (place ++ [child]) = some (.link target))
    (behind : ∀ next, Way t root (names ++ [child]) (place :: above) next →
      LeastAt t root name (names ++ [child]) (below next (pathOf root (names ++ [child])))) :
    LeastAt t root name (names ++ [child])
      (ask t (child = name) (place :: above) (.link target) (pathOf root (names ++ [child]))
        below) := by
  unfold ask
  cases status : t.status (pathOf root (names ++ [child])) with
  | error reason =>
      apply least_none way
      · intro next further
        simpa [status] using further.status
      · intro _ found
        simpa [here, status] using found.concat_inv way
  | ok there =>
      obtain ⟨next, e⟩ := there
      cases e with
      | link other =>
          obtain ⟨located, kind⟩ := FileTree.status_eq_ok.mp status
          exact absurd kind ((FileTree.locate_reached located).plain other)
      | file content =>
          simp only [decide_eq_true_eq]
          apply least_leaf way
          · intro next further
            simpa [status] using further.status
          · intro same
            subst same
            exact .link way here status
      | directory =>
          by_cases back : next ∈ place :: above
          · simp only [isLink, Bool.true_and, List.contains_iff_mem, back, if_true]
            apply least_none way
            · intro other further
              have same := further.status.symm.trans status
              simp only [Except.ok.injEq, Prod.mk.injEq, and_true] at same
              subst same
              simpa [here, back] using further.step
            · intro _ found
              simpa [here, status] using found.concat_inv way
          · simp only [isLink, Bool.true_and, List.contains_iff_mem, back, if_false]
            exact behind next (.follow way here status back)

/-- The answer for a name is the least regular file at or behind it. -/
theorem least_answer (named : FileTree.Named t) (way : Way t root names above place)
    (behind : ∀ next, Way t root (names ++ [child]) (place :: above) next →
      LeastAt t root name (names ++ [child]) (below next (pathOf root (names ++ [child])))) :
    LeastAt t root name (names ++ [child])
      (answer t name above place (pathOf root names) below child) := by
  simp only [answer, ← pathOf_concat]
  cases here : t.entryAt? (place ++ [child]) with
  | none =>
      apply least_none way
      · intro next further
        simpa [here] using further.step
      · intro _ found
        simpa [here] using found.concat_inv way
  | some entry =>
      cases entry with
      | file content =>
          apply least_leaf way
          · intro next further
            simpa [here] using further.step
          · intro same
            subst same
            exact .file way here
      | directory => exact least_ask_directory named way here behind
      | link target => exact least_ask_link way here behind

end Answer

/-- A search below a directory answers with the least regular file there, if it may go as deep as
the way has room. -/
theorem search_least (named : FileTree.Named t) (fuel : Nat)
    (way : Way t root names above place) (enough : room t above place < fuel) :
    LeastAt t root name names (search t name fuel above place (pathOf root names)) := by
  induction fuel generalizing names above place with
  | zero => omega
  | succ fuel ih =>
      rw [search]
      apply least_findSome? (pairwise_names t place)
      · intro child listed
        rw [← leastAt_concat]
        apply least_answer named way
        intro next further
        have less := way.room_lt named further
        exact ih further (by omega)
      · intro rest found
        exact found.starts way

end Search

theorem locate?_least (named : FileTree.Named t) (root name : String) :
    Least (Regular t root name) (pathOf root) (locate? t root name) := by
  have elsewhere {names : List String} (found : Regular t root name names)
      (other : ∀ place, t.status root ≠ .ok (place, .directory)) :
      names = [] ∧ Path.fileName root = name ∧
        ∃ place content, t.status root = .ok (place, .file content) := by
    have directory {front : List String} {above : List Location} {place : Location}
        (way : Way t root front above place) : False := by
      obtain ⟨_, first, start⟩ : ∃ above place, Way t root [] above place := Way.before way
      exact other first start.status
    cases found with
    | root status same => exact ⟨rfl, same, _, _, status⟩
    | file way here => exact (directory way).elim
    | link way here status => exact (directory way).elim
  unfold locate?
  cases status : t.status root with
  | error reason =>
      intro names found
      obtain ⟨_, _, _, _, file⟩ := elsewhere found (by simp [status])
      simp [status] at file
  | ok there =>
      obtain ⟨place, e⟩ := there
      cases e with
      | directory =>
          have room := room_lt_maxDepth t [] place
          simpa [LeastAt] using search_least named (maxDepth t) (.start status) room
      | link target =>
          obtain ⟨located, kind⟩ := FileTree.status_eq_ok.mp status
          exact absurd kind ((FileTree.locate_reached located).plain target)
      | file content =>
          by_cases same : Path.fileName root = name
          · simp only [same, if_true]
            exact least_nil (.root status same)
          · simp only [same, if_false]
            intro names found
            exact same (elsewhere found (by simp [status])).2.1

/-- Of two lists of names one is before the other, unless they are the same. -/
theorem Least.unique {wanted : List String → Prop} {path : List String → String}
    {found : String} {names : List String} (least : Least wanted path (some found))
    (want : wanted names) (first : ∀ other, wanted other → ¬ other < names) :
    found = path names := by
  obtain ⟨others, wants, rfl, before⟩ := least
  have same : others = names :=
    le_antisymm (not_lt.mp (before names want)) (not_lt.mp (first others wants))
  rw [same]

end HeaderBindings.Discovery
