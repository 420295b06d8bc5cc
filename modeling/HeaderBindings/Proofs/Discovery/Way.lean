import HeaderBindings.Discovery
import HeaderBindings.Proofs.FileTree.Named
import Mathlib.Data.Finset.Card
import Mathlib.Data.Finset.Insert
import Mathlib.Data.Finset.SDiff

set_option autoImplicit false

namespace HeaderBindings.Discovery

variable {t : FileTree} {root name : String}

def pathOf (root : String) (names : List String) : String := names.foldl Path.join root

@[simp] theorem pathOf_nil (root : String) : pathOf root [] = root := rfl

theorem pathOf_concat (root : String) (names : List String) (child : String) :
    pathOf root (names ++ [child]) = Path.join (pathOf root names) child := by
  simp [pathOf]

/-- The names lead from the root to the directory at `place`, through the directories `above`, the
last one first. A symbolic link is followed by its path, and only to where the way has not been. -/
inductive Way (t : FileTree) (root : String) : List String → List Location → Location → Prop
  | start {place : Location} (status : t.status root = .ok (place, .directory)) :
      Way t root [] [] place
  | enter {names : List String} {above : List Location} {place next : Location} {child : String}
      (way : Way t root names above place)
      (here : t.entryAt? (place ++ [child]) = some .directory)
      (status : t.status (pathOf root (names ++ [child])) = .ok (next, .directory)) :
      Way t root (names ++ [child]) (place :: above) next
  | follow {names : List String} {above : List Location} {place next : Location}
      {child target : String} (way : Way t root names above place)
      (here : t.entryAt? (place ++ [child]) = some (.link target))
      (status : t.status (pathOf root (names ++ [child])) = .ok (next, .directory))
      (new : next ∉ place :: above) :
      Way t root (names ++ [child]) (place :: above) next

/-- The names lead from the root to a regular file with the given name, or to a symbolic link with
that name whose path leads to one. -/
inductive Regular (t : FileTree) (root name : String) : List String → Prop
  | root {place : Location} {content : ByteArray}
      (status : t.status root = .ok (place, .file content)) (named : Path.fileName root = name) :
      Regular t root name []
  | file {names : List String} {above : List Location} {place : Location} {content : ByteArray}
      (way : Way t root names above place)
      (here : t.entryAt? (place ++ [name]) = some (.file content)) :
      Regular t root name (names ++ [name])
  | link {names : List String} {above : List Location} {place next : Location} {target : String}
      {content : ByteArray} (way : Way t root names above place)
      (here : t.entryAt? (place ++ [name]) = some (.link target))
      (status : t.status (pathOf root (names ++ [name])) = .ok (next, .file content)) :
      Regular t root name (names ++ [name])

section Unique

variable {names : List String} {above : List Location} {place : Location} {child : String}

theorem Way.status (way : Way t root names above place) :
    t.status (pathOf root names) = .ok (place, .directory) := by
  cases way with
  | start status => exact status
  | enter _ _ status => exact status
  | follow _ _ status _ => exact status

theorem Way.directory (way : Way t root names above place) :
    t.entryAt? place = some .directory :=
  (FileTree.status_eq_ok.mp way.status).2

theorem Way.nil_inv (way : Way t root [] above place) : above = [] := by
  generalize none : ([] : List String) = names at way
  cases way with
  | start status => rfl
  | enter way here status => simp at none
  | follow way here status new => simp at none

theorem Way.concat_inv {next : Location} (way : Way t root (names ++ [child]) above next) :
    ∃ others place, above = place :: others ∧ Way t root names others place ∧
      (t.entryAt? (place ++ [child]) = some .directory ∨
        (∃ target, t.entryAt? (place ++ [child]) = some (.link target)) ∧ next ∉ above) := by
  generalize same : names ++ [child] = steps at way
  cases way with
  | start status => simp at same
  | enter way here status =>
      obtain ⟨rfl, rfl⟩ : names = _ ∧ child = _ := by simpa using same
      exact ⟨_, _, rfl, way, .inl here⟩
  | follow way here status new =>
      obtain ⟨rfl, rfl⟩ : names = _ ∧ child = _ := by simpa using same
      exact ⟨_, _, rfl, way, .inr ⟨⟨_, here⟩, new⟩⟩

/-- Names lead to one place, through the same directories. -/
theorem Way.unique {others : List Location} {other : Location}
    (first : Way t root names above place) (second : Way t root names others other) :
    above = others ∧ place = other := by
  induction names using List.reverseRecOn generalizing above place others other with
  | nil =>
      have same := first.status.symm.trans second.status
      simp only [Except.ok.injEq, Prod.mk.injEq, and_true] at same
      exact ⟨first.nil_inv.trans second.nil_inv.symm, same⟩
  | append_singleton names child ih =>
      have same := first.status.symm.trans second.status
      simp only [Except.ok.injEq, Prod.mk.injEq, and_true] at same
      obtain ⟨above, place, rfl, before, _⟩ := first.concat_inv
      obtain ⟨others, other, rfl, again, _⟩ := second.concat_inv
      obtain ⟨rfl, rfl⟩ := ih before again
      exact ⟨rfl, same⟩

theorem Way.before {rest : List String} (way : Way t root (names ++ rest) above place) :
    ∃ others other, Way t root names others other := by
  induction rest using List.reverseRecOn generalizing above place with
  | nil => exact ⟨above, place, by simpa using way⟩
  | append_singleton rest child ih =>
      rw [← List.append_assoc] at way
      obtain ⟨others, other, _, shorter, _⟩ := way.concat_inv
      exact ih shorter

theorem Regular.cons_inv {rest : List String} (way : Way t root names above place)
    (found : Regular t root name (names ++ child :: rest)) :
    (child = name ∧ rest = [] ∧
        ((∃ content, t.entryAt? (place ++ [child]) = some (.file content)) ∨
          ∃ target next content, t.entryAt? (place ++ [child]) = some (.link target) ∧
            t.status (pathOf root (names ++ [child])) = .ok (next, .file content))) ∨
      ∃ next, Way t root (names ++ [child]) (place :: above) next := by
  have deeper {front : List String} {last : String} {others : List Location} {other : Location}
      (below : Way t root front others other) (same : names ++ child :: rest = front ++ [last]) :
      (child = last ∧ rest = [] ∧ front = names) ∨
        ∃ next, Way t root (names ++ [child]) (place :: above) next := by
    rcases List.eq_nil_or_concat rest with rfl | ⟨middle, final, rfl⟩
    · obtain ⟨rfl, rfl⟩ : names = front ∧ child = last := by simpa using same
      exact .inl ⟨rfl, rfl, rfl⟩
    · right
      have split : front = names ++ [child] ++ middle := by
        rw [List.concat_eq_append, ← List.cons_append, ← List.append_assoc] at same
        rw [← (List.append_inj' same rfl).1]
        simp
      rw [split] at below
      obtain ⟨_, next, shorter⟩ := below.before
      obtain ⟨_, _, rfl, again, _⟩ := shorter.concat_inv
      obtain ⟨rfl, rfl⟩ := way.unique again
      exact ⟨next, shorter⟩
  generalize same : names ++ child :: rest = steps at found
  cases found with
  | root status named => simp at same
  | file below here =>
      rcases deeper below same with ⟨rfl, rfl, rfl⟩ | further
      · obtain ⟨-, rfl⟩ := way.unique below
        exact .inl ⟨rfl, rfl, .inl ⟨_, here⟩⟩
      · exact .inr further
  | link below here status =>
      rcases deeper below same with ⟨rfl, rfl, rfl⟩ | further
      · obtain ⟨-, rfl⟩ := way.unique below
        exact .inl ⟨rfl, rfl, .inr ⟨_, _, _, here, status⟩⟩
      · exact .inr further

theorem Way.not_regular (way : Way t root names above place) : ¬ Regular t root name names := by
  intro found
  have status := way.status
  cases found with
  | root file named => simp [file] at status
  | file below here =>
      obtain ⟨_, _, rfl, again, kind⟩ := way.concat_inv
      obtain ⟨-, rfl⟩ := below.unique again
      rcases kind with directory | ⟨⟨target, link⟩, _⟩
      · simp [directory] at here
      · simp [link] at here
  | link below here file => simp [file] at status

end Unique

section Bound

variable {names : List String} {above : List Location} {place next : Location} {child : String}

def places (t : FileTree) : Finset Location := insert [] (t.entries.map Prod.fst).toFinset

theorem mem_places {l : Location} {e : FileTree.Entry} (here : t.entryAt? l = some e) :
    l ∈ places t := by
  by_cases top : l = []
  · simp [places, top]
  · have member := FileTree.mem_entries_of_entryAt? top here
    simp only [places, Finset.mem_insert, List.mem_toFinset, List.mem_map]
    exact .inr ⟨(l, e), member, rfl⟩

/-- A place that a path leads to is no deeper than there are entries, since all above it are
entries. -/
theorem depth_le {e : FileTree.Entry} (reached : FileTree.Reached t place)
    (here : t.entryAt? place = some e) : place.length ≤ t.entries.length := by
  have listed : ∀ k ∈ Finset.range place.length,
      place.take (k + 1) ∈ (t.entries.map Prod.fst).toFinset := by
    intro k within
    rw [Finset.mem_range] at within
    have inside : place.take (k + 1) ≠ [] := by
      intro empty
      have none := congrArg List.length empty
      simp only [List.length_take, List.length_nil] at none
      omega
    have there : ∃ entry, t.entryAt? (place.take (k + 1)) = some entry := by
      by_cases whole : place.take (k + 1) = place
      · rw [whole]
        exact ⟨e, here⟩
      · exact ⟨.directory, reached.above _ (List.take_prefix (k + 1) place) whole⟩
    obtain ⟨entry, there⟩ := there
    rw [List.mem_toFinset, List.mem_map]
    exact ⟨_, FileTree.mem_entries_of_entryAt? inside there, rfl⟩
  have apart : Set.InjOn (fun k => place.take (k + 1)) (Finset.range place.length) := by
    intro i first j second same
    simp only [Finset.coe_range, Set.mem_Iio] at first second
    have lengths := congrArg List.length same
    simp only [List.length_take] at lengths
    omega
  have count := Finset.card_le_card_of_injOn _ listed apart
  rw [Finset.card_range] at count
  have entries := List.toFinset_card_le (t.entries.map Prod.fst)
  rw [List.length_map] at entries
  omega

theorem Way.reached (way : Way t root names above place) : FileTree.Reached t place :=
  FileTree.locate_reached (FileTree.status_eq_ok.mp way.status).1

theorem Way.depth_le (way : Way t root names above place) :
    place.length ≤ t.entries.length :=
  Discovery.depth_le way.reached way.directory

theorem Way.enter_place (way : Way t root names above place) (single : Path.Single child)
    {target e : FileTree.Entry} (here : t.entryAt? (place ++ [child]) = some target)
    (plain : isLink target = false)
    (status : t.status (pathOf root (names ++ [child])) = .ok (next, e)) :
    next = place ++ [child] := by
  rw [pathOf_concat] at status
  have located := (FileTree.status_eq_ok.mp status).1
  obtain ⟨d, links, placed, there, ordinary, arrived⟩ := FileTree.locate_join single located
  have same := (FileTree.status_eq_directory.mp way.status).2.1
  rw [placed, Except.ok.injEq] at same
  subst same
  have unlinked : ∀ text, t.entryAt? (d ++ [child]) ≠ some (.link text) := by
    intro text link
    rw [here, Option.some.injEq] at link
    simp [link, isLink] at plain
  rw [FileTree.resolve_enter there ordinary unlinked, FileTree.resolve_nil,
    Except.ok.injEq] at arrived
  exact arrived.symm

/-- How many more names a way can have: a symbolic link leads to a place where it has not been, and
between two of them each name leads one deeper. -/
def room (t : FileTree) (above : List Location) (place : Location) : Nat :=
  (places t \ (place :: above).toFinset).card * (t.entries.length + 1) +
    (t.entries.length - place.length)

theorem room_enter (depth : next.length = place.length + 1)
    (bound : next.length ≤ t.entries.length) :
    room t (place :: above) next < room t above place := by
  have fewer : (places t \ (next :: place :: above).toFinset).card ≤
      (places t \ (place :: above).toFinset).card := by
    apply Finset.card_le_card
    apply Finset.sdiff_subset_sdiff (Finset.Subset.refl _)
    intro l member
    simp only [List.mem_toFinset] at member ⊢
    exact List.mem_cons_of_mem next member
  have product := Nat.mul_le_mul_right (t.entries.length + 1) fewer
  unfold room
  omega

theorem room_follow (there : next ∈ places t) (new : next ∉ place :: above) :
    room t (place :: above) next < room t above place := by
  have fewer : (places t \ (next :: place :: above).toFinset).card <
      (places t \ (place :: above).toFinset).card := by
    apply Finset.card_lt_card
    refine ⟨?_, fun back => ?_⟩
    · apply Finset.sdiff_subset_sdiff (Finset.Subset.refl _)
      intro l member
      simp only [List.mem_toFinset] at member ⊢
      exact List.mem_cons_of_mem next member
    · have kept := back (Finset.mem_sdiff.mpr ⟨there, by simpa using new⟩)
      simp at kept
  have product := Nat.mul_le_mul_right (t.entries.length + 1) (Nat.succ_le_of_lt fewer)
  rw [Nat.succ_mul] at product
  unfold room
  omega

/-- Each name takes away of the room for more. -/
theorem Way.room_lt (way : Way t root names above place) (named : FileTree.Named t)
    (further : Way t root (names ++ [child]) (place :: above) next) :
    room t (place :: above) next < room t above place := by
  obtain ⟨_, _, same, _, kind⟩ := further.concat_inv
  obtain ⟨rfl, rfl⟩ := List.cons.inj same
  rcases kind with directory | ⟨_, new⟩
  · have deeper := way.enter_place (named.single directory) directory rfl further.status
    refine room_enter ?_ further.depth_le
    rw [deeper]
    simp
  · exact room_follow (mem_places further.directory) new

theorem room_lt_maxDepth (t : FileTree) (above : List Location) (place : Location) :
    room t above place < maxDepth t := by
  have few : (places t \ (place :: above).toFinset).card ≤ t.entries.length + 1 := by
    have all := Finset.card_le_card (Finset.sdiff_subset (s := places t)
      (t := (place :: above).toFinset))
    have insert := Finset.card_insert_le ([] : Location) (t.entries.map Prod.fst).toFinset
    have entries := List.toFinset_card_le (t.entries.map Prod.fst)
    rw [List.length_map] at entries
    unfold places at all ⊢
    omega
  have product := Nat.mul_le_mul_right (t.entries.length + 1) few
  unfold room maxDepth
  have square : (t.entries.length + 2) * (t.entries.length + 2) =
      (t.entries.length + 1) * (t.entries.length + 1) + 2 * t.entries.length + 3 := by
    simp only [Nat.mul_add, Nat.add_mul]
    omega
  omega

end Bound

section Unlinked

variable {names : List String} {above : List Location} {place next : Location}

/-- Nothing stands in the way of a search from a root at `place`: there are no symbolic links, every
entry is in a directory, and no directory has a name or a path that is too long. -/
structure Unlinked (t : FileTree) (root : String) (place : Location) : Prop where
  start : t.status root = .ok (place, .directory)
  plain : ∀ l target, t.entryAt? l ≠ some (.link target)
  inside : ∀ l child e, t.entryAt? (l ++ [child]) = some e → t.entryAt? l = some .directory
  short : ∀ names child, t.entryAt? (place ++ names ++ [child]) = some .directory →
    child.utf8ByteSize ≤ FileTree.maxName
  paths : ∀ names, t.entryAt? (place ++ names) = some .directory →
    FileTree.checkPath (pathOf root names) = .ok ()

theorem Unlinked.place_eq (unlinked : Unlinked t root place) (named : FileTree.Named t)
    (way : Way t root names above next) : next = place ++ names := by
  induction way with
  | start status =>
      have same := status.symm.trans unlinked.start
      simp only [Except.ok.injEq, Prod.mk.injEq, and_true] at same
      rw [same, List.append_nil]
  | enter way here status ih =>
      rw [way.enter_place (named.single here) here rfl status, ih, List.append_assoc]
  | follow way here status new ih => exact absurd here (unlinked.plain _ _)

theorem Unlinked.exists_way (unlinked : Unlinked t root place) (named : FileTree.Named t)
    (here : t.entryAt? (place ++ names) = some .directory) :
    ∃ above, Way t root names above (place ++ names) := by
  induction names using List.reverseRecOn with
  | nil =>
      rw [List.append_nil]
      exact ⟨[], .start unlinked.start⟩
  | append_singleton names child ih =>
      have short := here
      rw [← List.append_assoc] at here short
      obtain ⟨above, way⟩ := ih (unlinked.inside _ _ _ here)
      obtain ⟨_, placed, there⟩ := FileTree.status_eq_directory.mp way.status
      have single := named.single here
      have valid := unlinked.paths (names ++ [child]) (by rw [← List.append_assoc, here])
      rw [pathOf_concat] at valid
      have located := FileTree.locate_plain single
        ⟨single.proper, unlinked.short names child here⟩ valid placed there (unlinked.plain _)
      rw [← pathOf_concat] at located
      rw [← List.append_assoc]
      exact ⟨_, .enter way here (FileTree.status_eq_ok.mpr ⟨located, here⟩)⟩

/-- Where nothing stands in the way, the regular files with a name are the files with that name in
all directories below the root. -/
theorem Unlinked.regular_iff (unlinked : Unlinked t root place) (named : FileTree.Named t) :
    Regular t root name names ↔
      ∃ front content, names = front ++ [name] ∧
        t.entryAt? (place ++ names) = some (.file content) := by
  constructor
  · intro found
    cases found with
    | root status same => simp [unlinked.start] at status
    | file way here =>
        rw [unlinked.place_eq named way, List.append_assoc] at here
        exact ⟨_, _, rfl, here⟩
    | link way here status => exact absurd here (unlinked.plain _ _)
  · rintro ⟨front, content, rfl, here⟩
    rw [← List.append_assoc] at here
    obtain ⟨above, way⟩ := unlinked.exists_way named (unlinked.inside _ _ _ here)
    exact .file way here

end Unlinked

end HeaderBindings.Discovery
