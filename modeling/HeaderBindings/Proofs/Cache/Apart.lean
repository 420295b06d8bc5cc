import HeaderBindings.Proofs.Cache.Entry

set_option autoImplicit false

namespace HeaderBindings.Cache

/-- The entry paths of two header paths do not lead to the same place. -/
def Apart (c : Cache) (t : FileTree) (p q : String) : Prop :=
  ∀ l, t.locate (c.entryPath p) = .ok l → t.locate (c.entryPath q) ≠ .ok l

section Frame

variable {c : Cache} {t : FileTree} {p q header other : String} {o r : Options}

/-- In a directory without symbolic links, every entry name has a place of its own. -/
theorem apart_of_entryName (unlinked : c.Unlinked t) (different : entryName p ≠ entryName q) :
    c.Apart t p q := by
  intro l here there
  obtain ⟨d, placed, _, _, rfl⟩ := locate_entry unlinked here
  obtain ⟨e, again, _, _, same⟩ := locate_entry unlinked there
  rw [placed, Except.ok.injEq] at again
  subst again
  exact different (List.singleton_inj.mp (List.append_cancel_left same))

/-- What is found depends on the entries that can be read only. -/
theorem get_congr {before after : FileTree}
    (same : ∀ text entry, Stored.ofText Stored.cacheEntry text = .ok entry →
      (after.readText (c.entryPath q) = .ok text ↔ before.readText (c.entryPath q) = .ok text)) :
    (c.get after q header o).1 = (c.get before q header o).1 := by
  refine Option.ext fun m => ?_
  rw [get_eq_some, get_eq_some]
  constructor
  · rintro ⟨text, read, decoded⟩
    exact ⟨text, (same text _ decoded).mp read, decoded⟩
  · rintro ⟨text, read, decoded⟩
    exact ⟨text, (same text _ decoded).mpr read, decoded⟩

theorem get_of_set_apart {stored : FileTree} {m : Model} (apart : c.Apart t p q)
    (done : c.set t p header o m = .ok stored) :
    (c.get stored q other r).1 = (c.get t q other r).1 := by
  obtain ⟨l, located, free, rfl⟩ := FileTree.write_eq_ok done
  refine get_congr fun text _ _ => ?_
  rw [FileTree.readText_set free]
  simp [apart l located]

/-- Where two header paths share an entry, what is stored for one is found for the other. -/
theorem get_of_set_shared {stored : FileTree} {m : Model}
    (shared : t.locate (c.entryPath q) = t.locate (c.entryPath p))
    (done : c.set t p header o m = .ok stored) : (c.get stored q header o).1 = some m := by
  simp [get, lookup_of_set header o done shared, Lookup.model?]

/-- A look for one header path leaves what is found for another one, also if they share an entry:
what it takes away is no entry for either. -/
theorem get_of_get : (c.get (c.get t p header o).2.1 q other r).1 = (c.get t q other r).1 := by
  rcases get_cases c t p header o with
    ⟨_, files⟩ | ⟨corrupt, fault, d, _, failed, holds, _, files⟩
  · rw [files]
  · rw [files]
    obtain ⟨e, here, file⟩ := holds.listed
    refine get_congr fun text entry decoded =>
      ⟨FileTree.readText_of_erase here file, fun before => ?_⟩
    refine (holds.readText_erase before).resolve_right ?_
    rintro rfl
    rw [failed] at decoded
    cases decoded

end Frame

/-- Storing a model for one header path changes what is found for another one if their entry paths
lead to one place, and only then. In a directory without symbolic links they do not, if the entry
names differ. A look changes it never. -/
theorem get_independent (c : Cache) (t : FileTree) (p q : String) :
    (c.Unlinked t → entryName p ≠ entryName q → c.Apart t p q) ∧
      (c.Apart t p q → ∀ stored header o m, c.set t p header o m = .ok stored →
        ∀ other r, (c.get stored q other r).1 = (c.get t q other r).1) ∧
      (¬ c.Apart t p q → ∀ stored header o m, c.set t p header o m = .ok stored →
        (c.get stored q header o).1 = some m) ∧
      ∀ header o other r,
        (c.get (c.get t p header o).2.1 q other r).1 = (c.get t q other r).1 := by
  refine ⟨apart_of_entryName, fun apart _ _ _ _ done _ _ => get_of_set_apart apart done,
    fun shared _ _ _ _ done => ?_, fun _ _ _ _ => get_of_get⟩
  simp only [Apart, Classical.not_forall, ne_eq, Classical.not_not] at shared
  obtain ⟨l, here, there⟩ := shared
  exact get_of_set_shared (there.trans here.symm) done

/-- Beside the entry of one header path, another one is stored, which a third header path shares. -/
theorem get_independent_siblings :
    let c : Cache := ⟨"cache"⟩
    let t : FileTree := { entries := [(["cache"], .directory)] }
    let m : Model := ⟨[], [], 0⟩
    let n : Model := ⟨[], [], 1⟩
    ∃ first second, c.set t "a/c" "" {} m = .ok first ∧ c.set first "a/b" "" {} n = .ok second ∧
      c.Unlinked first ∧ entryName "a/b" ≠ entryName "a/c" ∧
      (c.get second "a/c" "" {}).1 = some m ∧ ¬ c.Apart first "a/b" "a:b" ∧
      (c.get second "a:b" "" {}).1 = some n := by
  intro c t m n
  obtain ⟨first, second, done, again⟩ : ∃ first second,
      c.set t "a/c" "" {} m = .ok first ∧ c.set first "a/b" "" {} n = .ok second := by
    show ∃ first second,
      Cache.set ⟨"cache"⟩ { entries := [(["cache"], .directory)] } "a/c" "" {} _ = .ok first ∧
      Cache.set ⟨"cache"⟩ first "a/b" "" {} _ = .ok second
    exact ⟨_, _, rfl, rfl⟩
  have unlinked : c.Unlinked first := by
    obtain ⟨l, _, _, rfl⟩ := FileTree.write_eq_ok done
    intro d _ name target link
    have member := FileTree.mem_entries_of_entryAt? (by simp) link
    simp [FileTree.set, t] at member
  have different : entryName "a/b" ≠ entryName "a/c" := by decide
  have found : (c.get first "a/c" "" {}).1 = some m := get_of_set_shared rfl done
  have shared : ¬ c.Apart first "a/b" "a:b" := by
    obtain ⟨l, located, _⟩ := FileTree.write_eq_ok again
    exact fun apart => apart l located located
  obtain ⟨apart, kept, _⟩ := get_independent c first "a/b" "a/c"
  obtain ⟨_, _, given, _⟩ := get_independent c first "a/b" "a:b"
  refine ⟨first, second, done, again, unlinked, different, ?_, shared, given shared _ _ _ _ again⟩
  rw [kept (apart unlinked different) _ _ _ _ again]
  exact found

/-- Header paths that differ in a replaced character only share an entry, and so do two entries of
which one is a symbolic link to the other: what is stored for one is found for the other, where
nothing was found before. -/
theorem get_shared :
    let c : Cache := ⟨"cache"⟩
    let t : FileTree := { entries := [(["cache"], .directory)] }
    let linked : FileTree :=
      { entries := [(["cache"], .directory), (["cache", "b.json"], .link "a.json")] }
    let m : Model := ⟨[], [], 0⟩
    ("a/b" ≠ "a:b" ∧ (c.get t "a:b" "" {}).1 = none ∧
      ∃ stored, c.set t "a/b" "" {} m = .ok stored ∧ (c.get stored "a:b" "" {}).1 = some m) ∧
    entryName "a" ≠ entryName "b" ∧ (c.get linked "b" "" {}).1 = none ∧
      ∃ stored, c.set linked "a" "" {} m = .ok stored ∧ (c.get stored "b" "" {}).1 = some m := by
  intro c t linked m
  have missing : (c.get t "a:b" "" {}).1 = none := by
    show (Cache.get ⟨"cache"⟩ { entries := [(["cache"], .directory)] } "a:b" "" {}).1 = _
    rfl
  have broken : (c.get linked "b" "" {}).1 = none := by
    show (Cache.get ⟨"cache"⟩
      { entries := [(["cache"], .directory), (["cache", "b.json"], .link "a.json")] }
      "b" "" {}).1 = _
    rfl
  have target : linked.locate (c.entryPath "a") = .ok ["cache", "a.json"] := by
    show FileTree.locate
      { entries := [(["cache"], .directory), (["cache", "b.json"], .link "a.json")] }
      (Cache.entryPath ⟨"cache"⟩ "a") = _
    rfl
  have link : linked.locate (c.entryPath "b") = .ok ["cache", "a.json"] := by
    show FileTree.locate
      { entries := [(["cache"], .directory), (["cache", "b.json"], .link "a.json")] }
      (Cache.entryPath ⟨"cache"⟩ "b") = _
    rfl
  obtain ⟨stored, done⟩ : ∃ stored, c.set t "a/b" "" {} m = .ok stored := by
    show ∃ stored,
      Cache.set ⟨"cache"⟩ { entries := [(["cache"], .directory)] } "a/b" "" {} _ = .ok stored
    exact ⟨_, rfl⟩
  obtain ⟨followed, written⟩ : ∃ stored, c.set linked "a" "" {} m = .ok stored := by
    show ∃ stored, Cache.set ⟨"cache"⟩
      { entries := [(["cache"], .directory), (["cache", "b.json"], .link "a.json")] }
      "a" "" {} _ = .ok stored
    exact ⟨_, rfl⟩
  exact ⟨⟨by decide, missing, stored, done, get_of_set_shared rfl done⟩, by decide, broken,
    followed, written, get_of_set_shared (link.trans target.symm) written⟩

end HeaderBindings.Cache
