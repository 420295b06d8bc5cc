import HeaderBindings.Proofs.FileTree.Way

set_option autoImplicit false

namespace HeaderBindings.FileTree

theorem lookup_filter (keep : Location → Bool) (m : Location) (entries : List (Location × Entry)) :
    (entries.filter fun e => keep e.1).lookup m = if keep m then entries.lookup m else none := by
  induction entries with
  | nil => simp
  | cons e entries ih =>
      obtain ⟨k, entry⟩ := e
      cases same : m == k with
      | true =>
          rw [beq_iff_eq] at same
          subst same
          cases kept : keep m with
          | true => simp [kept]
          | false => simp [kept, ih]
      | false =>
          cases kept : keep k with
          | true =>
              rw [List.filter_cons_of_pos (by simp [kept]), List.lookup_cons, same, ih,
                List.lookup_cons, same]
          | false => rw [List.filter_cons_of_neg (by simp [kept]), ih, List.lookup_cons, same]

theorem entryAt?_set_of_ne (t : FileTree) {l m : Location} (e : Entry) (other : m ≠ l) :
    entryAt? (t.set l e) m = t.entryAt? m := by
  have differs : (m == l) = false := by simpa using other
  by_cases root : m = []
  · simp only [entryAt?, root, ↓reduceIte]
  · simp only [entryAt?, root, ↓reduceIte, set, List.lookup_cons, differs,
      lookup_filter fun k => decide (k ≠ l)]
    simp [other]

theorem entryAt?_set (t : FileTree) {l : Location} (e : Entry) (inside : l ≠ []) :
    entryAt? (t.set l e) l = some e := by
  simp [entryAt?, inside, set]

/-- Nothing is left at the location that is taken away, or below it. -/
theorem entryAt?_erase_inside (t : FileTree) {l m : Location} (inside : l ≠ []) (below : l <+: m) :
    entryAt? (t.erase l) m = none := by
  have other : m ≠ [] := by
    rintro rfl
    exact inside (List.prefix_nil.mp below)
  have gone : l.isPrefixOf m = true := List.isPrefixOf_iff_prefix.mpr below
  simp [entryAt?, other, erase, lookup_filter fun k => !l.isPrefixOf k, gone]

theorem entryAt?_erase_outside (t : FileTree) {l m : Location} (outside : ¬ l <+: m) :
    entryAt? (t.erase l) m = t.entryAt? m := by
  by_cases root : m = []
  · simp only [entryAt?, root, ↓reduceIte]
  · simp [entryAt?, root, erase, lookup_filter fun k => !l.isPrefixOf k, outside]

theorem agree_set (t : FileTree) (d : Location) (name : String) (e : Entry) :
    AgreeBeside t (t.set (d ++ [name]) e) d name := by
  intro l outside
  refine t.entryAt?_set_of_ne e ?_
  rintro rfl
  exact outside List.prefix_rfl

theorem agree_erase (t : FileTree) (d : Location) (name : String) :
    AgreeBeside t (t.erase (d ++ [name])) d name := fun _ => t.entryAt?_erase_outside

theorem exists_name {t : FileTree} {l : Location} (other : t.entryAt? l ≠ some .directory) :
    ∃ d name, l = d ++ [name] := by
  rcases List.eq_nil_or_concat l with rfl | ⟨d, name, same⟩
  · exact absurd rfl other
  · exact ⟨d, name, same.trans List.concat_eq_append⟩

section Paths

variable {t : FileTree} {path : String} {l : Location}

theorem locate_eq_ok :
    t.locate path = .ok l ↔
      checkPath path = .ok () ∧ t.resolve true maxLinks [] (Path.steps path) = .ok l := by
  unfold locate
  cases checkPath path with
  | error e => simp [bind, Except.bind]
  | ok _ => simp [bind, Except.bind]

theorem locateLink_eq_ok :
    t.locateLink path = .ok l ↔
      checkPath path = .ok () ∧ t.resolve false maxLinks [] (Path.steps path) = .ok l := by
  unfold locateLink
  cases checkPath path with
  | error e => simp [bind, Except.bind]
  | ok _ => simp [bind, Except.bind]

theorem locate_reached (located : t.locate path = .ok l) : Reached t l :=
  resolve_reached t.reached_root (locate_eq_ok.mp located).2

/-- A path leads to the same in both trees, or in both to the name, with the same names behind. -/
theorem locate_beside {s : FileTree} {d : Location} {name : String}
    (agree : AgreeBeside t s d name) (path : String) :
    Beside t s true d name (t.locate path) (s.locate path) := by
  cases valid : checkPath path with
  | error e =>
      simp only [locate, valid, bind, Except.bind]
      exact .inl ⟨rfl, nofun⟩
  | ok _ =>
      simp only [locate, valid, bind, Except.bind]
      exact resolve_beside agree true maxLinks [] (Path.steps path) (by simp)

theorem status_eq_ok {e : Entry} :
    t.status path = .ok (l, e) ↔ t.locate path = .ok l ∧ t.entryAt? l = some e := by
  unfold status
  cases t.locate path with
  | error fault => simp [bind, Except.bind]
  | ok m =>
      cases here : t.entryAt? m with
      | none =>
          simp only [bind, Except.bind, here, reduceCtorEq, Except.ok.injEq, false_iff, not_and]
          rintro rfl
          simp [here]
      | some entry =>
          simp only [bind, Except.bind, here, pure, Except.pure, Except.ok.injEq, Prod.mk.injEq]
          constructor
          · rintro ⟨rfl, rfl⟩
            exact ⟨rfl, here⟩
          · rintro ⟨rfl, there⟩
            rw [here, Option.some.injEq] at there
            exact ⟨rfl, there⟩

theorem readText_eq_ok {text : String} :
    t.readText path = .ok text ↔
      ∃ l content, t.status path = .ok (l, .file content) ∧
        String.fromUTF8? content = some text := by
  unfold readText
  cases t.status path with
  | error fault => simp [bind, Except.bind]
  | ok found =>
      obtain ⟨l, entry⟩ := found
      cases entry with
      | directory => simp [bind, Except.bind]
      | link target => simp [bind, Except.bind]
      | file content =>
          cases decoded : String.fromUTF8? content with
          | none => simp [bind, Except.bind, decoded]
          | some s =>
              simp only [bind, Except.bind, decoded, pure, Except.pure, Except.ok.injEq,
                Prod.mk.injEq, Entry.file.injEq]
              constructor
              · rintro rfl
                exact ⟨l, content, ⟨rfl, rfl⟩, decoded⟩
              · rintro ⟨_, _, ⟨rfl, rfl⟩, again⟩
                rw [decoded, Option.some.injEq] at again
                exact again

theorem readText_of_status {content : ByteArray} (status : t.status path = .ok (l, .file content))
    (text : String) : t.readText path = .ok text ↔ String.fromUTF8? content = some text := by
  rw [readText_eq_ok, status]
  constructor
  · rintro ⟨_, _, same, decoded⟩
    cases same
    exact decoded
  · intro decoded
    exact ⟨l, content, rfl, decoded⟩

theorem readText_of_locate {content : ByteArray} {text : String}
    (located : t.locate path = .ok l) (file : t.entryAt? l = some (.file content))
    (decoded : String.fromUTF8? content = some text) : t.readText path = .ok text :=
  (readText_of_status (status_eq_ok.mpr ⟨located, file⟩) text).mpr decoded

/-- What a way from the root cannot go on from: nothing is there, or a file. -/
def Free (t : FileTree) (l : Location) : Prop :=
  t.entryAt? l = none ∨ ∃ content, t.entryAt? l = some (.file content)

theorem Free.other (free : Free t l) : t.entryAt? l ≠ some .directory := by
  rcases free with missing | ⟨content, file⟩
  · simp [missing]
  · simp [file]

theorem Free.plain (free : Free t l) (target : String) : t.entryAt? l ≠ some (.link target) := by
  rcases free with missing | ⟨content, file⟩
  · simp [missing]
  · simp [file]

theorem write_eq_ok {written : FileTree} {content : ByteArray}
    (done : t.write path content = .ok written) :
    ∃ l, t.locate path = .ok l ∧ Free t l ∧ written = t.set l (.file content) := by
  unfold write at done
  cases valid : checkPath path with
  | error e => simp [valid, bind, Except.bind] at done
  | ok _ =>
      simp only [valid, bind, Except.bind] at done
      split at done
      · split at done <;> cases done
      rename_i plain
      cases arrived : t.resolve true maxLinks [] (Path.names path) with
      | error e => simp [arrived] at done
      | ok l =>
          have located : t.locate path = .ok l :=
            locate_eq_ok.mpr ⟨valid, by simpa [Path.steps, plain] using arrived⟩
          simp only [arrived] at done
          refine ⟨l, located, ?_⟩
          cases here : t.entryAt? l with
          | none =>
              rw [here] at done
              exact ⟨.inl here, (Except.ok.inj done).symm⟩
          | some entry =>
              cases entry with
              | directory => simp [here] at done
              | file old =>
                  rw [here] at done
                  exact ⟨.inr ⟨old, here⟩, (Except.ok.inj done).symm⟩
              | link target => exact absurd here ((locate_reached located).plain target)

theorem removeFile_eq_ok {removed : FileTree} :
    t.removeFile path = .ok removed ↔
      ∃ l e, t.locateLink path = .ok l ∧ t.entryAt? l = some e ∧ e ≠ .directory ∧
        removed = t.erase l := by
  unfold removeFile
  cases t.locateLink path with
  | error fault => simp [bind, Except.bind]
  | ok l =>
      cases here : t.entryAt? l with
      | none => simp [bind, Except.bind, here]
      | some entry => cases entry <;> simp [bind, Except.bind, pure, Except.pure, here, eq_comm]

end Paths

section Read

variable {t : FileTree} {path text : String} {l : Location}

/-- A file that is written changes nothing about where paths lead to. -/
theorem locate_set (free : Free t l) (content : ByteArray) (path : String) (m : Location) :
    locate (t.set l (.file content)) path = .ok m ↔ t.locate path = .ok m := by
  obtain ⟨d, name, rfl⟩ := exists_name free.other
  have agree := t.agree_set d name (.file content)
  have written : entryAt? (t.set (d ++ [name]) (.file content)) (d ++ [name]) =
      some (.file content) := t.entryAt?_set _ (by simp)
  rcases locate_beside agree path with ⟨same, _⟩ | ⟨fewer, rest, directory, ordinary, before, after⟩
  · rw [same]
  · rw [before, after, resolve_enter directory ordinary free.plain,
      resolve_enter (agree.directory directory) ordinary (by simp [written])]
    constructor
    · intro arrived
      obtain ⟨rfl, rfl⟩ := resolve_end (by simp [written]) arrived
      exact t.resolve_nil _ _ _
    · intro arrived
      obtain ⟨rfl, rfl⟩ := resolve_end free.other arrived
      exact resolve_nil _ _ _ _

/-- What is read at a path after a file was written: what was written, if the path leads there, and
else what could be read before. -/
theorem readText_set (free : Free t l) (content : ByteArray) :
    readText (t.set l (.file content)) path = .ok text ↔
      (t.locate path = .ok l ∧ String.fromUTF8? content = some text) ∨
        (t.locate path ≠ .ok l ∧ t.readText path = .ok text) := by
  obtain ⟨d, name, rfl⟩ := exists_name free.other
  have written : entryAt? (t.set (d ++ [name]) (.file content)) (d ++ [name]) =
      some (.file content) := t.entryAt?_set _ (by simp)
  constructor
  · intro read
    obtain ⟨m, found, status, decoded⟩ := readText_eq_ok.mp read
    obtain ⟨located, file⟩ := status_eq_ok.mp status
    rw [locate_set free] at located
    by_cases here : m = d ++ [name]
    · rw [here, written, Option.some.injEq, Entry.file.injEq] at file
      exact .inl ⟨here ▸ located, file ▸ decoded⟩
    · rw [t.entryAt?_set_of_ne _ here] at file
      refine .inr ⟨fun there => here ?_, readText_of_locate located file decoded⟩
      rw [located, Except.ok.injEq] at there
      exact there
  · rintro (⟨located, decoded⟩ | ⟨elsewhere, read⟩)
    · exact readText_of_locate ((locate_set free content path _).mpr located) written decoded
    · obtain ⟨m, found, status, decoded⟩ := readText_eq_ok.mp read
      obtain ⟨located, file⟩ := status_eq_ok.mp status
      have other : m ≠ d ++ [name] := by
        rintro rfl
        exact elsewhere located
      rw [← t.entryAt?_set_of_ne (.file content) other] at file
      exact readText_of_locate ((locate_set free content path m).mpr located) file decoded

/-- A text that can be read after an entry was taken away could be read before. -/
theorem readText_of_erase {e : Entry} (here : t.entryAt? l = some e) (other : e ≠ .directory)
    (read : readText (t.erase l) path = .ok text) : t.readText path = .ok text := by
  obtain ⟨d, name, rfl⟩ := exists_name (t := t) (l := l) (by simp [here, other])
  obtain ⟨m, content, status, decoded⟩ := readText_eq_ok.mp read
  obtain ⟨located, file⟩ := status_eq_ok.mp status
  have agree := t.agree_erase d name
  have gone : entryAt? (t.erase (d ++ [name])) (d ++ [name]) = none :=
    t.entryAt?_erase_inside (by simp) List.prefix_rfl
  rcases locate_beside agree path with
    ⟨same, outside⟩ | ⟨fewer, rest, directory, ordinary, _, after⟩
  · rw [same] at located
    rw [agree m (outside m located)] at file
    exact readText_of_locate located file decoded
  · rw [after, resolve_enter (agree.directory directory) ordinary (by simp [gone])] at located
    obtain ⟨_, rfl⟩ := resolve_end (by simp [gone]) located
    rw [gone] at file
    cases file

/-- A text that could be read before an entry was taken away can still be read, unless it is that of
the file which the entry led to. -/
theorem readText_erase {d x : Location} {name : String} {links : Nat} {content : ByteArray}
    (leads : t.resolve true links d [name] = .ok x) (target : t.entryAt? x = some (.file content))
    (read : t.readText path = .ok text) :
    readText (t.erase (d ++ [name])) path = .ok text ∨ String.fromUTF8? content = some text := by
  obtain ⟨m, found, status, decoded⟩ := readText_eq_ok.mp read
  obtain ⟨located, file⟩ := status_eq_ok.mp status
  have agree := t.agree_erase d name
  rcases locate_beside agree path with ⟨same, outside⟩ | ⟨fewer, rest, _, _, before, _⟩
  · rw [← agree m (outside m located)] at file
    exact .inl (readText_of_locate (same.trans located) file decoded)
  · -- The path goes through the entry, so it ends where that leads to.
    rw [before] at located
    rcases t.resolve_append true fewer d [name] rest (.inl rfl) with
      ⟨reason, _, fails⟩ | ⟨y, left, arrived, goes⟩
    · rw [List.singleton_append, located] at fails
      cases fails
    · have there := resolve_unique leads arrived
      subst there
      rw [List.singleton_append, located] at goes
      obtain ⟨_, rfl⟩ := resolve_end (by simp [target]) goes.symm
      rw [target, Option.some.injEq, Entry.file.injEq] at file
      exact .inr (file ▸ decoded)

theorem readText_removeFile {removed : FileTree} (done : t.removeFile path = .ok removed)
    {other : String} (read : removed.readText other = .ok text) : t.readText other = .ok text := by
  obtain ⟨l, e, _, here, file, rfl⟩ := removeFile_eq_ok.mp done
  exact readText_of_erase here file read

theorem readText_write {written : FileTree} {content : ByteArray}
    (done : t.write path content = .ok written) {other : String}
    (read : written.readText other = .ok text) :
    t.readText other = .ok text ∨ String.fromUTF8? content = some text := by
  obtain ⟨l, _, free, rfl⟩ := write_eq_ok done
  rcases (readText_set free content).mp read with ⟨_, decoded⟩ | ⟨_, before⟩
  · exact .inr decoded
  · exact .inl before

end Read

theorem fromUTF8?_toUTF8 (text : String) : String.fromUTF8? text.toUTF8 = some text := by
  have valid : text.toUTF8.IsValidUTF8 := text.isValidUTF8
  unfold String.fromUTF8?
  rw [dif_pos valid]
  rfl

end HeaderBindings.FileTree
