import HeaderBindings.Proofs.Cache.Key
import HeaderBindings.Proofs.FileTree.Inside

set_option autoImplicit false

namespace HeaderBindings.Cache

open FileTree (Free Ordinary)

theorem entryName_ne (headerPath name : String) (short : name.length < 5) :
    entryName headerPath ≠ name := by
  intro same
  have extension : ".json".length = 5 := rfl
  have length := congrArg String.length same
  rw [entryName, String.length_append, extension] at length
  omega

theorem slash_not_mem_entryName (headerPath : String) : '/' ∉ (entryName headerPath).toList := by
  rw [entryName, String.toList_append, String.toList_ofList, List.mem_append, not_or]
  refine ⟨?_, by decide⟩
  rw [List.mem_map]
  rintro ⟨c, _, same⟩
  split at same
  · cases same
  · rename_i plain
    exact plain (.inl same)

/-- Whatever the header path is, its entry stands right in the directory. -/
theorem single_entryName (headerPath : String) : Path.Single (entryName headerPath) where
  occupied := entryName_ne headerPath "" (by decide)
  flat := slash_not_mem_entryName headerPath
  proper := ⟨entryName_ne headerPath "." (by decide), entryName_ne headerPath ".." (by decide)⟩

section Look

variable {c : Cache} {t : FileTree} {headerPath header : String} {o : Options} {text : String}

theorem lookup_of_text (read : t.readText (c.entryPath headerPath) = .ok text) :
    c.lookup t headerPath header o =
      match Stored.ofText Stored.cacheEntry text with
      | .error fault => .corrupt fault
      | .ok entry => if entry.hash = key o header then .hit entry.model else .stale := by
  have there : t.contains (c.entryPath headerPath) = true := by
    obtain ⟨l, content, status, _⟩ := FileTree.readText_eq_ok.mp read
    simp [FileTree.contains, status, Except.toOption]
  simp only [lookup]
  rw [there, read]
  rfl

theorem lookup_of_error (header : String) (o : Options) {e : FileError}
    (failed : t.readText (c.entryPath headerPath) = .error e) :
    c.lookup t headerPath header o = .absent ∨ c.lookup t headerPath header o = .unreadable := by
  simp only [lookup, failed]
  split
  · exact .inl rfl
  · exact .inr rfl

/-- What a hit gives was stored under the key of the header and options. -/
theorem lookup_eq_hit {m : Model} :
    c.lookup t headerPath header o = .hit m ↔
      ∃ text, t.readText (c.entryPath headerPath) = .ok text ∧
        Stored.ofText Stored.cacheEntry text = .ok ⟨key o header, m⟩ := by
  cases read : t.readText (c.entryPath headerPath) with
  | error e =>
      rcases lookup_of_error header o read with absent | unreadable
      · simp [absent]
      · simp [unreadable]
  | ok text =>
      rw [lookup_of_text read]
      cases decoded : Stored.ofText Stored.cacheEntry text with
      | error fault => simp [decoded]
      | ok entry =>
          obtain ⟨hash, model⟩ := entry
          simp only [Except.ok.injEq, exists_eq_left', decoded, CacheEntry.mk.injEq]
          by_cases same : hash = key o header
          · simp [same]
          · simp [same]

theorem get_eq_some {m : Model} :
    (c.get t headerPath header o).1 = some m ↔
      ∃ text, t.readText (c.entryPath headerPath) = .ok text ∧
        Stored.ofText Stored.cacheEntry text = .ok ⟨key o header, m⟩ := by
  rw [← lookup_eq_hit, get]
  cases c.lookup t headerPath header o <;> simp [Lookup.model?]

/-- What a look does to the files: if the entry file holds a text that is no entry, the name of the
file is taken away, and nothing is found; else they stay. -/
theorem get_cases (c : Cache) (t : FileTree) (headerPath header : String) (o : Options) :
    ((∀ text, t.readText (c.entryPath headerPath) = .ok text →
        ∃ entry, Stored.ofText Stored.cacheEntry text = .ok entry) ∧
      (c.get t headerPath header o).2.1 = t) ∨
    ∃ text fault d, t.readText (c.entryPath headerPath) = .ok text ∧
      Stored.ofText Stored.cacheEntry text = .error fault ∧
      t.Holds c.directory (entryName headerPath) text d ∧
      (c.get t headerPath header o).1 = none ∧
      (c.get t headerPath header o).2.1 = t.erase (d ++ [entryName headerPath]) := by
  simp only [get]
  cases read : t.readText (c.entryPath headerPath) with
  | error e =>
      refine .inl ⟨nofun, ?_⟩
      rcases lookup_of_error header o read with absent | unreadable
      · rw [absent]
        rfl
      · rw [unreadable]
        rfl
  | ok text =>
      rw [lookup_of_text read]
      cases decoded : Stored.ofText Stored.cacheEntry text with
      | ok entry =>
          refine .inl ⟨fun other same => ?_, ?_⟩
          · rw [← Except.ok.inj same]
            exact ⟨entry, decoded⟩
          · simp only
            split
            · rfl
            · rfl
      | error fault =>
          obtain ⟨d, holds⟩ := FileTree.exists_holds (single_entryName headerPath) read
          refine .inr ⟨text, fault, d, rfl, decoded, holds, rfl, ?_⟩
          simp only [afterLookup, entryPath]
          rw [holds.removeFile_eq]
          rfl

/-- After storing, a look for any header path with the same entry finds, under a key, what was
stored, or finds it stale. -/
theorem lookup_of_set {stored : FileTree} {m : Model} {q : String} (other : String) (p : Options)
    (done : c.set t headerPath header o m = .ok stored)
    (shared : t.locate (c.entryPath q) = t.locate (c.entryPath headerPath)) :
    c.lookup stored q other p = if key o header = key p other then .hit m else .stale := by
  obtain ⟨l, located, free, rfl⟩ := FileTree.write_eq_ok done
  have read := (FileTree.readText_set free _).mpr (.inl ⟨shared.trans located,
    FileTree.fromUTF8?_toUTF8 (Stored.toText Stored.cacheEntry ⟨key o header, m⟩)⟩)
  rw [lookup_of_text read, Stored.ofText_toText Stored.cacheEntry_lawful]

end Look

/-- No entry can be read back from the content of a file. -/
def Undecodable (content : ByteArray) : Prop :=
  ∀ text, String.fromUTF8? content = some text →
    ∃ fault, Stored.ofText Stored.cacheEntry text = .error fault

/-- No entry of the cache's directory is a symbolic link. -/
def Unlinked (c : Cache) (t : FileTree) : Prop :=
  ∀ d, t.place c.directory = .ok d → ∀ name target, t.entryAt? (d ++ [name]) ≠ some (.link target)

/-- The trees differ in one file at most, which is right in the directory, under a name of its own,
and which is a file or nothing before. -/
structure FileChanged (before after : FileTree) (d : Location) (name : String) : Prop where
  directory : before.entryAt? d = some .directory
  ordinary : Ordinary name
  flat : '/' ∉ name.toList
  free : Free before (d ++ [name])
  written : ∃ content, after.entryAt? (d ++ [name]) = some (.file content)
  frame : ∀ l, l ≠ d ++ [name] → after.entryAt? l = before.entryAt? l

theorem locate_entry {c : Cache} {t : FileTree} {headerPath : String} {l : Location}
    (unlinked : c.Unlinked t) (located : t.locate (c.entryPath headerPath) = .ok l) :
    ∃ d, t.place c.directory = .ok d ∧ t.entryAt? d = some .directory ∧
      Ordinary (entryName headerPath) ∧ l = d ++ [entryName headerPath] := by
  obtain ⟨d, links, placed, there, ordinary, arrived⟩ :=
    FileTree.locate_join (single_entryName headerPath) located
  rw [FileTree.resolve_enter there ordinary (unlinked d placed _), FileTree.resolve_nil,
    Except.ok.injEq] at arrived
  exact ⟨d, placed, there, ordinary, arrived.symm⟩

theorem fileChanged_set {c : Cache} {t stored : FileTree} {headerPath header : String} {o : Options}
    {m : Model} (unlinked : c.Unlinked t) (done : c.set t headerPath header o m = .ok stored) :
    ∃ d, t.place c.directory = .ok d ∧ FileChanged t stored d (entryName headerPath) := by
  obtain ⟨l, located, free, rfl⟩ := FileTree.write_eq_ok done
  obtain ⟨d, placed, there, ordinary, rfl⟩ := locate_entry unlinked located
  exact ⟨d, placed, there, ordinary, (single_entryName headerPath).flat, free,
    ⟨_, t.entryAt?_set _ (by simp)⟩, fun l other => t.entryAt?_set_of_ne _ other⟩

/-- In a directory without symbolic links, storing a model changes one file right in the directory.
Then a look under the same header path finds the model if header and options are the same, and
nothing if they are not, and changes no file. -/
theorem get_set (c : Cache) (t stored : FileTree) (headerPath header : String) (o : Options)
    (m : Model) (unlinked : c.Unlinked t) (done : c.set t headerPath header o m = .ok stored) :
    (∃ d, t.place c.directory = .ok d ∧ FileChanged t stored d (entryName headerPath)) ∧
      ∀ other p,
        (Digest.sha256 (keyBytes o header) = Digest.sha256 (keyBytes p other) →
          keyBytes o header = keyBytes p other) →
        (c.get stored headerPath other p).1 = (if other = header ∧ p = o then some m else none) ∧
          (c.get stored headerPath other p).2.1 = stored := by
  refine ⟨fileChanged_set unlinked done, fun other p free => ?_⟩
  have found := lookup_of_set other p done rfl
  have keys : key o header = key p other ↔ other = header ∧ p = o := by
    constructor
    · intro same
      obtain ⟨rfl, rfl⟩ := eq_of_keyBytes_eq (free same)
      exact ⟨rfl, rfl⟩
    · rintro ⟨rfl, rfl⟩
      rfl
  simp only [get, found, keys]
  by_cases same : other = header ∧ p = o
  · simp only [same, and_self, ↓reduceIte]
    exact ⟨rfl, rfl⟩
  · simp only [same, ↓reduceIte]
    exact ⟨rfl, rfl⟩

/-- A path out of the directory, and a file outside that must not be touched. -/
theorem get_set_outside :
    let c : Cache := ⟨"cache"⟩
    let t : FileTree := { entries := [(["cache"], .directory), (["h.json"], .file "keep".toUTF8)] }
    let m : Model := ⟨[], [⟨"malformed-signature", "\"ä\"", "ext_def(\n"⟩], 1⟩
    ∃ stored, c.Unlinked t ∧ c.set t "../h" "first" {} m = .ok stored ∧
      stored.entryAt? ["h.json"] = some (.file "keep".toUTF8) ∧
      (c.get stored "../h" "first" {}).1 = some m ∧
      (c.get stored "../h" "first" {}).2.1 = stored := by
  intro c t m
  have place : t.place c.directory = .ok ["cache"] := by
    show FileTree.place
      { entries := [(["cache"], .directory), (["h.json"], .file "keep".toUTF8)] } "cache" = _
    rfl
  have unlinked : c.Unlinked t := by
    intro d arrived name target link
    rw [place, Except.ok.injEq] at arrived
    subst arrived
    have member := FileTree.mem_entries_of_entryAt? (by simp) link
    simp [t] at member
  obtain ⟨stored, done⟩ : ∃ stored, c.set t "../h" "first" {} m = .ok stored := by
    show ∃ stored, Cache.set ⟨"cache"⟩
      { entries := [(["cache"], .directory), (["h.json"], .file "keep".toUTF8)] }
      "../h" "first" {} _ = .ok stored
    exact ⟨_, rfl⟩
  obtain ⟨⟨d, placed, changed⟩, found⟩ := get_set c t stored "../h" "first" {} m unlinked done
  refine ⟨stored, unlinked, done, ?_, ?_, ?_⟩
  · rw [place, Except.ok.injEq] at placed
    rw [← placed] at changed
    rw [changed.frame ["h.json"] (by simp)]
    rfl
  · simpa using (found "first" {} fun _ => rfl).1
  · exact (found "first" {} fun _ => rfl).2

section Invalidate

/-- The trees differ in one name only, which leads to no directory before, and to nothing after. -/
structure NameRemoved (before after : FileTree) (d : Location) (name : String) : Prop where
  listed : ∃ e, before.entryAt? (d ++ [name]) = some e ∧ e ≠ .directory
  gone : after.entryAt? (d ++ [name]) = none
  frame : ∀ l, ¬ d ++ [name] <+: l → after.entryAt? l = before.entryAt? l

/-- A look takes the entry file away exactly if it holds a text that is no entry. What is no text is
no entry either, but it stays. -/
theorem get_invalidates (c : Cache) (t : FileTree) (headerPath header : String) (o : Options) :
    (∀ l content, t.status (c.entryPath headerPath) = .ok (l, .file content) →
      Undecodable content →
        (c.get t headerPath header o).1 = none ∧
        (∀ text, String.fromUTF8? content = some text →
          (c.get t headerPath header o).2.1.contains (c.entryPath headerPath) = false ∧
          ∃ d, t.place c.directory = .ok d ∧
            NameRemoved t (c.get t headerPath header o).2.1 d (entryName headerPath)) ∧
        (String.fromUTF8? content = none → (c.get t headerPath header o).2.1 = t)) ∧
    ((∀ l content, t.status (c.entryPath headerPath) = .ok (l, .file content) →
        ¬ Undecodable content) →
      (c.get t headerPath header o).2.1 = t) := by
  constructor
  · intro l content status undecodable
    have reads := FileTree.readText_of_status status
    rcases get_cases c t headerPath header o with
      ⟨sound, files⟩ | ⟨text, fault, d, read, failed, holds, missed, files⟩
    · have bytes : String.fromUTF8? content = none := by
        cases decoded : String.fromUTF8? content with
        | none => rfl
        | some text =>
            obtain ⟨entry, found⟩ := sound text ((reads text).mpr decoded)
            obtain ⟨fault, failed⟩ := undecodable text decoded
            rw [found] at failed
            cases failed
      refine ⟨?_, by simp [bytes], fun _ => files⟩
      refine Option.eq_none_iff_forall_ne_some.mpr fun m hit => ?_
      obtain ⟨text, read, _⟩ := get_eq_some.mp hit
      rw [reads, bytes] at read
      cases read
    · have removed : NameRemoved t (t.erase (d ++ [entryName headerPath])) d
          (entryName headerPath) :=
        ⟨holds.listed, t.entryAt?_erase_inside (by simp) List.prefix_rfl,
          fun _ => t.entryAt?_erase_outside⟩
      rw [files]
      exact ⟨missed, fun _ _ => ⟨holds.contains_erase, d, holds.placed, removed⟩,
        by simp [(reads text).mp read]⟩
  · intro sound
    rcases get_cases c t headerPath header o with
      ⟨_, files⟩ | ⟨text, fault, d, read, failed, holds, missed, files⟩
    · exact files
    · obtain ⟨l, content, status, decoded⟩ := FileTree.readText_eq_ok.mp read
      refine absurd (fun other same => ?_) (sound l content status)
      rw [decoded, Option.some.injEq] at same
      exact ⟨fault, same ▸ failed⟩

/-- An entry file that is a text, but no JSON, is taken away, and where there is none, nothing
is. -/
theorem get_invalidates_text :
    let c : Cache := ⟨"cache"⟩
    let empty : FileTree := { entries := [(["cache"], .directory)] }
    let t : FileTree :=
      { entries := [(["cache"], .directory), (["cache", "h.json"], .file "not json".toUTF8)] }
    t.status (c.entryPath "h") = .ok (["cache", "h.json"], .file "not json".toUTF8) ∧
      Undecodable "not json".toUTF8 ∧ (c.get t "h" "" {}).1 = none ∧
      (c.get t "h" "" {}).2.1.contains (c.entryPath "h") = false ∧
      empty.status (c.entryPath "h") = .error .notFound ∧ (c.get empty "h" "" {}).2.1 = empty := by
  intro c empty t
  have status :
      t.status (c.entryPath "h") = .ok (["cache", "h.json"], .file "not json".toUTF8) := by
    show FileTree.status
      { entries := [(["cache"], .directory), (["cache", "h.json"], .file "not json".toUTF8)] }
      (Cache.entryPath ⟨"cache"⟩ "h") = _
    rfl
  have undecodable : Undecodable "not json".toUTF8 := by
    intro text read
    rw [FileTree.fromUTF8?_toUTF8, Option.some.injEq] at read
    rw [← read]
    exact ⟨.notJson, by rfl⟩
  obtain ⟨missed, gone, _⟩ := (get_invalidates c t "h" "" {}).1 _ _ status undecodable
  have absent : empty.status (c.entryPath "h") = .error .notFound := by
    show FileTree.status { entries := [(["cache"], .directory)] }
      (Cache.entryPath ⟨"cache"⟩ "h") = _
    rfl
  have kept := (get_invalidates c empty "h" "" {}).2 fun l content found => by
    rw [absent] at found
    cases found
  exact ⟨status, undecodable, missed, (gone _ (FileTree.fromUTF8?_toUTF8 _)).1, absent, kept⟩

/-- An entry file that is no text stays, though no entry can be read from it. -/
theorem get_keeps_bytes :
    let c : Cache := ⟨"cache"⟩
    let content : ByteArray := ⟨#[0xff]⟩
    let t : FileTree :=
      { entries := [(["cache"], .directory), (["cache", "h.json"], .file content)] }
    t.status (c.entryPath "h") = .ok (["cache", "h.json"], .file content) ∧ Undecodable content ∧
      c.get t "h" "" {} = (none, t, []) ∧ t.contains (c.entryPath "h") = true := by
  intro c content t
  have status : t.status (c.entryPath "h") = .ok (["cache", "h.json"], .file content) := by
    show FileTree.status
      { entries := [(["cache"], .directory), (["cache", "h.json"], .file ⟨#[0xff]⟩)] }
      (Cache.entryPath ⟨"cache"⟩ "h") = _
    rfl
  have decoded : String.fromUTF8? content = none := by
    show String.fromUTF8? ⟨#[0xff]⟩ = none
    rfl
  refine ⟨status, fun text read => ?_, ?_⟩
  · rw [decoded] at read
    cases read
  · have failed : t.readText (c.entryPath "h") = .error .notText := by
      simp only [FileTree.readText, status, decoded, bind, Except.bind]
    have there : t.contains (c.entryPath "h") = true := by
      simp [FileTree.contains, status, Except.toOption]
    refine ⟨?_, there⟩
    simp only [get, lookup]
    rw [there, failed]
    rfl

end Invalidate

end HeaderBindings.Cache
