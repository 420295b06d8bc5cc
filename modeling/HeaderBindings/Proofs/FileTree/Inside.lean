import HeaderBindings.Proofs.FileTree.Change

set_option autoImplicit false

namespace HeaderBindings

namespace Path

theorem splitSlashes_ne_nil (cs : List Char) : splitSlashes cs ≠ [] := by
  cases cs with
  | nil => simp [splitSlashes]
  | cons c cs =>
      rw [splitSlashes]
      split
      · simp
      · split <;> simp

theorem splitSlashes_append (first second : List Char) :
    splitSlashes (first ++ '/' :: second) = splitSlashes first ++ splitSlashes second := by
  induction first with
  | nil => rfl
  | cons c first ih =>
      by_cases slash : c = '/'
      · simp [splitSlashes, slash, ih]
      · simp only [List.cons_append, splitSlashes, slash, ↓reduceIte, ih]
        cases pieces : splitSlashes first with
        | nil => exact absurd pieces (splitSlashes_ne_nil first)
        | cons name names => rfl

theorem splitSlashes_eq_singleton {cs : List Char} (free : '/' ∉ cs) : splitSlashes cs = [cs] := by
  induction cs with
  | nil => rfl
  | cons c cs ih =>
      have slash : c ≠ '/' := fun same => free (by simp [same])
      rw [splitSlashes, if_neg slash, ih fun member => free (List.mem_cons_of_mem c member)]

/-- A name that stands for one entry of a directory, in whatever path. -/
structure Single (name : String) : Prop where
  occupied : name ≠ ""
  flat : '/' ∉ name.toList
  proper : name ≠ "." ∧ name ≠ ".."

theorem names_join (directory : String) {name : String} (single : Single name) :
    names (join directory name) = names directory ++ [name] := by
  have filled : name.toList.isEmpty = false := by
    cases letters : name.toList with
    | nil => exact absurd (String.toList_eq_nil_iff.mp letters) single.occupied
    | cons c cs => rfl
  have alone : ((splitSlashes name.toList).filter (!·.isEmpty)).map String.ofList = [name] := by
    rw [splitSlashes_eq_singleton single.flat]
    simp [filled]
  have behind (cs : List Char) :
      ((splitSlashes (cs ++ '/' :: name.toList)).filter (!·.isEmpty)).map String.ofList =
        ((splitSlashes cs).filter (!·.isEmpty)).map String.ofList ++ [name] := by
    rw [splitSlashes_append, List.filter_append, List.map_append, alone]
  unfold names join
  by_cases empty : directory = ""
  · simpa [empty, splitSlashes] using alone
  by_cases slash : hasSlashAtEnd directory = true
  · obtain ⟨cs, ends⟩ : ∃ cs, directory.toList = cs ++ ['/'] := by
      simpa [hasSlashAtEnd, List.getLast?_eq_some_iff] using slash
    rw [if_pos (.inr slash), String.toList_append, ends, List.append_assoc, List.singleton_append,
      behind, splitSlashes_append]
    simp [splitSlashes]
  · rw [if_neg (by simp [empty, slash]), String.toList_append, String.toList_append,
      show ("/" : String).toList = ['/'] from rfl, List.append_assoc, List.singleton_append, behind]

theorem join_cases (directory name : String) :
    join directory name = directory ++ name ∨ join directory name = directory ++ "/" ++ name := by
  unfold join
  split
  · exact .inl rfl
  · exact .inr rfl

/-- A joined path ends in the name, so it asks for no directory. -/
theorem steps_join (directory : String) {name : String} (single : Single name) :
    steps (join directory name) = names directory ++ [name] := by
  have ends (cs : List Char) : (cs ++ name.toList).getLast? ≠ some '/' := by
    rw [List.getLast?_append]
    intro last
    cases own : name.toList.getLast? with
    | none =>
        exact single.occupied (String.toList_eq_nil_iff.mp (List.getLast?_eq_none_iff.mp own))
    | some c =>
        rw [own, Option.some_or, Option.some.injEq] at last
        exact single.flat (last ▸ List.mem_of_getLast? own)
  have plain : hasSlashAtEnd (join directory name) = false := by
    simp only [hasSlashAtEnd, decide_eq_false_iff_not]
    rcases join_cases directory name with path | path
    · rw [path, String.toList_append]
      exact ends _
    · rw [path, String.toList_append]
      exact ends _
  rw [steps, plain, names_join directory single]
  simp

end Path

namespace FileTree

variable {t : FileTree}

theorem mem_entries_of_entryAt? {l : Location} {e : Entry} (inside : l ≠ [])
    (here : t.entryAt? l = some e) : (l, e) ∈ t.entries := by
  simp only [entryAt?, inside, ↓reduceIte, List.lookup_eq_some_iff] at here
  obtain ⟨first, second, split, _⟩ := here
  simp [split]

theorem entryAt?_of_names_eq_nil {d : Location} (empty : t.names d = []) (name : String) :
    t.entryAt? (d ++ [name]) = none := by
  cases here : t.entryAt? (d ++ [name]) with
  | none => rfl
  | some e =>
      have member := mem_entries_of_entryAt? (by simp) here
      have listed : name ∈ t.names d := by
        rw [names, List.mem_mergeSort, List.mem_filterMap]
        exact ⟨_, member, by simp⟩
      rw [empty] at listed
      cases listed

theorem checkPath_eq_ok (path : String) :
    checkPath path = .ok () ↔
      '\x00' ∉ path.toList ∧ path ≠ "" ∧ path.utf8ByteSize ≤ maxPath := by
  unfold checkPath
  split
  · rename_i zero
    simp only [List.contains_iff_mem] at zero
    simp [zero]
  · rename_i zero
    simp only [List.contains_iff_mem] at zero
    split
    · rename_i empty
      simp [empty]
    · rename_i named
      split
      · rename_i long
        simp only [reduceCtorEq, false_iff, not_and, Nat.not_le]
        exact fun _ _ => long
      · rename_i short
        simp only [true_iff]
        exact ⟨zero, named, Nat.le_of_not_lt short⟩

theorem checkPath_directory {directory name : String} (named : directory ≠ "")
    (valid : checkPath (Path.join directory name) = .ok ()) : checkPath directory = .ok () := by
  rw [checkPath_eq_ok] at valid ⊢
  obtain ⟨zero, _, short⟩ := valid
  rcases Path.join_cases directory name with path | path
  · rw [path] at zero short
    simp only [String.toList_append, List.mem_append, not_or] at zero
    simp only [String.utf8ByteSize_append] at short
    exact ⟨zero.1, named, by omega⟩
  · rw [path] at zero short
    simp only [String.toList_append, List.mem_append, not_or] at zero
    simp only [String.utf8ByteSize_append] at short
    exact ⟨zero.1.1, named, by omega⟩

/-- Where the names of a directory's path lead to; no names stay at the root. -/
def place (t : FileTree) (directory : String) : Except FileError Location :=
  t.resolve true maxLinks [] (Path.names directory)

theorem status_eq_directory {directory : String} {d : Location} :
    t.status directory = .ok (d, .directory) ↔
      checkPath directory = .ok () ∧ t.place directory = .ok d ∧
        t.entryAt? d = some .directory := by
  rw [status_eq_ok, locate_eq_ok, Path.steps, place, and_assoc]
  refine and_congr_right fun _ => and_congr_left fun there => ?_
  split
  · rcases t.resolve_append true maxLinks [] (Path.names directory) ["."] (.inl rfl) with
      ⟨reason, shorter, longer⟩ | ⟨m, fewer, shorter, longer⟩
    · simp [shorter, longer]
    · rw [shorter, longer, Except.ok.injEq]
      constructor
      · intro arrived
        rw [resolve_stay (of_resolve_cons arrived).1, Except.ok.injEq] at arrived
        exact arrived
      · rintro rfl
        exact resolve_stay there
  · rw [List.append_nil]

section Join

variable {directory name : String} {d l : Location}

/-- A name in a directory leads to something only through the directory. -/
theorem locate_join (single : Path.Single name)
    (located : t.locate (Path.join directory name) = .ok l) :
    ∃ d fewer, t.place directory = .ok d ∧ t.entryAt? d = some .directory ∧ Ordinary name ∧
      t.resolve true fewer d [name] = .ok l := by
  have arrived := (locate_eq_ok.mp located).2
  rw [Path.steps_join directory single] at arrived
  rcases t.resolve_append true maxLinks [] (Path.names directory) [name] (.inl rfl) with
    ⟨reason, _, longer⟩ | ⟨d, fewer, shorter, longer⟩
  · rw [longer] at arrived
    cases arrived
  · rw [longer] at arrived
    obtain ⟨there, ordinary⟩ := of_resolve_cons arrived
    exact ⟨d, fewer, shorter, there, ordinary single.proper, arrived⟩

theorem resolve_join (last : Bool) (single : Path.Single name)
    (placed : t.place directory = .ok d) :
    ∃ fewer, t.resolve last maxLinks [] (Path.steps (Path.join directory name)) =
      t.resolve last fewer d [name] := by
  rw [Path.steps_join directory single]
  rcases t.resolve_append last maxLinks [] (Path.names directory) [name] (.inr (by simp)) with
    ⟨reason, shorter, _⟩ | ⟨m, fewer, shorter, longer⟩
  · rw [place, shorter] at placed
    cases placed
  · rw [place, shorter, Except.ok.injEq] at placed
    exact ⟨fewer, by rw [longer, placed]⟩

/-- The entry of a name in a directory, itself and not where it leads to. -/
theorem locateLink_join (single : Path.Single name) (ordinary : Ordinary name)
    (valid : checkPath (Path.join directory name) = .ok ())
    (placed : t.place directory = .ok d) (there : t.entryAt? d = some .directory) :
    t.locateLink (Path.join directory name) = .ok (d ++ [name]) := by
  obtain ⟨fewer, onward⟩ := resolve_join false single placed
  rw [locateLink_eq_ok, onward, resolve_link there ordinary]
  exact ⟨valid, rfl⟩

/-- What is no symbolic link is where its name says. -/
theorem locate_plain (single : Path.Single name) (ordinary : Ordinary name)
    (valid : checkPath (Path.join directory name) = .ok ())
    (placed : t.place directory = .ok d) (there : t.entryAt? d = some .directory)
    (plain : ∀ target, t.entryAt? (d ++ [name]) ≠ some (.link target)) :
    t.locate (Path.join directory name) = .ok (d ++ [name]) := by
  obtain ⟨fewer, onward⟩ := resolve_join true single placed
  rw [locate_eq_ok, onward, resolve_enter there ordinary plain, resolve_nil]
  exact ⟨valid, rfl⟩

theorem status_of_missing (single : Path.Single name)
    (missing : ∀ d, t.place directory = .ok d → t.entryAt? d = some .directory →
      t.entryAt? (d ++ [name]) = none)
    (l : Location) (e : Entry) : t.status (Path.join directory name) ≠ .ok (l, e) := by
  intro status
  obtain ⟨located, here⟩ := status_eq_ok.mp status
  obtain ⟨d, fewer, placed, there, ordinary, arrived⟩ := locate_join single located
  have none := missing d placed there
  rw [resolve_enter there ordinary (by simp [none]), resolve_nil, Except.ok.injEq] at arrived
  rw [← arrived, none] at here
  cases here

/-- In a directory that is empty, missing or no directory at all, no name leads to anything. -/
theorem status_of_empty (named : directory ≠ "") (single : Path.Single name)
    (empty : ∀ d, t.status directory = .ok (d, .directory) → t.names d = [])
    (l : Location) (e : Entry) : t.status (Path.join directory name) ≠ .ok (l, e) := by
  intro status
  have valid := (locate_eq_ok.mp (status_eq_ok.mp status).1).1
  refine status_of_missing single (fun d placed there => ?_) l e status
  have arrived := status_eq_directory.mpr ⟨checkPath_directory named valid, placed, there⟩
  exact entryAt?_of_names_eq_nil (empty d arrived) name

theorem place_erase (placed : t.place directory = .ok d) {m : Location}
    (arrived : place (t.erase (d ++ [name])) directory = .ok m)
    (there : entryAt? (t.erase (d ++ [name])) m = some .directory) : m = d := by
  have gone : entryAt? (t.erase (d ++ [name])) (d ++ [name]) = none :=
    t.entryAt?_erase_inside (by simp) List.prefix_rfl
  have agree := t.agree_erase d name
  rw [place] at placed arrived
  rcases resolve_beside agree true maxLinks [] (Path.names directory) (by simp) with
    ⟨same, _⟩ | ⟨fewer, rest, directory, ordinary, _, after⟩
  · rw [same, placed, Except.ok.injEq] at arrived
    exact arrived.symm
  · rw [after, resolve_enter (agree.directory directory) ordinary (by simp [gone])] at arrived
    obtain ⟨_, rfl⟩ := resolve_end (by simp [gone]) arrived
    rw [gone] at there
    cases there

/-- A text stands under a name in the directory at `d`: the entry of the name is a file with the
text, or a symbolic link that leads to one. -/
structure Holds (t : FileTree) (directory name text : String) (d : Location) : Prop where
  single : Path.Single name
  placed : t.place directory = .ok d
  listed : ∃ e, t.entryAt? (d ++ [name]) = some e ∧ e ≠ .directory
  leads : ∃ links x content, t.resolve true links d [name] = .ok x ∧
    t.entryAt? x = some (.file content) ∧ String.fromUTF8? content = some text
  removed : t.locateLink (Path.join directory name) = .ok (d ++ [name])

theorem exists_holds {text : String} (single : Path.Single name)
    (read : t.readText (Path.join directory name) = .ok text) :
    ∃ d, Holds t directory name text d := by
  obtain ⟨x, content, status, decoded⟩ := readText_eq_ok.mp read
  obtain ⟨located, file⟩ := status_eq_ok.mp status
  obtain ⟨d, links, placed, there, ordinary, leads⟩ := locate_join single located
  have valid := (locate_eq_ok.mp located).1
  refine ⟨d, single, placed, ?_, ⟨links, x, content, leads, file, decoded⟩,
    locateLink_join single ordinary valid placed there⟩
  rcases t.enter_cases d name with ⟨plain, _⟩ | ⟨target, link, _⟩
  · rw [resolve_enter there ordinary plain, resolve_nil, Except.ok.injEq] at leads
    exact ⟨.file content, leads ▸ file, nofun⟩
  · exact ⟨.link target, link, nofun⟩

namespace Holds

variable {text : String} (holds : Holds t directory name text d)

include holds

theorem removeFile_eq : t.removeFile (Path.join directory name) = .ok (t.erase (d ++ [name])) := by
  obtain ⟨e, here, other⟩ := holds.listed
  exact removeFile_eq_ok.mpr ⟨_, e, holds.removed, here, other, rfl⟩

theorem contains_erase :
    contains (t.erase (d ++ [name])) (Path.join directory name) = false := by
  have missing := status_of_missing (t := t.erase (d ++ [name])) holds.single
    fun m arrived there => by
      rw [place_erase holds.placed arrived there]
      exact t.entryAt?_erase_inside (by simp) List.prefix_rfl
  cases status : status (t.erase (d ++ [name])) (Path.join directory name) with
  | error e => simp [contains, status, Except.toOption]
  | ok found => exact absurd status (missing found.1 found.2)

theorem readText_erase {path other : String} (read : t.readText path = .ok other) :
    readText (t.erase (d ++ [name])) path = .ok other ∨ other = text := by
  obtain ⟨links, x, content, leads, file, decoded⟩ := holds.leads
  refine (FileTree.readText_erase leads file read).imp_right fun same => ?_
  rw [decoded, Option.some.injEq] at same
  exact same.symm

end Holds

end Join

end FileTree

end HeaderBindings
