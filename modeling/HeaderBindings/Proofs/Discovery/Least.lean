import HeaderBindings.Proofs.Discovery.Search
import HeaderBindings.Proofs.Text.Utf8

set_option autoImplicit false

namespace HeaderBindings.Discovery

variable {t : FileTree} {root name : String}

/-- Locating a header finds the regular file with the name whose names come first, name by name in
the order of their bytes, and fails exactly if there is none. -/
theorem locateHeader_least (named : FileTree.Named t) (root name : String) :
    (∀ path, locateHeader t root name = .ok path ↔
      ∃ names, path = pathOf root names ∧ Regular t root name names ∧
        ∀ other, Regular t root name other →
          ¬ other.map Text.bytes < names.map Text.bytes) ∧
    (∀ failure, locateHeader t root name = .error failure ↔
      failure = .headerNotFound root name ∧ ∀ names, ¬ Regular t root name names) := by
  have least := locate?_least named root name
  simp only [Text.map_bytes_lt_iff]
  unfold locateHeader
  cases result : locate? t root name with
  | none =>
      rw [result] at least
      refine ⟨fun path => ⟨nofun, ?_⟩, fun failure => ⟨?_, ?_⟩⟩
      · intro ⟨names, _, found, _⟩
        exact absurd found (least names)
      · intro same
        exact ⟨(Except.error.inj same).symm, least⟩
      · intro ⟨same, _⟩
        rw [same]
  | some found =>
      rw [result] at least
      refine ⟨fun path => ⟨?_, ?_⟩, fun failure => ⟨nofun, ?_⟩⟩
      · intro same
        obtain ⟨names, want, here, first⟩ := least
        rw [← Except.ok.inj same]
        exact ⟨names, here, want, first⟩
      · intro ⟨names, same, want, first⟩
        rw [same, least.unique want first]
      · intro ⟨_, nothing⟩
        obtain ⟨names, want, _⟩ := least
        exact absurd want (nothing names)

/-- If the only name below the root cannot be followed, nothing is found. -/
theorem locateHeader_of_lost {place : Location} {child : String} {e : FileTree.Entry}
    {reason : FileError}
    (start : t.status root = .ok (place, .directory)) (only : t.names place = [child])
    (here : t.entryAt? (place ++ [child]) = some e) (other : ∀ content, e ≠ .file content)
    (lost : t.status (Path.join root child) = .error reason) :
    locateHeader t root name = .error (.headerNotFound root name) := by
  have skipped (below : Location → String → Option String) :
      answer t name [] place root below child = none := by
    cases e with
    | file content => exact absurd rfl (other content)
    | directory => simp only [answer, here, ask, lost]
    | link target => simp only [answer, here, ask, lost]
  have depth : maxDepth t = maxDepth t - 1 + 1 := by
    unfold maxDepth
    simp only [Nat.mul_add, Nat.add_mul]
    omega
  have nothing : locate? t root name = none := by
    rw [locate?, start, depth]
    simp only [search, only, List.findSome?_cons, skipped, List.findSome?_nil]
  rw [locateHeader, nothing]

/-- A header deep below an early name, and one right below the root. -/
theorem locateHeader_least_deep :
    let t : FileTree := { entries := [(["t"], .directory), (["t", "a"], .directory),
      (["t", "a", "h"], .file ⟨#[]⟩), (["t", "h"], .file ⟨#[]⟩)] }
    FileTree.Named t ∧ locateHeader t "t" "h" = .ok "t/a/h" ∧
      ∃ names, "t/a/h" = pathOf "t" names ∧ Regular t "t" "h" names ∧
        ∀ other, Regular t "t" "h" other → ¬ other.map Text.bytes < names.map Text.bytes := by
  intro t
  have entries : t = { entries := [(["t"], .directory), (["t", "a"], .directory),
      (["t", "a", "h"], .file ⟨#[]⟩), (["t", "h"], .file ⟨#[]⟩)] } := rfl
  have named : FileTree.Named t := by
    have all : ∀ name ∈ ["t", "a", "h"], Path.Single name := by
      intro name member
      simp only [List.mem_cons, List.not_mem_nil, or_false] at member
      rcases member with rfl | rfl | rfl <;> exact ⟨by decide, by decide, by decide⟩
    intro l e member name inside
    have part : l.Sublist ["t", "a", "h"] := by
      simp only [entries, List.mem_cons, Prod.mk.injEq, List.not_mem_nil, or_false] at member
      rcases member with ⟨rfl, _⟩ | ⟨rfl, _⟩ | ⟨rfl, _⟩ | ⟨rfl, _⟩ <;> decide
    exact all name (part.subset inside)
  clear_value t
  have place : t.entryAt? ["t"] = some .directory := by rw [entries]; rfl
  have first : t.entryAt? (["t"] ++ ["a"]) = some .directory := by rw [entries]; rfl
  have file : t.entryAt? (["t", "a"] ++ ["h"]) = some (.file ⟨#[]⟩) := by rw [entries]; rfl
  have start : t.status "t" = .ok (["t"], .directory) :=
    FileTree.status_eq_ok.mpr ⟨by rw [entries]; decide +kernel, place⟩
  have down : t.status (Path.join "t" "a") = .ok (["t", "a"], .directory) :=
    FileTree.status_eq_ok.mpr ⟨by rw [entries]; decide +kernel, first⟩
  have names : t.names ["t"] = ["a", "h"] := by
    rw [entries]
    exact List.mergeSort_of_pairwise (by decide +kernel)
  have below : t.names ["t", "a"] = ["h"] := by
    rw [entries]
    exact List.mergeSort_of_pairwise (by decide +kernel)
  have path : Path.join (Path.join "t" "a") "h" = "t/a/h" := by decide +kernel
  have depth : maxDepth t = 34 + 2 := by
    rw [entries]
    rfl
  have found : locateHeader t "t" "h" = .ok "t/a/h" := by
    rw [locateHeader, locate?, start, depth]
    simp only [search, names, List.findSome?_cons, answer_directory first down, below]
    simp only [answer, file, path, if_true]
  exact ⟨named, found, ((locateHeader_least named "t" "h").1 "t/a/h").mp found⟩

section Deep

theorem splitSlashes_slashes (count : Nat) :
    Path.splitSlashes (List.replicate count '/') = List.replicate (count + 1) [] := by
  induction count with
  | zero => rfl
  | succ count ih =>
      rw [List.replicate_succ, Path.splitSlashes, if_pos rfl, ih, ← List.replicate_succ]

/-- A path with slashes at its end, which make it as long as a path can be. -/
def slashed (name : Char) (count : Nat) : String :=
  String.ofList (name :: List.replicate (count + 1) '/')

theorem steps_slashed (count : Nat) : Path.steps (slashed 't' count) = ["t", "."] := by
  have names : Path.names (slashed 't' count) = ["t"] := by
    have pieces : Path.splitSlashes ('t' :: List.replicate (count + 1) '/') =
        ['t'] :: List.replicate (count + 1) [] := by
      rw [Path.splitSlashes, if_neg (by decide), splitSlashes_slashes, List.replicate_succ]
    rw [Path.names, slashed, String.toList_ofList, pieces, List.filter_cons_of_pos (by simp),
      List.filter_replicate]
    rfl
  have ends : Path.hasSlashAtEnd (slashed 't' count) = true := by
    simp [Path.hasSlashAtEnd, slashed, List.getLast?_cons, List.getLast?_replicate]
  simp [Path.steps, names, ends]

theorem utf8ByteSize_slashed (count : Nat) : (slashed 't' count).utf8ByteSize = count + 2 := by
  rw [slashed, String.utf8ByteSize_ofList, String.utf8Len_cons]
  induction count with
  | zero => decide
  | succ count ih =>
      have one : ('/' : Char).utf8Size = 1 := by decide
      rw [List.replicate_succ, String.utf8Len_cons, one]
      omega

end Deep

/-- A symbolic link below the directory `t` leads to the directory that `t` stands in. -/
def linkedUp : FileTree :=
  { entries := [(["t"], .directory), (["t", "a"], .link ".."), (["t", "z"], .directory),
    (["t", "z", "h"], .file ⟨#[]⟩)] }

theorem locateHeader_linkedUp :
    linkedUp.status "t/a" = .ok ([], .directory) ∧
      locateHeader linkedUp "t" "h" = .ok "t/a/t/z/h" := by
  have entries : linkedUp = { entries := [(["t"], .directory), (["t", "a"], .link ".."),
      (["t", "z"], .directory), (["t", "z", "h"], .file ⟨#[]⟩)] } := rfl
  generalize linkedUp = t at entries
  have names : t.names [] = ["t"] ∧ t.names ["t"] = ["a", "z"] ∧ t.names ["t", "z"] = ["h"] := by
    rw [entries]
    refine ⟨?_, ?_, ?_⟩ <;> exact List.mergeSort_of_pairwise (by decide +kernel)
  have link : t.entryAt? (["t"] ++ ["a"]) = some (.link "..") := by rw [entries]; rfl
  have file : t.entryAt? (["t", "z"] ++ ["h"]) = some (.file ⟨#[]⟩) := by rw [entries]; rfl
  have place : t.entryAt? ([] ++ ["t"]) = some .directory := by rw [entries]; rfl
  have last : t.entryAt? (["t"] ++ ["z"]) = some .directory := by rw [entries]; rfl
  have top : t.entryAt? [] = some .directory := rfl
  have status {path : String} {l : Location} (located : t.locate path = .ok l)
      (here : t.entryAt? l = some .directory) : t.status path = .ok (l, .directory) :=
    FileTree.status_eq_ok.mpr ⟨located, here⟩
  have at_root : t.status "t" = .ok (["t"], .directory) :=
    status (by rw [entries]; decide +kernel) place
  have up : t.status "t/a" = .ok ([], .directory) :=
    status (by rw [entries]; decide +kernel) top
  have down : t.status "t/a/t" = .ok (["t"], .directory) :=
    status (by rw [entries]; decide +kernel) place
  have back : t.status "t/a/t/a" = .ok ([], .directory) :=
    status (by rw [entries]; decide +kernel) top
  have deep : t.status "t/a/t/z" = .ok (["t", "z"], .directory) :=
    status (by rw [entries]; decide +kernel) last
  have paths : Path.join "t" "a" = "t/a" ∧ Path.join "t/a" "t" = "t/a/t" ∧
      Path.join "t/a/t" "a" = "t/a/t/a" ∧ Path.join "t/a/t" "z" = "t/a/t/z" ∧
      Path.join "t/a/t/z" "h" = "t/a/t/z/h" := by decide +kernel
  obtain ⟨first, second, third, fourth, fifth⟩ := paths
  rw [← first] at up
  rw [← second] at down
  rw [← third] at back
  rw [← fourth] at deep
  have found (fuel : Nat) : search t "h" (fuel + 4) [] ["t"] "t" = some "t/a/t/z/h" := by
    rw [search, names.2.1, List.findSome?_cons, answer_link link up, if_neg (by decide), first,
      search, names.1, List.findSome?_cons, answer_directory place down, second,
      search, names.2.1, List.findSome?_cons, answer_link link back, if_pos (by decide),
      List.findSome?_cons, answer_directory last deep, fourth,
      search, names.2.2, List.findSome?_cons]
    simp only [answer, file, fifth, if_true]
  refine ⟨first ▸ up, ?_⟩
  have depth : maxDepth t = 32 + 4 := by
    rw [entries]
    rfl
  rw [locateHeader, locate?, at_root, depth]
  simp only [found]

def nested : FileTree :=
  { entries := [(["t"], .directory), (["t", "d"], .directory), (["t", "d", "h"], .file ⟨#[]⟩)] }

theorem locateHeader_nested :
    let root := slashed 't' 4093
    nested.status root = .ok (["t"], .directory) ∧
      locateHeader nested root "h" = .error (.headerNotFound root "h") := by
  intro root
  have entries : nested =
      { entries := [(["t"], .directory), (["t", "d"], .directory),
        (["t", "d", "h"], .file ⟨#[]⟩)] } := rfl
  generalize nested = t at entries
  have size : root.utf8ByteSize = 4095 := utf8ByteSize_slashed 4093
  have letters : root.toList = 't' :: List.replicate 4094 '/' := String.toList_ofList
  have flat : '\x00' ∉ root.toList := by
    rw [letters, List.mem_cons, List.mem_replicate]
    decide
  have steps : Path.steps root = ["t", "."] := steps_slashed 4093
  clear_value root
  have valid : FileTree.checkPath root = .ok () := by
    rw [FileTree.checkPath_eq_ok]
    refine ⟨flat, ?_, ?_⟩
    · intro empty
      simp [empty] at size
    · rw [size]
      decide
  have place : t.entryAt? ["t"] = some .directory := by rw [entries]; rfl
  have start : t.status root = .ok (["t"], .directory) := by
    rw [FileTree.status_eq_ok, FileTree.locate_eq_ok, steps]
    refine ⟨⟨valid, ?_⟩, place⟩
    rw [entries]
    decide +kernel
  have long : FileTree.maxPath < (Path.join root "d").utf8ByteSize := by
    rcases Path.join_cases root "d" with path | path
    · rw [path, String.utf8ByteSize_append, size]
      decide
    · rw [path, String.utf8ByteSize_append, String.utf8ByteSize_append, size]
      decide
  have only : t.names ["t"] = ["d"] := by
    rw [entries]
    exact List.mergeSort_of_pairwise (by decide +kernel)
  have here : t.entryAt? (["t"] ++ ["d"]) = some .directory := by rw [entries]; rfl
  refine ⟨start, ?_⟩
  cases lost : t.status (Path.join root "d") with
  | error reason => exact locateHeader_of_lost start only here (by simp) lost
  | ok there =>
      have short := (FileTree.locate_eq_ok.mp (FileTree.status_eq_ok.mp lost).1).1
      rw [FileTree.checkPath_eq_ok] at short
      omega

/-- A symbolic link that stays where it is, and one to a header. -/
def looped : FileTree :=
  { entries := [(["l"], .link "."), (["t"], .directory), (["t", "h"], .link "../f"),
    (["f"], .file ⟨#[]⟩)] }

/-- The directory `t`, behind as many symbolic links as are followed on one way. -/
def behindLinks : String :=
  "l/l/l/l/l/l/l/l/l/l/l/l/l/l/l/l/l/l/l/l/l/l/l/l/l/l/l/l/l/l/l/l/l/l/l/l/l/l/l/l/t"

theorem locateHeader_looped :
    looped.status behindLinks = .ok (["t"], .directory) ∧
      looped.status "t/h" = .ok (["f"], .file ⟨#[]⟩) ∧
      locateHeader looped behindLinks "h" = .error (.headerNotFound behindLinks "h") := by
  have entries : looped = { entries := [(["l"], .link "."), (["t"], .directory),
      (["t", "h"], .link "../f"), (["f"], .file ⟨#[]⟩)] } := rfl
  generalize looped = t at entries
  have place : t.entryAt? ["t"] = some .directory := by rw [entries]; rfl
  have file : t.entryAt? ["f"] = some (.file ⟨#[]⟩) := by rw [entries]; rfl
  have link : t.entryAt? (["t"] ++ ["h"]) = some (.link "../f") := by rw [entries]; rfl
  have start : t.status behindLinks = .ok (["t"], .directory) := by
    rw [FileTree.status_eq_ok, entries]
    exact ⟨by decide +kernel, rfl⟩
  have near : t.status "t/h" = .ok (["f"], .file ⟨#[]⟩) := by
    rw [FileTree.status_eq_ok, entries]
    exact ⟨by decide +kernel, rfl⟩
  have far : t.locate (Path.join behindLinks "h") = .error .tooManyLinks := by
    rw [entries]
    decide +kernel
  have lost : t.status (Path.join behindLinks "h") = .error .tooManyLinks := by
    rw [FileTree.status, far]
    rfl
  have only : t.names ["t"] = ["h"] := by
    rw [entries]
    exact List.mergeSort_of_pairwise (by decide +kernel)
  exact ⟨start, near, locateHeader_of_lost start only link (by simp) lost⟩

/-- What is found is not always what comes first in the tree: a symbolic link may lead above the
root, a path be too long, and the links on a way too many. -/
theorem locateHeader_ne_first :
    (linkedUp.status "t/a" = .ok ([], .directory) ∧
      locateHeader linkedUp "t" "h" = .ok "t/a/t/z/h") ∧
    (nested.status (slashed 't' 4093) = .ok (["t"], .directory) ∧
      locateHeader nested (slashed 't' 4093) "h" =
        .error (.headerNotFound (slashed 't' 4093) "h")) ∧
    (looped.status behindLinks = .ok (["t"], .directory) ∧
      looped.status "t/h" = .ok (["f"], .file ⟨#[]⟩) ∧
      locateHeader looped behindLinks "h" = .error (.headerNotFound behindLinks "h")) :=
  ⟨locateHeader_linkedUp, locateHeader_nested, locateHeader_looped⟩

end HeaderBindings.Discovery
