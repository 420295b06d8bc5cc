import HeaderBindings.Proofs.FileTree.Inside

set_option autoImplicit false

namespace HeaderBindings

namespace Path

theorem flat_of_mem_splitSlashes {cs piece : List Char} (member : piece ∈ splitSlashes cs) :
    '/' ∉ piece := by
  induction cs generalizing piece with
  | nil =>
      rw [splitSlashes, List.mem_singleton] at member
      simp [member]
  | cons c cs ih =>
      rw [splitSlashes] at member
      by_cases slash : c = '/'
      · rw [if_pos slash, List.mem_cons] at member
        rcases member with rfl | later
        · simp
        · exact ih later
      · rw [if_neg slash] at member
        cases pieces : splitSlashes cs with
        | nil => exact absurd pieces (splitSlashes_ne_nil cs)
        | cons first others =>
            rw [pieces] at member ih
            rcases List.mem_cons.mp member with rfl | later
            · simp [Ne.symm slash, ih (List.mem_cons_self)]
            · exact ih (List.mem_cons_of_mem first later)

/-- What can be a step of a path. -/
def Flat (name : String) : Prop := name ≠ "" ∧ '/' ∉ name.toList

theorem flat_of_mem_names {path name : String} (member : name ∈ names path) : Flat name := by
  rw [names, List.mem_map] at member
  obtain ⟨piece, listed, rfl⟩ := member
  rw [List.mem_filter] at listed
  obtain ⟨cut, filled⟩ := listed
  constructor
  · intro empty
    have none : piece = [] := by simpa using congrArg String.toList empty
    simp [none] at filled
  · rw [String.toList_ofList]
    exact flat_of_mem_splitSlashes cut

theorem flat_of_mem_steps {path name : String} (member : name ∈ steps path) : Flat name := by
  rw [steps, List.mem_append] at member
  rcases member with inside | behind
  · exact flat_of_mem_names inside
  · split at behind
    · rw [List.mem_singleton] at behind
      simp [behind, Flat]
    · cases behind

theorem Flat.single {name : String} (flat : Flat name) (ordinary : FileTree.Ordinary name) :
    Single name := ⟨flat.1, flat.2, ordinary.proper⟩

end Path

namespace FileTree

variable {t : FileTree} {last : Bool} {l : Location}

/-- Every name in the tree stands for one entry, in whatever path. -/
def Named (t : FileTree) : Prop :=
  ∀ l e, (l, e) ∈ t.entries → ∀ name ∈ l, Path.Single name

theorem Named.single (named : Named t) {place : Location} {child : String} {e : Entry}
    (here : t.entryAt? (place ++ [child]) = some e) : Path.Single child := by
  have member := mem_entries_of_entryAt? (by simp) here
  exact named _ e member child (by simp)

section Way

variable {follow : Location → List String → Except FileError Location}

theorem walk_single
    (links : ∀ place names, (∀ name ∈ place, Path.Single name) → (∀ name ∈ names, Path.Flat name) →
      follow place names = .ok l → ∀ name ∈ l, Path.Single name)
    {place : Location} {names : List String} (single : ∀ name ∈ place, Path.Single name)
    (flat : ∀ name ∈ names, Path.Flat name) (arrived : t.walk last follow place names = .ok l) :
    ∀ name ∈ l, Path.Single name := by
  induction names generalizing place with
  | nil =>
      cases arrived
      exact single
  | cons name names ih =>
      have flats : ∀ other ∈ names, Path.Flat other :=
        fun other member => flat other (List.mem_cons_of_mem name member)
      have entered (ordinary : Ordinary name) : ∀ other ∈ place ++ [name], Path.Single other := by
        intro other member
        rcases List.mem_append.mp member with before | here
        · exact single other before
        · rw [List.mem_singleton.mp here]
          exact (flat name List.mem_cons_self).single ordinary
      rw [walk_cons] at arrived
      rcases t.step_cases place name with ⟨reason, stop⟩ |
        ⟨_, ⟨next, _, above, go⟩ | ⟨ordinary, enters⟩⟩
      · rw [stop] at arrived
        cases arrived
      · rw [go] at arrived
        exact ih (fun other member => single other (above.subset member)) flats arrived
      · rw [enters, enter] at arrived
        split at arrived <;> rename_i turn
        · cases arrived
        · split at turn
          · cases turn
          · cases turn
            exact ih (entered ordinary) flats arrived
        · split at turn
          · rename_i target link
            cases turn
            split at arrived
            · cases arrived
              exact entered ordinary
            · refine links _ _ (fun other member => ?_) (fun other member => ?_) arrived
              · split at member
                · cases member
                · exact single other member
              · rcases List.mem_append.mp member with step | later
                · exact Path.flat_of_mem_steps step
                · exact flats other later
          · cases turn

theorem resolve_single {links : Nat} {place : Location} {names : List String}
    (single : ∀ name ∈ place, Path.Single name) (flat : ∀ name ∈ names, Path.Flat name)
    (arrived : t.resolve last links place names = .ok l) : ∀ name ∈ l, Path.Single name := by
  induction links generalizing place names with
  | zero =>
      refine walk_single (fun _ _ _ _ arrived => ?_) single flat arrived
      cases arrived
  | succ links ih => exact walk_single (fun _ _ => ih) single flat arrived

end Way

section Make

theorem Named.set (named : Named t) (e : Entry) (single : ∀ name ∈ l, Path.Single name) :
    Named (t.set l e) := by
  intro m other member
  rcases List.mem_cons.mp member with here | before
  · cases here
    exact single
  · exact named m other (List.mem_filter.mp before).1

theorem resolve_names_single {links : Nat} {path : String}
    (arrived : t.resolve last links [] (Path.names path) = .ok l) :
    ∀ name ∈ l, Path.Single name :=
  resolve_single (by simp) (fun _ => Path.flat_of_mem_names) arrived

theorem Named.write (named : Named t) {path : String} {content : ByteArray} {written : FileTree}
    (done : t.write path content = .ok written) : Named written := by
  obtain ⟨m, located, _, rfl⟩ := write_eq_ok done
  have arrived := (locate_eq_ok.mp located).2
  exact named.set _ (resolve_single (by simp) (fun _ => Path.flat_of_mem_steps) arrived)

theorem Named.makeDirectory (named : Named t) {path : String} {made : FileTree}
    (done : t.makeDirectory path = .ok made) : Named made := by
  unfold FileTree.makeDirectory at done
  cases valid : checkPath path with
  | error e => simp [valid, bind, Except.bind] at done
  | ok _ =>
      cases arrived : t.resolve false maxLinks [] (Path.names path) with
      | error e => simp [valid, arrived, bind, Except.bind] at done
      | ok m =>
          simp only [valid, arrived, bind, Except.bind] at done
          split at done
          · cases done
          · cases done
            exact named.set _ (resolve_names_single arrived)

theorem Named.makeLink (named : Named t) {path target : String} {made : FileTree}
    (done : t.makeLink path target = .ok made) : Named made := by
  unfold FileTree.makeLink at done
  cases valid : checkPath path with
  | error e => simp [valid, bind, Except.bind] at done
  | ok _ =>
      cases aimed : checkPath target with
      | error e => simp [valid, aimed, bind, Except.bind] at done
      | ok _ =>
          cases arrived : t.resolve false maxLinks [] (Path.names path) with
          | error e => simp [valid, aimed, arrived, bind, Except.bind] at done
          | ok m =>
              simp only [valid, aimed, arrived, bind, Except.bind] at done
              split at done
              · cases done
              split at done
              · cases done
              · cases done
                exact named.set _ (resolve_names_single arrived)

theorem Named.makeDirectoriesFrom (named : Named t) (path : String) (fuel : Nat) :
    Named (t.makeDirectoriesFrom path fuel).1 := by
  induction fuel generalizing t path with
  | zero => exact named
  | succ fuel ih =>
      rw [FileTree.makeDirectoriesFrom]
      split
      · exact named
      split
      · rename_i made done
        exact named.makeDirectory done
      · split
        · exact named
        · rename_i parent _
          have above := ih named parent
          split
          · rename_i s e same
            rw [same] at above
            exact above
          · rename_i s same
            rw [same] at above
            split
            · rename_i made done
              exact above.makeDirectory done
            · exact above
      · exact named

theorem Named.make (named : Named t) (item : Item) : Named (t.make item).1 := by
  have into (path : String) {step : FileTree → Except FileError FileTree}
      (kept : ∀ {s made : FileTree}, Named s → step s = .ok made → Named made) :
      Named (make.into t path step).1 := by
    have above := named.makeDirectoriesFrom ((Path.parent? path).getD "")
      ((Path.names ((Path.parent? path).getD "")).length + 2)
    unfold make.into makeDirectories
    split
    · rename_i s e same
      rw [same] at above
      exact above
    · rename_i s same
      rw [same] at above
      split
      · rename_i made done
        exact kept above done
      · exact above
  cases item with
  | directory path => exact named.makeDirectoriesFrom path _
  | file path content => exact into path fun named done => named.write done
  | link path target => exact into path fun named done => named.makeLink done

/-- Whatever is made in an empty tree, all its names are single. -/
theorem named_makeAll (items : List Item) : Named (({} : FileTree).makeAll items).1 := by
  have all (t : FileTree) (named : Named t) : Named (t.makeAll items).1 := by
    induction items generalizing t with
    | nil => exact named
    | cons item items ih =>
        have made := named.make item
        rw [makeAll]
        split
        · rename_i s same
          rw [same] at made
          exact ih s made
        · rename_i s e same
          rw [same] at made
          exact made
  refine all {} fun l e member => ?_
  cases member

end Make

end FileTree

end HeaderBindings
