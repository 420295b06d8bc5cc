import HeaderBindings.FileTree.Basic

/-!
Ways through a file tree. A way can be cut in two: what its first part reaches, its second part goes
on from. And two trees that agree outside of one location do not differ for a way before it comes to
that location.
-/

set_option autoImplicit false

namespace HeaderBindings.FileTree

inductive Step
  | stop (reason : FileError)
  | go (next : Location)
  /-- A symbolic link is there, which leads on from `start`. -/
  | turn (start : Location) (names : List String)

/-- A name that leads into a directory, and not to where the directory is or stands. -/
structure Ordinary (name : String) : Prop where
  proper : name ≠ "." ∧ name ≠ ".."
  short : name.utf8ByteSize ≤ maxName

def enter (t : FileTree) (place : Location) (name : String) : Step :=
  match t.entryAt? (place ++ [name]) with
  | some (.link target) =>
    .turn (if Path.isAbsolute target then [] else place) (Path.steps target)
  | _ => .go (place ++ [name])

def step (t : FileTree) (place : Location) (name : String) : Step :=
  match t.entryAt? place with
  | none => .stop .notFound
  | some .directory =>
    if name = "." then .go place
    else if name = ".." then .go place.dropLast
    else if maxName < name.utf8ByteSize then .stop .nameTooLong
    else t.enter place name
  | some _ => .stop .notDirectory

section Walk

variable {t : FileTree} {last : Bool} {follow : Location → List String → Except FileError Location}
  {place : Location} {name : String}

theorem walk_cons (rest : List String) :
    t.walk last follow place (name :: rest) =
      match t.step place name with
      | .stop reason => .error reason
      | .go next => t.walk last follow next rest
      | .turn start names =>
        if rest.isEmpty && !last then .ok (place ++ [name]) else follow start (names ++ rest) := by
  rw [walk, step]
  cases t.entryAt? place with
  | none => rfl
  | some entry =>
      cases entry with
      | file content => rfl
      | link target => rfl
      | directory =>
          by_cases stay : name = "."
          · simp [stay]
          by_cases up : name = ".."
          · simp [up]
          by_cases long : maxName < name.utf8ByteSize
          · simp [stay, up, long]
          simp only [stay, up, long, ↓reduceIte, enter]
          cases t.entryAt? (place ++ [name]) with
          | none => rfl
          | some entry => cases entry <;> rfl

theorem step_ordinary (directory : t.entryAt? place = some .directory) (ordinary : Ordinary name) :
    t.step place name = t.enter place name := by
  have short : ¬ maxName < name.utf8ByteSize := Nat.not_lt.mpr ordinary.short
  simp only [step, directory, ordinary.proper.1, ordinary.proper.2, short, ↓reduceIte]

/-- A name stops the way, leaves it at or above the place, or leads into the directory there. -/
theorem step_cases (t : FileTree) (place : Location) (name : String) :
    (∃ reason, t.step place name = .stop reason) ∨
      t.entryAt? place = some .directory ∧
        ((∃ next, (name = "." ∨ name = "..") ∧ next <+: place ∧ t.step place name = .go next) ∨
          Ordinary name ∧ t.step place name = t.enter place name) := by
  unfold step
  split
  · exact .inl ⟨_, rfl⟩
  · rename_i directory
    split
    · rename_i stay
      exact .inr ⟨directory, .inl ⟨_, .inl stay, List.prefix_rfl, rfl⟩⟩
    split
    · rename_i up
      exact .inr ⟨directory, .inl ⟨_, .inr up, List.dropLast_prefix place, rfl⟩⟩
    split
    · exact .inl ⟨_, rfl⟩
    · rename_i stay up short
      exact .inr ⟨directory, .inr ⟨⟨⟨stay, up⟩, Nat.not_lt.mp short⟩, rfl⟩⟩
  · exact .inl ⟨_, rfl⟩

/-- Only a symbolic link leads anywhere else than to its own place. -/
theorem enter_cases (t : FileTree) (place : Location) (name : String) :
    ((∀ target, t.entryAt? (place ++ [name]) ≠ some (.link target)) ∧
        t.enter place name = .go (place ++ [name])) ∨
      ∃ target, t.entryAt? (place ++ [name]) = some (.link target) ∧
        ∃ start names, start <+: place ∧ t.enter place name = .turn start names := by
  unfold enter
  split
  · rename_i target link
    refine .inr ⟨target, link, _, _, ?_, rfl⟩
    split
    · exact List.nil_prefix
    · exact List.prefix_rfl
  · rename_i other
    exact .inl ⟨other, rfl⟩

theorem enter_eq_go {t : FileTree} {place : Location} {name : String}
    (plain : ∀ target, t.entryAt? (place ++ [name]) ≠ some (.link target)) :
    t.enter place name = .go (place ++ [name]) := by
  rcases t.enter_cases place name with ⟨_, go⟩ | ⟨target, link, _⟩
  · exact go
  · exact absurd link (plain target)

theorem step_congr {t s : FileTree} {place : Location} {name : String}
    (here : s.entryAt? place = t.entryAt? place)
    (there : t.entryAt? place = some .directory → Ordinary name →
      s.entryAt? (place ++ [name]) = t.entryAt? (place ++ [name])) :
    s.step place name = t.step place name := by
  rw [step, step, here]
  split
  · rfl
  · rename_i directory
    split
    · rfl
    split
    · rfl
    split
    · rfl
    · rename_i stay up short
      rw [enter, enter, there directory ⟨⟨stay, up⟩, Nat.not_lt.mp short⟩]
  · rfl

end Walk

section Cut

variable {t : FileTree} {last : Bool} {rest : List String}
  {follow follow' : Location → List String → Except FileError Location}

/-- The longer way fails where the shorter one fails, and else goes on from where that leads; it may
have fewer symbolic links left then. -/
def Extends (t : FileTree) (last : Bool) (rest : List String)
    (shorter longer : Except FileError Location) : Prop :=
  (∃ reason, shorter = .error reason ∧ longer = .error reason) ∨
    ∃ d fewer, shorter = .ok d ∧ longer = t.resolve last fewer d rest

theorem walk_append (goes : last = true ∨ rest ≠ [])
    (ends : ∀ d, ∃ fewer, t.walk last follow' d rest = t.resolve last fewer d rest)
    (links : ∀ place names,
      Extends t last rest (follow place names) (follow' place (names ++ rest)))
    (place : Location) (names : List String) :
    Extends t last rest (t.walk true follow place names)
      (t.walk last follow' place (names ++ rest)) := by
  induction names generalizing place with
  | nil =>
      obtain ⟨fewer, same⟩ := ends place
      exact .inr ⟨place, fewer, rfl, same⟩
  | cons name names ih =>
      rw [List.cons_append, walk_cons, walk_cons]
      cases t.step place name with
      | stop reason => exact .inl ⟨reason, rfl, rfl⟩
      | go next => exact ih next
      | turn start steps =>
          -- The link is not the last step of either way, so both follow it.
          have inside : ((names ++ rest).isEmpty && !last) = false := by
            rcases goes with follows | occupied
            · simp [follows]
            · simp [occupied]
          simp only [Bool.not_true, Bool.and_false, Bool.false_eq_true, ↓reduceIte, inside]
          rw [← List.append_assoc]
          exact links start (steps ++ names)

/-- A way in two parts. Symbolic links are followed at the end of the first part, whatever happens
to one at the end of the second. -/
theorem resolve_append (t : FileTree) (last : Bool) (links : Nat) (place : Location)
    (names rest : List String) (goes : last = true ∨ rest ≠ []) :
    Extends t last rest (t.resolve true links place names)
      (t.resolve last links place (names ++ rest)) := by
  induction links generalizing place names with
  | zero => exact walk_append goes (fun d => ⟨0, rfl⟩) (fun _ _ => .inl ⟨_, rfl, rfl⟩) place names
  | succ links ih => exact walk_append goes (fun d => ⟨links + 1, rfl⟩) ih place names

theorem walk_mono {l : Location}
    (links : ∀ place names, follow place names = .ok l → follow' place names = .ok l)
    (place : Location) (names : List String)
    (arrived : t.walk last follow place names = .ok l) :
    t.walk last follow' place names = .ok l := by
  induction names generalizing place with
  | nil => exact arrived
  | cons name names ih =>
      rw [walk_cons] at arrived ⊢
      cases step : t.step place name with
      | stop reason =>
          rw [step] at arrived
          cases arrived
      | go next =>
          rw [step] at arrived
          exact ih next arrived
      | turn start steps =>
          rw [step] at arrived
          simp only at arrived ⊢
          split at arrived
          · rename_i ends
            rw [if_pos ends]
            exact arrived
          · rename_i goes
            rw [if_neg goes]
            exact links start (steps ++ names) arrived

theorem resolve_succ {links : Nat} {place l : Location} {names : List String}
    (arrived : t.resolve last links place names = .ok l) :
    t.resolve last (links + 1) place names = .ok l := by
  induction links generalizing place names with
  | zero =>
      refine walk_mono (fun _ _ arrived => ?_) place names arrived
      cases arrived
  | succ links ih => exact walk_mono (fun _ _ => ih) place names arrived

/-- Where a way leads does not hang on how many links it may follow. -/
theorem resolve_unique {few many : Nat} {place l m : Location} {names : List String}
    (first : t.resolve last few place names = .ok l)
    (second : t.resolve last many place names = .ok m) : l = m := by
  have more {links : Nat} {l : Location} (arrived : t.resolve last links place names = .ok l)
      (further : Nat) : t.resolve last (links + further) place names = .ok l := by
    induction further with
    | zero => exact arrived
    | succ further ih => exact resolve_succ ih
  have same := more first many
  rw [Nat.add_comm, more second few, Except.ok.injEq] at same
  exact same.symm

end Cut

section Enter

variable {t : FileTree} {last : Bool} {links : Nat} {d l : Location} {name : String}
  {rest : List String}

@[simp] theorem resolve_nil (t : FileTree) (last : Bool) (links : Nat) (place : Location) :
    t.resolve last links place [] = .ok place := by
  cases links with
  | zero => rfl
  | succ links => rfl

theorem resolve_cons (t : FileTree) (last : Bool) (links : Nat) (d : Location) (name : String)
    (rest : List String) :
    ∃ follow : Location → List String → Except FileError Location,
      t.resolve last links d (name :: rest) =
      match t.step d name with
      | .stop reason => .error reason
      | .go next => t.resolve last links next rest
      | .turn start names =>
        if rest.isEmpty && !last then .ok (d ++ [name]) else follow start (names ++ rest) := by
  cases links with
  | zero => exact ⟨fun _ _ => .error .tooManyLinks, walk_cons rest⟩
  | succ links => exact ⟨t.resolve last links, walk_cons rest⟩

/-- Names lead on from directories only, and only if they are no longer than a name can be. -/
theorem of_resolve_cons (arrived : t.resolve last links d (name :: rest) = .ok l) :
    t.entryAt? d = some .directory ∧ (name ≠ "." ∧ name ≠ ".." → Ordinary name) := by
  obtain ⟨follow, same⟩ := t.resolve_cons last links d name rest
  rw [same] at arrived
  rcases t.step_cases d name with ⟨reason, stop⟩ |
    ⟨directory, ⟨next, special, _, _⟩ | ⟨ordinary, _⟩⟩
  · rw [stop] at arrived
    cases arrived
  · refine ⟨directory, fun proper => ?_⟩
    rcases special with stay | up
    · exact absurd stay proper.1
    · exact absurd up proper.2
  · exact ⟨directory, fun _ => ordinary⟩

theorem resolve_enter (directory : t.entryAt? d = some .directory) (ordinary : Ordinary name)
    (plain : ∀ target, t.entryAt? (d ++ [name]) ≠ some (.link target)) :
    t.resolve last links d (name :: rest) = t.resolve last links (d ++ [name]) rest := by
  obtain ⟨follow, same⟩ := t.resolve_cons last links d name rest
  rw [same, step_ordinary directory ordinary, enter_eq_go plain]

theorem resolve_link (directory : t.entryAt? d = some .directory) (ordinary : Ordinary name) :
    t.resolve false links d [name] = .ok (d ++ [name]) := by
  obtain ⟨follow, same⟩ := t.resolve_cons false links d name []
  rw [same, step_ordinary directory ordinary]
  rcases t.enter_cases d name with ⟨_, go⟩ | ⟨_, _, start, names, _, turn⟩
  · rw [go]
    exact t.resolve_nil false links (d ++ [name])
  · rw [turn]
    rfl

theorem resolve_stay (directory : t.entryAt? d = some .directory) :
    t.resolve last links d ["."] = .ok d := by
  obtain ⟨follow, same⟩ := t.resolve_cons last links d "." []
  rw [same, step, directory]
  exact t.resolve_nil last links d

theorem resolve_end (other : t.entryAt? d ≠ some .directory)
    (arrived : t.resolve last links d rest = .ok l) : rest = [] ∧ l = d := by
  cases rest with
  | nil =>
      rw [resolve_nil, Except.ok.injEq] at arrived
      exact ⟨rfl, arrived.symm⟩
  | cons name rest => exact absurd (of_resolve_cons arrived).1 other

end Enter

section Reach

variable {t : FileTree} {follow : Location → List String → Except FileError Location}
  {place l : Location}

/-- What a way can come to when it follows every symbolic link: all above is directories, and it is
no link itself. -/
structure Reached (t : FileTree) (l : Location) : Prop where
  above : ∀ m, m <+: l → m ≠ l → t.entryAt? m = some .directory
  plain : ∀ target, t.entryAt? l ≠ some (.link target)

theorem reached_root (t : FileTree) : Reached t [] where
  above m root other := absurd (List.prefix_nil.mp root) other
  plain target link := by simp [entryAt?] at link

theorem Reached.up (reached : Reached t place) (directory : t.entryAt? place = some .directory)
    {m : Location} (above : m <+: place) : Reached t m := by
  have there : t.entryAt? m = some .directory := by
    by_cases same : m = place
    · rw [same]
      exact directory
    · exact reached.above m above same
  refine ⟨fun k upper other => reached.above k (upper.trans above) fun same => ?_,
    fun target => by simp [there]⟩
  have back := above.length_le
  rw [← same] at back
  exact other (upper.eq_of_length_le back)

theorem Reached.enter (reached : Reached t place) (directory : t.entryAt? place = some .directory)
    {name : String} (plain : ∀ target, t.entryAt? (place ++ [name]) ≠ some (.link target)) :
    Reached t (place ++ [name]) := by
  refine ⟨fun m above other => ?_, plain⟩
  rcases List.prefix_concat_iff.mp above with same | upper
  · exact absurd same other
  · by_cases same : m = place
    · rw [same]
      exact directory
    · exact reached.above m upper same

theorem walk_reached
    (links : ∀ place names, Reached t place → follow place names = .ok l → Reached t l)
    (names : List String) (reached : Reached t place)
    (arrived : t.walk true follow place names = .ok l) : Reached t l := by
  induction names generalizing place with
  | nil =>
      cases arrived
      exact reached
  | cons name names ih =>
      rw [walk_cons] at arrived
      rcases t.step_cases place name with ⟨reason, stop⟩ |
        ⟨directory, ⟨next, _, above, go⟩ | ⟨ordinary, enters⟩⟩
      · rw [stop] at arrived
        cases arrived
      · rw [go] at arrived
        exact ih (reached.up directory above) arrived
      · rw [enters] at arrived
        rcases t.enter_cases place name with ⟨plain, go⟩ | ⟨_, _, start, steps, above, turn⟩
        · rw [go] at arrived
          exact ih (reached.enter directory plain) arrived
        · rw [turn] at arrived
          simp only [Bool.not_true, Bool.and_false, Bool.false_eq_true, ↓reduceIte] at arrived
          exact links start _ (reached.up directory above) arrived

theorem resolve_reached {links : Nat} {names : List String} (reached : Reached t place)
    (arrived : t.resolve true links place names = .ok l) : Reached t l := by
  induction links generalizing place names with
  | zero =>
      refine walk_reached (fun _ _ _ arrived => ?_) names reached arrived
      cases arrived
  | succ links ih => exact walk_reached (fun _ _ => ih) names reached arrived

end Reach

section Beside

variable {t s : FileTree} {last : Bool} {d : Location} {name : String}
  {follow follow' : Location → List String → Except FileError Location}

/-- The trees agree outside of the name in the directory. -/
def AgreeBeside (t s : FileTree) (d : Location) (name : String) : Prop :=
  ∀ l, ¬ d ++ [name] <+: l → s.entryAt? l = t.entryAt? l

theorem AgreeBeside.directory (agree : AgreeBeside t s d name)
    (directory : t.entryAt? d = some .directory) : s.entryAt? d = some .directory := by
  rw [agree d fun below => absurd below.length_le (by simp), directory]

/-- Two ways end alike, and not at or below the name in the directory; or both come to the name,
with the same names behind it. -/
def Beside (t s : FileTree) (last : Bool) (d : Location) (name : String)
    (first second : Except FileError Location) : Prop :=
  (second = first ∧ ∀ l, first = .ok l → ¬ d ++ [name] <+: l) ∨
    ∃ fewer rest, t.entryAt? d = some .directory ∧ Ordinary name ∧
      first = t.resolve last fewer d (name :: rest) ∧
      second = s.resolve last fewer d (name :: rest)

theorem walk_beside (agree : AgreeBeside t s d name)
    (ends : ∀ rest, ∃ fewer,
      t.walk last follow d (name :: rest) = t.resolve last fewer d (name :: rest) ∧
        s.walk last follow' d (name :: rest) = s.resolve last fewer d (name :: rest))
    (links : ∀ place names, ¬ d ++ [name] <+: place →
      Beside t s last d name (follow place names) (follow' place names))
    (place : Location) (names : List String) (outside : ¬ d ++ [name] <+: place) :
    Beside t s last d name (t.walk last follow place names)
      (s.walk last follow' place names) := by
  induction names generalizing place with
  | nil =>
      refine .inl ⟨rfl, fun l arrived => ?_⟩
      cases arrived
      exact outside
  | cons first names ih =>
      have here := agree place outside
      by_cases meets :
          t.entryAt? place = some .directory ∧ Ordinary first ∧ place ++ [first] = d ++ [name]
      · obtain ⟨directory, ordinary, location⟩ := meets
        obtain ⟨rfl, same⟩ := List.append_inj' location rfl
        cases same
        obtain ⟨fewer, left, right⟩ := ends names
        exact .inr ⟨fewer, names, directory, ordinary, left, right⟩
      · have there (directory : t.entryAt? place = some .directory) (ordinary : Ordinary first) :
            ¬ d ++ [name] <+: place ++ [first] := by
          rw [List.prefix_concat_iff, not_or]
          exact ⟨fun location => meets ⟨directory, ordinary, location.symm⟩, outside⟩
        have same : s.step place first = t.step place first :=
          step_congr here fun directory ordinary => agree _ (there directory ordinary)
        rw [walk_cons, walk_cons, same]
        rcases t.step_cases place first with ⟨reason, stop⟩ |
          ⟨directory, ⟨next, _, above, go⟩ | ⟨ordinary, enters⟩⟩
        · rw [stop]
          exact .inl ⟨rfl, nofun⟩
        · rw [go]
          exact ih next fun below => outside (below.trans above)
        · rw [enters]
          rcases t.enter_cases place first with ⟨_, go⟩ | ⟨_, _, start, steps, above, turn⟩
          · rw [go]
            exact ih _ (there directory ordinary)
          · rw [turn]
            simp only
            split
            · refine .inl ⟨rfl, fun l arrived => ?_⟩
              cases arrived
              exact there directory ordinary
            · exact links start _ fun below => outside (below.trans above)

/-- In trees that agree beside a name in a directory, a way is the same unless it comes to the
name. -/
theorem resolve_beside (agree : AgreeBeside t s d name) (last : Bool) (links : Nat)
    (place : Location) (names : List String) (outside : ¬ d ++ [name] <+: place) :
    Beside t s last d name (t.resolve last links place names)
      (s.resolve last links place names) := by
  induction links generalizing place names with
  | zero =>
      refine walk_beside agree (fun rest => ⟨0, rfl, rfl⟩) (fun _ _ _ => ?_) place names outside
      exact .inl ⟨rfl, nofun⟩
  | succ links ih =>
      exact walk_beside agree (fun rest => ⟨links + 1, rfl, rfl⟩) ih place names outside

end Beside

end HeaderBindings.FileTree
