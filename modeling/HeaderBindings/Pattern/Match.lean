import HeaderBindings.Pattern.Program
import Std.Data.HashSet

set_option autoImplicit false

namespace HeaderBindings

namespace Pattern

/-- One way to go on with a program: an address, a place of the text, and what the groups took. -/
structure Thread where
  address : Nat
  before : Option Char
  rest : List Char
  taken : Nat
  /-- For each group, latest first, how much was taken when it was opened, and what was left. -/
  opened : List (Nat × Nat × List Char)
  /-- For each group, latest first, its text. -/
  closed : List (Nat × List Char)

namespace Thread

def goTo (thread : Thread) (address : Nat) : Thread := { thread with address }

def next (thread : Thread) : Thread := thread.goTo (thread.address + 1)

def sinceOpened (thread : Thread) (index : Nat) : List Char :=
  match thread.opened.lookup index with
  | some (taken, rest) => rest.take (thread.taken - taken)
  | none => []

def after (thread : Thread) : Step → List Thread
  | .take set =>
    match thread.rest with
    | [] => []
    | c :: rest =>
      if set.contains c then
        [{ thread.next with before := some c, rest, taken := thread.taken + 1 }]
      else []
  | .check a => if a.holds thread.before thread.rest.head? then [thread.next] else []
  | .opening index =>
    [{ thread.next with opened := (index, thread.taken, thread.rest) :: thread.opened }]
  | .closing index =>
    [{ thread.next with closed := (index, thread.sinceOpened index) :: thread.closed }]
  | .fork first second => [thread.goTo first, thread.goTo second]
  | .jump target => [thread.goTo target]
  | .accept => []

end Thread

/-- The first thread to accept, of the threads and all that come out of them. A thread at an
address and place where one has been cannot do better, and is dropped. -/
def firstAccepting (program : Array Step) :
    Nat → Std.HashSet (Nat × Nat) → List Thread → Option Thread
  | 0, _, _ => none
  | _ + 1, _, [] => none
  | fuel + 1, visited, thread :: threads =>
    if visited.contains (thread.address, thread.taken) then
      firstAccepting program fuel visited threads
    else
      match program[thread.address]? with
      | none => firstAccepting program fuel visited threads
      | some .accept => some thread
      | some step =>
        firstAccepting program fuel (visited.insert (thread.address, thread.taken))
          (thread.after step ++ threads)

/-- What a pattern took: how many characters, and the text of each group that has one. -/
structure Match where
  length : Nat
  groups : List (Nat × List Char)

def Match.group? (found : Match) (index : Nat) : Option (List Char) := found.groups.lookup index

/-- The preferred match of a program at the start of a text, behind the given character. Each pair
of address and place is left once, for at most two others, which bounds the search. -/
def matchAt (program : Array Step) (before : Option Char) (cs : List Char) : Option Match :=
  let fuel := 2 * program.size * (cs.length + 1) + 2
  (firstAccepting program fuel ∅ [⟨0, before, cs, 0, [], []⟩]).map fun thread =>
    ⟨thread.taken, (0, cs.take thread.taken) :: thread.closed⟩

end Pattern

end HeaderBindings
