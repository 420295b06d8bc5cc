import HeaderBindings.Bindings
import HeaderBindings.FileTree.Basic

/-!
Finding the header in a source tree. The tree is walked in depth, the names in each directory in
order and symbolic links followed, except those that lead back to a directory on the way. What a
regular file is, its directory tells; every other entry is asked for by its path, and passed over
where the path cannot be followed.
-/

set_option autoImplicit false

namespace HeaderBindings.Discovery

def isLink : FileTree.Entry → Bool
  | .link _ => true
  | _ => false

/-- The answer for an entry that is asked for by its path. A directory is searched, unless a link
leads back to it on the way. -/
def ask (t : FileTree) (wanted : Bool) (way : List Location) (entry : FileTree.Entry)
    (path : String) (below : Location → String → Option String) : Option String :=
  match t.status path with
  | .error _ => none
  | .ok (next, .directory) => if isLink entry && way.contains next then none else below next path
  | .ok (_, _) => if wanted then some path else none

/-- The answer for a name in the directory at `place`, which is reached by the path; `above` are the
directories on the way to it. -/
def answer (t : FileTree) (name : String) (above : List Location) (place : Location) (path : String)
    (below : Location → String → Option String) (child : String) : Option String :=
  let inside := Path.join path child
  match t.entryAt? (place ++ [child]) with
  | none => none
  | some (.file _) => if child = name then some inside else none
  | some entry => ask t (child = name) (place :: above) entry inside below

/-- The path of the first file with a name below a directory. The fuel bounds the depth. -/
def search (t : FileTree) (name : String) :
    Nat → List Location → Location → String → Option String
  | 0, _, _, _ => none
  | fuel + 1, above, place, path =>
    (t.names place).findSome? <| answer t name above place path fun next inside =>
      search t name fuel (place :: above) next inside

/-- A depth that no walk exceeds: on the way down there are at most as many links as directories,
and between two links no more names than entries. -/
def maxDepth (t : FileTree) : Nat := (t.entries.length + 2) * (t.entries.length + 2)

def locate? (t : FileTree) (root name : String) : Option String :=
  match t.status root with
  | .error _ => none
  | .ok (place, .directory) => search t name (maxDepth t) [] place root
  | .ok (_, _) => if Path.fileName root = name then some root else none

def locateHeader (t : FileTree) (root name : String) : Except Failure String :=
  match locate? t root name with
  | some path => .ok path
  | none => .error (.headerNotFound root name)

def readHeader (t : FileTree) (root : String) (o : Options) : Except Failure String := do
  let path ← locateHeader t root o.headerFile
  match t.readText path with
  | .ok header => return header
  | .error e => .error (.file e)

def generate (t : FileTree) (root : String) (o : Options) : Except Failure Bindings := do
  Bindings.generate o (← readHeader t root o)

end HeaderBindings.Discovery
