import HeaderBindings.FileTree.Path

/-!
File trees: directories, files and symbolic links below one root, which is also the working
directory. A tree is a table from locations to entries. Paths are followed to locations first;
reading and writing then look at one place of the table, so what an operation leaves alone can be
read off it.
-/

set_option autoImplicit false

namespace HeaderBindings

/-- The names on the way from the root to a place. -/
abbrev Location := List String

inductive FileTree.Entry
  | directory
  | file (content : ByteArray)
  | link (target : String)

/-- The entries of a tree below its root. -/
structure FileTree where
  entries : List (Location × FileTree.Entry) := []
  distinct : (entries.map Prod.fst).Nodup := by decide

namespace FileTree

def entryAt? (t : FileTree) (l : Location) : Option Entry :=
  if l = [] then some .directory else t.entries.lookup l

def set (t : FileTree) (l : Location) (e : Entry) : FileTree where
  entries := (l, e) :: t.entries.filter fun other => other.1 ≠ l
  distinct := List.nodup_cons.mpr
    ⟨by simp, t.distinct.sublist (List.filter_sublist.map Prod.fst)⟩

/-- The tree without a location and all below it. -/
def erase (t : FileTree) (l : Location) : FileTree where
  entries := t.entries.filter fun other => !l.isPrefixOf other.1
  distinct := t.distinct.sublist (List.filter_sublist.map Prod.fst)

def names (t : FileTree) (l : Location) : List String :=
  let inside := t.entries.filterMap fun (other, _) =>
    match other.getLast? with
    | some name => if other.dropLast = l then some name else none
    | none => none
  inside.mergeSort fun a b => !decide (b < a)

def maxName : Nat := 255

/-- One less than the number of bytes that a path must stay below. -/
def maxPath : Nat := 4095

def maxLinks : Nat := 40

/-- Goes along names from a place. `follow` goes on where a symbolic link leads; one at the end is
followed only if `last` says so. The place reached may hold nothing, but it is in a directory. -/
def walk (t : FileTree) (last : Bool)
    (follow : Location → List String → Except FileError Location) :
    Location → List String → Except FileError Location
  | place, [] => .ok place
  | place, name :: rest =>
    match t.entryAt? place with
    | none => .error .notFound
    | some (.file _) => .error .notDirectory
    | some (.link _) => .error .notDirectory
    | some .directory =>
      if name = "." then walk t last follow place rest
      else if name = ".." then walk t last follow place.dropLast rest
      else if maxName < name.utf8ByteSize then .error .nameTooLong
      else
        let next := place ++ [name]
        match t.entryAt? next with
        | some (.link target) =>
          if rest.isEmpty && !last then .ok next
          else
            let start := if Path.isAbsolute target then [] else place
            follow start (Path.steps target ++ rest)
        | _ => walk t last follow next rest

def resolve (t : FileTree) (last : Bool) :
    Nat → Location → List String → Except FileError Location
  | 0 => walk t last fun _ _ => .error .tooManyLinks
  | links + 1 => walk t last (resolve t last links)

def checkPath (path : String) : Except FileError Unit :=
  if path.toList.contains '\x00' then .error .zeroInName
  else if path = "" then .error .notFound
  else if maxPath < path.utf8ByteSize then .error .nameTooLong
  else .ok ()

/-- The location of a path, which may hold nothing. -/
def locate (t : FileTree) (path : String) : Except FileError Location := do
  checkPath path
  t.resolve true maxLinks [] (Path.steps path)

/-- The location of a path; if a symbolic link is there, that of the link. -/
def locateLink (t : FileTree) (path : String) : Except FileError Location := do
  checkPath path
  t.resolve false maxLinks [] (Path.steps path)

def status (t : FileTree) (path : String) : Except FileError (Location × Entry) := do
  let l ← t.locate path
  match t.entryAt? l with
  | some e => return (l, e)
  | none => .error .notFound

def contains (t : FileTree) (path : String) : Bool := (t.status path).toOption.isSome

def isDirectory (t : FileTree) (path : String) : Bool :=
  match t.status path with
  | .ok (_, .directory) => true
  | _ => false

def readText (t : FileTree) (path : String) : Except FileError String := do
  match ← t.status path with
  | (_, .file content) =>
    match String.fromUTF8? content with
    | some text => return text
    | none => .error .notText
  | (_, .directory) => .error .isDirectory
  | (_, .link _) => .error .tooManyLinks

/-- Writes a file, which is made if need be; its directory has to be there. A slash at the end
asks for a directory, whatever is there. -/
def write (t : FileTree) (path : String) (content : ByteArray) : Except FileError FileTree := do
  checkPath path
  if Path.hasSlashAtEnd path then
    let _ ← t.resolve true maxLinks [] ((Path.names path).dropLast ++ ["."])
    .error .isDirectory
  else
    let l ← t.resolve true maxLinks [] (Path.names path)
    match t.entryAt? l with
    | some .directory => .error .isDirectory
    | _ => return t.set l (.file content)

def writeText (t : FileTree) (path text : String) : Except FileError FileTree :=
  t.write path text.toUTF8

def removeFile (t : FileTree) (path : String) : Except FileError FileTree := do
  let l ← t.locateLink path
  match t.entryAt? l with
  | none => .error .notFound
  | some .directory => .error .isDirectory
  | some _ => return t.erase l

def remove (t : FileTree) (path : String) : Except FileError FileTree := do
  let l ← t.locateLink path
  match t.entryAt? l with
  | none => .error .notFound
  | some _ => if l = [] then .error .invalidArgument else return t.erase l

def list (t : FileTree) (path : String) : Except FileError (List String) := do
  match ← t.status path with
  | (l, .directory) => return t.names l
  | _ => .error .notDirectory

def makeDirectory (t : FileTree) (path : String) : Except FileError FileTree := do
  checkPath path
  let l ← t.resolve false maxLinks [] (Path.names path)
  match t.entryAt? l with
  | some _ => .error .alreadyExists
  | none => return t.set l .directory

/-- Makes a symbolic link. A slash at the end asks for a directory, and only what is there can be
one. -/
def makeLink (t : FileTree) (path target : String) : Except FileError FileTree := do
  checkPath path
  checkPath target
  let l ← t.resolve false maxLinks [] (Path.names path)
  match t.entryAt? l with
  | some _ => .error .alreadyExists
  | none =>
    if Path.hasSlashAtEnd path then .error .notFound else return t.set l (.link target)

/-- Makes a directory, and before it those on the way to it that are missing. The tree comes back
also after a failure, with the directories that were made till then. The fuel bounds the number of
names in the path. -/
def makeDirectoriesFrom (t : FileTree) (path : String) : Nat → FileTree × Except FileError Unit
  | 0 => (t, .error .notFound)
  | fuel + 1 =>
    if path = "" then (t, .ok ())
    else
      match t.makeDirectory path with
      | .ok made => (made, .ok ())
      | .error .notFound =>
        match Path.parent? path with
        | none => (t, .error .notFound)
        | some parent =>
          match makeDirectoriesFrom t parent fuel with
          | (t, .error e) => (t, .error e)
          | (t, .ok ()) =>
            match t.makeDirectory path with
            | .ok made => (made, .ok ())
            | .error e => (t, if t.isDirectory path then .ok () else .error e)
      | .error e => (t, if t.isDirectory path then .ok () else .error e)

def makeDirectories (t : FileTree) (path : String) : FileTree × Except FileError Unit :=
  t.makeDirectoriesFrom path ((Path.names path).length + 2)

inductive Item
  | file (path : String) (content : ByteArray)
  | link (path target : String)
  | directory (path : String)

def make (t : FileTree) : Item → FileTree × Except FileError Unit
  | .directory path => t.makeDirectories path
  | .file path content => into path fun t => t.write path content
  | .link path target => into path fun t => t.makeLink path target
where
  into (path : String) (step : FileTree → Except FileError FileTree) :
      FileTree × Except FileError Unit :=
    match t.makeDirectories ((Path.parent? path).getD "") with
    | (t, .error e) => (t, .error e)
    | (t, .ok ()) =>
      match step t with
      | .ok made => (made, .ok ())
      | .error e => (t, .error e)

def makeAll (t : FileTree) : List Item → FileTree × Except FileError Unit
  | [] => (t, .ok ())
  | item :: items =>
    match t.make item with
    | (t, .ok ()) => t.makeAll items
    | (t, .error e) => (t, .error e)

end FileTree

end HeaderBindings
