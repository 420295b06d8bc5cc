import HeaderBindings.Digest.Sha256
import HeaderBindings.FileTree.Basic
import HeaderBindings.Stored

/-!
The cache of models. A directory holds one entry file for every header path. An entry carries a
key made of the header's text and the options, and counts only under that key. An entry that
cannot be read back is taken away; one under another key stays until it is overwritten.
-/

set_option autoImplicit false

namespace HeaderBindings

structure CacheEntry where
  hash : String
  model : Model
  deriving DecidableEq, Repr

def Stored.cacheEntry : Json.Codec CacheEntry :=
  .record "CacheEntry" (.cons "hash" none .text <| .cons "model" none model .nil)
    (fun e => (e.hash, e.model, ()))
    (fun (hash, model, ()) => ⟨hash, model⟩)

structure Cache where
  directory : String
  deriving DecidableEq, Repr

namespace Cache

def version : String := "0.1.0"

/-- The version of the entries, in four bytes, the lowest first. It changes whenever the same
header and options would give another model than before. -/
def formatVersion : ByteArray := ⟨#[1, 0, 0, 0]⟩

/-- The bytes that a header and options are known by. -/
def keyBytes (o : Options) (header : String) : ByteArray :=
  version.toUTF8 ++ formatVersion ++ header.toUTF8 ++ (Stored.toText Stored.options o).toUTF8

def key (o : Options) (header : String) : String := Digest.sha256 (keyBytes o header)

/-- The name of the entry file of a header path: whatever could lead out of the directory is
replaced. -/
def entryName (headerPath : String) : String :=
  String.ofList
    (headerPath.toList.map fun c => if c = '/' ∨ c = '\\' ∨ c = ':' then '_' else c) ++ ".json"

def entryPath (c : Cache) (headerPath : String) : String :=
  Path.join c.directory (entryName headerPath)

/-- A cache in the given directory, which is made if it is missing. That it cannot be made is
reported, and shows again when something is stored. -/
def create (t : FileTree) (directory : String) : Cache × FileTree × List LogEntry :=
  if t.contains directory then (⟨directory⟩, t, [])
  else
    match t.makeDirectories directory with
    | (t, .ok ()) => (⟨directory⟩, t, [])
    | (t, .error e) =>
      (⟨directory⟩, t,
        [⟨.warn, "Failed to create cache directory " ++ directory ++ ": " ++ e.message⟩])

inductive Lookup
  | absent
  | unreadable
  | corrupt (fault : Json.Fault)
  | stale
  | hit (model : Model)
  deriving DecidableEq, Repr

namespace Lookup

def model? : Lookup → Option Model
  | hit m => some m
  | _ => none

def log (headerPath : String) : Lookup → List LogEntry
  | absent => []
  | unreadable => []
  | corrupt fault =>
    [⟨.debug, "Cache deserialization failed for " ++ headerPath ++ ": " ++ fault.message⟩]
  | stale => [⟨.debug, "Cache stale for " ++ headerPath⟩]
  | hit _ => [⟨.debug, "Cache hit for " ++ headerPath⟩]

end Lookup

def lookup (c : Cache) (t : FileTree) (headerPath header : String) (o : Options) : Lookup :=
  let path := c.entryPath headerPath
  if !t.contains path then .absent
  else
    match t.readText path with
    | .error _ => .unreadable
    | .ok text =>
      match Stored.ofText Stored.cacheEntry text with
      | .error fault => .corrupt fault
      | .ok entry => if entry.hash = key o header then .hit entry.model else .stale

/-- The files after a look: a corrupt entry is taken away. -/
def afterLookup (c : Cache) (t : FileTree) (headerPath : String) : Lookup → FileTree
  | .corrupt _ => (t.removeFile (c.entryPath headerPath)).toOption.getD t
  | _ => t

def get (c : Cache) (t : FileTree) (headerPath header : String) (o : Options) :
    Option Model × FileTree × List LogEntry :=
  let found := c.lookup t headerPath header o
  (found.model?, c.afterLookup t headerPath found, found.log headerPath)

def set (c : Cache) (t : FileTree) (headerPath header : String) (o : Options) (m : Model) :
    Except FileError FileTree :=
  t.writeText (c.entryPath headerPath) (Stored.toText Stored.cacheEntry ⟨key o header, m⟩)

/-- The bindings of a header. A model that is stored under the same header and options is used
again; else it is built and stored, and that it cannot be stored is reported only. -/
def generate (c : Cache) (t : FileTree) (headerPath header : String) (o : Options) :
    Except Failure Bindings × FileTree × List LogEntry :=
  match c.get t headerPath header o with
  | (some m, t, log) => (.ok (.ofModel o m), t, log)
  | (none, t, log) =>
    match Model.build o header with
    | .error failure => (.error failure, t, log)
    | .ok m =>
      match c.set t headerPath header o m with
      | .ok t => (.ok (.ofModel o m), t, log ++ m.buildLog)
      | .error e =>
        (.ok (.ofModel o m), t,
          log ++ m.buildLog ++
            [⟨.warn, "Failed to write cache entry for " ++ headerPath ++ ": "
              ++ (Failure.file e).message⟩])

end Cache

end HeaderBindings
