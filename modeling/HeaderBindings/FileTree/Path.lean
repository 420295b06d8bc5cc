set_option autoImplicit false

namespace HeaderBindings

inductive FileError
  | notFound
  | alreadyExists
  | notDirectory
  | isDirectory
  | invalidArgument
  | nameTooLong
  | notEmpty
  | tooManyLinks
  | notText
  | zeroInName
  deriving DecidableEq, Repr

def FileError.message : FileError → String
  | notFound => "No such file or directory (os error 2)"
  | alreadyExists => "File exists (os error 17)"
  | notDirectory => "Not a directory (os error 20)"
  | isDirectory => "Is a directory (os error 21)"
  | invalidArgument => "Invalid argument (os error 22)"
  | nameTooLong => "File name too long (os error 36)"
  | notEmpty => "Directory not empty (os error 39)"
  | tooManyLinks => "Too many levels of symbolic links (os error 40)"
  | notText => "stream did not contain valid UTF-8"
  | zeroInName => "file name contained an unexpected NUL byte"

namespace Path

def splitSlashes : List Char → List (List Char)
  | [] => [[]]
  | c :: cs =>
    if c = '/' then [] :: splitSlashes cs
    else
      match splitSlashes cs with
      | [] => [[c]]
      | name :: names => (c :: name) :: names

def isAbsolute (path : String) : Bool := path.toList.head? = some '/'

/-- Whether the path ends in a slash, which asks for a directory. -/
def hasSlashAtEnd (path : String) : Bool := path.toList.getLast? = some '/'

/-- The names of a path, in order; slashes side by side count as one. -/
def names (path : String) : List String :=
  ((splitSlashes path.toList).filter (!·.isEmpty)).map String.ofList

/-- The names that a path is followed along: a slash at the end counts as one more step that stays
in the directory. -/
def steps (path : String) : List String :=
  names path ++ if hasSlashAtEnd path then ["."] else []

def join (directory name : String) : String :=
  if directory = "" ∨ hasSlashAtEnd directory then directory ++ name
  else directory ++ "/" ++ name

/-- The last name of a path, or the path itself if it has none. -/
def fileName (path : String) : String := (names path).getLast?.getD path

/-- The names of a path without steps that stay where they are; a path that begins with such a
step keeps it. -/
def components (path : String) : List String :=
  match names path with
  | [] => []
  | name :: rest =>
    let rest := rest.filter (· ≠ ".")
    if name = "." ∧ isAbsolute path then rest else name :: rest

def parent? (path : String) : Option String :=
  match components path with
  | [] => none
  | names =>
    let root := if isAbsolute path then "/" else ""
    some (root ++ "/".intercalate names.dropLast)

end Path

end HeaderBindings
