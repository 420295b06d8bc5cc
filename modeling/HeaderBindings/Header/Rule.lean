import HeaderBindings.Text.Scan
import HeaderBindings.Text.Word

/-!
Named replacement rules for header text, and the four rules that the ephemeris header needs: its
wrapper macro is defined in the header itself, `const` says nothing about a binding, and two
declarations leave out the name of their only parameter.
-/

set_option autoImplicit false

namespace HeaderBindings.Header

open Text

/-- A named rule: what it looks for, and what it writes instead. -/
structure Rule where
  name : String
  find : Finder

namespace Rule

def apply (rule : Rule) (cs : List Char) : List Char := replaceAll rule.find cs

def openToken : List Char := ['(']

def closeToken : List Char := [')']

/-- What follows `wrapper(word)`, blanks between the tokens being free. -/
def afterHead (wrapper cs : List Char) : Option (List Char) := do
  let cs ← afterLiteral wrapper cs
  let cs ← afterTokens [openToken] cs
  match dropBlanks cs with
  | [] => none
  | c :: cs => if isWord c then afterTokens [closeToken] (cs.dropWhile isWord) else none

/-- Looks for the head behind as many blanks as possible: how many those are, and what follows the
head. -/
def blanksThenHead (wrapper : List Char) : List Char → Option (Nat × List Char)
  | [] => (afterHead wrapper []).map (0, ·)
  | c :: cs =>
    let later := if isBlank c then blanksThenHead wrapper cs else none
    (later.map fun (n, rest) => (n + 1, rest)).or ((afterHead wrapper (c :: cs)).map (0, ·))

/-- The definition of the wrapper macro up to the end of its head; all before the head stays. -/
def definitionHead (wrapper : List Char) : Finder := fun _ cs => do
  let rest ← afterLiteral ['#'] cs
  let rest ← afterTokens [['d', 'e', 'f', 'i', 'n', 'e']] rest
  match rest with
  | [] => none
  | c :: tail =>
    if isBlank c then
      let (n, after) ← blanksThenHead wrapper tail
      let kept := cs.length - tail.length + n
      return ⟨cs.length - after.length, cs.take kept⟩
    else none

/-- Takes the head off the definition of the wrapper macro, so that the definition is not read as
a declaration. -/
def macroDefinition (wrapper : String) : Rule :=
  ⟨"drop-macro-definition", definitionHead wrapper.toList⟩

def constWord : Finder := fun before cs =>
  match afterLiteral ['c', 'o', 'n', 's', 't'] cs with
  | some rest => if isWordAt before || isWordAt rest.head? then none else some ⟨5, []⟩
  | none => none

def stripConst : Rule := ⟨"strip-const", constWord⟩

/-- A call-like list of one unnamed `char *` behind the function's name. -/
def unnamedText (function : String) : Finder := fun _ cs => do
  let rest ← afterLiteral function.toList cs
  let rest ← afterTokens [['('], ['c', 'h', 'a', 'r'], ['*'], [')']] rest
  return ⟨cs.length - rest.length, function.toList ++ "(char *s)".toList⟩

def nameVersionArgument : Rule := ⟨"name-swe-version-arg", unnamedText "swe_version"⟩

def nameLibraryPathArgument : Rule :=
  ⟨"name-swe-get-library-path-arg", unnamedText "swe_get_library_path"⟩

end Rule

end HeaderBindings.Header
