import HeaderBindings.Header.Rule

/-!
From header text to candidates. A policy brings the text into a normal form: block comments go
first, then its rules apply in order, and at last white space is collapsed. A candidate starts where
the wrapper macro stands as a word of its own with an opening parenthesis behind it, and ends at the
next semicolon.
-/

set_option autoImplicit false

namespace HeaderBindings.Header

open Text

def throughCloser : List Char → Option Nat
  | [] => none
  | [_] => none
  | c :: d :: cs =>
    if c = '*' ∧ d = '/' then some 2 else (throughCloser (d :: cs)).map (· + 1)

/-- A block comment: an opener, and all up to the first closer behind it. Comments do not nest, and
an opener without a closer behind it is plain text. -/
def blockComment : Finder := fun _ cs =>
  match cs with
  | '/' :: '*' :: rest => (throughCloser rest).map fun n => ⟨n + 2, []⟩
  | _ => none

def stripComments (cs : List Char) : List Char := replaceAll blockComment cs

/-- Writes one space for each run of blanks; `inRun` says that the character before was one. -/
def squeeze (inRun : Bool) : List Char → List Char
  | [] => []
  | c :: cs =>
    if isBlank c then
      if inRun then squeeze true cs else ' ' :: squeeze true cs
    else c :: squeeze false cs

/-- The text with one space for each run of blanks, and without those at the ends. -/
def collapse (cs : List Char) : List Char := trim (squeeze false cs)

/-- The replacement rules of a header, in the order in which they apply. -/
structure Policy where
  rules : List Rule := []

namespace Policy

/-- No rules; comments and white space are still normalised. -/
def empty : Policy := {}

/-- The rules for the ephemeris header, its wrapper macro having the given name. -/
def forWrapper (wrapper : String) : Policy where
  rules := [.macroDefinition wrapper, .stripConst, .nameVersionArgument, .nameLibraryPathArgument]

def standard : Policy := forWrapper "ext_def"

def withRule (policy : Policy) (rule : Rule) : Policy where
  rules := policy.rules ++ [rule]

def rule? (policy : Policy) (name : String) : Option Rule :=
  policy.rules.find? (·.name = name)

def ruleNames (policy : Policy) : List String := policy.rules.map (·.name)

/-- The header text in normal form. -/
def apply (policy : Policy) (cs : List Char) : List Char :=
  collapse (policy.rules.foldl (fun text rule => rule.apply text) (stripComments cs))

end Policy

def candidate (wrapper : List Char) : Finder := fun before cs =>
  if isWordBoundary before cs.head? then do
    let rest ← afterLiteral wrapper cs
    let rest ← afterTokens [['(']] rest
    let rest ← afterLiteral [';'] (rest.dropWhile (· ≠ ';'))
    return ⟨cs.length - rest.length, []⟩
  else none

def candidatesOf (wrapper text : List Char) : List (List Char) := spans (candidate wrapper) text

def candidates (policy : Policy) (wrapper header : List Char) : List (List Char) :=
  candidatesOf wrapper (policy.apply header)

end HeaderBindings.Header
