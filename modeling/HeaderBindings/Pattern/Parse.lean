import HeaderBindings.Pattern.Syntax

/-!
Reading patterns. Main function: `Pattern.ofText?`, which has no answer for a malformed pattern.
The language has literals, escapes, sets of characters, groups with and without a name,
alternatives, repetitions and conditions; it has no references back, no look-around, and no set
inside a set.
-/

set_option autoImplicit false

namespace HeaderBindings.Pattern

/-- Where reading is: what is left of the text, how many groups were opened, and their names. -/
structure ParseState where
  rest : List Char
  groups : Nat
  names : List (String × Nat)

/-- Reading that may find the pattern malformed. -/
abbrev Parser := StateT ParseState Option

def malformed {α : Type} : Parser α := fun _ => none

def peek : Parser (List Char) := do return (← get).rest

def goOn (rest : List Char) : Parser Unit := modify fun s => { s with rest }

def controlEscape? : Char → Option Char
  | 'a' => some '\x07'
  | 'f' => some '\x0c'
  | 'n' => some '\n'
  | 'r' => some '\r'
  | 't' => some '\t'
  | 'v' => some '\x0b'
  | _ => none

/-- The class that a letter stands for behind a backslash, and whether it is negated. -/
def classEscape? : Char → Option (Class × Bool)
  | 's' => some (.blank, false)
  | 'S' => some (.blank, true)
  | 'w' => some (.word, false)
  | 'W' => some (.word, true)
  | 'd' => some (.decimal, false)
  | 'D' => some (.decimal, true)
  | _ => none

def assertionEscape? : Char → Option Assertion
  | 'b' => some .wordBoundary
  | 'B' => some .noWordBoundary
  | 'A' => some .textStart
  | 'z' => some .textEnd
  | '<' => some .wordStart
  | '>' => some .wordEnd
  | _ => none

/-- Whether a character behind a backslash stands for itself: ASCII, and neither a letter nor a
digit nor an angle bracket. -/
def isPlainEscape (c : Char) : Bool :=
  c.toNat < 0x80 && !c.isAlphanum && c != '<' && c != '>'

def charEscape? (c : Char) : Option Char :=
  if isPlainEscape c then some c else controlEscape? c

/-- One member of a set, if it is no class: what a range can start or end with. -/
inductive Member
  | char (c : Char)
  | named (cls : Class) (negated : Bool)

def readMember : Parser Member := do
  match ← peek with
  | '\\' :: c :: rest =>
    goOn rest
    match charEscape? c, classEscape? c with
    | some c, _ => return .char c
    | none, some (cls, negated) => return .named cls negated
    | none, none => malformed
  | ['\\'] => malformed
  | c :: rest =>
    goOn rest
    return .char c
  | [] => malformed

def readItem : Parser Item := do
  let first ← readMember
  match ← peek with
  | [] => malformed
  | '-' :: next :: rest =>
    if next = ']' then plain first
    else
      goOn (next :: rest)
      match first, ← readMember with
      | .char a, .char b => if a ≤ b then return .range a b else malformed
      | _, _ => malformed
  | _ => plain first
where
  plain : Member → Parser Item
    | .char c => return .range c c
    | .named cls negated => return .named cls negated

def isSetOperator : List Char → Bool
  | '&' :: '&' :: _ => true
  | '-' :: '-' :: _ => true
  | '~' :: '~' :: _ => true
  | _ => false

/-- Reads the items of a set up to its closing bracket; the fuel bounds their number. -/
def readItems : Nat → Parser (List Item)
  | 0 => malformed
  | fuel + 1 => do
    let cs ← peek
    match cs with
    | ']' :: rest =>
      goOn rest
      return []
    | '[' :: _ => malformed
    | _ =>
      if isSetOperator cs then malformed
      else
        let item ← readItem
        return item :: (← readItems fuel)

/-- Reads the minus signs at the start of a set, which stand for themselves. -/
def readMinuses : Nat → Parser (List Item)
  | 0 => return []
  | fuel + 1 => do
    match ← peek with
    | '-' :: rest =>
      goOn rest
      return .range '-' '-' :: (← readMinuses fuel)
    | _ => return []

/-- Reads a set behind its opening bracket. A closing bracket that would leave it empty stands for
itself. -/
def readSet : Parser CharSet := do
  let negated ←
    match ← peek with
    | '^' :: rest => do
      goOn rest
      pure true
    | _ => pure false
  let fuel := (← peek).length + 1
  let minuses ← readMinuses fuel
  let bracket ←
    match minuses, ← peek with
    | [], ']' :: rest => do
      goOn rest
      pure [.range ']' ']']
    | _, _ => pure []
  return ⟨negated, minuses ++ bracket ++ (← readItems fuel)⟩

def readEscape : Parser Expr := do
  match ← peek with
  | [] => malformed
  | c :: rest =>
    goOn rest
    match charEscape? c, classEscape? c, assertionEscape? c with
    | some c, _, _ => return .chars (.single c)
    | none, some (cls, negated), _ => return .chars (.named cls negated)
    | none, none, some a => return .assertion a
    | none, none, none => malformed

/-- Reads a decimal number of at most 32 bits, blanks around it being free. -/
def readCount : Parser Nat := do
  let cs := Text.dropBlanks (← peek)
  let digits := cs.takeWhile Char.isDigit
  let count := digits.foldl (fun n c => 10 * n + (c.toNat - '0'.toNat)) 0
  if digits.isEmpty || UInt32.size ≤ count then malformed
  else
    goOn (Text.dropBlanks (cs.dropWhile Char.isDigit))
    return count

def readGreedy : Parser Bool := do
  match ← peek with
  | '?' :: rest =>
    goOn rest
    return false
  | _ => return true

def readBounds : Parser (Nat × Option Nat) := do
  let least ← readCount
  let bounds ←
    match ← peek with
    | ',' :: '}' :: _ => do
      goOn (← peek).tail
      pure (least, none)
    | ',' :: rest => do
      goOn rest
      pure (least, some (← readCount))
    | _ => pure (least, some least)
  match ← peek with
  | '}' :: rest =>
    goOn rest
    if bounds.2.all (least ≤ ·) then return bounds else malformed
  | _ => malformed

def readRepetition? : Parser (Option (Nat × Option Nat)) := do
  match ← peek with
  | '*' :: rest =>
    goOn rest
    return some (0, none)
  | '+' :: rest =>
    goOn rest
    return some (1, none)
  | '?' :: rest =>
    goOn rest
    return some (0, some 1)
  | '{' :: rest =>
    goOn rest
    return some (← readBounds)
  | _ => return none

def isNameStart (c : Char) : Bool :=
  c == '_' || (Text.isWord c && !Text.isDecimal c)

def isNameChar (c : Char) : Bool :=
  Text.isWord c || c == '.' || c == '[' || c == ']'

def readName : Parser String := do
  let cs ← peek
  let name := cs.takeWhile (· ≠ '>')
  match name, cs.dropWhile (· ≠ '>') with
  | c :: more, _ :: rest =>
    if isNameStart c && more.all isNameChar then
      goOn rest
      return String.ofList name
    else malformed
  | _, _ => malformed

/-- Opens a group: its index, if it has one. -/
def openGroup : Parser (Option Nat) := do
  match ← peek with
  | '?' :: ':' :: rest =>
    goOn rest
    return none
  | '?' :: 'P' :: '<' :: rest => named rest
  | '?' :: '<' :: rest => named rest
  | '?' :: _ => malformed
  | _ => return some (← next)
where
  next : Parser Nat := do
    let index := (← get).groups + 1
    modify fun s => { s with groups := index }
    return index
  named (rest : List Char) : Parser (Option Nat) := do
    goOn rest
    let name ← readName
    if (← get).names.any (·.1 = name) then malformed
    else
      let index ← next
      modify fun s => { s with names := (name, index) :: s.names }
      return some index

/-- The expressions in order, the last of them first in the list. -/
def inOrder : List Expr → Expr
  | [] => .empty
  | [e] => e
  | e :: es => es.foldl (fun later earlier => .both earlier later) e

mutual

/-- Reads alternatives up to a closing parenthesis or the end. The fuel bounds the steps. -/
def readAlternatives : Nat → Parser Expr
  | 0 => malformed
  | fuel + 1 => do
    let first ← readSequence fuel []
    match ← peek with
    | '|' :: rest =>
      goOn rest
      return .either first (← readAlternatives fuel)
    | _ => return first

/-- Reads what follows expressions of one alternative, the last of which is first in the list. -/
def readSequence : Nat → List Expr → Parser Expr
  | 0, _ => malformed
  | fuel + 1, read => do
    match ← readRepetition? with
    | some (least, most) =>
      match read with
      | [] => malformed
      | last :: before =>
        let greedy ← readGreedy
        readSequence fuel (.rounds least most greedy last :: before)
    | none =>
      match ← peek with
      | [] => return inOrder read
      | '|' :: _ => return inOrder read
      | ')' :: _ => return inOrder read
      | c :: rest =>
        goOn rest
        let e ← readAtom fuel c
        readSequence fuel (e :: read)

def readAtom : Nat → Char → Parser Expr
  | 0, _ => malformed
  | fuel + 1, c => do
    match c with
    | '(' =>
      let index ← openGroup
      let body ← readAlternatives fuel
      match ← peek with
      | ')' :: rest =>
        goOn rest
        match index with
        | some index => return .group index body
        | none => return body
      | _ => malformed
    | '[' => return .chars (← readSet)
    | '\\' => readEscape
    | '.' => return .chars .notLineFeed
    | '^' => return .assertion .textStart
    | '$' => return .assertion .textEnd
    | c => return .chars (.single c)

end

def ofText? (text : String) : Option Pattern := do
  let cs := text.toList
  let (expr, state) ← readAlternatives (3 * cs.length + 3) ⟨cs, 0, []⟩
  if state.rest.isEmpty then return ⟨expr, state.names⟩ else none

end HeaderBindings.Pattern
