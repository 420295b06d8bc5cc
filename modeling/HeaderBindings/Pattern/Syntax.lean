import HeaderBindings.Text.Blank
import HeaderBindings.Text.Word

set_option autoImplicit false

namespace HeaderBindings

namespace Pattern

inductive Class
  | blank
  | word
  | decimal
  deriving DecidableEq, Repr

def Class.contains : Class → Char → Bool
  | blank, c => Text.isBlank c
  | word, c => Text.isWord c
  | decimal, c => Text.isDecimal c

inductive Item
  | range (first last : Char)
  | named (cls : Class) (negated : Bool)
  deriving DecidableEq, Repr

def Item.contains : Item → Char → Bool
  | range first last, c => first ≤ c && c ≤ last
  | named cls negated, c => cls.contains c != negated

/-- A set of characters: those of some items, or all others. -/
structure CharSet where
  negated : Bool
  items : List Item
  deriving DecidableEq, Repr

namespace CharSet

def contains (s : CharSet) (c : Char) : Bool := s.items.any (·.contains c) != s.negated

def single (c : Char) : CharSet := ⟨false, [.range c c]⟩

def named (cls : Class) (negated : Bool) : CharSet := ⟨false, [.named cls negated]⟩

def notLineFeed : CharSet := ⟨true, [.range '\n' '\n']⟩

end CharSet

inductive Assertion
  | textStart
  | textEnd
  | wordBoundary
  | noWordBoundary
  | wordStart
  | wordEnd
  deriving DecidableEq, Repr

/-- Whether the condition holds between two neighbours, `none` being an end of the text. -/
def Assertion.holds : Assertion → Option Char → Option Char → Bool
  | textStart, before, _ => before.isNone
  | textEnd, _, after => after.isNone
  | wordBoundary, before, after => Text.isWordBoundary before after
  | noWordBoundary, before, after => !Text.isWordBoundary before after
  | wordStart, before, after => !Text.isWordAt before && Text.isWordAt after
  | wordEnd, before, after => Text.isWordAt before && !Text.isWordAt after

/-- An expression. Earlier alternatives come before later ones, and a greedy repetition tries one
more round before it goes on. -/
inductive Expr
  | empty
  | chars (set : CharSet)
  | assertion (a : Assertion)
  | group (index : Nat) (body : Expr)
  | both (first second : Expr)
  | either (first second : Expr)
  | rounds (least : Nat) (most : Option Nat) (greedy : Bool) (body : Expr)
  deriving DecidableEq, Repr

def Expr.isWidthless : Expr → Bool
  | empty => true
  | chars _ => false
  | assertion _ => true
  | group _ body => body.isWidthless
  | both first second => first.isWidthless && second.isWidthless
  | either first second => first.isWidthless && second.isWidthless
  | rounds _ most _ body => most == some 0 || body.isWidthless

end Pattern

/-- A pattern: an expression, and the names of its groups with their indices. -/
structure Pattern where
  expr : Pattern.Expr
  names : List (String × Nat)
  deriving DecidableEq, Repr

end HeaderBindings
