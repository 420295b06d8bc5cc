import HeaderBindings.Json.Literal

set_option autoImplicit false

namespace HeaderBindings.Json

def Number.write : Number → List Char
  | integer n => (toString n).toList
  | real bits => (Decimal.ofDouble bits).toList
  | beyond => ['n', 'u', 'l', 'l']

/-- The text of a key; one without a text is written as the empty string. -/
def Key.write : Key → List Char
  | text s => Literal.write s
  | _ => Literal.write ""

mutual

def write : Json → List Char
  | null => ['n', 'u', 'l', 'l']
  | boolean true => ['t', 'r', 'u', 'e']
  | boolean false => ['f', 'a', 'l', 's', 'e']
  | number n => n.write
  | text s => Literal.write (s.getD "")
  | array [] => ['[', ']']
  | array (v :: vs) => '[' :: v.write ++ writeItems vs
  | object [] => ['{', '}']
  | object ((k, v) :: ms) => '{' :: k.write ++ ':' :: v.write ++ writeMembers ms
  | cut => []

/-- The elements after the first, each behind a comma, and the closing bracket. -/
def writeItems : List Json → List Char
  | [] => [']']
  | v :: vs => ',' :: v.write ++ writeItems vs

def writeMembers : List (Key × Json) → List Char
  | [] => ['}']
  | (k, v) :: ms => ',' :: k.write ++ ':' :: v.write ++ writeMembers ms

end

def toText (v : Json) : String := String.ofList v.write

end HeaderBindings.Json
