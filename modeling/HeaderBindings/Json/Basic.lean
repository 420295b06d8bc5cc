import HeaderBindings.Decimal.Shortest
import HeaderBindings.Text.Quoted

/-!
JSON values as they are read, and what can be wrong with them. A text that stops being JSON at
some point is read up to there: the tree then ends in `cut`, and whoever uses the values meets the
first fault of the text, of syntax or of meaning, in reading order.
-/

set_option autoImplicit false

namespace HeaderBindings

inductive Json.Number
  /-- Written without fraction or exponent, and between `-2 ^ 63` and `2 ^ 64 - 1`. -/
  | integer (n : Int)
  /-- Any other number, as the bits of a double. -/
  | real (bits : UInt64)
  | beyond
  deriving DecidableEq, Repr

inductive Json.Kind
  | null
  | boolean (b : Bool)
  | integer (n : Int)
  | real (bits : UInt64)
  | text (s : String)
  | sequence
  | map
  deriving DecidableEq, Repr

inductive Json.Key
  | text (s : String)
  | unpaired
  /-- No string; if it is a value of its own, then of this kind. -/
  | misplaced (kind : Option Json.Kind)
  deriving DecidableEq, Repr

/-- A JSON value. A string with an unpaired surrogate has no text. -/
inductive Json
  | null
  | boolean (b : Bool)
  | number (n : Json.Number)
  | text (s : Option String)
  | array (items : List Json)
  | object (members : List (Json.Key × Json))
  /-- From here on the text is not JSON. -/
  | cut
  deriving Repr

namespace Json

def kind? : Json → Option Kind
  | null => some .null
  | boolean b => some (.boolean b)
  | number (.integer n) => some (.integer n)
  | number (.real bits) => some (.real bits)
  | number .beyond => none
  | text s => s.map .text
  | array _ => some .sequence
  | object _ => some .map
  | cut => none

mutual

def isWhole : Json → Bool
  | array items => areWhole items
  | object members => membersWhole members
  | cut => false
  | _ => true

def areWhole : List Json → Bool
  | [] => true
  | v :: vs => v.isWhole && areWhole vs

def membersWhole : List (Key × Json) → Bool
  | [] => true
  | (.misplaced _, _) :: _ => false
  | (_, v) :: ms => v.isWhole && membersWhole ms

end

def Kind.message : Kind → String
  | null => "null"
  | boolean b => "boolean `" ++ (if b then "true" else "false") ++ "`"
  | integer n => "integer `" ++ toString n ++ "`"
  | real bits => "floating point `" ++ Decimal.ofDouble bits ++ "`"
  | text s => "string " ++ Text.quoted s
  | sequence => "sequence"
  | map => "map"

/-- What a reader looks for. -/
inductive Wanted
  | text
  | boolean
  | size
  | sequence
  | record (title : String)
  | fields (title : String) (count : Nat)
  | fewer
  | choice
  | choiceName
  | choiceMember
  | nothing
  deriving DecidableEq, Repr

def Wanted.message : Wanted → String
  | text => "a string"
  | boolean => "a boolean"
  | size => "usize"
  | sequence => "a sequence"
  | record title => "struct " ++ title
  | fields title count => "struct " ++ title ++ " with " ++ toString count ++ " elements"
  | fewer => "fewer elements in array"
  | choice => "string or map"
  | choiceName => "variant identifier"
  | choiceMember => "map with a single key"
  | nothing => "unit"

inductive Fault
  /-- The text is not JSON as far as it was read, or something follows the value. -/
  | notJson
  | invalidType (found : Kind) (wanted : Wanted)
  | invalidValue (found : Kind) (wanted : Wanted)
  | invalidLength (given : Nat) (wanted : Wanted)
  | missingField (name : String)
  | duplicateField (name : String)
  | unknownChoice (name : String) (choices : List String)
  deriving DecidableEq, Repr

def quotedNames (names : List String) : String :=
  ", ".intercalate (names.map fun n => "`" ++ n ++ "`")

def Fault.message : Fault → String
  | notJson => "<json syntax>"
  | invalidType found wanted =>
    "invalid type: " ++ found.message ++ ", expected " ++ wanted.message
  | invalidValue found wanted =>
    "invalid value: " ++ found.message ++ ", expected " ++ wanted.message
  | invalidLength given wanted =>
    "invalid length " ++ toString given ++ ", expected " ++ wanted.message
  | missingField name => "missing field `" ++ name ++ "`"
  | duplicateField name => "duplicate field `" ++ name ++ "`"
  | unknownChoice name choices =>
    "unknown variant `" ++ name ++ "`, expected one of " ++ quotedNames choices

def unexpected (v : Json) (wanted : Wanted) : Fault :=
  match v.kind? with
  | some kind => .invalidType kind wanted
  | none => .notJson

end Json

end HeaderBindings
