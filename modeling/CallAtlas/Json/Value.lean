import CallAtlas.Text.Digit
import CallAtlas.Text.Hex

/-!
# Writing JSON

Values as the library writes them: without blanks, object members in the order
given, and in a string only what has to be escaped.
-/

namespace CallAtlas.Json

inductive Value where
  | natural (n : Nat)
  | text (content : String)
  | array (items : List Value)
  | object (members : List (String × Value))
deriving Repr

namespace Value

def escape (c : Char) : List Char :=
  match c with
  | '"' => ['\\', '"']
  | '\\' => ['\\', '\\']
  | '\x08' => ['\\', 'b']
  | '\t' => ['\\', 't']
  | '\n' => ['\\', 'n']
  | '\x0c' => ['\\', 'f']
  | '\r' => ['\\', 'r']
  | c => if c.toNat < 0x20 then ['\\', 'u'] ++ Text.hexDigits 4 c.toNat else [c]

def quote (content : String) : List Char :=
  '"' :: content.toList.flatMap escape ++ ['"']

mutual

def chars : Value → List Char
  | natural n => Text.digitsOf n
  | text content => quote content
  | array items => '[' :: itemChars items ++ [']']
  | object members => '\x7b' :: memberChars members ++ ['\x7d']
termination_by structural value => value

/-- The elements of an array, commas between them. -/
def itemChars : List Value → List Char
  | [] => []
  | value :: rest => chars value ++ moreItems rest
termination_by structural items => items

/-- The elements of an array, a comma before each. -/
def moreItems : List Value → List Char
  | [] => []
  | value :: rest => ',' :: chars value ++ moreItems rest
termination_by structural items => items

def memberChars : List (String × Value) → List Char
  | [] => []
  | member :: rest => oneMember member ++ moreMembers rest
termination_by structural members => members

def moreMembers : List (String × Value) → List Char
  | [] => []
  | member :: rest => ',' :: oneMember member ++ moreMembers rest
termination_by structural members => members

def oneMember : String × Value → List Char
  | (key, value) => quote key ++ ':' :: chars value
termination_by structural member => member

end

def render (value : Value) : String :=
  String.ofList (chars value)

def word (n : UInt32) : Value :=
  natural n.toNat

end Value

end CallAtlas.Json
