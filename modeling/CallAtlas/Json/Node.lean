/-!
# JSON texts as trees

A text is scanned once into a tree that also records how it breaks off, so that
a reader can walk the tree in the order of the text and report the first
problem it meets, whether that is a wrong type or a text that ends too early.

Some faults matter only to a reader that needs a value: an unpaired surrogate
escape, a number beyond every double. Skipping passes over those, and it calls
a number that stops halfway malformed where a reader sees the text end. A
`Break` therefore names one fault for each of the two.
-/

namespace CallAtlas.Json

/-- What is wrong with a text, for somebody who reads a value from it. -/
inductive Fault where
  | unfinished
  | malformed
  | mismatched
deriving DecidableEq, Repr

/-- Where a text breaks off: the fault for a reader and for one who skips. -/
structure Break where
  reading : Fault
  skipping : Fault
deriving DecidableEq, Repr

def Break.both (fault : Fault) : Break :=
  ⟨fault, fault⟩

/-- How the text goes on after the elements of an array or an object. -/
inductive Ending where
  | closed
  /-- A comma, and then the text ends. -/
  | afterComma
  /-- A key without its value; `none` is a key with an unpaired surrogate. -/
  | afterKey (key : Option String) (why : Break)
  | broken (why : Break)
deriving DecidableEq, Repr

/-- A scanned value. Texts and keys are `none` when they hold an unpaired
surrogate escape. -/
inductive Node where
  | null
  | bool (value : Bool)
  /-- A number without sign, fraction and exponent, below 2⁶⁴. -/
  | natural (value : Nat)
  /-- Minus a number from 1 to 2⁶³. -/
  | negative (value : Nat)
  | real
  /-- A number beyond every double. -/
  | unbounded
  | text (content : Option String)
  | array (items : List Node) (ending : Ending)
  | object (members : List (Option String × Node)) (ending : Ending)
  /-- No value: the text ends or goes wrong within a word, a number, a string,
  or before any of them. -/
  | broken (why : Break)
deriving Repr

def Node.wrong : Node → Fault
  | .broken why => why.reading
  | .unbounded => .malformed
  | .text none => .malformed
  | _ => .mismatched

/-- What a reader reports who needs one more element, `none` if the bracket
closes. -/
def Ending.fault? : Ending → Option Fault
  | .closed => none
  | .afterComma => some .unfinished
  | .afterKey _ why => some why.reading
  | .broken why => some why.reading

def Ending.skipFault? : Ending → Option Fault
  | .closed => none
  | .afterComma => some .unfinished
  | .afterKey _ why => some why.skipping
  | .broken why => some why.skipping

end CallAtlas.Json
