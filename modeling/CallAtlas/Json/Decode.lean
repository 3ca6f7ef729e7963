import CallAtlas.Json.Scan

/-!
# Reading values out of JSON

A decoder walks a scanned node in the order of the text and stops at the first
fault. Arrays and objects that are read may nest only so deep, so a decoder is
told how much room is left; what is skipped may nest at will.

A record may be written as an object, its fields in any order and others
between them, or as the array of its fields.
-/

namespace CallAtlas.Json

/-! ## Passing over a node -/

mutual

def Node.skipFault? : Node → Option Fault
  | .array items ending => (skipItems items).or ending.skipFault?
  | .object members ending => (skipMembers members).or ending.skipFault?
  | .broken why => some why.skipping
  | _ => none
termination_by structural node => node

def skipItems : List Node → Option Fault
  | [] => none
  | node :: rest => node.skipFault?.or (skipItems rest)
termination_by structural items => items

def skipMembers : List (Option String × Node) → Option Fault
  | [] => none
  | member :: rest => (skipMember member).or (skipMembers rest)
termination_by structural members => members

def skipMember : Option String × Node → Option Fault
  | (_, node) => node.skipFault?
termination_by structural member => member

end

/-- What a reader reports who needs one more key. -/
def Ending.keyFault? : Ending → Option Fault
  | .afterKey none _ => some .malformed
  | ending => ending.fault?

/-- The fault of a member, its key standing before its value. -/
def firstKeyFault (key : Option String) (value : Option Fault) : Option Fault :=
  if key.isNone then some .malformed else value

mutual

def Node.readFault? : Node → (room : Nat) → Option Fault
  | .array _ _, 0 => some .malformed
  | .array items ending, room + 1 => (readItems items room).or ending.fault?
  | .object _ _, 0 => some .malformed
  | .object members ending, room + 1 => (readMembers members room).or ending.keyFault?
  | .broken why, _ => some why.reading
  | .unbounded, _ => some .malformed
  | .text none, _ => some .malformed
  | _, _ => none
termination_by structural node => node

def readItems : List Node → (room : Nat) → Option Fault
  | [], _ => none
  | node :: rest, room => (node.readFault? room).or (readItems rest room)
termination_by structural items => items

def readMembers : List (Option String × Node) → (room : Nat) → Option Fault
  | [], _ => none
  | member :: rest, room => (readMember member room).or (readMembers rest room)
termination_by structural members => members

def readMember : Option String × Node → (room : Nat) → Option Fault
  | (key, node), room => firstKeyFault key (node.readFault? room)
termination_by structural member => member

end

/-! ## Decoders -/

/-- Reads a value from a node. `room` is how many more arrays and objects may
be entered one inside the other. -/
abbrev Decoder (α : Type) :=
  (room : Nat) → Node → Except Fault α

namespace Decoder

def require (value : Option α) (fault : Fault) : Except Fault α :=
  match value with
  | some a => .ok a
  | none => .error fault

def enter (room : Nat) (inside : (room : Nat) → Except Fault α) : Except Fault α :=
  match room with
  | 0 => .error .malformed
  | room + 1 => inside room

def map (f : α → β) (d : Decoder α) : Decoder β := fun room node =>
  (d room node).map f

def text : Decoder String
  | _, .text (some content) => .ok content
  | _, node => .error node.wrong

def natural (limit : Nat) : Decoder Nat
  | _, .natural n => if n < limit then .ok n else .error .mismatched
  | _, node => .error node.wrong

def word : Decoder UInt32 :=
  (natural 0x100000000).map Nat.toUInt32

def ofText (read : String → Option α) : Decoder α := fun room node => do
  let content ← text room node
  require (read content) .mismatched

def elements (d : Decoder α) (room : Nat) (ending : Ending) : List Node → Except Fault (List α)
  | [] =>
      match ending.fault? with
      | some fault => .error fault
      | none => .ok []
  | node :: rest => do
      let a ← d room node
      let others ← elements d room ending rest
      return a :: others

def list (d : Decoder α) : Decoder (List α)
  | room, .array items ending => enter room fun room => elements d room ending items
  | _, node => .error node.wrong

/-! ### Arrays of fixed length -/

/-- Where a reader of an array stands: the room inside it and its ending. -/
structure Inside where
  room : Nat
  ending : Ending

/-- Reads elements of an array one after the other; the state is what is left
of them. -/
abbrev Row :=
  ReaderT Inside (StateT (List Node) (Except Fault))

def Row.next (d : Decoder α) : Row α := fun inside items =>
  match items with
  | [] => .error (inside.ending.fault?.getD .mismatched)
  | node :: rest => (d inside.room node).map fun a => (a, rest)

/-- What is wrong behind the last element that was asked for. -/
def closeFault? : List Node → Ending → Option Fault
  | [], .closed => none
  | [], .broken why => some why.reading
  | _, _ => some .malformed

def tuple (row : Row α) : Decoder α
  | room, .array items ending => enter room fun room => do
      let (a, rest) ← row ⟨room, ending⟩ items
      match closeFault? rest ending with
      | some fault => .error fault
      | none => .ok a
  | _, node => .error node.wrong

/-! ### Records -/

/-- A field of a record of which `σ` is what has been read so far. -/
structure Field (σ : Type) where
  name : String
  isSet : σ → Bool
  read : σ → Decoder σ

def endFault? (fields : List (Field σ)) (state : σ) : Ending → Option Fault
  | .afterKey (some key) why =>
      match fields.find? (·.name = key) with
      | some field => some (if field.isSet state then .mismatched else why.reading)
      | none => some why.reading
  | ending => ending.keyFault?

/-- Reads the members of an object: each field at most once, others skipped. -/
def members (fields : List (Field σ)) (room : Nat) (ending : Ending) (state : σ) :
    List (Option String × Node) → Except Fault σ
  | [] =>
      match endFault? fields state ending with
      | some fault => .error fault
      | none => .ok state
  | (none, _) :: _ => .error .malformed
  | (some key, node) :: rest =>
      match fields.find? (·.name = key) with
      | some field =>
          if field.isSet state then .error .mismatched
          else do members fields room ending (← field.read state room node) rest
      | none =>
          match node.skipFault? with
          | some fault => .error fault
          | none => members fields room ending state rest

def inOrder (state : σ) : List (Field σ) → Row σ
  | [] => return state
  | field :: rest => do inOrder (← .next (field.read state)) rest

/-- A record, whose fields `finish` puts together if none is missing. -/
def record (fields : List (Field σ)) (start : σ) (finish : σ → Option α) : Decoder α
  | room, .array items ending => do
      let state ← tuple (inOrder start fields) room (.array items ending)
      require (finish state) .mismatched
  | room, .object entries ending => enter room fun room => do
      let state ← members fields room ending start entries
      require (finish state) .mismatched
  | _, node => .error node.wrong

def pairs (d : Decoder α) (room : Nat) (ending : Ending) :
    List (Option String × Node) → Except Fault (List (String × α))
  | [] =>
      match ending.keyFault? with
      | some fault => .error fault
      | none => .ok []
  | (none, _) :: _ => .error .malformed
  | (some key, node) :: rest => do
      let a ← d room node
      let others ← pairs d room ending rest
      return (key, a) :: others

/-- An object whose keys may be any texts and may repeat. -/
def dictionary (d : Decoder α) : Decoder (List (String × α))
  | room, .object entries ending => enter room fun room => pairs d room ending entries
  | _, node => .error node.wrong

/-! ### Alternatives -/

/-- Reads the whole node before it looks for `d` in it, so that only then a
value of the wrong form is reported. -/
def whole (d : Decoder α) : Decoder α := fun room node =>
  match node.readFault? room with
  | some fault => .error fault
  | none => (d room node).mapError fun _ => .mismatched

def either (d : Decoder α) (e : Decoder α) : Decoder α := fun room node =>
  match d room node with
  | .ok a => .ok a
  | .error _ => e room node

end Decoder

def depthLimit : Nat := 127

/-- Reads a value from a text that holds nothing else. -/
def read (d : Decoder α) (text : String) : Except Fault α := do
  let (node, rest) := scan text.toList
  let a ← d depthLimit node
  if (rest.getD []).all isSpace then return a else throw .malformed

end CallAtlas.Json
