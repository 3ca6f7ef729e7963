import CallAtlas.Json.Node
import CallAtlas.Text.Hex
import CallAtlas.Total

/-!
# JSON strings

Scanning what stands between two quotes. Escapes write characters by their
UTF-16 units; a high surrogate has to be followed at once by the escape of a
low one, or the string has no content, although its end can still be found.
-/

namespace CallAtlas.Json

inductive TextScan where
  | done (content : Option String) (rest : List Char)
  | broken (why : Break)
deriving Repr

def unit? (a b c d : Char) : Option Nat :=
  Text.hexFrom? 0 [a, b, c, d]

def shortEscape? : Char → Option Char
  | '"' => some '"'
  | '\\' => some '\\'
  | '/' => some '/'
  | 'b' => some '\x08'
  | 'f' => some '\x0c'
  | 'n' => some '\n'
  | 'r' => some '\r'
  | 't' => some '\t'
  | _ => none

def byteLength (text : List Char) : Nat :=
  total (text.map Char.utf8Size)

/-- What has been scanned of a string: its characters in reverse, a high
surrogate that waits for its low one, and whether all before it were paired. -/
structure TextState where
  seen : List Char
  pending : Option Nat
  paired : Bool

namespace TextState

def start : TextState :=
  ⟨[], none, true⟩

def push (s : TextState) (c : Char) : TextState :=
  ⟨c :: s.seen, none, s.paired && s.pending.isNone⟩

def pushUnit (s : TextState) (unit : Nat) : TextState :=
  if 0xD800 ≤ unit ∧ unit < 0xDC00 then
    ⟨s.seen, some unit, s.paired && s.pending.isNone⟩
  else if 0xDC00 ≤ unit ∧ unit < 0xE000 then
    match s.pending with
    | some high =>
        ⟨Char.ofNat (0x10000 + (high - 0xD800) * 0x400 + (unit - 0xDC00)) :: s.seen, none, s.paired⟩
    | none => ⟨s.seen, none, false⟩
  else s.push (Char.ofNat unit)

def content? (s : TextState) : Option String :=
  if s.paired && s.pending.isNone then some (String.ofList s.seen.reverse) else none

def unfinished (s : TextState) : Break :=
  ⟨if s.paired then .unfinished else .malformed, .unfinished⟩

end TextState

def scanText (s : TextState) : List Char → TextScan
  | [] => .broken s.unfinished
  | '"' :: rest => .done s.content? rest
  | ['\\'] => .broken s.unfinished
  | '\\' :: 'u' :: a :: b :: c :: d :: rest =>
      match unit? a b c d with
      | some unit => scanText (s.pushUnit unit) rest
      | none => .broken (.both .malformed)
  | '\\' :: 'u' :: rest =>
      if byteLength rest < 4 then .broken s.unfinished else .broken (.both .malformed)
  | '\\' :: e :: rest =>
      match shortEscape? e with
      | some c => scanText (s.push c) rest
      | none => .broken (.both .malformed)
  | c :: rest =>
      if c.toNat < 0x20 then .broken (.both .malformed) else scanText (s.push c) rest

theorem length_of_scanText {s : TextState} {text rest : List Char} {content : Option String}
    (h : scanText s text = .done content rest) : rest.length < text.length := by
  fun_induction scanText s text generalizing content rest with
  | case2 => cases h; simp
  | case4 _ _ _ _ _ _ _ _ ih => have := ih h; simp only [List.length_cons]; omega
  | case8 _ _ _ _ _ _ _ ih => have := ih h; simp only [List.length_cons]; omega
  | case11 _ _ _ _ _ _ _ _ _ ih => have := ih h; simp only [List.length_cons]; omega
  | _ => cases h

end CallAtlas.Json
