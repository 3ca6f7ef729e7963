import CallAtlas.Text.Hex

/-!
# Writing TOML strings

A string is written in the plainest form that shows it as it is: between quotes,
between apostrophes, and the same over several lines. Only what no form can
show as it is gets escaped, between quotes.
-/

namespace CallAtlas.Toml.Written

/-- A control character that no form shows as it is. -/
def isControl (c : Char) : Bool :=
  (c.toNat < 0x20 && c ≠ '\t' && c ≠ '\n') || c.toNat = 0x7F

def hasTriple (mark : Char) : List Char → Bool
  | a :: b :: c :: rest => (a = mark && b = mark && c = mark) || hasTriple mark (b :: c :: rest)
  | _ => false

def upperHex (n : Nat) : List Char :=
  (Text.hexDigits 4 n).map Char.toUpper

/-- How a character stands between quotes, all on one line or not. `quotes`
counts the quotes just before it that stand as they are. -/
def escape (oneLine : Bool) (quotes : Nat) (c : Char) : List Char :=
  match c with
  | '\x08' => ['\\', 'b']
  | '\t' => ['\\', 't']
  | '\n' => if oneLine then ['\\', 'n'] else ['\n']
  | '\x0c' => ['\\', 'f']
  | '\r' => ['\\', 'r']
  | '\\' => ['\\', '\\']
  | '"' => if oneLine || quotes = 2 then ['\\', '"'] else ['"']
  | c => if isControl c then ['\\', 'u'] ++ upperHex c.toNat else [c]

def escaped (oneLine : Bool) (quotes : Nat) : List Char → List Char
  | [] => []
  | c :: rest =>
      escape oneLine quotes c ++
        escaped oneLine (if c = '"' ∧ quotes < 2 then quotes + 1 else 0) rest

/-- A line break that does not count stands before a text of several lines. -/
def opening (text : List Char) : List Char :=
  if text.contains '\n' then ['\n'] else []

def marks (mark : Char) (text : List Char) : List Char :=
  mark :: text ++ [mark]

def tripleMarks (mark : Char) (text : List Char) : List Char :=
  let three := List.replicate 3 mark
  three ++ text ++ three

/-- A string in the first form that fits. -/
def chars (text : List Char) : List Char :=
  let control := text.any isControl
  let several := text.contains '\n'
  let backslash := text.contains '\\'
  if !control && !backslash && !text.contains '"' && !several then
    marks '"' (escaped true 0 text)
  else if !control && !text.contains '\'' && !several then marks '\'' text
  else if !control && !backslash && !hasTriple '"' text then
    tripleMarks '"' (opening text ++ escaped false 0 text)
  else if !control && !hasTriple '\'' text then tripleMarks '\'' (opening text ++ text)
  else if several then tripleMarks '"' (opening text ++ escaped false 0 text)
  else marks '"' (escaped true 0 text)

def entry (key value : String) : String :=
  s!"{key} = " ++ String.ofList (chars value.toList) ++ "\n"

end CallAtlas.Toml.Written
