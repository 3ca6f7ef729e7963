import CallAtlas.Text.Hex
import CallAtlas.Text.Printable

/-!
# Quoted text

How a message shows a text that may hold anything: between double quotes, with
a backslash before a quote or a backslash, short escapes for the common control
characters, and the number of every other character that cannot stand for
itself.
-/

namespace CallAtlas.Text

def quoteChar (c : Char) : List Char :=
  match c with
  | '"' => ['\\', '"']
  | '\\' => ['\\', '\\']
  | '\n' => ['\\', 'n']
  | '\r' => ['\\', 'r']
  | '\t' => ['\\', 't']
  | '\x00' => ['\\', '0']
  | c =>
      if isPrintable c then [c]
      else ['\\', 'u', '\x7b'] ++ hexOf c.toNat ++ ['\x7d']

def quoted (text : String) : String :=
  String.ofList ('"' :: text.toList.flatMap quoteChar ++ ['"'])

end CallAtlas.Text
