/-!
# Lines of a text

A line ends at a line feed, and a carriage return just before that line feed
belongs to the ending. Text after the last line feed is a line of its own; an
empty remainder is none.
-/

namespace CallAtlas.Text

def dropReturn : List Char → List Char
  | '\r' :: rest => rest
  | text => text

/-- The lines of a text of which `seen`, in reverse, is already part of the
first line. -/
def linesFrom (seen : List Char) : List Char → List (List Char)
  | [] => if seen.isEmpty then [] else [seen.reverse]
  | c :: rest =>
      if c = '\n' then (dropReturn seen).reverse :: linesFrom [] rest
      else linesFrom (c :: seen) rest

def lines (text : List Char) : List (List Char) :=
  linesFrom [] text

/-- What follows `head` in a text that starts with it. -/
def dropHead? : (head text : List Char) → Option (List Char)
  | [], text => some text
  | _ :: _, [] => none
  | h :: hs, c :: cs => if h = c then dropHead? hs cs else none

theorem dropHead?_eq_some_iff {head text rest : List Char} :
    dropHead? head text = some rest ↔ text = head ++ rest := by
  induction head generalizing text with
  | nil => simp [dropHead?]
  | cons h hs ih =>
      cases text with
      | nil => simp [dropHead?]
      | cons c cs =>
          by_cases hc : h = c
          · simp [dropHead?, hc, ih]
          · simp [dropHead?, hc, Ne.symm hc]

def startsWith (head text : List Char) : Bool :=
  (dropHead? head text).isSome

/-- What stands before and after the first place where `mark` occurs. -/
def splitAt? (mark : List Char) : List Char → Option (List Char × List Char)
  | [] => (dropHead? mark []).map ([], ·)
  | c :: rest =>
      match dropHead? mark (c :: rest) with
      | some after => some ([], after)
      | none => (splitAt? mark rest).map fun (before, after) => (c :: before, after)

end CallAtlas.Text
