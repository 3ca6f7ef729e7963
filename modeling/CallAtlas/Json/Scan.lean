import CallAtlas.Json.Number
import CallAtlas.Json.Text

/-!
# Scanning JSON

From characters to a `Node`. Every step comes with what follows the value, in a
type that says it is shorter, and values recurse on that length. A text that
breaks off inside a value is not looked at behind that place.
-/

namespace CallAtlas.Json

def isSpace (c : Char) : Bool :=
  c = ' ' || c = '\n' || c = '\t' || c = '\r'

def dropSpace (text : List Char) : List Char :=
  text.dropWhile isSpace

theorem length_dropSpace_le (text : List Char) : (dropSpace text).length ≤ text.length :=
  (List.dropWhile_suffix _).length_le

theorem length_lt_of_dropSpace {text rest : List Char} {c : Char}
    (h : dropSpace text = c :: rest) : rest.length < text.length := by
  have := length_dropSpace_le text
  rw [h, List.length_cons] at this
  omega

/-- What follows a value that starts `text`; `none` if the text breaks off
inside the value. -/
abbrev Rest (text : List Char) :=
  Option { rest : List Char // rest.length < text.length }

def Rest.behind {short text : List Char} (h : short.length ≤ text.length) (rest : Rest short) :
    Rest text :=
  rest.map fun r => ⟨r.val, Nat.lt_of_lt_of_le r.property h⟩

def scanWord (value : Node) : (letters text : List Char) → Node × Option (List Char)
  | [], text => (value, some text)
  | _ :: _, [] => (.broken (.both .unfinished), none)
  | l :: letters, c :: text =>
      if l = c then scanWord value letters text else (.broken (.both .malformed), none)

theorem length_of_scanWord {value node : Node} {letters text rest : List Char}
    (h : scanWord value letters text = (node, some rest)) : rest.length ≤ text.length := by
  fun_induction scanWord value letters text with
  | case1 => cases h; exact Nat.le_refl _
  | case2 => cases h
  | case3 _ _ _ ih => exact Nat.le_succ_of_le (ih h)
  | case4 => cases h

def wordNode (value : Node) (letters : String) {text rest : List Char}
    (h : rest.length < text.length) : Node × Rest text :=
  match hw : scanWord value letters.toList rest with
  | (node, some after) =>
      (node, some ⟨after, Nat.lt_of_le_of_lt (length_of_scanWord hw) h⟩)
  | (node, none) => (node, none)

def numberNode {text : List Char} (scan : Node × List Char)
    (h : scan.2.length < text.length) : Node × Rest text :=
  match scan.1 with
  | .broken why => (.broken why, none)
  | node => (node, some ⟨scan.2, h⟩)

mutual

def scanValue (text : List Char) : Node × Rest text :=
  match h : dropSpace text with
  | [] => (.broken (.both .unfinished), none)
  | c :: rest =>
      have hlt : rest.length < text.length := length_lt_of_dropSpace h
      if c = '"' then
        match ht : scanText .start rest with
        | .done content after =>
            (.text content, some ⟨after, Nat.lt_trans (length_of_scanText ht) hlt⟩)
        | .broken why => (.broken why, none)
      else if c = '[' then
        let (items, ending, after) := scanItems true rest
        (.array items ending, after.behind (Nat.le_of_lt hlt))
      else if c = '{' then
        let (members, ending, after) := scanMembers true rest
        (.object members ending, after.behind (Nat.le_of_lt hlt))
      else if c = '-' then
        numberNode (scanNumber true rest)
          (Nat.lt_of_le_of_lt (length_scanNumber_le true rest) hlt)
      else if hd : c.isDigit then
        numberNode (scanNumber false (c :: rest))
          (Nat.lt_of_lt_of_le (length_scanNumber_lt false hd rest)
            (h ▸ length_dropSpace_le text))
      else if c = 'n' then wordNode .null "ull" hlt
      else if c = 't' then wordNode (.bool true) "rue" hlt
      else if c = 'f' then wordNode (.bool false) "alse" hlt
      else (.broken (.both .malformed), none)
termination_by (text.length, 0)

/-- Scans the elements of an array from behind its bracket (`first`) or from
behind a comma. -/
def scanItems (first : Bool) (text : List Char) : List Node × Ending × Rest text :=
  match h : dropSpace text with
  | [] => ([], if first then .broken (.both .unfinished) else .afterComma, none)
  | c :: rest =>
      if c = ']' then
        if first then ([], .closed, some ⟨rest, length_lt_of_dropSpace h⟩)
        else ([], .broken (.both .malformed), none)
      else
        match scanValue text with
        | (node, none) => ([node], .broken (.both .malformed), none)
        | (node, some ⟨after, hafter⟩) =>
            match ha : dropSpace after with
            | [] => ([node], .broken (.both .unfinished), none)
            | d :: more =>
                have hmore : more.length < text.length :=
                  Nat.lt_trans (length_lt_of_dropSpace ha) hafter
                if d = ']' then ([node], .closed, some ⟨more, hmore⟩)
                else if d = ',' then
                  let (nodes, ending, last) := scanItems false more
                  (node :: nodes, ending, last.behind (Nat.le_of_lt hmore))
                else ([node], .broken (.both .malformed), none)
termination_by (text.length, 1)

def scanMembers (first : Bool) (text : List Char) :
    List (Option String × Node) × Ending × Rest text :=
  match h : dropSpace text with
  | [] => ([], .broken (.both .unfinished), none)
  | c :: rest =>
      have hlt : rest.length < text.length := length_lt_of_dropSpace h
      if c = '\x7d' ∧ first then ([], .closed, some ⟨rest, hlt⟩)
      else if c = '"' then
        match hk : scanText .start rest with
        | .broken why => ([], .broken why, none)
        | .done key colon =>
            match hc : dropSpace colon with
            | [] => ([], .afterKey key (.both .unfinished), none)
            | d :: value =>
                have hvalue : value.length < text.length :=
                  Nat.lt_trans (length_lt_of_dropSpace hc)
                    (Nat.lt_trans (length_of_scanText hk) hlt)
                if d = ':' then
                  match scanValue value with
                  | (node, none) => ([(key, node)], .broken (.both .malformed), none)
                  | (node, some ⟨after, hafter⟩) =>
                      match ha : dropSpace after with
                      | [] => ([(key, node)], .broken (.both .unfinished), none)
                      | e :: more =>
                          have hmore : more.length < text.length :=
                            Nat.lt_trans (length_lt_of_dropSpace ha)
                              (Nat.lt_trans hafter hvalue)
                          if e = '\x7d' then ([(key, node)], .closed, some ⟨more, hmore⟩)
                          else if e = ',' then
                            let (members, ending, last) := scanMembers false more
                            ((key, node) :: members, ending,
                              last.behind (Nat.le_of_lt hmore))
                          else ([(key, node)], .broken (.both .malformed), none)
                else ([], .afterKey key (.both .malformed), none)
      else ([], .broken (.both .malformed), none)
termination_by (text.length, 1)

end

/-- Scans the value at the head of a text. The second part is what follows it,
if the text does not break off. -/
def scan (text : List Char) : Node × Option (List Char) :=
  let (node, rest) := scanValue text
  (node, rest.map (·.val))

end CallAtlas.Json
