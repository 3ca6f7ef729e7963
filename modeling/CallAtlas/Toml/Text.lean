import CallAtlas.Text.Hex

/-!
# TOML strings

A string stands between quotes or apostrophes, one of them on one line or three
of them over several lines. Only between quotes a backslash escapes. A line
break just behind three opening marks does not count, and every line break of
the text reads as a line feed.
-/

namespace CallAtlas.Toml

/-- What follows a part that starts `text`. -/
abbrev Rest (text : List Char) :=
  { rest : List Char // rest.length < text.length }

def Rest.behind {short text : List Char} (h : short.length < text.length) (rest : Rest short) :
    Rest text :=
  ⟨rest.val, Nat.lt_trans rest.property h⟩

def isSpace (c : Char) : Bool :=
  c = ' ' || c = '\t'

/-- A character that may stand on a line of its own: no control character but
the tab. -/
def isPlain (c : Char) : Bool :=
  c = '\t' || (0x20 ≤ c.toNat && c.toNat ≠ 0x7F)

/-! ## Escapes -/

def scalar? (n : Nat) : Option Char :=
  if h : n.isValidChar then some (Char.ofNatAux n h) else none

def scalarOf? (digits : List Char) : Option Char :=
  (Text.hexFrom? 0 digits).bind scalar?

/-- What an escape writes, and what follows it; the backslash has been read. -/
def escape? : List Char → Option (Char × List Char)
  | 'b' :: rest => some ('\x08', rest)
  | 't' :: rest => some ('\t', rest)
  | 'n' :: rest => some ('\n', rest)
  | 'f' :: rest => some ('\x0c', rest)
  | 'r' :: rest => some ('\r', rest)
  | '"' :: rest => some ('"', rest)
  | '\\' :: rest => some ('\\', rest)
  | 'u' :: a :: b :: c :: d :: rest => (scalarOf? [a, b, c, d]).map (·, rest)
  | 'U' :: a :: b :: c :: d :: e :: f :: g :: h :: rest =>
      (scalarOf? [a, b, c, d, e, f, g, h]).map (·, rest)
  | _ => none

theorem length_of_escape? {text rest : List Char} {c : Char}
    (h : escape? text = some (c, rest)) : rest.length < text.length := by
  unfold escape? at h
  split at h
  case h_8 =>
    obtain ⟨_, _, h⟩ := Option.map_eq_some_iff.1 h
    cases h
    simp only [List.length_cons]
    omega
  case h_9 =>
    obtain ⟨_, _, h⟩ := Option.map_eq_some_iff.1 h
    cases h
    simp only [List.length_cons]
    omega
  case h_10 => cases h
  all_goals
    cases h
    exact Nat.lt_succ_self _

def dropBlankLines : List Char → List Char
  | [] => []
  | '\r' :: '\n' :: rest => dropBlankLines rest
  | c :: rest => if isSpace c || c = '\n' then dropBlankLines rest else c :: rest

theorem length_dropBlankLines_le (text : List Char) :
    (dropBlankLines text).length ≤ text.length := by
  fun_induction dropBlankLines text with
  | case1 => exact Nat.le_refl _
  | case2 _ ih => simp only [List.length_cons]; omega
  | case3 _ _ _ _ ih => simp only [List.length_cons]; omega
  | case4 => exact Nat.le_refl _

def dropBreak? : List Char → Option (List Char)
  | '\n' :: rest => some rest
  | '\r' :: '\n' :: rest => some rest
  | _ => none

theorem length_of_dropBreak? {text rest : List Char} (h : dropBreak? text = some rest) :
    rest.length < text.length := by
  unfold dropBreak? at h
  split at h <;> cases h <;> simp only [List.length_cons] <;> omega

/-- What follows a backslash that ends its line: blanks, a line break, and all
blanks and line breaks behind it. -/
def continued? (text : List Char) : Option (List Char) :=
  (dropBreak? (text.dropWhile isSpace)).map dropBlankLines

theorem length_of_continued? {text rest : List Char} (h : continued? text = some rest) :
    rest.length < text.length := by
  unfold continued? at h
  obtain ⟨more, hm, rfl⟩ := Option.map_eq_some_iff.mp h
  have h₁ := length_of_dropBreak? hm
  have h₂ := (List.dropWhile_suffix (l := text) isSpace).length_le
  have h₃ := length_dropBlankLines_le more
  omega

/-! ## The four kinds -/

def scanLine (mark : Char) (escapes : Bool) (text : List Char) :
    Option (List Char × Rest text) :=
  match text with
  | [] => none
  | c :: rest =>
      if c = mark then some ([], ⟨rest, Nat.lt_succ_self _⟩)
      else if c = '\\' && escapes then
        match h : escape? rest with
        | none => none
        | some (d, more) =>
            have hmore : more.length < (c :: rest).length :=
              Nat.lt_succ_of_lt (length_of_escape? h)
            (scanLine mark escapes more).map fun (content, last) =>
              (d :: content, last.behind hmore)
      else if isPlain c then
        (scanLine mark escapes rest).map fun (content, last) =>
          (c :: content, last.behind (Nat.lt_succ_self _))
      else none
termination_by text.length
decreasing_by
  · exact hmore
  · exact Nat.lt_succ_self _

/-- How many of the first five characters are the mark. -/
def countMarks (mark : Char) (text : List Char) : Nat :=
  ((text.take 5).takeWhile (· = mark)).length

/-- A string over several lines, from behind its opening marks. Three marks
close it, and one or two more just before them belong to it. -/
def scanLines (mark : Char) (escapes : Bool) (text : List Char) :
    Option (List Char × Rest text) :=
  match text with
  | [] => none
  | c :: rest =>
      let marks := countMarks mark (c :: rest)
      if 3 ≤ marks then
        some (List.replicate (marks - 3) mark,
          ⟨rest.drop (marks - 1), by simp only [List.length_drop, List.length_cons]; omega⟩)
      else if c = '\\' && escapes then
        match h : continued? rest with
        | some more =>
            have hmore : more.length < (c :: rest).length :=
              Nat.lt_succ_of_lt (length_of_continued? h)
            (scanLines mark escapes more).map fun (content, last) =>
              (content, last.behind hmore)
        | none =>
            match h : escape? rest with
            | none => none
            | some (d, more) =>
                have hmore : more.length < (c :: rest).length :=
                  Nat.lt_succ_of_lt (length_of_escape? h)
                (scanLines mark escapes more).map fun (content, last) =>
                  (d :: content, last.behind hmore)
      else
        match h : dropBreak? (c :: rest) with
        | some more =>
            have hmore : more.length < (c :: rest).length := length_of_dropBreak? h
            (scanLines mark escapes more).map fun (content, last) =>
              ('\n' :: content, last.behind hmore)
        | none =>
            if isPlain c then
              (scanLines mark escapes rest).map fun (content, last) =>
                (c :: content, last.behind (Nat.lt_succ_self _))
            else none
termination_by text.length
decreasing_by
  · exact hmore
  · exact hmore
  · exact hmore
  · exact Nat.lt_succ_self _

def scanShort? (text : List Char) : Option (String × Rest text) :=
  match text with
  | [] => none
  | c :: rest =>
      if c = '"' || c = '\'' then
        (scanLine c (c = '"') rest).map fun (content, last) =>
          (String.ofList content, last.behind (Nat.lt_succ_self _))
      else none

def scanString? (text : List Char) : Option (String × Rest text) :=
  match text with
  | a :: b :: c :: rest =>
      if (a = '"' || a = '\'') && b = a && c = a then
        let body := (dropBreak? rest).getD rest
        have hbody : body.length < (a :: b :: c :: rest).length := by
          simp only [body, List.length_cons]
          cases h : dropBreak? rest with
          | none => simp only [Option.getD_none]; omega
          | some more => have := length_of_dropBreak? h; simp only [Option.getD_some]; omega
        (scanLines a (a = '"') body).map fun (content, last) =>
          (String.ofList content, last.behind hbody)
      else scanShort? (a :: b :: c :: rest)
  | text => scanShort? text

end CallAtlas.Toml
