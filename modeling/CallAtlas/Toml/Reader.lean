import CallAtlas.Toml.Document
import CallAtlas.Toml.Scalar

/-!
# Reading TOML

A document is read statement by statement: comments, headers and entries. An
entry belongs to the table of the last header before it. The reading yields all
entries of the document, or nothing if any part of it is not well formed.
-/

namespace CallAtlas.Toml

/-! ## Between tokens -/

def dropSpace (text : List Char) : List Char :=
  text.dropWhile isSpace

theorem length_dropSpace_le (text : List Char) : (dropSpace text).length ≤ text.length :=
  (List.dropWhile_suffix _).length_le

/-- What follows a comment, if one starts here: the rest of the line. -/
def dropComment (text : List Char) : List Char :=
  match text with
  | '#' :: rest => rest.dropWhile isPlain
  | text => text

theorem length_dropComment_le (text : List Char) : (dropComment text).length ≤ text.length := by
  unfold dropComment
  split
  · exact Nat.le_succ_of_le (List.dropWhile_suffix _).length_le
  · exact Nat.le_refl _

/-- What follows the end of a line: blanks and a comment may stand before it. -/
def endLine? (text : List Char) : Option (List Char) :=
  match dropComment (dropSpace text) with
  | [] => some []
  | rest => dropBreak? rest

theorem length_of_endLine? {text rest : List Char} (h : endLine? text = some rest) :
    rest.length ≤ text.length - 1 := by
  have h₁ := length_dropComment_le (dropSpace text)
  have h₂ := length_dropSpace_le text
  unfold endLine? at h
  split at h
  · cases h
    exact Nat.zero_le _
  · have := length_of_dropBreak? h
    omega

def dropVoidLine? (text : List Char) : Option (Rest text) :=
  (dropBreak? (dropComment (dropSpace text))).pmap (fun rest h => ⟨rest, h⟩) fun rest h => by
    have h₁ := length_of_dropBreak? h
    have h₂ := length_dropComment_le (dropSpace text)
    have h₃ := length_dropSpace_le text
    omega

def dropFiller (text : List Char) : List Char :=
  match dropVoidLine? text with
  | some rest => dropFiller rest.1
  | none => dropComment (dropSpace text)
termination_by text.length
decreasing_by exact rest.2

theorem length_dropFiller_le (text : List Char) : (dropFiller text).length ≤ text.length := by
  fun_induction dropFiller text with
  | case1 text rest h ih =>
      have := rest.2
      omega
  | case2 text h =>
      exact Nat.le_trans (length_dropComment_le _) (length_dropSpace_le _)

/-! ## Keys -/

def isKeyChar (c : Char) : Bool :=
  c.isAlphanum || c = '_' || c = '-'

def scanName? (text : List Char) : Option (String × Rest text) :=
  match text with
  | [] => none
  | c :: rest =>
      if isKeyChar c then
        some (String.ofList (c :: rest.takeWhile isKeyChar),
          ⟨rest.dropWhile isKeyChar,
            Nat.lt_succ_of_le (List.dropWhile_suffix isKeyChar).length_le⟩)
      else scanShort? (c :: rest)

/-- A key: the parts before its last dot, its last part, and what follows the
blanks behind it. -/
def scanKey? (text : List Char) : Option (List String × String × Rest text) :=
  match scanName? (dropSpace text) with
  | none => none
  | some (name, ⟨rest, hrest⟩) =>
      have hlt : rest.length < text.length := Nat.lt_of_lt_of_le hrest (length_dropSpace_le text)
      have hspace := length_dropSpace_le rest
      match h : dropSpace rest with
      | '.' :: more =>
          have hmore : more.length < text.length := by
            rw [h, List.length_cons] at hspace
            omega
          (scanKey? more).map fun (dots, last, behind) =>
            (name :: dots, last, behind.behind hmore)
      | other => some ([], name, ⟨other, by rw [h] at hspace; omega⟩)
termination_by text.length

/-- How many values or tables may stand one inside the other, and how many
parts a key may have. -/
def depthLimit : Nat := 80

def scanPath? (text : List Char) : Option (List String × String × Rest text) :=
  match scanKey? text with
  | some (dots, last, rest) =>
      if dots.length + 1 < depthLimit then some (dots, last, rest) else none
  | none => none

/-! ## Values -/

mutual

/-- A value. `room` is how many more arrays and tables may be entered. -/
def scanValue? (room : Nat) (text : List Char) : Option (Item × Rest text) :=
  match text with
  | [] => none
  | c :: rest =>
      if c = '"' || c = '\'' then
        (scanString? (c :: rest)).map fun (content, last) => (.text content, last)
      else if c = '[' then
        match room with
        | 0 => none
        | room + 1 =>
            (scanElements? room rest).map fun last =>
              (.value, last.behind (Nat.lt_succ_self _))
      else if c = '{' then
        match room with
        | 0 => none
        | room + 1 =>
            (scanPairs? room true [] rest).map fun last =>
              (.value, last.behind (Nat.lt_succ_self _))
      else (scanScalar? (c :: rest)).map fun last => (.value, last)
termination_by 2 * text.length
decreasing_by all_goals rw [List.length_cons]; omega

def scanElements? (room : Nat) (text : List Char) : Option (Rest text) :=
  have htext := length_dropFiller_le text
  match h : dropFiller text with
  | [] => none
  | c :: rest =>
      if c = ']' then some ⟨rest, by rw [h, List.length_cons] at htext; omega⟩
      else
        have : rest.length + 1 ≤ text.length := by rwa [h, List.length_cons] at htext
        match scanValue? room (c :: rest) with
        | none => none
        | some (_, ⟨after, hafter⟩) =>
            have hfill := length_dropFiller_le after
            match ha : dropFiller after with
            | ',' :: more =>
                have hmore : more.length < text.length := by
                  rw [h] at htext
                  rw [ha, List.length_cons] at hfill
                  omega
                (scanElements? room more).map (·.behind hmore)
            | ']' :: more =>
                some ⟨more, by
                  rw [h] at htext
                  rw [ha, List.length_cons] at hfill
                  omega⟩
            | _ => none
termination_by 2 * text.length + 1
decreasing_by
  · rw [List.length_cons]; omega
  · omega

def scanPairs? (room : Nat) (first : Bool) (entries : Entries) (text : List Char) :
    Option (Rest text) :=
  have htext := length_dropSpace_le text
  match h : dropSpace text with
  | [] => none
  | c :: rest =>
      if c = '\x7d' && first then some ⟨rest, by rw [h, List.length_cons] at htext; omega⟩
      else
        match scanPath? text with
        | none => none
        | some (dots, key, behind) =>
            have hbehind := behind.2
            match hb : behind.1 with
            | '=' :: value =>
                have hspace := length_dropSpace_le value
                have hvalue : value.length + 1 < text.length := by
                  rwa [hb, List.length_cons] at hbehind
                match scanValue? room (dropSpace value) with
                | none => none
                | some (item, ⟨after, hafter⟩) =>
                    match entries.assign dots key item with
                    | none => none
                    | some entries =>
                        have hlast := length_dropSpace_le after
                        match ha : dropSpace after with
                        | ',' :: more =>
                            have hmore : more.length < text.length := by
                              rw [ha, List.length_cons] at hlast
                              omega
                            (scanPairs? room false entries more).map (·.behind hmore)
                        | '\x7d' :: more =>
                            some ⟨more, by
                              rw [ha, List.length_cons] at hlast
                              omega⟩
                        | _ => none
            | _ => none
termination_by 2 * text.length + 1
decreasing_by
  · omega
  · omega

end

/-! ## Statements -/

def scanEntry? (text : List Char) : Option (List String × String × Item × Rest text) :=
  match scanPath? text with
  | some (dots, key, ⟨'=' :: value, hvalue⟩) =>
      match scanValue? (depthLimit - 1) (dropSpace value) with
      | none => none
      | some (item, ⟨after, hafter⟩) =>
          match h : endLine? after with
          | none => none
          | some rest =>
              some (dots, key, item, ⟨rest, by
                have := length_of_endLine? h
                have := length_dropSpace_le value
                rw [List.length_cons] at hvalue
                omega⟩)
  | _ => none

/-- A header with this many brackets: its key, and what follows the end of its
line. -/
def scanHeader? (brackets : Nat) (text : List Char) :
    Option (List String × String × Rest text) :=
  match scanPath? (text.drop brackets) with
  | none => none
  | some (dots, key, ⟨behind, hbehind⟩) =>
      if behind.take brackets = List.replicate brackets ']' then
        match h : endLine? (behind.drop brackets) with
        | none => none
        | some rest =>
            some (dots, key, ⟨rest, by
              have hrest := length_of_endLine? h
              rw [List.length_drop] at hrest hbehind
              omega⟩)
      else none

/-- Reads the statements of a document of which `root` has been read, under the
header `header`. -/
def readFrom (root : Entries) (header : List String) (text : List Char) : Option Entries :=
  have hspace := length_dropSpace_le text
  match h : dropSpace text with
  | [] => some root
  | c :: rest =>
      have hlt : rest.length < text.length := by
        rw [h, List.length_cons] at hspace
        omega
      if c = '#' || c = '\n' || c = '\r' then
        match he : endLine? (c :: rest) with
        | none => none
        | some more =>
            have : more.length < text.length :=
              Nat.lt_of_le_of_lt (length_of_endLine? he) hlt
            readFrom root header more
      else if c = '[' then
        let brackets := if rest.head? = some '[' then 2 else 1
        match scanHeader? brackets (c :: rest) with
        | none => none
        | some (dots, key, ⟨more, hmore⟩) =>
            have : more.length < text.length := by
              rw [List.length_cons] at hmore
              omega
            match (if brackets = 2 then root.append dots key else root.define dots key) with
            | none => none
            | some root => readFrom root (dots ++ [key]) more
      else
        match scanEntry? (c :: rest) with
        | none => none
        | some (dots, key, item, ⟨more, hmore⟩) =>
            have : more.length < text.length := by
              rw [List.length_cons] at hmore
              omega
            match root.through header (Entries.assign dots key item) with
            | none => none
            | some root => readFrom root header more
termination_by text.length
decreasing_by all_goals exact this

def read (text : String) : Option Entries :=
  match text.toList with
  | '\uFEFF' :: rest => readFrom [] [] rest
  | text => readFrom [] [] text

end CallAtlas.Toml
