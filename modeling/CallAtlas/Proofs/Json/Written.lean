import CallAtlas.Json.Decode
import CallAtlas.Json.Value
import CallAtlas.Proofs.Text.Hex

/-!
# Scanning what was written

The text of a value is scanned into the tree of that value, whatever follows
it, and a reader who goes through that tree meets no fault. Only two things can
stand in the way: a number that 64 bits do not hold, and arrays and objects
that nest too deep.
-/

namespace CallAtlas.Json

/-! ## Texts -/

theorem unit?_of_hexDigits {n : Nat} (h : n < 0x10000) {a b c d : Char}
    (hdigits : Text.hexDigits 4 n = [a, b, c, d]) : unit? a b c d = some n := by
  rw [unit?, ← hdigits]
  exact Text.hexFrom?_hexDigits_of_lt h

/-- A unit that is no surrogate is a character. -/
theorem TextState.pushUnit_eq_push (s : TextState) {c : Char} (h : c.toNat < 0x20) :
    s.pushUnit c.toNat = s.push c := by
  have hhigh : ¬ (0xD800 ≤ c.toNat ∧ c.toNat < 0xDC00) := by omega
  have hlow : ¬ (0xDC00 ≤ c.toNat ∧ c.toNat < 0xE000) := by omega
  rw [pushUnit, if_neg hhigh, if_neg hlow, Char.ofNat_toNat]

/-- A character is scanned back from the way it stands between quotes. -/
theorem scanText_escape (s : TextState) (c : Char) (rest : List Char) :
    scanText s (Value.escape c ++ rest) = scanText (s.push c) rest := by
  fun_cases Value.escape c with
  | case8 c hquote hslash _ _ _ _ _ hcontrol =>
      match hdigits : Text.hexDigits 4 c.toNat, Text.length_hexDigits 4 c.toNat with
      | [w, x, y, z], _ =>
          show scanText s ('\\' :: 'u' :: w :: x :: y :: z :: rest) = _
          rw [scanText, unit?_of_hexDigits (by omega) hdigits]
          simp only
          rw [s.pushUnit_eq_push hcontrol]
  | case9 c hquote hslash _ _ _ _ _ hcontrol =>
      rw [List.singleton_append, scanText, if_neg hcontrol]
      case x_1 => exact hquote
      all_goals
        intros
        exact hslash (by assumption)
  | _ => rfl

theorem scanText_flatMap_escape (s : TextState) (content rest : List Char) :
    scanText s (content.flatMap Value.escape ++ '"' :: rest) =
      .done (content.foldl TextState.push s).content? rest := by
  induction content generalizing s with
  | nil => exact scanText.eq_2 s rest
  | cons c content ih =>
      rw [List.flatMap_cons, List.append_assoc, scanText_escape, ih]
      rfl

theorem TextState.foldl_push (seen content : List Char) :
    content.foldl push ⟨seen, none, true⟩ = ⟨content.reverse ++ seen, none, true⟩ := by
  induction content generalizing seen with
  | nil => rfl
  | cons c content ih =>
      rw [List.foldl_cons, List.reverse_cons, List.append_assoc]
      exact ih (c :: seen)

theorem scanText_content (content : String) (rest : List Char) :
    scanText .start (content.toList.flatMap Value.escape ++ '"' :: rest) =
      .done (some content) rest := by
  rw [scanText_flatMap_escape, TextState.start, TextState.foldl_push, List.append_nil,
    TextState.content?, List.reverse_reverse, String.ofList_toList]
  rfl

/-! ## Numbers -/

/-- What can follow a number without going on with it. -/
def Stops (rest : List Char) : Prop :=
  ∀ c ∈ rest.head?, c.isDigit = false ∧ c ≠ '.' ∧ c ≠ 'e' ∧ c ≠ 'E'

theorem spanDigits_append {digits rest : List Char} (hdigits : ∀ c ∈ digits, c.isDigit = true)
    (hrest : Stops rest) : spanDigits (digits ++ rest) = (digits, rest) := by
  have htake : rest.takeWhile Char.isDigit = [] := by
    cases rest with
    | nil => rfl
    | cons c rest => simp [(hrest c rfl).1]
  have hdrop : rest.dropWhile Char.isDigit = rest := by
    cases rest with
    | nil => rfl
    | cons c rest => simp [(hrest c rfl).1]
  rw [spanDigits, List.takeWhile_append_of_pos hdigits, List.dropWhile_append_of_pos hdigits,
    htake, hdrop, List.append_nil]

/-- Only zero starts with the digit zero. -/
theorem eq_zero_of_head?_digitsOf {n : Nat} (h : (Text.digitsOf n).head? = some '0') : n = 0 := by
  induction n using Nat.strongRecOn with
  | ind n ih =>
      rw [Text.digitsOf] at h
      by_cases hsmall : n < 10
      · have hzero : ∀ d < 10, Nat.digitChar d = '0' → d = 0 := by decide
        rw [Nat.toDigits_of_lt_base hsmall, List.head?_cons, Option.some.injEq] at h
        exact hzero n hsmall h
      · rw [Nat.toDigits_of_base_le (by decide) (Nat.le_of_not_lt hsmall)] at h
        obtain ⟨c, digits, hdigits⟩ := List.exists_cons_of_ne_nil
          (Nat.toDigits_ne_nil : Nat.toDigits 10 (n / 10) ≠ [])
        rw [hdigits, List.cons_append, List.head?_cons] at h
        have htenth := ih (n / 10) (by omega) (by rw [Text.digitsOf, hdigits, List.head?_cons, h])
        omega

/-- A number is scanned back if 64 bits hold it. -/
theorem scanNumber_digitsOf {n : Nat} (hn : n < 0x10000000000000000) {rest : List Char}
    (hrest : Stops rest) :
    scanNumber false (Text.digitsOf n ++ rest) = (.natural n, rest) := by
  have hdigits : ∀ c ∈ Text.digitsOf n, c.isDigit = true :=
    fun c hc => Nat.isDigit_of_mem_toDigits (by decide) (by decide) hc
  have hzero : ¬ ((Text.digitsOf n).head? = some '0' ∧ 1 < (Text.digitsOf n).length) := by
    rintro ⟨hhead, hlength⟩
    rw [eq_zero_of_head?_digitsOf hhead, Text.digitsOf, Nat.toDigits_zero] at hlength
    exact absurd hlength (by decide)
  have hvalue : Nat.ofDigitChars 10 (Text.digitsOf n) 0 = n := Nat.ofDigitChars_ten_toDigits
  have hempty : (Text.digitsOf n).isEmpty = false := by
    simp [Text.digitsOf, Nat.toDigits_ne_nil]
  rw [scanNumber, spanDigits_append hdigits hrest]
  simp only [hempty, hzero, hvalue, if_false, Bool.false_eq_true]
  split
  · exact absurd rfl (hrest '.' rfl).2.1
  · exact absurd rfl (hrest 'e' rfl).2.2.1
  · exact absurd rfl (hrest 'E' rfl).2.2.2
  · rw [integer, if_neg Bool.false_ne_true, if_pos hn]

/-! ## Values -/

theorem quote_append (content : String) (rest : List Char) :
    Value.quote content ++ rest =
      '"' :: (content.toList.flatMap Value.escape ++ '"' :: rest) := by
  simp [Value.quote]

theorem dropSpace_cons {c : Char} (hc : isSpace c = false) (text : List Char) :
    dropSpace (c :: text) = c :: text := by
  rw [dropSpace, List.dropWhile_cons_of_neg (by simp [hc])]

theorem scanValue_of_scan {text rest : List Char} {node : Node}
    (h : scan text = (node, some rest)) : ∃ hlt, scanValue text = (node, some ⟨rest, hlt⟩) := by
  rw [scan] at h
  match hscan : scanValue text with
  | (_, none) =>
      rw [hscan] at h
      cases h
  | (_, some ⟨after, hlt⟩) =>
      rw [hscan] at h
      cases h
      exact ⟨hlt, rfl⟩

theorem scan_text {text rest : List Char} {content : Option String}
    (h : scanText .start text = .done content rest) :
    scan ('"' :: text) = (.text content, some rest) := by
  -- the scan is unfolded where it still carries its proof, and read off after
  have hvalue : scanValue ('"' :: text) =
      (.text content, some ⟨rest, Nat.lt_succ_of_lt (length_of_scanText h)⟩) := by
    rw [scanValue]
    split
    case h_1 hdrop => cases hdrop
    case h_2 c tail hdrop =>
        cases hdrop
        simp only [if_true]
        split
        case h_1 after hdone =>
            cases h.symm.trans hdone
            rfl
        case h_2 why hbroken => cases h.symm.trans hbroken
  rw [scan, hvalue]
  rfl

/-! ### Arrays -/

/-- The scan of the elements of an array without the proof that something was
taken. -/
def scanElements (first : Bool) (text : List Char) : List Node × Ending × Option (List Char) :=
  ((scanItems first text).1, (scanItems first text).2.1, (scanItems first text).2.2.map (·.val))

theorem scanItems_of_scanElements {first : Bool} {text rest : List Char} {items : List Node}
    {ending : Ending} (h : scanElements first text = (items, ending, some rest)) :
    ∃ hlt, scanItems first text = (items, ending, some ⟨rest, hlt⟩) := by
  rw [scanElements] at h
  match hscan : scanItems first text with
  | (_, _, none) =>
      rw [hscan] at h
      cases h
  | (_, _, some ⟨after, hlt⟩) =>
      rw [hscan] at h
      cases h
      exact ⟨hlt, rfl⟩

theorem scan_array {text rest : List Char} {items : List Node} {ending : Ending}
    (h : scanElements true text = (items, ending, some rest)) :
    scan ('[' :: text) = (.array items ending, some rest) := by
  obtain ⟨hlt, hitems⟩ := scanItems_of_scanElements h
  have hvalue : scanValue ('[' :: text) =
      (.array items ending, some ⟨rest, Nat.lt_succ_of_lt hlt⟩) := by
    rw [scanValue]
    split
    case h_1 hdrop => cases hdrop
    case h_2 c tail hdrop =>
        cases hdrop
        simp only [Char.reduceEq, if_false, if_true, hitems]
        rfl
  rw [scan, hvalue]
  rfl

theorem scanElements_nil (rest : List Char) :
    scanElements true (']' :: rest) = ([], .closed, some rest) := by
  rw [scanElements, scanItems]
  split
  case h_1 hdrop => cases hdrop
  case h_2 c tail hdrop =>
      cases hdrop
      rfl

/-- An element of an array, with what decides how the array goes on. -/
theorem scanElements_value {first : Bool} {c d : Char} {text more : List Char} {node : Node}
    (hspace : isSpace c = false) (hbracket : c ≠ ']') (hd : isSpace d = false)
    (h : scan (c :: text) = (node, some (d :: more))) :
    scanElements first (c :: text) =
      if d = ']' then ([node], .closed, some more)
      else if d = ',' then (node :: (scanElements false more).1, (scanElements false more).2)
      else ([node], .broken (.both .malformed), none) := by
  obtain ⟨hlt, hvalue⟩ := scanValue_of_scan h
  rw [scanElements, scanItems]
  split
  case h_1 hdrop => cases (dropSpace_cons hspace text).symm.trans hdrop
  case h_2 e tail hdrop =>
      cases (dropSpace_cons hspace text).symm.trans hdrop
      simp only [hbracket, if_false, hvalue]
      split
      case h_1 hafter => cases (dropSpace_cons hd more).symm.trans hafter
      case h_2 e after hafter =>
          cases (dropSpace_cons hd more).symm.trans hafter
          by_cases hclose : d = ']'
          · simp [hclose]
          · by_cases hcomma : d = ','
            · simp [hcomma, scanElements, Rest.behind]
            · simp [hclose, hcomma]

/-! ### Objects -/

/-- The scan of the members of an object without the proof that something was
taken. -/
def scanEntries (first : Bool) (text : List Char) :
    List (Option String × Node) × Ending × Option (List Char) :=
  ((scanMembers first text).1, (scanMembers first text).2.1,
    (scanMembers first text).2.2.map (·.val))

theorem scanMembers_of_scanEntries {first : Bool} {text rest : List Char}
    {members : List (Option String × Node)} {ending : Ending}
    (h : scanEntries first text = (members, ending, some rest)) :
    ∃ hlt, scanMembers first text = (members, ending, some ⟨rest, hlt⟩) := by
  rw [scanEntries] at h
  match hscan : scanMembers first text with
  | (_, _, none) =>
      rw [hscan] at h
      cases h
  | (_, _, some ⟨after, hlt⟩) =>
      rw [hscan] at h
      cases h
      exact ⟨hlt, rfl⟩

theorem scan_object {text rest : List Char} {members : List (Option String × Node)}
    {ending : Ending} (h : scanEntries true text = (members, ending, some rest)) :
    scan ('\x7b' :: text) = (.object members ending, some rest) := by
  obtain ⟨hlt, hmembers⟩ := scanMembers_of_scanEntries h
  have hvalue : scanValue ('\x7b' :: text) =
      (.object members ending, some ⟨rest, Nat.lt_succ_of_lt hlt⟩) := by
    rw [scanValue]
    split
    case h_1 hdrop => cases hdrop
    case h_2 c tail hdrop =>
        cases hdrop
        simp only [Char.reduceEq, if_false, if_true, hmembers]
        rfl
  rw [scan, hvalue]
  rfl

theorem scanEntries_nil (rest : List Char) :
    scanEntries true ('\x7d' :: rest) = ([], .closed, some rest) := by
  rw [scanEntries, scanMembers]
  split
  case h_1 hdrop => cases hdrop
  case h_2 c tail hdrop =>
      cases hdrop
      rfl

/-- A member of an object, with what decides how the object goes on. -/
theorem scanEntries_value {first : Bool} {d : Char} {text value more : List Char}
    {key : Option String} {node : Node} (hkey : scanText .start text = .done key (':' :: value))
    (hd : isSpace d = false) (h : scan value = (node, some (d :: more))) :
    scanEntries first ('"' :: text) =
      if d = '\x7d' then ([(key, node)], .closed, some more)
      else if d = ',' then ((key, node) :: (scanEntries false more).1, (scanEntries false more).2)
      else ([(key, node)], .broken (.both .malformed), none) := by
  obtain ⟨hlt, hvalue⟩ := scanValue_of_scan h
  rw [scanEntries, scanMembers]
  split
  case h_1 hdrop => cases hdrop
  case h_2 c tail hdrop =>
      cases hdrop
      simp only [Char.reduceEq, false_and, if_false, if_true]
      split
      case h_1 why hbroken => cases hkey.symm.trans hbroken
      case h_2 found colon hdone =>
          cases hkey.symm.trans hdone
          split
          case h_1 hcolon => cases hcolon
          case h_2 e after hcolon =>
              cases hcolon
              simp only [if_true, hvalue]
              split
              case h_1 hafter => cases (dropSpace_cons hd more).symm.trans hafter
              case h_2 e behind hafter =>
                  cases (dropSpace_cons hd more).symm.trans hafter
                  by_cases hclose : d = '\x7d'
                  · simp [hclose]
                  · by_cases hcomma : d = ','
                    · simp [hcomma, scanEntries, Rest.behind]
                    · simp [hclose, hcomma]

/-! ### Numbers among values -/

theorem ne_of_isDigit {c d : Char} (hc : c.isDigit = true) (hd : d.isDigit = false) : c ≠ d := by
  rintro rfl
  rw [hc] at hd
  cases hd

theorem isSpace_of_isDigit {c : Char} (hc : c.isDigit = true) : isSpace c = false := by
  have hblank := ne_of_isDigit hc (by decide : ' '.isDigit = false)
  have hline := ne_of_isDigit hc (by decide : '\n'.isDigit = false)
  have htab := ne_of_isDigit hc (by decide : '\t'.isDigit = false)
  have hreturn := ne_of_isDigit hc (by decide : '\r'.isDigit = false)
  simp [isSpace, hblank, hline, htab, hreturn]

theorem scan_natural {n : Nat} (hn : n < 0x10000000000000000) {rest : List Char}
    (hrest : Stops rest) : scan (Text.digitsOf n ++ rest) = (.natural n, some rest) := by
  obtain ⟨c, digits, hdigits⟩ := List.exists_cons_of_ne_nil
    (Nat.toDigits_ne_nil : Nat.toDigits 10 n ≠ [])
  have hc : c.isDigit = true :=
    Nat.isDigit_of_mem_toDigits (by decide) (by decide) (hdigits ▸ List.mem_cons_self)
  have hnumber := scanNumber_digitsOf hn hrest
  rw [Text.digitsOf, hdigits, List.cons_append] at hnumber ⊢
  have hquote := ne_of_isDigit hc (by decide : '"'.isDigit = false)
  have hbracket := ne_of_isDigit hc (by decide : '['.isDigit = false)
  have hbrace := ne_of_isDigit hc (by decide : '\x7b'.isDigit = false)
  have hminus := ne_of_isDigit hc (by decide : '-'.isDigit = false)
  -- `numberNode` takes a proof about the scan, which therefore cannot be rewritten in place
  have hnode : ∀ {text : List Char} (found : Node × List Char)
      (hlt : found.2.length < text.length), found = (.natural n, rest) →
      ((numberNode found hlt).1, (numberNode found hlt).2.map (·.val)) =
        (.natural n, some rest) := by
    rintro text _ hlt rfl
    rfl
  show ((scanValue (c :: (digits ++ rest))).1,
    (scanValue (c :: (digits ++ rest))).2.map (·.val)) = _
  rw [scanValue]
  split
  case h_1 hdrop => cases (dropSpace_cons (isSpace_of_isDigit hc) _).symm.trans hdrop
  case h_2 d tail hdrop =>
      cases (dropSpace_cons (isSpace_of_isDigit hc) _).symm.trans hdrop
      simp only [hquote, hbracket, hbrace, hminus, hc, if_false, dif_pos]
      exact hnode _ _ hnumber

/-! ## The tree of a value -/

namespace Value

mutual

/-- The tree that the text of a value is scanned into. -/
def node : Value → Node
  | natural n => .natural n
  | text content => .text (some content)
  | array items => .array (nodes items) .closed
  | object members => .object (memberNodes members) .closed
termination_by structural value => value

def nodes : List Value → List Node
  | [] => []
  | value :: rest => node value :: nodes rest
termination_by structural items => items

def memberNodes : List (String × Value) → List (Option String × Node)
  | [] => []
  | member :: rest => memberNode member :: memberNodes rest
termination_by structural members => members

def memberNode : String × Value → Option String × Node
  | (key, value) => (some key, node value)
termination_by structural member => member

end

/-- Numbers have no more than 64 bits, and there is room for all arrays and
objects inside each other. -/
inductive Fits : (room : Nat) → Value → Prop where
  | natural {room n : Nat} : n < 0x10000000000000000 → Fits room (.natural n)
  | text {room : Nat} {content : String} : Fits room (.text content)
  | array {room : Nat} {items : List Value} :
      (∀ value ∈ items, Fits room value) → Fits (room + 1) (.array items)
  | object {room : Nat} {members : List (String × Value)} :
      (∀ member ∈ members, Fits room member.2) → Fits (room + 1) (.object members)

/-- A value is scanned back from its text wherever the text stops. -/
def ScansBack (value : Value) : Prop :=
  ∀ rest, Stops rest → scan (value.chars ++ rest) = (value.node, some rest)

theorem chars_eq_cons (value : Value) :
    ∃ c text, value.chars = c :: text ∧ isSpace c = false ∧ c ≠ ']' := by
  cases value with
  | natural n =>
      obtain ⟨c, digits, hdigits⟩ := List.exists_cons_of_ne_nil
        (Nat.toDigits_ne_nil : Nat.toDigits 10 n ≠ [])
      have hc : c.isDigit = true :=
        Nat.isDigit_of_mem_toDigits (by decide) (by decide) (hdigits ▸ List.mem_cons_self)
      exact ⟨c, digits, hdigits, isSpace_of_isDigit hc, ne_of_isDigit hc (by decide)⟩
  | text content => exact ⟨'"', _, rfl, by decide, by decide⟩
  | array items => exact ⟨'[', _, rfl, by decide, by decide⟩
  | object members => exact ⟨'\x7b', _, rfl, by decide, by decide⟩

theorem stops_cons {c : Char} (hdigit : c.isDigit = false) (hpoint : c ≠ '.') (he : c ≠ 'e')
    (hE : c ≠ 'E') (rest : List Char) : Stops (c :: rest) := by
  intro d hd
  obtain rfl : c = d := by simpa using hd
  exact ⟨hdigit, hpoint, he, hE⟩

theorem stops_comma (rest : List Char) : Stops (',' :: rest) :=
  stops_cons (by decide) (by decide) (by decide) (by decide) rest

theorem scanElements_chars {first : Bool} {value : Value} {items : List Value}
    (hvalue : value.ScansBack) (hitems : ∀ item ∈ items, item.ScansBack) (rest : List Char) :
    scanElements first (value.chars ++ (moreItems items ++ ']' :: rest)) =
      (value.node :: nodes items, .closed, some rest) := by
  induction items generalizing first value with
  | nil =>
      obtain ⟨c, text, hchars, hspace, hbracket⟩ := chars_eq_cons value
      have hscan := hvalue (']' :: rest)
        (stops_cons (by decide) (by decide) (by decide) (by decide) rest)
      rw [hchars, List.cons_append] at hscan
      rw [moreItems, List.nil_append, hchars, List.cons_append,
        scanElements_value hspace hbracket (by decide) hscan, if_pos rfl]
      rfl
  | cons item items ih =>
      obtain ⟨c, text, hchars, hspace, hbracket⟩ := chars_eq_cons value
      have hscan := hvalue (',' :: (item.chars ++ (moreItems items ++ ']' :: rest)))
        (stops_comma _)
      have hothers := @ih false item (hitems item List.mem_cons_self)
        (fun other hother => hitems other (List.mem_cons_of_mem _ hother))
      rw [hchars, List.cons_append] at hscan
      rw [moreItems, List.cons_append, List.cons_append, List.append_assoc, hchars,
        List.cons_append, scanElements_value hspace hbracket (by decide) hscan,
        if_neg (by decide), if_pos rfl, hothers]
      rfl

theorem scanEntries_chars {first : Bool} {member : String × Value}
    {members : List (String × Value)} (hmember : member.2.ScansBack)
    (hmembers : ∀ other ∈ members, other.2.ScansBack) (rest : List Char) :
    scanEntries first (oneMember member ++ (moreMembers members ++ '\x7d' :: rest)) =
      (memberNode member :: memberNodes members, .closed, some rest) := by
  induction members generalizing first member with
  | nil =>
      obtain ⟨key, value⟩ := member
      have hscan := hmember ('\x7d' :: rest)
        (stops_cons (by decide) (by decide) (by decide) (by decide) rest)
      rw [moreMembers, List.nil_append, oneMember, List.append_assoc, List.cons_append,
        quote_append, scanEntries_value (scanText_content key _) (by decide) hscan, if_pos rfl]
      rfl
  | cons other members ih =>
      obtain ⟨key, value⟩ := member
      have hscan := hmember (',' :: (oneMember other ++ (moreMembers members ++ '\x7d' :: rest)))
        (stops_comma _)
      have hothers := @ih false other (hmembers other List.mem_cons_self)
        (fun later hlater => hmembers later (List.mem_cons_of_mem _ hlater))
      rw [moreMembers, List.cons_append, List.cons_append, List.append_assoc, oneMember,
        List.append_assoc, List.cons_append, quote_append,
        scanEntries_value (scanText_content key _) (by decide) hscan, if_neg (by decide),
        if_pos rfl, hothers]
      rfl

theorem Fits.scansBack {room : Nat} {value : Value} (h : value.Fits room) : value.ScansBack := by
  induction h with
  | natural hn => exact fun rest hrest => scan_natural hn hrest
  | text => 
      intro rest _
      rw [chars, quote_append]
      exact scan_text (scanText_content _ rest)
  | @array room items _ ih =>
      intro rest _
      show scan ('[' :: itemChars items ++ [']'] ++ rest) = _
      rw [List.cons_append, List.cons_append, List.append_assoc, List.singleton_append]
      apply scan_array
      cases items with
      | nil => exact scanElements_nil rest
      | cons item items =>
          rw [itemChars, List.append_assoc]
          exact scanElements_chars (ih item List.mem_cons_self)
            (fun other hother => ih other (List.mem_cons_of_mem _ hother)) rest
  | @object room members _ ih =>
      intro rest _
      show scan ('\x7b' :: memberChars members ++ ['\x7d'] ++ rest) = _
      rw [List.cons_append, List.cons_append, List.append_assoc, List.singleton_append]
      apply scan_object
      cases members with
      | nil => exact scanEntries_nil rest
      | cons member members =>
          rw [memberChars, List.append_assoc]
          exact scanEntries_chars (ih member List.mem_cons_self)
            (fun other hother => ih other (List.mem_cons_of_mem _ hother)) rest

theorem Fits.mono {room larger : Nat} {value : Value} (h : value.Fits room)
    (hle : room ≤ larger) : value.Fits larger := by
  induction h generalizing larger with
  | natural hn => exact .natural hn
  | text => exact .text
  | array _ ih =>
      obtain ⟨larger, rfl⟩ := Nat.exists_eq_succ_of_ne_zero (by omega : larger ≠ 0)
      exact .array fun value hvalue => ih value hvalue (by omega)
  | object _ ih =>
      obtain ⟨larger, rfl⟩ := Nat.exists_eq_succ_of_ne_zero (by omega : larger ≠ 0)
      exact .object fun member hmember => ih member hmember (by omega)

/-! ### Control characters -/

theorem le_toNat_of_mem_escape {c : Char} : ∀ d ∈ escape c, 0x20 ≤ d.toNat := by
  fun_cases escape c with
  | case8 =>
      have hhex : ∀ n < 16, 0x20 ≤ (Nat.digitChar n).toNat := by decide
      intro d h
      rcases List.mem_append.mp h with h | h
      · exact (by simp : ∀ d ∈ ['\\', 'u'], 0x20 ≤ d.toNat) d h
      · obtain ⟨n, hn, rfl⟩ := Text.mem_hexDigits h
        exact hhex n hn
  | case9 c _ _ _ _ _ _ _ hcontrol =>
      intro d h
      rw [List.mem_singleton.mp h]
      omega
  | _ => simp

theorem le_toNat_of_mem_quote {content : String} {c : Char} (h : c ∈ quote content) :
    0x20 ≤ c.toNat := by
  simp only [quote, List.cons_append, List.mem_cons, List.mem_append, List.mem_flatMap,
    List.not_mem_nil, or_false] at h
  rcases h with rfl | ⟨d, _, hd⟩ | rfl
  · decide
  · exact le_toNat_of_mem_escape _ hd
  · decide

theorem mem_moreItems {items : List Value} {c : Char} (h : c ∈ moreItems items) :
    c = ',' ∨ ∃ item ∈ items, c ∈ item.chars := by
  induction items with
  | nil => cases h
  | cons item items ih =>
      simp only [moreItems, List.cons_append, List.mem_cons, List.mem_append] at h
      rcases h with rfl | h | h
      · exact Or.inl rfl
      · exact Or.inr ⟨item, List.mem_cons_self, h⟩
      · rcases ih h with rfl | ⟨other, hother, hc⟩
        · exact Or.inl rfl
        · exact Or.inr ⟨other, List.mem_cons_of_mem _ hother, hc⟩

theorem mem_itemChars {items : List Value} {c : Char} (h : c ∈ itemChars items) :
    c = ',' ∨ ∃ item ∈ items, c ∈ item.chars := by
  cases items with
  | nil => cases h
  | cons item items =>
      rw [itemChars, List.mem_append] at h
      exact mem_moreItems (by simpa [moreItems] using Or.inr h)

theorem mem_moreMembers {members : List (String × Value)} {c : Char} (h : c ∈ moreMembers members) :
    0x20 ≤ c.toNat ∨ ∃ member ∈ members, c ∈ member.2.chars := by
  induction members with
  | nil => cases h
  | cons member members ih =>
      obtain ⟨key, value⟩ := member
      simp only [moreMembers, oneMember, List.cons_append, List.mem_cons, List.mem_append] at h
      rcases h with rfl | (h | rfl | h) | h
      · exact Or.inl (by decide)
      · exact Or.inl (le_toNat_of_mem_quote h)
      · exact Or.inl (by decide)
      · exact Or.inr ⟨(key, value), List.mem_cons_self, h⟩
      · rcases ih h with h | ⟨other, hother, hc⟩
        · exact Or.inl h
        · exact Or.inr ⟨other, List.mem_cons_of_mem _ hother, hc⟩

theorem mem_memberChars {members : List (String × Value)} {c : Char} (h : c ∈ memberChars members) :
    0x20 ≤ c.toNat ∨ ∃ member ∈ members, c ∈ member.2.chars := by
  cases members with
  | nil => cases h
  | cons member members =>
      rw [memberChars, List.mem_append] at h
      exact mem_moreMembers (by simpa [moreMembers] using Or.inr h)

theorem Fits.le_toNat_of_mem_chars {room : Nat} {value : Value} (h : value.Fits room) {c : Char}
    (hc : c ∈ value.chars) : 0x20 ≤ c.toNat := by
  induction h with
  | natural hn =>
      have hdigit := Nat.isDigit_of_mem_toDigits (by decide) (by decide) hc
      have hzero : '0'.toNat ≤ c.toNat := by
        simp only [Char.isDigit, Bool.and_eq_true, decide_eq_true_eq] at hdigit
        exact hdigit.1
      exact Nat.le_trans (by decide) hzero
  | text => exact le_toNat_of_mem_quote hc
  | array _ ih =>
      simp only [chars, List.cons_append, List.mem_cons, List.mem_append, List.not_mem_nil,
        or_false] at hc
      rcases hc with rfl | hc | rfl
      · decide
      · rcases mem_itemChars hc with rfl | ⟨item, hitem, hc⟩
        · decide
        · exact ih item hitem hc
      · decide
  | object _ ih =>
      simp only [chars, List.cons_append, List.mem_cons, List.mem_append, List.not_mem_nil,
        or_false] at hc
      rcases hc with rfl | hc | rfl
      · decide
      · rcases mem_memberChars hc with hc | ⟨member, hmember, hc⟩
        · exact hc
        · exact ih member hmember hc
      · decide
/-! ### Reading -/

theorem readItems_nodes {room : Nat} {items : List Value}
    (h : ∀ item ∈ items, item.node.readFault? room = none) :
    readItems (nodes items) room = none := by
  induction items with
  | nil => rfl
  | cons item items ih =>
      rw [nodes, readItems, h item List.mem_cons_self, Option.none_or]
      exact ih fun other hother => h other (List.mem_cons_of_mem _ hother)

theorem readMembers_memberNodes {room : Nat} {members : List (String × Value)}
    (h : ∀ member ∈ members, member.2.node.readFault? room = none) :
    readMembers (memberNodes members) room = none := by
  induction members with
  | nil => rfl
  | cons member members ih =>
      obtain ⟨key, value⟩ := member
      rw [memberNodes, readMembers, memberNode, readMember, firstKeyFault,
        h (key, value) List.mem_cons_self]
      exact ih fun other hother => h other (List.mem_cons_of_mem _ hother)

theorem Fits.readFault?_node {room : Nat} {value : Value} (h : value.Fits room) :
    value.node.readFault? room = none := by
  induction h with
  | natural => rfl
  | text => rfl
  | array _ ih =>
      rw [node, Node.readFault?, readItems_nodes ih]
      rfl
  | object _ ih =>
      rw [node, Node.readFault?, readMembers_memberNodes ih]
      rfl

end Value

/-- A decoder that knows the tree of a value reads the value's text. -/
theorem read_render {α : Type} {d : Decoder α} {value : Value} {a : α}
    (hfits : value.Fits depthLimit) (hd : d depthLimit value.node = .ok a) :
    read d value.render = .ok a := by
  have hscan := hfits.scansBack [] (fun c hc => by cases hc)
  rw [List.append_nil] at hscan
  rw [read, Value.render, String.toList_ofList, hscan]
  show (d depthLimit value.node >>= _) = _
  rw [hd]
  rfl

end CallAtlas.Json
