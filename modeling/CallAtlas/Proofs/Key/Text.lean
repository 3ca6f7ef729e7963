import CallAtlas.Key
import CallAtlas.Proofs.Text.Hex
import Mathlib.Data.String.Basic

/-!
# The text of a key

A key is read back from its text. A text names a key if it writes sixteen hexadecimal
digits, in either case, where a plus sign at the head counts as the digit zero. The text
of the key that it names is these digits in lower case.
-/

namespace CallAtlas.Key

theorem utf8Len_hexDigits (count n : Nat) : String.utf8Len (Text.hexDigits count n) = count := by
  induction count generalizing n with
  | zero => rfl
  | succ count ih =>
      have hone : ∀ d < 16, (Nat.digitChar d).utf8Size = 1 := by decide
      rw [Text.hexDigits, String.utf8Len_append, ih, String.utf8Len_cons,
        hone _ (Nat.mod_lt _ (by decide)), String.utf8Len_nil]

theorem utf8ByteSize_text (k : Key) : k.text.utf8ByteSize = 16 := by
  rw [text, String.utf8ByteSize_ofList, utf8Len_hexDigits]

theorem dropPlus_hexDigits (count n : Nat) :
    dropPlus (Text.hexDigits count n) = Text.hexDigits count n := by
  have hplus : ∀ d < 16, Nat.digitChar d ≠ '+' := by decide
  match hdigits : Text.hexDigits count n with
  | [] => rfl
  | c :: rest =>
      obtain ⟨d, hd, rfl⟩ := Text.mem_hexDigits (hdigits ▸ List.mem_cons_self)
      rw [dropPlus]
      exact fun _ heq => hplus d hd (List.cons.inj heq).1

/-- A key is read back from its text. -/
theorem parse_text (k : Key) : parse k.text = .ok k := by
  have hlt : k.word.toNat < 16 ^ 16 := k.word.toNat_lt
  have hdigits : Text.hexFrom? 0 (dropPlus k.text.toList) = some k.word.toNat := by
    rw [text, String.toList_ofList, dropPlus_hexDigits, Text.hexFrom?_hexDigits_of_lt hlt]
  rw [parse, if_neg (fun h => h (utf8ByteSize_text k)), hdigits]
  show Except.ok (⟨k.word.toNat.toUInt64⟩ : Key) = .ok k
  rw [Nat.toUInt64_eq, UInt64.ofNat_toNat]

theorem text_injective : Function.Injective text := by
  intro k l h
  have hread := parse_text k
  rw [h, parse_text] at hread
  exact (Except.ok.inj hread).symm

theorem isLowerHexDigit_of_mem_text {k : Key} {c : Char} (h : c ∈ k.text.toList) :
    Text.IsLowerHexDigit c := by
  rw [text, String.toList_ofList] at h
  obtain ⟨d, hd, rfl⟩ := Text.mem_hexDigits h
  exact Text.isLowerHexDigit_digitChar d hd

theorem length_text (k : Key) : k.text.length = 16 := by
  rw [text, String.length_ofList, Text.length_hexDigits]

/-! ## Texts that name a key -/

/-- A plus sign at the head counts as the digit zero. -/
def zeroPlus : List Char → List Char
  | '+' :: rest => '0' :: rest
  | digits => digits

/-- The digits that a text writes. -/
def digits (text : String) : List Char :=
  zeroPlus text.toList

def Names (text : String) : Prop :=
  (digits text).length = 16 ∧ ∀ c ∈ digits text, Text.IsHexDigit c

instance (text : String) : Decidable (Names text) :=
  inferInstanceAs (Decidable (_ ∧ _))

/-- The digits that a text writes, in lower case. -/
def spelling (text : String) : String :=
  String.ofList ((digits text).map Char.toLower)

section

variable {text : String}

theorem zeroPlus_of_head?_ne {l : List Char} (h : l.head? ≠ some '+') : zeroPlus l = l := by
  unfold zeroPlus
  split
  case h_1 => exact absurd rfl h
  case h_2 => rfl

theorem dropPlus_of_head?_ne {l : List Char} (h : l.head? ≠ some '+') : dropPlus l = l := by
  unfold dropPlus
  split
  case h_1 => exact absurd rfl h
  case h_2 => rfl

theorem hexFrom?_dropPlus (l : List Char) :
    Text.hexFrom? 0 (dropPlus l) = Text.hexFrom? 0 (zeroPlus l) := by
  by_cases h : l.head? = some '+'
  · obtain ⟨rest, rfl⟩ := List.head?_eq_some_iff.mp h
    rfl
  · rw [dropPlus_of_head?_ne h, zeroPlus_of_head?_ne h]

theorem utf8Len_zeroPlus (l : List Char) : String.utf8Len (zeroPlus l) = String.utf8Len l := by
  by_cases h : l.head? = some '+'
  · obtain ⟨rest, rfl⟩ := List.head?_eq_some_iff.mp h
    rfl
  · rw [zeroPlus_of_head?_ne h]

theorem utf8Size_of_isHexDigit {c : Char} (h : Text.IsHexDigit c) : c.utf8Size = 1 :=
  Char.utf8Size_eq_one_iff.mpr (UInt32.le_iff_toNat_le.mpr (Nat.le_of_lt_succ h.toNat_lt))

theorem utf8Len_of_isHexDigit {l : List Char} (h : ∀ c ∈ l, Text.IsHexDigit c) :
    String.utf8Len l = l.length := by
  induction l with
  | nil => rfl
  | cons c l ih =>
      obtain ⟨hc, hl⟩ := List.forall_mem_cons.mp h
      rw [String.utf8Len_cons, ih hl, utf8Size_of_isHexDigit hc, List.length_cons]

theorem utf8ByteSize_eq_length_digits (h : ∀ c ∈ digits text, Text.IsHexDigit c) :
    text.utf8ByteSize = (digits text).length := by
  rw [← utf8Len_of_isHexDigit h, digits, utf8Len_zeroPlus, ← String.utf8ByteSize_ofList,
    String.ofList_toList]

theorem isSome_hexFrom?_of_names (h : Names text) : (Text.hexFrom? 0 (digits text)).isSome :=
  Text.isSome_hexFrom?_iff.mpr h.2

theorem parse_of_names {n : Nat} (h : Names text) (hn : Text.hexFrom? 0 (digits text) = some n) :
    parse text = .ok ⟨n.toUInt64⟩ := by
  have hsize : text.utf8ByteSize = 16 := (utf8ByteSize_eq_length_digits h.2).trans h.1
  rw [parse, if_neg (fun hne => hne hsize), hexFrom?_dropPlus, ← digits, hn]

theorem text_of_names {n : Nat} (h : Names text) (hn : Text.hexFrom? 0 (digits text) = some n) :
    (⟨n.toUInt64⟩ : Key).text = spelling text := by
  have hlt : n < 2 ^ 64 := by
    have hbound := Text.lt_of_hexFrom? hn
    rw [h.1] at hbound
    exact hbound
  have hword : n.toUInt64.toNat = n := by
    rw [Nat.toUInt64_eq]
    exact UInt64.toNat_ofNat_of_lt' hlt
  have hdigits := Text.hexDigits_of_hexFrom? hn
  rw [h.1] at hdigits
  rw [Key.text, hword, hdigits, spelling]

theorem names_of_parse {k : Key} (h : parse text = .ok k) : Names text := by
  unfold parse at h
  split at h
  case isTrue => cases h
  case isFalse hsize =>
    split at h
    case h_1 n hn =>
      have hhex : ∀ c ∈ digits text, Text.IsHexDigit c := by
        rw [hexFrom?_dropPlus] at hn
        exact Text.isSome_hexFrom?_iff.mp (Option.isSome_of_eq_some hn)
      rw [utf8ByteSize_eq_length_digits hhex, not_not] at hsize
      exact ⟨hsize, hhex⟩
    case h_2 => cases h

/-- A text names the key that has its digits. -/
theorem parse_eq_ok_iff {k : Key} : parse text = .ok k ↔ Names text ∧ k.text = spelling text := by
  have hparse (h : Names text) : ∃ l, parse text = .ok l ∧ l.text = spelling text := by
    obtain ⟨n, hn⟩ := Option.isSome_iff_exists.mp (isSome_hexFrom?_of_names h)
    exact ⟨_, parse_of_names h hn, text_of_names h hn⟩
  constructor
  · intro h
    have hnames := names_of_parse h
    obtain ⟨l, hl, htext⟩ := hparse hnames
    rw [h] at hl
    exact ⟨hnames, Except.ok.inj hl ▸ htext⟩
  · rintro ⟨hnames, htext⟩
    obtain ⟨l, hl, hspelling⟩ := hparse hnames
    rw [hl, text_injective (htext.trans hspelling.symm)]

end

end CallAtlas.Key
