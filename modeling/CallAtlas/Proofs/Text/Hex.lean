import CallAtlas.Text.Hex
import Mathlib.Algebra.Group.Nat.Defs
import Mathlib.Data.List.Induction

/-!
# Reading hexadecimal digits back

The digits that are written for a number are read back as that number, as far
as there are digits enough for it. The other way round, digits that are read are
those that are written for their number, but for their case.
-/

namespace CallAtlas.Text

theorem hexValue?_digitChar : ∀ d < 16, hexValue? (Nat.digitChar d) = some d := by
  decide

theorem hexFrom?_append (acc : Nat) (front back : List Char) :
    hexFrom? acc (front ++ back) = (hexFrom? acc front).bind (hexFrom? · back) := by
  induction front generalizing acc with
  | nil => rfl
  | cons c front ih =>
      rw [List.cons_append, hexFrom?, hexFrom?]
      cases hexValue? c with
      | none => rfl
      | some v => exact ih _

theorem length_hexDigits (count n : Nat) : (hexDigits count n).length = count := by
  induction count generalizing n with
  | zero => rfl
  | succ count ih => rw [hexDigits, List.length_append, ih, List.length_singleton]

theorem mem_hexDigits {count n : Nat} {c : Char} (h : c ∈ hexDigits count n) :
    ∃ d < 16, c = Nat.digitChar d := by
  induction count generalizing n with
  | zero => cases h
  | succ count ih =>
      rcases List.mem_append.mp h with h | h
      · exact ih h
      · exact ⟨n % 16, Nat.mod_lt _ (by decide), List.mem_singleton.mp h⟩

theorem hexFrom?_hexDigits (acc count n : Nat) :
    hexFrom? acc (hexDigits count n) = some (16 ^ count * acc + n % 16 ^ count) := by
  induction count generalizing n with
  | zero => simp [hexDigits, hexFrom?, Nat.mod_one]
  | succ count ih =>
      have hlast : hexValue? (Nat.digitChar (n % 16)) = some (n % 16) :=
        hexValue?_digitChar _ (Nat.mod_lt _ (by decide))
      have hmod : n % 16 ^ (count + 1) = n % 16 + 16 * (n / 16 % 16 ^ count) := by
        rw [Nat.pow_succ', Nat.mod_mul]
      have hsum : 16 * (16 ^ count * acc + n / 16 % 16 ^ count) + n % 16 =
          16 ^ (count + 1) * acc + n % 16 ^ (count + 1) := by
        rw [hmod, Nat.pow_succ', Nat.mul_add, Nat.mul_assoc]
        omega
      rw [hexDigits, hexFrom?_append, ih, Option.bind_some, hexFrom?, hlast]
      exact congrArg some hsum

/-- A number is read back from its digits if there are enough of them. -/
theorem hexFrom?_hexDigits_of_lt {count n : Nat} (h : n < 16 ^ count) :
    hexFrom? 0 (hexDigits count n) = some n := by
  rw [hexFrom?_hexDigits, Nat.mul_zero, Nat.zero_add, Nat.mod_eq_of_lt h]

/-! ## Digits of either case -/

def IsLowerHexDigit (c : Char) : Prop :=
  ('0' ≤ c ∧ c ≤ '9') ∨ ('a' ≤ c ∧ c ≤ 'f')

def IsHexDigit (c : Char) : Prop :=
  IsLowerHexDigit c ∨ ('A' ≤ c ∧ c ≤ 'F')

instance (c : Char) : Decidable (IsLowerHexDigit c) :=
  inferInstanceAs (Decidable (_ ∨ _))

instance (c : Char) : Decidable (IsHexDigit c) :=
  inferInstanceAs (Decidable (_ ∨ _))

theorem isLowerHexDigit_digitChar : ∀ d < 16, IsLowerHexDigit (Nat.digitChar d) := by
  decide

theorem isSome_hexValue?_iff {c : Char} : (hexValue? c).isSome ↔ IsHexDigit c := by
  unfold hexValue? IsHexDigit IsLowerHexDigit
  split
  case isTrue h => simp [h]
  case isFalse hdecimal =>
    split
    case isTrue h => simp [h]
    case isFalse hlower => split <;> simp [*]

theorem toNat_le_toNat_toLower (c : Char) : c.toNat ≤ c.toLower.toNat := by
  delta Char.toLower
  split
  case isTrue h =>
    have hlast : c.toNat ≤ 90 := UInt32.le_iff_toNat_le.mp h.2
    have hfits : c.toNat + 32 < 2 ^ 32 := by omega
    have hlower : (c.val + 32).toNat = c.toNat + 32 := by
      rw [UInt32.toNat_add]
      exact Nat.mod_eq_of_lt hfits
    show c.toNat ≤ (c.val + 32).toNat
    omega
  case isFalse => exact Nat.le_refl _

/-- What holds of the first 128 characters, one by one. -/
theorem forall_of_ofNat {P : Char → Prop} (h : ∀ n < 128, P (Char.ofNat n)) (c : Char)
    (hc : c.toNat < 128) : P c :=
  Char.ofNat_toNat c ▸ h c.toNat hc

theorem lt_of_toLower_eq_digitChar {c : Char} {v : Nat} (hv : v < 16)
    (h : c.toLower = Nat.digitChar v) : c.toNat < 128 := by
  have hdigit : ∀ v < 16, (Nat.digitChar v).toNat < 128 := by decide
  exact Nat.lt_of_le_of_lt (toNat_le_toNat_toLower c) (h ▸ hdigit v hv)

theorem IsHexDigit.toNat_lt {c : Char} (h : IsHexDigit c) : c.toNat < 128 := by
  have hle {last : Char} (hlast : c ≤ last) : c.toNat ≤ last.toNat :=
    UInt32.le_iff_toNat_le.mp (Char.le_def.mp hlast)
  rcases h with (⟨-, hlast⟩ | ⟨-, hlast⟩) | ⟨-, hlast⟩
  · exact Nat.lt_of_le_of_lt (hle hlast) (by decide)
  · exact Nat.lt_of_le_of_lt (hle hlast) (by decide)
  · exact Nat.lt_of_le_of_lt (hle hlast) (by decide)

/-- In lower case a digit is the one that is written for its value. -/
theorem hexValue?_eq_some_iff {c : Char} {v : Nat} :
    hexValue? c = some v ↔ v < 16 ∧ c.toLower = Nat.digitChar v := by
  constructor
  · intro h
    have hsound : ∀ c : Char, c.toNat < 128 →
        ∀ v ∈ hexValue? c, v < 16 ∧ c.toLower = Nat.digitChar v := by
      apply forall_of_ofNat
      decide +kernel
    have hdigit : IsHexDigit c := isSome_hexValue?_iff.mp (Option.isSome_of_eq_some h)
    exact hsound c hdigit.toNat_lt v h
  · rintro ⟨hv, h⟩
    have hcomplete : ∀ c : Char, c.toNat < 128 →
        ∀ v < 16, c.toLower = Nat.digitChar v → hexValue? c = some v := by
      apply forall_of_ofNat
      decide +kernel
    exact hcomplete c (lt_of_toLower_eq_digitChar hv h) v hv h

/-! ## Runs of digits -/

theorem hexFrom?_append_singleton_eq_some_iff {acc n : Nat} {l : List Char} {c : Char} :
    hexFrom? acc (l ++ [c]) = some n ↔
      ∃ m v, hexFrom? acc l = some m ∧ hexValue? c = some v ∧ 16 * m + v = n := by
  rw [hexFrom?_append, Option.bind_eq_some_iff]
  constructor
  · rintro ⟨m, hm, hlast⟩
    rw [hexFrom?] at hlast
    cases hv : hexValue? c with
    | none =>
        rw [hv] at hlast
        cases hlast
    | some v =>
        rw [hv] at hlast
        exact ⟨m, v, hm, rfl, Option.some.inj hlast⟩
  · rintro ⟨m, v, hm, hv, rfl⟩
    refine ⟨m, hm, ?_⟩
    rw [hexFrom?, hv]
    rfl

theorem isSome_hexFrom?_iff {acc : Nat} {l : List Char} :
    (hexFrom? acc l).isSome ↔ ∀ c ∈ l, IsHexDigit c := by
  induction l generalizing acc with
  | nil => simp [hexFrom?]
  | cons c l ih =>
      rw [hexFrom?, List.forall_mem_cons, ← isSome_hexValue?_iff]
      cases hexValue? c with
      | none => simp
      | some v => simpa using ih

/-- The number that is read has these digits, in lower case. -/
theorem hexDigits_of_hexFrom? {acc n : Nat} {l : List Char} (h : hexFrom? acc l = some n) :
    hexDigits l.length n = l.map Char.toLower := by
  induction l using List.reverseRecOn generalizing n with
  | nil => rfl
  | append_singleton l c ih =>
      obtain ⟨m, v, hm, hv, rfl⟩ := hexFrom?_append_singleton_eq_some_iff.mp h
      obtain ⟨hlt, hc⟩ := hexValue?_eq_some_iff.mp hv
      have hfront : (16 * m + v) / 16 = m := by omega
      have hlast : (16 * m + v) % 16 = v := by omega
      rw [List.length_append, List.length_singleton, hexDigits, hfront, hlast, ih hm,
        List.map_append, List.map_singleton, hc]

theorem lt_of_hexFrom? {n : Nat} {l : List Char} (h : hexFrom? 0 l = some n) :
    n < 16 ^ l.length := by
  induction l using List.reverseRecOn generalizing n with
  | nil =>
      cases h
      exact Nat.one_pos
  | append_singleton l c ih =>
      obtain ⟨m, v, hm, hv, rfl⟩ := hexFrom?_append_singleton_eq_some_iff.mp h
      have hm := ih hm
      have hv := (hexValue?_eq_some_iff.mp hv).1
      rw [List.length_append, List.length_singleton, Nat.pow_succ]
      omega

end CallAtlas.Text
