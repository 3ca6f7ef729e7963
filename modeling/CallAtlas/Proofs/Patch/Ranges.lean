import CallAtlas.Proofs.Patch.Hunks

/-!
# What lines take from ranges

The header of a hunk gives a range of line numbers for each side, and every line
behind it takes the next number from the range of each side that has the line,
until both ranges are used up. A range whose numbers fit 32 bits hands out just
these numbers: what is left of it still fits, so that no sum and no difference
is ever cut off.
-/

namespace CallAtlas.Patch

/-! ## One range -/

namespace Range

/-- The numbers of the lines of a range. -/
def numbers (r : Range) : List Nat :=
  List.range' r.next.toNat r.left.toNat

/-- Taking a line from a range counts as the numbers do that the words stand
for. -/
def Counts (r : Range) : Prop :=
  ∀ n rest, r.take? = some (n, rest) →
    n = r.next ∧ rest.next.toNat = r.next.toNat + 1 ∧ rest.left.toNat + 1 = r.left.toNat

theorem toNat_left_of_take? {r rest : Range} {n : UInt32} (h : r.take? = some (n, rest)) :
    rest.left.toNat + 1 = r.left.toNat := by
  obtain ⟨hleft, rfl, rfl⟩ := take?_eq_some_iff.mp h
  have hpos : r.left.toNat ≠ 0 := fun hzero => hleft (UInt32.toNat_inj.mp hzero)
  have hone : (1 : UInt32) ≤ r.left := UInt32.le_iff_toNat_le.mpr (Nat.pos_of_ne_zero hpos)
  have hsub : (r.left - 1).toNat = r.left.toNat - 1 := UInt32.toNat_sub_of_le _ _ hone
  show (r.left - 1).toNat + 1 = _
  omega

theorem counts_of_inBounds {r : Range} (h : r.inBounds) : r.Counts := by
  intro n rest htake
  have hfits : r.next.toNat + r.left.toNat < 0x100000000 := of_decide_eq_true h
  have hleft := toNat_left_of_take? htake
  obtain ⟨-, rfl, rfl⟩ := take?_eq_some_iff.mp htake
  refine ⟨rfl, ?_, hleft⟩
  have hone : (1 : UInt32).toNat = 1 := rfl
  have hsum : r.next.toNat + 1 < 2 ^ 32 := by omega
  show (r.next + 1).toNat = _
  rw [UInt32.toNat_add, hone, Nat.mod_eq_of_lt hsum]

/-- What a range hands out for a line, and what is left of it: nothing, if its
side does not have the line. -/
inductive Gives (r : Range) : Option UInt32 → Range → Prop where
  | nothing : r.Gives none r
  | next {n : UInt32} {rest : Range} : r.take? = some (n, rest) → r.Gives (some n) rest

namespace Gives

variable {r rest : Range} {n? : Option UInt32}

theorem left_eq (h : r.Gives n? rest) :
    r.left.toNat = rest.left.toNat + n?.toList.length := by
  cases h with
  | nothing => rfl
  | next htake => exact (toNat_left_of_take? htake).symm

theorem inBounds (h : r.Gives n? rest) (hr : r.inBounds) : rest.inBounds := by
  cases h with
  | nothing => exact hr
  | next htake =>
      have hfits : r.next.toNat + r.left.toNat < 0x100000000 := of_decide_eq_true hr
      obtain ⟨-, hnext, hleft⟩ := counts_of_inBounds hr _ _ htake
      exact decide_eq_true (by omega)

theorem numbers_eq (h : r.Gives n? rest) (hr : r.inBounds) :
    r.numbers = n?.toList.map UInt32.toNat ++ rest.numbers := by
  cases h with
  | nothing => rfl
  | next htake =>
      obtain ⟨rfl, hnext, hleft⟩ := counts_of_inBounds hr _ _ htake
      rw [numbers, numbers, ← hleft, hnext, List.range'_succ]
      rfl

end Gives

end Range

/-! ## A line of a hunk -/

/-- The old file has the line. -/
def onOldSide (line : List Char) : Bool :=
  line.head?.all fun c => c = ' ' || c = '-'

/-- The new file has the line. -/
def onNewSide (line : List Char) : Bool :=
  line.head?.all fun c => c = ' ' || c = '+'

/-- What a line takes from the two ranges of its hunk. -/
structure Takes (old new : Range) (line : List Char) (change : Option LineChange)
    (old' new' : Range) : Prop where
  old_gives : old.Gives (change.bind LineChange.old?) old'
  new_gives : new.Gives (change.bind LineChange.new?) new'
  on_old : onOldSide line = (change.bind LineChange.old?).isSome
  on_new : onNewSide line = (change.bind LineChange.new?).isSome

theorem takes_of_takeLine? {old new old' new' : Range} {line : List Char}
    {change : Option LineChange} (h : takeLine? old new line = some (change, old', new')) :
    Takes old new line change old' new' := by
  have hkept (h : takeLine?.kept old new = some (change, old', new')) :
      ∃ m n, old.take? = some (m, old') ∧ new.take? = some (n, new') ∧
        change = some (.context m n) := by
    simp only [takeLine?.kept, Option.bind_eq_bind, Option.bind_eq_some_iff] at h
    obtain ⟨⟨m, _⟩, hold, ⟨n, _⟩, hnew, heq⟩ := h
    cases heq
    exact ⟨m, n, hold, hnew, rfl⟩
  rw [takeLine?.eq_def] at h
  split at h
  · cases h
    exact ⟨.nothing, .nothing, rfl, rfl⟩
  · obtain ⟨⟨m, rest⟩, htake, heq⟩ := Option.map_eq_some_iff.mp h
    cases heq
    exact ⟨.next htake, .nothing, rfl, rfl⟩
  · obtain ⟨⟨n, rest⟩, htake, heq⟩ := Option.map_eq_some_iff.mp h
    cases heq
    exact ⟨.nothing, .next htake, rfl, rfl⟩
  · obtain ⟨m, n, hold, hnew, rfl⟩ := hkept h
    exact ⟨.next hold, .next hnew, rfl, rfl⟩
  · obtain ⟨m, n, hold, hnew, rfl⟩ := hkept h
    exact ⟨.next hold, .next hnew, rfl, rfl⟩
  · cases h

/-! ## Hunk headers -/

theorem inBounds_of_range? {text : RangeText} {r : Range} (h : text.range? = some r) :
    r.inBounds := by
  obtain ⟨next, left, hr⟩ : ∃ next left : UInt32,
      (if Range.inBounds ⟨next, left⟩ then some (⟨next, left⟩ : Range) else none) = some r := by
    rw [RangeText.range?, Option.bind_eq_bind, Option.bind_eq_some_iff] at h
    obtain ⟨next, -, h⟩ := h
    cases hcount : text.count with
    | none =>
        rw [hcount] at h
        exact ⟨next, 1, h⟩
    | some count =>
        rw [hcount] at h
        obtain ⟨left, -, h⟩ := Option.bind_eq_some_iff.mp h
        exact ⟨next, left, h⟩
  by_cases hfits : Range.inBounds ⟨next, left⟩
  · rw [if_pos hfits] at hr
    cases hr
    exact hfits
  · rw [if_neg hfits] at hr
    cases hr

theorem inBounds_of_ranges? {line : List Char} {old new : Range}
    (h : ranges? line = some (old, new)) : old.inBounds ∧ new.inBounds := by
  obtain ⟨oldText, newText, -, hold, hnew⟩ := ranges?_eq_some_iff.mp h
  exact ⟨inBounds_of_range? hold, inBounds_of_range? hnew⟩

namespace Reader

/-! ## What a line does to the ranges -/

/-- How a line leads past hunks, into one, or through one. -/
inductive Turn (r : Reader) (line : List Char) (s : Reader) : Prop where
  | outside : (∀ old new, r.mode ≠ .inside old new) → (∀ old new, s.mode ≠ .inside old new) →
      ranges? line = none → Turn r line s
  | opens {old new : Range} : r.mode = .between → ranges? line = some (old, new) →
      r.current.any Section.hasPath = true → s = r.into old new → Turn r line s
  | marks {old new : Range} : r.mode = .inside old new →
      takeLine? old new line = some (none, old, new) → s = r → Turn r line s
  | takes {old new old' new' : Range} {change : LineChange} : r.mode = .inside old new →
      takeLine? old new line = some (some change, old', new') →
      s = (r.adjust fun t => { t with seen := change :: t.seen }).into old' new' → Turn r line s

theorem turn_of_step {r s : Reader} {number : Nat} {line : List Char}
    (h : r.step number line = .ok s) : Turn r line s := by
  cases reads_of_step h with
  | opens hmode hline =>
      obtain ⟨rest, rfl⟩ := hline
      exact .outside (by simp [hmode]) (by simp [opened, hmode]) (ranges?_eq_none rfl)
  | names hmode hline =>
      exact .outside (by simp [hmode]) (by simp) (ranges?_eq_none (by rw [hline]; rfl))
  | heads hmode hline =>
      exact .outside (by simp [hmode]) (by simp [headed]) (ranges?_eq_none (by rw [hline]; rfl))
  | begins hmode hranges hpath => exact .opens hmode hranges hpath rfl
  | takes hmode htake _ => exact .takes hmode htake rfl
  | marks hmode htake => exact .marks hmode htake rfl
  | passes hmode _ hhunk =>
      have hbehind : (r.extendedHeader line).mode = .between :=
        (mode_extendedHeader r line).trans hmode
      exact .outside (by simp [hmode]) (by simp [hbehind]) (ranges?_eq_none hhunk)

/-- A line inside a hunk is taken from its ranges, and the hunk goes on with
what is left of them. -/
theorem step_into {r s : Reader} {old new : Range} {number : Nat} {line : List Char}
    (hleft : ¬ (old.left = 0 ∧ new.left = 0)) (h : (r.into old new).step number line = .ok s) :
    ∃ change old' new' r', takeLine? old new line = some (change, old', new') ∧
      s = into r' old' new' := by
  have hmode := mode_into (r := r) hleft
  cases turn_of_step h with
  | outside hout => exact absurd hmode (hout old new)
  | opens hbetween =>
      rw [hmode] at hbetween
      cases hbetween
  | marks hinside htake hsame =>
      rw [hmode] at hinside
      cases hinside
      exact ⟨none, old, new, r, htake, hsame⟩
  | takes hinside htake hinto =>
      rw [hmode] at hinside
      cases hinside
      exact ⟨some _, _, _, _, htake, hinto⟩

end Reader

end CallAtlas.Patch
