import CallAtlas.Proofs.Snapshot.RoundTrip
import Mathlib.Data.Set.Card
import Mathlib.Order.Interval.Finset.Nat

/-!
# The number of lines of a body

A body contains one line more than its ends are apart, and its span is that sum if it is
a number of 32 bits. So the span of every body counts its lines, but for the one from the
first line number to the last: it contains all 2³² lines, which is one more than 32 bits
hold, and it has no span.
-/

namespace CallAtlas

namespace Interval

/-- The line numbers that fall inside the body. -/
def lineNumbers (i : Interval) : Set UInt32 :=
  {line | i.contains line}

/-- How far the ends are apart, none if the last line stands before the first. -/
def distance (i : Interval) : UInt32 :=
  if i.first ≤ i.last then i.last - i.first else 0

def whole : Interval :=
  ⟨0, 0xFFFFFFFF⟩

section

variable {i : Interval}

theorem contains_iff {line : UInt32} :
    i.contains line ↔ i.first.toNat ≤ line.toNat ∧ line.toNat ≤ i.last.toNat := by
  rw [contains, Bool.and_eq_true, decide_eq_true_eq, decide_eq_true_eq, UInt32.le_iff_toNat_le,
    UInt32.le_iff_toNat_le]

theorem toNat_distance (i : Interval) : i.distance.toNat = i.last.toNat - i.first.toNat := by
  rw [distance]
  split
  case isTrue h => exact UInt32.toNat_sub_of_le _ _ h
  case isFalse h =>
    rw [UInt32.le_iff_toNat_le, not_le] at h
    exact (Nat.sub_eq_zero_of_le h.le).symm

/-- As natural numbers, the lines of a body are those between its ends. -/
theorem image_lineNumbers (i : Interval) :
    UInt32.toNat '' i.lineNumbers = ↑(Finset.Icc i.first.toNat i.last.toNat) := by
  ext n
  rw [Set.mem_image, Finset.mem_coe, Finset.mem_Icc]
  constructor
  · rintro ⟨line, hline, rfl⟩
    exact contains_iff.mp hline
  · rintro ⟨hfirst, hlast⟩
    have hword : (UInt32.ofNat n).toNat = n :=
      UInt32.toNat_ofNat_of_lt' (Nat.lt_of_le_of_lt hlast i.last.toNat_lt)
    refine ⟨UInt32.ofNat n, contains_iff.mpr ?_, hword⟩
    rw [hword]
    exact ⟨hfirst, hlast⟩

theorem ncard_lineNumbers (i : Interval) :
    i.lineNumbers.ncard = i.last.toNat + 1 - i.first.toNat := by
  have hinj : Function.Injective UInt32.toNat := fun a b h => UInt32.toNat_inj.mp h
  rw [← Set.ncard_image_of_injective _ hinj, image_lineNumbers, Set.ncard_coe_finset, Nat.card_Icc]

theorem ncard_lineNumbers_eq (h : i.first ≤ i.last) :
    i.lineNumbers.ncard = i.distance.toNat + 1 := by
  rw [ncard_lineNumbers, toNat_distance]
  exact Nat.succ_sub (UInt32.le_iff_toNat_le.mp h)

theorem distance_lt_iff_ne_whole (i : Interval) :
    i.distance.toNat + 1 < UInt32.size ↔ i ≠ whole := by
  have hfirst := i.first.toNat_lt
  have hlast := i.last.toNat_lt
  have hsize : UInt32.size = 2 ^ 32 := rfl
  rw [toNat_distance, hsize]
  constructor
  · rintro hlt rfl
    revert hlt
    decide
  · intro hne
    by_contra hge
    apply hne
    have hzero : i.first = 0 := UInt32.toNat_inj.mp (show i.first.toNat = 0 by omega)
    have hmax : i.last = 0xFFFFFFFF :=
      UInt32.toNat_inj.mp (show i.last.toNat = 4294967295 by omega)
    obtain ⟨first, last⟩ := i
    exact congrArg₂ mk hzero hmax

theorem span?_eq_some_iff {n : UInt32} :
    i.span? = some n ↔ n.toNat = i.distance.toNat + 1 := by
  have hspan : i.span? =
      if i.distance.toNat + 1 < UInt32.size then some (i.distance + 1) else none := rfl
  rw [hspan]
  split
  case isTrue hfits =>
    have hsum : (i.distance + 1).toNat = i.distance.toNat + 1 := by
      rw [UInt32.toNat_add]
      exact Nat.mod_eq_of_lt hfits
    rw [Option.some.injEq, ← UInt32.toNat_inj, hsum, eq_comm]
  case isFalse hlarge =>
    refine iff_of_false (fun himpossible => by cases himpossible) fun heq => ?_
    exact hlarge (heq ▸ n.toNat_lt)

theorem span?_eq_none_iff : i.span? = none ↔ i = whole := by
  refine not_iff_not.mp (Iff.trans ?_ (distance_lt_iff_ne_whole i))
  rw [← ne_eq, Option.ne_none_iff_exists']
  constructor
  · rintro ⟨n, hspan⟩
    rw [← span?_eq_some_iff.mp hspan]
    exact n.toNat_lt
  · intro hfits
    exact ⟨.ofNat _, span?_eq_some_iff.mpr (UInt32.toNat_ofNat_of_lt' hfits)⟩

/-- A body that does not end before it starts contains one line more than its ends are
apart, and its span is the number of these lines. The body of all line numbers alone has
no span: it has too many lines for 32 bits, and no other body has. -/
theorem span_counts_lines_iff (h : i.first ≤ i.last) :
    i.lineNumbers.ncard = i.distance.toNat + 1 ∧
      (∀ n, i.span? = some n ↔ n.toNat = i.lineNumbers.ncard) ∧
      (i.span? = none ↔ i = whole) ∧
      (i.lineNumbers.ncard < UInt32.size ↔ i ≠ whole) := by
  have hcount := ncard_lineNumbers_eq h
  rw [hcount]
  exact ⟨rfl, fun _ => span?_eq_some_iff, span?_eq_none_iff, distance_lt_iff_ne_whole i⟩

end

theorem span_counts_lines_limits :
    ((0 : UInt32) ≤ 0xFFFFFFFE ∧ (1 : UInt32) ≤ 0xFFFFFFFF ∧
        (0xFFFFFFFF : UInt32) ≤ 0xFFFFFFFF) ∧
      (lineNumbers ⟨0, 0xFFFFFFFE⟩).ncard = 0xFFFFFFFF ∧
      (lineNumbers ⟨1, 0xFFFFFFFF⟩).ncard = 0xFFFFFFFF ∧
      (lineNumbers ⟨0xFFFFFFFF, 0xFFFFFFFF⟩).ncard = 1 := by
  have hfront : (0 : UInt32) ≤ 0xFFFFFFFE := by decide
  have hback : (1 : UInt32) ≤ 0xFFFFFFFF := by decide
  have hone : (0xFFFFFFFF : UInt32) ≤ 0xFFFFFFFF := by decide
  refine ⟨⟨hfront, hback, hone⟩, ?_, ?_, ?_⟩
  · exact (((span_counts_lines_iff (i := ⟨0, 0xFFFFFFFE⟩) hfront).2.1 0xFFFFFFFF).mp rfl).symm
  · exact (((span_counts_lines_iff (i := ⟨1, 0xFFFFFFFF⟩) hback).2.1 0xFFFFFFFF).mp rfl).symm
  · exact (((span_counts_lines_iff (i := ⟨0xFFFFFFFF, 0xFFFFFFFF⟩) hone).2.1 1).mp rfl).symm

end Interval

/-! ## A body of all lines -/

namespace Snapshot

def wholeText : String :=
  "\x7b\"files\":[\"a.cpp\"],\"defs\":[0,[0,\"f()\",0,4294967295,[]]],\"revision\":\"r1\"\x7d"

def wholeSnapshot : Snapshot where
  files := ["a.cpp"]
  records := [⟨⟨0, ⟨"f()"⟩, .whole, []⟩, ⟨0x58804ad03a6ee1a4⟩⟩]
  revision := "r1"
  index := [(⟨0x58804ad03a6ee1a4⟩, 0)]

theorem wellFormed_whole : wholeSnapshot.WellFormed := by
  decide +kernel

/-- The text is accepted. Its function contains every line, and has no span. -/
theorem whole_body_has_no_span :
    ofJson wholeText = .ok wholeSnapshot ∧ ∃ r ∈ wholeSnapshot.records,
      r.lines.first ≤ r.lines.last ∧ (∀ line, r.lines.contains line) ∧
        r.lines.lineNumbers.ncard = 2 ^ 32 ∧ r.lines.span? = none := by
  refine ⟨wellFormed_whole.read_of_toJson_eq (by decide) (by decide +kernel), ?_⟩
  refine ⟨_, List.mem_cons_self, by decide, fun line => ?_, ?_, by rfl⟩
  · exact Interval.contains_iff.mpr ⟨Nat.zero_le _, Nat.le_of_lt_succ line.toNat_lt⟩
  · exact Interval.ncard_lineNumbers Interval.whole

end Snapshot

end CallAtlas
