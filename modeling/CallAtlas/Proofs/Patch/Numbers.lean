import CallAtlas.Proofs.Patch.Ranges
import Mathlib.Data.List.Forall2

/-!
# Line numbers of a patch

The changes of a hunk go through the lines of both its ranges: their old numbers
are those of the old range and their new numbers those of the new one, each in
order and without a gap. Inside a hunk no number is ever cut off to 32 bits,
since the ranges of every header are checked before its first line is read.
-/

namespace CallAtlas.Patch

open Text (trimReturn)

/-- The changes have the numbers of the two ranges of a hunk, in order. -/
structure GoesThrough (old new : Range) (changes : List LineChange) : Prop where
  old_eq : (changes.filterMap (·.old?)).map UInt32.toNat = old.numbers
  new_eq : (changes.filterMap (·.new?)).map UInt32.toNat = new.numbers
  sided : ∀ change ∈ changes, change.old?.isSome ∨ change.new?.isSome

namespace GoesThrough

variable {old new old' new' : Range}

theorem nil (h : old.left = 0 ∧ new.left = 0) : GoesThrough old new [] := by
  constructor
  · simp [Range.numbers, h.1]
  · simp [Range.numbers, h.2]
  · simp

theorem cons {line : List Char} {change : Option LineChange} {rest : List LineChange}
    (hold : old.inBounds) (hnew : new.inBounds) (htakes : Takes old new line change old' new')
    (hrest : GoesThrough old' new' rest) : GoesThrough old new (change.toList ++ rest) := by
  have hold' := htakes.old_gives.numbers_eq hold
  have hnew' := htakes.new_gives.numbers_eq hnew
  rw [← hrest.old_eq] at hold'
  rw [← hrest.new_eq] at hnew'
  cases change with
  | none => exact ⟨hold'.symm, hnew'.symm, hrest.sided⟩
  | some change =>
      refine ⟨?_, ?_, ?_⟩
      · rw [hold']
        cases change <;> rfl
      · rw [hnew']
        cases change <;> rfl
      · intro c hc
        rcases List.mem_cons.mp hc with rfl | hc
        · cases c <;> simp [LineChange.old?, LineChange.new?]
        · exact hrest.sided c hc

end GoesThrough

namespace Reader

/-! ## The blocks of a diff -/

/-- A hunk whose end is reached goes through its ranges. The induction is on the
lines behind its header, each of which leaves the ranges for those behind it. -/
theorem goesThrough_of_run {r : Reader} {old new : Range} {count : Nat}
    {lines : List (List Char)} {patch : Patch} (hold : old.inBounds) (hnew : new.inBounds)
    (h : (r.into old new).run count lines = .ok patch) :
    GoesThrough old new (changesIn old new lines) := by
  induction lines generalizing r old new count with
  | nil =>
      by_cases hzero : old.left = 0 ∧ new.left = 0
      · exact .nil hzero
      · have hend := (finish_eq_ok_iff.mp h).1
        rw [mode_into hzero] at hend
        cases hend
  | cons line rest ih =>
      by_cases hzero : old.left = 0 ∧ new.left = 0
      · rw [changesIn_done _ hzero]
        exact .nil hzero
      obtain ⟨s, hstep, hrun⟩ := run_cons_eq_ok_iff.mp h
      obtain ⟨change, old', new', r', htake, rfl⟩ := step_into hzero hstep
      have htakes := takes_of_takeLine? htake
      rw [changesIn, if_neg hzero, htake]
      exact .cons hold hnew htakes
        (ih (htakes.old_gives.inBounds hold) (htakes.new_gives.inBounds hnew) hrun)

theorem forall₂_hunksFrom {r : Reader} {count : Nat} {lines : List (List Char)} {patch : Patch}
    (h : r.run count lines = .ok patch) :
    List.Forall₂ (fun ranges hunk => GoesThrough ranges.1 ranges.2 hunk.changes)
      (lines.filterMap ranges?) (r.hunksFrom count lines) := by
  induction lines generalizing r count with
  | nil => exact .nil
  | cons line rest ih =>
      obtain ⟨s, hstep, hrun⟩ := run_cons_eq_ok_iff.mp h
      have hrest := ih hrun
      rw [hunksFrom, hstep]
      have hnone (hranges : ranges? line = none) :
          List.Forall₂ (fun ranges hunk => GoesThrough ranges.1 ranges.2 hunk.changes)
            ((line :: rest).filterMap ranges?)
            ((r.hunkAt? line rest).toList ++ s.hunksFrom (count + 1) rest) := by
        rw [List.filterMap_cons_none hranges, hunkAt?_of_ranges?_eq_none hranges]
        exact hrest
      cases turn_of_step hstep with
      | outside _ _ hranges => exact hnone hranges
      | marks _ htake => exact hnone (ranges?_of_takeLine? htake)
      | takes _ htake => exact hnone (ranges?_of_takeLine? htake)
      | opens hmode hranges hpath hinto =>
          obtain ⟨hold, hnew⟩ := inBounds_of_ranges? hranges
          obtain ⟨t, ht, -⟩ := (Option.any_eq_true _ _).mp hpath
          rw [List.filterMap_cons_some hranges, hunkAt?_of_ranges? hmode hranges ht]
          subst hinto
          exact .cons (goesThrough_of_run hold hnew hrun) hrest

/-! ## No number is cut off -/

/-- The numbers of the ranges that the reader is in fit their words. -/
def InBounds (r : Reader) : Prop :=
  ∀ old new, r.mode = .inside old new → old.inBounds ∧ new.inBounds

theorem inBounds_into {old new : Range} (r : Reader) (hold : old.inBounds) (hnew : new.inBounds) :
    (r.into old new).InBounds := by
  intro old' new' hmode
  rw [into] at hmode
  split at hmode
  · cases hmode
  · cases hmode
    exact ⟨hold, hnew⟩

theorem InBounds.step {r s : Reader} {number : Nat} {line : List Char} (h : r.InBounds)
    (hstep : r.step number line = .ok s) : s.InBounds := by
  cases turn_of_step hstep with
  | outside _ hout _ => exact fun old new hmode => absurd hmode (hout old new)
  | opens _ hranges _ hinto =>
      obtain ⟨hold, hnew⟩ := inBounds_of_ranges? hranges
      exact hinto ▸ inBounds_into r hold hnew
  | marks _ _ hsame => exact hsame ▸ h
  | takes hmode htake hinto =>
      obtain ⟨hold, hnew⟩ := h _ _ hmode
      have htakes := takes_of_takeLine? htake
      exact hinto ▸ inBounds_into _ (htakes.old_gives.inBounds hold)
        (htakes.new_gives.inBounds hnew)

theorem InBounds.feed {r s : Reader} {count : Nat} {lines : List (List Char)} (h : r.InBounds)
    (hfeed : r.feed count lines = .ok s) : s.InBounds := by
  induction lines generalizing r count with
  | nil =>
      cases hfeed
      exact h
  | cons line rest ih =>
      obtain ⟨t, hstep, hrest⟩ := bind_eq_ok_iff.mp hfeed
      exact ih (h.step hstep) hrest

theorem inBounds_start : start.InBounds :=
  fun _ _ hmode => (nomatch hmode)

end Reader

/-- The ranges of the hunk headers of a diff. -/
def ranges (diff : String) : List (Range × Range) :=
  (Text.lines diff.toList).filterMap ranges?

/-- Wherever a diff leads into a hunk, its lines count as the numbers do that
they stand for. In the files of a diff, the changes are those of the hunks that
are read into the file, and each hunk goes through the ranges of its header. -/
theorem line_numbers_exact (diff : String) :
    (∀ count reader old new,
      Reader.start.feed 0 ((Text.lines diff.toList).take count) = .ok reader →
        reader.mode = .inside old new → old.Counts ∧ new.Counts) ∧
    ∀ patch, parse diff = .ok patch → ∃ filings : List Filing,
      patch.files = (filings.filter (·.hasPath)).map (·.patch) ∧
        filings.flatMap (·.hunks) = hunks diff ∧
        List.Forall₂ (fun ranges hunk => GoesThrough ranges.1 ranges.2 hunk.changes)
          (ranges diff) (hunks diff) := by
  constructor
  · intro count reader old new hfeed hmode
    obtain ⟨hold, hnew⟩ := Reader.inBounds_start.feed hfeed old new hmode
    exact ⟨Range.counts_of_inBounds hold, Range.counts_of_inBounds hnew⟩
  · intro patch hparse
    obtain ⟨filings, hfiles, hhunks, -⟩ := (Reader.keeps_start _).run hparse
    exact ⟨filings, hfiles, hhunks, Reader.forall₂_hunksFrom hparse⟩

def limitLines : List String :=
  ["--- a/x.c", "+++ b/x.c", "@@ -4294967293,2 +4294967294 @@", "-a", " b",
    "\\ No newline at end of file"]

def limitDiff : String :=
  diffOf limitLines

def limitReader : Reader :=
  ⟨[], some ⟨some "x.c", some "x.c", []⟩, true, false, .inside ⟨4294967293, 2⟩ ⟨4294967294, 1⟩⟩

def limitPatch : Patch :=
  ⟨[⟨some "x.c", some "x.c", [.deletion 4294967293, .context 4294967294 4294967294]⟩]⟩

theorem line_numbers_exact_limit :
    Reader.start.feed 0 ((Text.lines limitDiff.toList).take 3) = .ok limitReader ∧
      Range.Counts ⟨4294967293, 2⟩ ∧ Range.Counts ⟨4294967294, 1⟩ ∧
      parse limitDiff = .ok limitPatch ∧ ∃ filings : List Filing,
        limitPatch.files = (filings.filter (·.hasPath)).map (·.patch) ∧
          filings.flatMap (·.hunks) = hunks limitDiff ∧
          List.Forall₂ (fun ranges hunk => GoesThrough ranges.1 ranges.2 hunk.changes)
            (ranges limitDiff) (hunks limitDiff) := by
  have hlines : Text.lines limitDiff.toList =
      (limitLines.map String.toList).map trimReturn := lines_diffOf (by decide +kernel)
  have hfeed : Reader.start.feed 0 ((Text.lines limitDiff.toList).take 3) = .ok limitReader := by
    rw [hlines]
    rfl
  have hparse : parse limitDiff = .ok limitPatch := by
    rw [parse, hlines]
    rfl
  obtain ⟨hcounts, hfiles⟩ := line_numbers_exact limitDiff
  obtain ⟨hold, hnew⟩ := hcounts 3 limitReader _ _ hfeed rfl
  exact ⟨hfeed, hold, hnew, hparse, hfiles limitPatch hparse⟩

end CallAtlas.Patch
