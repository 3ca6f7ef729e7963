import CallAtlas.Proofs.Patch.Hunks

/-!
# Diffs in a series

A line that starts with `diff ` opens a file, whatever stands above it: the
file above it is closed, and nothing else of what has been read plays a part
from there on. So a diff that starts with such a line is read behind another
one as it is on its own. Its files follow those of the other diff, and what is
wrong with it is wrong in the same line, counted from further above.
-/

namespace CallAtlas.Patch

open Text (dropHead? startsWith trimReturn)

/-- The first line of the diff opens a file. -/
def OpensFile (diff : String) : Prop :=
  ∃ line ∈ (Text.lines diff.toList).head?, "diff ".toList <+: line

/-- The fault with `count` more lines above it. -/
def Malformed.below (count : Nat) (m : Malformed) : Malformed :=
  ⟨count + m.line, m.reason⟩

def Mode.below (count : Nat) : Mode → Mode
  | .between => .between
  | .afterOld line old => .afterOld (count + line) old
  | .inside old new => .inside old new

namespace Reader

/-- The reader that has these files closed and `count` lines passed before all
that it has read. -/
def below (files : List FilePatch) (count : Nat) (r : Reader) : Reader :=
  { r with files := r.files ++ files, mode := r.mode.below count }

section

variable (files : List FilePatch) (count : Nat) (r : Reader)

/-! ## What is above does not matter -/

@[simp] theorem current_below : (r.below files count).current = r.current :=
  rfl

@[simp] theorem named_below : (r.below files count).named = r.named :=
  rfl

@[simp] theorem afterHunk_below : (r.below files count).afterHunk = r.afterHunk :=
  rfl

@[simp] theorem mode_below : (r.below files count).mode = r.mode.below count :=
  rfl

@[simp] theorem closed_below : (r.below files count).closed = r.closed ++ files := by
  rw [closed, closed, current_below]
  cases r.current with
  | none => rfl
  | some s =>
      by_cases hpath : s.hasPath
      · simp [hpath, below]
      · simp [hpath, below]

@[simp] theorem opened_below (old new : Option String) :
    (r.below files count).opened old new = (r.opened old new).below files count := by
  rw [opened, closed_below]
  rfl

@[simp] theorem adjust_below (f : Section → Section) :
    (r.below files count).adjust f = (r.adjust f).below files count :=
  rfl

@[simp] theorem into_below (old new : Range) :
    (r.below files count).into old new = (r.into old new).below files count := by
  rw [into, into]
  split <;> rfl

@[simp] theorem headed_below (old new : Option String) :
    (r.below files count).headed old new = (r.headed old new).below files count := by
  rw [headed, headed, opened_below, adjust_below, named_below, current_below]
  by_cases hreuse : (!r.named && r.current.any (·.seen.isEmpty)) = true
  · rw [if_pos hreuse, if_pos hreuse]
    rfl
  · rw [if_neg hreuse, if_neg hreuse]
    rfl

@[simp] theorem extendedHeader_below (line : List Char) :
    (r.below files count).extendedHeader line = (r.extendedHeader line).below files count := by
  simp only [extendedHeader, adjust_below, passed]
  repeat' split
  all_goals rfl

@[simp] theorem hunkHeader_below (line : List Char) :
    (r.below files count).hunkHeader line = (r.hunkHeader line).map (below files count) := by
  simp only [hunkHeader, into_below, current_below]
  repeat' split
  all_goals rfl

theorem between_below (number : Nat) (line : List Char) :
    (r.below files count).between (count + number) line =
      (r.between number line).map (below files count) := by
  simp only [between, hunkHeader_below, extendedHeader_below, opened_below, afterHunk_below]
  repeat' split
  all_goals rfl

theorem inside_below (old new : Range) (line : List Char) :
    (r.below files count).inside old new line =
      (r.inside old new line).map (below files count) := by
  simp only [inside, adjust_below, into_below]
  repeat' split
  all_goals rfl

theorem step_below (number : Nat) (line : List Char) :
    (r.below files count).step (count + number) line =
      ((r.step number line).map (below files count)).mapError (Malformed.below count) := by
  rw [step, step, mode_below]
  cases hmode : r.mode with
  | between =>
      dsimp only [Mode.below]
      rw [between_below]
      cases r.between number line <;> rfl
  | inside old new =>
      dsimp only [Mode.below]
      rw [inside_below]
      cases r.inside old new line <;> rfl
  | afterOld above old =>
      dsimp only [Mode.below]
      cases dropHead? "+++ ".toList line with
      | none => rfl
      | some path =>
          dsimp only
          rw [headed_below]
          rfl

theorem finish_below (number : Nat) :
    (r.below files count).finish (count + number) =
      ((r.finish number).map fun p => ⟨files.reverse ++ p.files⟩).mapError
        (Malformed.below count) := by
  rw [finish, finish, mode_below, closed_below]
  cases r.mode with
  | between =>
      show (Except.ok ⟨(r.closed ++ files).reverse⟩ : Except Malformed Patch) = .ok ⟨_⟩
      rw [List.reverse_append]
  | inside old new => rfl
  | afterOld above old => rfl

/-- What has been read above only puts its files first and its lines before the
number of a faulty line. -/
theorem run_below (number : Nat) (lines : List (List Char)) :
    (r.below files count).run (count + number) lines =
      ((r.run number lines).map fun p => ⟨files.reverse ++ p.files⟩).mapError
        (Malformed.below count) := by
  induction lines generalizing r number with
  | nil => exact finish_below files count r number
  | cons line rest ih =>
      rw [run, run, Nat.add_assoc, step_below]
      cases r.step (number + 1) line with
      | error malformed => rfl
      | ok s => exact ih s (number + 1)

end

/-! ## A line that opens a file -/

/-- A line that opens a file is read as at the start, with all that stands above
it closed. -/
theorem step_opening {r : Reader} (hmode : r.mode = .between) {line : List Char}
    (hline : "diff ".toList <+: line) (count number : Nat) :
    r.step (count + number) line =
      ((start.step number line).map (below r.closed count)).mapError (Malformed.below count) := by
  have hopened (old new : Option String) :
      r.opened old new = (start.opened old new).below r.closed count := by
    rw [opened, opened, hmode]
    rfl
  have hstart : start.mode = .between := rfl
  rw [step, step, hmode, hstart]
  dsimp only
  rw [between, between, if_pos (Text.startsWith_iff.mpr hline),
    if_pos (Text.startsWith_iff.mpr hline)]
  cases dropHead? "diff --git ".toList line with
  | none =>
      dsimp only
      rw [hopened]
      rfl
  | some rest =>
      dsimp only
      cases gitPaths? rest with
      | none => rfl
      | some paths =>
          dsimp only
          rw [hopened]
          rfl

theorem run_opening {r : Reader} (hmode : r.mode = .between) {line : List Char}
    (hline : "diff ".toList <+: line) (count : Nat) (rest : List (List Char)) :
    r.run count (line :: rest) =
      ((start.run 0 (line :: rest)).map fun p => ⟨r.closed.reverse ++ p.files⟩).mapError
        (Malformed.below count) := by
  rw [run, run, step_opening hmode hline]
  cases start.step (0 + 1) line with
  | error malformed => rfl
  | ok s => exact run_below r.closed count s 1 rest

end Reader

/-- What is read behind a diff that may end there. -/
theorem parse_append_eq {front back : String} {patch : Patch} (hended : Text.Ended front.toList)
    (hfront : parse front = .ok patch) (hback : OpensFile back) :
    parse (front ++ back) =
      ((parse back).map fun p => ⟨patch.files ++ p.files⟩).mapError
        (Malformed.below (Text.lines front.toList).length) := by
  rw [parse, Reader.run_eq_feed, bind_eq_ok_iff] at hfront
  obtain ⟨r, hfeed, hfinish⟩ := hfront
  obtain ⟨hmode, rfl⟩ := Reader.finish_eq_ok_iff.mp hfinish
  obtain ⟨line, hline, hopens⟩ := hback
  obtain ⟨rest, hlines⟩ := List.head?_eq_some_iff.mp hline
  rw [parse, parse, String.toList_append, Text.lines_append_of_ended hended, Reader.run_append,
    hfeed, hlines, Nat.zero_add]
  exact Reader.run_opening hmode hopens _ rest

/-- A diff that opens a file is read behind another diff as it is on its own. -/
theorem parse_append {front back : String} {patch : Patch} (hended : Text.Ended front.toList)
    (hfront : parse front = .ok patch) (hback : OpensFile back) :
    (∀ later, parse back = .ok later →
      parse (front ++ back) = .ok ⟨patch.files ++ later.files⟩) ∧
    (∀ line reason, parse back = .error ⟨line, reason⟩ →
      parse (front ++ back) =
        .error ⟨(Text.lines front.toList).length + line, reason⟩) := by
  have hwhole := parse_append_eq hended hfront hback
  constructor
  · intro later hlater
    rw [hwhole, hlater]
    rfl
  · intro line reason hfault
    rw [hwhole, hfault]
    rfl

/-! ## Two diffs in a series -/

theorem ended_diffOf (lines : List String) : Text.Ended (diffOf lines).toList := by
  rw [diffOf, String.toList_ofList]
  exact Text.ended_closeLines _

def hunkLines : List String :=
  ["--- a/x.c", "+++ b/x.c", "@@ -1 +1 @@", "-a", "+b"]

def hunkPatch : Patch :=
  ⟨[⟨some "x.c", some "x.c", [.deletion 1, .insertion 1]⟩]⟩

/-- The second of these lines could not stand behind a hunk. -/
def remarkedLines : List String :=
  ["diff -u y.c", "+ remark", "--- a/y.c", "+++ b/y.c", "@@ -3 +3 @@", "-c", "+d"]

def remarkedPatch : Patch :=
  ⟨[⟨some "y.c", some "y.c", [.deletion 3, .insertion 3]⟩]⟩

theorem parse_append_remarked :
    Text.Ended (diffOf hunkLines).toList ∧ parse (diffOf hunkLines) = .ok hunkPatch ∧
      OpensFile (diffOf remarkedLines) ∧ OpensFile (diffOf remarkedLines.dropLast) ∧
      parse (diffOf hunkLines ++ diffOf remarkedLines) =
        .ok ⟨hunkPatch.files ++ remarkedPatch.files⟩ ∧
      parse (diffOf hunkLines ++ diffOf remarkedLines.dropLast) =
        .error ⟨11, .truncatedHunk⟩ := by
  have hlines : Text.lines (diffOf hunkLines).toList =
      (hunkLines.map String.toList).map trimReturn := lines_diffOf (by decide +kernel)
  have hremarked : Text.lines (diffOf remarkedLines).toList =
      (remarkedLines.map String.toList).map trimReturn := lines_diffOf (by decide +kernel)
  have hbroken : Text.lines (diffOf remarkedLines.dropLast).toList =
      (remarkedLines.dropLast.map String.toList).map trimReturn := lines_diffOf (by decide +kernel)
  have hfront : parse (diffOf hunkLines) = .ok hunkPatch := by
    rw [parse, hlines]
    rfl
  have hended : Text.Ended (diffOf hunkLines).toList := ended_diffOf hunkLines
  have hopens : OpensFile (diffOf remarkedLines) := by
    rw [OpensFile, hremarked]
    decide +kernel
  have hopens' : OpensFile (diffOf remarkedLines.dropLast) := by
    rw [OpensFile, hbroken]
    decide +kernel
  refine ⟨hended, hfront, hopens, hopens', ?_, ?_⟩
  · apply (parse_append hended hfront hopens).1
    rw [parse, hremarked]
    rfl
  · have hfault : parse (diffOf remarkedLines.dropLast) = .error ⟨6, .truncatedHunk⟩ := by
      rw [parse, hbroken]
      rfl
    have hlater := (parse_append hended hfront hopens').2 6 .truncatedHunk hfault
    rw [hlines] at hlater
    exact hlater

end CallAtlas.Patch
