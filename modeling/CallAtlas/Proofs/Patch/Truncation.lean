import CallAtlas.Proofs.Patch.Ranges
import CallAtlas.Rolling
import Mathlib.Data.List.Induction

/-!
# Diffs that are cut off

A diff that is cut behind one of its lines is read as the whole diff is up to
there. So it is refused if it is cut inside a hunk, that is, where fewer lines
stand behind a hunk header than its ranges have, and nothing of it is merged.
-/

namespace CallAtlas.Patch

open Text (trimReturn)

/-- The last of these lines stands in a hunk that goes on: behind its header
there are fewer lines of one side than the range of this side has. -/
def EndsInHunk (lines : List (List Char)) : Prop :=
  ∃ above header body old new, lines = above ++ header :: body ∧
    ranges? header = some (old, new) ∧
      (body.countP onOldSide < old.left.toNat ∨ body.countP onNewSide < new.left.toNat)

namespace Takes

variable {old new old' new' : Range} {line : List Char} {change : Option LineChange}

theorem left_eq (h : Takes old new line change old' new') :
    old.left.toNat = [line].countP onOldSide + old'.left.toNat ∧
      new.left.toNat = [line].countP onNewSide + new'.left.toNat := by
  have hcount (p : List Char → Bool) (n? : Option UInt32) (hline : p line = n?.isSome) :
      [line].countP p = n?.toList.length := by
    rw [List.countP_singleton, hline]
    cases n? <;> rfl
  rw [h.old_gives.left_eq, h.new_gives.left_eq, hcount _ _ h.on_old, hcount _ _ h.on_new]
  exact ⟨Nat.add_comm .., Nat.add_comm ..⟩

end Takes

namespace Reader

/-! ## Inside a hunk -/

/-- Behind a hunk header, the reader stays in the hunk as long as it has not
seen all the lines of both sides. -/
theorem mode_of_feed_into {r s : Reader} {old new : Range} {count : Nat}
    {body : List (List Char)} (h : (r.into old new).feed count body = .ok s)
    (hshort : body.countP onOldSide < old.left.toNat ∨ body.countP onNewSide < new.left.toNat) :
    ∃ old' new', s.mode = .inside old' new' := by
  induction body generalizing r old new count with
  | nil =>
      cases h
      refine ⟨old, new, mode_into ?_⟩
      rintro ⟨hold, hnew⟩
      simp [hold, hnew] at hshort
  | cons line rest ih =>
      have hleft : ¬ (old.left = 0 ∧ new.left = 0) := by
        rintro ⟨hold, hnew⟩
        simp [hold, hnew] at hshort
      obtain ⟨t, hstep, hrest⟩ := bind_eq_ok_iff.mp h
      obtain ⟨change, old', new', r', htake, rfl⟩ := step_into hleft hstep
      have hless := (takes_of_takeLine? htake).left_eq
      rw [← List.singleton_append, List.countP_append, List.countP_append] at hshort
      exact ih hrest (by omega)

/-- The lines end in a hunk of whose two ranges this is left. -/
def Leaves (lines : List (List Char)) (old' new' : Range) : Prop :=
  ∃ above header body old new, lines = above ++ header :: body ∧
    ranges? header = some (old, new) ∧
      old.left.toNat = body.countP onOldSide + old'.left.toNat ∧
      new.left.toNat = body.countP onNewSide + new'.left.toNat

theorem Leaves.snoc {lines : List (List Char)} {line : List Char} {old new old' new' : Range}
    {change : Option LineChange} (h : Leaves lines old new)
    (htakes : Takes old new line change old' new') : Leaves (lines ++ [line]) old' new' := by
  obtain ⟨above, header, body, first, second, rfl, hranges, hold, hnew⟩ := h
  obtain ⟨hleft, hright⟩ := htakes.left_eq
  refine ⟨above, header, body ++ [line], first, second, by simp, hranges, ?_, ?_⟩
  · rw [List.countP_append]
    omega
  · rw [List.countP_append]
    omega

/-- A reader that is in a hunk has seen its header, and behind it all but the
lines that are left. The induction is on the lines from the last one on. -/
theorem leaves_of_feed {s : Reader} {old new : Range} {lines : List (List Char)}
    (h : start.feed 0 lines = .ok s) (hmode : s.mode = .inside old new) :
    Leaves lines old new ∧ ¬ (old.left = 0 ∧ new.left = 0) := by
  induction lines using List.reverseRecOn generalizing s old new with
  | nil =>
      cases h
      cases hmode
  | append_singleton front line ih =>
      rw [feed_append, bind_eq_ok_iff] at h
      obtain ⟨r, hfront, hline⟩ := h
      obtain ⟨t, hstep, hend⟩ := bind_eq_ok_iff.mp hline
      cases hend
      cases turn_of_step hstep with
      | outside _ hout => exact absurd hmode (hout old new)
      | opens _ hranges _ hinto =>
          subst hinto
          obtain ⟨rfl, rfl, hleft⟩ := inside_into hmode
          exact ⟨⟨front, line, [], _, _, rfl, hranges, by simp, by simp⟩, hleft⟩
      | marks hinside htake hsame =>
          subst hsame
          rw [hmode] at hinside
          cases hinside
          obtain ⟨hleaves, hleft⟩ := ih hfront hmode
          exact ⟨hleaves.snoc (takes_of_takeLine? htake), hleft⟩
      | takes hinside htake hinto =>
          subst hinto
          obtain ⟨rfl, rfl, hleft⟩ := inside_into hmode
          exact ⟨(ih hfront hinside).1.snoc (takes_of_takeLine? htake), hleft⟩

/-- The reader is in a hunk just behind those lines that end in one. -/
theorem inside_iff_endsInHunk {s : Reader} {lines : List (List Char)}
    (h : start.feed 0 lines = .ok s) :
    (∃ old new, s.mode = .inside old new) ↔ EndsInHunk lines := by
  constructor
  · rintro ⟨old', new', hmode⟩
    obtain ⟨⟨above, header, body, old, new, hlines, hranges, hold, hnew⟩, hleft⟩ :=
      leaves_of_feed h hmode
    refine ⟨above, header, body, old, new, hlines, hranges, ?_⟩
    rw [← UInt32.toNat_inj, ← UInt32.toNat_inj, UInt32.toNat_zero] at hleft
    omega
  · rintro ⟨above, header, body, old, new, rfl, hranges, hshort⟩
    rw [feed_append, bind_eq_ok_iff] at h
    obtain ⟨r, -, hbehind⟩ := h
    obtain ⟨t, hstep, hbody⟩ := bind_eq_ok_iff.mp hbehind
    have hnot : ranges? header ≠ none := by simp [hranges]
    cases turn_of_step hstep with
    | outside _ _ hnone => exact absurd hnone hnot
    | marks _ htake => exact absurd (ranges?_of_takeLine? htake) hnot
    | takes _ htake => exact absurd (ranges?_of_takeLine? htake) hnot
    | opens _ hopens _ hinto =>
        rw [hranges] at hopens
        cases hopens
        subst hinto
        exact mode_of_feed_into hbody hshort

theorem finish_eq_truncated_iff {r : Reader} {count number : Nat} :
    r.finish count = .error ⟨number, .truncatedHunk⟩ ↔
      count = number ∧ ∃ old new, r.mode = .inside old new := by
  rw [finish]
  cases hmode : r.mode with
  | between => simp
  | inside old new => simp
  | afterOld above old => simp

end Reader

theorem message_truncatedHunk (count : Nat) :
    Malformed.message ⟨count, .truncatedHunk⟩ =
      s!"Malformed diff at line {count}: truncated hunk" := by
  have hreason : ": " ++ Reason.truncatedHunk.message = ": truncated hunk" := by decide
  rw [← hreason]
  exact String.append_assoc

theorem exists_feed_of_parse {diff : String} {patch : Patch} (h : parse diff = .ok patch)
    (count : Nat) :
    ∃ r, Reader.start.feed 0 ((Text.lines diff.toList).take count) = .ok r := by
  rw [parse, ← List.take_append_drop count (Text.lines diff.toList), Reader.run_append,
    bind_eq_ok_iff] at h
  obtain ⟨r, hfeed, -⟩ := h
  exact ⟨r, hfeed⟩

theorem not_endsInHunk_of_parse {diff : String} {patch : Patch} (h : parse diff = .ok patch) :
    ¬ EndsInHunk (Text.lines diff.toList) := by
  rw [parse, Reader.run_eq_feed, bind_eq_ok_iff] at h
  obtain ⟨r, hfeed, hfinish⟩ := h
  rw [← Reader.inside_iff_endsInHunk hfeed, (Reader.finish_eq_ok_iff.mp hfinish).1]
  rintro ⟨old, new, hmode⟩
  cases hmode

/-- A diff that is cut is refused as a truncated one, in its last line, just if it
is cut inside a hunk, and then nothing is merged along it. -/
theorem truncated_iff_endsInHunk {diff cut : String} {patch : Patch} {count : Nat}
    (h : parse diff = .ok patch)
    (hcut : Text.lines cut.toList = (Text.lines diff.toList).take count) :
    (EndsInHunk ((Text.lines diff.toList).take count) ↔
      parse cut = .error ⟨count, .truncatedHunk⟩) ∧
    (EndsInHunk ((Text.lines diff.toList).take count) → ∀ before after : Snapshot,
      ∃ why : Failure, Merge.alongDiff before after cut = .error why ∧
        why.message = s!"Malformed diff at line {count}: truncated hunk") := by
  obtain ⟨r, hfeed⟩ := exists_feed_of_parse h count
  have hread : parse cut = r.finish ((Text.lines diff.toList).take count).length := by
    rw [parse, hcut, Reader.run_eq_feed, hfeed, Nat.zero_add]
    rfl
  have hlength (hends : EndsInHunk ((Text.lines diff.toList).take count)) :
      ((Text.lines diff.toList).take count).length = count := by
    rw [List.length_take]
    apply Nat.min_eq_left
    by_contra hbeyond
    rw [List.take_of_length_le (by omega)] at hends
    exact not_endsInHunk_of_parse h hends
  have hiff : EndsInHunk ((Text.lines diff.toList).take count) ↔
      parse cut = .error ⟨count, .truncatedHunk⟩ := by
    rw [hread, Reader.finish_eq_truncated_iff, Reader.inside_iff_endsInHunk hfeed]
    exact ⟨fun hends => ⟨hlength hends, hends⟩, And.right⟩
  refine ⟨hiff, fun hends before after => ⟨.patch ⟨count, .truncatedHunk⟩, ?_, ?_⟩⟩
  · rw [Merge.alongDiff, hiff.mp hends]
    rfl
  · exact message_truncatedHunk count

def twoFileLines : List String :=
  ["--- a/x.c", "+++ b/x.c", "@@ -1 +1 @@", "-a", "+b", "--- a/y.c", "+++ b/y.c",
    "@@ -3,2 +3,2 @@ void f()", " c", "-d", "\\ No newline at end of file", "+e"]

def twoFileDiff : String :=
  diffOf twoFileLines

/-- The same without its last line. -/
def openDiff : String :=
  .ofList (Text.upToLine 11 twoFileDiff.toList)

theorem truncated_iff_endsInHunk_open :
    parse twoFileDiff = .ok ⟨[⟨some "x.c", some "x.c", [.deletion 1, .insertion 1]⟩,
        ⟨some "y.c", some "y.c", [.context 3 3, .deletion 4, .insertion 4]⟩]⟩ ∧
      Text.lines openDiff.toList = (Text.lines twoFileDiff.toList).take 11 ∧
      EndsInHunk ((Text.lines twoFileDiff.toList).take 11) ∧
      parse openDiff = .error ⟨11, .truncatedHunk⟩ ∧
      ∃ why : Failure, Merge.alongDiff default default openDiff = .error why ∧
        why.message = s!"Malformed diff at line {11}: truncated hunk" := by
  have hlines : Text.lines twoFileDiff.toList =
      (twoFileLines.map String.toList).map trimReturn := lines_diffOf (by decide +kernel)
  have hparse : parse twoFileDiff =
      .ok ⟨[⟨some "x.c", some "x.c", [.deletion 1, .insertion 1]⟩,
        ⟨some "y.c", some "y.c", [.context 3 3, .deletion 4, .insertion 4]⟩]⟩ := by
    rw [parse, hlines]
    rfl
  have hcut : Text.lines openDiff.toList = (Text.lines twoFileDiff.toList).take 11 := by
    rw [openDiff, String.toList_ofList, Text.lines_upToLine]
  have hends : EndsInHunk ((Text.lines twoFileDiff.toList).take 11) := by
    rw [hlines]
    exact ⟨((twoFileLines.map String.toList).map trimReturn).take 7,
      "@@ -3,2 +3,2 @@ void f()".toList, (twoFileLines.map String.toList).drop 8 |>.take 3,
      ⟨3, 2⟩, ⟨3, 2⟩, by decide +kernel, by decide +kernel, by decide +kernel⟩
  obtain ⟨htruncated, hmerge⟩ := truncated_iff_endsInHunk hparse hcut
  exact ⟨hparse, hcut, hends, htruncated.mp hends, hmerge hends default default⟩

end CallAtlas.Patch
