import CallAtlas.Proofs.Patch.RoundTrip

/-!
# Copies in a diff

A section of a diff that says that a file is a copy of another one. The lines
that say so are remarks to the reader: what it takes from the section are the
two paths of the header line, so that a copy is read as a renaming is.
-/

namespace CallAtlas.Patch

open Text (closeLines trimReturn)

namespace Written

/-- A line below the header of git that names one of its paths. -/
def copyLine (verb : String) (p : HeaderPath) : List Char :=
  "copy ".toList ++ (verb.toList ++ p.chars)

/-- A section that copies one file to another, and changes the copy if it has
hunks. -/
structure Copy where
  source : HeaderPath
  target : HeaderPath
  /-- The header line of git can be split behind the path. -/
  no_mark : ¬ " b/".toList <:+: source.chars
  above : List Remark
  below : List Remark
  hunks : List Hunk

namespace Copy

def edits (c : Copy) : List (List Char) :=
  if c.hunks.isEmpty then []
  else headers (some c.source) (some c.target) ++ c.hunks.flatMap Hunk.lines

def lines (c : Copy) : List (List Char) :=
  gitLine c.source.toLineText c.target.toLineText :: c.above.map (·.chars) ++
    [copyLine "from " c.source, copyLine "to " c.target] ++ c.below.map (·.chars) ++ c.edits

def patch (c : Copy) : FilePatch :=
  ⟨some c.source.path, some c.target.path, c.hunks.flatMap Hunk.changes⟩

/-- The diff has the section: what stands above it is a diff, and what stands
below it is another section if it is anything. -/
def StandsIn (c : Copy) (diff : String) : Prop :=
  ∃ above below : List Char,
    diff = String.ofList (above ++ (closeLines c.lines ++ below)) ∧
      Text.Ended above ∧ (∃ patch, parse (String.ofList above) = .ok patch) ∧
        (below = [] ∨ "diff ".toList <+: below)

end Copy

theorem isRemark_copyLine (verb : String) (p : HeaderPath) : IsRemark (copyLine verb p) :=
  isRemark_cons (by decide) _

theorem no_feed_copyLine {verb : String} (h : '\n' ∉ verb.toList) (p : HeaderPath) :
    '\n' ∉ copyLine verb p := by
  show '\n' ∉ "copy ".toList ++ (verb.toList ++ p.chars)
  rw [List.mem_append, List.mem_append, not_or, not_or]
  exact ⟨by decide, h, p.no_feed⟩

theorem Copy.no_feed (c : Copy) : ∀ line ∈ c.lines, '\n' ∉ line := by
  have hedits : ∀ line ∈ c.edits, '\n' ∉ line := by
    rw [edits]
    split
    · exact List.forall_mem_nil _
    · rw [List.forall_mem_append, List.forall_mem_flatMap]
      exact ⟨no_feed_headers (some c.source) (some c.target), fun hunk _ => hunk.no_feed⟩
  rw [lines, List.forall_mem_append, List.forall_mem_append, List.forall_mem_append,
    List.forall_mem_cons, List.forall_mem_cons, List.forall_mem_cons]
  exact ⟨⟨⟨⟨no_feed_gitLine _ _, no_feed_remarks c.above⟩, no_feed_copyLine (by decide) c.source,
    no_feed_copyLine (by decide) c.target, List.forall_mem_nil _⟩, no_feed_remarks c.below⟩, hedits⟩

end Written

namespace Reader

open Written (Copy)

/-- A file that git has opened with two paths takes over what is said about the
copy. -/
theorem leads_edits (files : List FilePatch) (c : Copy) :
    Leads (Stands files ⟨some c.source.path, some c.target.path, []⟩ false) c.edits
      (Paused (files ++ [c.patch])) := by
  rw [Copy.edits, Copy.patch]
  cases hhunks : c.hunks with
  | nil =>
      refine .nil fun r hr => ⟨hr.mode, ?_⟩
      exact hr.closed rfl
  | cons hunk hunks =>
      have hheaders := leads_headers_of_stands files (some c.source.path) (some c.target.path)
        (some c.source) (some c.target)
      have hbody := leads_hunks files (s := ⟨some c.source.path, some c.target.path, []⟩) rfl
        (hunk :: hunks) rfl
      refine (hheaders.append hbody).weaken fun r hr => ⟨hr.mode, ?_⟩
      have hclosed := hr.closed rfl
      rwa [Section.close, List.reverse_reverse] at hclosed

/-- A copy is read as a file that has come from the one path to the other. -/
theorem leads_copy (files : List FilePatch) (c : Copy) :
    Leads (Paused files) c.lines (Paused (files ++ [c.patch])) := by
  have hgit : Leads (Paused files) [Written.gitLine c.source.toLineText c.target.toLineText]
      (Stands files ⟨some c.source.path, some c.target.path, []⟩ false) := by
    refine leads_gitLine files ?_
    rw [c.target.trimReturn_chars]
    exact Text.splitAt?_append (by decide) c.no_mark c.target.chars
  have hcalm := calm_stands files ⟨some c.source.path, some c.target.path, []⟩ false
  have hcopy := (hcalm.leads_remark (Written.isRemark_copyLine "from " c.source)).append
    (hcalm.leads_remark (Written.isRemark_copyLine "to " c.target))
  exact (((hgit.append (hcalm.leads_remarks c.above)).append hcopy).append
    (hcalm.leads_remarks c.below)).append (leads_edits files c)

theorem files_of_step {r s : Reader} (hmode : r.mode = .between) {number : Nat}
    {line : List Char} (hline : "diff ".toList <+: line) (h : r.step number line = .ok s) :
    s.files = r.closed := by
  obtain ⟨rest, rfl⟩ := hline
  cases reads_of_step h with
  | opens => rfl
  | names _ hline => cases hline
  | heads hafter => simp [hmode] at hafter
  | begins _ hranges => cases startsWith_of_ranges? hranges
  | takes hinside => simp [hmode] at hinside
  | marks hinside => simp [hmode] at hinside
  | passes _ hdiff => cases hdiff

/-- Files that are closed at the end of a section stay among the files of the
diff. -/
theorem Paused.prefix_of_run {files : List FilePatch} {r : Reader} (h : Paused files r)
    {count : Nat} {below : List Char} (hbelow : below = [] ∨ "diff ".toList <+: below)
    {patch : Patch} (hrun : r.run count (Text.lines below) = .ok patch) :
    files <+: patch.files := by
  rcases hbelow with rfl | hdiff
  · have hend : r.finish count = .ok patch := hrun
    rw [h.finish count] at hend
    cases hend
    exact List.prefix_rfl
  · obtain ⟨line, rest, hlines, hline⟩ :=
      Text.lines_of_prefix (by decide) (by decide) (by decide) hdiff
    rw [hlines] at hrun
    obtain ⟨s, hstep, hrest⟩ := run_cons_eq_ok_iff.mp hrun
    have hfiles := files_of_run hrest
    rwa [files_of_step h.mode hline hstep, h.closed] at hfiles

theorem paused_of_finish {r : Reader} {count : Nat} {patch : Patch}
    (h : r.finish count = .ok patch) : Paused patch.files r := by
  obtain ⟨hmode, rfl⟩ := finish_eq_ok_iff.mp h
  exact ⟨hmode, rfl⟩

end Reader

/-- The files of an accepted diff contain each copy as a file with both
paths. -/
theorem patch_mem_of_standsIn {c : Written.Copy} {diff : String} {patch : Patch}
    (hc : c.StandsIn diff) (h : parse diff = .ok patch) : c.patch ∈ patch.files := by
  obtain ⟨above, below, rfl, hended, ⟨earlier, habove⟩, hbelow⟩ := hc
  -- what stands above is a diff of its own, so that it ends between hunks
  rw [parse, String.toList_ofList, Reader.run_eq_feed, bind_eq_ok_iff] at habove
  obtain ⟨r, hfeed, hfinish⟩ := habove
  rw [parse, String.toList_ofList, Text.lines_append_of_ended hended,
    Text.lines_closeLines_append c.no_feed, Reader.run_append, hfeed] at h
  obtain ⟨s, hfeed', hs⟩ := Reader.leads_copy earlier.files c r (Reader.paused_of_finish hfinish)
    (0 + (Text.lines above).length)
  have hrest : Reader.run r _ (c.lines.map trimReturn ++ Text.lines below) = .ok patch := h
  rw [Reader.run_append, hfeed'] at hrest
  exact (hs.prefix_of_run hbelow hrest).subset (List.mem_append_right _ (List.mem_singleton_self _))

end CallAtlas.Patch
