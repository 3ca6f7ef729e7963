import CallAtlas.Proofs.Extraction.Assembly
import CallAtlas.Proofs.Snapshot.Constructed
import Mathlib.Data.List.Induction
import Mathlib.Data.List.TakeDrop

/-!
# The run of a rolling snapshot

What a file of the rolling snapshot holds is decided by one revision: the last
one that went through and whose diff names the file, or the first one if there
is none. Its functions stand there in that revision's order, with the keys they
had then, whatever was merged before and after.
-/

namespace CallAtlas.Rolling

/-- The diff names the path on its old or on its new side. -/
def Revision.Names (r : Revision) (path : String) : Prop :=
  ∃ patch, Patch.parse r.diff = .ok patch ∧
    ∃ f ∈ patch.files, f.old = some path ∨ f.new = some path

/-- The revision at that place can be merged into what was built before it. -/
def Succeeds (revisions : List Revision) (place : Nat) (r : Revision) : Prop :=
  ∃ outcome, advance (run none (revisions.take place)) r.after r.diff = .ok outcome

/-- `r`, at that place, is the last revision that succeeds and names the path,
or the first revision if none does. -/
structure Settles (revisions : List Revision) (path : String) (place : Nat) (r : Revision) :
    Prop where
  at_place : revisions[place]? = some r
  names : place = 0 ∨ Succeeds revisions place r ∧ r.Names path
  latest : ∀ later q, place < later → revisions[later]? = some q →
    Succeeds revisions later q → ¬ q.Names path

theorem Settles.unique {revisions : List Revision} {path : String} {place other : Nat}
    {r q : Revision} (hr : Settles revisions path place r) (hq : Settles revisions path other q) :
    other = place := by
  rcases Nat.lt_trichotomy place other with hlt | heq | hlt
  · rcases hq.names with hzero | ⟨hsucceeds, hnames⟩
    · omega
    · exact absurd hnames (hr.latest other q hlt hq.at_place hsucceeds)
  · exact heq.symm
  · rcases hr.names with hzero | ⟨hsucceeds, hnames⟩
    · omega
    · exact absurd hnames (hq.latest place r hlt hr.at_place hsucceeds)

/-! ## One more revision -/

section

variable {revisions : List Revision} {path : String}

theorem run_append_singleton (state : Option Snapshot) (revisions : List Revision)
    (r : Revision) : run state (revisions ++ [r]) = step (run state revisions) r := by
  rw [run, List.foldl_append]
  rfl

theorem succeeds_append_iff {place : Nat} (h : place ≤ revisions.length) (last q : Revision) :
    Succeeds (revisions ++ [last]) place q ↔ Succeeds revisions place q := by
  rw [Succeeds, Succeeds, List.take_append_of_le_length h]

theorem succeeds_last_iff (revisions : List Revision) (last : Revision) :
    Succeeds (revisions ++ [last]) revisions.length last ↔
      ∃ outcome, advance (run none revisions) last.after last.diff = .ok outcome := by
  rw [Succeeds, List.take_left]

/-- A revision that fails or does not name the path leaves it settled where it
was. -/
theorem Settles.append {place : Nat} {r last : Revision} (h : Settles revisions path place r)
    (hlast : Succeeds (revisions ++ [last]) revisions.length last → ¬ last.Names path) :
    Settles (revisions ++ [last]) path place r := by
  have hplace : place < revisions.length := (List.getElem?_eq_some_iff.mp h.at_place).1
  refine ⟨?_, ?_, ?_⟩
  · rw [List.getElem?_append_left hplace, h.at_place]
  · rcases h.names with hzero | ⟨hsucceeds, hnames⟩
    · exact Or.inl hzero
    · exact Or.inr ⟨(succeeds_append_iff (Nat.le_of_lt hplace) last r).mpr hsucceeds, hnames⟩
  · intro later q hlater hq hsucceeds
    rcases Nat.lt_or_ge later revisions.length with hlt | hge
    · rw [List.getElem?_append_left hlt] at hq
      rw [succeeds_append_iff (Nat.le_of_lt hlt)] at hsucceeds
      exact h.latest later q hlater hq hsucceeds
    · rw [List.getElem?_append_right hge] at hq
      obtain ⟨hend, hlastq⟩ := List.getElem?_eq_some_iff.mp hq
      have hsame : later = revisions.length := by
        simp only [List.length_singleton] at hend
        omega
      subst hsame
      simp only [Nat.sub_self, List.getElem_cons_zero] at hlastq
      subst hlastq
      exact hlast hsucceeds

theorem settles_last {last : Revision}
    (hsucceeds : Succeeds (revisions ++ [last]) revisions.length last) (hnames : last.Names path) :
    Settles (revisions ++ [last]) path revisions.length last := by
  refine ⟨?_, Or.inr ⟨hsucceeds, hnames⟩, ?_⟩
  · simp
  · intro later q hlater hq _
    have hlt := (List.getElem?_eq_some_iff.mp hq).1
    rw [List.length_append, List.length_singleton] at hlt
    omega

end

/-! ## What a merge does to one file -/

theorem names_iff {r : Revision} {path : String} {patch : Patch}
    (hparse : Patch.parse r.diff = .ok patch) : r.Names path ↔ path ∈ patch.paths := by
  have hpaths : path ∈ patch.paths ↔ ∃ f ∈ patch.files, f.old = some path ∨ f.new = some path := by
    simp [Patch.paths, Ascending.mem_ofList, FilePatch.paths]
  rw [hpaths]
  constructor
  · rintro ⟨parsed, hparsed, hnamed⟩
    rw [hparse] at hparsed
    cases hparsed
    exact hnamed
  · intro hnamed
    exact ⟨patch, hparse, hnamed⟩

section

variable {before after : Snapshot} {patch : Patch} {outcome : Merge.Outcome} {path : String}

/-- The functions of one file come from either snapshot as a whole. -/
theorem filter_path_alongPatch (hbefore : before.WellFormed) (hafter : after.WellFormed)
    (h : Merge.alongPatch before after patch = .ok outcome) (path : String) :
    outcome.snapshot.located.filter (·.path = path) =
      (if path ∉ outcome.partition.touched then before.located.filter (·.path = path) else []) ++
        if path ∈ outcome.partition.changed then after.located.filter (·.path = path) else [] := by
  rw [Merge.located_alongPatch hbefore hafter h, List.filter_append,
    Snapshot.filter_path_filter (fun path => decide (path ∉ outcome.partition.touched)),
    Snapshot.filter_path_filter (fun path => decide (path ∈ outcome.partition.changed))]
  simp only [decide_eq_true_eq]

/-- The functions of a file that the patch names are those of the later
snapshot. This holds too when neither snapshot lists the file. -/
theorem located_of_named (hbefore : before.WellFormed) (hafter : after.WellFormed)
    (h : Merge.alongPatch before after patch = .ok outcome) (hnamed : path ∈ patch.paths) :
    outcome.snapshot.located.filter (·.path = path) =
      after.located.filter (·.path = path) := by
  have hpartition := (Merge.alongPatch_eq_ok_iff.mp h).1
  have htouched : path ∈ before.files → path ∈ outcome.partition.touched := by
    intro hfile
    rw [hpartition, Partition.mem_touched]
    exact ⟨hnamed, Or.inl hfile⟩
  have hchanged : path ∈ after.files → path ∈ outcome.partition.changed := by
    intro hfile
    rw [hpartition, Partition.mem_changed]
    exact ⟨hnamed, hfile⟩
  have hdropped : (if path ∉ outcome.partition.touched then
      before.located.filter (·.path = path) else []) = [] := by
    split
    case isTrue hkept => exact hbefore.filter_path_eq_nil fun hfile => hkept (htouched hfile)
    case isFalse => rfl
  rw [filter_path_alongPatch hbefore hafter h, hdropped, List.nil_append]
  split
  case isTrue => rfl
  case isFalse hleft =>
    exact (hafter.filter_path_eq_nil fun hfile => hleft (hchanged hfile)).symm

/-- The functions of a file that the patch does not name stay, and those that
the later snapshot has for it are left out. -/
theorem located_of_not_named (hbefore : before.WellFormed) (hafter : after.WellFormed)
    (h : Merge.alongPatch before after patch = .ok outcome) (hnamed : path ∉ patch.paths) :
    outcome.snapshot.located.filter (·.path = path) =
      before.located.filter (·.path = path) := by
  have hpartition := (Merge.alongPatch_eq_ok_iff.mp h).1
  have hkept : path ∉ outcome.partition.touched := by
    rw [hpartition, Partition.mem_touched]
    exact fun htouched => hnamed htouched.1
  have hleft : path ∉ outcome.partition.changed := by
    rw [hpartition, Partition.mem_changed]
    exact fun hchanged => hnamed hchanged.1
  rw [filter_path_alongPatch hbefore hafter h, if_pos hkept, if_neg hleft, List.append_nil]

end

/-! ## The run -/

/-- What holds of the rolling snapshot after every revision: it is well-formed,
lists no file twice, and has every path as the revision left it that settles
the path. -/
structure Settled (revisions : List Revision) (s : Snapshot) : Prop where
  wellFormed : s.WellFormed
  nodup_files : s.files.Nodup
  located : ∀ path, ∃ place r, Settles revisions path place r ∧
    s.located.filter (·.path = path) = r.after.located.filter (·.path = path)

theorem settled_singleton {r : Revision} (hwell : r.after.WellFormed)
    (hfiles : r.after.files.Nodup) : Settled [r] r.after := by
  refine ⟨hwell, hfiles, fun path => ⟨0, r, ⟨rfl, Or.inl rfl, ?_⟩, rfl⟩⟩
  intro later q hlater hq _
  have hlt := (List.getElem?_eq_some_iff.mp hq).1
  rw [List.length_singleton] at hlt
  omega

theorem Settled.append {revisions : List Revision} {s : Snapshot} {last : Revision}
    (h : Settled revisions s) (hrun : run none revisions = some s)
    (hlast : last.after.WellFormed) :
    ∃ t, step (some s) last = some t ∧ Settled (revisions ++ [last]) t := by
  have hsucceeds := succeeds_last_iff revisions last
  rw [hrun] at hsucceeds
  cases hadvance : advance (some s) last.after last.diff with
  | error why =>
      refine ⟨s, by rw [step, hadvance], h.wellFormed, h.nodup_files, ?_⟩
      intro path
      obtain ⟨place, r, hsettles, hlocated⟩ := h.located path
      -- a revision that fails settles nothing anew
      refine ⟨place, r, hsettles.append fun hok => ?_, hlocated⟩
      obtain ⟨outcome, houtcome⟩ := hsucceeds.mp hok
      rw [hadvance] at houtcome
      cases houtcome
  | ok outcome =>
      obtain ⟨patch, hparse, hmerge⟩ := advance_some_eq_ok_iff.mp hadvance
      refine ⟨outcome.snapshot, by rw [step, hadvance], Merge.wellFormed_alongPatch hmerge,
        Merge.nodup_files_alongPatch h.wellFormed hmerge, ?_⟩
      intro path
      by_cases hnamed : path ∈ patch.paths
      · exact ⟨revisions.length, last,
          settles_last (hsucceeds.mpr ⟨outcome, hadvance⟩) ((names_iff hparse).mpr hnamed),
          located_of_named h.wellFormed hlast hmerge hnamed⟩
      · obtain ⟨place, r, hsettles, hlocated⟩ := h.located path
        refine ⟨place, r, hsettles.append fun _ hnames => hnamed ((names_iff hparse).mp hnames), ?_⟩
        rw [located_of_not_named h.wellFormed hlast hmerge hnamed, hlocated]

theorem settled_run {revisions : List Revision} (hnonempty : revisions ≠ [])
    (hafter : ∀ r ∈ revisions, r.after.WellFormed ∧ r.after.files.Nodup) :
    ∃ s, run none revisions = some s ∧ Settled revisions s := by
  induction revisions using List.reverseRecOn with
  | nil => exact absurd rfl hnonempty
  | append_singleton revisions last ih =>
      obtain ⟨hwell, hfiles⟩ := hafter last (by simp)
      rcases List.eq_nil_or_concat revisions with rfl | ⟨_, _, hcons⟩
      · exact ⟨last.after, rfl, settled_singleton hwell hfiles⟩
      · have hbefore : ∀ r ∈ revisions, r.after.WellFormed ∧ r.after.files.Nodup :=
          fun r hr => hafter r (List.mem_append_left _ hr)
        obtain ⟨s, hrun, hsettled⟩ := ih (by simp [hcons]) hbefore
        obtain ⟨t, hstep, ht⟩ := hsettled.append hrun hwell
        exact ⟨t, by rw [run_append_singleton, hrun, hstep], ht⟩

theorem wellFormed_of_assemble {t : Extraction.Tables} {revision : String} {s : Snapshot}
    (h : t.assemble revision = .ok s) : s.WellFormed ∧ s.files.Nodup := by
  obtain ⟨hwell, hfiles, _⟩ := Snapshot.build_eq_ok_iff.mp h
  refine ⟨hwell, ?_⟩
  rw [hfiles]
  exact Extraction.Inventory.nodup_files t.definitions

/-- Every file of the rolling snapshot is as the revision had it that settles
the file. -/
theorem functionsIn_run {revisions : List Revision} (hnonempty : revisions ≠ [])
    (hassembled : ∀ r ∈ revisions, ∃ (t : Extraction.Tables) (revision : String),
      t.assemble revision = .ok r.after) :
    ∃ s, run none revisions = some s ∧ ∀ path, ∃ place r,
      Settles revisions path place r ∧
        (∀ other q, Settles revisions path other q → other = place) ∧
        (s.functionsIn path).map s.locate = (r.after.functionsIn path).map r.after.locate := by
  have hafter : ∀ r ∈ revisions, r.after.WellFormed ∧ r.after.files.Nodup := by
    intro r hr
    obtain ⟨t, revision, hassemble⟩ := hassembled r hr
    exact wellFormed_of_assemble hassemble
  obtain ⟨s, hrun, hsettled⟩ := settled_run hnonempty hafter
  refine ⟨s, hrun, fun path => ?_⟩
  obtain ⟨place, r, hsettles, hlocated⟩ := hsettled.located path
  obtain ⟨hwell, hfiles⟩ := hafter r (List.mem_of_getElem? hsettles.at_place)
  refine ⟨place, r, hsettles, fun _ _ hother => hsettles.unique hother, ?_⟩
  rw [Snapshot.map_locate_functionsIn hsettled.wellFormed hsettled.nodup_files,
    Snapshot.map_locate_functionsIn hwell hfiles, hlocated]

/-- A first build, and a second revision that deletes one of its two files and
compiles nothing. -/
def sampleRevisions : List Revision :=
  [⟨Extraction.sampleSnapshot, ""⟩,
    ⟨.empty "r2", "diff --git a/a.c b/a.c\ndeleted file mode 100644\n"⟩]

theorem assembled_sample : ∀ r ∈ sampleRevisions, ∃ (t : Extraction.Tables) (revision : String),
    t.assemble revision = .ok r.after := by
  intro r hr
  rcases List.mem_pair.mp hr with rfl | rfl
  · exact ⟨Extraction.sampleTables, "r1", Extraction.assemble_sample⟩
  · refine ⟨⟨[], [], [], [], [], []⟩, "r2", Snapshot.build_eq_ok_iff.mpr ?_⟩
    have hinventory : Extraction.Tables.inventory ⟨[], [], [], [], [], []⟩ = ⟨[], []⟩ := by cbv
    refine ⟨Snapshot.wellFormed_empty "r2", ?_, ?_, rfl⟩
    · rw [hinventory]
      rfl
    · rw [Extraction.Tables.bodies_eq, hinventory]
      rfl

theorem functionsIn_run_sample :
    sampleRevisions ≠ [] ∧
      (∀ r ∈ sampleRevisions, ∃ (t : Extraction.Tables) (revision : String),
        t.assemble revision = .ok r.after) ∧
      ∃ s, run none sampleRevisions = some s ∧ ∀ path, ∃ place r,
        Settles sampleRevisions path place r ∧
          (∀ other q, Settles sampleRevisions path other q → other = place) ∧
          (s.functionsIn path).map s.locate =
            (r.after.functionsIn path).map r.after.locate := by
  have hnonempty : sampleRevisions ≠ [] := List.cons_ne_nil _ _
  exact ⟨hnonempty, assembled_sample, functionsIn_run hnonempty assembled_sample⟩

end CallAtlas.Rolling
