import CallAtlas.Proofs.Pipeline.Update

/-!
# What a failed update leaves behind

Until the rolling snapshot is replaced an update that fails has left the rolling
snapshot and the logs as they were, and a later try does what was due. One that
fails after that has gone on to its revision all the same: what is missing is the
copy of the snapshot, or the report in some of the logs.
-/

namespace CallAtlas.Pipeline

open Disk FallibleDisk

variable {σ : Type} [MonadDisk (StateM σ)] [FallibleDisk σ] {p : Pipeline} {database : Path}
  {c : Commit} {diff : String} {u v : σ}

/-- The build that can be read in one state, merged into what the rolling snapshot
is in another one, is the outcome. -/
def Merges (p : Pipeline) (database : Path) (c : Commit) (diff : String) (build rolling : σ)
    (before : Option Snapshot) (outcome : Merge.Outcome) : Prop :=
  ∃ opened after, Opens (p.lasting (disk build).home c.revision) database build opened ∧
    Extraction.assembled opened c.revision = .ok after ∧
    (∀ content, Holds (disk rolling) p.rollingFile content → Snapshot.loaded content = .ok before) ∧
    Rolling.advance before after diff = .ok outcome

theorem Renews.merges {home : Address} {before : Option Snapshot} {outcome : Merge.Outcome}
    (hhome : (disk u).home = home) (hrolling : p.rollingFile ∈ p.lasting home c.revision)
    (hsized : ∀ db, HoldsDatabase (disk u) db → db.Sized)
    (h : Renews (p.lasting home c.revision) p.rollingFile database c.revision diff u
      (.ok (before, outcome))) : Merges p database c diff u u before outcome := by
  subst hhome
  cases h with
  | @absorbed opened after found _ hopens hstaged hfinds hr =>
      obtain ⟨hloaded, hadvance⟩ := absorbed_eq_ok_iff.mp hr.symm
      rw [staged_eq_assembled (hopens.sized hsized)] at hstaged
      refine ⟨opened, after, hopens, hstaged, fun content hholds => ?_, hadvance⟩
      obtain ⟨u₁, hleaves, hshows⟩ := hfinds
      rw [← hshows.eq_of_holds ((hleaves.spares _ hrolling).holds hholds), hloaded]

theorem Merges.of_spares {w : σ} {before : Option Snapshot} {outcome : Merge.Outcome}
    (hspares : Spares p.rollingFile (disk u) (disk w))
    (h : Merges p database c diff v w before outcome) :
    Merges p database c diff v u before outcome := by
  obtain ⟨opened, after, hopens, hassembled, hloaded, hadvance⟩ := h
  exact ⟨opened, after, hopens, hassembled,
    fun content hholds => hloaded content (hspares.holds hholds), hadvance⟩

/-- An update that succeeds merges its build, and each log has the report that is
due. -/
theorem spec_of_update {summary : Summary} (hapart : p.Apart (disk u).home c.revision)
    (hsized : ∀ db, HoldsDatabase (disk u) db → db.Sized)
    (h : Ends (p.update database c diff) u (.ok summary) v) :
    ∃ before, Merges p database c diff u u before summary.outcome ∧
      (disk v).readText p.rollingFile = .ok summary.outcome.snapshot.toJson ∧
      ∀ log ∈ p.due before, ChangeLog.Gains (disk u) (disk v) log
        (report c summary.outcome.changes).line := by
  generalize hr : Except.ok summary = r at h
  cases ends_update_cases hapart hsized h with
  | locked => cases hr
  | refused => cases hr
  | @renewed before outcome told torn concluded hrenews _ hread htold hlast =>
      obtain ⟨rfl, rfl⟩ | ⟨fault, rfl⟩ := hlast
      · cases hr
        exact ⟨before, hrenews.merges rfl (hapart.clear _ List.mem_cons_self) hsized, hread,
          htold.gained⟩
      · cases hr

/-- What lasts is in the second state as in the first, and an update that then
succeeds, whatever else has changed until then, does what was due in the first. -/
structure LeavesNoTrace (p : Pipeline) (database : Path) (c : Commit) (diff : String) (u v : σ) :
    Prop where
  kept : ∀ q ∈ p.keptFiles, Spares q (disk u) (disk v)
  retried : ∀ v₁ v₂ summary, (∀ q ∈ p.keptFiles, Spares q (disk v) (disk v₁)) →
    (∀ db, HoldsDatabase (disk v₁) db → db.Sized) →
    Ends (p.update database c diff) v₁ (.ok summary) v₂ →
    ∃ before, Merges p database c diff v₁ u before summary.outcome ∧
      (disk v₂).readText p.rollingFile = .ok summary.outcome.snapshot.toJson ∧
      ∀ log ∈ p.due before, ChangeLog.Gains (disk u) (disk v₂) log
        (report c summary.outcome.changes).line

theorem leavesNoTrace_of_spares (hapart : p.Apart (disk u).home c.revision)
    (h : ∀ q ∈ p.keptFiles, Spares q (disk u) (disk v)) : LeavesNoTrace p database c diff u v := by
  refine ⟨h, fun v₁ v₂ summary hkept hsized hupdate => ?_⟩
  have hspares : ∀ q ∈ p.keptFiles, Spares q (disk u) (disk v₁) :=
    fun q hq => (h q hq).trans (hkept q hq)
  have hrolling := hspares p.rollingFile List.mem_cons_self
  obtain ⟨before, hmerges, hread, hgains⟩ :=
    spec_of_update (hrolling.home.symm ▸ hapart) hsized hupdate
  have hdue : ∀ log ∈ p.due before, log ∈ p.keptFiles := by
    cases before with
    | none => simp [due]
    | some before => exact fun _ h => List.mem_cons_of_mem _ h
  exact ⟨before, hmerges.of_spares hrolling, hread,
    fun log hlog => (hgains log hlog).of_spares_left (hspares log (hdue log hlog))⟩

/-- The update has failed once the rolling snapshot was replaced: that is the merged
one, and of the logs that the report is due for the first ones have it. -/
structure FailsAfterRenewal (p : Pipeline) (database : Path) (c : Commit) (diff : String) (u v : σ)
    (why : Failure) (before : Option Snapshot) (outcome : Merge.Outcome) (told : List Path)
    (torn : Option Path) : Prop where
  fault : ∃ fault, why = .disk fault
  concludes : Concludes p database c diff u before outcome (.error why)
  merges : Merges p database c diff u u before outcome
  rolling : (disk v).readText p.rollingFile = .ok outcome.snapshot.toJson
  told : ChangeLog.Told p.logs (p.due before) told torn (report c outcome.changes).line (disk u)
    (disk v)

/-- A failed update leaves no trace unless it fails in what follows the renewal of
the rolling snapshot. -/
theorem trace_of_failed_update {why : Failure} (hapart : p.Apart (disk u).home c.revision)
    (hsized : ∀ db, HoldsDatabase (disk u) db → db.Sized)
    (h : Ends (p.update database c diff) u (.error why) v) :
    LeavesNoTrace p database c diff u v ∨ ∃ before outcome told torn,
      FailsAfterRenewal p database c diff u v why before outcome told torn := by
  generalize hr : Except.error why = r at h
  cases ends_update_cases hapart hsized h with
  | locked hleaves =>
      exact Or.inl (leavesNoTrace_of_spares hapart fun q hq => hleaves.spares q (hapart.clear q hq))
  | refused _ hleaves =>
      exact Or.inl (leavesNoTrace_of_spares hapart fun q hq => hleaves.spares q (hapart.clear q hq))
  | @renewed before outcome told torn concluded hrenews hconcludes hread htold hlast =>
      obtain ⟨rfl, _⟩ | ⟨fault, rfl⟩ := hlast
      · cases hr
      · cases hr
        exact Or.inr ⟨before, outcome, told, torn, ⟨fault, rfl⟩, hconcludes,
          hrenews.merges rfl (hapart.clear _ List.mem_cons_self) hsized, hread, htold⟩

/-! ## Failures that do leave a trace -/

open Merge (builtBefore editDiff editOutcome)

theorem apart_sample : (samplePipeline ⟨"taken"⟩).Apart ["home"] "r2" := by
  refine ⟨by decide, by decide +kernel, fun q hq => ⟨?_, ?_, .of_head? ?_ ?_⟩⟩ <;> revert q <;>
    decide +kernel

/-- The log is a directory, so the report cannot be added, but the rolling snapshot
has been replaced by then. -/
theorem ends_update_sample :
    Ends ((samplePipeline ⟨"taken"⟩).update ⟨"part"⟩ ⟨"r2", "", ""⟩ editDiff)
      (sampleDisk false builtBefore []) (.error (.disk .isADirectory))
      (sampleDisk false editOutcome.snapshot [samplePatch, sampleStaged]) := by
  have hconcluded : Ends ((samplePipeline ⟨"taken"⟩).conclude ⟨"r2", "", ""⟩
        (some builtBefore) editOutcome)
      (sampleDisk true editOutcome.snapshot [samplePatch, sampleStaged])
      (.error (.disk .isADirectory))
      (sampleDisk true editOutcome.snapshot [samplePatch, sampleStaged]) := by
    decide +kernel
  have hleft : Ends sampleWorkspace.leave
      (sampleDisk true editOutcome.snapshot [samplePatch, sampleStaged]) (.ok ())
      (sampleDisk false editOutcome.snapshot [samplePatch, sampleStaged]) := by
    decide +kernel
  refine Workspace.ends_within_of_ends (ends_enter_sample _) ?_ hleft
  refine Ends.bind_iff.mpr (Or.inl ⟨_, _, ends_renew_sample, ?_⟩)
  exact Ends.bind_iff.mpr (Or.inr ⟨_, hconcluded, rfl⟩)

theorem trace_of_failed_update_sample :
    (samplePipeline ⟨"taken"⟩).Apart ["home"] "r2" ∧
      (∀ db, HoldsDatabase (sampleDisk false builtBefore []) db → db.Sized) ∧
      Ends ((samplePipeline ⟨"taken"⟩).update ⟨"part"⟩ ⟨"r2", "", ""⟩ editDiff)
        (sampleDisk false builtBefore []) (.error (.disk .isADirectory))
        (sampleDisk false editOutcome.snapshot [samplePatch, sampleStaged]) ∧
      (LeavesNoTrace (samplePipeline ⟨"taken"⟩) ⟨"part"⟩ ⟨"r2", "", ""⟩ editDiff
          (sampleDisk false builtBefore [])
          (sampleDisk false editOutcome.snapshot [samplePatch, sampleStaged]) ∨
        ∃ before outcome told torn, FailsAfterRenewal (samplePipeline ⟨"taken"⟩) ⟨"part"⟩
          ⟨"r2", "", ""⟩ editDiff (sampleDisk false builtBefore [])
          (sampleDisk false editOutcome.snapshot [samplePatch, sampleStaged]) (.disk .isADirectory)
          before outcome told torn) :=
  ⟨apart_sample, fun _ => sized_sample, ends_update_sample,
    trace_of_failed_update apart_sample (fun _ => sized_sample) ends_update_sample⟩

def sampleDiff (a : Address) : Address × Entry :=
  (a, .file ⟨.text "diff", false⟩)

/-- Not every failed update leaves the rolling snapshot and the log as they were:
the report may come too late to be added, and a log may be where the diff of a
revision is kept, by its setting or by the name of the revision. -/
theorem rolling_or_log_changed :
    (Ends ((samplePipeline ⟨"taken"⟩).update ⟨"part"⟩ ⟨"r2", "", ""⟩ editDiff)
        (sampleDisk false builtBefore []) (.error (.disk .isADirectory))
        (sampleDisk false editOutcome.snapshot [samplePatch, sampleStaged]) ∧
      (sampleDisk false builtBefore []).readText ⟨"cache/snapshot.json"⟩ =
        .ok builtBefore.toJson ∧
      (sampleDisk false editOutcome.snapshot [samplePatch, sampleStaged]).readText
        ⟨"cache/snapshot.json"⟩ = .ok editOutcome.snapshot.toJson ∧
      builtBefore.toJson ≠ editOutcome.snapshot.toJson) ∧
    (Ends ((samplePipeline ⟨"work/patch_r2.diff"⟩).update ⟨"none"⟩ ⟨"r2", "", ""⟩ "diff")
        (sampleDisk false builtBefore []) (.error (.store (.cannotOpen "none")))
        (sampleDisk false builtBefore [sampleDiff ["home", "work", "patch_r2.diff"]]) ∧
      (sampleDisk false builtBefore []).has ⟨"work/patch_r2.diff"⟩ = false ∧
      (sampleDisk false builtBefore [sampleDiff ["home", "work", "patch_r2.diff"]]).readText
        ⟨"work/patch_r2.diff"⟩ = .ok "diff") ∧
    Ends ((samplePipeline ⟨"log.diff"⟩).update ⟨"none"⟩ ⟨"/../../log", "", ""⟩ "diff")
        (sampleDisk false builtBefore []) (.error (.store (.cannotOpen "none")))
        (sampleDisk false builtBefore [(["home", "work", "patch_"], .directory),
          sampleDiff ["home", "log.diff"]]) ∧
      (sampleDisk false builtBefore []).has ⟨"log.diff"⟩ = false ∧
      (sampleDisk false builtBefore [(["home", "work", "patch_"], .directory),
          sampleDiff ["home", "log.diff"]]).readText ⟨"log.diff"⟩ =
        .ok "diff" := by
  refine ⟨⟨ends_update_sample, ?_, ?_, ?_⟩, ⟨?_, ?_, ?_⟩, ?_, ?_, ?_⟩
  · decide +kernel
  · decide +kernel
  · decide +kernel
  · decide +kernel
  · decide +kernel
  · decide +kernel
  · decide +kernel
  · decide +kernel
  · decide +kernel

end CallAtlas.Pipeline
