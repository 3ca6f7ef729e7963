import CallAtlas.Proofs.ChangeLog.Publishing
import CallAtlas.Proofs.Pipeline.Renewal

/-!
# What an update does

Once the rolling snapshot is replaced a copy of it is kept and the change is
reported to the logs, one after the other. A failure in between comes too late
for the rolling snapshot, and for the logs that have the report already.
-/

namespace CallAtlas

open Disk FallibleDisk

variable {σ : Type}

namespace ChangeLog

/-- Of the logs that a text is due for the first ones have got it, and the next one
may have got a part of it. All others are left alone. -/
structure Told (logs due told : List Path) (torn : Option Path) (text : String) (d e : Disk) :
    Prop where
  first : told ++ torn.toList <+: due
  gained : ∀ log ∈ told, Gains d e log text
  part : ∀ log, torn = some log →
    ∃ part : String, part.toList <+: text.toList ∧ Gains d e log part
  others : ∀ log ∈ logs, log ∉ told → torn ≠ some log → Spares log d e

section

variable {d e f : Disk} {log : Path} {logs due told : List Path} {torn : Option Path}
  {text : String}

theorem told_nil (h : ∀ log ∈ logs, Spares log d e) : Told logs due [] none text d e :=
  ⟨List.nil_prefix, by simp, by simp, fun log hlog _ _ => h log hlog⟩

/-- Where all logs that are due have got the text none is left for a part of it. -/
theorem Told.torn_eq_none (htold : Told logs due due torn text d e) : torn = none := by
  have hlength := htold.first.length_le
  cases torn with
  | none => rfl
  | some log => simp at hlength

theorem Told.imp {d' e' : Disk} (hdue : ∀ log ∈ due, log ∈ logs)
    (hgains : ∀ log ∈ logs, ∀ more, Gains d e log more → Gains d' e' log more)
    (hspares : ∀ log ∈ logs, Spares log d e → Spares log d' e')
    (htold : Told logs due told torn text d e) : Told logs due told torn text d' e' := by
  have hlogs : ∀ log ∈ told ++ torn.toList, log ∈ logs :=
    fun log hlog => hdue log (htold.first.subset hlog)
  refine ⟨htold.first, fun log hlog => ?_, fun log hlog => ?_, fun log hlog hnot htorn => ?_⟩
  · exact hgains log (hlogs log (List.mem_append_left _ hlog)) _ (htold.gained log hlog)
  · obtain ⟨part, hpart, hgained⟩ := htold.part log hlog
    exact ⟨part, hpart, hgains log (hlogs log (List.mem_append_right _ (by simp [hlog]))) _ hgained⟩
  · exact hspares log hlog (htold.others log hlog hnot htorn)

theorem Told.of_spares_left (hdue : ∀ log ∈ due, log ∈ logs) (h : ∀ log ∈ logs, Spares log d e)
    (htold : Told logs due told torn text e f) : Told logs due told torn text d f :=
  htold.imp hdue (fun log hlog _ hgains => hgains.of_spares_left (h log hlog))
    fun log hlog hspares => (h log hlog).trans hspares

theorem Told.of_spares_right (hdue : ∀ log ∈ due, log ∈ logs) (h : ∀ log ∈ logs, Spares log e f)
    (htold : Told logs due told torn text d e) : Told logs due told torn text d f :=
  htold.imp hdue (fun log hlog _ hgains => hgains.of_spares_right (h log hlog))
    fun log hlog hspares => hspares.trans (h log hlog)

theorem Told.cons (hgains : Gains d e log text) (hfirst : Spares log e f)
    (hothers : ∀ l ∈ logs, Spares l d e) (htold : Told logs logs told torn text e f) :
    Told (log :: logs) (log :: logs) (log :: told) torn text d f := by
  have htold := htold.of_spares_left (fun _ h => h) hothers
  refine ⟨(List.prefix_cons_inj log).mpr htold.first, fun l hl => ?_, htold.part,
    fun l hl hnot htorn => ?_⟩
  · rcases List.mem_cons.mp hl with rfl | hl
    · exact hgains.of_spares_right hfirst
    · exact htold.gained l hl
  · rcases List.mem_cons.mp hl with rfl | hl
    · exact absurd List.mem_cons_self hnot
    · exact htold.others l hl (fun h => hnot (List.mem_cons_of_mem _ h)) htorn

/-- The first log has failed, maybe in the middle of the text, and no other one has
been told. -/
theorem told_of_failed (hothers : ∀ l ∈ logs, Spares l d e)
    (hlast : Spares log d e ∨
      ∃ part : String, part.toList <+: text.toList ∧ Gains d e log part) :
    ∃ torn, Told (log :: logs) (log :: logs) [] torn text d e := by
  rcases hlast with hspared | hpart
  · refine ⟨none, told_nil fun l hl => ?_⟩
    rcases List.mem_cons.mp hl with rfl | hl
    · exact hspared
    · exact hothers l hl
  · refine ⟨some log, (List.prefix_cons_inj log).mpr List.nil_prefix, by simp, ?_,
      fun l hl _ htorn => ?_⟩
    · rintro l ⟨⟩
      exact hpart
    · rcases List.mem_cons.mp hl with rfl | hl
      · exact absurd rfl htorn
      · exact hothers l hl

end

section

variable [MonadDisk (StateM σ)] [FallibleDisk σ] {home : Address} {u v : σ}
  {files directories : List Path} {report : Report}

theorem ends_publish_cases {log : Path} {r : Except Failure Unit}
    (hlog : Clear files directories home log)
    (hparent : ∀ parent, log.parent? = some parent → parent ∈ directories)
    (hhome : (disk u).home = home) (h : Ends (publish log report) u r v) :
    Leaves {q | Clear files directories home q ∧ q.address home ≠ log.address home}
        (disk u) (disk v) ∧
      (r = .ok () ∧ Gains (disk u) (disk v) log report.line ∨
        (∃ fault, r = .error (.disk fault)) ∧ (Spares log (disk u) (disk v) ∨
          ∃ part : String, part.toList <+: report.line.toList ∧
            Gains (disk u) (disk v) log part)) := by
  have hmade : Works (above home directories) {p | p ∈ files} (makeParent log) :=
    works_makeParent (σ := σ) fun _ h _ hq => mem_above_of_ancestor (hparent _ h) hq
  rcases hmade.ends_bind_cases hhome h with ⟨_, u₁, _, hleaves, happend⟩ | ⟨hleaves, hfault⟩
  · have hspared := hleaves.spares log hlog
    obtain ⟨q, hruns, rfl⟩ := Ends.attempt_iff.mp happend
    have hedits : Edits (above home directories) {p | p ∈ log :: files} (disk u₁) (disk v) :=
      edits_appendText List.mem_cons_self hruns
    refine ⟨(hleaves.mono fun q hq => hq.1).trans ((hedits.leaves (hleaves.home.trans hhome)).mono
      fun q hq => clear_cons_iff.mpr hq), ?_⟩
    obtain ⟨hok, herror⟩ := FallibleDisk.appendText hruns
    cases q with
    | ok _ => exact Or.inl ⟨rfl, (gains_of_appendText (hok rfl)).of_spares_left hspared⟩
    | error fault =>
        refine Or.inr ⟨⟨fault, rfl⟩, ?_⟩
        rcases herror fault rfl with hsame | ⟨part, hpart, happended⟩
        · exact Or.inl (hsame ▸ hspared)
        · exact Or.inr ⟨part, hpart, (gains_of_appendText happended).of_spares_left hspared⟩
  · exact ⟨hleaves.mono fun q hq => hq.1, Or.inr ⟨hfault, Or.inl (hleaves.spares log hlog)⟩⟩

/-- The log has its report when the second program begins, or the disk has failed. -/
theorem ends_bind_publish_cases {α : Type} {log : Path} {f : Unit → ExceptT Failure (StateM σ) α}
    {r : Except Failure α} (hlog : Clear files directories home log)
    (hparent : ∀ parent, log.parent? = some parent → parent ∈ directories)
    (hhome : (disk u).home = home) (h : Ends (publish log report >>= f) u r v) :
    (∃ u₁, Leaves {q | Clear files directories home q ∧ q.address home ≠ log.address home}
          (disk u) (disk u₁) ∧
        Gains (disk u) (disk u₁) log report.line ∧ Ends (f ()) u₁ r v) ∨
      Leaves {q | Clear files directories home q ∧ q.address home ≠ log.address home}
          (disk u) (disk v) ∧
        (∃ fault, r = .error (.disk fault)) ∧ (Spares log (disk u) (disk v) ∨
          ∃ part : String, part.toList <+: report.line.toList ∧
            Gains (disk u) (disk v) log part) := by
  rcases Ends.bind_iff.mp h with ⟨_, u₁, hfirst, h⟩ | ⟨why, hfirst, rfl⟩
  · obtain ⟨hleaves, ⟨_, hgains⟩ | ⟨⟨_, himpossible⟩, _⟩⟩ :=
      ends_publish_cases hlog hparent hhome hfirst
    · exact Or.inl ⟨u₁, hleaves, hgains, h⟩
    · cases himpossible
  · obtain ⟨hleaves, ⟨himpossible, _⟩ | ⟨⟨fault, hfault⟩, hlast⟩⟩ :=
      ends_publish_cases hlog hparent hhome hfirst
    · cases himpossible
    · cases hfault
      exact Or.inr ⟨hleaves, ⟨fault, rfl⟩, hlast⟩

theorem ends_forM_publish_cases {logs : List Path} {r : Except Failure Unit}
    (hlogs : ∀ log ∈ logs, Clear files directories home log)
    (hparents : ∀ log ∈ logs, ∀ parent, log.parent? = some parent → parent ∈ directories)
    (hnodup : (logs.map (·.address home)).Nodup) (hhome : (disk u).home = home)
    (h : Ends (logs.forM fun log => publish log report) u r v) :
    Leaves {q | Clear files directories home q ∧ ∀ log ∈ logs, q.address home ≠ log.address home}
        (disk u) (disk v) ∧
      ∃ told torn, Told logs logs told torn report.line (disk u) (disk v) ∧
        (r = .ok () ∧ told = logs ∨ ∃ fault, r = .error (.disk fault)) := by
  induction logs generalizing u with
  | nil =>
      obtain ⟨rfl, rfl⟩ := Ends.pure_iff.mp h
      exact ⟨.refl _ _, [], none, told_nil (by simp), Or.inl ⟨rfl, rfl⟩⟩
  | cons log logs ih =>
      have hlog := hlogs log List.mem_cons_self
      have hparent := hparents log List.mem_cons_self
      have hlogs' := fun l hl => hlogs l (List.mem_cons_of_mem _ hl)
      obtain ⟨hnew, hnodup'⟩ := List.nodup_cons.mp hnodup
      have hothers : ∀ l ∈ logs, l.address home ≠ log.address home := by
        intro l hl heq
        exact hnew (List.mem_map.mpr ⟨l, hl, heq⟩)
      rcases ends_bind_publish_cases hlog hparent hhome h with
        ⟨u₁, hleaves, hgains, h⟩ | ⟨hleaves, hfault, hlast⟩
      · obtain ⟨hleaves', told, torn, htold, hr⟩ :=
          ih hlogs' (fun l hl => hparents l (List.mem_cons_of_mem _ hl)) hnodup'
            (hleaves.home.trans hhome) h
        have htold := htold.cons hgains
          (hleaves'.spares log ⟨hlog, fun l hl => (hothers l hl).symm⟩)
          fun l hl => hleaves.spares l ⟨hlogs' l hl, hothers l hl⟩
        refine ⟨?_, log :: told, torn, htold, ?_⟩
        · refine (hleaves.mono ?_).trans (hleaves'.mono ?_)
          · exact fun q hq => ⟨hq.1, hq.2 log List.mem_cons_self⟩
          · exact fun q hq => ⟨hq.1, fun l hl => hq.2 l (List.mem_cons_of_mem _ hl)⟩
        · exact hr.imp_left fun ⟨hok, hall⟩ => ⟨hok, congrArg (log :: ·) hall⟩
      · obtain ⟨torn, htold⟩ :=
          told_of_failed (fun l hl => hleaves.spares l ⟨hlogs' l hl, hothers l hl⟩) hlast
        exact ⟨hleaves.mono fun q hq => ⟨hq.1, hq.2 log List.mem_cons_self⟩, [], torn, htold,
          Or.inr hfault⟩

end

end ChangeLog

namespace Pipeline

/-! ## Which files a revision touches -/

def rollingFile (p : Pipeline) : Path :=
  Workspace.rollingFile p.settings.cache

/-- The files that last: the rolling snapshot and the logs. -/
def keptFiles (p : Pipeline) : List Path :=
  p.rollingFile :: p.logs

/-- Where the copy of the snapshot of a revision goes, with its draft. -/
def copyFiles (p : Pipeline) (revision : String) : List Path :=
  p.settings.snapshotDir.toList.flatMap fun dir =>
    [dir.child s!"snapshot_{revision}.json", (dir.child s!"snapshot_{revision}.json").draft]

/-- The files besides that a revision writes in places with names. -/
def sideFiles (p : Pipeline) (revision : String) : List Path :=
  Workspace.lockFile p.settings :: p.rollingFile.draft ::
    (p.settings.workDir.toList.flatMap fun dir =>
      Workspace.files ⟨p.settings.cache, Workspace.lockFile p.settings, dir, false⟩ revision) ++
    p.copyFiles revision

/-- The directories that a revision makes where there are none. -/
def directories (p : Pipeline) : List Path :=
  p.settings.cache ::
    p.settings.workDir.toList ++ p.settings.snapshotDir.toList ++ p.logs.filterMap Path.parent?

/-- The files that last have nothing to do with each other, nor with what else a
revision writes, and the name of the revision is a part of file names. -/
structure Apart (p : Pipeline) (home : Address) (revision : String) : Prop where
  plain : '/' ∉ revision.toList
  distinct : (p.keptFiles.map (·.address home)).Nodup
  clear : ∀ q ∈ p.keptFiles, Clear (p.sideFiles revision) p.directories home q

section

variable {p : Pipeline} {home : Address} {revision : String} {w : Workspace}

theorem Apart.ne_rolling (h : p.Apart home revision) {log : Path} (hlog : log ∈ p.logs) :
    log.address home ≠ p.rollingFile.address home := by
  obtain ⟨hdistinct, _⟩ := List.nodup_cons.mp h.distinct
  exact fun heq => hdistinct (List.mem_map.mpr ⟨log, hlog, heq⟩)

theorem Apart.clear_rolling (h : p.Apart home revision) :
    Clear (p.sideFiles revision) p.directories home p.rollingFile :=
  h.clear _ List.mem_cons_self

theorem Apart.clear_log (h : p.Apart home revision) {log : Path} (hlog : log ∈ p.logs) :
    Clear (p.sideFiles revision) p.directories home log :=
  h.clear _ (List.mem_cons_of_mem _ hlog)

theorem cache_mem_directories (p : Pipeline) : p.settings.cache ∈ p.directories := by
  simp [directories]

theorem mem_directories_of_workDir {dir : Path} (h : p.settings.workDir = some dir) :
    dir ∈ p.directories := by
  simp [directories, h]

theorem mem_directories_of_snapshotDir {dir : Path} (h : p.settings.snapshotDir = some dir) :
    dir ∈ p.directories := by
  simp [directories, h]

theorem mem_directories_of_log {log parent : Path} (hlog : log ∈ p.logs)
    (h : log.parent? = some parent) : parent ∈ p.directories := by
  have hparent : parent ∈ p.logs.filterMap Path.parent? := List.mem_filterMap.mpr ⟨log, hlog, h⟩
  simp [directories, hparent]

theorem isName_copy (h : '/' ∉ revision.toList) : Path.IsName s!"snapshot_{revision}.json" :=
  Path.isName_around (c := 's') rfl (by decide) (by decide) h (by decide)

/-- What has nothing to do with the places that have names has nothing to do with
the scratch files either, wherever they are. -/
theorem clear_of_isOf (hw : w.IsOf p.settings) (hplain : '/' ∉ revision.toList) {q : Path}
    (hq : Clear (p.sideFiles revision) p.directories home q) :
    Clear (w.files revision ++ p.sideFiles revision) (w.scratch :: p.directories) home q := by
  rcases hw.scratch with ⟨hdir, -⟩ | ⟨-, -, n, hscratch⟩
  · refine hq.mono ?_ ?_
    · intro f hf
      rcases List.mem_append.mp hf with hf | hf
      · have hmem : f ∈ p.settings.workDir.toList.flatMap fun dir => Workspace.files
            ⟨p.settings.cache, Workspace.lockFile p.settings, dir, false⟩ revision := by
          rw [hdir]
          exact List.mem_flatMap.mpr ⟨w.scratch, List.mem_cons_self, hf⟩
        simp [sideFiles, hmem]
      · exact hf
    · intro dir hmem
      rcases List.mem_cons.mp hmem with rfl | hmem
      · exact mem_directories_of_workDir hdir
      · exact hmem
  · refine ⟨fun f hf => ?_, fun dir hmem b hb => ?_, hq.lasting⟩
    · rcases List.mem_append.mp hf with hf | hf
      · obtain ⟨name, hname⟩ := Workspace.address_of_mem_files hplain home hf
        rw [hname, hscratch, address_scratchPath]
        intro heq
        exact hq.lasting.address ⟨n, heq ▸ List.prefix_append _ _⟩
      · exact hq.file f hf
    · rcases List.mem_cons.mp hmem with rfl | hmem
      · rw [hscratch] at hb
        intro heq
        have hplaced : b.address home = scratchAddress n ∨ b.address home <+: scratchHome :=
          Workspace.address_of_mem_ancestors_scratchPath hb
        rcases hplaced with hb | hb
        · exact hq.lasting.address ⟨n, (heq.trans hb) ▸ List.prefix_rfl⟩
        · exact hq.lasting.above (heq ▸ hb)
      · exact hq.directory dir hmem b hb

end

/-! ## What follows the renewal -/

/-- What is reported of a revision. -/
def report (c : Commit) (changes : ChangeSet) : Report :=
  ⟨c.revision, c.author, c.description, changes⟩

/-- The logs that a report is due for, given what the rolling snapshot was. -/
def due (p : Pipeline) (before : Option Snapshot) : List Path :=
  if before.isSome then p.logs else []

section

variable [MonadDisk (StateM σ)] [FallibleDisk σ] {p : Pipeline} {w : Workspace} {c : Commit}
  {database : Path} {diff : String} {home : Address} {u v : σ}

theorem works_keepCopy {s : Snapshot} {revision : String} (hplain : '/' ∉ revision.toList)
    (hrevision : s.revision = revision) :
    Works (above home p.directories) {f | f ∈ p.sideFiles revision}
      (p.keepCopy s : ExceptT Failure (StateM σ) Unit) := by
  rw [keepCopy]
  cases hdir : p.settings.snapshotDir with
  | none => exact .pure _
  | some dir =>
      have hcopy : ∀ f ∈ [dir.child s!"snapshot_{revision}.json",
          (dir.child s!"snapshot_{revision}.json").draft], f ∈ p.sideFiles revision := by
        intro f hf
        have hmem : f ∈ p.copyFiles revision := by
          rw [copyFiles, hdir]
          exact List.mem_flatMap.mpr ⟨dir, List.mem_cons_self, hf⟩
        simp [sideFiles, hmem]
      rw [← hrevision] at hcopy hplain ⊢
      refine works_replaceText (σ := σ) (fun _ hparent _ hq => ?_) (hcopy _ List.mem_cons_self)
        (hcopy _ (List.mem_cons_of_mem _ List.mem_cons_self))
      exact mem_above_of_child (mem_directories_of_snapshotDir hdir) (isName_copy hplain) hparent hq

/-- The logs get the report, and nothing else that lasts is changed. -/
theorem ends_conclude_cases {before : Option Snapshot} {outcome : Merge.Outcome}
    {r : Except Failure Unit} (hapart : p.Apart home c.revision)
    (hrevision : outcome.snapshot.revision = c.revision) (hhome : (disk u).home = home)
    (h : Ends (p.conclude c before outcome) u r v) :
    Leaves {q | Clear (p.sideFiles c.revision) p.directories home q ∧
        ∀ log ∈ p.logs, q.address home ≠ log.address home} (disk u) (disk v) ∧
      ∃ told torn, ChangeLog.Told p.logs (p.due before) told torn (report c outcome.changes).line
          (disk u) (disk v) ∧
        (r = .ok () ∧ told = p.due before ∨ ∃ fault, r = .error (.disk fault)) := by
  have hcopy : Works (above home p.directories) {f | f ∈ p.sideFiles c.revision}
      (p.keepCopy outcome.snapshot) := works_keepCopy (σ := σ) hapart.plain hrevision
  rcases hcopy.ends_bind_cases hhome h with ⟨_, u₁, _, hleaves, hrest⟩ | ⟨hleaves, hfault⟩
  · have hspared : ∀ log ∈ p.logs, Spares log (disk u) (disk u₁) :=
      fun log hlog => hleaves.spares log (hapart.clear_log hlog)
    cases before with
    | none =>
        obtain ⟨rfl, rfl⟩ := Ends.pure_iff.mp hrest
        exact ⟨hleaves.mono fun q hq => hq.1, [], none, ChangeLog.told_nil hspared,
          Or.inl ⟨rfl, rfl⟩⟩
    | some before =>
        obtain ⟨hleaves', told, torn, htold, hr⟩ := ChangeLog.ends_forM_publish_cases
          (fun log hlog => hapart.clear_log hlog)
          (fun log hlog _ hparent => mem_directories_of_log hlog hparent)
          (List.nodup_cons.mp hapart.distinct).2 (hleaves.home.trans hhome) hrest
        exact ⟨(hleaves.mono fun q hq => hq.1).trans hleaves', told, torn,
          htold.of_spares_left (fun _ h => h) hspared, hr⟩
  · exact ⟨hleaves.mono fun q hq => hq.1, [], none,
      ChangeLog.told_nil fun log hlog => hleaves.spares log (hapart.clear_log hlog),
      Or.inr hfault⟩

end

/-! ## Updates -/

/-- What a revision leaves alone unless it renews the rolling snapshot. -/
def lasting (p : Pipeline) (home : Address) (revision : String) : Set Path :=
  {q | Clear (p.sideFiles revision) p.directories home q}

/-- The rolling snapshot is renewed, and what follows ends like that. -/
def Concludes [MonadDisk (StateM σ)] (p : Pipeline) (database : Path) (c : Commit) (diff : String)
    (u : σ) (before : Option Snapshot) (outcome : Merge.Outcome) (r : Except Failure Unit) :
    Prop :=
  ∃ w u₁ u₂ u₃, Ends (Workspace.enter p.settings) u (.ok w) u₁ ∧
    Ends (renew w database c.revision diff) u₁ (.ok (before, outcome)) u₂ ∧
    Ends (p.conclude c before outcome) u₂ r u₃

/-- How an update can end. -/
inductive Updates [MonadDisk (StateM σ)] [FallibleDisk σ] (p : Pipeline) (database : Path)
    (c : Commit) (diff : String) (u v : σ) : Except Failure Summary → Prop where
  | locked : Leaves (p.lasting (disk u).home c.revision) (disk u) (disk v) →
      Updates p database c diff u v (.error (.locked (Workspace.lockFile p.settings)))
  | refused {why : Failure} :
      Renews (p.lasting (disk u).home c.revision) p.rollingFile database c.revision diff u
        (.error why) →
      Leaves (p.lasting (disk u).home c.revision) (disk u) (disk v) →
      Updates p database c diff u v (.error why)
  | renewed {before : Option Snapshot} {outcome : Merge.Outcome} {told : List Path}
      {torn : Option Path} {r : Except Failure Unit} :
      Renews (p.lasting (disk u).home c.revision) p.rollingFile database c.revision diff u
        (.ok (before, outcome)) →
      Concludes p database c diff u before outcome r →
      (disk v).readText p.rollingFile = .ok outcome.snapshot.toJson →
      ChangeLog.Told p.logs (p.due before) told torn (report c outcome.changes).line (disk u)
        (disk v) →
      (r = .ok () ∧ told = p.due before ∨ ∃ fault, r = .error (.disk fault)) →
      Updates p database c diff u v (r.map fun _ => ⟨c.revision, before.isNone, outcome⟩)

section

variable [MonadDisk (StateM σ)] [FallibleDisk σ] {p : Pipeline} {c : Commit} {database : Path}
  {diff : String} {kept : Set Path} {u v : σ}

/-- The work is done in a workspace of the pipeline, unless there is none to be had. -/
theorem ends_within_lasting_cases {α : Type} {work : Workspace → ExceptT Failure (StateM σ) α}
    {r : Except Failure α} (revision : String) (h : Ends (Workspace.within p.settings work) u r v) :
    (Leaves (p.lasting (disk u).home revision) (disk u) (disk v) ∧
        ((∃ fault, r = .error (.disk fault)) ∨
          r = .error (.locked (Workspace.lockFile p.settings)))) ∨
      ∃ w u₁ u₂, w.IsOf p.settings ∧ Ends (Workspace.enter p.settings) u (.ok w) u₁ ∧
        Leaves (p.lasting (disk u).home revision) (disk u) (disk u₁) ∧ Ends (work w) u₁ r u₂ ∧
          Ends w.leave u₂ (.ok ()) v := by
  have hlock : Workspace.lockFile p.settings ∈ p.sideFiles revision := List.mem_cons_self
  have henters : ∀ {r' v'}, Ends (Workspace.enter p.settings) u r' v' → _ :=
    Workspace.ends_enter_cases hlock p.cache_mem_directories
      (fun _ hdir => mem_directories_of_workDir hdir) rfl
  rcases Workspace.ends_within_cases h with ⟨why, henter, rfl⟩ | ⟨w, u₁, u₂, henter, hwork, hleave⟩
  · obtain ⟨hleaves, ⟨_, himpossible, _⟩ | ⟨fault, hfault⟩ | hlocked⟩ := henters henter
    · cases himpossible
    · cases hfault
      exact Or.inl ⟨hleaves, Or.inl ⟨fault, rfl⟩⟩
    · cases hlocked
      exact Or.inl ⟨hleaves, Or.inr rfl⟩
  · obtain ⟨hleaves, ⟨_, hw, hof⟩ | ⟨_, himpossible⟩ | himpossible⟩ := henters henter
    · cases hw
      exact Or.inr ⟨w, u₁, u₂, hof, henter, hleaves, hwork, hleave⟩
    · cases himpossible
    · cases himpossible

theorem Opens.sized {opened : Except Store.Fault Store.Database}
    (hopens : Opens kept database u opened)
    (hsized : ∀ db, HoldsDatabase (disk u) db → db.Sized) (db : Store.Database)
    (h : opened = .ok db) : db.Sized := by
  obtain ⟨u₁, u₂, hleaves, hopened⟩ := hopens
  rcases holdsDatabase_of_openDatabase ((FallibleDisk.openDatabase hopened).2 db h) with
    rfl | hholds
  · exact Store.Database.sized_void
  · exact hsized db (hleaves.databases db hholds)

theorem Renews.revision_eq {rolling : Path} {revision : String} {before : Option Snapshot}
    {outcome : Merge.Outcome} (hsized : ∀ db, HoldsDatabase (disk u) db → db.Sized)
    (h : Renews kept rolling database revision diff u (.ok (before, outcome))) :
    outcome.snapshot.revision = revision := by
  cases h with
  | absorbed hopens hstaged hfinds hr =>
      have hdb := hopens.sized hsized
      rw [staged_eq_assembled hdb] at hstaged
      rw [revision_of_advance (absorbed_eq_ok_iff.mp hr.symm).2,
        (spec_of_assembled hstaged).2]

/-- In a workspace of the pipeline, wherever its scratch files are, only what does
not last is touched until the rolling snapshot is replaced. -/
theorem ends_renew_within_cases {w : Workspace} {home : Address} {revision : String}
    {r : Except Failure (Option Snapshot × Merge.Outcome)} (hplain : '/' ∉ revision.toList)
    (hof : w.IsOf p.settings) (hhome : (disk u).home = home)
    (h : Ends (renew w database revision diff) u r v) :
    Replaces (p.lasting home revision) p.rollingFile (disk u) (disk v) r ∧
      Renews (p.lasting home revision) p.rollingFile database revision diff u r := by
  have hrolling : Workspace.rollingFile w.cache = p.rollingFile := by rw [hof.cache, rollingFile]
  have hdraft : p.rollingFile.draft ∈ w.files revision ++ p.sideFiles revision :=
    List.mem_append_right _ (List.mem_cons_of_mem _ List.mem_cons_self)
  have hcache : w.cache ∈ w.scratch :: p.directories :=
    List.mem_cons_of_mem _ (hof.cache ▸ p.cache_mem_directories)
  have hclear : p.lasting home revision ⊆ {q | Clear (w.files revision ++ p.sideFiles revision)
      (w.scratch :: p.directories) home q} := fun q hq => clear_of_isOf hof hplain hq
  obtain ⟨hreplaces, hrenews⟩ := ends_renew_cases hplain (fun f hf => List.mem_append_left _ hf)
    (hrolling ▸ hdraft) List.mem_cons_self hcache hhome h
  rw [hrolling] at hreplaces hrenews
  exact ⟨hreplaces.mono hclear, hrenews.mono hclear⟩

theorem updates_of_work {w : Workspace} {u₁ u₂ : σ} {r : Except Failure Summary}
    (hapart : p.Apart (disk u).home c.revision)
    (hsized : ∀ db, HoldsDatabase (disk u) db → db.Sized) (hof : w.IsOf p.settings)
    (henter : Ends (Workspace.enter p.settings) u (.ok w) u₁)
    (hleaves : Leaves (p.lasting (disk u).home c.revision) (disk u) (disk u₁))
    (hwork : Ends (do
      let (before, outcome) ← renew w database c.revision diff
      p.conclude c before outcome
      return ⟨c.revision, before.isNone, outcome⟩) u₁ r u₂)
    (hleave : Ends w.leave u₂ (.ok ()) v) : Updates p database c diff u v r := by
  have hlock : Workspace.lockFile p.settings ∈ p.sideFiles c.revision := List.mem_cons_self
  rcases Ends.bind_iff.mp hwork with ⟨⟨before, outcome⟩, u₃, hrenewed, hrest⟩ | ⟨why, hrenewed, rfl⟩
  · obtain ⟨hreplaces, hrenews⟩ := ends_renew_within_cases hapart.plain hof hleaves.home hrenewed
    have hrenews := hrenews.of_leaves hleaves
    have hhome₃ := hreplaces.others.home.trans hleaves.home
    obtain ⟨concluded, hconclude, rfl⟩ := Ends.bind_pure_iff.mp hrest
    obtain ⟨hconcludes, told, torn, htold, hr⟩ :=
      ends_conclude_cases hapart (hrenews.revision_eq hsized) hhome₃ hconclude
    have hleft : Leaves (p.lasting (disk u).home c.revision) (disk u₂) (disk v) :=
      Workspace.leaves_of_leave hof hlock (hconcludes.home.trans hhome₃) hleave
    have hread : (disk v).readText p.rollingFile = .ok outcome.snapshot.toJson := by
      refine (hleft.spares _ hapart.clear_rolling).readText ((hconcludes.spares _
        ⟨hapart.clear_rolling, ?_⟩).readText (hreplaces.replaced _ _ rfl))
      exact fun log hlog => (hapart.ne_rolling hlog).symm
    have hbefore : ∀ log ∈ p.logs, Spares log (disk u) (disk u₃) := by
      intro log hlog
      refine (hleaves.spares log (hapart.clear_log hlog)).trans (hreplaces.others.spares log ?_)
      exact ⟨hapart.clear_log hlog, by rw [hleaves.home]; exact hapart.ne_rolling hlog⟩
    have hdue : ∀ log ∈ p.due before, log ∈ p.logs := by
      cases before with
      | none => simp [due]
      | some before => exact fun _ h => h
    have htold := (htold.of_spares_left hdue hbefore).of_spares_right hdue
      fun log hlog => hleft.spares log (hapart.clear_log hlog)
    exact .renewed hrenews ⟨w, u₁, u₃, u₂, henter, hrenewed, hconclude⟩ hread htold hr
  · obtain ⟨hreplaces, hrenews⟩ := ends_renew_within_cases hapart.plain hof hleaves.home hrenewed
    have hrenewal := hleaves.trans (hreplaces.failed why rfl)
    exact .refused (hrenews.of_leaves hleaves)
      (hrenewal.trans (Workspace.leaves_of_leave hof hlock hrenewal.home hleave))

theorem ends_update_cases {r : Except Failure Summary}
    (hapart : p.Apart (disk u).home c.revision)
    (hsized : ∀ db, HoldsDatabase (disk u) db → db.Sized)
    (h : Ends (p.update database c diff) u r v) : Updates p database c diff u v r := by
  rcases ends_within_lasting_cases c.revision h with
    ⟨hleaves, ⟨fault, rfl⟩ | rfl⟩ | ⟨w, u₁, u₂, hof, henter, hleaves, hwork, hleave⟩
  · exact .refused (.failed fault) hleaves
  · exact .locked hleaves
  · exact updates_of_work hapart hsized hof henter hleaves hwork hleave

end

/-! ## A pipeline for the sample disk -/

def samplePipeline (log : Path) : Pipeline :=
  .reporting ⟨some ⟨"cache"⟩, some ⟨"work"⟩, none, some log⟩

theorem ends_enter_sample (log : Path) : Ends (Workspace.enter (samplePipeline log).settings)
    (sampleDisk false Merge.builtBefore []) (.ok sampleWorkspace)
    (sampleDisk true Merge.builtBefore []) := by
  show Ends (Workspace.enter (samplePipeline ⟨"log"⟩).settings) _ _ _
  decide +kernel

theorem sized_of_mem_sampleStart {a : Address} {db : Store.Database} {isLocked : Bool}
    (h : (a, .file ⟨.database db, isLocked⟩) ∈ sampleStart.entries) : db.Sized := by
  obtain ⟨-, rfl, -⟩ | ⟨-, rfl, -⟩ :
      (a = ["home", "full"] ∧ db = .ofTables Merge.editTables ∧ isLocked = false) ∨
        a = ["home", "part"] ∧
          db = .ofTables (Merge.editedTables.within Merge.editPatch.paths) ∧ isLocked = false := by
    simpa [sampleStart] using h
  all_goals
    intro t rows hrows
    cases t <;> cases hrows <;> decide +kernel

theorem sized_sample {isLocked : Bool} {rolling : Snapshot} {db : Store.Database}
    (h : HoldsDatabase (sampleDisk isLocked rolling []) db) : db.Sized := by
  obtain ⟨a, locked, hmem⟩ := mem_of_holdsDatabase h
  have hstart : (a, .file ⟨.database db, locked⟩) ∈ sampleStart.entries := by
    simpa [sampleDisk, sampleEntered] using hmem
  exact sized_of_mem_sampleStart hstart

end Pipeline

end CallAtlas
