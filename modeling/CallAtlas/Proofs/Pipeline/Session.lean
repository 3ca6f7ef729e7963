import CallAtlas.Proofs.Pipeline.Preparation

/-!
# Sessions

A pipeline does on a disk what a machine does without one whose state is the
rolling snapshot and the reports so far. This holds for any calls in any order as
long as the disk does what it is asked, and whatever else happens on the disk between
two calls, if only it leaves alone what lasts.
-/

namespace CallAtlas.Pipeline

open Disk FallibleDisk

/-! ## The machine -/

inductive Call where
  | prepare (database : Path) (revision : String)
  | update (database : Path) (c : Commit) (diff : String)
deriving DecidableEq, Repr

inductive Answer where
  | prepared (s : Snapshot)
  | updated (summary : Summary)
deriving DecidableEq, Repr

namespace Call

def database : Call → Path
  | prepare database _ => database
  | update database _ _ => database

def revision : Call → String
  | prepare _ revision => revision
  | update _ c _ => c.revision

def program {m : Type → Type} [Monad m] [MonadDisk m] (p : Pipeline) :
    Call → ExceptT Failure m Answer
  | prepare database revision => .prepared <$> p.prepare database revision
  | update database c diff => .updated <$> p.update database c diff

end Call

structure Machine where
  rolling : Option Snapshot
  /-- The oldest first. -/
  reports : List Report
deriving DecidableEq, Repr

namespace Machine

def start : Machine :=
  ⟨none, []⟩

def prepared (m : Machine) (s : Snapshot) : Machine :=
  { m with rolling := some s }

/-- The first revision is reported to nobody. -/
def updated (m : Machine) (c : Commit) (outcome : Merge.Outcome) : Machine :=
  ⟨some outcome.snapshot,
    if m.rolling.isSome then m.reports ++ [report c outcome.changes] else m.reports⟩

/-- What the machine answers and what becomes of it, given what was opened as the
database of the call. -/
def step (m : Machine) (opened : Except Store.Fault Store.Database) :
    Call → Except Failure (Answer × Machine)
  | .prepare _ revision =>
      (fun s => (.prepared s, m.prepared s)) <$> Extraction.assembled opened revision
  | .update _ c diff =>
      (fun outcome => (.updated ⟨c.revision, m.rolling.isNone, outcome⟩, m.updated c outcome)) <$>
        (Extraction.assembled opened c.revision >>= (Rolling.advance m.rolling · diff))

/-- A call that fails leaves the machine as it is. -/
def next (m : Machine) (opened : Except Store.Fault Store.Database) (call : Call) : Machine :=
  match m.step opened call with
  | .ok (_, m') => m'
  | .error _ => m

/-- The number of a file is one of 64 bits. -/
def Sized (m : Machine) : Prop :=
  ∀ s, m.rolling = some s → ∀ r ∈ s.records, r.file < 0x10000000000000000

section

variable {m : Machine} {opened : Except Store.Fault Store.Database} {database : Path}

theorem step_prepare {revision : String} {s : Snapshot}
    (h : Extraction.assembled opened revision = .ok s) :
    m.step opened (.prepare database revision) = .ok (.prepared s, m.prepared s) := by
  rw [step, h]
  rfl

theorem step_update {c : Commit} {diff : String} {after : Snapshot} {outcome : Merge.Outcome}
    (hassembled : Extraction.assembled opened c.revision = .ok after)
    (hadvance : Rolling.advance m.rolling after diff = .ok outcome) :
    m.step opened (.update database c diff) =
      .ok (.updated ⟨c.revision, m.rolling.isNone, outcome⟩, m.updated c outcome) := by
  rw [step]
  exact map_eq_ok_iff.mpr
    ⟨outcome, bind_eq_ok_iff.mpr ⟨after, hassembled, hadvance⟩, rfl⟩

theorem next_of_step {call : Call} {answer : Answer} {m' : Machine}
    (h : m.step opened call = .ok (answer, m')) : m.next opened call = m' := by
  rw [next, h]

end

end Machine

/-! ## The disk behind a machine -/

/-- A disk has what the machine has. -/
structure Reflects (p : Pipeline) (d : Disk) (m : Machine) : Prop where
  rolling : Holds d p.rollingFile (m.rolling.map Snapshot.toJson)
  logs : ∀ log ∈ p.logs, ∃ content, Holds d log content ∧
    content.getD "" = ChangeLog.textOf m.reports
  wellFormed : ∀ s, m.rolling = some s → s.WellFormed
  sized : m.Sized
  ordered : ∀ r ∈ m.reports, r.changes.Ordered

namespace Reflects

variable {p : Pipeline} {d e : Disk} {m : Machine}

theorem of_spares (h : Reflects p d m) (hspares : ∀ q ∈ p.keptFiles, Spares q d e) :
    Reflects p e m := by
  refine ⟨(hspares _ List.mem_cons_self).holds h.rolling, fun log hlog => ?_, h.wellFormed,
    h.sized, h.ordered⟩
  exact ChangeLog.Records.of_spares (h.logs log hlog) (hspares log (List.mem_cons_of_mem _ hlog))

theorem loaded (h : Reflects p d m) :
    Snapshot.loaded (m.rolling.map Snapshot.toJson) = .ok m.rolling := by
  cases hrolling : m.rolling with
  | none => rfl
  | some s => exact (h.wellFormed s hrolling).loaded_toJson (h.sized s hrolling)

theorem ends_rolling? (h : Reflects p d m) : Ends p.rolling? d (.ok m.rolling) d := by
  have hends := Snapshot.ends_load?_of_readText? (ends_readText?_of_holds h.rolling)
  rwa [h.loaded] at hends

theorem ends_load (h : Reflects p d m) {log : Path} (hlog : log ∈ p.logs) :
    Ends (ChangeLog.load log) d (.ok m.reports) d :=
  ChangeLog.Records.ends_load (h.logs log hlog) h.ordered

end Reflects

/-! ## One call -/

/-- The call can be made: what the pipeline keeps is apart from what the revision
writes, and so is the database, which is there or is not. -/
structure Call.Fits (call : Call) (p : Pipeline) (d : Disk) : Prop where
  apart : p.Apart d.home call.revision
  database : Store.Database.isTransient call.database.text ∨
    call.database ∈ p.lasting d.home call.revision ∧
      (d.has call.database = true ∨ d.entryAt? (call.database.address d.home) = none)
  sized : ∀ db, HoldsDatabase d db → db.Sized

/-- Nothing has failed that the disk was asked for, and nobody else was at work. -/
def Undisturbed {α : Type} (r : Except Failure α) : Prop :=
  (∀ fault, r ≠ .error (.disk fault)) ∧ ∀ lock, r ≠ .error (.locked lock)

theorem Undisturbed.of_map {α β : Type} {r : Except Failure α} {f : α → β}
    (h : Undisturbed (r.map f)) : Undisturbed r := by
  refine ⟨fun fault hr => h.1 fault ?_, fun lock hr => h.2 lock ?_⟩
  · rw [hr]
    rfl
  · rw [hr]
    rfl

/-- The database is opened in a call as it would have been opened before. -/
theorem Call.Fits.eq_openDatabase {call : Call} {p : Pipeline} {d : Disk}
    {opened : Except Store.Fault Store.Database} (h : call.Fits p d)
    (hopens : Opens (p.lasting d.home call.revision) call.database d opened) :
    opened = d.openDatabase call.database := by
  obtain ⟨d₁, d₂, hleaves, hopened⟩ := hopens
  have hopened : opened = d₁.openDatabase call.database := by
    cases hopened
    rfl
  rw [hopened]
  rcases h.database with htransient | ⟨hlasting, hfound⟩
  · rw [Disk.openDatabase, Disk.openDatabase, if_pos htransient, if_pos htransient]
  · exact openDatabase_of_spares (hleaves.spares _ hlasting) hfound

section

variable {σ : Type} [MonadDisk (StateM σ)] [FallibleDisk σ] {kept : Set Path}
  {rolling database : Path} {revision diff : String} {u v : σ}

/-- Where the disk does not fail a renewal comes to what can be said without one. -/
theorem Renews.eq_of_holds {before : Option Snapshot} {content : Option String}
    {r : Except Failure (Option Snapshot × Merge.Outcome)} (hr : ∀ fault, r ≠ .error (.disk fault))
    (hsized : ∀ db, HoldsDatabase (disk u) db → db.Sized) (hrolling : rolling ∈ kept)
    (hholds : Holds (disk u) rolling content) (hloaded : Snapshot.loaded content = .ok before)
    (h : Renews kept rolling database revision diff u r) :
    ∃ opened, Opens kept database u opened ∧
      r = (before, ·) <$>
        (Extraction.assembled opened revision >>= (Rolling.advance before · diff)) := by
  cases h with
  | failed fault => exact absurd rfl (hr fault)
  | @unstaged opened why hopens hstaged =>
      refine ⟨opened, hopens, ?_⟩
      rw [← staged_eq_assembled (hopens.sized hsized), hstaged]
      rfl
  | @absorbed opened after found _ hopens hstaged hfinds habsorbed =>
      obtain ⟨u₁, hleaves, hshows⟩ := hfinds
      have hfound := hshows.eq_of_holds ((hleaves.spares _ hrolling).holds hholds)
      refine ⟨opened, hopens, ?_⟩
      rw [habsorbed, ← staged_eq_assembled (hopens.sized hsized), hstaged, Pipeline.absorbed,
        hfound, hloaded]
      rfl

end

theorem ordered_of_advance {before : Option Snapshot} {after : Snapshot} {diff : String}
    {outcome : Merge.Outcome} (h : Rolling.advance before after diff = .ok outcome) :
    outcome.changes.Ordered := by
  cases before with
  | none =>
      cases h
      exact ChangeSet.ordered_empty
  | some before =>
      obtain ⟨patch, _, hmerge⟩ := Rolling.advance_some_eq_ok_iff.mp h
      rw [(Merge.alongPatch_eq_ok_iff.mp hmerge).2.1]
      exact ChangeSet.ordered_ofPatch before after patch

section

variable {p : Pipeline} {d e : Disk} {m : Machine}

/-- A call is answered as the machine answers it, and the disk has then what the
machine has. -/
structure Follows (p : Pipeline) (d e : Disk) (m : Machine) (call : Call)
    (r : Except Failure Answer) : Prop where
  answer : r = (m.step (d.openDatabase call.database) call).map (·.1)
  reflects : (m.next (d.openDatabase call.database) call).Sized →
    Reflects p e (m.next (d.openDatabase call.database) call)

theorem follows_of_error {call : Call} {why : Failure} (h : Reflects p d m)
    (hstep : m.step (d.openDatabase call.database) call = .error why)
    (hspares : ∀ q ∈ p.keptFiles, Spares q d e) : Follows p d e m call (.error why) := by
  refine ⟨by rw [hstep]; rfl, fun _ => ?_⟩
  rw [Machine.next, hstep]
  exact h.of_spares hspares

theorem follows_of_ok {call : Call} {answer : Answer} {m' : Machine}
    (hstep : m.step (d.openDatabase call.database) call = .ok (answer, m'))
    (h : m'.Sized → Reflects p e m') : Follows p d e m call (.ok answer) := by
  refine ⟨by rw [hstep]; rfl, ?_⟩
  rw [Machine.next, hstep]
  exact h

theorem Reflects.prepared {s : Snapshot} (h : Reflects p d m) (hwellFormed : s.WellFormed)
    (hrolling : e.readText p.rollingFile = .ok s.toJson)
    (hlogs : ∀ log ∈ p.logs, Spares log d e) (hsized : (m.prepared s).Sized) :
    Reflects p e (m.prepared s) := by
  refine ⟨hrolling, fun log hlog => ?_, ?_, hsized, h.ordered⟩
  · exact ChangeLog.Records.of_spares (h.logs log hlog) (hlogs log hlog)
  · rintro _ ⟨⟩
    exact hwellFormed

theorem Reflects.updated {c : Commit} {outcome : Merge.Outcome} (h : Reflects p d m)
    (hwellFormed : outcome.snapshot.WellFormed) (hordered : outcome.changes.Ordered)
    (hrolling : e.readText p.rollingFile = .ok outcome.snapshot.toJson)
    (htold : ChangeLog.Told p.logs (p.due m.rolling) (p.due m.rolling) none
      (report c outcome.changes).line d e)
    (hsized : (m.updated c outcome).Sized) : Reflects p e (m.updated c outcome) := by
  refine ⟨hrolling, fun log hlog => ?_, ?_, hsized, fun r hr => ?_⟩
  · have hrecords : ChangeLog.Records d log m.reports := h.logs log hlog
    show ChangeLog.Records e log (m.updated c outcome).reports
    rw [Machine.updated]
    cases hbefore : m.rolling with
    | none =>
        exact hrecords.of_spares (htold.others log hlog (by simp [due, hbefore]) (by simp))
    | some before => exact hrecords.of_gains (htold.gained log (by rwa [due, hbefore]))
  · rintro _ ⟨⟩
    exact hwellFormed
  · rw [Machine.updated] at hr
    dsimp only at hr
    split at hr
    · rcases List.mem_append.mp hr with hr | hr
      · exact h.ordered r hr
      · rw [List.mem_singleton.mp hr]
        exact hordered
    · exact h.ordered r hr

theorem follows_of_prepare {database : Path} {revision : String} {r : Except Failure Snapshot}
    (h : Reflects p d m) (hfits : (Call.prepare database revision).Fits p d)
    (hends : Ends (p.prepare database revision) d r e) (hr : Undisturbed r) :
    Follows p d e m (.prepare database revision) (r.map .prepared) := by
  cases ends_prepare_cases hfits.apart hends with
  | locked => exact absurd rfl (hr.2 _)
  | failed fault => exact absurd rfl (hr.1 fault)
  | @refused opened why hopens hassembled hleaves =>
      obtain rfl : opened = d.openDatabase database := hfits.eq_openDatabase hopens
      have hstep : m.step (d.openDatabase database) (.prepare database revision) = .error why := by
        rw [Machine.step]
        exact map_eq_error_iff.mpr hassembled
      exact follows_of_error h hstep fun q hq => hleaves.spares q (hfits.apart.clear q hq)
  | @prepared opened s hopens hassembled hread hspares =>
      obtain rfl : opened = d.openDatabase database := hfits.eq_openDatabase hopens
      exact follows_of_ok (Machine.step_prepare hassembled)
        (h.prepared (spec_of_assembled hassembled).1 hread hspares)

theorem Reflects.eq_of_renews {database : Path} {c : Commit} {diff : String}
    {r : Except Failure (Option Snapshot × Merge.Outcome)} (h : Reflects p d m)
    (hfits : (Call.update database c diff).Fits p d) (hr : ∀ fault, r ≠ .error (.disk fault))
    (hrenews : Renews (p.lasting d.home c.revision) p.rollingFile database c.revision diff d r) :
    r = (m.rolling, ·) <$> (Extraction.assembled (d.openDatabase database) c.revision >>=
      (Rolling.advance m.rolling · diff)) := by
  have hholds : Holds (disk d) p.rollingFile (m.rolling.map Snapshot.toJson) := h.rolling
  obtain ⟨opened, hopens, hrenewed⟩ :=
    hrenews.eq_of_holds hr hfits.sized hfits.apart.clear_rolling hholds h.loaded
  obtain rfl : opened = d.openDatabase database := hfits.eq_openDatabase hopens
  exact hrenewed

theorem follows_of_update {database : Path} {c : Commit} {diff : String}
    {r : Except Failure Summary} (h : Reflects p d m)
    (hfits : (Call.update database c diff).Fits p d)
    (hends : Ends (p.update database c diff) d r e) (hr : Undisturbed r) :
    Follows p d e m (.update database c diff) (r.map .updated) := by
  cases ends_update_cases hfits.apart hfits.sized hends with
  | locked => exact absurd rfl (hr.2 _)
  | @refused why hrenews hleaves =>
      have hrenewed := h.eq_of_renews hfits (by rintro fault ⟨⟩; exact hr.1 fault rfl) hrenews
      have hstep : m.step (d.openDatabase database) (.update database c diff) = .error why := by
        rw [Machine.step]
        exact map_eq_error_iff.mpr (map_eq_error_iff.mp hrenewed.symm)
      exact follows_of_error h hstep fun q hq => hleaves.spares q (hfits.apart.clear q hq)
  | @renewed before outcome told torn concluded hrenews _ hread htold hlast =>
      have hrenewed :=
        h.eq_of_renews hfits (fun _ himpossible => by cases himpossible) hrenews
      obtain ⟨_, hadvanced, hpair⟩ := map_eq_ok_iff.mp hrenewed.symm
      cases hpair
      obtain ⟨after, hassembled, hadvance⟩ := bind_eq_ok_iff.mp hadvanced
      rcases hlast with ⟨rfl, rfl⟩ | ⟨fault, rfl⟩
      · obtain rfl := htold.torn_eq_none
        exact follows_of_ok (Machine.step_update hassembled hadvance) (h.updated
          (Rolling.wellFormed_of_advance (spec_of_assembled hassembled).1 hadvance)
          (ordered_of_advance hadvance) hread htold)
      · exact absurd rfl (hr.1 fault)

theorem follows_of_call {call : Call} {r : Except Failure Answer} (h : Reflects p d m)
    (hfits : call.Fits p d) (hends : Ends (call.program p) d r e) (hr : Undisturbed r) :
    Follows p d e m call r := by
  cases call with
  | prepare database revision =>
      obtain ⟨q, hq, rfl⟩ := Ends.map_iff.mp hends
      exact follows_of_prepare h hfits hq hr.of_map
  | update database c diff =>
      obtain ⟨q, hq, rfl⟩ := Ends.map_iff.mp hends
      exact follows_of_update h hfits hq hr.of_map

end

/-! ## Sessions -/

/-- What a pipeline has come to on a disk, and what the machine has. Nothing lasts
from before the first call, and between two calls the disk may change, though not
where the pipeline keeps what lasts. -/
inductive Session (p : Pipeline) : Disk → Machine → Prop where
  | start {d : Disk} : Holds d p.rollingFile none →
      (∀ log ∈ p.logs, Holds d log none ∨ Holds d log (some "")) → Session p d .start
  | meanwhile {d e : Disk} {m : Machine} : Session p d m →
      (∀ q ∈ p.keptFiles, Spares q d e) → Session p e m
  | call {d e : Disk} {m : Machine} {call : Call} {r : Except Failure Answer} : Session p d m →
      call.Fits p d → Ends (call.program p) d r e → Undisturbed r →
      (m.next (d.openDatabase call.database) call).Sized →
      Session p e (m.next (d.openDatabase call.database) call)

section

variable {p : Pipeline} {d : Disk} {m : Machine}

theorem Session.reflects (h : Session p d m) : Reflects p d m := by
  -- every call starts on a disk that reflects the machine, and leaves one
  induction h with
  | start hrolling hlogs =>
      refine ⟨hrolling, fun log hlog => ChangeLog.records_nil (hlogs log hlog), ?_, ?_, ?_⟩
      · rintro _ ⟨⟩
      · rintro _ ⟨⟩
      · rintro _ ⟨⟩
  | meanwhile _ hspares ih => exact ih.of_spares hspares
  | call _ hfits hends hr hsized ih => exact (follows_of_call ih hfits hends hr).reflects hsized

/-- At any time what is read of the rolling snapshot and of the logs is what the
machine has, and the next call is answered as the machine answers it. -/
theorem observed_of_session (h : Session p d m) :
    Ends p.rolling? d (.ok m.rolling) d ∧
      (∀ log ∈ p.logs, Ends (ChangeLog.load log) d (.ok m.reports) d) ∧
      ∀ (call : Call) (r : Except Failure Answer) (e : Disk), call.Fits p d →
        Ends (call.program p) d r e → Undisturbed r →
        r = (m.step (d.openDatabase call.database) call).map (·.1) :=
  ⟨h.reflects.ends_rolling?, fun _ hlog => h.reflects.ends_load hlog,
    fun _ _ _ hfits hends hr => (follows_of_call h.reflects hfits hends hr).answer⟩

end

/-! ## A session -/

open Merge (builtBefore builtInPart editTables editDiff editOutcome)

/-- The function that stood in the changed line is gone, and there is a new one. -/
def sampleReport : Report :=
  ⟨"r2", "author", "words", ⟨[("a.c", ⟨[⟨⟨"e()"⟩, ⟨1, 3⟩⟩], [⟨⟨"f()"⟩, ⟨1, 3⟩⟩], []⟩)]⟩⟩

def sampleLog : Address × Entry :=
  (["home", "log"], .file ⟨.text sampleReport.line, false⟩)

def firstCall : Call :=
  .prepare ⟨"full"⟩ "r1"

def secondCall : Call :=
  .update ⟨"part"⟩ ⟨"r2", "author", "words"⟩ editDiff

def secondAnswer : Answer :=
  .updated ⟨"r2", false, editOutcome⟩

theorem report_sample : report ⟨"r2", "author", "words"⟩ editOutcome.changes = sampleReport := by
  decide +kernel

theorem openDatabase_full : sampleStart.openDatabase ⟨"full"⟩ = .ok (.ofTables editTables) := by
  decide +kernel

theorem openDatabase_part : (sampleDisk false builtBefore []).openDatabase ⟨"part"⟩ =
    .ok (.ofTables (Merge.editedTables.within Merge.editPatch.paths)) := by
  decide +kernel

theorem step_firstCall :
    Machine.start.step (sampleStart.openDatabase firstCall.database) firstCall =
      .ok (.prepared builtBefore, ⟨some builtBefore, []⟩) :=
  Machine.step_prepare (openDatabase_full ▸ assembled_full)

theorem step_secondCall : Machine.step ⟨some builtBefore, []⟩
    ((sampleDisk false builtBefore []).openDatabase secondCall.database) secondCall =
      .ok (secondAnswer, ⟨some editOutcome.snapshot, [sampleReport]⟩) := by
  rw [← report_sample]
  exact Machine.step_update (openDatabase_part ▸ assembled_part) Merge.alongDiff_edit

theorem ends_firstCall : Ends (firstCall.program (samplePipeline ⟨"log"⟩)) sampleStart
    (.ok (.prepared builtBefore)) (sampleDisk false builtBefore []) := by
  have hentered : Ends (Workspace.enter (samplePipeline ⟨"log"⟩).settings) sampleStart
      (.ok sampleWorkspace) ⟨sampleEntered true, ["home"]⟩ := by
    decide +kernel
  have hopened : Runs (MonadDisk.openDatabase ⟨"full"⟩) (⟨sampleEntered true, ["home"]⟩ : Disk)
      (.ok (.ofTables editTables)) ⟨sampleEntered true, ["home"]⟩ := by
    decide +kernel
  have hsaved : Ends (builtBefore.save (Workspace.rollingFile sampleWorkspace.cache))
      (⟨sampleEntered true, ["home"]⟩ : Disk) (.ok ()) (sampleDisk true builtBefore []) := by
    decide +kernel
  have hleft : Ends sampleWorkspace.leave (sampleDisk true builtBefore []) (.ok ())
      (sampleDisk false builtBefore []) := by
    decide +kernel
  obtain ⟨_, hassembled⟩ := Extraction.ends_assembleFile_of_assembled hopened assembled_full
  refine Ends.map_iff.mpr ⟨.ok builtBefore, Workspace.ends_within_of_ends hentered ?_ hleft, rfl⟩
  refine Ends.bind_iff.mpr (Or.inl ⟨_, _, hassembled, ?_⟩)
  refine Ends.bind_iff.mpr (Or.inl ⟨_, _, hsaved, ?_⟩)
  exact Ends.pure_iff.mpr ⟨rfl, rfl⟩

theorem ends_secondCall : Ends (secondCall.program (samplePipeline ⟨"log"⟩))
    (sampleDisk false builtBefore []) (.ok secondAnswer)
    (sampleDisk false editOutcome.snapshot [samplePatch, sampleStaged, sampleLog]) := by
  have hconcluded : Ends ((samplePipeline ⟨"log"⟩).conclude ⟨"r2", "author", "words"⟩
        (some builtBefore) editOutcome)
      (sampleDisk true editOutcome.snapshot [samplePatch, sampleStaged]) (.ok ())
      (sampleDisk true editOutcome.snapshot [samplePatch, sampleStaged, sampleLog]) := by
    decide +kernel
  have hleft : Ends sampleWorkspace.leave
      (sampleDisk true editOutcome.snapshot [samplePatch, sampleStaged, sampleLog]) (.ok ())
      (sampleDisk false editOutcome.snapshot [samplePatch, sampleStaged, sampleLog]) := by
    decide +kernel
  refine Ends.map_iff.mpr ⟨.ok ⟨"r2", false, editOutcome⟩, ?_, rfl⟩
  refine Workspace.ends_within_of_ends (ends_enter_sample _) ?_ hleft
  refine Ends.bind_iff.mpr (Or.inl ⟨_, _, ends_renew_sample, ?_⟩)
  exact Ends.bind_iff.mpr (Or.inl ⟨_, _, hconcluded, Ends.pure_iff.mpr ⟨rfl, rfl⟩⟩)

theorem apart_log : (samplePipeline ⟨"log"⟩).Apart ["home"] "r1" ∧
    (samplePipeline ⟨"log"⟩).Apart ["home"] "r2" := by
  refine ⟨⟨by decide, by decide +kernel, fun q hq => ⟨?_, ?_, .of_head? ?_ ?_⟩⟩,
    by decide, by decide +kernel, fun q hq => ⟨?_, ?_, .of_head? ?_ ?_⟩⟩ <;> revert q <;>
    decide +kernel

theorem fits_firstCall : firstCall.Fits (samplePipeline ⟨"log"⟩) sampleStart := by
  refine ⟨apart_log.1, Or.inr ⟨?_, Or.inl (by decide +kernel)⟩, fun db h => ?_⟩
  · exact ⟨by decide +kernel, by decide +kernel, .of_head? (by decide +kernel) (by decide +kernel)⟩
  · obtain ⟨a, isLocked, hmem⟩ := mem_of_holdsDatabase h
    exact sized_of_mem_sampleStart hmem

theorem fits_secondCall :
    secondCall.Fits (samplePipeline ⟨"log"⟩) (sampleDisk false builtBefore []) := by
  refine ⟨apart_log.2, Or.inr ⟨?_, Or.inl (by decide +kernel)⟩, fun _ => sized_sample⟩
  exact ⟨by decide +kernel, by decide +kernel, .of_head? (by decide +kernel) (by decide +kernel)⟩

theorem undisturbed_ok {α : Type} (a : α) : Undisturbed (.ok a) :=
  ⟨fun _ himpossible => (by cases himpossible), fun _ himpossible => by cases himpossible⟩

theorem session_firstCall : Session (samplePipeline ⟨"log"⟩) (sampleDisk false builtBefore [])
    ⟨some builtBefore, []⟩ := by
  have hstart : Session (samplePipeline ⟨"log"⟩) sampleStart .start := by
    refine .start (by decide +kernel) fun log hlog => Or.inl ?_
    rw [List.mem_singleton.mp hlog]
    decide +kernel
  have hsized : Machine.Sized ⟨some builtBefore, []⟩ := by
    rintro s ⟨⟩
    decide
  have hnext := Machine.next_of_step step_firstCall
  exact hnext ▸ hstart.call fits_firstCall ends_firstCall (undisturbed_ok _) (hnext ▸ hsized)

theorem session_secondCall : Session (samplePipeline ⟨"log"⟩)
    (sampleDisk false editOutcome.snapshot [samplePatch, sampleStaged, sampleLog])
    ⟨some editOutcome.snapshot, [sampleReport]⟩ := by
  have hsized : Machine.Sized ⟨some editOutcome.snapshot, [sampleReport]⟩ := by
    rintro s ⟨⟩
    decide
  have hnext := Machine.next_of_step step_secondCall
  exact hnext ▸ session_firstCall.call fits_secondCall ends_secondCall (undisturbed_ok _)
    (hnext ▸ hsized)

theorem observed_of_session_sample :
    Session (samplePipeline ⟨"log"⟩)
        (sampleDisk false editOutcome.snapshot [samplePatch, sampleStaged, sampleLog])
        ⟨some editOutcome.snapshot, [sampleReport]⟩ ∧
      Ends (samplePipeline ⟨"log"⟩).rolling?
        (sampleDisk false editOutcome.snapshot [samplePatch, sampleStaged, sampleLog])
        (.ok (some editOutcome.snapshot))
        (sampleDisk false editOutcome.snapshot [samplePatch, sampleStaged, sampleLog]) ∧
      Ends (ChangeLog.load ⟨"log"⟩)
        (sampleDisk false editOutcome.snapshot [samplePatch, sampleStaged, sampleLog])
        (.ok [sampleReport])
        (sampleDisk false editOutcome.snapshot [samplePatch, sampleStaged, sampleLog]) ∧
      .ok secondAnswer = (Machine.step ⟨some builtBefore, []⟩
        ((sampleDisk false builtBefore []).openDatabase ⟨"part"⟩) secondCall).map (·.1) :=
  ⟨session_secondCall, (observed_of_session session_secondCall).1,
    (observed_of_session session_secondCall).2.1 _ List.mem_cons_self,
    (observed_of_session session_firstCall).2.2 _ _ _ fits_secondCall ends_secondCall
      (undisturbed_ok _)⟩

end CallAtlas.Pipeline
