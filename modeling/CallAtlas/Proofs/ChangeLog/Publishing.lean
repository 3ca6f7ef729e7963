import CallAtlas.ChangeLog.File
import CallAtlas.Proofs.ChangeLog
import CallAtlas.Proofs.Disk.Directories

/-!
# Publishing to a log

A log that nothing else writes to has the reports that have been published to it, each
of them on a line behind those before it, and gives them back when it is loaded. Whether
the directory of the log had to be made does not matter, nor whether the log was there.
-/

namespace CallAtlas.ChangeLog

open Disk FallibleDisk

/-! ## Text that a file gains -/

/-- The file at a path has got more text behind what was there, or behind nothing
if it is new. -/
def Gains (d e : Disk) (log : Path) (more : String) : Prop :=
  ∃ old, Before d log old ∧ e.file log = .ok { old with content := old.content.append more }

section

variable {d e f : Disk} {log : Path} {more : String}

theorem Gains.of_spares_left (h : Spares log d e) (hgains : Gains e f log more) :
    Gains d f log more := by
  obtain ⟨old, hbefore, hfile⟩ := hgains
  refine ⟨old, ?_, hfile⟩
  rw [Before, h.home, h.entry] at hbefore
  exact hbefore

theorem Gains.of_spares_right (hgains : Gains d e log more) (h : Spares log e f) :
    Gains d f log more := by
  obtain ⟨old, hbefore, hfile⟩ := hgains
  exact ⟨old, hbefore, h.file hfile⟩

theorem Gains.holds {content : Option String} (hgains : Gains d e log more)
    (hholds : Holds d log content) : Holds e log (some (content.getD "" ++ more)) := by
  obtain ⟨old, hbefore, hfile⟩ := hgains
  have hcontent : old.content = .text (content.getD "") := by
    cases content with
    | none =>
        rcases hbefore with hentry | ⟨_, rfl⟩
        · rw [show d.entryAt? (log.address d.home) = none from hholds] at hentry
          cases hentry
        · rfl
    | some text =>
        obtain ⟨isLocked, htext⟩ := readText_eq_ok_iff.mp hholds
        obtain ⟨a, hfind, hentry⟩ := file_eq_ok_iff.mp htext
        rw [address_of_find hfind] at hentry
        rcases hbefore with hentry' | ⟨hnone, _⟩
        · rw [hentry] at hentry'
          cases hentry'
          rfl
        · rw [hnone] at hentry
          cases hentry
  refine readText_eq_ok_iff.mpr ⟨old.isLocked, ?_⟩
  rw [hfile, hcontent]
  rfl

theorem gains_of_appendText (h : d.appendText log more = .ok e) : Gains d e log more :=
  (change_spec h).2.1

end

/-! ## One report -/

section

variable {σ : Type} [MonadDisk (StateM σ)] [FallibleDisk σ] {makes : Set Path} {log : Path}
  {r : Report} {s t : σ}

/-- Making directories leaves what a file starts from that is written then. -/
theorem before_of_made {d e : Disk} {old : File} (h : Edits makes ∅ d e)
    (hbefore : Before e log old) : Before d log old := by
  have hhome := h.keeps.home
  have hentry : e.entryAt? (log.address d.home) = d.entryAt? (log.address d.home) := by
    cases hfound : d.entryAt? (log.address d.home) with
    | none => exact (h.free hfound).resolve_right (hhome ▸ hbefore.not_isDirectoryAt)
    | some entry =>
        have hspares : Spares log d e :=
          h.spares (Or.inl (by rw [hfound]; rfl)) fun _ himpossible => himpossible.elim
        rw [hspares.entry, hfound]
  rw [Before, hhome, hentry] at hbefore
  exact hbefore

/-- A report stands behind what was there, whatever directories had to be made. -/
theorem gains_of_publish (h : Ends (publish log r) s (.ok ()) t) :
    Gains (disk s) (disk t) log r.line := by
  rcases Ends.bind_iff.mp h with ⟨_, u, hmade, happended⟩ | ⟨_, _, himpossible⟩
  · obtain ⟨_, hruns, hok⟩ := Ends.attempt_iff.mp happended
    obtain ⟨old, hbefore, hfile⟩ := gains_of_appendText
      ((FallibleDisk.appendText hruns).1 (mapError_eq_ok_iff.mp hok.symm))
    have hworks : Works Set.univ ∅ (makeParent log : ExceptT Failure (StateM σ) Unit) :=
      works_makeParent fun _ _ _ _ => trivial
    exact ⟨old, before_of_made (hworks _ _ _ hmade).1 hbefore, hfile⟩
  · cases himpossible

theorem open_of_publish (h : Ends (publish log r) s (.ok ()) t) : Open (disk t) log := by
  rcases Ends.bind_iff.mp h with ⟨_, u, hmade, happended⟩ | ⟨_, _, himpossible⟩
  · obtain ⟨_, hruns, hok⟩ := Ends.attempt_iff.mp happended
    have happend := (FallibleDisk.appendText hruns).1 (mapError_eq_ok_iff.mp hok.symm)
    exact open_of_change (hasParent_of_makeParent hmade) happend
  · cases himpossible

theorem exists_ends_publish {d : Disk} (h : Open d log) (r : Report) :
    ∃ e, Ends (publish log r) d (.ok ()) e := by
  obtain ⟨e, happended⟩ := h.exists_change fun f => { f with content := f.content.append r.line }
  have hruns : Runs (MonadDisk.appendText log r.line) d (.ok ()) e := runs_update_of_ok happended
  exact ⟨e, Ends.bind_iff.mpr (Or.inl ⟨(), d, ends_makeParent_of_hasParent h.hasParent,
    Ends.attempt_iff.mpr ⟨_, hruns, rfl⟩⟩)⟩

theorem exists_ends_forM_publish {d : Disk} (h : Open d log) (reports : List Report) :
    ∃ e, Ends (reports.forM (publish log)) d (.ok ()) e := by
  induction reports generalizing d with
  | nil => exact ⟨d, Ends.pure_iff.mpr ⟨rfl, rfl⟩⟩
  | cons r reports ih =>
      obtain ⟨u, hfirst⟩ := exists_ends_publish h r
      obtain ⟨e, hrest⟩ := ih (open_of_publish hfirst)
      exact ⟨e, Ends.bind_iff.mpr (Or.inl ⟨(), u, hfirst, hrest⟩)⟩

end

/-! ## A log of reports -/

/-- The log has the text of these reports. One that is not there has none. -/
def Records (d : Disk) (log : Path) (reports : List Report) : Prop :=
  ∃ content, Holds d log content ∧ content.getD "" = textOf reports

section

variable {d e : Disk} {log : Path} {reports : List Report} {r : Report}

theorem records_nil (h : Holds d log none ∨ Holds d log (some "")) :
    Records d log [] := by
  rcases h with hnone | hempty
  · exact ⟨none, hnone, rfl⟩
  · exact ⟨some "", hempty, rfl⟩

theorem Records.of_spares (h : Records d log reports) (hspares : Spares log d e) :
    Records e log reports := by
  obtain ⟨content, hholds, htext⟩ := h
  exact ⟨content, hspares.holds hholds, htext⟩

theorem Records.of_gains (h : Records d log reports) (hgains : Gains d e log r.line) :
    Records e log (reports ++ [r]) := by
  obtain ⟨content, hholds, htext⟩ := h
  refine ⟨_, hgains.holds hholds, ?_⟩
  rw [Option.getD_some, htext, textOf_append_singleton]

variable {σ : Type} [MonadDisk (StateM σ)] {s t : σ}

theorem load_eq (log : Path) : (load log : ExceptT Failure (StateM σ) (List Report)) =
    Disk.readText? log >>= fun found =>
      MonadExcept.ofExcept ((ChangeLog.read (found.getD "")).mapError .json) := by
  rw [load]
  congr
  funext found
  cases found with
  | none => rfl
  | some text =>
      dsimp only [Option.getD_some]
      cases ChangeLog.read text <;> rfl

theorem Records.ends_load (h : Records d log reports)
    (hordered : ∀ r ∈ reports, r.changes.Ordered) : Ends (load log) d (.ok reports) d := by
  obtain ⟨content, hholds, htext⟩ := h
  rw [load_eq]
  refine Ends.bind_iff.mpr (Or.inl ⟨content, d, ends_readText?_of_holds hholds, ?_⟩)
  rw [htext, read_textOf hordered]
  exact Ends.ofExcept_iff.mpr ⟨rfl, rfl⟩

variable [FallibleDisk σ]

theorem Records.ends_load_cases {result : Except Failure (List Report)}
    (h : Records (disk s) log reports) (hordered : ∀ r ∈ reports, r.changes.Ordered)
    (hends : Ends (load log) s result t) :
    disk t = disk s ∧ (result = .ok reports ∨ ∃ fault, result = .error (.disk fault)) := by
  obtain ⟨content, hholds, htext⟩ := h
  rw [load_eq] at hends
  rcases Ends.bind_iff.mp hends with ⟨found, u, hfound, hrest⟩ | ⟨why, hfound, rfl⟩
  · obtain ⟨hdisk, ⟨_, himpossible⟩ | ⟨_, hshows, hok⟩⟩ := ends_readText?_cases hfound
    · cases himpossible
    · cases hok
      rw [hshows.eq_of_holds hholds, htext, read_textOf hordered] at hrest
      obtain ⟨rfl, rfl⟩ := Ends.ofExcept_iff.mp hrest
      exact ⟨hdisk, Or.inl rfl⟩
  · obtain ⟨hdisk, ⟨fault, hfault⟩ | ⟨_, _, himpossible⟩⟩ := ends_readText?_cases hfound
    · cases hfault
      exact ⟨hdisk, Or.inr ⟨fault, rfl⟩⟩
    · cases himpossible

theorem Records.forM {earlier : List Report} (h : Records (disk s) log earlier)
    (hends : Ends (reports.forM (ChangeLog.publish log)) s (.ok ()) t) :
    Records (disk t) log (earlier ++ reports) := by
  induction reports generalizing s earlier with
  | nil =>
      obtain ⟨_, rfl⟩ := Ends.pure_iff.mp hends
      rwa [List.append_nil]
  | cons r reports ih =>
      rcases Ends.bind_iff.mp hends with ⟨_, u, hfirst, hrest⟩ | ⟨_, _, himpossible⟩
      · rw [List.append_cons]
        exact ih (h.of_gains (gains_of_publish hfirst)) hrest
      · cases himpossible

end

/-! ## All that has been published -/

/-- What has been published to a log, the oldest first. The log is not there or empty
before that, and nothing else writes to it, whatever else happens on the disk. -/
inductive Published {σ : Type} [MonadDisk (StateM σ)] [FallibleDisk σ] (log : Path) :
    σ → List Report → Prop where
  | start {s : σ} : Holds (disk s) log none ∨ Holds (disk s) log (some "") → Published log s []
  | meanwhile {s t : σ} {reports : List Report} : Published log s reports →
      Spares log (disk s) (disk t) → Published log t reports
  | publish {s t : σ} {reports : List Report} {r : Report} : Published log s reports →
      Ends (publish log r) s (.ok ()) t → Published log t (reports ++ [r])

section

variable {σ : Type} [MonadDisk (StateM σ)] [FallibleDisk σ] {log : Path}
  {earlier reports : List Report} {s t : σ}

theorem Published.records (h : Published log s reports) : Records (disk s) log reports := by
  induction h with
  | start hempty => exact records_nil hempty
  | meanwhile _ hspares ih => exact ih.of_spares hspares
  | publish _ hends ih => exact ih.of_gains (gains_of_publish hends)

/-- Reports that are published one after the other are loaded in that order, behind all
that were published before, unless the disk fails. If the log is open they can be
published, as far as the disk is concerned. The paths of a change set ascend, as those of
a map do. -/
theorem load_of_published (hearlier : Published log s earlier)
    (hordered : ∀ r ∈ earlier ++ reports, r.changes.Ordered) :
    (∀ t, Ends (reports.forM (publish log)) s (.ok ()) t →
      Ends (load log) (disk t) (.ok (earlier ++ reports)) (disk t) ∧
        ∀ result u, Ends (load log) t result u → disk u = disk t ∧
          (result = .ok (earlier ++ reports) ∨ ∃ fault, result = .error (.disk fault))) ∧
      (Open (disk s) log → ∃ e, Ends (reports.forM (publish log)) (disk s) (.ok ()) e ∧
        Ends (load log) e (.ok (earlier ++ reports)) e) := by
  have hrecords := hearlier.records
  refine ⟨fun t hends => ?_, fun hopen => ?_⟩
  · have hafter := hrecords.forM hends
    exact ⟨hafter.ends_load hordered, fun _ _ => hafter.ends_load_cases hordered⟩
  · obtain ⟨e, hends⟩ := exists_ends_forM_publish hopen reports
    exact ⟨e, hends, (Records.forM (s := disk s) hrecords hends).ends_load hordered⟩

end

/-! ## A log in a new directory -/

def firstReport : Report :=
  ⟨"r1", "dev <dev@example.com>", "one\r\ntwo\n", .empty⟩

def secondReport : Report :=
  ⟨"r2", "d\u00e9v", "\x01\u2028", ⟨[("a.cpp",
    ⟨[⟨.canonical "f(int*)", ⟨1, 5⟩⟩], [], [⟨.canonical "\t", ⟨7, 9⟩⟩]⟩)]⟩⟩

def sampleLogged (reports : List Report) : Disk :=
  ⟨[(["home"], .directory), (["home", "logs"], .directory),
    (["home", "logs", "changes"], .file ⟨.text (textOf reports), false⟩)], ["home"]⟩

theorem published_sample :
    Published ⟨"logs/changes"⟩ (sampleLogged [firstReport]) [firstReport] := by
  have hstart : Published ⟨"logs/changes"⟩ Disk.blank [] := by
    refine .start (Or.inl ?_)
    decide +kernel
  refine hstart.publish (r := firstReport) ?_
  decide +kernel

theorem load_of_published_sample :
    Published ⟨"logs/changes"⟩ (sampleLogged [firstReport]) [firstReport] ∧
      (∀ r ∈ [firstReport] ++ [secondReport], r.changes.Ordered) ∧
      Ends (load ⟨"logs/changes"⟩) (sampleLogged [firstReport, secondReport])
        (.ok [firstReport, secondReport]) (sampleLogged [firstReport, secondReport]) := by
  have hordered : ∀ r ∈ [firstReport] ++ [secondReport], r.changes.Ordered := by
    intro r hr
    rw [List.singleton_append, List.mem_pair] at hr
    rcases hr with rfl | rfl
    · exact ChangeSet.ordered_empty
    · exact List.pairwise_singleton _ _
  have hends : Ends ([secondReport].forM (publish ⟨"logs/changes"⟩)) (sampleLogged [firstReport])
      (.ok ()) (sampleLogged [firstReport, secondReport]) := by
    decide +kernel
  exact ⟨published_sample, hordered, ((load_of_published published_sample hordered).1 _ hends).1⟩

end CallAtlas.ChangeLog
