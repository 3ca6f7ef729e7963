import CallAtlas.Proofs.Change.Analysis
import CallAtlas.Proofs.Merge.Copied
import CallAtlas.Proofs.Merge.Rebuild

/-!
# The report on a merge and its snapshot

A merge reports on changed lines and puts together records, each on its own way
from the two snapshots. As long as no file moves to another path both tell the
same: what is reported as added has come into the merged snapshot, what is
reported as removed has gone from it, and what is reported as modified was there
before and still is.
-/

namespace CallAtlas

namespace Snapshot

/-- The snapshots that come from the tables of a build or from a merge. -/
inductive Built : Snapshot → Prop where
  | assembled {t : Extraction.Tables} {revision : String} {s : Snapshot} :
      t.assemble revision = .ok s → Built s
  | merged {before after : Snapshot} {patch : Patch} {outcome : Merge.Outcome} :
      before.Constructed → after.Constructed →
      Merge.alongPatch before after patch = .ok outcome → Built outcome.snapshot

theorem Built.wellFormed {s : Snapshot} (h : s.Built) : s.WellFormed := by
  cases h with
  | assembled h => exact (Rolling.wellFormed_of_assemble h).1
  | merged _ _ h => exact Merge.wellFormed_alongPatch h

theorem Built.nodup_files {s : Snapshot} (h : s.Built) : s.files.Nodup := by
  cases h with
  | assembled h => exact (Rolling.wellFormed_of_assemble h).2
  | merged hbefore _ h => exact Merge.nodup_files_alongPatch hbefore.wellFormed h

section

variable {s t : Snapshot} {path : String}
  (h : (s.functionsIn path).map s.locate = (t.functionsIn path).map t.locate)

include h

/-- Files with the same functions define the same, whatever their numbers. -/
theorem definesAt_congr {c : FunctionChange} : s.DefinesAt path c ↔ t.DefinesAt path c := by
  have hlocated : ∀ u : Snapshot, u.DefinesAt path c ↔
      ∃ f ∈ (u.functionsIn path).map u.locate, f.signature = c.signature ∧ f.lines = c.lines := by
    intro u
    simp [DefinesAt, locate, siteIn]
  rw [hlocated, hlocated, h]

theorem defines_congr {signature : Signature} :
    s.Defines path signature ↔ t.Defines path signature := by
  have hlocated : ∀ u : Snapshot, u.Defines path signature ↔
      ∃ f ∈ (u.functionsIn path).map u.locate, f.signature = signature := by
    intro u
    simp [Defines, locate, siteIn]
  rw [hlocated, hlocated, h]

end

theorem not_defines_of_not_mem {s : Snapshot} {path : String} (h : path ∉ s.files)
    (signature : Signature) : ¬ s.Defines path signature := by
  rintro ⟨r, hr, -⟩
  rw [functionsIn_eq_nil (hasFile_eq_false_iff.mpr h)] at hr
  cases hr

end Snapshot

namespace Merge

/-- The file does not move: it stays at its path, or is new at a path that was
not there, or is gone from a path that is not there any more. -/
def Stays (before after : Snapshot) (f : FilePatch) : Prop :=
  f.old = f.new ∨ (f.old = none ∧ ∃ path, f.new = some path ∧ path ∉ before.files) ∨
    (f.new = none ∧ ∃ path, f.old = some path ∧ path ∉ after.files)

/-- No file of the patch moves. -/
def InPlace (patch : Patch) (before after : Snapshot) : Prop :=
  ∀ f ∈ patch.files, Stays before after f

/-- How the report for a path agrees with what a merge has made of `before`. -/
structure AgreesAt (before merged : Snapshot) (path : String) (changes : FileChanges) : Prop where
  added : ∀ c ∈ changes.added, merged.DefinesAt path c ∧ ¬ before.Defines path c.signature
  removed : ∀ c ∈ changes.removed, before.DefinesAt path c ∧ ¬ merged.Defines path c.signature
  modified : ∀ c ∈ changes.modified, before.DefinesAt path c ∧ merged.Defines path c.signature

theorem agreesAt_empty (before merged : Snapshot) (path : String) :
    AgreesAt before merged path .empty :=
  ⟨List.forall_mem_nil _, List.forall_mem_nil _, List.forall_mem_nil _⟩

/-- Reports that agree do so when they are united. -/
theorem AgreesAt.union {before merged : Snapshot} {path : String} {changes others : FileChanges}
    (h : AgreesAt before merged path changes) (hothers : AgreesAt before merged path others) :
    AgreesAt before merged path (changes.union others) := by
  refine ⟨?_, ?_, ?_⟩
  · intro c hc
    rcases FileChanges.mem_added_union.mp hc with hmem | hmem
    · exact h.added c hmem
    · exact hothers.added c hmem
  · intro c hc
    rcases FileChanges.mem_removed_union.mp hc with hmem | hmem
    · exact h.removed c hmem
    · exact hothers.removed c hmem
  · intro c hc
    rcases FileChanges.mem_modified_union.mp hc with hmem | hmem
    · exact h.modified c hmem
    · exact hothers.modified c hmem

/-! ## One file patch -/

section

variable {before after : Snapshot} {path : String}

theorem agreesAt_of_stays (touched : List Signature) :
    AgreesAt before after path
      (.ofTouched (Outline.ofFile before (some path)) (Outline.ofFile after (some path))
        touched) := by
  refine ⟨?_, ?_, ?_⟩
  · intro c hc
    obtain ⟨-, hbefore, hafter⟩ := FileChanges.mem_added_iff.mp hc
    exact ⟨Outline.definesAt_of_lines? hafter, Outline.lines?_ofFile_eq_none_iff.mp hbefore⟩
  · intro c hc
    obtain ⟨-, hbefore, hafter⟩ := FileChanges.mem_removed_iff.mp hc
    exact ⟨Outline.definesAt_of_lines? hbefore, Outline.lines?_ofFile_eq_none_iff.mp hafter⟩
  · intro c hc
    obtain ⟨-, hbefore, hafter⟩ := FileChanges.mem_modified_iff.mp hc
    refine ⟨Outline.definesAt_of_lines? hbefore, ?_⟩
    by_contra hunknown
    exact hafter (Outline.lines?_ofFile_eq_none_iff.mpr hunknown)

theorem agreesAt_of_created (hnew : path ∉ before.files) (touched : List Signature) :
    AgreesAt before after path
      (.ofTouched (Outline.ofFile before none) (Outline.ofFile after (some path)) touched) := by
  refine ⟨?_, ?_, ?_⟩
  · intro c hc
    obtain ⟨-, -, hafter⟩ := FileChanges.mem_added_iff.mp hc
    exact ⟨Outline.definesAt_of_lines? hafter, Snapshot.not_defines_of_not_mem hnew _⟩
  · intro c hc
    obtain ⟨-, hbefore, -⟩ := FileChanges.mem_removed_iff.mp hc
    cases hbefore
  · intro c hc
    obtain ⟨-, hbefore, -⟩ := FileChanges.mem_modified_iff.mp hc
    cases hbefore

theorem agreesAt_of_deleted (hgone : path ∉ after.files) (touched : List Signature) :
    AgreesAt before after path
      (.ofTouched (Outline.ofFile before (some path)) (Outline.ofFile after none) touched) := by
  refine ⟨?_, ?_, ?_⟩
  · intro c hc
    obtain ⟨-, -, hafter⟩ := FileChanges.mem_added_iff.mp hc
    cases hafter
  · intro c hc
    obtain ⟨-, hbefore, -⟩ := FileChanges.mem_removed_iff.mp hc
    exact ⟨Outline.definesAt_of_lines? hbefore, Snapshot.not_defines_of_not_mem hgone _⟩
  · intro c hc
    obtain ⟨-, -, hafter⟩ := FileChanges.mem_modified_iff.mp hc
    exact absurd rfl hafter

/-- The report on one file patch agrees with the later snapshot. -/
theorem agreesAt_ofPatch {f : FilePatch} (hpath : f.reportPath? = some path)
    (hstays : Stays before after f) :
    AgreesAt before after path (.ofPatch before after f) := by
  rw [FilePatch.reportPath?] at hpath
  rw [FileChanges.ofPatch]
  rcases hstays with hsame | ⟨hold, new, hnew, hcreated⟩ | ⟨hnew, old, hold, hdeleted⟩
  · rw [← hsame, Option.or_self] at hpath
    rw [← hsame, hpath]
    exact agreesAt_of_stays _
  · rw [hold, hnew, Option.none_or] at hpath
    cases hpath
    rw [hold, hnew]
    exact agreesAt_of_created hcreated _
  · rw [hold, Option.some_or] at hpath
    cases hpath
    rw [hold, hnew]
    exact agreesAt_of_deleted hdeleted _

end

/-! ## The whole report -/

section

variable {before after : Snapshot} {patch : Patch} {outcome : Outcome}

/-- A file that the patch names has in the merged snapshot the functions that it
has in the later one. -/
theorem map_locate_of_named (hbefore : before.Built) (hafter : after.Built)
    (h : alongPatch before after patch = .ok outcome) {path : String}
    (hnamed : path ∈ patch.paths) :
    (after.functionsIn path).map after.locate =
      (outcome.snapshot.functionsIn path).map outcome.snapshot.locate := by
  rw [Snapshot.map_locate_functionsIn hafter.wellFormed hafter.nodup_files,
    Snapshot.map_locate_functionsIn (wellFormed_alongPatch h)
      (nodup_files_alongPatch hbefore.wellFormed h),
    Rolling.located_of_named hbefore.wellFormed hafter.wellFormed h hnamed]

theorem AgreesAt.merged (hbefore : before.Built) (hafter : after.Built)
    (h : alongPatch before after patch = .ok outcome) {path : String}
    (hnamed : path ∈ patch.paths) {changes : FileChanges}
    (hagrees : AgreesAt before after path changes) :
    AgreesAt before outcome.snapshot path changes := by
  have hsame := map_locate_of_named hbefore hafter h hnamed
  refine ⟨?_, ?_, ?_⟩
  · intro c hc
    obtain ⟨hdefinesAt, hnew⟩ := hagrees.added c hc
    exact ⟨(Snapshot.definesAt_congr hsame).mp hdefinesAt, hnew⟩
  · intro c hc
    obtain ⟨hdefinesAt, hgone⟩ := hagrees.removed c hc
    exact ⟨hdefinesAt, fun hdefines => hgone ((Snapshot.defines_congr hsame).mpr hdefines)⟩
  · intro c hc
    obtain ⟨hdefinesAt, hdefines⟩ := hagrees.modified c hc
    exact ⟨hdefinesAt, (Snapshot.defines_congr hsame).mp hdefines⟩

theorem mem_paths_of_reportPath? {f : FilePatch} (hf : f ∈ patch.files) {path : String}
    (h : f.reportPath? = some path) : path ∈ patch.paths := by
  refine mem_paths_of_mem hf ?_
  rcases Option.or_eq_some_iff.mp h with hold | ⟨-, hnew⟩
  · exact Or.inl hold
  · exact Or.inr hnew

/-- The report on a merge agrees with the merged snapshot in every entry, when
no file of the patch moves to another path. -/
theorem agreesAt_of_alongPatch (hbefore : before.Built) (hafter : after.Built)
    (hplaces : InPlace patch before after) (h : alongPatch before after patch = .ok outcome) :
    ∀ entry ∈ outcome.changes.entries, AgreesAt before outcome.snapshot entry.1 entry.2 := by
  rw [(alongPatch_eq_ok_iff.mp h).2.1]
  refine ChangeSet.forall_mem_ofPatch (agreesAt_empty before outcome.snapshot) AgreesAt.union ?_
  intro f hf path hpath
  exact (agreesAt_ofPatch hpath (hplaces f hf)).merged hbefore hafter h
    (mem_paths_of_reportPath? hf hpath)

/-- The edited file has lost `f` and has come by `e`. -/
theorem agreesAt_edit :
    builtBefore.Built ∧ builtInPart.Built ∧ InPlace editPatch builtBefore builtInPart ∧
      alongPatch builtBefore builtInPart editPatch = .ok editOutcome ∧
      editOutcome.changes.entries =
        [("a.c", ⟨[⟨⟨"e()"⟩, ⟨1, 3⟩⟩], [⟨⟨"f()"⟩, ⟨1, 3⟩⟩], []⟩)] ∧
      ∀ entry ∈ editOutcome.changes.entries,
        AgreesAt builtBefore editOutcome.snapshot entry.1 entry.2 := by
  have hplaces : InPlace editPatch builtBefore builtInPart := by
    intro f hf
    rw [editPatch, List.mem_singleton] at hf
    subst hf
    exact Or.inl rfl
  have hbefore : builtBefore.Built := .assembled assemble_builtBefore
  have hafter : builtInPart.Built := .assembled assemble_builtInPart
  exact ⟨hbefore, hafter, hplaces, alongPatch_edit, by decide +kernel,
    agreesAt_of_alongPatch hbefore hafter hplaces alongPatch_edit⟩

end

end Merge

end CallAtlas
