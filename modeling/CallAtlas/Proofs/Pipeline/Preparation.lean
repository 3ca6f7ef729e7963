import CallAtlas.Proofs.Pipeline.Update

/-!
# What preparing does

A full build becomes the rolling snapshot, whatever was there before, and a copy of
it is kept. The logs hear nothing of that.
-/

namespace CallAtlas.Pipeline

open Disk FallibleDisk

variable {σ : Type} [MonadDisk (StateM σ)] [FallibleDisk σ] {p : Pipeline} {database : Path}
  {revision : String} {u v : σ}

/-- How preparing can end. -/
inductive Prepares (p : Pipeline) (database : Path) (revision : String) (u v : σ) :
    Except Failure Snapshot → Prop where
  | locked : Prepares p database revision u v (.error (.locked (Workspace.lockFile p.settings)))
  | failed (fault : Fault) : Prepares p database revision u v (.error (.disk fault))
  | refused {opened : Except Store.Fault Store.Database} {why : Failure} :
      Opens (p.lasting (disk u).home revision) database u opened →
      Extraction.assembled opened revision = .error why →
      Leaves (p.lasting (disk u).home revision) (disk u) (disk v) →
      Prepares p database revision u v (.error why)
  | prepared {opened : Except Store.Fault Store.Database} {s : Snapshot} :
      Opens (p.lasting (disk u).home revision) database u opened →
      Extraction.assembled opened revision = .ok s →
      (disk v).readText p.rollingFile = .ok s.toJson →
      (∀ log ∈ p.logs, Spares log (disk u) (disk v)) →
      Prepares p database revision u v (.ok s)

/-- The build is the rolling snapshot once it is saved, and its copy changes nothing
of what lasts. -/
theorem ends_keep_cases {home : Address} {w : Workspace} {s : Snapshot}
    {r : Except Failure Snapshot} (hapart : p.Apart home revision) (hof : w.IsOf p.settings)
    (hhome : (disk u).home = home) (hrevision : s.revision = revision)
    (h : Ends (do
      s.save (Workspace.rollingFile w.cache)
      p.keepCopy s
      return s) u r v) :
    (∃ fault, r = .error (.disk fault)) ∨ r = .ok s ∧
      (disk v).readText p.rollingFile = .ok s.toJson ∧
        Leaves {q ∈ p.lasting home revision | q.address home ≠ p.rollingFile.address home}
          (disk u) (disk v) := by
  have hrolling : Workspace.rollingFile w.cache = p.rollingFile := by rw [hof.cache, rollingFile]
  have hdraft : (Workspace.rollingFile w.cache).draft ∈ p.sideFiles revision :=
    hrolling ▸ List.mem_cons_of_mem _ List.mem_cons_self
  have hcache : w.cache ∈ p.directories := hof.cache ▸ p.cache_mem_directories
  have hcopy : Works (above home p.directories) {f | f ∈ p.sideFiles revision} (p.keepCopy s) :=
    works_keepCopy (σ := σ) hapart.plain hrevision
  rcases ends_bind_save_cases hdraft hcache hhome h with ⟨u₁, hothers, htext, h⟩ | ⟨_, hfault⟩
  · rw [hrolling, hhome] at hothers
    rw [hrolling] at htext
    rcases hcopy.ends_bind_cases (hothers.home.trans hhome) h with
      ⟨_, _, _, hkept, hpure⟩ | ⟨_, hfault⟩
    · obtain ⟨rfl, rfl⟩ := Ends.pure_iff.mp hpure
      exact Or.inr ⟨rfl, (hkept.spares _ hapart.clear_rolling).readText htext,
        hothers.trans (hkept.mono fun q hq => hq.1)⟩
    · exact Or.inl hfault
  · exact Or.inl hfault

theorem prepares_of_work {w : Workspace} {u₁ u₂ : σ} {r : Except Failure Snapshot}
    (hapart : p.Apart (disk u).home revision) (hof : w.IsOf p.settings)
    (hleaves : Leaves (p.lasting (disk u).home revision) (disk u) (disk u₁))
    (hwork : Ends (do
      let assembly ← Extraction.assembleFile database revision
      assembly.snapshot.save (Workspace.rollingFile w.cache)
      p.keepCopy assembly.snapshot
      return assembly.snapshot) u₁ r u₂)
    (hleave : Ends w.leave u₂ (.ok ()) v) : Prepares p database revision u v r := by
  have hlock : Workspace.lockFile p.settings ∈ p.sideFiles revision := List.mem_cons_self
  obtain ⟨opened, u₃, hopened, hsame, hbuilt⟩ := Extraction.ends_bind_assembleFile hwork
  have hopens : Opens (p.lasting (disk u).home revision) database u opened :=
    ⟨u₁, u₃, hleaves, hopened⟩
  rw [← hsame] at hleaves
  rcases hbuilt with ⟨why, hbuild, rfl, rfl⟩ | ⟨assembly, hbuild, h⟩
  · exact .refused hopens hbuild
      (hleaves.trans (Workspace.leaves_of_leave hof hlock hleaves.home hleave))
  · rcases ends_keep_cases hapart hof hleaves.home (spec_of_assembled hbuild).2 h with
      ⟨fault, rfl⟩ | ⟨rfl, htext, hkept⟩
    · exact .failed fault
    · have hleft : Leaves (p.lasting (disk u).home revision) (disk u₂) (disk v) :=
        Workspace.leaves_of_leave hof hlock (hkept.home.trans hleaves.home) hleave
      refine .prepared hopens hbuild
        ((hleft.spares _ hapart.clear_rolling).readText htext) fun log hlog => ?_
      have hclear := hapart.clear_log hlog
      exact ((hleaves.spares log hclear).trans
        (hkept.spares log ⟨hclear, hapart.ne_rolling hlog⟩)).trans
          (hleft.spares log hclear)

theorem ends_prepare_cases {r : Except Failure Snapshot} (hapart : p.Apart (disk u).home revision)
    (h : Ends (p.prepare database revision) u r v) : Prepares p database revision u v r := by
  rcases ends_within_lasting_cases revision h with
    ⟨_, ⟨fault, rfl⟩ | rfl⟩ | ⟨w, u₁, u₂, hof, _, hleaves, hwork, hleave⟩
  · exact .failed fault
  · exact .locked
  · exact prepares_of_work hapart hof hleaves hwork hleave

end CallAtlas.Pipeline
