import CallAtlas.Proofs.Merge.Rebuild
import CallAtlas.Proofs.Pipeline.Build
import CallAtlas.Proofs.Store.Reading
import CallAtlas.Proofs.Workspace

/-!
# How a rolling snapshot is renewed

Renewing a rolling snapshot comes to what a build comes to, merged into what the
rolling snapshot holds, unless the disk fails. The rolling snapshot has been
replaced then or is as it was.
-/

namespace CallAtlas

variable {σ : Type}

/-! ## Staging -/

open Disk FallibleDisk

section

variable [MonadDisk (StateM σ)] {u v : σ}

theorem Snapshot.load?_eq (p : Path) :
    (load? p : ExceptT Failure (StateM σ) (Option Snapshot)) =
      (readText? p >>= fun found => MonadExcept.ofExcept (loaded found)) := by
  rw [load?]
  congr 1
  funext found
  cases found with
  | none => rfl
  | some text =>
      rw [loaded]
      dsimp only
      cases ofJson text with
      | ok s => rfl
      | error why => rfl

theorem Snapshot.ends_load?_of_readText? {p : Path} {found : Option String}
    (h : Ends (readText? p) u (.ok found) v) : Ends (Snapshot.load? p) u (loaded found) v := by
  rw [load?_eq]
  exact Ends.bind_iff.mpr (Or.inl ⟨found, v, h, Ends.ofExcept_iff.mpr ⟨rfl, rfl⟩⟩)

theorem Extraction.ends_assembleFile_of_assembled {database : Path} {revision : String}
    {opened : Except Store.Fault Store.Database} {s : Snapshot}
    (hopened : Runs (MonadDisk.openDatabase database) u opened v)
    (h : assembled opened revision = .ok s) :
    ∃ counts, Ends (assembleFile database revision) u (.ok ⟨s, counts⟩) v := by
  obtain ⟨⟨_, counts⟩, hassembly, rfl⟩ := map_eq_ok_iff.mp h
  refine ⟨counts, Ends.bind_iff.mpr (Or.inl ⟨_, v, Ends.lift_iff.mpr ⟨_, hopened, rfl⟩, ?_⟩)⟩
  exact Ends.ofExcept_iff.mpr ⟨hassembly.symm, rfl⟩

end

theorem Snapshot.WellFormed.ends_load? {s : Snapshot} {d : Disk} {p : Path} (hs : s.WellFormed)
    (hsized : ∀ r ∈ s.records, r.file < 0x10000000000000000) (h : Holds d p (some s.toJson)) :
    Ends (Snapshot.load? p) d (.ok (some s)) d := by
  have hloaded := ends_load?_of_readText? (ends_readText?_of_holds h)
  rwa [hs.loaded_toJson hsized] at hloaded

theorem Snapshot.WellFormed.ends_stage {s : Snapshot} {d e : Disk} {p : Path} (hs : s.WellFormed)
    (hsized : ∀ r ∈ s.records, r.file < 0x10000000000000000) (h : Ends (s.save p) d (.ok ()) e) :
    Ends (s.stage p) d (.ok s) e := by
  have hloaded := hs.ends_load? hsized (readText_of_replaceText h)
  refine Ends.bind_iff.mpr (Or.inl ⟨_, _, h, ?_⟩)
  exact Ends.bind_iff.mpr (Or.inl ⟨_, _, hloaded, Ends.pure_iff.mpr ⟨rfl, rfl⟩⟩)

section

variable [MonadDisk (StateM σ)] [FallibleDisk σ] {home : Address} {u v : σ}

theorem Snapshot.ends_load?_cases {p : Path} {r : Except Failure (Option Snapshot)}
    (h : Ends (Snapshot.load? p) u r v) :
    disk v = disk u ∧ ((∃ fault, r = .error (.disk fault)) ∨
      ∃ found, Shows (disk u) p found ∧ r = loaded found) := by
  rw [load?_eq] at h
  rcases Ends.bind_cases (fun _ _ => ends_readText?_cases) h with
    ⟨hsame, hfault⟩ | ⟨_, _, ⟨_, _, himpossible⟩, _⟩ | ⟨_, _, hsame, ⟨found, hshows, heq⟩, h⟩
  · exact ⟨hsame, Or.inl hfault⟩
  · cases himpossible
  · cases heq
    obtain ⟨rfl, rfl⟩ := Ends.ofExcept_iff.mp h
    exact ⟨hsame, Or.inr ⟨_, hshows, rfl⟩⟩

theorem Snapshot.ends_load?_of_readText_cases {p : Path} {text : String}
    {r : Except Failure (Option Snapshot)} (htext : (disk u).readText p = .ok text)
    (h : Ends (Snapshot.load? p) u r v) :
    disk v = disk u ∧ ((∃ fault, r = .error (.disk fault)) ∨
      r = some <$> (ofJson text).mapError (·.failure)) := by
  obtain ⟨hsame, hfault | ⟨found, hshows, rfl⟩⟩ := ends_load?_cases h
  · exact ⟨hsame, Or.inl hfault⟩
  · exact ⟨hsame, Or.inr (by rw [hshows.eq_some htext, loaded_some])⟩

/-- What is staged at a path comes back from there as its text is read. -/
theorem Snapshot.ends_stage_cases {p : Path} {s : Snapshot} {makes writes : Set Path}
    {r : Except Failure Snapshot}
    (hp : ∀ parent, p.parent? = some parent → ∀ q ∈ parent.ancestors, q ∈ makes)
    (hwrites : p ∈ writes) (hdraft : p.draft ∈ writes) (h : Ends (s.stage p) u r v) :
    Edits makes writes (disk u) (disk v) ∧ ((∃ fault, r = .error (.disk fault)) ∨
      r = (ofJson s.toJson).mapError (·.failure)) := by
  have hsave : Works makes writes (s.save p : ExceptT Failure (StateM σ) Unit) :=
    works_replaceText hp hwrites hdraft
  rcases hsave.bind_cases h with ⟨_, u₁, hsaved, hedits, h⟩ | ⟨hedits, hfault⟩
  · have htext := readText_of_replaceText hsaved
    rcases Ends.bind_cases (fun _ _ => ends_load?_of_readText_cases htext) h with
      ⟨hsame, hfault⟩ | ⟨why, hsame, hwhy, rfl⟩ | ⟨_, _, hsame, hfound, h⟩
    · exact ⟨hsame ▸ hedits, Or.inl hfault⟩
    · exact ⟨hsame ▸ hedits, Or.inr (map_eq_error_iff.mp hwhy.symm).symm⟩
    · obtain ⟨staged, hstaged, rfl⟩ := map_eq_ok_iff.mp hfound.symm
      obtain ⟨rfl, rfl⟩ := Ends.pure_iff.mp h
      exact ⟨hsame ▸ hedits, Or.inr hstaged.symm⟩
  · exact ⟨hedits, Or.inl hfault⟩

/-- The second program follows once something is assembled, and the disk is as it
was. -/
theorem Extraction.ends_bind_assembleFile {α : Type} {database : Path} {revision : String}
    {f : Assembly → ExceptT Failure (StateM σ) α} {r : Except Failure α}
    (h : Ends (assembleFile database revision >>= f) u r v) :
    ∃ opened w, Runs (MonadDisk.openDatabase database) u opened w ∧ disk w = disk u ∧
      ((∃ why, assembled opened revision = .error why ∧ r = .error why ∧ v = w) ∨
        ∃ assembly : Assembly, assembled opened revision = .ok assembly.snapshot ∧
          Ends (f assembly) w r v) := by
  rw [assembleFile, bind_assoc] at h
  rcases Ends.bind_iff.mp h with ⟨opened, w, hlift, h⟩ | ⟨_, hlift, _⟩
  · obtain ⟨_, hopened, heq⟩ := Ends.lift_iff.mp hlift
    cases heq
    refine ⟨opened, w, hopened, (FallibleDisk.openDatabase hopened).1, ?_⟩
    rcases Ends.ofExcept_bind_iff.mp h with ⟨assembly, hbuild, h⟩ | ⟨why, hbuild, rfl, rfl⟩
    · exact Or.inr ⟨assembly, by rw [assembled, hbuild]; rfl, h⟩
    · exact Or.inl ⟨why, by rw [assembled, hbuild]; rfl, rfl, rfl⟩
  · obtain ⟨_, _, himpossible⟩ := Ends.lift_iff.mp hlift
    cases himpossible

namespace Pipeline

variable {p : Pipeline} {w : Workspace} {database : Path} {revision diff : String}
  {files directories : List Path} {kept : Set Path}

/-- What may have been read of a database, when everything before has left alone
what is kept. -/
def Opens (kept : Set Path) (database : Path) (u : σ)
    (opened : Except Store.Fault Store.Database) : Prop :=
  ∃ u₁ u₂ : σ, Leaves kept (disk u) (disk u₁) ∧ Runs (MonadDisk.openDatabase database) u₁ opened u₂

/-- What text may have been found at a path then. -/
def Finds (kept : Set Path) (p : Path) (u : σ) (found : Option String) : Prop :=
  ∃ u₁ : σ, Leaves kept (disk u) (disk u₁) ∧ Shows (disk u₁) p found

/-- How renewing a rolling snapshot can end. -/
inductive Renews (kept : Set Path) (rolling database : Path) (revision diff : String) (u : σ) :
    Except Failure (Option Snapshot × Merge.Outcome) → Prop where
  | failed (fault : Fault) : Renews kept rolling database revision diff u (.error (.disk fault))
  | unstaged {opened : Except Store.Fault Store.Database} {why : Failure} :
      Opens kept database u opened → staged opened revision = .error why →
      Renews kept rolling database revision diff u (.error why)
  | absorbed {opened : Except Store.Fault Store.Database} {after : Snapshot}
      {found : Option String} {r : Except Failure (Option Snapshot × Merge.Outcome)} :
      Opens kept database u opened → staged opened revision = .ok after →
      Finds kept rolling u found → r = absorbed after found diff →
      Renews kept rolling database revision diff u r

section

variable {fewer : Set Path} {u₁ : σ}

theorem Opens.of_leaves {opened : Except Store.Fault Store.Database}
    (h : Leaves kept (disk u₁) (disk u)) (hopens : Opens kept database u opened) :
    Opens kept database u₁ opened := by
  obtain ⟨u₂, u₃, hleaves, hopened⟩ := hopens
  exact ⟨u₂, u₃, h.trans hleaves, hopened⟩

theorem Opens.mono {opened : Except Store.Fault Store.Database} (hfewer : fewer ⊆ kept)
    (hopens : Opens kept database u opened) : Opens fewer database u opened := by
  obtain ⟨u₂, u₃, hleaves, hopened⟩ := hopens
  exact ⟨u₂, u₃, hleaves.mono hfewer, hopened⟩

theorem Renews.of_leaves {rolling : Path} {r : Except Failure (Option Snapshot × Merge.Outcome)}
    (h : Leaves kept (disk u₁) (disk u))
    (hrenews : Renews kept rolling database revision diff u r) :
    Renews kept rolling database revision diff u₁ r := by
  cases hrenews with
  | failed fault => exact .failed fault
  | unstaged hopens hstaged => exact .unstaged (hopens.of_leaves h) hstaged
  | absorbed hopens hstaged hfinds hr =>
      obtain ⟨u₂, hleaves, hshows⟩ := hfinds
      exact .absorbed (hopens.of_leaves h) hstaged ⟨u₂, h.trans hleaves, hshows⟩ hr

theorem Renews.mono {rolling : Path} {r : Except Failure (Option Snapshot × Merge.Outcome)}
    (hfewer : fewer ⊆ kept) (hrenews : Renews kept rolling database revision diff u r) :
    Renews fewer rolling database revision diff u r := by
  cases hrenews with
  | failed fault => exact .failed fault
  | unstaged hopens hstaged => exact .unstaged (hopens.mono hfewer) hstaged
  | absorbed hopens hstaged hfinds hr =>
      obtain ⟨u₂, hleaves, hshows⟩ := hfinds
      exact .absorbed (hopens.mono hfewer) hstaged ⟨u₂, hleaves.mono hfewer, hshows⟩ hr

end

/-- What is staged leaves the diff alone, which is there already. -/
theorem ends_stage_snapshot_cases {after : Snapshot} {r : Except Failure Snapshot}
    (hplain : '/' ∉ revision.toList) (hfiles : ∀ f ∈ w.files revision, f ∈ files)
    (hscratch : w.scratch ∈ directories) (hhome : (disk u).home = home)
    (hdiff : (disk u).readText (w.patchFile revision) = .ok diff)
    (h : Ends (after.stage (w.stagedFile revision)) u r v) :
    (Leaves {q | Clear files directories home q} (disk u) (disk v) ∧
        (disk v).readText (w.patchFile revision) = .ok diff) ∧
      ((∃ fault, r = .error (.disk fault)) ∨
        r = (Snapshot.ofJson after.toJson).mapError (·.failure)) := by
  obtain ⟨hedits, hr⟩ : Edits (above home directories)
        {p | p ∈ [w.stagedFile revision, (w.stagedFile revision).draft]} (disk u) (disk v) ∧ _ :=
    Snapshot.ends_stage_cases (fun _ hparent _ hq =>
      mem_above_of_child hscratch (Workspace.isName_staged hplain) hparent hq)
      List.mem_cons_self (List.mem_cons_of_mem _ List.mem_cons_self) h
  have hfewer : {p | p ∈ [w.stagedFile revision, (w.stagedFile revision).draft]} ⊆
      {p | p ∈ files} :=
    fun p hp => hfiles p (List.mem_cons_of_mem _ (List.mem_cons_of_mem _ hp))
  have hspares : Spares (w.patchFile revision) (disk u) (disk v) :=
    hedits.spares (Or.inl (isSome_of_readText hdiff)) (Workspace.patchFile_ne_staged hplain _)
  exact ⟨⟨(hedits.mono (fun _ h => h) hfewer).leaves hhome, hspares.readText hdiff⟩, hr⟩

/-- The diff is put beside a build first, and read once the build is staged. -/
theorem ends_stage_build_cases {after : Snapshot} {r : Except Failure (Snapshot × String)}
    (hplain : '/' ∉ revision.toList) (hfiles : ∀ f ∈ w.files revision, f ∈ files)
    (hscratch : w.scratch ∈ directories) (hhome : (disk u).home = home)
    (hdiff : (disk u).readText (w.patchFile revision) = .ok diff)
    (h : Ends (do
      let staged ← after.stage (w.stagedFile revision)
      return (staged, ← attempt (MonadDisk.readText (w.patchFile revision)))) u r v) :
    Leaves {q | Clear files directories home q} (disk u) (disk v) ∧
      ((∃ fault, r = .error (.disk fault)) ∨
        r = ((Snapshot.ofJson after.toJson).mapError (·.failure)).map (·, diff)) := by
  rcases Ends.bind_cases
      (fun _ _ => ends_stage_snapshot_cases hplain hfiles hscratch hhome hdiff) h with
    ⟨⟨hleaves, _⟩, hfault⟩ | ⟨why, ⟨hleaves, _⟩, hwhy, rfl⟩ |
      ⟨staged, u₁, ⟨hleaves, hdiff⟩, hstaged, h⟩
  · exact ⟨hleaves, Or.inl hfault⟩
  · exact ⟨hleaves, Or.inr (by rw [← hwhy]; rfl)⟩
  · rcases Ends.bind_cases (fun _ _ => ends_readText_cases hdiff) h with
      ⟨hsame, hfault⟩ | ⟨_, _, himpossible, _⟩ | ⟨_, _, hsame, htext, h⟩
    · exact ⟨hsame ▸ hleaves, Or.inl hfault⟩
    · cases himpossible
    · cases htext
      obtain ⟨rfl, rfl⟩ := Ends.pure_iff.mp h
      exact ⟨hsame ▸ hleaves, Or.inr (by rw [← hstaged]; rfl)⟩

/-- Staging gives what the partial build comes to, unless the disk fails. -/
theorem ends_stage_cases {r : Except Failure (Snapshot × String)} (hplain : '/' ∉ revision.toList)
    (hfiles : ∀ f ∈ w.files revision, f ∈ files) (hscratch : w.scratch ∈ directories)
    (hhome : (disk u).home = home) (h : Ends (stage w database revision diff) u r v) :
    Leaves {q | Clear files directories home q} (disk u) (disk v) ∧
      ((∃ fault, r = .error (.disk fault)) ∨
        ∃ opened, Opens {q | Clear files directories home q} database u opened ∧
          r = (staged opened revision).map (·, diff)) := by
  have hpatch : Works (above home directories) {p | p ∈ files}
      (replaceText (w.patchFile revision) diff) :=
    works_replaceText (σ := σ) (fun _ hparent _ hq =>
      mem_above_of_child hscratch (Workspace.isName_patch hplain) hparent hq)
      (hfiles _ List.mem_cons_self) (hfiles _ (List.mem_cons_of_mem _ List.mem_cons_self))
  rcases hpatch.ends_bind_cases hhome h with ⟨_, u₁, hkept, hleaves₁, h⟩ | ⟨hleaves, hfault⟩
  · have hdiff := readText_of_replaceText hkept
    obtain ⟨opened, u₂, hopened, hsame, h⟩ := Extraction.ends_bind_assembleFile h
    have hopens : Opens {q | Clear files directories home q} database u opened :=
      ⟨u₁, u₂, hleaves₁, hopened⟩
    rw [← hsame] at hdiff hleaves₁
    rcases h with ⟨why, hbuild, rfl, rfl⟩ | ⟨assembly, hbuild, h⟩
    · refine ⟨hleaves₁, Or.inr ⟨opened, hopens, ?_⟩⟩
      rw [staged_eq_bind, hbuild]
      rfl
    · obtain ⟨hleaves₂, hfault | hr⟩ := ends_stage_build_cases hplain hfiles hscratch
        (hleaves₁.home.trans hhome) hdiff h
      · exact ⟨hleaves₁.trans hleaves₂, Or.inl hfault⟩
      · refine ⟨hleaves₁.trans hleaves₂, Or.inr ⟨opened, hopens, ?_⟩⟩
        rw [hr, staged_eq_bind, hbuild]
        rfl
  · exact ⟨hleaves, Or.inl hfault⟩

theorem isName_rolling : Path.IsName "snapshot.json" :=
  ⟨⟨by decide, by decide⟩, by decide, by decide⟩

/-- A rolling snapshot is replaced as a whole or left alone. -/
structure Replaces (kept : Set Path) (rolling : Path) (d e : Disk)
    (r : Except Failure (Option Snapshot × Merge.Outcome)) : Prop where
  others : Leaves {q ∈ kept | q.address d.home ≠ rolling.address d.home} d e
  failed : ∀ why, r = .error why → Leaves kept d e
  replaced : ∀ before outcome, r = .ok (before, outcome) →
    e.readText rolling = .ok outcome.snapshot.toJson

theorem Replaces.of_error {rolling : Path} {d e : Disk} {why : Failure} (h : Leaves kept d e) :
    Replaces kept rolling d e (.error why) :=
  ⟨h.mono fun _ hq => hq.1, fun _ _ => h, fun _ _ himpossible => by cases himpossible⟩

/-- The rolling snapshot is there when the second program begins, or the disk has
failed before it was replaced. -/
theorem ends_bind_save_cases {α : Type} {s : Snapshot} {f : Unit → ExceptT Failure (StateM σ) α}
    {r : Except Failure α} (hdraft : (Workspace.rollingFile w.cache).draft ∈ files)
    (hcache : w.cache ∈ directories) (hhome : (disk u).home = home)
    (h : Ends (s.save (Workspace.rollingFile w.cache) >>= f) u r v) :
    (∃ u₁, Leaves {q ∈ {q | Clear files directories home q} |
        q.address (disk u).home ≠ (Workspace.rollingFile w.cache).address (disk u).home}
          (disk u) (disk u₁) ∧
        (disk u₁).readText (Workspace.rollingFile w.cache) = .ok s.toJson ∧ Ends (f ()) u₁ r v) ∨
      Leaves {q | Clear files directories home q} (disk u) (disk v) ∧
        ∃ fault, r = .error (.disk fault) := by
  have hparent : ∀ parent, (Workspace.rollingFile w.cache).parent? = some parent →
      ∀ q ∈ parent.ancestors, q ∈ above home directories :=
    fun _ hparent _ hq => mem_above_of_child hcache isName_rolling hparent hq
  have hsave : Works (above home directories) {p | p ∈ Workspace.rollingFile w.cache :: files}
      (s.save (Workspace.rollingFile w.cache)) :=
    works_replaceText (σ := σ) hparent List.mem_cons_self (List.mem_cons_of_mem _ hdraft)
  rcases Ends.bind_iff.mp h with ⟨_, u₁, hsaved, h⟩ | ⟨why, hsaved, rfl⟩
  · refine Or.inl ⟨u₁, (hsave.leaves hhome hsaved).mono ?_, readText_of_replaceText hsaved, h⟩
    rintro q ⟨hclear, hne⟩
    rw [hhome] at hne
    exact clear_cons_iff.mpr ⟨hclear, hne⟩
  · obtain ⟨fault, rfl⟩ := (hsave _ _ _ hsaved).2 why rfl
    exact Or.inr ⟨(edits_of_failed_replaceText hparent hdraft hsaved).leaves hhome, fault, rfl⟩

theorem ends_absorb_cases {after : Snapshot} {r : Except Failure (Option Snapshot × Merge.Outcome)}
    (hdraft : (Workspace.rollingFile w.cache).draft ∈ files) (hcache : w.cache ∈ directories)
    (hhome : (disk u).home = home) (h : Ends (absorb w after diff) u r v) :
    Replaces {q | Clear files directories home q} (Workspace.rollingFile w.cache) (disk u)
      (disk v) r ∧
      ((∃ fault, r = .error (.disk fault)) ∨
        ∃ found, Shows (disk u) (Workspace.rollingFile w.cache) found ∧
          r = absorbed after found diff) := by
  rcases Ends.bind_cases (fun _ _ => Snapshot.ends_load?_cases) h with
    ⟨hsame, fault, rfl⟩ | ⟨why, hsame, ⟨found, hshows, hloaded⟩, rfl⟩ |
      ⟨before, u₁, hsame, ⟨found, hshows, hloaded⟩, h⟩
  · exact ⟨.of_error (hsame ▸ .refl _ _), Or.inl ⟨fault, rfl⟩⟩
  · refine ⟨.of_error (hsame ▸ .refl _ _), Or.inr ⟨found, hshows, ?_⟩⟩
    rw [absorbed, ← hloaded]
    rfl
  · rw [← hsame] at hhome hshows ⊢
    rcases Ends.ofExcept_bind_iff.mp h with ⟨outcome, hadvance, h⟩ | ⟨why, hadvance, rfl, rfl⟩
    · have habsorbed : absorbed after found diff = .ok (before, outcome) :=
        absorbed_eq_ok_iff.mpr ⟨hloaded.symm, hadvance⟩
      rcases ends_bind_save_cases hdraft hcache hhome h with
        ⟨u₂, hothers, htext, h⟩ | ⟨hleaves, fault, rfl⟩
      · obtain ⟨rfl, rfl⟩ := Ends.pure_iff.mp h
        refine ⟨⟨hothers, fun _ himpossible => (by cases himpossible), ?_⟩,
          Or.inr ⟨found, hshows, habsorbed.symm⟩⟩
        intro _ _ heq
        cases heq
        exact htext
      · exact ⟨.of_error hleaves, Or.inl ⟨fault, rfl⟩⟩
    · refine ⟨.of_error (.refl _ _), Or.inr ⟨found, hshows, ?_⟩⟩
      rw [absorbed, ← hloaded]
      show _ = (Rolling.advance before after diff >>= _)
      rw [hadvance]
      rfl

theorem Replaces.after {rolling : Path} {d e f : Disk}
    {r : Except Failure (Option Snapshot × Merge.Outcome)} (h : Leaves kept d e)
    (h' : Replaces kept rolling e f r) : Replaces kept rolling d f r := by
  obtain ⟨hothers, hfailed, hreplaced⟩ := h'
  rw [h.home] at hothers
  exact ⟨(h.mono fun _ hq => hq.1).trans hothers, fun why hr => h.trans (hfailed why hr), hreplaced⟩

theorem Replaces.mono {fewer : Set Path} {rolling : Path} {d e : Disk}
    {r : Except Failure (Option Snapshot × Merge.Outcome)} (hfewer : fewer ⊆ kept)
    (h : Replaces kept rolling d e r) : Replaces fewer rolling d e r :=
  ⟨h.others.mono fun _ hq => ⟨hfewer hq.1, hq.2⟩, fun why hr => (h.failed why hr).mono hfewer,
    h.replaced⟩

theorem ends_renew_cases {r : Except Failure (Option Snapshot × Merge.Outcome)}
    (hplain : '/' ∉ revision.toList) (hfiles : ∀ f ∈ w.files revision, f ∈ files)
    (hdraft : (Workspace.rollingFile w.cache).draft ∈ files) (hscratch : w.scratch ∈ directories)
    (hcache : w.cache ∈ directories) (hhome : (disk u).home = home)
    (h : Ends (renew w database revision diff) u r v) :
    Replaces {q | Clear files directories home q} (Workspace.rollingFile w.cache) (disk u)
        (disk v) r ∧
      Renews {q | Clear files directories home q} (Workspace.rollingFile w.cache) database
        revision diff u r := by
  rcases Ends.bind_cases (fun _ _ => ends_stage_cases hplain hfiles hscratch hhome) h with
    ⟨hleaves, fault, rfl⟩ | ⟨why, hleaves, ⟨opened, hopens, hstaged⟩, rfl⟩ |
      ⟨_, u₁, hleaves, ⟨opened, hopens, hstaged⟩, h⟩
  · exact ⟨.of_error hleaves, .failed fault⟩
  · exact ⟨.of_error hleaves, .unstaged hopens (map_eq_error_iff.mp hstaged.symm)⟩
  · obtain ⟨after, hbuild, rfl⟩ := map_eq_ok_iff.mp hstaged.symm
    obtain ⟨hreplaces, ⟨fault, rfl⟩ | ⟨found, hshows, hr⟩⟩ :=
      ends_absorb_cases hdraft hcache (hleaves.home.trans hhome) h
    · exact ⟨hreplaces.after hleaves, .failed fault⟩
    · exact ⟨hreplaces.after hleaves, .absorbed hopens hbuild ⟨u₁, hleaves, hshows⟩ hr⟩

end Pipeline

end

/-! ## A renewal -/

namespace Pipeline

open Merge (editTables editedTables editPatch editDiff builtBefore builtInPart editOutcome)

/-- The database of a build, and that of a later build of the file that was edited. -/
def sampleStart : Disk :=
  ⟨[(["home"], .directory),
    (["home", "full"], .file ⟨.database (.ofTables editTables), false⟩),
    (["home", "part"], .file ⟨.database (.ofTables (editedTables.within editPatch.paths)), false⟩),
    (["home", "taken"], .directory)], ["home"]⟩

def sampleWorkspace : Workspace :=
  ⟨⟨"cache"⟩, ⟨"cache/revgraph.lock"⟩, ⟨"work"⟩, false⟩

def sampleEntered (isLocked : Bool) : List (Address × Entry) :=
  sampleStart.entries ++ [(["home", "cache"], .directory),
    (["home", "cache", "revgraph.lock"], .file ⟨.text "", isLocked⟩),
    (["home", "work"], .directory)]

def sampleDisk (isLocked : Bool) (rolling : Snapshot) (scratch : List (Address × Entry)) : Disk :=
  ⟨sampleEntered isLocked ++
    (["home", "cache", "snapshot.json"], .file ⟨.text rolling.toJson, false⟩) :: scratch, ["home"]⟩

def samplePatch : Address × Entry :=
  (["home", "work", "patch_r2.diff"], .file ⟨.text editDiff, false⟩)

def sampleStaged : Address × Entry :=
  (["home", "work", "after_r2.json"], .file ⟨.text builtInPart.toJson, false⟩)

theorem assembled_full : Extraction.assembled (.ok (.ofTables editTables)) "r1" = .ok builtBefore :=
  assembled_eq_ok_iff.mpr ⟨_, editTables, rfl, Store.Database.load_ofTables (by decide) (by decide),
    Merge.assemble_builtBefore⟩

theorem assembled_part :
    Extraction.assembled (.ok (.ofTables (editedTables.within editPatch.paths))) "r2" =
      .ok builtInPart :=
  assembled_eq_ok_iff.mpr ⟨_, editedTables.within editPatch.paths, rfl,
    Store.Database.load_ofTables (by decide +kernel) (by decide), Merge.assemble_builtInPart⟩

theorem ends_stage_sample :
    Ends (stage sampleWorkspace ⟨"part"⟩ "r2" editDiff) (sampleDisk true builtBefore [])
      (.ok (builtInPart, editDiff)) (sampleDisk true builtBefore [samplePatch, sampleStaged]) := by
  have hpatch : Ends (replaceText (sampleWorkspace.patchFile "r2") editDiff)
      (sampleDisk true builtBefore []) (.ok ()) (sampleDisk true builtBefore [samplePatch]) := by
    decide +kernel
  have hopened : Runs (MonadDisk.openDatabase ⟨"part"⟩) (sampleDisk true builtBefore [samplePatch])
      (.ok (.ofTables (editedTables.within editPatch.paths)))
      (sampleDisk true builtBefore [samplePatch]) := by
    decide +kernel
  have hsaved : Ends (builtInPart.save (sampleWorkspace.stagedFile "r2"))
      (sampleDisk true builtBefore [samplePatch]) (.ok ())
      (sampleDisk true builtBefore [samplePatch, sampleStaged]) := by
    decide +kernel
  have hdiff : Ends (attempt (MonadDisk.readText (sampleWorkspace.patchFile "r2")))
      (sampleDisk true builtBefore [samplePatch, sampleStaged]) (.ok editDiff)
      (sampleDisk true builtBefore [samplePatch, sampleStaged]) := by
    decide +kernel
  obtain ⟨_, hassembled⟩ := Extraction.ends_assembleFile_of_assembled hopened assembled_part
  have hstaged := Merge.wellFormed_builtInPart.ends_stage (by decide) hsaved
  refine Ends.bind_iff.mpr (Or.inl ⟨_, _, hpatch, ?_⟩)
  refine Ends.bind_iff.mpr (Or.inl ⟨_, _, hassembled, ?_⟩)
  refine Ends.bind_iff.mpr (Or.inl ⟨_, _, hstaged, ?_⟩)
  exact Ends.bind_iff.mpr (Or.inl ⟨_, _, hdiff, Ends.pure_iff.mpr ⟨rfl, rfl⟩⟩)

theorem ends_renew_sample :
    Ends (renew sampleWorkspace ⟨"part"⟩ "r2" editDiff) (sampleDisk true builtBefore [])
      (.ok (some builtBefore, editOutcome))
      (sampleDisk true editOutcome.snapshot [samplePatch, sampleStaged]) := by
  have hrolling : Holds (sampleDisk true builtBefore [samplePatch, sampleStaged])
      (Workspace.rollingFile sampleWorkspace.cache) (some builtBefore.toJson) := by
    decide +kernel
  have hsaved : Ends (editOutcome.snapshot.save (Workspace.rollingFile sampleWorkspace.cache))
      (sampleDisk true builtBefore [samplePatch, sampleStaged]) (.ok ())
      (sampleDisk true editOutcome.snapshot [samplePatch, sampleStaged]) := by
    decide +kernel
  have hloaded := Merge.wellFormed_builtBefore.ends_load? (by decide) hrolling
  have hadvanced : Rolling.advance (some builtBefore) builtInPart editDiff = .ok editOutcome :=
    Merge.alongDiff_edit
  refine Ends.bind_iff.mpr (Or.inl ⟨_, _, ends_stage_sample, ?_⟩)
  refine Ends.bind_iff.mpr (Or.inl ⟨_, _, hloaded, ?_⟩)
  refine Ends.bind_iff.mpr (Or.inl ⟨_, _, Ends.ofExcept_iff.mpr ⟨hadvanced.symm, rfl⟩, ?_⟩)
  exact Ends.bind_iff.mpr (Or.inl ⟨_, _, hsaved, Ends.pure_iff.mpr ⟨rfl, rfl⟩⟩)

end Pipeline

end CallAtlas
