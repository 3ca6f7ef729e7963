import CallAtlas.Proofs.Disk.Programs

/-!
# Directories that programs need

A directory that was made is there, and one that is there need not be made. A file can be
written again where one has been written.
-/

namespace CallAtlas.Disk

open FallibleDisk (disk)

section

variable {d e : Disk} {p : Path}

theorem hasDirectory_iff : d.hasDirectory p ↔ ∃ a, d.find p = .ok a ∧ d.isDirectoryAt a := by
  rw [hasDirectory]
  cases d.find p <;> simp

theorem Keeps.hasDirectory (h : Keeps d e) (hdir : d.hasDirectory p) : e.hasDirectory p := by
  obtain ⟨a, hfind, ha⟩ := hasDirectory_iff.mp hdir
  have ha' := h.directory a ha
  refine hasDirectory_iff.mpr ⟨a, find_of_kept h.home (fun b _ => h.directory b) ?_ hfind, ha'⟩
  rw [isDirectoryAt_iff.mp ha']
  rfl

theorem hasDirectory_of_makeDirectory (h : d.makeDirectory p = .ok e) : e.hasDirectory p := by
  have hkeeps := (makeDirectory_spec h).1
  obtain ⟨a, hplace, _, rfl⟩ := makeDirectory_eq_ok_iff.mp h
  have hentry : (d.set a .directory).entryAt? a = some .directory := by
    rw [entry_set (ne_nil_of_place hplace), if_pos rfl]
  have hplace' := place_of_kept hkeeps.home (fun b _ => hkeeps.directory b) hplace
  have ha := isDirectoryAt_iff.mpr hentry
  exact hasDirectory_iff.mpr ⟨a, find_of_place hplace' (fun _ => ha) (by rw [hentry]; rfl), ha⟩

theorem makeDirectory_ne_ok (h : d.hasDirectory p) : d.makeDirectory p ≠ .ok e := by
  intro hmade
  obtain ⟨a, hfind, ha⟩ := hasDirectory_iff.mp h
  obtain ⟨_, hnone, _⟩ := makeDirectory_spec hmade
  rw [← address_of_find hfind, isDirectoryAt_iff.mp ha] at hnone
  cases hnone

/-- A path with no directory above it, or whose directory is there. -/
def HasParent (d : Disk) (p : Path) : Prop :=
  ∀ parent, p.parent? = some parent → parent.text.isEmpty ∨ d.hasDirectory parent

theorem HasParent.of_keeps (h : HasParent d p) (hkeeps : Keeps d e) : HasParent e p :=
  fun parent hparent => (h parent hparent).imp id hkeeps.hasDirectory

/-- A file can be written at the path: its directory is there, and no directory stands
in the place of the file. -/
structure Open (d : Disk) (p : Path) : Prop where
  hasParent : HasParent d p
  not_endsInSlash : ¬ p.endsInSlash
  place : ∃ a, d.place p = .ok (some a) ∧ ¬ d.isDirectoryAt a

theorem Open.exists_change (h : Open d p) (f : File → File) : ∃ e, d.change p f = .ok e := by
  obtain ⟨a, hplace, hdir⟩ := h.place
  obtain ⟨old, hold⟩ : ∃ old, d.entryAt? a = some (.file old) ∨
      d.entryAt? a = none ∧ old = .empty := by
    rw [isDirectoryAt_iff] at hdir
    cases hentry : d.entryAt? a with
    | none => exact ⟨.empty, Or.inr ⟨rfl, rfl⟩⟩
    | some entry =>
        cases entry with
        | directory => exact absurd hentry hdir
        | file old => exact ⟨old, Or.inl rfl⟩
  exact ⟨_, change_eq_ok_iff.mpr ⟨a, old, hplace, h.not_endsInSlash, hold, rfl⟩⟩

theorem open_of_change {f : File → File} (hparent : HasParent d p) (h : d.change p f = .ok e) :
    Open e p := by
  have hkeeps := (change_spec h).1
  obtain ⟨a, old, hplace, hslash, _, rfl⟩ := change_eq_ok_iff.mp h
  refine ⟨hparent.of_keeps hkeeps, hslash, a, ?_, ?_⟩
  · exact place_of_kept hkeeps.home (fun b _ => hkeeps.directory b) hplace
  · rw [isDirectoryAt_iff, entry_set (ne_nil_of_place hplace), if_pos rfl]
    simp

end

section

variable {σ : Type} [MonadDisk (StateM σ)] [FallibleDisk σ] {p : Path} {above : List Path} {s t : σ}

theorem hasDirectory_of_settle (h : Runs (settle p) s (.ok ()) t) : (disk t).hasDirectory p := by
  obtain ⟨made, u, hmade, hrest⟩ := runs_bind_iff.mp h
  cases made with
  | ok _ =>
      obtain ⟨_, rfl⟩ := runs_pure_iff.mp hrest
      exact hasDirectory_of_makeDirectory ((FallibleDisk.makeDirectory hmade).1 rfl)
  | error why =>
      obtain ⟨found, v, hfound, hpure⟩ := runs_bind_iff.mp hrest
      obtain ⟨hok, rfl⟩ := runs_pure_iff.mp hpure
      obtain ⟨hdisk, rfl⟩ := FallibleDisk.hasDirectory hfound
      rw [hdisk]
      by_contra hmissing
      rw [if_neg hmissing] at hok
      cases hok

theorem hasDirectory_of_settleAll (h : Runs (settleAll (p :: above)) s (.ok ()) t) :
    p.text.isEmpty ∨ (disk t).hasDirectory p := by
  rw [settleAll] at h
  split at h
  · exact Or.inl ‹_›
  · refine Or.inr ?_
    obtain ⟨first, u, hfirst, hrest⟩ := runs_bind_iff.mp h
    split at hrest
    · obtain ⟨rest, v, _, hlast⟩ := runs_bind_iff.mp hrest
      cases rest with
      | ok _ => exact hasDirectory_of_settle hlast
      | error why => cases (runs_pure_iff.mp hlast).1
    · obtain ⟨rfl, rfl⟩ := runs_pure_iff.mp hrest
      exact hasDirectory_of_settle hfirst

theorem hasParent_of_makeParent (h : Ends (makeParent p) s (.ok ()) t) : HasParent (disk t) p := by
  intro parent hparent
  rw [makeParent, hparent] at h
  obtain ⟨_, hruns, hok⟩ := Ends.attempt_iff.mp h
  obtain rfl := mapError_eq_ok_iff.mp hok.symm
  exact hasDirectory_of_settleAll hruns

end

/-! ## Disks that fail only where they have to -/

section

variable {d e : Disk} {p : Path} {change : Disk → Except Fault Disk}

theorem runs_update_of_ok (h : change d = .ok e) : Runs (update change) d (.ok ()) e := by
  simp only [Runs, update, StateT.run, h]
  rfl

theorem runs_update_of_error {why : Fault} (h : change d = .error why) :
    Runs (update change) d (.error why) d := by
  simp only [Runs, update, StateT.run, h]
  rfl

theorem runs_settle_of_hasDirectory (h : d.hasDirectory p) : Runs (settle p) d (.ok ()) d := by
  obtain ⟨why, hwhy⟩ : ∃ why, d.makeDirectory p = .error why := by
    cases hmade : d.makeDirectory p with
    | ok e => exact absurd hmade (makeDirectory_ne_ok h)
    | error why => exact ⟨why, rfl⟩
  refine runs_bind_iff.mpr ⟨_, _, runs_update_of_error hwhy, ?_⟩
  refine runs_bind_iff.mpr ⟨d.hasDirectory p, d, rfl, ?_⟩
  rw [h]
  exact runs_pure_iff.mpr ⟨rfl, rfl⟩

theorem ends_makeParent_of_hasParent (h : HasParent d p) : Ends (makeParent p) d (.ok ()) d := by
  rw [makeParent]
  cases hparent : p.parent? with
  | none => exact Ends.pure_iff.mpr ⟨rfl, rfl⟩
  | some parent =>
      refine Ends.attempt_iff.mpr ⟨.ok (), ?_, rfl⟩
      show Runs (settleAll (parent :: _)) d (.ok ()) d
      rw [settleAll]
      rcases h parent hparent with hempty | hdir
      · rw [if_pos hempty]
        exact runs_pure_iff.mpr ⟨rfl, rfl⟩
      · split
        · exact runs_pure_iff.mpr ⟨rfl, rfl⟩
        · exact runs_bind_iff.mpr ⟨_, _, runs_settle_of_hasDirectory hdir,
            runs_pure_iff.mpr ⟨rfl, rfl⟩⟩

end

end CallAtlas.Disk
