import CallAtlas.Proofs.Disk.Programs
import CallAtlas.Workspace

/-!
# What working in a workspace does to a disk

Entering a workspace makes its directories and takes its lock; leaving it gives
the lock back and removes what is temporary. Nothing else on the disk notices,
however the work in between ends.
-/

namespace CallAtlas

variable {σ α β : Type}

theorem Ends.tryCatch_iff {x : ExceptT Failure (StateM σ) α}
    {f : Failure → ExceptT Failure (StateM σ) α} {s t : σ} {r : Except Failure α} :
    Ends (tryCatch x f) s r t ↔ (∃ a, Ends x s (.ok a) t ∧ r = .ok a) ∨
      ∃ why u, Ends x s (.error why) u ∧ Ends (f why) u r t := by
  rw [Ends, ExceptT.run_tryCatch, runs_bind_iff]
  constructor
  · rintro ⟨first, u, hx, hf⟩
    cases first with
    | ok a =>
        obtain ⟨rfl, rfl⟩ := runs_pure_iff.mp hf
        exact Or.inl ⟨a, hx, rfl⟩
    | error why => exact Or.inr ⟨why, u, hx, hf⟩
  · rintro (⟨a, hx, rfl⟩ | ⟨why, u, hx, hf⟩)
    · exact ⟨_, t, hx, runs_pure_iff.mpr ⟨rfl, rfl⟩⟩
    · exact ⟨_, u, hx, hf⟩

namespace Disk

/-! ## What is left alone -/

/-- What these paths lead to stays as it was, and no database is new. -/
structure Leaves (kept : Set Path) (d e : Disk) : Prop where
  home : e.home = d.home
  spares : ∀ q ∈ kept, Spares q d e
  databases : ∀ db, HoldsDatabase e db → HoldsDatabase d db

namespace Leaves

variable {kept fewer : Set Path} {d e f : Disk}

theorem refl (kept : Set Path) (d : Disk) : Leaves kept d d :=
  ⟨rfl, fun q _ => .refl q d, fun _ h => h⟩

theorem trans (h : Leaves kept d e) (h' : Leaves kept e f) : Leaves kept d f :=
  ⟨h'.home.trans h.home, fun q hq => (h.spares q hq).trans (h'.spares q hq),
    fun db hdb => h.databases db (h'.databases db hdb)⟩

theorem mono (h : Leaves kept d e) (hfewer : fewer ⊆ kept) : Leaves fewer d e :=
  ⟨h.home, fun q hq => h.spares q (hfewer hq), h.databases⟩

end Leaves

section

variable {files directories : List Path} {home : Address} {makes writes : Set Path} {d e : Disk}

/-- The paths that lead to one of these directories or above it. -/
def above (home : Address) (directories : List Path) : Set Path :=
  {p | ∃ dir ∈ directories, ∃ b ∈ dir.ancestors, p.address home = b.address home}

/-- A path that has nothing to do with these files and directories: it leads to
none of the files, to none of the directories and to nothing above them. -/
structure Clear (files directories : List Path) (home : Address) (q : Path) : Prop where
  file : ∀ f ∈ files, q.address home ≠ f.address home
  directory : ∀ dir ∈ directories, ∀ b ∈ dir.ancestors, q.address home ≠ b.address home
  lasting : Lasting q home

theorem Clear.mono {fewer : List Path} {fewerDirectories : List Path} {q : Path}
    (h : Clear files directories home q) (hfiles : ∀ f ∈ fewer, f ∈ files)
    (hdirectories : ∀ dir ∈ fewerDirectories, dir ∈ directories) :
    Clear fewer fewerDirectories home q :=
  ⟨fun f hf => h.file f (hfiles f hf), fun dir hdir => h.directory dir (hdirectories dir hdir),
    h.lasting⟩

theorem clear_cons_iff {f q : Path} : Clear (f :: files) directories home q ↔
    Clear files directories home q ∧ q.address home ≠ f.address home := by
  constructor
  · intro h
    exact ⟨h.mono (fun _ => List.mem_cons_of_mem _) fun _ h => h, h.file f List.mem_cons_self⟩
  · rintro ⟨hclear, hne⟩
    refine ⟨fun g hg => ?_, hclear.directory, hclear.lasting⟩
    rcases List.mem_cons.mp hg with rfl | hg
    · exact hne
    · exact hclear.file g hg

theorem Edits.leaves (h : Edits (above home directories) {p | p ∈ files} d e)
    (hhome : d.home = home) : Leaves {q | Clear files directories home q} d e := by
  subst hhome
  refine ⟨h.keeps.home, fun q hq => h.spares (Or.inr ?_) hq.file, fun _ => h.holdsDatabase⟩
  rintro p ⟨dir, hdir, b, hb, heq⟩
  rw [heq]
  exact hq.directory dir hdir b hb

theorem leaves_makeScratch {kept : Set Path} (h : ∀ q ∈ kept, Lasting q d.home) :
    Leaves kept d d.makeScratch.2 :=
  ⟨rfl, fun q hq => (h q hq).spares_makeScratch, fun _ => holdsDatabase_of_makeScratch⟩

theorem leaves_dropScratch {kept : Set Path} (h : ∀ q ∈ kept, Lasting q d.home) (n : Nat) :
    Leaves kept d (d.dropScratch (scratchPath n)) := by
  refine ⟨?_, fun q hq => (h q hq).spares_dropScratch n, fun _ => holdsDatabase_of_dropScratch⟩
  rw [dropScratch]
  cases d.find (scratchPath n) <;> rfl

theorem mem_above_of_ancestor {dir p : Path} (hdir : dir ∈ directories) (hp : p ∈ dir.ancestors) :
    p ∈ above home directories :=
  ⟨dir, hdir, p, hp, rfl⟩

/-- What is made for a name in a directory leads to the directory or above it. -/
theorem mem_above_of_child {dir parent p : Path} {name : String} (hdir : dir ∈ directories)
    (hname : Path.IsName name) (hparent : (dir.child name).parent? = some parent)
    (hp : p ∈ parent.ancestors) : p ∈ above home directories := by
  have haddress : p.address home ∈ dir.ancestors.map (·.address home) := by
    rw [← Path.map_address_ancestors hname hparent]
    exact List.mem_map_of_mem hp
  obtain ⟨b, hb, heq⟩ := List.mem_map.mp haddress
  exact ⟨dir, hdir, b, hb, heq.symm⟩

end

section

open FallibleDisk (disk)

variable [MonadDisk (StateM σ)] [FallibleDisk σ] {files directories : List Path}
  {home : Address} {u v : σ}

theorem Works.leaves {x : ExceptT Failure (StateM σ) α} {r : Except Failure α}
    (hx : Works (above home directories) {p | p ∈ files} x) (hhome : (disk u).home = home)
    (h : Ends x u r v) : Leaves {q | Clear files directories home q} (disk u) (disk v) :=
  (hx u r v h).1.leaves hhome

/-- What the first program does leaves alone what is clear of its paths. -/
theorem Works.ends_bind_cases {x : ExceptT Failure (StateM σ) β}
    {f : β → ExceptT Failure (StateM σ) α} {r : Except Failure α}
    (hx : Works (above home directories) {p | p ∈ files} x) (hhome : (disk u).home = home)
    (h : Ends (x >>= f) u r v) :
    (∃ b w, Ends x u (.ok b) w ∧ Leaves {q | Clear files directories home q} (disk u) (disk w) ∧
        Ends (f b) w r v) ∨
      Leaves {q | Clear files directories home q} (disk u) (disk v) ∧
        ∃ fault, r = .error (.disk fault) := by
  rcases hx.bind_cases h with ⟨b, w, hfirst, hedits, hrest⟩ | ⟨hedits, hfault⟩
  · exact Or.inl ⟨b, w, hfirst, hedits.leaves hhome, hrest⟩
  · exact Or.inr ⟨hedits.leaves hhome, hfault⟩

end

end Disk

namespace Workspace

open Disk FallibleDisk

def lockFile (s : Settings) : Path :=
  s.cache.child "revgraph.lock"

/-- It is what one gets with those settings. -/
structure IsOf (w : Workspace) (s : Settings) : Prop where
  cache : w.cache = s.cache
  lock : w.lock = lockFile s
  scratch : s.workDir = some w.scratch ∧ w.isTemporary = false ∨
    s.workDir = none ∧ w.isTemporary = true ∧ ∃ n, w.scratch = scratchPath n

section

variable [MonadDisk (StateM σ)] {s : Settings} {u v : σ}

theorem ends_unlock_iff {p : Path} {r : Except Failure Unit} :
    Ends (unlock p) u r v ↔ ∃ a, Runs (MonadDisk.unlock p) u a v ∧ r = .ok a :=
  Ends.lift_iff

/-- A workspace can always be left: what is temporary is dropped, then the lock is
given back. -/
theorem ends_leave_cases {w : Workspace} {r : Except Failure Unit} (h : Ends w.leave u r v) :
    r = .ok () ∧ ∃ u', (u' = u ∨
      w.isTemporary = true ∧ ∃ a, Runs (MonadDisk.dropScratch w.scratch) u a u') ∧
      ∃ a, Runs (MonadDisk.unlock w.lock) u' a v := by
  rw [leave] at h
  cases htemporary : w.isTemporary with
  | false =>
      rw [htemporary] at h
      obtain ⟨a, hruns, rfl⟩ := ends_unlock_iff.mp h
      exact ⟨rfl, u, Or.inl rfl, a, hruns⟩
  | true =>
      rw [htemporary] at h
      rcases Ends.bind_iff.mp h with ⟨_, u', hdrop, h⟩ | ⟨_, hdrop, _⟩
      · obtain ⟨_, hdropped, _⟩ := Ends.lift_iff.mp hdrop
        obtain ⟨a, hruns, rfl⟩ := ends_unlock_iff.mp h
        exact ⟨rfl, u', Or.inr ⟨rfl, _, hdropped⟩, a, hruns⟩
      · obtain ⟨_, _, himpossible⟩ := Ends.lift_iff.mp hdrop
        cases himpossible

/-- Work is done between entering and leaving, and its result is the result. -/
theorem ends_within_cases {work : Workspace → ExceptT Failure (StateM σ) α} {r : Except Failure α}
    (h : Ends (within s work) u r v) :
    (∃ why, Ends (enter s) u (.error why) v ∧ r = .error why) ∨
      ∃ w u₁ u₂, Ends (enter s) u (.ok w) u₁ ∧ Ends (work w) u₁ r u₂ ∧
        Ends w.leave u₂ (.ok ()) v := by
  rcases Ends.bind_iff.mp h with ⟨w, u₁, henter, h⟩ | hfailed
  · rcases Ends.bind_iff.mp h with ⟨result, u₂, hlift, h⟩ | ⟨_, hlift, _⟩
    · obtain ⟨_, hwork, heq⟩ := Ends.lift_iff.mp hlift
      cases heq
      rcases Ends.bind_iff.mp h with ⟨_, _, hleave, h⟩ | ⟨_, hleave, _⟩
      · obtain ⟨rfl, rfl⟩ := Ends.ofExcept_iff.mp h
        exact Or.inr ⟨w, u₁, u₂, henter, hwork, hleave⟩
      · cases (ends_leave_cases hleave).1
    · obtain ⟨_, _, himpossible⟩ := Ends.lift_iff.mp hlift
      cases himpossible
  · exact Or.inl hfailed

theorem ends_within_of_ends {w : Workspace} {work : Workspace → ExceptT Failure (StateM σ) α}
    {r : Except Failure α} {u₁ u₂ : σ} (henter : Ends (enter s) u (.ok w) u₁)
    (hwork : Ends (work w) u₁ r u₂) (hleave : Ends w.leave u₂ (.ok ()) v) :
    Ends (within s work) u r v := by
  refine Ends.bind_iff.mpr (Or.inl ⟨w, u₁, henter, ?_⟩)
  refine Ends.bind_iff.mpr (Or.inl ⟨r, u₂, Ends.lift_iff.mpr ⟨r, hwork, rfl⟩, ?_⟩)
  exact Ends.bind_iff.mpr (Or.inl ⟨(), v, hleave, Ends.ofExcept_iff.mpr ⟨rfl, rfl⟩⟩)

end

section

variable [MonadDisk (StateM σ)] [FallibleDisk σ] {s : Settings} {files directories : List Path}
  {makes writes : Set Path} {home : Address} {u v : σ}

theorem edits_unlock {p : Path} {a : Unit} (hp : p ∈ writes)
    (h : Runs (MonadDisk.unlock p) u a v) : Edits makes writes (disk u) (disk v) := by
  have hedit : ∀ {d e : Disk}, (d.change p fun f => { f with isLocked := false }) = .ok e →
      Edits makes writes d e :=
    fun hchanged => .single (.content (f := fun f => ⟨f.content, false⟩) hp
      (fun _ _ hdb => hdb) hchanged)
  rcases FallibleDisk.unlock h with hunlocked | hsame
  · rw [hunlocked, Disk.unlock]
    cases (disk u).file p with
    | error _ => exact .refl
    | ok _ =>
        cases hchanged : (disk u).change p fun f => { f with isLocked := false } with
        | error _ => exact .refl
        | ok e => exact hedit hchanged
  · rw [hsame]
    exact .refl

theorem edits_lock {p : Path} {r : Except Fault Bool} (hp : p ∈ writes)
    (h : Runs (MonadDisk.lock p) u r v) : Edits makes writes (disk u) (disk v) := by
  obtain ⟨hok, herror⟩ := FallibleDisk.lock h
  cases r with
  | error fault =>
      rw [herror fault rfl]
      exact .refl
  | ok free =>
      have hlock := hok free rfl
      simp only [Disk.lock, bind_eq_ok_iff] at hlock
      obtain ⟨opened, hopened, f, _, hlocked⟩ := hlock
      have hfirst : Edits makes writes (disk u) opened :=
        .single (.content hp (fun _ _ hdb => hdb) hopened)
      split at hlocked
      · cases pure_eq_ok_iff.mp hlocked
        exact hfirst
      · obtain ⟨locked, hchanged, hpure⟩ := bind_eq_ok_iff.mp hlocked
        cases pure_eq_ok_iff.mp hpure
        exact hfirst.tail (.content (f := fun f => ⟨f.content, true⟩) hp
          (fun _ _ hdb => hdb) hchanged)

theorem ends_withScratch_cases {r : Except Failure Workspace}
    (hwork : ∀ dir, s.workDir = some dir → dir ∈ directories) (hhome : (disk u).home = home)
    (h : Ends (withScratch s (lockFile s)) u r v) :
    Leaves {q | Clear files directories home q} (disk u) (disk v) ∧
      ((∃ w, r = .ok w ∧ w.IsOf s) ∨ ∃ fault, r = .error (.disk fault)) := by
  rw [withScratch] at h
  cases hdir : s.workDir with
  | some dir =>
      rw [hdir] at h
      have hworks : Works (above home directories) {p | p ∈ files} (ensureDirectory dir) :=
        works_ensureDirectory (σ := σ) fun q hq => mem_above_of_ancestor (hwork dir hdir) hq
      rcases hworks.ends_bind_cases hhome h with ⟨_, _, _, hleaves, h⟩ | ⟨hleaves, hfault⟩
      · obtain ⟨rfl, rfl⟩ := Ends.pure_iff.mp h
        exact ⟨hleaves, Or.inl ⟨_, rfl, rfl, rfl, Or.inl ⟨hdir, rfl⟩⟩⟩
      · exact ⟨hleaves, Or.inr hfault⟩
  | none =>
      rw [hdir] at h
      rcases Ends.bind_iff.mp h with ⟨p, _, hmade, hpure⟩ | ⟨why, hmade, rfl⟩
      · obtain ⟨rfl, rfl⟩ := Ends.pure_iff.mp hpure
        obtain ⟨q, hscratch, hq⟩ := Ends.attempt_iff.mp hmade
        have hmade := (FallibleDisk.makeScratch hscratch).1 p (mapError_eq_ok_iff.mp hq.symm)
        have hleaves :
            Leaves {q | Clear files directories home q} (disk u) (disk u).makeScratch.2 :=
          leaves_makeScratch fun q hq => hhome ▸ hq.lasting
        rw [hmade] at hleaves
        obtain ⟨n, hn⟩ := makeScratch_eq (disk u)
        rw [hmade] at hn
        exact ⟨hleaves, Or.inl ⟨_, rfl, rfl, rfl, Or.inr ⟨hdir, rfl, n, (Prod.mk.inj hn).1⟩⟩⟩
      · obtain ⟨q, hscratch, hq⟩ := Ends.attempt_iff.mp hmade
        obtain ⟨fault, hfault, rfl⟩ := mapError_eq_error_iff.mp hq.symm
        rw [(FallibleDisk.makeScratch hscratch).2 fault hfault]
        exact ⟨.refl _ _, Or.inr ⟨fault, rfl⟩⟩

theorem isName_lock : Path.IsName "revgraph.lock" :=
  ⟨⟨by decide, by decide⟩, by decide, by decide⟩

theorem works_unlock {p : Path} (hp : p ∈ writes) :
    Works makes writes (unlock p : ExceptT Failure (StateM σ) Unit) := by
  intro u r v h
  obtain ⟨_, hruns, rfl⟩ := Ends.lift_iff.mp h
  exact ⟨edits_unlock hp hruns, fun _ himpossible => by cases himpossible⟩

/-- The lock is asked for once there is a place for it, unless the disk fails. -/
theorem ends_bind_lock_cases {f : Bool → ExceptT Failure (StateM σ) α} {r : Except Failure α}
    (hlock : lockFile s ∈ files) (hcache : s.cache ∈ directories) (hhome : (disk u).home = home)
    (h : Ends (do
      ensureDirectory s.cache
      makeParent (lockFile s)
      let free ← attempt (MonadDisk.lock (lockFile s))
      f free) u r v) :
    (∃ free w, Leaves {q | Clear files directories home q} (disk u) (disk w) ∧
        Ends (f free) w r v) ∨
      Leaves {q | Clear files directories home q} (disk u) (disk v) ∧
        ∃ fault, r = .error (.disk fault) := by
  have hworks : Works (above home directories) {p | p ∈ files} (do
      ensureDirectory s.cache
      makeParent (lockFile s)
      attempt (MonadDisk.lock (lockFile s)) : ExceptT Failure (StateM σ) Bool) :=
    .bind (works_ensureDirectory fun _ hq => mem_above_of_ancestor hcache hq) fun _ =>
      .bind (works_makeParent fun _ hparent _ hq =>
        mem_above_of_child hcache isName_lock hparent hq) fun _ =>
        .attempt fun _ _ _ h => edits_lock hlock h
  simp only [← bind_assoc] at h hworks
  rcases hworks.ends_bind_cases hhome h with ⟨free, w, _, hleaves, h⟩ | hfailed
  · exact Or.inl ⟨free, w, hleaves, h⟩
  · exact Or.inr hfailed

/-- The lock is given back where there are no scratch files to be had, and the failure
stays the same. -/
theorem ends_guarded_cases {r : Except Failure Workspace} (hlock : lockFile s ∈ files)
    (hwork : ∀ dir, s.workDir = some dir → dir ∈ directories) (hhome : (disk u).home = home)
    (h : Ends (tryCatch (withScratch s (lockFile s)) fun why => do
      unlock (lockFile s)
      throw why) u r v) :
    Leaves {q | Clear files directories home q} (disk u) (disk v) ∧
      ((∃ w, r = .ok w ∧ w.IsOf s) ∨ ∃ fault, r = .error (.disk fault)) := by
  rcases Ends.tryCatch_iff.mp h with ⟨w, hscratch, rfl⟩ | ⟨why, u₁, hscratch, h⟩
  · exact ends_withScratch_cases hwork hhome hscratch
  · have hgive : Works (above home directories) {p | p ∈ files}
        (unlock (lockFile s) : ExceptT Failure (StateM σ) Unit) := works_unlock hlock
    obtain ⟨hleaves, ⟨_, himpossible, _⟩ | ⟨fault, hfault⟩⟩ :=
      ends_withScratch_cases hwork hhome hscratch
    · cases himpossible
    · cases hfault
      rcases hgive.ends_bind_cases (hleaves.home.trans hhome) h with
        ⟨_, _, _, hgiven, h⟩ | ⟨hgiven, hfault⟩
      · obtain ⟨rfl, rfl⟩ := Ends.throw_iff.mp h
        exact ⟨hleaves.trans hgiven, Or.inr ⟨fault, rfl⟩⟩
      · exact ⟨hleaves.trans hgiven, Or.inr hfault⟩

/-- A workspace is entered, or the disk fails, or another program works there. -/
theorem ends_enter_cases {r : Except Failure Workspace} (hlock : lockFile s ∈ files)
    (hcache : s.cache ∈ directories) (hwork : ∀ dir, s.workDir = some dir → dir ∈ directories)
    (hhome : (disk u).home = home) (h : Ends (enter s) u r v) :
    Leaves {q | Clear files directories home q} (disk u) (disk v) ∧
      ((∃ w, r = .ok w ∧ w.IsOf s) ∨ (∃ fault, r = .error (.disk fault)) ∨
        r = .error (.locked (lockFile s))) := by
  rcases ends_bind_lock_cases hlock hcache hhome h with
    ⟨free, u₁, hleaves₁, h⟩ | ⟨hleaves, hfault⟩
  · cases free with
    | false =>
        rcases Ends.bind_iff.mp h with ⟨_, _, himpossible, _⟩ | ⟨why, hthrow, rfl⟩
        · cases (Ends.throw_iff.mp himpossible).1
        · obtain ⟨hwhy, rfl⟩ := Ends.throw_iff.mp hthrow
          cases hwhy
          exact ⟨hleaves₁, Or.inr (Or.inr rfl)⟩
    | true =>
        obtain ⟨hleaves₂, hentered | hfault⟩ :=
          ends_guarded_cases hlock hwork (hleaves₁.home.trans hhome) h
        · exact ⟨hleaves₁.trans hleaves₂, Or.inl hentered⟩
        · exact ⟨hleaves₁.trans hleaves₂, Or.inr (Or.inl hfault)⟩
  · exact ⟨hleaves, Or.inr (Or.inl hfault)⟩

theorem leaves_of_leave {w : Workspace} {r : Except Failure Unit} (hw : w.IsOf s)
    (hlock : lockFile s ∈ files) (hhome : (disk u).home = home) (h : Ends w.leave u r v) :
    Leaves {q | Clear files directories home q} (disk u) (disk v) := by
  obtain ⟨_, u', hdropped, _, hunlocked⟩ := ends_leave_cases h
  have hleaves : Leaves {q | Clear files directories home q} (disk u) (disk u') := by
    rcases hdropped with rfl | ⟨htemporary, _, hdropped⟩
    · exact .refl _ _
    · rcases hw.scratch with ⟨_, hlasting⟩ | ⟨_, _, n, hscratch⟩
      · rw [htemporary] at hlasting
        cases hlasting
      · rcases FallibleDisk.dropScratch hdropped with hgone | hsame
        · rw [hgone, hscratch]
          exact leaves_dropScratch (fun q hq => hhome ▸ hq.lasting) n
        · rw [hsame]
          exact .refl _ _
  have hedits : Edits (above home directories) {p | p ∈ files} (disk u') (disk v) :=
    edits_unlock (hw.lock ▸ hlock) hunlocked
  exact hleaves.trans (hedits.leaves (hleaves.home.trans hhome))

end

/-! ## Scratch files -/

section

variable {w : Workspace} {revision : String}

/-- The files that an update writes among the scratch files. -/
def files (w : Workspace) (revision : String) : List Path :=
  [w.patchFile revision, (w.patchFile revision).draft, w.stagedFile revision,
    (w.stagedFile revision).draft]

theorem isName_patch (h : '/' ∉ revision.toList) : Path.IsName s!"patch_{revision}.diff" :=
  Path.isName_around (c := 'p') rfl (by decide) (by decide) h (by decide)

theorem isName_staged (h : '/' ∉ revision.toList) : Path.IsName s!"after_{revision}.json" :=
  Path.isName_around (c := 'a') rfl (by decide) (by decide) h (by decide)

theorem address_draft_patch (h : '/' ∉ revision.toList) (home : Address) :
    (w.patchFile revision).draft.address home =
      (w.scratch.child ("patch_" ++ revision ++ ".tmp")).address home :=
  Path.address_draft_around (c := 'p') "diff" rfl (by decide) (by decide) h (by decide)
    (by decide)

theorem address_draft_staged (h : '/' ∉ revision.toList) (home : Address) :
    (w.stagedFile revision).draft.address home =
      (w.scratch.child ("after_" ++ revision ++ ".tmp")).address home :=
  Path.address_draft_around (c := 'a') "json" rfl (by decide) (by decide) h (by decide)
    (by decide)

theorem address_of_mem_files (h : '/' ∉ revision.toList) (home : Address) {f : Path}
    (hf : f ∈ w.files revision) : ∃ name, f.address home = w.scratch.address home ++ [name] := by
  have hdraft : ∀ {head : String} {c : Char}, head.toList.head? = some c → c ≠ '.' →
      '/' ∉ head.toList → (w.scratch.child (head ++ revision ++ ".tmp")).address home =
        w.scratch.address home ++ [head ++ revision ++ ".tmp"] :=
    fun hhead hdot hslash => Path.address_child (Path.isName_around hhead hdot hslash h (by decide))
  simp only [files, List.mem_cons, List.not_mem_nil, or_false] at hf
  rcases hf with hf | hf | hf | hf <;> rw [hf]
  · exact ⟨_, Path.address_child (isName_patch h)⟩
  · exact ⟨_, (address_draft_patch h home).trans (hdraft (c := 'p') rfl (by decide) (by decide))⟩
  · exact ⟨_, Path.address_child (isName_staged h)⟩
  · exact ⟨_, (address_draft_staged h home).trans (hdraft (c := 'a') rfl (by decide) (by decide))⟩

/-- The diff is kept apart from what is staged. -/
theorem patchFile_ne_staged (h : '/' ∉ revision.toList) (home : Address) :
    ∀ f ∈ [w.stagedFile revision, (w.stagedFile revision).draft],
      (w.patchFile revision).address home ≠ f.address home := by
  intro f hf
  have hpatch : (s!"patch_{revision}.diff").toList.head? = some 'p' := Path.head?_around rfl
  rcases List.mem_pair.mp hf with hf | hf
  · rw [hf]
    exact Path.address_child_ne (isName_patch h) (isName_staged h)
      (Path.ne_of_head?_ne hpatch (Path.head?_around (c := 'a') rfl) (by decide))
  · rw [hf, address_draft_staged h]
    exact Path.address_child_ne (isName_patch h)
      (Path.isName_around (c := 'a') rfl (by decide) (by decide) h (by decide))
      (Path.ne_of_head?_ne hpatch (Path.head?_around (c := 'a') rfl) (by decide))

/-- The directories that are made for temporary files are temporary themselves,
or above those that are. -/
theorem address_of_mem_ancestors_scratchPath {n : Nat} {home : Address} {b : Path}
    (hb : b ∈ (scratchPath n).ancestors) :
    b.address home = scratchAddress n ∨ b.address home <+: scratchHome := by
  have hstep : ∀ step ∈ scratchAddress n, Path.IsStep step :=
    fun _ h => isStep_of_mem_scratchAddress h
  have hterse : Path.Terse true (scratchAddress n) := by
    refine ⟨hstep, fun _ => by simp [scratchAddress, scratchHome], ?_⟩
    intro step hmem
    obtain rfl := List.mem_singleton.mp hmem
    exact (isName_scratchName n).ne_dot
  have hnames : (scratchPath n).names = scratchAddress n := Path.names_ofSteps hterse
  have habsolute : (scratchPath n).isAbsolute = true := Path.isAbsolute_ofSteps hstep
  rw [Path.ancestors, hnames, habsolute] at hb
  rcases List.mem_cons.mp hb with rfl | hb
  · exact Or.inl (address_scratchPath home n)
  · right
    obtain ⟨k, hk, rfl⟩ := List.mem_map.mp hb
    rw [Path.address_ofSteps fun step hmem => hstep step (List.mem_of_mem_take hmem)]
    have hlt : k < 2 := by simpa [scratchAddress, scratchHome] using hk
    rcases (by omega : k = 0 ∨ k = 1) with rfl | rfl
    · exact List.nil_prefix
    · exact List.prefix_rfl

end

end Workspace

end CallAtlas
