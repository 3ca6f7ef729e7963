import CallAtlas.Disk.Program
import CallAtlas.Proofs.Disk.Edits

/-!
# What programs on a disk do, and how they end

A disk may fail at any moment for reasons of its own: what it is asked to do is
done, or a fault is reported. So nothing is said here about when a program
succeeds. It is said what a program has done when it has succeeded, and what it
may have done when it has failed.
-/

namespace CallAtlas

variable {σ α β : Type}

/-! ## Ends -/

/-- Run in a state, the program gives that answer and leaves that state. -/
def Runs (x : StateM σ α) (s : σ) (a : α) (t : σ) : Prop :=
  (x.run s).run = (a, t)

/-- Run in a state, the program ends with that result and in that state. -/
def Ends (x : ExceptT Failure (StateM σ) α) (s : σ) (r : Except Failure α) (t : σ) : Prop :=
  Runs x.run s r t

instance [DecidableEq α] [DecidableEq σ] (x : StateM σ α) (s : σ) (a : α) (t : σ) :
    Decidable (Runs x s a t) :=
  inferInstanceAs (Decidable ((x.run s).run = (a, t)))

instance [DecidableEq α] [DecidableEq σ] (x : ExceptT Failure (StateM σ) α) (s : σ)
    (r : Except Failure α) (t : σ) : Decidable (Ends x s r t) :=
  inferInstanceAs (Decidable (Runs x.run s r t))

theorem runs_pure_iff {a b : α} {s t : σ} : Runs (pure a) s b t ↔ b = a ∧ t = s := by
  constructor
  · rintro ⟨⟩
    exact ⟨rfl, rfl⟩
  · rintro ⟨rfl, rfl⟩
    rfl

theorem runs_bind_iff {x : StateM σ α} {f : α → StateM σ β} {s t : σ} {b : β} :
    Runs (x >>= f) s b t ↔ ∃ a u, Runs x s a u ∧ Runs (f a) u b t := by
  constructor
  · intro h
    exact ⟨_, _, rfl, h⟩
  · rintro ⟨a, u, hx, hf⟩
    show Id.run ((f (x.run s).run.1).run (x.run s).run.2) = _
    rw [show (x.run s).run = (a, u) from hx]
    exact hf

theorem runs_map_iff {x : StateM σ α} {f : α → β} {s t : σ} {b : β} :
    Runs (f <$> x) s b t ↔ ∃ a, Runs x s a t ∧ b = f a := by
  constructor
  · rintro ⟨⟩
    exact ⟨_, rfl, rfl⟩
  · rintro ⟨a, hx, rfl⟩
    show (f (x.run s).run.1, (x.run s).run.2) = _
    rw [show (x.run s).run = (a, t) from hx]

namespace Ends

variable {s t : σ} {r : Except Failure α}

theorem pure_iff {a : α} : Ends (pure a) s r t ↔ r = .ok a ∧ t = s :=
  runs_pure_iff

theorem throw_iff {why : Failure} : Ends (throw why) s r t ↔ r = .error why ∧ t = s :=
  runs_pure_iff

theorem ofExcept_iff {x : Except Failure α} :
    Ends (MonadExcept.ofExcept x) s r t ↔ r = x ∧ t = s := by
  cases x with
  | ok a => exact pure_iff
  | error why => exact throw_iff

theorem lift_iff {x : StateM σ α} : Ends (ExceptT.lift x) s r t ↔ ∃ a, Runs x s a t ∧ r = .ok a :=
  runs_map_iff

theorem attempt_iff [MonadDisk (StateM σ)] {x : StateM σ (Except Disk.Fault α)} :
    Ends (Disk.attempt x) s r t ↔ ∃ q, Runs x s q t ∧ r = q.mapError .disk :=
  runs_map_iff

theorem map_iff {x : ExceptT Failure (StateM σ) β} {f : β → α} :
    Ends (f <$> x) s r t ↔ ∃ q, Ends x s q t ∧ r = q.map f := by
  rw [Ends, ExceptT.run_map]
  exact runs_map_iff

theorem bind_iff {x : ExceptT Failure (StateM σ) β} {f : β → ExceptT Failure (StateM σ) α} :
    Ends (x >>= f) s r t ↔ (∃ b u, Ends x s (.ok b) u ∧ Ends (f b) u r t) ∨
      ∃ why, Ends x s (.error why) t ∧ r = .error why := by
  refine (runs_bind_iff (x := x.run) (f := ExceptT.bindCont f)).trans ⟨?_, ?_⟩
  · rintro ⟨first, u, hx, hf⟩
    cases first with
    | ok b => exact Or.inl ⟨b, u, hx, hf⟩
    | error why =>
        obtain ⟨rfl, rfl⟩ := runs_pure_iff.mp hf
        exact Or.inr ⟨why, hx, rfl⟩
  · rintro (⟨b, u, hx, hf⟩ | ⟨why, hx, rfl⟩)
    · exact ⟨_, u, hx, hf⟩
    · exact ⟨_, t, hx, runs_pure_iff.mpr ⟨rfl, rfl⟩⟩

theorem ofExcept_bind_iff {x : Except Failure β} {f : β → ExceptT Failure (StateM σ) α} :
    Ends (MonadExcept.ofExcept x >>= f) s r t ↔ (∃ b, x = .ok b ∧ Ends (f b) s r t) ∨
      ∃ why, x = .error why ∧ r = .error why ∧ t = s := by
  cases x with
  | ok b => simp [bind_iff, ofExcept_iff]
  | error why => simp [bind_iff, ofExcept_iff, and_comm]

theorem bind_pure_iff {x : ExceptT Failure (StateM σ) β} {f : β → α} :
    Ends (x >>= fun b => pure (f b)) s r t ↔ ∃ q, Ends x s q t ∧ r = q.map f := by
  rw [← map_iff, map_eq_pure_bind]

/-- When the results of the first program are known up to faults of the disk, there
has been such a fault, or one of these results is a failure, or the second program
follows. -/
theorem bind_cases {x : ExceptT Failure (StateM σ) β} {f : β → ExceptT Failure (StateM σ) α}
    {P : σ → Prop} {Q : Except Failure β → Prop}
    (hx : ∀ q u, Ends x s q u → P u ∧ ((∃ fault, q = .error (.disk fault)) ∨ Q q))
    (h : Ends (x >>= f) s r t) :
    (P t ∧ ∃ fault, r = .error (.disk fault)) ∨
      (∃ why, P t ∧ Q (.error why) ∧ r = .error why) ∨
      ∃ b u, P u ∧ Q (.ok b) ∧ Ends (f b) u r t := by
  rcases bind_iff.mp h with ⟨b, u, hfirst, hrest⟩ | ⟨why, hfirst, rfl⟩
  · obtain ⟨hP, ⟨_, himpossible⟩ | hQ⟩ := hx _ _ hfirst
    · cases himpossible
    · exact Or.inr (Or.inr ⟨b, u, hP, hQ, hrest⟩)
  · obtain ⟨hP, ⟨fault, hfault⟩ | hQ⟩ := hx _ _ hfirst
    · cases hfault
      exact Or.inl ⟨hP, fault, rfl⟩
    · exact Or.inr (Or.inl ⟨why, hP, hQ, rfl⟩)

end Ends

/-! ## Disks that fail -/

/-- A state with a disk whose operations may fail for reasons of their own. One
that reports a fault has left the disk as it was; only a file that was to be
written may hold anything then, and one that was to be written on may have got a
first part of that. -/
class FallibleDisk (σ : Type) [MonadDisk (StateM σ)] where
  disk : σ → Disk
  has {p : Path} {s t : σ} {found : Bool} : Runs (MonadDisk.has p) s found t →
    disk t = disk s ∧ found = (disk s).has p
  hasDirectory {p : Path} {s t : σ} {found : Bool} : Runs (MonadDisk.hasDirectory p) s found t →
    disk t = disk s ∧ found = (disk s).hasDirectory p
  readText {p : Path} {s t : σ} {r : Except Disk.Fault String} :
    Runs (MonadDisk.readText p) s r t →
      disk t = disk s ∧ ∀ text, r = .ok text → (disk s).readText p = .ok text
  openDatabase {p : Path} {s t : σ} {r : Except Store.Fault Store.Database} :
    Runs (MonadDisk.openDatabase p) s r t →
      disk t = disk s ∧ ∀ db, r = .ok db → (disk s).openDatabase p = .ok db
  makeDirectory {p : Path} {s t : σ} {r : Except Disk.Fault Unit} :
    Runs (MonadDisk.makeDirectory p) s r t →
      (r = .ok () → (disk s).makeDirectory p = .ok (disk t)) ∧
        ∀ fault, r = .error fault → disk t = disk s
  writeText {p : Path} {content : String} {s t : σ} {r : Except Disk.Fault Unit} :
    Runs (MonadDisk.writeText p content) s r t →
      (r = .ok () → (disk s).writeText p content = .ok (disk t)) ∧
        ∀ fault, r = .error fault →
          disk t = disk s ∨ ∃ other, (disk s).writeText p other = .ok (disk t)
  appendText {p : Path} {more : String} {s t : σ} {r : Except Disk.Fault Unit} :
    Runs (MonadDisk.appendText p more) s r t →
      (r = .ok () → (disk s).appendText p more = .ok (disk t)) ∧
        ∀ fault, r = .error fault → disk t = disk s ∨
          ∃ part : String, part.toList <+: more.toList ∧ (disk s).appendText p part = .ok (disk t)
  rename {p q : Path} {s t : σ} {r : Except Disk.Fault Unit} :
    Runs (MonadDisk.rename p q) s r t →
      (r = .ok () → (disk s).rename p q = .ok (disk t)) ∧
        ∀ fault, r = .error fault → disk t = disk s
  lock {p : Path} {s t : σ} {r : Except Disk.Fault Bool} : Runs (MonadDisk.lock p) s r t →
    (∀ free, r = .ok free → (disk s).lock p = .ok (free, disk t)) ∧
      ∀ fault, r = .error fault → disk t = disk s
  unlock {p : Path} {s t : σ} {u : Unit} : Runs (MonadDisk.unlock p) s u t →
    disk t = (disk s).unlock p ∨ disk t = disk s
  makeScratch {s t : σ} {r : Except Disk.Fault Path} : Runs MonadDisk.makeScratch s r t →
    (∀ p, r = .ok p → (disk s).makeScratch = (p, disk t)) ∧
      ∀ fault, r = .error fault → disk t = disk s
  dropScratch {p : Path} {s t : σ} {u : Unit} : Runs (MonadDisk.dropScratch p) s u t →
    disk t = (disk s).dropScratch p ∨ disk t = disk s

namespace Disk

theorem runs_update {change : Disk → Except Fault Disk} {d e : Disk} {r : Except Fault Unit}
    (h : Runs (update change) d r e) :
    (r = .ok () → change d = .ok e) ∧ ∀ fault, r = .error fault → e = d := by
  cases hchange : change d with
  | ok changed =>
      simp only [Runs, update, StateT.run, hchange] at h
      cases h
      exact ⟨fun _ => rfl, fun _ himpossible => by cases himpossible⟩
  | error fault =>
      simp only [Runs, update, StateT.run, hchange] at h
      cases h
      exact ⟨fun himpossible => (by cases himpossible), fun _ _ => rfl⟩

/-- A disk that fails only where it has to. -/
instance : FallibleDisk Disk where
  disk := id
  has h := by cases h; exact ⟨rfl, rfl⟩
  hasDirectory h := by cases h; exact ⟨rfl, rfl⟩
  readText h := by cases h; exact ⟨rfl, fun _ h => h⟩
  openDatabase h := by cases h; exact ⟨rfl, fun _ h => h⟩
  makeDirectory h := runs_update h
  writeText h := ⟨(runs_update h).1, fun fault hr => Or.inl ((runs_update h).2 fault hr)⟩
  appendText h := ⟨(runs_update h).1, fun fault hr => Or.inl ((runs_update h).2 fault hr)⟩
  rename h := runs_update h
  lock {p s t r} h := by
    cases hlock : s.lock p with
    | ok answer =>
        simp only [Runs, StateT.run, MonadDisk.lock, hlock] at h
        cases h
        exact ⟨fun _ hfree => (by cases hfree; exact hlock),
          fun _ himpossible => by cases himpossible⟩
    | error fault =>
        simp only [Runs, StateT.run, MonadDisk.lock, hlock] at h
        cases h
        exact ⟨fun _ himpossible => (by cases himpossible), fun _ _ => rfl⟩
  unlock h := by cases h; exact Or.inl rfl
  makeScratch h := by
    cases h
    exact ⟨fun _ hr => (by cases hr; rfl), fun _ himpossible => by cases himpossible⟩
  dropScratch h := by cases h; exact Or.inl rfl

/-! ## What the programs of a disk do -/

open FallibleDisk (disk)

section

variable [MonadDisk (StateM σ)] [FallibleDisk σ] {makes writes : Set Path} {p : Path} {s t : σ}

theorem edits_of_edit {r : Except Fault Unit}
    (hok : r = .ok () → Edit makes writes (disk s) (disk t))
    (herror : ∀ fault, r = .error fault → disk t = disk s) :
    Edits makes writes (disk s) (disk t) := by
  cases r with
  | ok _ => exact .single (hok rfl)
  | error fault =>
      rw [herror fault rfl]
      exact .refl

theorem edits_makeDirectory {r : Except Fault Unit} (hp : p ∈ makes)
    (h : Runs (MonadDisk.makeDirectory p) s r t) : Edits makes writes (disk s) (disk t) := by
  obtain ⟨hok, herror⟩ := FallibleDisk.makeDirectory h
  exact edits_of_edit (fun hr => .directory hp (hok hr)) herror

theorem edit_writeText {content : String} {d e : Disk} (hp : p ∈ writes)
    (h : d.writeText p content = .ok e) : Edit makes writes d e :=
  .content hp (fun _ _ himpossible => by cases himpossible) h

theorem edits_writeText {content : String} {r : Except Fault Unit} (hp : p ∈ writes)
    (h : Runs (MonadDisk.writeText p content) s r t) : Edits makes writes (disk s) (disk t) := by
  obtain ⟨hok, herror⟩ := FallibleDisk.writeText h
  cases r with
  | ok _ => exact .single (edit_writeText hp (hok rfl))
  | error fault =>
      rcases herror fault rfl with hsame | ⟨other, hother⟩
      · rw [hsame]
        exact .refl
      · exact .single (edit_writeText hp hother)

theorem edit_appendText {more : String} {d e : Disk} (hp : p ∈ writes)
    (h : d.appendText p more = .ok e) : Edit makes writes d e := by
  refine .content hp ?_ h
  intro old db hdb
  cases hold : old.content with
  | text content => simp [hold, Content.append] at hdb
  | database db' => simpa [hold, Content.append] using hdb

theorem edits_appendText {more : String} {r : Except Fault Unit} (hp : p ∈ writes)
    (h : Runs (MonadDisk.appendText p more) s r t) : Edits makes writes (disk s) (disk t) := by
  obtain ⟨hok, herror⟩ := FallibleDisk.appendText h
  cases r with
  | ok _ => exact .single (edit_appendText hp (hok rfl))
  | error fault =>
      rcases herror fault rfl with hsame | ⟨_, _, hpart⟩
      · rw [hsame]
        exact .refl
      · exact .single (edit_appendText hp hpart)

theorem edits_rename {q : Path} {r : Except Fault Unit} (hp : p ∈ writes) (hq : q ∈ writes)
    (h : Runs (MonadDisk.rename p q) s r t) : Edits makes writes (disk s) (disk t) := by
  obtain ⟨hok, herror⟩ := FallibleDisk.rename h
  exact edits_of_edit (fun hr => .move hp hq (hok hr)) herror

/-- A directory that cannot be made is looked for, and that changes nothing. -/
theorem edits_settle {r : Except Fault Unit} (hp : p ∈ makes) (h : Runs (settle p) s r t) :
    Edits makes writes (disk s) (disk t) := by
  obtain ⟨made, u, hmade, hrest⟩ := runs_bind_iff.mp h
  refine (edits_makeDirectory hp hmade).trans ?_
  cases made with
  | ok _ =>
      obtain ⟨_, rfl⟩ := runs_pure_iff.mp hrest
      exact .refl
  | error why =>
      obtain ⟨found, v, hfound, hpure⟩ := runs_bind_iff.mp hrest
      obtain ⟨_, rfl⟩ := runs_pure_iff.mp hpure
      rw [(FallibleDisk.hasDirectory hfound).1]

theorem edits_settleAll {ps : List Path} {r : Except Fault Unit} (hps : ∀ p ∈ ps, p ∈ makes)
    (h : Runs (settleAll ps) s r t) : Edits makes writes (disk s) (disk t) := by
  induction ps generalizing s r t with
  | nil =>
      obtain ⟨_, rfl⟩ := runs_pure_iff.mp h
      exact .refl
  | cons p above ih =>
      have hp := hps p List.mem_cons_self
      rw [settleAll] at h
      split at h
      · obtain ⟨_, rfl⟩ := runs_pure_iff.mp h
        exact .refl
      · obtain ⟨first, u, hfirst, hrest⟩ := runs_bind_iff.mp h
        refine (edits_settle hp hfirst).trans ?_
        split at hrest
        · obtain ⟨rest, v, habove, hlast⟩ := runs_bind_iff.mp hrest
          refine (ih (fun q hq => hps q (List.mem_cons_of_mem _ hq)) habove).trans ?_
          cases rest with
          | ok _ => exact edits_settle hp hlast
          | error why =>
              obtain ⟨_, rfl⟩ := runs_pure_iff.mp hlast
              exact .refl
        · obtain ⟨_, rfl⟩ := runs_pure_iff.mp hrest
          exact .refl

end

/-! ## What programs that fail do -/

/-- However it ends, the program has only made and written those paths, and it
fails for faults of the disk only. -/
def Works [MonadDisk (StateM σ)] [FallibleDisk σ] (makes writes : Set Path)
    (x : ExceptT Failure (StateM σ) α) : Prop :=
  ∀ s r t, Ends x s r t → Edits makes writes (disk s) (disk t) ∧
    ∀ why, r = .error why → ∃ fault, why = .disk fault

section

variable [MonadDisk (StateM σ)] [FallibleDisk σ] {makes writes : Set Path} {p : Path}

theorem Works.pure (a : α) : Works makes writes (pure a : ExceptT Failure (StateM σ) α) := by
  intro s r t h
  obtain ⟨rfl, rfl⟩ := Ends.pure_iff.mp h
  exact ⟨.refl, fun _ himpossible => by cases himpossible⟩

theorem Works.bind {x : ExceptT Failure (StateM σ) α} {f : α → ExceptT Failure (StateM σ) β}
    (hx : Works makes writes x) (hf : ∀ a, Works makes writes (f a)) :
    Works makes writes (x >>= f) := by
  intro s r t h
  rcases Ends.bind_iff.mp h with ⟨a, u, hfirst, hrest⟩ | ⟨why, hfirst, rfl⟩
  · obtain ⟨hedits, hfails⟩ := hf a _ _ _ hrest
    exact ⟨(hx _ _ _ hfirst).1.trans hedits, hfails⟩
  · obtain ⟨hedits, hfails⟩ := hx _ _ _ hfirst
    exact ⟨hedits, fun _ hwhy => hfails _ (by cases hwhy; rfl)⟩

/-- Either the first program has done its work and the second one follows, or the
disk has failed. -/
theorem Works.bind_cases {x : ExceptT Failure (StateM σ) β}
    {f : β → ExceptT Failure (StateM σ) α} {r : Except Failure α} {s t : σ}
    (hx : Works makes writes x) (h : Ends (x >>= f) s r t) :
    (∃ b u, Ends x s (.ok b) u ∧ Edits makes writes (disk s) (disk u) ∧ Ends (f b) u r t) ∨
      Edits makes writes (disk s) (disk t) ∧ ∃ fault, r = .error (.disk fault) := by
  rcases Ends.bind_iff.mp h with ⟨b, u, hfirst, hrest⟩ | ⟨why, hfirst, rfl⟩
  · exact Or.inl ⟨b, u, hfirst, (hx _ _ _ hfirst).1, hrest⟩
  · obtain ⟨hedits, hfails⟩ := hx _ _ _ hfirst
    obtain ⟨fault, rfl⟩ := hfails why rfl
    exact Or.inr ⟨hedits, fault, rfl⟩

theorem Works.attempt {x : StateM σ (Except Fault α)}
    (hx : ∀ s q t, Runs x s q t → Edits makes writes (disk s) (disk t)) :
    Works makes writes (attempt x) := by
  intro s r t h
  obtain ⟨q, hruns, rfl⟩ := Ends.attempt_iff.mp h
  refine ⟨hx s q t hruns, fun why hwhy => ?_⟩
  obtain ⟨fault, _, rfl⟩ := mapError_eq_error_iff.mp hwhy
  exact ⟨fault, rfl⟩

theorem Works.mono {makes' writes' : Set Path} {x : ExceptT Failure (StateM σ) α}
    (h : Works makes writes x) (hmakes : makes ⊆ makes') (hwrites : writes ⊆ writes') :
    Works makes' writes' x := by
  intro s r t hends
  obtain ⟨hedits, hfails⟩ := h s r t hends
  exact ⟨hedits.mono hmakes hwrites, hfails⟩

theorem works_has (p : Path) :
    Works makes writes (ExceptT.lift (MonadDisk.has p) : ExceptT Failure (StateM σ) Bool) := by
  intro s r t h
  obtain ⟨found, hruns, rfl⟩ := Ends.lift_iff.mp h
  rw [(FallibleDisk.has hruns).1]
  exact ⟨.refl, fun _ himpossible => by cases himpossible⟩

theorem works_makeDirectories (hp : ∀ q ∈ p.ancestors, q ∈ makes) :
    Works makes writes (makeDirectories p : ExceptT Failure (StateM σ) Unit) :=
  .attempt fun _ _ _ h => edits_settleAll hp h

theorem works_makeParent
    (hp : ∀ parent, p.parent? = some parent → ∀ q ∈ parent.ancestors, q ∈ makes) :
    Works makes writes (makeParent p : ExceptT Failure (StateM σ) Unit) := by
  rw [makeParent]
  cases hparent : p.parent? with
  | none => exact .pure _
  | some parent => exact works_makeDirectories (hp parent hparent)

theorem works_ensureDirectory (hp : ∀ q ∈ p.ancestors, q ∈ makes) :
    Works makes writes (ensureDirectory p : ExceptT Failure (StateM σ) Unit) := by
  rw [ensureDirectory]
  split
  · exact .pure _
  · refine .bind (works_has p) fun found => ?_
    cases found with
    | true => exact .pure _
    | false => exact works_makeDirectories hp

theorem works_replaceText {content : String}
    (hp : ∀ parent, p.parent? = some parent → ∀ q ∈ parent.ancestors, q ∈ makes)
    (hwrites : p ∈ writes) (hdraft : p.draft ∈ writes) :
    Works makes writes (replaceText p content : ExceptT Failure (StateM σ) Unit) :=
  .bind (works_makeParent hp) fun _ =>
    .bind (.attempt fun _ _ _ h => edits_writeText hdraft h) fun _ =>
      .attempt fun _ _ _ h => edits_rename hdraft hwrites h

/-- A text that cannot be put at a path gets no further than its draft. -/
theorem edits_of_failed_replaceText {content : String} {why : Failure} {s t : σ}
    (hp : ∀ parent, p.parent? = some parent → ∀ q ∈ parent.ancestors, q ∈ makes)
    (hdraft : p.draft ∈ writes) (h : Ends (replaceText p content) s (.error why) t) :
    Edits makes writes (disk s) (disk t) := by
  have hparent : Works makes writes (makeParent p : ExceptT Failure (StateM σ) Unit) :=
    works_makeParent hp
  rcases Ends.bind_iff.mp h with ⟨_, u, hmade, h⟩ | ⟨_, hmade, _⟩
  · refine (hparent _ _ _ hmade).1.trans ?_
    rcases Ends.bind_iff.mp h with ⟨_, v, hwritten, hmoved⟩ | ⟨_, hwritten, _⟩
    · obtain ⟨_, hwritten, _⟩ := Ends.attempt_iff.mp hwritten
      obtain ⟨q, hmoved, hq⟩ := Ends.attempt_iff.mp hmoved
      obtain ⟨fault, hfault, _⟩ := mapError_eq_error_iff.mp hq.symm
      rw [(FallibleDisk.rename hmoved).2 fault hfault]
      exact edits_writeText hdraft hwritten
    · obtain ⟨_, hwritten, _⟩ := Ends.attempt_iff.mp hwritten
      exact edits_writeText hdraft hwritten
  · exact (hparent _ _ _ hmade).1

theorem readText_of_replaceText {content : String} {s t : σ}
    (h : Ends (replaceText p content) s (.ok ()) t) : (disk t).readText p = .ok content := by
  rcases Ends.bind_iff.mp h with ⟨_, u, _, h⟩ | ⟨_, _, himpossible⟩
  · rcases Ends.bind_iff.mp h with ⟨_, v, hwritten, hmoved⟩ | ⟨_, _, himpossible⟩
    · obtain ⟨q, hwritten, hq⟩ := Ends.attempt_iff.mp hwritten
      obtain ⟨q', hmoved, hq'⟩ := Ends.attempt_iff.mp hmoved
      have hdraft := readText_of_writeText
        ((FallibleDisk.writeText hwritten).1 (mapError_eq_ok_iff.mp hq.symm))
      exact readText_of_rename
        ((FallibleDisk.rename hmoved).1 (mapError_eq_ok_iff.mp hq'.symm)) hdraft
    · cases himpossible
  · cases himpossible

theorem ends_readText_cases {text : String} {r : Except Failure String} {s t : σ}
    (htext : (disk s).readText p = .ok text)
    (h : Ends (attempt (MonadDisk.readText p)) s r t) :
    disk t = disk s ∧ ((∃ fault, r = .error (.disk fault)) ∨ r = .ok text) := by
  obtain ⟨answer, hread, rfl⟩ := Ends.attempt_iff.mp h
  obtain ⟨hsame, hfound⟩ := FallibleDisk.readText hread
  refine ⟨hsame, ?_⟩
  cases answer with
  | error fault => exact Or.inl ⟨fault, rfl⟩
  | ok found =>
      have hfound := hfound found rfl
      rw [htext] at hfound
      cases hfound
      exact Or.inr rfl

/-- What a program finds that looks for a text. -/
def Shows (d : Disk) (p : Path) : Option String → Prop
  | none => d.has p = false
  | some text => d.readText p = .ok text

theorem has_of_readText {d : Disk} {text : String} (h : d.readText p = .ok text) :
    d.has p = true := by
  obtain ⟨_, hfile⟩ := readText_eq_ok_iff.mp h
  obtain ⟨a, hfind, _⟩ := file_eq_ok_iff.mp hfile
  rw [has, hfind]
  rfl

theorem isSome_of_readText {d : Disk} {text : String} (h : d.readText p = .ok text) :
    (d.entryAt? (p.address d.home)).isSome := by
  obtain ⟨_, hfile⟩ := readText_eq_ok_iff.mp h
  obtain ⟨a, hfind, hentry⟩ := file_eq_ok_iff.mp hfile
  rw [← address_of_find hfind, hentry]
  rfl

theorem Shows.eq_some {d : Disk} {text : String} {found : Option String} (h : Shows d p found)
    (htext : d.readText p = .ok text) : found = some text := by
  cases found with
  | none =>
      have hnone : d.has p = false := h
      rw [has_of_readText htext] at hnone
      cases hnone
  | some other =>
      have hother : d.readText p = .ok other := h
      rw [htext] at hother
      rw [Except.ok.inj hother]

/-- A text stands at a path, or nothing does. -/
def Holds (d : Disk) (p : Path) : Option String → Prop
  | none => d.entryAt? (p.address d.home) = none
  | some text => d.readText p = .ok text

instance (d : Disk) (p : Path) : (content : Option String) → Decidable (Holds d p content)
  | none => inferInstanceAs (Decidable (d.entryAt? (p.address d.home) = none))
  | some text => inferInstanceAs (Decidable (d.readText p = .ok text))

theorem Spares.holds {d e : Disk} {content : Option String} (h : Spares p d e)
    (hholds : Holds d p content) : Holds e p content := by
  cases content with
  | none =>
      show e.entryAt? (p.address e.home) = none
      rw [h.home, h.entry]
      exact hholds
  | some text => exact h.readText hholds

theorem Shows.eq_of_holds {d : Disk} {found content : Option String} (h : Shows d p found)
    (hholds : Holds d p content) : found = content := by
  cases content with
  | some text => exact h.eq_some hholds
  | none =>
      cases found with
      | none => rfl
      | some text =>
          have hsome := isSome_of_readText h
          rw [show d.entryAt? (p.address d.home) = none from hholds] at hsome
          cases hsome

/-- On a disk that fails only where it has to a program finds the text that stands
at a path. -/
theorem ends_readText?_of_holds {d : Disk} {content : Option String} (h : Holds d p content) :
    Ends (readText? p) d (.ok content) d := by
  refine Ends.bind_iff.mpr (Or.inl ⟨d.has p, d, Ends.lift_iff.mpr ⟨_, rfl, rfl⟩, ?_⟩)
  cases content with
  | none =>
      have hhas : d.has p = false := by
        rw [has]
        cases hfind : d.find p with
        | error why => rfl
        | ok a =>
            have hsome := isSome_of_find hfind
            rw [address_of_find hfind, show d.entryAt? (p.address d.home) = none from h] at hsome
            cases hsome
      rw [hhas]
      exact Ends.pure_iff.mpr ⟨rfl, rfl⟩
  | some text =>
      rw [has_of_readText h]
      refine Ends.map_iff.mpr ⟨.ok text, Ends.attempt_iff.mpr ⟨d.readText p, rfl, ?_⟩, rfl⟩
      rw [show d.readText p = .ok text from h]
      rfl

theorem ends_readText?_cases {r : Except Failure (Option String)} {s t : σ}
    (h : Ends (readText? p) s r t) :
    disk t = disk s ∧ ((∃ fault, r = .error (.disk fault)) ∨
      ∃ found, Shows (disk s) p found ∧ r = .ok found) := by
  rcases Ends.bind_iff.mp h with ⟨_, u, hfound, hrest⟩ | ⟨why, hfound, rfl⟩
  · obtain ⟨_, hfound, hsame⟩ := Ends.lift_iff.mp hfound
    cases hsame
    obtain ⟨hdisk, rfl⟩ := FallibleDisk.has hfound
    cases hhas : (disk s).has p with
    | false =>
        rw [hhas] at hrest
        obtain ⟨rfl, rfl⟩ := Ends.pure_iff.mp hrest
        exact ⟨hdisk, Or.inr ⟨none, hhas, rfl⟩⟩
    | true =>
        rw [hhas] at hrest
        obtain ⟨_, htried, rfl⟩ := Ends.map_iff.mp hrest
        obtain ⟨answer, hread, rfl⟩ := Ends.attempt_iff.mp htried
        obtain ⟨hdisk', htext⟩ := FallibleDisk.readText hread
        refine ⟨hdisk'.trans hdisk, ?_⟩
        cases answer with
        | error fault => exact Or.inl ⟨fault, rfl⟩
        | ok text => exact Or.inr ⟨some text, hdisk ▸ htext text rfl, rfl⟩
  · obtain ⟨_, _, himpossible⟩ := Ends.lift_iff.mp hfound
    cases himpossible

end

end Disk

end CallAtlas
