import CallAtlas.Proofs.Checks
import CallAtlas.Proofs.Path

/-!
# Following paths on a disk

What stands where after entries have been put and removed, and when a path can
be followed. A path that can be followed leads to its address. It still does on a
disk that has kept the directories on the way.
-/

namespace CallAtlas.Disk

/-! ## Entries -/

theorem lookup_setEntry (a : Address) (e : Entry) (entries : List (Address × Entry))
    (b : Address) :
    (setEntry a e entries).lookup b = if b = a then some e else entries.lookup b := by
  induction entries with
  | nil =>
      rw [setEntry, List.lookup_cons]
      by_cases h : b = a
      · simp [h]
      · have hne : (b == a) = false := by simpa using h
        rw [hne, if_neg h]
  | cons entry rest ih =>
      obtain ⟨c, f⟩ := entry
      rw [setEntry]
      by_cases hc : c = a
      · subst hc
        rw [if_pos rfl, List.lookup_cons, List.lookup_cons]
        by_cases h : b = c
        · simp [h]
        · have hne : (b == c) = false := by simpa using h
          rw [hne, if_neg h]
      · rw [if_neg hc, List.lookup_cons, List.lookup_cons, ih]
        by_cases h : b = c
        · subst h
          simp [hc]
        · have hne : (b == c) = false := by simpa using h
          rw [hne]

theorem lookup_filter_key (keep : Address → Bool) (entries : List (Address × Entry))
    (a : Address) :
    (entries.filter fun entry => keep entry.1).lookup a =
      if keep a then entries.lookup a else none := by
  induction entries with
  | nil => simp
  | cons entry rest ih =>
      obtain ⟨b, e⟩ := entry
      by_cases hab : a = b
      · subst hab
        by_cases hkeep : keep a
        · simp [hkeep]
        · simp [hkeep, ih]
      · have hne : (a == b) = false := by simpa using hab
        by_cases hkeep : keep b
        · rw [List.filter_cons, if_pos hkeep, List.lookup_cons, List.lookup_cons, hne]
          exact ih
        · rw [List.filter_cons, if_neg hkeep, List.lookup_cons, hne]
          exact ih

theorem mem_of_lookup_isSome {entries : List (Address × Entry)} {a : Address}
    (h : (entries.lookup a).isSome) : a ∈ entries.map (·.1) := by
  induction entries with
  | nil => cases h
  | cons entry rest ih =>
      rw [List.lookup_cons] at h
      by_cases hab : a = entry.1
      · exact List.mem_cons.mpr (Or.inl hab)
      · have hne : (a == entry.1) = false := by simpa using hab
        rw [hne] at h
        exact List.mem_cons_of_mem _ (ih h)

theorem entry_of_ne_nil {d : Disk} {a : Address} (h : a ≠ []) :
    d.entryAt? a = d.entries.lookup a :=
  if_neg (by simpa using h)

theorem entry_nil (d : Disk) : d.entryAt? [] = some .directory :=
  rfl

theorem entry_set {d : Disk} {a : Address} (h : a ≠ []) (e : Entry) (b : Address) :
    (d.set a e).entryAt? b = if b = a then some e else d.entryAt? b := by
  by_cases hb : b = []
  · subst hb
    rw [if_neg (Ne.symm h), entry_nil, entry_nil]
  · rw [entry_of_ne_nil hb, entry_of_ne_nil hb]
    exact lookup_setEntry a e d.entries b

theorem entry_erase {d : Disk} {a : Address} (h : a ≠ []) (b : Address) :
    (d.erase a).entryAt? b = if b = a then none else d.entryAt? b := by
  by_cases hb : b = []
  · subst hb
    rw [if_neg (Ne.symm h), entry_nil, entry_nil]
  · rw [entry_of_ne_nil hb, entry_of_ne_nil hb]
    have hkey := lookup_filter_key (fun c => decide (c ≠ a)) d.entries b
    by_cases hba : b = a
    · rw [if_pos hba]
      exact hkey.trans (if_neg (by simpa using hba))
    · rw [if_neg hba]
      exact hkey.trans (if_pos (by simpa using hba))

theorem entry_eraseTree {d : Disk} {a : Address} (h : a ≠ []) (b : Address) :
    (d.eraseTree a).entryAt? b = if a <+: b then none else d.entryAt? b := by
  by_cases hb : b = []
  · subst hb
    rw [if_neg (by simpa using h), entry_nil, entry_nil]
  · rw [entry_of_ne_nil hb, entry_of_ne_nil hb]
    have hkey := lookup_filter_key (fun c => !a.isPrefixOf c) d.entries b
    by_cases hab : a <+: b
    · rw [if_pos hab]
      exact hkey.trans (if_neg (by simpa using hab))
    · rw [if_neg hab]
      exact hkey.trans
        (if_pos (by simpa [List.isPrefixOf_iff_prefix, ← Bool.not_eq_true] using hab))

theorem isDirectoryAt_iff {d : Disk} {a : Address} :
    d.isDirectoryAt a ↔ d.entryAt? a = some .directory := by
  rw [isDirectoryAt, decide_eq_true_eq]

/-! ## Steps -/

theorem onward_of_next {a b : Address} {step : String} (h : next a step = .ok b) :
    b = onward a step := by
  rw [next] at h
  rw [onward]
  split at h
  · cases h
    simp [*]
  · split at h
    · cases h
      simp [*]
    · split at h
      · cases h
      · cases h
        simp [*]

theorem step_eq_ok_iff {d : Disk} {a b : Address} {step : String} :
    d.step a step = .ok b ↔ d.isDirectoryAt a ∧ next a step = .ok b ∧ (d.entryAt? b).isSome := by
  rw [Disk.step]
  cases hdir : d.isDirectoryAt a with
  | false => simp
  | true =>
      simp only [if_true, bind_eq_ok_iff, ite_eq_iff, pure_eq_ok_iff, throw_ne_ok, and_false,
        or_false, true_and]
      constructor
      · rintro ⟨c, hnext, hsome, rfl⟩
        exact ⟨hnext, hsome⟩
      · rintro ⟨hnext, hsome⟩
        exact ⟨b, hnext, hsome, rfl⟩

theorem foldlM_step_cons {d : Disk} {a b : Address} {step : String} {rest : List String} :
    (step :: rest).foldlM d.step a = .ok b ↔
      ∃ c, d.step a step = .ok c ∧ rest.foldlM d.step c = .ok b := by
  rw [List.foldlM_cons, bind_eq_ok_iff]

theorem eq_foldl_of_foldlM {d : Disk} {steps : List String} {a b : Address}
    (h : steps.foldlM d.step a = .ok b) : b = steps.foldl onward a := by
  induction steps generalizing a with
  | nil =>
      obtain rfl := pure_eq_ok_iff.mp h
      rfl
  | cons step rest ih =>
      obtain ⟨c, hstep, hrest⟩ := foldlM_step_cons.mp h
      obtain rfl := onward_of_next (step_eq_ok_iff.mp hstep).2.1
      exact ih hrest

theorem foldlM_step_of_kept {d e : Disk} {steps : List String} {a b : Address}
    (hdirectory : ∀ c ∈ steps.scanl onward a, d.isDirectoryAt c → e.isDirectoryAt c)
    (hend : (d.entryAt? b).isSome → (e.entryAt? b).isSome) (h : steps.foldlM d.step a = .ok b) :
    steps.foldlM e.step a = .ok b := by
  induction steps generalizing a with
  | nil => exact h
  | cons step rest ih =>
      obtain ⟨c, hstep, hrest⟩ := foldlM_step_cons.mp h
      obtain ⟨hdir, hnext, hsome⟩ := step_eq_ok_iff.mp hstep
      obtain rfl := onward_of_next hnext
      rw [List.scanl_cons] at hdirectory
      have hdirectory' := fun c hc => hdirectory c (List.mem_cons_of_mem _ hc)
      refine foldlM_step_cons.mpr ⟨_, step_eq_ok_iff.mpr ⟨?_, hnext, ?_⟩, ih hdirectory' hrest⟩
      · exact hdirectory a List.mem_cons_self hdir
      · cases rest with
        | nil =>
            obtain rfl := pure_eq_ok_iff.mp hrest
            exact hend hsome
        | cons next rest =>
            obtain ⟨_, hstep', _⟩ := foldlM_step_cons.mp hrest
            have hkept := hdirectory' (onward a step) (by rw [List.scanl_cons]; exact
              List.mem_cons_self) (step_eq_ok_iff.mp hstep').1
            rw [isDirectoryAt_iff.mp hkept]
            rfl

/-! ## Finding -/

theorem find_eq_ok_iff {d : Disk} {p : Path} {a : Address} :
    d.find p = .ok a ↔ pathFault? p = none ∧ p.steps.foldlM d.step (d.start p) = .ok a ∧
      (p.endsInSlash → d.isDirectoryAt a) := by
  rw [find]
  cases hfault : pathFault? p with
  | some fault => simp
  | none =>
      simp only [bind_eq_ok_iff, ite_eq_iff, pure_eq_ok_iff, throw_ne_ok, true_and]
      constructor
      · rintro ⟨b, hsteps, ⟨_, _, himpossible, _⟩ | ⟨hdir, rfl⟩⟩
        · exact himpossible.elim
        · exact ⟨hsteps, fun hslash => by simpa [hslash] using hdir⟩
      · rintro ⟨hsteps, hdir⟩
        refine ⟨a, hsteps, Or.inr ⟨?_, rfl⟩⟩
        rintro ⟨hslash, hno⟩
        simp [hdir hslash] at hno

theorem address_of_find {d : Disk} {p : Path} {a : Address} (h : d.find p = .ok a) :
    a = p.address d.home :=
  eq_foldl_of_foldlM (find_eq_ok_iff.mp h).2.1

/-- The address of something that can be made has a last step, and that is a name
in a directory. -/
theorem place_eq_some_iff {d : Disk} {p : Path} {b : Address} :
    d.place p = .ok (some b) ↔ pathFault? p = none ∧ ∃ front last a,
      p.steps = front ++ [last] ∧ front.foldlM d.step (d.start p) = .ok a ∧
        d.isDirectoryAt a ∧ last ≠ "." ∧ last ≠ ".." ∧ next a last = .ok b := by
  rw [place]
  cases hfault : pathFault? p with
  | some fault => simp
  | none =>
      simp only [bind_eq_ok_iff, ite_eq_iff, throw_ne_ok, true_and]
      constructor
      · rintro ⟨a, hsteps, ⟨hdir, hlast⟩ | ⟨_, _, himpossible, _⟩⟩
        · cases hend : p.steps.getLast? with
          | none =>
              rw [hend] at hlast
              cases pure_eq_ok_iff.mp hlast
          | some last =>
              obtain ⟨front, hfront⟩ := List.getLast?_eq_some_iff.mp hend
              rw [hfront, List.dropLast_concat] at hsteps
              simp only [hend, ite_eq_iff, pure_eq_ok_iff, map_eq_ok_iff, reduceCtorEq, and_false,
                false_or, Option.some.injEq, exists_eq_right, not_or] at hlast
              exact ⟨front, last, a, hfront, hsteps, hdir, hlast.1.1, hlast.1.2, hlast.2⟩
        · exact himpossible.elim
      · rintro ⟨front, last, a, hsteps, hfront, hdir, hdot, hdots, hnext⟩
        rw [hsteps, List.dropLast_concat, List.getLast?_concat]
        refine ⟨a, hfront, Or.inl ⟨hdir, ?_⟩⟩
        simp [hdot, hdots, hnext]

theorem address_of_place {d : Disk} {p : Path} {b : Address} (h : d.place p = .ok (some b)) :
    b = p.address d.home := by
  obtain ⟨_, front, last, a, hsteps, hfront, _, _, _, hnext⟩ := place_eq_some_iff.mp h
  rw [Path.address, hsteps, List.foldl_append, onward_of_next hnext,
    eq_foldl_of_foldlM hfront]
  rfl

theorem ne_nil_of_place {d : Disk} {p : Path} {b : Address} (h : d.place p = .ok (some b)) :
    b ≠ [] := by
  obtain ⟨_, front, last, a, _, _, _, hdot, hdots, hnext⟩ := place_eq_some_iff.mp h
  rw [onward_of_next hnext, onward, if_neg hdot, if_neg hdots]
  simp

theorem place_of_kept {d e : Disk} {p : Path} {b : Address} (hhome : e.home = d.home)
    (hway : ∀ c ∈ p.way d.home, d.isDirectoryAt c → e.isDirectoryAt c)
    (h : d.place p = .ok (some b)) : e.place p = .ok (some b) := by
  obtain ⟨hfault, front, last, a, hsteps, hfront, hdir, hdot, hdots, hnext⟩ :=
    place_eq_some_iff.mp h
  have hstart : e.start p = d.start p := by
    rw [start, start, hhome]
  have hfrontWay : ∀ c ∈ front.scanl onward (d.start p), c ∈ p.way d.home := by
    intro c hc
    rw [Path.way, hsteps, List.scanl_append]
    exact List.mem_append_left _ hc
  have hend : a ∈ front.scanl onward (d.start p) := by
    rw [eq_foldl_of_foldlM hfront]
    exact List.mem_of_getLast? List.getLast?_scanl
  have hdir' := hway a (hfrontWay a hend) hdir
  refine place_eq_some_iff.mpr
    ⟨hfault, front, last, a, hsteps, ?_, hdir', hdot, hdots, hnext⟩
  rw [hstart]
  refine foldlM_step_of_kept (fun c hc => hway c (hfrontWay c hc)) (fun _ => ?_) hfront
  rw [isDirectoryAt_iff.mp hdir']
  rfl

theorem find_of_kept {d e : Disk} {p : Path} {a : Address} (hhome : e.home = d.home)
    (hway : ∀ c ∈ p.way d.home, d.isDirectoryAt c → e.isDirectoryAt c)
    (hsome : (e.entryAt? a).isSome) (h : d.find p = .ok a) : e.find p = .ok a := by
  obtain ⟨hfault, hsteps, hslash⟩ := find_eq_ok_iff.mp h
  have hstart : e.start p = d.start p := by
    rw [start, start, hhome]
  have hend : a ∈ p.way d.home := by
    rw [eq_foldl_of_foldlM hsteps]
    exact List.mem_of_getLast? List.getLast?_scanl
  refine find_eq_ok_iff.mpr ⟨hfault, ?_, fun h => hway a hend (hslash h)⟩
  rw [hstart]
  exact foldlM_step_of_kept hway (fun _ => hsome) hsteps

theorem find_of_place {d : Disk} {p : Path} {b : Address} (h : d.place p = .ok (some b))
    (hslash : p.endsInSlash → d.isDirectoryAt b) (hsome : (d.entryAt? b).isSome) :
    d.find p = .ok b := by
  obtain ⟨hfault, front, last, a, hsteps, hfront, hdir, _, _, hnext⟩ := place_eq_some_iff.mp h
  refine find_eq_ok_iff.mpr ⟨hfault, ?_, hslash⟩
  rw [hsteps, List.foldlM_append, bind_eq_ok_iff]
  exact ⟨a, hfront, foldlM_step_cons.mpr ⟨b, step_eq_ok_iff.mpr ⟨hdir, hnext, hsome⟩, rfl⟩⟩

theorem isSome_of_foldlM {d : Disk} {steps : List String} {a b : Address} (hne : steps ≠ [])
    (h : steps.foldlM d.step a = .ok b) : (d.entryAt? b).isSome := by
  induction steps generalizing a with
  | nil => exact absurd rfl hne
  | cons step rest ih =>
      obtain ⟨c, hstep, hrest⟩ := foldlM_step_cons.mp h
      cases rest with
      | nil =>
          obtain rfl := pure_eq_ok_iff.mp hrest
          exact (step_eq_ok_iff.mp hstep).2.2
      | cons next rest => exact ih (List.cons_ne_nil _ _) hrest

theorem isSome_of_find {d : Disk} {p : Path} {a : Address} (h : d.find p = .ok a) :
    (d.entryAt? a).isSome := by
  obtain ⟨hfault, hsteps, _⟩ := find_eq_ok_iff.mp h
  by_cases hnil : p.steps = []
  · have htext : p.text ≠ "" := by
      intro hempty
      rw [pathFault?, hempty] at hfault
      cases hfault
    rw [hnil, start, if_pos (Path.isAbsolute_of_steps_eq_nil htext hnil)] at hsteps
    obtain rfl := pure_eq_ok_iff.mp hsteps
    rfl
  · exact isSome_of_foldlM hnil hsteps

theorem step_ne_isADirectory (d : Disk) (a : Address) (step : String) :
    d.step a step ≠ .error .isADirectory := by
  simp [Disk.step, next, ite_eq_iff]

theorem foldlM_step_ne_isADirectory (d : Disk) (a : Address) (steps : List String) :
    steps.foldlM d.step a ≠ .error .isADirectory := by
  induction steps generalizing a with
  | nil => exact pure_ne_error
  | cons step steps ih =>
      intro h
      rw [List.foldlM_cons, bind_eq_error_iff] at h
      rcases h with h | ⟨b, _, h⟩
      · exact step_ne_isADirectory d a step h
      · exact ih b h

/-- That a path leads to nothing is never for a directory at its end. -/
theorem find_ne_isADirectory (d : Disk) (p : Path) : d.find p ≠ .error .isADirectory := by
  have hfault : pathFault? p ≠ some .isADirectory := by simp [pathFault?, ite_eq_iff]
  rw [find]
  cases hp : pathFault? p with
  | some fault => simpa [hp] using hfault
  | none => simp [ite_eq_iff, foldlM_step_ne_isADirectory]

/-! ## Files -/

theorem file_eq_ok_iff {d : Disk} {p : Path} {f : File} :
    d.file p = .ok f ↔ ∃ a, d.find p = .ok a ∧ d.entryAt? a = some (.file f) := by
  rw [file, bind_eq_ok_iff]
  refine exists_congr fun a => and_congr_right fun _ => ?_
  cases d.entryAt? a with
  | none => simp
  | some entry => cases entry <;> simp

theorem readText_eq_ok_iff {d : Disk} {p : Path} {text : String} :
    d.readText p = .ok text ↔ ∃ isLocked, d.file p = .ok ⟨.text text, isLocked⟩ := by
  rw [readText, bind_eq_ok_iff]
  constructor
  · rintro ⟨⟨content, isLocked⟩, hfile, htext⟩
    cases content with
    | text content =>
        obtain rfl := pure_eq_ok_iff.mp htext
        exact ⟨isLocked, hfile⟩
    | database db => exact absurd htext throw_ne_ok
  · rintro ⟨isLocked, hfile⟩
    exact ⟨_, hfile, rfl⟩

theorem makeDirectory_eq_ok_iff {d e : Disk} {p : Path} :
    d.makeDirectory p = .ok e ↔
      ∃ a, d.place p = .ok (some a) ∧ d.entryAt? a = none ∧ e = d.set a .directory := by
  rw [makeDirectory, bind_eq_ok_iff]
  constructor
  · rintro ⟨place, hplace, hmade⟩
    cases place with
    | none => exact absurd hmade throw_ne_ok
    | some a =>
        simp only [ite_eq_iff, throw_ne_ok, and_false, false_or, pure_eq_ok_iff] at hmade
        exact ⟨a, hplace, by simpa using hmade.1, hmade.2.symm⟩
  · rintro ⟨a, hplace, hnone, rfl⟩
    exact ⟨some a, hplace, by simp [hnone]⟩

/-- A file that is changed is the one at its path, or a new one. -/
theorem change_eq_ok_iff {d e : Disk} {p : Path} {f : File → File} :
    d.change p f = .ok e ↔ ∃ a old, d.place p = .ok (some a) ∧ ¬ p.endsInSlash ∧
      (d.entryAt? a = some (.file old) ∨ d.entryAt? a = none ∧ old = .empty) ∧
        e = d.set a (.file (f old)) := by
  rw [change, bind_eq_ok_iff]
  constructor
  · rintro ⟨place, hplace, hchanged⟩
    cases place with
    | none => exact absurd hchanged throw_ne_ok
    | some a =>
        by_cases hslash : p.endsInSlash
        · simp [hslash] at hchanged
        · cases hentry : d.entryAt? a with
          | none =>
              simp only [hslash, hentry] at hchanged
              exact ⟨a, .empty, hplace, hslash, Or.inr ⟨hentry, rfl⟩,
                (pure_eq_ok_iff.mp hchanged).symm⟩
          | some entry =>
              cases entry with
              | directory => simp [hslash, hentry] at hchanged
              | file old =>
                  simp only [hslash, hentry] at hchanged
                  exact ⟨a, old, hplace, hslash, Or.inl hentry,
                    (pure_eq_ok_iff.mp hchanged).symm⟩
  · rintro ⟨a, old, hplace, hslash, hold, rfl⟩
    refine ⟨some a, hplace, ?_⟩
    rcases hold with hold | ⟨hnone, rfl⟩
    · simp [hslash, hold]
    · simp [hslash, hnone]

theorem rename_eq_ok_iff {d e : Disk} {p q : Path} :
    d.rename p q = .ok e ↔ ∃ a f b, d.find p = .ok a ∧ d.entryAt? a = some (.file f) ∧
      d.place q = .ok (some b) ∧ ¬ q.endsInSlash ∧ ¬ d.isDirectoryAt b ∧
        e = (d.erase a).set b (.file f) := by
  rw [rename]
  simp only [bind_eq_ok_iff, file_eq_ok_iff]
  constructor
  · rintro ⟨a, hfind, f, ⟨_, hfind', hentry⟩, place, hplace, hmoved⟩
    rw [hfind] at hfind'
    cases hfind'
    cases place with
    | none => exact absurd hmoved throw_ne_ok
    | some b =>
        by_cases hslash : q.endsInSlash
        · simp [hslash] at hmoved
        · by_cases hdir : d.isDirectoryAt b
          · simp [hslash, hdir] at hmoved
          · simp only [hslash, hdir] at hmoved
            exact ⟨a, f, b, hfind, hentry, hplace, hslash, hdir, (pure_eq_ok_iff.mp hmoved).symm⟩
  · rintro ⟨a, f, b, hfind, hentry, hplace, hslash, hdir, rfl⟩
    refine ⟨a, hfind, f, ⟨a, hfind, hentry⟩, some b, hplace, ?_⟩
    simp [hslash, hdir]

end CallAtlas.Disk
