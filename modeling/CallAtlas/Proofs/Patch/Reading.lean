import CallAtlas.Proofs.Patch.Steps

/-!
# Going through a diff

A reader goes through the lines of a diff one by one, so that a diff can be
followed part by part: what is known of the reader in front of some lines gives
what is known of it behind them.
-/

namespace CallAtlas.Patch

open Text (trimReturn)

namespace Reader

/-! ## A part of a diff -/

/-- The reader behind some lines, the first of which has the number
`count + 1`. -/
def feed (r : Reader) (count : Nat) : List (List Char) → Except Malformed Reader
  | [] => .ok r
  | line :: rest => do
      let r ← r.step (count + 1) line
      r.feed (count + 1) rest

theorem feed_append (r : Reader) (count : Nat) (front back : List (List Char)) :
    r.feed count (front ++ back) =
      (r.feed count front >>= fun s => s.feed (count + front.length) back) := by
  induction front generalizing r count with
  | nil => rfl
  | cons line front ih =>
      rw [List.cons_append, feed, feed]
      cases r.step (count + 1) line with
      | error malformed => rfl
      | ok s =>
          show s.feed (count + 1) (front ++ back) = s.feed (count + 1) front >>= _
          rw [ih, List.length_cons, Nat.add_assoc, Nat.add_comm 1]

theorem run_append (r : Reader) (count : Nat) (front back : List (List Char)) :
    r.run count (front ++ back) =
      (r.feed count front >>= fun s => s.run (count + front.length) back) := by
  induction front generalizing r count with
  | nil => rfl
  | cons line front ih =>
      rw [List.cons_append, run, feed]
      cases r.step (count + 1) line with
      | error malformed => rfl
      | ok s =>
          show s.run (count + 1) (front ++ back) = s.feed (count + 1) front >>= _
          rw [ih, List.length_cons, Nat.add_assoc, Nat.add_comm 1]

theorem run_eq_feed (r : Reader) (count : Nat) (lines : List (List Char)) :
    r.run count lines =
      (r.feed count lines >>= fun s => s.finish (count + lines.length)) := by
  have := run_append r count lines []
  rwa [List.append_nil] at this

theorem run_cons_eq_ok_iff {r : Reader} {count : Nat} {line : List Char}
    {rest : List (List Char)} {patch : Patch} :
    r.run count (line :: rest) = .ok patch ↔
      ∃ s, r.step (count + 1) line = .ok s ∧ s.run (count + 1) rest = .ok patch := by
  rw [run]
  cases r.step (count + 1) line <;> simp

/-- A diff may end where the reader is between hunks. -/
theorem finish_eq_ok_iff {r : Reader} {count : Nat} {patch : Patch} :
    r.finish count = .ok patch ↔ r.mode = .between ∧ patch = ⟨r.closed.reverse⟩ := by
  rw [finish]
  cases hmode : r.mode with
  | between => simp [eq_comm]
  | inside old new => simp
  | afterOld above old => simp

/-! ## Closed files stay -/

/-- What a line does to the closed files: it leaves them, or closes the file
that is open. -/
def Extends (r s : Reader) : Prop :=
  s.files = r.files ∨ s.files = r.closed

theorem suffix_closed (r : Reader) : r.files <:+ r.closed := by
  rw [closed]
  split
  · split
    · exact List.suffix_cons _ _
    · exact List.suffix_rfl
  · exact List.suffix_rfl

theorem Extends.suffix {r s : Reader} (h : Extends r s) : r.files <:+ s.files := by
  rcases h with hsame | hclosed
  · exact ⟨[], hsame.symm⟩
  · rw [hclosed]
    exact suffix_closed r

theorem extends_into (r : Reader) (old new : Range) : Extends r (r.into old new) := by
  rw [Extends, into]
  split <;> exact Or.inl rfl

theorem extends_adjust_into (r : Reader) (f : Section → Section) (old new : Range) :
    Extends r ((r.adjust f).into old new) := by
  rw [Extends, into]
  split <;> exact Or.inl rfl

theorem extends_headed (r : Reader) (old new : Option String) : Extends r (r.headed old new) := by
  rw [Extends, headed]
  dsimp only
  split
  · exact Or.inl rfl
  · exact Or.inr rfl

theorem extends_extendedHeader (r : Reader) (line : List Char) :
    Extends r (r.extendedHeader line) := by
  refine Or.inl ?_
  rw [extendedHeader, passed]
  repeat' split
  all_goals rfl

theorem extends_step {r s : Reader} {number : Nat} {line : List Char}
    (h : r.step number line = .ok s) : Extends r s := by
  cases reads_of_step h with
  | opens => exact Or.inr rfl
  | names => exact Or.inl rfl
  | heads => exact extends_headed ..
  | begins => exact extends_into ..
  | takes => exact extends_adjust_into ..
  | marks => exact Or.inl rfl
  | passes => exact extends_extendedHeader r line

/-- A file that is closed somewhere in a diff is among the files at its end. -/
theorem files_of_run {r : Reader} {count : Nat} {lines : List (List Char)} {patch : Patch}
    (h : r.run count lines = .ok patch) : r.files.reverse <+: patch.files := by
  induction lines generalizing r count with
  | nil =>
      obtain ⟨-, rfl⟩ := finish_eq_ok_iff.mp h
      exact List.reverse_prefix.mpr (suffix_closed r)
  | cons line rest ih =>
      obtain ⟨s, hstep, hrun⟩ := run_cons_eq_ok_iff.mp h
      exact (List.reverse_prefix.mpr (extends_step hstep).suffix).trans (ih hrun)

/-! ## What leads from where to where -/

/-- The lines, as they are written, take every reader of one kind to a reader
of another kind. -/
def Leads (P : Reader → Prop) (written : List (List Char)) (Q : Reader → Prop) : Prop :=
  ∀ r, P r → ∀ count, ∃ s, r.feed count (written.map trimReturn) = .ok s ∧ Q s

namespace Leads

variable {P Q R : Reader → Prop}

theorem nil (h : ∀ r, P r → Q r) : Leads P [] Q :=
  fun r hr _ => ⟨r, rfl, h r hr⟩

theorem single {line : List Char}
    (h : ∀ r, P r → ∀ number, ∃ s, r.step number (trimReturn line) = .ok s ∧ Q s) :
    Leads P [line] Q := by
  intro r hr count
  obtain ⟨s, hstep, hs⟩ := h r hr (count + 1)
  refine ⟨s, ?_, hs⟩
  rw [List.map_singleton, feed, hstep]
  rfl

theorem append {front back : List (List Char)} (hfront : Leads P front Q)
    (hback : Leads Q back R) : Leads P (front ++ back) R := by
  intro r hr count
  obtain ⟨s, hfeed, hs⟩ := hfront r hr count
  obtain ⟨t, hfeed', ht⟩ := hback s hs (count + (front.map trimReturn).length)
  refine ⟨t, ?_, ht⟩
  rw [List.map_append, feed_append, hfeed]
  exact hfeed'

theorem cons {line : List Char} {rest : List (List Char)} (hline : Leads P [line] Q)
    (hrest : Leads Q rest R) : Leads P (line :: rest) R :=
  hline.append hrest

theorem strengthen {P' : Reader → Prop} {written : List (List Char)} (h : Leads P written Q)
    (hP : ∀ r, P' r → P r) : Leads P' written Q :=
  fun r hr => h r (hP r hr)

theorem weaken {written : List (List Char)} (h : Leads P written Q) (hQ : ∀ r, Q r → R r) :
    Leads P written R := by
  intro r hr count
  obtain ⟨s, hfeed, hs⟩ := h r hr count
  exact ⟨s, hfeed, hQ s hs⟩

theorem flatMap {α : Type} {lines : α → List (List Char)} {P : List α → Reader → Prop}
    (h : ∀ done a, Leads (P done) (lines a) (P (done ++ [a]))) (items done : List α) :
    Leads (P done) (items.flatMap lines) (P (done ++ items)) := by
  induction items generalizing done with
  | nil => exact nil fun r hr => by rwa [List.append_nil]
  | cons a items ih =>
      have hrest := ih (done ++ [a])
      rw [List.append_assoc, List.singleton_append] at hrest
      exact (h done a).append hrest

end Leads

end Reader

end CallAtlas.Patch
