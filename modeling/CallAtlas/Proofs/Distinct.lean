import Mathlib.Data.List.Nodup

/-!
# Lists without repetition
-/

namespace CallAtlas

variable {α : Type} [BEq α] [LawfulBEq α]

theorem nodup_eraseDups (l : List α) : l.eraseDups.Nodup := by
  match l with
  | [] => exact List.nodup_nil
  | a :: rest =>
      rw [List.eraseDups_cons, List.nodup_cons]
      refine ⟨?_, nodup_eraseDups (rest.filter fun b => !b == a)⟩
      intro ha
      have hkept := List.of_mem_filter (List.mem_eraseDups.mp ha)
      simp at hkept
termination_by l.length
decreasing_by exact Nat.lt_succ_of_le (List.length_filter_le ..)

theorem eraseDups_of_nodup {l : List α} (h : l.Nodup) : l.eraseDups = l := by
  induction l with
  | nil => rfl
  | cons a rest ih =>
      obtain ⟨ha, hrest⟩ := List.nodup_cons.mp h
      rw [List.eraseDups_cons, List.filter_eq_self.mpr, ih hrest]
      intro b hb
      have hne : b ≠ a := fun heq => ha (heq ▸ hb)
      simpa using hne

theorem eraseDups_append_singleton (l : List α) (a : α) :
    (l ++ [a]).eraseDups = l.eraseDups ++ if a ∈ l then [] else [a] := by
  rw [List.eraseDups_append]
  by_cases h : a ∈ l
  · simp [List.removeAll, h]
  · simp [List.removeAll, h, List.eraseDups_cons]

theorem filter_eq_singleton {β γ : Type} [DecidableEq γ] {f : β → γ} {l : List β}
    (h : (l.map f).Nodup) {a : β} (ha : a ∈ l) : l.filter (f · = f a) = [a] := by
  induction l with
  | nil => cases ha
  | cons b l ih =>
      obtain ⟨hb, hl⟩ := List.nodup_cons.mp h
      rcases List.mem_cons.mp ha with rfl | ha
      · have hrest : l.filter (f · = f a) = [] := by
          rw [List.filter_eq_nil_iff]
          intro c hc heq
          exact hb (of_decide_eq_true heq ▸ List.mem_map_of_mem hc)
        rw [List.filter_cons_of_pos (by simp), hrest]
      · have hne : f b ≠ f a := fun heq => hb (heq ▸ List.mem_map_of_mem ha)
        rw [List.filter_cons_of_neg (by simpa using hne), ih hl ha]

/-- Where no two items share a value the order of the items does not matter for
the one that has it. -/
theorem filter_eq_of_perm {β γ : Type} [DecidableEq γ] {f : β → γ} {l k : List β}
    (hperm : l.Perm k) (h : (l.map f).Nodup) (c : γ) :
    l.filter (f · = c) = k.filter (f · = c) := by
  by_cases hc : ∃ a ∈ l, f a = c
  · obtain ⟨a, ha, rfl⟩ := hc
    rw [filter_eq_singleton h ha,
      filter_eq_singleton ((hperm.map f).nodup_iff.mp h) (hperm.mem_iff.mp ha)]
  · have hnone : l.filter (f · = c) = [] := by
      rw [List.filter_eq_nil_iff]
      intro a ha heq
      exact hc ⟨a, ha, of_decide_eq_true heq⟩
    rw [hnone]
    exact (hnone ▸ hperm.filter _).nil_eq

end CallAtlas
