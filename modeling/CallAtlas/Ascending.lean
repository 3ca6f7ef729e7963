/-!
# Ascending lists

A finite set kept as the strictly ascending list of its elements. Two such
lists with the same elements are equal, so an answer that depends on elements
alone does not depend on the order in which they came.
-/

namespace CallAtlas

def Ascending [Ord α] (l : List α) : Prop :=
  l.Pairwise fun a b => compare a b = .lt

namespace Ascending

variable [Ord α]

/-- Puts an element at its place, unless it is there already. -/
def insert (a : α) : List α → List α
  | [] => [a]
  | b :: rest =>
      match compare a b with
      | .lt => a :: b :: rest
      | .eq => b :: rest
      | .gt => b :: insert a rest

/-- The elements of a list, ascending and without repetition. -/
def ofList (l : List α) : List α :=
  l.foldr insert []

/-! ## Elements and order -/

variable [Std.LawfulEqOrd α]

theorem mem_insert {a x : α} {l : List α} : x ∈ insert a l ↔ x = a ∨ x ∈ l := by
  induction l with
  | nil => simp [insert]
  | cons b rest ih =>
      rw [insert]
      split
      · simp
      · rename_i h
        cases Std.LawfulEqOrd.eq_of_compare h
        simp
      · rw [List.mem_cons, ih, List.mem_cons]
        constructor <;> rintro (h | h | h) <;> simp [h]

theorem mem_ofList {x : α} {l : List α} : x ∈ ofList l ↔ x ∈ l := by
  induction l with
  | nil => simp [ofList]
  | cons a l ih =>
      rw [ofList, List.foldr_cons, mem_insert, List.mem_cons, ← ofList, ih]

variable [Std.TransOrd α]

theorem insert_ascending {a : α} {l : List α} (h : Ascending l) : Ascending (insert a l) := by
  induction l with
  | nil => exact List.pairwise_singleton _ _
  | cons b rest ih =>
      obtain ⟨hb, hrest⟩ := List.pairwise_cons.mp h
      rw [insert]
      split
      · rename_i hab
        refine List.pairwise_cons.mpr ⟨fun x hx => ?_, h⟩
        rcases List.mem_cons.mp hx with rfl | hx
        · exact hab
        · exact Std.TransCmp.lt_trans hab (hb x hx)
      · exact h
      · rename_i hab
        refine List.pairwise_cons.mpr ⟨fun x hx => ?_, ih hrest⟩
        rcases mem_insert.mp hx with rfl | hx
        · exact Std.OrientedCmp.lt_of_gt hab
        · exact hb x hx

theorem ofList_ascending (l : List α) : Ascending (ofList l) := by
  induction l with
  | nil => exact List.Pairwise.nil
  | cons a l ih => exact insert_ascending ih

omit [Std.LawfulEqOrd α] in
theorem nodup {l : List α} (h : Ascending l) : l.Nodup := by
  refine h.imp ?_
  rintro a _ hlt rfl
  simp at hlt

omit [Std.LawfulEqOrd α] in
/-- An ascending list is determined by its elements. -/
theorem ext {l k : List α} (hl : Ascending l) (hk : Ascending k) (h : ∀ x, x ∈ l ↔ x ∈ k) :
    l = k := by
  have hperm := (List.perm_ext_iff_of_nodup hl.nodup hk.nodup).mpr h
  refine hperm.eq_of_pairwise ?_ hl hk
  intro a b _ _ hab hba
  have hgt := Std.OrientedCmp.gt_of_lt hba
  rw [hab] at hgt
  cases hgt

end Ascending

end CallAtlas
