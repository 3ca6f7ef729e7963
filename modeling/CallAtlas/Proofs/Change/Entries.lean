import CallAtlas.Change.Analysis

/-!
# The entries of a change set

A change set is a map from paths to reports, kept as a list with ascending paths.
An insertion unites its report with what was there at its path and touches no
other path. What is there at the paths says all about a change set.
-/

namespace CallAtlas

namespace ChangeSet

/-! ## Paths in order -/

/-- Each path has one entry, and the paths ascend. -/
def Ordered (s : ChangeSet) : Prop :=
  Ascending (s.entries.map (·.1))

theorem map_fst_insertEntry (path : String) (changes : FileChanges)
    (entries : List (String × FileChanges)) :
    (insertEntry path changes entries).map (·.1) = Ascending.insert path (entries.map (·.1)) := by
  induction entries with
  | nil => rfl
  | cons entry rest ih =>
      obtain ⟨p, c⟩ := entry
      rw [insertEntry, List.map_cons, Ascending.insert]
      cases compare path p with
      | lt => rfl
      | eq => rfl
      | gt => exact congrArg (p :: ·) ih

theorem ordered_empty : empty.Ordered :=
  List.Pairwise.nil

theorem Ordered.insert {s : ChangeSet} (h : s.Ordered) (path : String) (changes : FileChanges) :
    (s.insert path changes).Ordered := by
  rw [ChangeSet.insert]
  split
  · exact h
  · rw [Ordered, map_fst_insertEntry]
    exact Ascending.insert_ascending h

theorem ordered_ofPatch (before after : Snapshot) (patch : Patch) :
    (ofPatch before after patch).Ordered := by
  refine List.foldlRecOn patch.files _ ordered_empty fun s hs f _ => ?_
  cases f.reportPath? with
  | none => exact hs
  | some path => exact hs.insert path _

/-! ## What is there at a path -/

section

variable {entries : List (String × FileChanges)} {path : String}

theorem lookup_cons_eq_ite (p : String) (changes : FileChanges) :
    ((p, changes) :: entries).lookup path =
      if path = p then some changes else entries.lookup path := by
  rw [List.lookup_cons]
  by_cases heq : path = p
  · simp [heq]
  · rw [beq_eq_false_iff_ne.mpr heq, if_neg heq]

theorem lookup_eq_none_of_lt (h : ∀ p ∈ entries.map (·.1), compare path p = .lt) :
    entries.lookup path = none := by
  rw [List.lookup_eq_none_iff]
  intro entry hentry
  have hlt := h entry.1 (List.mem_map_of_mem hentry)
  rw [bne_iff_ne]
  rintro rfl
  simp at hlt

theorem mem_iff_lookup (h : Ascending (entries.map (·.1))) {changes : FileChanges} :
    (path, changes) ∈ entries ↔ entries.lookup path = some changes := by
  induction entries with
  | nil => simp
  | cons entry rest ih =>
      obtain ⟨p, c⟩ := entry
      obtain ⟨hfirst, hrest⟩ := List.pairwise_cons.mp h
      rw [List.mem_cons, lookup_cons_eq_ite, Prod.mk.injEq, ih hrest]
      by_cases heq : path = p
      · have hnone : rest.lookup path = none := lookup_eq_none_of_lt (heq ▸ hfirst)
        simp [heq ▸ hnone, heq, eq_comm]
      · simp [heq]

theorem lookup_insertEntry (changes : FileChanges) (h : Ascending (entries.map (·.1)))
    (other : String) :
    (insertEntry path changes entries).lookup other =
      if other = path then some (((entries.lookup path).getD .empty).union changes)
      else entries.lookup other := by
  induction entries with
  | nil => exact lookup_cons_eq_ite path _
  | cons entry rest ih =>
      obtain ⟨p, c⟩ := entry
      obtain ⟨hfirst, hrest⟩ := List.pairwise_cons.mp h
      rw [insertEntry]
      split
      case h_1 hlt =>
        have hnone : ((p, c) :: rest).lookup path = none := by
          refine lookup_eq_none_of_lt fun q hq => ?_
          rcases List.mem_cons.mp hq with rfl | hq
          · exact hlt
          · exact Std.TransCmp.lt_trans hlt (hfirst q hq)
        rw [hnone, Option.getD_none, lookup_cons_eq_ite]
      case h_2 heq =>
        obtain rfl : path = p := Std.LawfulEqOrd.eq_of_compare heq
        rw [lookup_cons_eq_ite, lookup_cons_eq_ite, lookup_cons_eq_ite, if_pos rfl,
          Option.getD_some]
        split <;> rfl
      case h_3 hgt =>
        have hne : path ≠ p := by
          rintro rfl
          simp at hgt
        rw [lookup_cons_eq_ite, ih hrest, lookup_cons_eq_ite, lookup_cons_eq_ite, if_neg hne]
        by_cases heq : other = path
        · rw [if_pos heq, if_pos heq, if_neg (heq ▸ hne)]
        · rw [if_neg heq, if_neg heq]

end

theorem get?_insert {s : ChangeSet} (h : s.Ordered) (path : String) (changes : FileChanges)
    (other : String) :
    (s.insert path changes).get? other =
      if other = path ∧ changes.isEmpty = false then
        some (((s.get? path).getD .empty).union changes)
      else s.get? other := by
  rw [insert]
  cases changes.isEmpty with
  | true => simp
  | false => simpa [get?] using lookup_insertEntry changes h other

theorem Ordered.ext {s t : ChangeSet} (hs : s.Ordered) (ht : t.Ordered)
    (h : ∀ path, s.get? path = t.get? path) : s = t := by
  have hne : ∀ {a b : String × FileChanges}, compare a.1 b.1 = .lt → a ≠ b := by
    rintro a _ hlt rfl
    simp at hlt
  have hs := List.pairwise_map.mp hs
  have ht := List.pairwise_map.mp ht
  have hperm : s.entries.Perm t.entries := by
    refine (List.perm_ext_iff_of_nodup (hs.imp hne) (ht.imp hne)).mpr fun entry => ?_
    rw [mem_iff_lookup (List.pairwise_map.mpr hs), mem_iff_lookup (List.pairwise_map.mpr ht)]
    exact Iff.of_eq (congrArg (· = some entry.2) (h entry.1))
  refine congrArg mk (hperm.eq_of_pairwise ?_ hs ht)
  intro a b _ _ hab hba
  have hgt := Std.OrientedCmp.gt_of_lt hba
  rw [hab] at hgt
  cases hgt

end ChangeSet

end CallAtlas
