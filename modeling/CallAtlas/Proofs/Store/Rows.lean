import CallAtlas.Store.Database
import Mathlib.Data.List.Range

/-!
# Rows and their ids

Rows that are only ever added have the ids from one on, without gaps. A row that is put
into such a table gets the next id, unless its key is there already: then it is refused,
or the table stays as it is, depending on how it is put in.
-/

namespace CallAtlas.Store

/-! ## Ids -/

/-- The first ids that a table gives out. -/
def firstIds (n : Nat) : List Int :=
  (List.range' 1 n).map Int.ofNat

theorem firstIds_succ (n : Nat) : firstIds (n + 1) = firstIds n ++ [(n : Int) + 1] := by
  rw [firstIds, List.range'_1_concat, List.map_append, List.map_singleton, Nat.add_comm]
  rfl

@[simp] theorem length_firstIds (n : Nat) : (firstIds n).length = n := by
  rw [firstIds, List.length_map, List.length_range']

theorem map_id_append {α : Type} {id : α → Int} {k : List α} {a : α}
    (h : k.map id = firstIds k.length) (ha : id a = (k.length : Int) + 1) :
    (k ++ [a]).map id = firstIds (k ++ [a]).length := by
  rw [List.map_append, h, List.map_singleton, ha, List.length_append, List.length_singleton,
    firstIds_succ]

theorem mem_firstIds_iff {n : Nat} {id : Int} : id ∈ firstIds n ↔ 1 ≤ id ∧ id ≤ n := by
  rw [firstIds, List.mem_map]
  constructor
  · rintro ⟨k, hk, rfl⟩
    rw [List.mem_range'_1] at hk
    rw [Int.ofNat_eq_natCast]
    omega
  · rintro ⟨hfirst, hlast⟩
    refine ⟨id.toNat, ?_, Int.toNat_of_nonneg (by omega)⟩
    rw [List.mem_range'_1]
    omega

theorem pairwise_firstIds (n : Nat) : (firstIds n).Pairwise (· < ·) := by
  rw [firstIds, List.pairwise_map]
  exact (List.pairwise_lt_range' 1).imp fun hlt => Int.ofNat_lt.mpr hlt

theorem nodup_firstIds (n : Nat) : (firstIds n).Nodup :=
  (pairwise_firstIds n).imp Int.ne_of_lt

theorem max?_firstIds (n : Nat) : (firstIds (n + 1)).max? = some ((n : Int) + 1) := by
  rw [List.max?_eq_some_iff]
  constructor
  · rw [firstIds_succ]
    exact List.mem_append_right _ List.mem_cons_self
  · intro id hid
    exact (mem_firstIds_iff.mp hid).2

/-! ## Numbered rows -/

/-- Rows with these cells, in the order in which they were put in. -/
def numbered (l : List (List Cell)) : List Row :=
  ((firstIds l.length).zip l).map fun (id, cells) => ⟨id, cells⟩

section

variable {l : List (List Cell)} {cells : List Cell}

theorem numbered_append_singleton (l : List (List Cell)) (cells : List Cell) :
    numbered (l ++ [cells]) = numbered l ++ [⟨(l.length : Int) + 1, cells⟩] := by
  rw [numbered, List.length_append, List.length_singleton, firstIds_succ,
    List.zip_append (length_firstIds _), List.map_append]
  rfl

theorem map_id_numbered (l : List (List Cell)) : (numbered l).map (·.id) = firstIds l.length := by
  rw [numbered, List.map_map]
  exact List.map_fst_zip (length_firstIds _).le

theorem map_cells_numbered (l : List (List Cell)) : (numbered l).map (·.cells) = l := by
  rw [numbered, List.map_map]
  exact List.map_snd_zip (length_firstIds _).ge

theorem pairwise_numbered (l : List (List Cell)) :
    (numbered l).Pairwise fun a b => a.id < b.id := by
  have hids := pairwise_firstIds l.length
  rw [← map_id_numbered, List.pairwise_map] at hids
  exact hids

theorem numbered_map_of_ids {α : Type} {k : List α} {id : α → Int} (f : α → List Cell)
    (h : k.map id = firstIds k.length) :
    numbered (k.map f) = k.map fun a => ⟨id a, f a⟩ := by
  rw [numbered, List.length_map, ← h, List.zip_map', List.map_map]
  rfl

namespace Database

theorem nextId_numbered (l : List (List Cell)) : nextId (numbered l) = (l.length : Int) + 1 := by
  rw [nextId, map_id_numbered]
  cases l with
  | nil => rfl
  | cons cells l =>
      rw [List.length_cons, max?_firstIds, Int.natCast_succ]

theorem any_id_numbered (l : List (List Cell)) :
    (numbered l).any (·.id = (l.length : Int) + 1) = false := by
  rw [List.any_eq_false]
  intro row hrow heq
  have hid : row.id ∈ firstIds l.length := map_id_numbered l ▸ List.mem_map_of_mem hrow
  have hle := (mem_firstIds_iff.mp hid).2
  have hnext := of_decide_eq_true heq
  omega

/-- Some row of the table has the key of the cells. -/
def Has (t : Table) (l : List (List Cell)) (cells : List Cell) : Prop :=
  ∃ old ∈ l, keyOf t old = keyOf t cells

instance (t : Table) (l : List (List Cell)) (cells : List Cell) : Decidable (Has t l cells) :=
  inferInstanceAs (Decidable (∃ old ∈ l, _))

variable {db : Database} {t : Table}

theorem has_append_singleton {added : List Cell} :
    Has t (l ++ [added]) cells ↔ Has t l cells ∨ keyOf t added = keyOf t cells := by
  simp only [Has, List.mem_append, List.mem_singleton, or_and_right, exists_or, exists_eq_left]

/-- In a table whose rows are named by all their cells, a row has a key exactly if it is
there. -/
theorem has_map_iff {α : Type} {t : Table} {f : α → List Cell} {l : List α} {a : α}
    (hkey : ∀ a, keyOf t (f a) = f a) (hf : Function.Injective f) :
    Has t (l.map f) (f a) ↔ a ∈ l := by
  constructor
  · rintro ⟨_, hold, hsame⟩
    obtain ⟨b, hb, rfl⟩ := List.mem_map.mp hold
    rw [hkey, hkey] at hsame
    exact hf hsame ▸ hb
  · intro ha
    exact ⟨f a, List.mem_map_of_mem ha, rfl⟩

theorem hasKey_numbered (hnull : .null ∉ keyOf t cells) :
    hasKey t (numbered l) cells = decide (Has t l cells) := by
  have hany : (numbered l).any (fun row => keyOf t row.cells = keyOf t cells) =
      l.any (keyOf t · = keyOf t cells) := by
    conv => rhs; rw [← map_cells_numbered l]
    rw [List.any_map]
    rfl
  rw [Bool.eq_iff_iff, decide_eq_true_iff]
  simp only [hasKey, hany, Bool.and_eq_true, Bool.not_eq_true', List.any_eq_true,
    decide_eq_true_eq, List.contains_eq_mem, decide_eq_false_iff_not]
  exact ⟨fun h => h.2, fun h => ⟨hnull, h⟩⟩

/-! ## Putting rows in -/

theorem lookup_map_snd {α β γ : Type} [BEq α] [LawfulBEq α] (f : α → β → γ) (l : List (α × β))
    (a : α) :
    (l.map fun (b, c) => (b, f b c)).lookup a = (l.lookup a).map (f a) := by
  induction l with
  | nil => rfl
  | cons entry l ih =>
      obtain ⟨b, c⟩ := entry
      rw [List.map_cons, List.lookup_cons, List.lookup_cons]
      by_cases hb : a = b
      · subst hb
        simp
      · have hne : (a == b) = false := by simpa using hb
        rw [hne]
        exact ih

theorem rows?_push (db : Database) (t u : Table) (row : Row) :
    (db.push t row).rows? u =
      (db.rows? u).map fun rows => if u = t then rows ++ [row] else rows :=
  lookup_map_snd (fun v rows => if v = t then rows ++ [row] else rows) db.tables u

/-- A row gets the next id, unless its key is there. -/
theorem insert_numbered (hrows : db.rows? t = some (numbered l)) (hstore : store t cells = cells)
    (hnull : .null ∉ keyOf t cells) :
    db.insert t none cells =
      if Has t l cells then .error (.notUnique (keyNames t))
      else .ok ((l.length : Int) + 1, db.push t ⟨(l.length : Int) + 1, cells⟩) := by
  rw [insert, hrows]
  simp only [hstore, Option.getD_none, nextId_numbered, any_id_numbered, hasKey_numbered hnull,
    Bool.false_eq_true, if_false, decide_eq_true_eq]

theorem insertNew_numbered (hrows : db.rows? t = some (numbered l))
    (hstore : store t cells = cells) (hnull : .null ∉ keyOf t cells) :
    db.insertNew t cells =
      .ok (if Has t l cells then db else db.push t ⟨(l.length : Int) + 1, cells⟩) := by
  rw [insertNew, hrows]
  simp only [hstore, nextId_numbered, hasKey_numbered hnull, decide_eq_true_eq]

end Database

end

end CallAtlas.Store
