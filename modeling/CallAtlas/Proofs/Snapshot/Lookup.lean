import CallAtlas.Proofs.Merge.Layout
import CallAtlas.Proofs.Snapshot.Constructed

/-!
# What lookups find

A snapshot says three times over what there is: by its records, by its file
list and by its index of keys. Here the three are seen to agree in every
snapshot that the library hands out: a record names a listed file and has the
key of what it is, and the index finds it by that key and by no other.
-/

namespace CallAtlas

namespace Snapshot

/-! ## The index -/

theorem lookup_placesFrom (place : Nat) (records : List Record) (key : Key) :
    (placesFrom place records).lookup key =
      (records.findIdx? (·.key = key)).map (place + ·) := by
  induction records generalizing place with
  | nil => rfl
  | cons r rest ih =>
      rw [placesFrom, List.lookup_cons, List.findIdx?_cons]
      by_cases h : r.key = key
      · simp [h]
      · have hne : (key == r.key) = false := by simpa using fun heq : key = r.key => h heq.symm
        rw [hne, ih, if_neg (by simpa using h), Option.map_map]
        show Option.map _ _ = _
        congr 1
        funext later
        show place + 1 + later = place + (later + 1)
        omega

/-- The index leads to the first record that has the key. -/
theorem WellFormed.get?_eq_find? {s : Snapshot} (hs : s.WellFormed) (key : Key) :
    s.get? key = s.records.find? (·.key = key) := by
  have hindex : s.index.lookup key = s.records.findIdx? (·.key = key) := by
    rw [hs.index_eq, lookup_placesFrom]
    simp
  rw [get?, hindex, List.find?_eq_bind_findIdx?_getElem?]

theorem WellFormed.get?_eq_some_iff {s : Snapshot} (hs : s.WellFormed) {key : Key} {r : Record} :
    s.get? key = some r ↔ r ∈ s.records ∧ r.key = key := by
  rw [hs.get?_eq_find?]
  constructor
  · intro h
    exact ⟨List.mem_of_find?_eq_some h, by simpa using List.find?_some h⟩
  · rintro ⟨hr, rfl⟩
    have hsome : (s.records.find? (·.key = r.key)).isSome := by
      rw [List.find?_isSome]
      exact ⟨r, hr, by simp⟩
    obtain ⟨q, hq⟩ := Option.isSome_iff_exists.mp hsome
    have hkey : q.key = r.key := by simpa using List.find?_some hq
    have hsame := List.inj_on_of_nodup_map hs.keys_nodup (List.mem_of_find?_eq_some hq) hr hkey
    rw [hq, hsame]

theorem WellFormed.hasKey_iff {s : Snapshot} (hs : s.WellFormed) {key : Key} :
    s.hasKey key ↔ ∃ r ∈ s.records, r.key = key := by
  rw [hasKey, hs.index_eq, lookup_placesFrom, Option.isSome_map, List.findIdx?_isSome,
    List.any_eq_true]
  simp

/-! ## Ordinals in a snapshot -/

/-- How many records of the same file and signature come before the record at
that place: by their lines, and where lines agree by their places. -/
def ordinal (s : Snapshot) (place : Nat) (r : Record) : Nat :=
  s.records.zipIdx.countP fun (q, other) =>
    s.pathOf q = s.pathOf r ∧ q.signature = r.signature ∧
      (compare q.lines r.lines = .lt ∨ q.lines = r.lines ∧ other < place)

/-- What the key of a record is derived from, but for the ordinal. -/
def sourceOf (s : Snapshot) (r : Record) : Key.Source :=
  ⟨s.pathOf r, r.signature, r.lines⟩

theorem sources_eq_map_sourceOf (s : Snapshot) :
    sources s.files s.bodies = s.records.map s.sourceOf := by
  rw [sources, bodies, List.map_map]
  rfl

theorem rank_eq_ordinal {s : Snapshot} {place : Nat} {r : Record}
    (h : s.records[place]? = some r) :
    Key.rank (s.records.map s.sourceOf) (s.sourceOf r, place) = s.ordinal place r := by
  rw [Key.rank, List.zipIdx_map, List.countP_map, ordinal]
  apply List.countP_congr
  rintro ⟨q, other⟩ hq
  have hother : s.records[other]? = some q := List.mem_zipIdx_iff_getElem?.mp hq
  have hname : (s.sourceOf q).name = (s.sourceOf r).name ↔
      s.pathOf q = s.pathOf r ∧ q.signature = r.signature :=
    Iff.of_eq (Prod.mk.injEq ..)
  have hbefore : Key.Placed.before (s.sourceOf q, other) (s.sourceOf r, place) ↔
      compare q.lines r.lines = .lt ∨ q.lines = r.lines ∧ other ≤ place := by
    rw [Key.Placed.before_iff, Std.LawfulEqOrd.compare_eq_iff_eq]
    rfl
  simp only [Function.comp_apply, decide_eq_true_eq, Prod.map_apply, id_eq, hname, hbefore,
    and_assoc, ne_eq, Prod.mk.injEq]
  by_cases hplace : other = place
  · subst hplace
    obtain rfl : q = r := Option.some.inj (hother.symm.trans h)
    simp
  · have hlt : other ≤ place ↔ other < place := by omega
    simp [hplace, hlt]

/-! ## The three together -/

/-- Records, file list and index of a snapshot agree. -/
structure Coherent (s : Snapshot) : Prop where
  file_listed : ∀ r ∈ s.records, s.files[r.file]? = some (s.pathOf r)
  keys_distinct : (s.records.map (·.key)).Nodup
  key_eq : ∀ place r, s.records[place]? = some r →
    r.key = Key.derive (s.pathOf r) r.signature (s.ordinal place r)
  get?_iff : ∀ key r, s.get? key = some r ↔ r ∈ s.records ∧ r.key = key
  hasKey_iff : ∀ key, s.hasKey key ↔ ∃ r ∈ s.records, r.key = key

theorem WellFormed.key_eq {s : Snapshot} (hs : s.WellFormed) {place : Nat} {r : Record}
    (h : s.records[place]? = some r) :
    r.key = Key.derive (s.pathOf r) r.signature (s.ordinal place r) := by
  have hsource : (s.records.map s.sourceOf)[place]? = some (s.sourceOf r) := by
    rw [List.getElem?_map, h]
    rfl
  have hkey : (s.records.map (·.key))[place]? = some r.key := by
    rw [List.getElem?_map, h]
    rfl
  rw [hs.keys_eq, sources_eq_map_sourceOf, Key.getElem?_assign hsource, rank_eq_ordinal h] at hkey
  exact (Option.some.inj hkey).symm

theorem coherent_of_constructed {s : Snapshot} (h : s.Constructed) : s.Coherent := by
  have hs := h.wellFormed
  refine ⟨?_, hs.keys_nodup, ?_, ?_, ?_⟩
  · intro r hr
    exact getElem?_pathIn (hs.file_lt r hr)
  · intro place r hr
    exact hs.key_eq hr
  · intro key r
    exact hs.get?_eq_some_iff
  · intro key
    exact hs.hasKey_iff

/-- The snapshot of a merge of two builds. -/
theorem coherent_merge_sample :
    Merge.sampleOutcome.snapshot.Constructed ∧ Merge.sampleOutcome.snapshot.Coherent := by
  have hbefore : Extraction.sampleSnapshot.Constructed := .assembled Extraction.assemble_sample
  have h : Merge.sampleOutcome.snapshot.Constructed :=
    .merged hbefore (hbefore.revised "r2") Merge.alongPatch_sample
  exact ⟨h, coherent_of_constructed h⟩

end Snapshot

end CallAtlas
