import CallAtlas.Proofs.Extraction.Assembly
import CallAtlas.Proofs.Snapshot.Lookup

/-!
# No call of a build leads nowhere

Calls are linked with keys that are assigned before there are records, and the
index is made of keys that are assigned to the records. Both are the same keys
in the same order, and nothing unknown becomes the end of an edge, whichever
table names it. So every edge of an assembled snapshot leads to its records.
-/

namespace CallAtlas

namespace Snapshot

theorem danglingEdges_eq_nil_iff {s : Snapshot} :
    s.danglingEdges = [] ↔
      ∀ r ∈ s.records, ∀ e ∈ r.callees, ∀ key ∈ e.callee.keys, s.hasKey key := by
  rw [danglingEdges, List.filter_eq_nil_iff]
  constructor
  · intro h r hr e he key hkey
    have hedge : (r.key, e) ∈ s.edges :=
      List.mem_flatMap.mpr ⟨r, hr, List.mem_map.mpr ⟨e, he, rfl⟩⟩
    have hdangling := h (r.key, e) hedge
    by_contra hno
    exact hdangling (List.any_eq_true.mpr ⟨key, hkey, by simpa using hno⟩)
  · rintro h ⟨caller, e⟩ hedge hdangling
    obtain ⟨r, hr, hmem⟩ := List.mem_flatMap.mp hedge
    obtain ⟨e', he, heq⟩ := List.mem_map.mp hmem
    cases heq
    obtain ⟨key, hkey, hno⟩ := List.any_eq_true.mp hdangling
    rw [h r hr e he key hkey] at hno
    cases hno

end Snapshot

namespace Extraction.Tables

variable {t : Tables}

theorem Reaches.known {target : RowId} {virtual : Bool} {callee : Callee}
    (h : t.Reaches t.key target virtual callee) (htarget : t.Known target) :
    ∀ key ∈ callee.keys, ∃ id, t.Known id ∧ key = t.key id := by
  cases h with
  | direct =>
      intro key hkey
      exact ⟨target, htarget, List.mem_singleton.mp hkey⟩
  | alone _ =>
      intro key hkey
      exact ⟨target, htarget, List.mem_singleton.mp hkey⟩
  | @only member hclass =>
      intro key hkey
      have hmember := (hclass.mem_iff member).mp List.mem_cons_self
      exact ⟨member, hmember.1, List.mem_singleton.mp hkey⟩
  | several hclass =>
      intro key hkey
      obtain ⟨member, hmem, rfl⟩ := List.mem_map.mp hkey
      exact ⟨member, ((hclass.mem_iff member).mp hmem).1, rfl⟩

theorem known_of_edge? {row : CallRow} {callee : Option RowId} {caller : RowId} {e : Edge}
    (h : t.linker.edge? row callee = some (caller, e)) :
    ∀ key ∈ e.callee.keys, ∃ id, t.Known id ∧ key = t.key id := by
  obtain ⟨_, _, target, key, _, hkey, rfl⟩ := Linker.edge?_eq_some_iff.mp h
  obtain ⟨htarget, rfl⟩ := key?_eq_some_iff.mp hkey
  exact (reaches_edge target row.isVirtual).known htarget

theorem known_of_mem_edgesOf {caller : RowId} {e : Edge}
    (h : e ∈ t.callGraph.edgesOf caller) :
    ∀ key ∈ e.callee.keys, ∃ id, t.Known id ∧ key = t.key id := by
  obtain ⟨⟨id, edge⟩, hmem, rfl⟩ := List.mem_map.mp h
  rcases List.mem_append.mp (List.mem_of_mem_filter hmem) with hresolved | hdeclared
  · obtain ⟨row, _, hedge⟩ := List.mem_filterMap.mp hresolved
    exact known_of_edge? hedge
  · obtain ⟨row, _, hedge⟩ := List.mem_filterMap.mp hdeclared
    exact known_of_edge? hedge

theorem map_key_records {revision : String} {s : Snapshot} (h : t.assemble revision = .ok s) :
    s.records.map (·.key) = t.inventory.ids.map t.key := by
  rw [records_eq h, List.map_map, Inventory.ids, List.map_map]
  rfl

/-- The keys that calls are linked with are those of the records, in order. -/
theorem map_keys_linker {revision : String} {s : Snapshot} (h : t.assemble revision = .ok s) :
    t.linker.keys.map (·.2) = s.records.map (·.key) := by
  have hlength : (Key.assign t.inventory.sources).length ≤ t.inventory.ids.length := by
    rw [Key.length_assign, Inventory.sources, Inventory.ids, List.length_map, List.length_map]
  rw [map_key_records h, map_key_ids]
  exact List.map_snd_zip hlength

/-- No edge of an assembled snapshot dangles: every key that an edge names is
that of a record, as the keys that calls are linked with are those of the
records. -/
theorem danglingEdges_of_assemble {revision : String} {s : Snapshot}
    (h : t.assemble revision = .ok s) :
    s.danglingEdges = [] ∧
      (∀ r ∈ s.records, ∀ e ∈ r.callees, ∀ key ∈ e.callee.keys,
        ∃ q ∈ s.records, q.key = key) ∧
      t.linker.keys.map (·.2) = s.records.map (·.key) := by
  have hreached : ∀ r ∈ s.records, ∀ e ∈ r.callees, ∀ key ∈ e.callee.keys,
      ∃ q ∈ s.records, q.key = key := by
    intro r hr e he key hkey
    rw [records_eq h] at hr
    obtain ⟨⟨caller, d⟩, _, rfl⟩ := List.mem_map.mp hr
    obtain ⟨id, hknown, rfl⟩ := known_of_mem_edgesOf he key hkey
    have hmem : t.key id ∈ s.records.map (·.key) := by
      rw [map_key_records h]
      exact List.mem_map_of_mem (mem_ids_iff.mpr hknown)
    exact List.mem_map.mp hmem
  refine ⟨Snapshot.danglingEdges_eq_nil_iff.mpr ?_, hreached, map_keys_linker h⟩
  intro r hr e he key hkey
  exact (Snapshot.wellFormed_of_build h).hasKey_iff.mpr (hreached r hr e he key hkey)

theorem danglingEdges_sample :
    sampleTables.assemble "r1" = .ok sampleSnapshot ∧
      sampleSnapshot.danglingEdges = [] ∧
      (∀ r ∈ sampleSnapshot.records, ∀ e ∈ r.callees, ∀ key ∈ e.callee.keys,
        ∃ q ∈ sampleSnapshot.records, q.key = key) ∧
      sampleTables.linker.keys.map (·.2) = sampleSnapshot.records.map (·.key) :=
  ⟨assemble_sample, danglingEdges_of_assemble assemble_sample⟩

end Extraction.Tables

end CallAtlas
