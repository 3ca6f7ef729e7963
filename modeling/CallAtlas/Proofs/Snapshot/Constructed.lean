import CallAtlas.Extraction.Assembly
import CallAtlas.Proofs.Checks
import CallAtlas.Proofs.Merge.Parts
import CallAtlas.Rolling

/-!
# The snapshots of the library

A snapshot is only ever handed out by one of a few operations, and each of them
ends in `build` or leaves files and records alone. So every snapshot that can be
had is well-formed.
-/

namespace CallAtlas

namespace Snapshot

/-- The snapshots that the library hands out. -/
inductive Constructed : Snapshot → Prop where
  | empty (revision : String) : Constructed (.empty revision)
  | assembled {t : Extraction.Tables} {revision : String} {s : Snapshot} :
      t.assemble revision = .ok s → Constructed s
  | read {text : String} {s : Snapshot} : ofJson text = .ok s → Constructed s
  | revised {s : Snapshot} (revision : String) :
      Constructed s → Constructed (s.withRevision revision)
  | merged {before after : Snapshot} {patch : Patch} {outcome : Merge.Outcome} :
      Constructed before → Constructed after →
      Merge.alongPatch before after patch = .ok outcome → Constructed outcome.snapshot
  | advanced {before : Option Snapshot} {after : Snapshot} {diff : String}
      {outcome : Merge.Outcome} :
      (∀ s, before = some s → Constructed s) → Constructed after →
      Rolling.advance before after diff = .ok outcome → Constructed outcome.snapshot

theorem wellFormed_of_build {files : List String} {bodies : List Body} {revision : String}
    {s : Snapshot} (h : build files bodies revision = .ok s) : s.WellFormed :=
  (build_eq_ok_iff.mp h).1

theorem wellFormed_empty (revision : String) : (empty revision).WellFormed := by
  refine ⟨?_, ?_, List.nodup_nil, rfl⟩
  · intro r hr
    cases hr
  · exact (List.eq_nil_of_length_eq_zero (Key.length_assign [])).symm

theorem wellFormed_of_ofParts {p : Parts} {s : Snapshot} (h : ofParts p = .ok s) :
    s.WellFormed := by
  rw [ofParts] at h
  cases hbodies : bodiesOf p.entries with
  | error why =>
      rw [hbodies] at h
      cases h
  | ok bodies =>
      rw [hbodies] at h
      exact wellFormed_of_build h

theorem wellFormed_of_ofJson {text : String} {s : Snapshot} (h : ofJson text = .ok s) :
    s.WellFormed := by
  rw [ofJson] at h
  cases hread : Json.read Parts.decode text with
  | error fault =>
      rw [hread] at h
      cases h
  | ok parts =>
      rw [hread] at h
      cases hparts : ofParts parts with
      | error why =>
          simp only [hparts] at h
          cases h
      | ok t =>
          simp only [hparts] at h
          cases h
          exact wellFormed_of_ofParts hparts

end Snapshot

namespace Merge

theorem alongDiff_eq_ok_iff {before after : Snapshot} {diff : String} {outcome : Outcome} :
    alongDiff before after diff = .ok outcome ↔
      ∃ patch, Patch.parse diff = .ok patch ∧ alongPatch before after patch = .ok outcome := by
  rw [alongDiff, bind_eq_ok_iff]
  simp only [mapError_eq_ok_iff]

end Merge

namespace Rolling

theorem advance_some_eq_ok_iff {before after : Snapshot} {diff : String}
    {outcome : Merge.Outcome} :
    advance (some before) after diff = .ok outcome ↔
      ∃ patch, Patch.parse diff = .ok patch ∧
        Merge.alongPatch before after patch = .ok outcome :=
  Merge.alongDiff_eq_ok_iff

theorem wellFormed_of_advance {before : Option Snapshot} {after : Snapshot} {diff : String}
    {outcome : Merge.Outcome} (hafter : after.WellFormed)
    (h : advance before after diff = .ok outcome) : outcome.snapshot.WellFormed := by
  cases before with
  | none =>
      cases h
      exact hafter
  | some before =>
      obtain ⟨patch, _, hmerge⟩ := advance_some_eq_ok_iff.mp h
      exact Merge.wellFormed_alongPatch hmerge

end Rolling

namespace Snapshot

/-- Every snapshot that the library hands out is well-formed. -/
theorem Constructed.wellFormed {s : Snapshot} (h : s.Constructed) : s.WellFormed := by
  induction h with
  | empty revision => exact wellFormed_empty revision
  | assembled h => exact wellFormed_of_build h
  | read h => exact wellFormed_of_ofJson h
  | revised revision _ ih => exact ih.withRevision revision
  | merged _ _ h _ _ => exact Merge.wellFormed_alongPatch h
  | advanced _ _ h _ ihafter => exact Rolling.wellFormed_of_advance ihafter h

end Snapshot

end CallAtlas
