import CallAtlas.Proofs.Snapshot.Constructed

/-!
# Where snapshots come from

All that enters a snapshot comes from the tables of a build or from a text that is
read. Builds are made by the library, texts are taken as they are. So what holds
of the snapshots that the library hands out may depend on the texts that it has
been given.
-/

namespace CallAtlas

namespace Snapshot

/-- The snapshots that the library hands out when each text that it reads holds a
snapshot of a certain kind. -/
inductive ConstructedFrom (Kind : Snapshot → Prop) : Snapshot → Prop where
  | empty (revision : String) : ConstructedFrom Kind (.empty revision)
  | assembled {t : Extraction.Tables} {revision : String} {s : Snapshot} :
      t.assemble revision = .ok s → ConstructedFrom Kind s
  | read {text : String} {s : Snapshot} : ofJson text = .ok s → Kind s → ConstructedFrom Kind s
  | revised {s : Snapshot} (revision : String) :
      ConstructedFrom Kind s → ConstructedFrom Kind (s.withRevision revision)
  | merged {before after : Snapshot} {patch : Patch} {outcome : Merge.Outcome} :
      ConstructedFrom Kind before → ConstructedFrom Kind after →
      Merge.alongPatch before after patch = .ok outcome → ConstructedFrom Kind outcome.snapshot
  | advanced {before : Option Snapshot} {after : Snapshot} {diff : String}
      {outcome : Merge.Outcome} :
      (∀ s, before = some s → ConstructedFrom Kind s) → ConstructedFrom Kind after →
      Rolling.advance before after diff = .ok outcome → ConstructedFrom Kind outcome.snapshot

variable {Kind : Snapshot → Prop}

theorem ConstructedFrom.constructed {s : Snapshot} (h : s.ConstructedFrom Kind) :
    s.Constructed := by
  induction h with
  | empty revision => exact .empty revision
  | assembled h => exact .assembled h
  | read h _ => exact .read h
  | revised revision _ ih => exact ih.revised revision
  | merged _ _ h ihbefore ihafter => exact .merged ihbefore ihafter h
  | advanced _ _ h ihbefore ihafter => exact .advanced ihbefore ihafter h

/-- What builds have, what a new revision leaves alone and what comes out of a
merge of snapshots that have it, is there if all texts that are read have it. -/
theorem ConstructedFrom.kind (hempty : ∀ revision, Kind (.empty revision))
    (hassembled : ∀ {t : Extraction.Tables} {revision s}, t.assemble revision = .ok s → Kind s)
    (hrevised : ∀ {s} revision, Kind s → Kind (s.withRevision revision))
    (hmerged : ∀ {before after : Snapshot} {patch outcome}, before.WellFormed →
      after.WellFormed → Kind before → Kind after →
      Merge.alongPatch before after patch = .ok outcome → Kind outcome.snapshot)
    {s : Snapshot} (h : s.ConstructedFrom Kind) : Kind s := by
  induction h with
  | empty revision => exact hempty revision
  | assembled h => exact hassembled h
  | read _ hkind => exact hkind
  | revised revision _ ih => exact hrevised revision ih
  | merged hbefore hafter h ihbefore ihafter =>
      exact hmerged hbefore.constructed.wellFormed hafter.constructed.wellFormed ihbefore
        ihafter h
  | @advanced before after diff outcome hbefore hafter h ihbefore ihafter =>
      cases before with
      | none =>
          cases h
          exact ihafter
      | some before =>
          obtain ⟨patch, -, hmerge⟩ := Rolling.advance_some_eq_ok_iff.mp h
          exact hmerged (hbefore before rfl).constructed.wellFormed
            hafter.constructed.wellFormed (ihbefore before rfl) ihafter hmerge

end Snapshot

end CallAtlas
