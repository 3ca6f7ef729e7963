import CallAtlas.Pipeline
import CallAtlas.Proofs.Checks
import CallAtlas.Proofs.Extraction.Assembly
import CallAtlas.Proofs.Snapshot.RoundTrip
import Mathlib.Data.List.Perm.Subperm

/-!
# What a build comes to

What can be said of a build without a disk. A partial build is written out and read
back before it is merged, and nothing is lost on the way: what is merged is what
was assembled. A table has no more rows than there are row ids, which have 64 bits,
so the numbers of files fit as well.
-/

namespace CallAtlas

namespace Snapshot

/-- The snapshot that a text is, if there is one. -/
def loaded : Option String → Except Failure (Option Snapshot)
  | none => .ok none
  | some text =>
      match ofJson text with
      | .ok s => .ok (some s)
      | .error why => .error why.failure

theorem loaded_some (text : String) :
    loaded (some text) = some <$> (ofJson text).mapError (·.failure) := by
  rw [loaded]
  cases ofJson text with
  | ok s => rfl
  | error why => rfl

theorem WellFormed.loaded_toJson {s : Snapshot} (hs : s.WellFormed)
    (hsized : ∀ r ∈ s.records, r.file < 0x10000000000000000) :
    loaded (some s.toJson) = .ok (some s) := by
  rw [loaded, hs.read_toJson hsized]

end Snapshot

namespace Pipeline

/-- A partial build as it is read back from where it is staged. -/
def staged (opened : Except Store.Fault Store.Database) (revision : String) :
    Except Failure Snapshot := do
  let assembly ← opened.mapError .store >>= (Extraction.assembleStore · revision)
  (Snapshot.ofJson assembly.snapshot.toJson).mapError (·.failure)

/-- A snapshot merged into the one that a text is. -/
def absorbed (after : Snapshot) (rolling : Option String) (diff : String) :
    Except Failure (Option Snapshot × Merge.Outcome) := do
  let before ← Snapshot.loaded rolling
  let outcome ← Rolling.advance before after diff
  return (before, outcome)

end Pipeline

/-! ## Sizes -/

theorem length_of_mapM_eq_ok {ε α β : Type} {f : α → Except ε β} {l : List α} {k : List β}
    (h : l.mapM f = .ok k) : k.length = l.length := by
  induction l generalizing k with
  | nil =>
      cases h
      rfl
  | cons a l ih =>
      rw [List.mapM_cons] at h
      simp only [bind_eq_ok_iff, pure_eq_ok_iff] at h
      obtain ⟨b, _, rest, hrest, rfl⟩ := h
      rw [List.length_cons, List.length_cons, ih hrest]

/-- No table has more rows than there are row ids. -/
def Store.Database.Sized (db : Store.Database) : Prop :=
  ∀ t rows, db.rows? t = some rows → rows.length ≤ 0x10000000000000000

theorem Store.Database.sized_void : void.Sized :=
  fun _ _ himpossible => by cases himpossible

theorem Store.Database.length_of_readAll {db : Store.Database} {t : Store.Table} {first : Nat}
    {α : Type} {read : Store.Cursor → Except Store.Fault α} {l : List α} (hdb : db.Sized)
    (h : db.readAll t first read = .ok l) : l.length ≤ 0x10000000000000000 := by
  rw [readAll] at h
  cases hrows : db.rows? t with
  | none =>
      rw [hrows] at h
      cases h
  | some rows =>
      rw [hrows] at h
      rw [length_of_mapM_eq_ok h, sorted, List.length_mergeSort]
      exact hdb t rows hrows

theorem Extraction.Inventory.length_files_le (rows : List DefinitionRow) :
    (extract rows).files.length ≤ rows.length := by
  have hfiles : (extract rows).files ⊆ rows.map (·.path) := by
    intro path hpath
    exact List.mem_map.mpr ((mem_files rows).mp hpath)
  calc
    (extract rows).files.length ≤ (rows.map (·.path)).length :=
      (List.subperm_of_subset (nodup_files rows) hfiles).length_le
    _ = rows.length := List.length_map _

/-! ## Assembling and staging -/

/-- What assembling an open database comes to. -/
def Extraction.assembled (opened : Except Store.Fault Store.Database) (revision : String) :
    Except Failure Snapshot :=
  (·.snapshot) <$> (opened.mapError .store >>= (assembleStore · revision))

namespace Pipeline

variable {opened : Except Store.Fault Store.Database} {revision : String} {after : Snapshot}

open Extraction

theorem assembled_eq_ok_iff : assembled opened revision = .ok after ↔
    ∃ db tables, opened = .ok db ∧ db.load = .ok tables ∧ tables.assemble revision = .ok after := by
  simp only [assembled, map_eq_ok_iff, bind_eq_ok_iff, mapError_eq_ok_iff, assembleStore]
  constructor
  · rintro ⟨assembly, ⟨db, hopened, tables, hload, hassembly⟩, rfl⟩
    exact ⟨db, tables, hopened, hload, (Tables.assembly_eq_ok_iff.mp hassembly).1⟩
  · rintro ⟨db, tables, hopened, hload, hassemble⟩
    exact ⟨⟨after, tables.counts⟩, ⟨db, hopened, tables, hload,
      Tables.assembly_eq_ok_iff.mpr ⟨hassemble, rfl⟩⟩, rfl⟩

theorem staged_eq_bind (opened : Except Store.Fault Store.Database) (revision : String) :
    staged opened revision = assembled opened revision >>= fun s =>
      (Snapshot.ofJson s.toJson).mapError (·.failure) := by
  rw [staged, assembled]
  cases opened.mapError Failure.store >>= (assembleStore · revision) with
  | ok assembly => rfl
  | error why => rfl

theorem spec_of_assembled (h : assembled opened revision = .ok after) :
    after.WellFormed ∧ after.revision = revision := by
  obtain ⟨_, _, _, _, hassemble⟩ := assembled_eq_ok_iff.mp h
  obtain ⟨hwell, _, _, hrevision⟩ := Snapshot.build_eq_ok_iff.mp hassemble
  exact ⟨hwell, hrevision⟩

theorem length_files_of_assembled (hdb : ∀ db, opened = .ok db → db.Sized)
    (h : assembled opened revision = .ok after) : after.files.length ≤ 0x10000000000000000 := by
  obtain ⟨db, _, hopened, hload, hassemble⟩ := assembled_eq_ok_iff.mp h
  simp only [Store.Database.load, bind_eq_ok_iff, pure_eq_ok_iff] at hload
  obtain ⟨definitions, hdefinitions, _, _, _, _, _, _, _, _, _, _, rfl⟩ := hload
  calc
    after.files.length = (Inventory.extract definitions).files.length := by
      rw [(Snapshot.build_eq_ok_iff.mp hassemble).2.1]
      rfl
    _ ≤ definitions.length := Inventory.length_files_le definitions
    _ ≤ 0x10000000000000000 :=
      Store.Database.length_of_readAll (hdb db hopened) hdefinitions

theorem ofJson_toJson_of_length {s : Snapshot} (hs : s.WellFormed)
    (hlength : s.files.length ≤ 0x10000000000000000) : Snapshot.ofJson s.toJson = .ok s :=
  hs.read_toJson fun r hr => Nat.lt_of_lt_of_le (hs.file_lt r hr) hlength

theorem staged_eq_assembled (hdb : ∀ db, opened = .ok db → db.Sized) :
    staged opened revision = assembled opened revision := by
  rw [staged, assembled]
  cases hassembly : opened.mapError Failure.store >>= (assembleStore · revision) with
  | error why => rfl
  | ok assembly =>
      have hassembled : assembled opened revision = .ok assembly.snapshot := by
        rw [assembled, hassembly]
        rfl
      show (Snapshot.ofJson assembly.snapshot.toJson).mapError _ = .ok assembly.snapshot
      rw [ofJson_toJson_of_length (spec_of_assembled hassembled).1
        (length_files_of_assembled hdb hassembled)]
      rfl

theorem absorbed_eq_ok_iff {found : Option String} {diff : String} {before : Option Snapshot}
    {outcome : Merge.Outcome} : absorbed after found diff = .ok (before, outcome) ↔
      Snapshot.loaded found = .ok before ∧ Rolling.advance before after diff = .ok outcome := by
  simp only [absorbed, bind_eq_ok_iff, pure_eq_ok_iff, Prod.mk.injEq]
  constructor
  · rintro ⟨_, hloaded, _, hadvance, rfl, rfl⟩
    exact ⟨hloaded, hadvance⟩
  · rintro ⟨hloaded, hadvance⟩
    exact ⟨before, hloaded, outcome, hadvance, rfl, rfl⟩

theorem revision_of_advance {before : Option Snapshot} {diff : String} {outcome : Merge.Outcome}
    (h : Rolling.advance before after diff = .ok outcome) :
    outcome.snapshot.revision = after.revision := by
  cases before with
  | none =>
      cases h
      rfl
  | some before =>
      obtain ⟨patch, _, hmerge⟩ := Rolling.advance_some_eq_ok_iff.mp h
      exact (Snapshot.build_eq_ok_iff.mp (Merge.alongPatch_eq_ok_iff.mp hmerge).2.2).2.2.2

end Pipeline

end CallAtlas
