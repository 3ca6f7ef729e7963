import CallAtlas.Proofs.Extraction.Content
import CallAtlas.Proofs.Key.Material
import CallAtlas.Proofs.Merge.Parts
import CallAtlas.Rolling
import CallAtlas.Snapshot.Wire

/-!
# Refused keys

A snapshot is refused for a key that two of its records share, and nothing but the
digest makes them share it: whatever function digests, it has to take two inputs that
differ to one key. The operations that build snapshots are stated here over any such
function; the library's own are those with the first eight bytes of its digest.
-/

namespace CallAtlas

/-! ## Shared keys -/

namespace Key

/-- The first key that stands in the list a second time, and its two places. -/
structure SharedAt (keys : List Key) (key : Key) (earlier later : ℕ) : Prop where
  lt : earlier < later
  at_earlier : keys[earlier]? = some key
  at_later : keys[later]? = some key
  first : (keys.take later).Nodup

/-- The inputs at two places differ, and `H` digests both to that key. -/
def CollidesAt (H : List UInt8 → Key) (sources : List Source) (key : Key)
    (earlier later : ℕ) : Prop :=
  ∃ m n, (materials sources)[earlier]? = some m ∧ (materials sources)[later]? = some n ∧
    m ≠ n ∧ H m = key ∧ H n = key

theorem exists_sharedAt {front : List Key} {key : Key} (hnodup : front.Nodup)
    (hmem : key ∈ front) (back : List Key) :
    ∃ earlier, SharedAt (front ++ key :: back) key earlier front.length := by
  obtain ⟨earlier, hearlier⟩ := List.mem_iff_getElem?.mp hmem
  have hlt : earlier < front.length := (List.getElem?_eq_some_iff.mp hearlier).1
  refine ⟨earlier, hlt, ?_, ?_, ?_⟩
  · rw [List.getElem?_append_left hlt, hearlier]
  · rw [List.getElem?_append_right (Nat.le_refl _), Nat.sub_self, List.getElem?_cons_zero]
  · rwa [List.take_left]

/-- A shared key is a collision, since no two inputs are the same. -/
theorem SharedAt.collidesAt {H : List UInt8 → Key} {sources : List Source} {key : Key}
    {earlier later : ℕ} (h : SharedAt (assignBy H sources) key earlier later)
    (hplain : Plain sources) : CollidesAt H sources key earlier later := by
  obtain ⟨m, hm, hkey⟩ := Option.map_eq_some_iff.mp (List.getElem?_map .. ▸ h.at_earlier)
  obtain ⟨n, hn, hkey'⟩ := Option.map_eq_some_iff.mp (List.getElem?_map .. ▸ h.at_later)
  refine ⟨m, n, hm, hn, fun heq => ?_, hkey, hkey'⟩
  have hlater := (List.getElem?_eq_some_iff.mp hn).1
  exact List.nodup_iff_getElem?_ne_getElem?.mp (nodup_materials hplain) earlier later h.lt hlater
    (by rw [hm, hn, heq])

end Key

/-! ## Any digest -/

namespace Merge

/-- Merges along a patch, with keys that `assignment` gives out. -/
def alongPatchWith (assignment : List Key.Source → List Key) (before after : Snapshot)
    (patch : Patch) : Except Snapshot.Defect Outcome := do
  let partition := Partition.ofPaths patch.paths before after
  let (files, bodies) := parts before after partition
  let snapshot ← Snapshot.buildWith assignment files bodies after.revision
  return ⟨snapshot, .ofPatch before after patch, partition⟩

/-- Merges along a diff, with keys that `assignment` gives out. -/
def alongDiffWith (assignment : List Key.Source → List Key) (before after : Snapshot)
    (diff : String) : Except Failure Outcome := do
  let patch ← (Patch.parse diff).mapError .patch
  (alongPatchWith assignment before after patch).mapError .snapshot

/-- What the keys of a merged snapshot are derived from. -/
def mergedSources (before after : Snapshot) (patch : Patch) : List Key.Source :=
  let (files, bodies) := parts before after (.ofPaths patch.paths before after)
  Snapshot.sources files bodies

end Merge

namespace Snapshot

open Extraction (Assembly Inventory Linker Tables)
open Key (Source assignBy)

/-- The snapshot of its written parts, with keys that `assignment` gives out. -/
def ofPartsWith (assignment : List Source → List Key) (p : Parts) : Except Defect Snapshot := do
  buildWith assignment p.files (← bodiesOf p.entries) p.revision

/-- Reads the text of a snapshot, with keys that `assignment` gives out. -/
def ofJsonWith (assignment : List Source → List Key) (text : String) :
    Except Unreadable Snapshot :=
  match Json.read Parts.decode text with
  | .error fault => .error (.json fault)
  | .ok parts => (ofPartsWith assignment parts).mapError .defect

/-! ## Screened results -/

variable {ε ε' α β : Type}

/-- What may come of giving keys to these sources: they are accepted if all keys
differ, and refused for nothing but the first key that two of them share, which is a
collision of `H` if the bytes of the sources can be read back. -/
inductive Screened (H : List UInt8 → Key) (sources : List Source) (duplicate : Key → ε) :
    Except ε α → Prop
  | accepted {a : α} (hdistinct : (assignBy H sources).Nodup) : Screened H sources duplicate (.ok a)
  | refused {key : Key} {earlier later : ℕ}
      (hshared : Key.SharedAt (assignBy H sources) key earlier later)
      (hcollides : Key.Plain sources → Key.CollidesAt H sources key earlier later) :
      Screened H sources duplicate (.error (duplicate key))

namespace Screened

variable {H : List UInt8 → Key} {sources : List Source} {duplicate : Key → ε} {x : Except ε α}

theorem map (h : Screened H sources duplicate x) (f : α → β) :
    Screened H sources duplicate (x.map f) := by
  cases h with
  | accepted hdistinct => exact .accepted hdistinct
  | refused hshared hcollides => exact .refused hshared hcollides

theorem mapError (h : Screened H sources duplicate x) (f : ε → ε') :
    Screened H sources (f ∘ duplicate) (x.mapError f) := by
  cases h with
  | accepted hdistinct => exact .accepted hdistinct
  | refused hshared hcollides => exact .refused hshared hcollides

theorem exists_collidesAt {key : Key} (hduplicate : duplicate.Injective)
    (h : Screened H sources duplicate (.error (duplicate key) : Except ε α))
    (hplain : Key.Plain sources) : ∃ earlier later, Key.CollidesAt H sources key earlier later := by
  generalize hx : (.error (duplicate key) : Except ε α) = x at h
  cases h with
  | accepted => cases hx
  | refused _ hcollides =>
      obtain rfl := hduplicate (Except.error.inj hx)
      exact ⟨_, _, hcollides hplain⟩

end Screened

/-- The loop that makes the index screens the keys of the records. -/
theorem screened_enter {H : List UInt8 → Key} {sources : List Source} {records : List Record}
    (hkeys : records.map (·.key) = assignBy H sources) :
    Screened H sources .duplicateKey (enter [] 0 records) := by
  cases henter : enter [] 0 records with
  | ok index => exact .accepted (hkeys ▸ (enter_eq_ok_iff.mp henter).2.1)
  | error why =>
      obtain ⟨front, r, back, entered, rfl, hfront, ⟨entry, hentry, hkey⟩, rfl⟩ :=
        enter_eq_error_iff.mp henter
      obtain ⟨-, hnodup, rfl⟩ := enter_eq_ok_iff.mp hfront
      have hmem : r.key ∈ front.map (·.key) := by
        rw [← hkey, ← map_fst_placesFrom 0]
        exact List.mem_map_of_mem hentry
      obtain ⟨earlier, hshared⟩ := Key.exists_sharedAt hnodup hmem (back.map (·.key))
      rw [List.map_append, List.map_cons] at hkeys
      rw [hkeys] at hshared
      exact .refused hshared hshared.collidesAt

/-! ## Building -/

theorem map_key_zipWith {bodies : List Body} {keys : List Key} (h : keys.length = bodies.length) :
    (List.zipWith Record.mk bodies keys).map (·.key) = keys := by
  rw [← List.map_uncurry_zip_eq_zipWith, List.map_map]
  exact List.map_snd_zip (Nat.le_of_eq h)

theorem screened_buildWith (H : List UInt8 → Key) {files : List String} {bodies : List Body}
    (revision : String) (hrange : ∀ b ∈ bodies, b.file < files.length) :
    Screened H (sources files bodies) .duplicateKey
      (buildWith (assignBy H) files bodies revision) := by
  have hlength : (assignBy H (sources files bodies)).length = bodies.length := by
    rw [assignBy, List.length_map, Key.length_materials, length_sources]
  have henter := (screened_enter (map_key_zipWith hlength)).map fun index =>
    (⟨files, List.zipWith Record.mk bodies (assignBy H (sources files bodies)), revision, index⟩ :
      Snapshot)
  rw [buildWith, find?_file_eq_none hrange]
  exact henter

/-! ## Assembling, merging and reading -/

theorem screened_assemblyWith (H : List UInt8 → Key) (t : Tables) (revision : String) :
    Screened H t.inventory.sources .duplicateKey
      (t.assemblyWith (assignBy H) (assignBy H) revision) := by
  let linker : Linker :=
    { t.linker with keys := t.inventory.ids.zip (assignBy H t.inventory.sources) }
  let g := linker.graph t.callsResolved t.callsUnresolved
  have hbuild := screened_buildWith H revision (t.file_lt_of_mem_bodiesOf g.edgesOf)
  rw [t.sources_bodiesOf, t.bodiesOf_edgesOf] at hbuild
  exact hbuild.map fun s =>
    (⟨s, { t.counts with calls := linker.counts t.callsResolved t.callsUnresolved }⟩ : Assembly)

theorem screened_alongPatchWith (H : List UInt8 → Key) (before after : Snapshot) (patch : Patch) :
    Screened H (Merge.mergedSources before after patch) .duplicateKey
      (Merge.alongPatchWith (assignBy H) before after patch) :=
  (screened_buildWith H after.revision fun _ => Merge.file_lt_of_mem_parts).map fun s =>
    (⟨s, .ofPatch before after patch, .ofPaths patch.paths before after⟩ : Merge.Outcome)

theorem screened_alongDiffWith (H : List UInt8 → Key) (before after : Snapshot) {diff : String}
    {patch : Patch} (hparse : Patch.parse diff = .ok patch) :
    Screened H (Merge.mergedSources before after patch) (Failure.snapshot ∘ .duplicateKey)
      (Merge.alongDiffWith (assignBy H) before after diff) := by
  rw [Merge.alongDiffWith, hparse]
  exact (screened_alongPatchWith H before after patch).mapError Failure.snapshot

theorem screened_ofJsonWith (H : List UInt8 → Key) {text : String} {p : Parts}
    {bodies : List Body} (hread : Json.read Parts.decode text = .ok p)
    (hbodies : bodiesOf p.entries = .ok bodies)
    (hrange : ∀ b ∈ bodies, b.file < p.files.length) :
    Screened H (sources p.files bodies) (Unreadable.defect ∘ .duplicateKey)
      (ofJsonWith (assignBy H) text) := by
  rw [ofJsonWith, hread]
  show Screened H _ _ ((ofPartsWith (assignBy H) p).mapError Unreadable.defect)
  rw [ofPartsWith, hbodies]
  exact (screened_buildWith H p.revision hrange).mapError Unreadable.defect

/-! ## Only collisions -/

/-- Whatever digests, valid parts make a snapshot unless it takes two inputs to one key.
The tables of a build always make valid parts, and so do two snapshots with a diff that
can be read; a text has to hold them. The operations of the library are those with its
own digest. -/
theorem refused_only_for_collisions (H : List UInt8 → Key) :
    (∀ sources, Key.Plain sources → (Key.materials sources).Nodup) ∧
      (∀ (files : List String) (bodies : List Body) (revision : String),
        (∀ b ∈ bodies, b.file < files.length) →
        Screened H (sources files bodies) .duplicateKey
          (buildWith (assignBy H) files bodies revision)) ∧
      (∀ (t : Tables) (revision : String),
        Screened H t.inventory.sources .duplicateKey
          (t.assemblyWith (assignBy H) (assignBy H) revision)) ∧
      (∀ (before after : Snapshot) (diff : String) (patch : Patch),
        Patch.parse diff = .ok patch →
        Screened H (Merge.mergedSources before after patch) (Failure.snapshot ∘ .duplicateKey)
          (Merge.alongDiffWith (assignBy H) before after diff)) ∧
      (∀ (text : String) (p : Parts) (bodies : List Body),
        Json.read Parts.decode text = .ok p → bodiesOf p.entries = .ok bodies →
        (∀ b ∈ bodies, b.file < p.files.length) →
        Screened H (sources p.files bodies) (Unreadable.defect ∘ .duplicateKey)
          (ofJsonWith (assignBy H) text)) ∧
      buildWith (assignBy Key.digest) = build ∧
      (∀ t : Tables, t.assemblyWith (assignBy Key.digest) (assignBy Key.digest) = t.assembly) ∧
      (∀ (t : Tables) (revision : String),
        t.assembly revision = (t.assemble revision).map fun s => ⟨s, t.counts⟩) ∧
      Merge.alongDiffWith (assignBy Key.digest) = Merge.alongDiff ∧
      ofJsonWith (assignBy Key.digest) = ofJson := by
  rw [Key.assignBy_digest]
  exact ⟨fun _ => Key.nodup_materials, fun _ _ revision => screened_buildWith H revision,
    screened_assemblyWith H, fun before after _ _ => screened_alongDiffWith H before after,
    fun _ _ _ => screened_ofJsonWith H, rfl, fun _ => rfl, Tables.assembly_eq_map,
    rfl, rfl⟩

/-- Two functions of one file. -/
def samplePair : List Body :=
  [⟨0, ⟨"f()"⟩, ⟨1, 2⟩, []⟩, ⟨0, ⟨"g()"⟩, ⟨3, 4⟩, []⟩]

/-- A digest that tells nothing apart. -/
theorem refused_only_for_collisions_constant :
    Key.Plain (sources ["a.c"] samplePair) ∧ (∀ b ∈ samplePair, b.file < ["a.c"].length) ∧
      buildWith (assignBy fun _ => ⟨0⟩) ["a.c"] samplePair "r1" = .error (.duplicateKey ⟨0⟩) ∧
      ∃ earlier later,
        Key.CollidesAt (fun _ => ⟨0⟩) (sources ["a.c"] samplePair) ⟨0⟩ earlier later := by
  have hplain : Key.Plain (sources ["a.c"] samplePair) := ⟨by decide, by decide +kernel⟩
  have hrange : ∀ b ∈ samplePair, b.file < ["a.c"].length := by decide
  have hkeys : (assignBy fun _ => ⟨0⟩) (sources ["a.c"] samplePair) = [⟨0⟩, ⟨0⟩] := by
    rw [assignBy, List.map_const', Key.length_materials]
    rfl
  have hrefused : buildWith (assignBy fun _ => ⟨0⟩) ["a.c"] samplePair "r1" =
      .error (.duplicateKey ⟨0⟩) := by
    rw [buildWith, find?_file_eq_none hrange, hkeys]
    rfl
  have hscreened := (refused_only_for_collisions fun _ => ⟨0⟩).2.1 _ _ "r1" hrange
  rw [hrefused] at hscreened
  have hinjective : Function.Injective Defect.duplicateKey := fun _ _ => Defect.duplicateKey.inj
  exact ⟨hplain, hrange, hrefused, hscreened.exists_collidesAt hinjective hplain⟩

end Snapshot

end CallAtlas
