import CallAtlas.Proofs.Merge.Replay
import CallAtlas.Proofs.Rolling
import CallAtlas.Proofs.Snapshot.Provenance

/-!
# Records and the paths of their files

A record names its file by a number, and the path of a file is looked up at its
first place. Both lead to the same as long as the file of each record is the first
one with its path. Builds and merges list no path twice. A text may, and then what
is looked up by path misses records that a merge, which goes by their paths, does
not miss.
-/

namespace CallAtlas

namespace Snapshot

/-- What is looked up by path is what belongs to the path. -/
structure Owned (s : Snapshot) : Prop where
  fileId?_eq : ∀ r ∈ s.records, s.fileId? (s.pathOf r) = some r.file
  mem_functionsIn : ∀ r ∈ s.records, r ∈ s.functionsIn (s.pathOf r)
  pathOf_eq_iff : ∀ r ∈ s.records, ∀ q ∈ s.records, s.pathOf r = s.pathOf q ↔ r.file = q.file
  functionsIn_eq : ∀ path, s.functionsIn path = s.records.filter (s.pathOf · = path)

/-! ## First places -/

theorem fileId?_eq_some_iff_first {s : Snapshot} {path : String} {file : Nat} :
    s.fileId? path = some file ↔
      s.files[file]? = some path ∧ ∀ place, s.files[place]? = some path → file ≤ place := by
  rw [fileId?, List.findIdx?_eq_some_iff_getElem]
  constructor
  · rintro ⟨hlt, hpath, hfirst⟩
    refine ⟨?_, fun place hplace => ?_⟩
    · rw [List.getElem?_eq_getElem hlt, of_decide_eq_true hpath]
    · by_contra hbefore
      obtain ⟨hplace, heq⟩ := List.getElem?_eq_some_iff.mp hplace
      have hother := hfirst place (by omega)
      simp [heq] at hother
  · rintro ⟨hfile, hfirst⟩
    obtain ⟨hlt, hpath⟩ := List.getElem?_eq_some_iff.mp hfile
    refine ⟨hlt, decide_eq_true hpath, fun place hbefore heq => ?_⟩
    have hle := hfirst place
      (List.getElem?_eq_some_iff.mpr ⟨by omega, of_decide_eq_true heq⟩)
    omega

section

variable {s : Snapshot}

/-- Lookups by path agree with the records exactly when each record is in the
first file with its path. -/
theorem WellFormed.owned_iff (hs : s.WellFormed) :
    s.Owned ↔
      ∀ r ∈ s.records, ∀ place, s.files[place]? = some (s.pathOf r) → r.file ≤ place := by
  constructor
  · intro howned r hr
    exact (fileId?_eq_some_iff_first.mp (howned.fileId?_eq r hr)).2
  · intro hfirst
    have hfile : ∀ r ∈ s.records, s.fileId? (s.pathOf r) = some r.file := fun r hr =>
      fileId?_eq_some_iff_first.mpr ⟨getElem?_pathIn (hs.file_lt r hr), hfirst r hr⟩
    have hpath : ∀ r ∈ s.records, ∀ path,
        s.fileId? path = some r.file ↔ s.pathOf r = path := by
      intro r hr path
      constructor
      · intro h
        have hget := (fileId?_eq_some_iff_first.mp h).1
        rw [getElem?_pathIn (hs.file_lt r hr)] at hget
        exact Option.some.inj hget
      · rintro rfl
        exact hfile r hr
    refine ⟨hfile, ?_, ?_, ?_⟩
    · intro r hr
      exact List.mem_filter.mpr ⟨hr, decide_eq_true (hfile r hr)⟩
    · intro r hr q hq
      rw [← hpath r hr, hfile q hq, Option.some.injEq, eq_comm]
    · intro path
      exact List.filter_congr fun r hr => decide_eq_decide.mpr (hpath r hr path)

theorem WellFormed.owned_of_nodup (hs : s.WellFormed) (hfiles : s.files.Nodup) : s.Owned := by
  refine hs.owned_iff.mpr fun r hr place hplace => ?_
  obtain ⟨hlt, heq⟩ := List.getElem?_eq_some_iff.mp hplace
  obtain ⟨hfile, hpath⟩ := List.getElem?_eq_some_iff.mp (getElem?_pathIn (hs.file_lt r hr))
  exact (hfiles.getElem_inj_iff.mp (hpath.trans heq.symm)).le

/-- No path is listed twice unless a text lists it twice. -/
theorem ConstructedFrom.nodup_files (h : s.ConstructedFrom (·.files.Nodup)) : s.files.Nodup :=
  h.kind (fun _ => List.nodup_nil) (fun h => (Rolling.wellFormed_of_assemble h).2)
    (fun _ hfiles => hfiles) fun hbefore _ _ _ h => Merge.nodup_files_alongPatch hbefore h

/-- Lookups by path agree with the records exactly when each record is in the
first file with its path; they do if no text lists a path twice, and in what comes
out of a merge whatever goes in. -/
theorem owned_iff_of_constructed (h : s.Constructed) :
    (s.Owned ↔
      ∀ r ∈ s.records, ∀ place, s.files[place]? = some (s.pathOf r) → r.file ≤ place) ∧
    (s.ConstructedFrom (·.files.Nodup) → s.Owned) ∧
    ∀ {after : Snapshot} {patch : Patch} {outcome : Merge.Outcome},
      Merge.alongPatch s after patch = .ok outcome → outcome.snapshot.Owned := by
  refine ⟨h.wellFormed.owned_iff, ?_, ?_⟩
  · intro hread
    exact h.wellFormed.owned_of_nodup hread.nodup_files
  · intro after patch outcome hmerge
    exact (Merge.wellFormed_alongPatch hmerge).owned_of_nodup
      (Merge.nodup_files_alongPatch h.wellFormed hmerge)

end

open Extraction (sampleSnapshot wellFormed_sample)
open Merge (repeatedBefore repeatedOutcome wellFormed_repeatedBefore alongDiff_repeated)

/-- A snapshot read from a text that lists each file once, and a merge into one
from a text that does not. -/
theorem owned_sample :
    sampleSnapshot.Constructed ∧ sampleSnapshot.ConstructedFrom (·.files.Nodup) ∧
      sampleSnapshot.Owned ∧ repeatedBefore.Constructed ∧ repeatedOutcome.snapshot.Owned := by
  have hread : ofJson sampleSnapshot.toJson = .ok sampleSnapshot :=
    wellFormed_sample.read_toJson (by decide)
  have hfrom : sampleSnapshot.ConstructedFrom (·.files.Nodup) := .read hread (by decide)
  have hrepeated : repeatedBefore.Constructed :=
    .read (wellFormed_repeatedBefore.read_toJson (by decide))
  obtain ⟨patch, -, hmerge⟩ := Merge.alongDiff_eq_ok_iff.mp alongDiff_repeated
  exact ⟨.read hread, hfrom, (owned_iff_of_constructed (.read hread)).2.1 hfrom, hrepeated,
    (owned_iff_of_constructed hrepeated).2.2 hmerge⟩

def repeatedText : String :=
  "\x7b\"files\":[\"b.c\",\"c.c\",\"b.c\"],\"defs\":[0,[2,\"g()\",1,3,[]]],\"revision\":\"r0\"\x7d"

def deletionDiff : String :=
  "--- a/b.c\n+++ /dev/null\n@@ -1,3 +0,0 @@\n-a\n-b\n-c\n"

/-- The function is not found under the path of its file. A merge that deletes the
file drops it all the same, and reports nothing. -/
theorem record_of_repeated_file_is_missed :
    ofJson repeatedText = .ok repeatedBefore ∧
      repeatedBefore.records.map (fun r => (repeatedBefore.pathOf r, r.file)) = [("b.c", 2)] ∧
      repeatedBefore.fileId? "b.c" = some 0 ∧ repeatedBefore.functionsIn "b.c" = [] ∧
      ¬ repeatedBefore.Owned ∧
      Merge.alongDiff repeatedBefore (empty "r1") deletionDiff =
        .ok ⟨⟨["c.c"], [], "r1", []⟩, .empty, ⟨["b.c"], [], [], []⟩⟩ := by
  refine ⟨wellFormed_repeatedBefore.read_of_toJson_eq (by decide) (by decide +kernel), by decide,
    by decide, by decide, ?_, ?_⟩
  · intro howned
    have hfile := howned.fileId?_eq _ List.mem_cons_self
    revert hfile
    decide
  · refine Merge.alongDiff_eq_ok_iff.mpr ⟨⟨[⟨some "b.c", none,
      [.deletion 1, .deletion 2, .deletion 3]⟩]⟩, by rfl, ?_⟩
    refine Merge.alongPatch_eq_ok_iff.mpr ⟨by decide +kernel, by decide +kernel, ?_⟩
    exact build_eq_ok_iff.mpr ⟨by decide +kernel, by decide +kernel, by decide +kernel, rfl⟩

end Snapshot

end CallAtlas
