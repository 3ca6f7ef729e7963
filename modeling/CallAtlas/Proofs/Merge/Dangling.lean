import CallAtlas.Proofs.Extraction.Dangling

/-!
# Edges that a merge leaves open

Neither of the two snapshots has an edge that leads nowhere, but each gives only
some of its functions to the merged one. So an edge dangles there when its
caller has come along and its callee has not: from the earlier snapshot
functions are left out whose files the diff names, and from the later one those
whose files it does not name.
-/

namespace CallAtlas.Merge

open Extraction (sampleSnapshot wellFormed_sample assemble_sample)

/-- An edge of a snapshot whose caller has come into the merged one and whose
callee has not. `Comes` says of which files the functions come in. -/
def Severed (s : Snapshot) (Comes : String → Prop) (merged : Snapshot) (caller : Key)
    (e : Edge) : Prop :=
  ∃ r ∈ s.records, r.key = caller ∧ e ∈ r.callees ∧ Comes (s.pathOf r) ∧
    ∀ key ∈ e.callee.keys, ¬ merged.hasKey key →
      ∃ q ∈ s.records, q.key = key ∧ ¬ Comes (s.pathOf q)

theorem exists_of_dangling {s : Snapshot} {caller : Key} {e : Edge}
    (h : (caller, e) ∈ s.danglingEdges) :
    (∃ f ∈ s.located, f.key = caller ∧ e ∈ f.callees) ∧ ∃ key ∈ e.callee.keys, ¬ s.hasKey key := by
  obtain ⟨hedge, hmissing⟩ := List.mem_filter.mp h
  obtain ⟨r, hr, hmem⟩ := List.mem_flatMap.mp hedge
  obtain ⟨e', he, heq⟩ := List.mem_map.mp hmem
  cases heq
  obtain ⟨key, hkey, hno⟩ := List.any_eq_true.mp hmissing
  exact ⟨⟨s.locate r, List.mem_map_of_mem hr, rfl, he⟩, key, hkey, by simpa using hno⟩

/-- Of a snapshot without dangling edges, an edge that has come into the merged
one can only lack functions that have not. -/
theorem severed_of_located {s merged : Snapshot} (hs : s.WellFormed) (hmerged : merged.WellFormed)
    (hnone : s.danglingEdges = []) {Comes : String → Prop}
    (hcomes : ∀ f ∈ s.located, Comes f.path → f ∈ merged.located) {f : Snapshot.Located}
    (hf : f ∈ s.located) (hpath : Comes f.path) {e : Edge} (he : e ∈ f.callees) :
    Severed s Comes merged f.key e := by
  obtain ⟨r, hr, rfl⟩ := List.mem_map.mp hf
  refine ⟨r, hr, rfl, he, hpath, fun key hkey hmissing => ?_⟩
  obtain ⟨q, hq, hqkey⟩ :=
    hs.hasKey_iff.mp (Snapshot.danglingEdges_eq_nil_iff.mp hnone r hr e he key hkey)
  refine ⟨q, hq, hqkey, fun hqpath => hmissing ?_⟩
  obtain ⟨m, hm, hlocate⟩ :=
    List.mem_map.mp (hcomes (s.locate q) (List.mem_map_of_mem hq) hqpath)
  have hmkey : m.key = q.key := congrArg Snapshot.Located.key hlocate
  exact hmerged.hasKey_iff.mpr ⟨m, hm, hmkey.trans hqkey⟩

section

variable {before after : Snapshot} {outcome : Outcome}

theorem mem_located_iff (hbefore : before.WellFormed) (hafter : after.WellFormed) {patch : Patch}
    (h : alongPatch before after patch = .ok outcome) {f : Snapshot.Located} :
    f ∈ outcome.snapshot.located ↔
      f ∈ before.located ∧ f.path ∉ outcome.partition.touched ∨
        f ∈ after.located ∧ f.path ∈ outcome.partition.paths := by
  have hchanged : f ∈ after.located →
      (f.path ∈ outcome.partition.changed ↔ f.path ∈ outcome.partition.paths) := by
    intro hf
    obtain ⟨r, hr, rfl⟩ := List.mem_map.mp hf
    have hfile : (after.locate r).path ∈ after.files := Snapshot.pathIn_mem (hafter.file_lt r hr)
    rw [(alongPatch_eq_ok_iff.mp h).1, Partition.mem_changed, Partition.mem_paths,
      and_iff_left hfile]
  rw [located_alongPatch hbefore hafter h, List.mem_append, List.mem_filter, List.mem_filter,
    decide_eq_true_iff, decide_eq_true_iff, and_congr_right hchanged]

/-- An edge that dangles in the merged snapshot was left by a function of a
touched file, or leads from a changed file to one that the diff does not name.
If the diff names every file of the later snapshot there are none of the second
kind. -/
theorem severed_of_dangling (hbefore : before.Constructed) (hafter : after.Constructed)
    (hbeforeNone : before.danglingEdges = []) (hafterNone : after.danglingEdges = [])
    {diff : String} (h : alongDiff before after diff = .ok outcome) :
    (∀ caller e, (caller, e) ∈ outcome.snapshot.danglingEdges →
        Severed before (· ∉ outcome.partition.touched) outcome.snapshot caller e ∨
          Severed after (· ∈ outcome.partition.paths) outcome.snapshot caller e) ∧
      ((∀ path ∈ after.files, path ∈ outcome.partition.paths) →
        ∀ caller e, (caller, e) ∈ outcome.snapshot.danglingEdges →
          Severed before (· ∉ outcome.partition.touched) outcome.snapshot caller e) := by
  obtain ⟨patch, -, hmerge⟩ := alongDiff_eq_ok_iff.mp h
  have hmerged := wellFormed_alongPatch hmerge
  have hmem {f : Snapshot.Located} := mem_located_iff hbefore.wellFormed hafter.wellFormed hmerge
    (f := f)
  have hsevered : ∀ caller e, (caller, e) ∈ outcome.snapshot.danglingEdges →
      Severed before (· ∉ outcome.partition.touched) outcome.snapshot caller e ∨
        Severed after (· ∈ outcome.partition.paths) outcome.snapshot caller e := by
    intro caller e hdangling
    obtain ⟨⟨f, hf, rfl, he⟩, -⟩ := exists_of_dangling hdangling
    rcases hmem.mp hf with ⟨hf, hpath⟩ | ⟨hf, hpath⟩
    · exact Or.inl (severed_of_located hbefore.wellFormed hmerged hbeforeNone
        (fun g hg hcomes => hmem.mpr (Or.inl ⟨hg, hcomes⟩)) hf hpath he)
    · exact Or.inr (severed_of_located hafter.wellFormed hmerged hafterNone
        (fun g hg hcomes => hmem.mpr (Or.inr ⟨hg, hcomes⟩)) hf hpath he)
  refine ⟨hsevered, fun hall caller e hdangling => ?_⟩
  rcases hsevered caller e hdangling with hkept | ⟨r, hr, hcaller, he, hpath, hmissing⟩
  · exact hkept
  · obtain ⟨-, key, hkey, hno⟩ := exists_of_dangling hdangling
    obtain ⟨q, hq, -, hleftOut⟩ := hmissing key hkey hno
    exact absurd (hall _ (Snapshot.pathIn_mem (hafter.wellFormed.file_lt q hq))) hleftOut

end

/-! ## A file that was built again without being named -/

/-- The diff names one of the two files that are new. -/
def partialDiff : String :=
  "--- /dev/null\n+++ b/a.c\n@@ -0,0 +1 @@\n+x\n"

def partialOutcome : Outcome where
  snapshot :=
    { files := ["a.c"]
      records := [⟨⟨0, ⟨"f(int*)"⟩, ⟨1, 4⟩, [⟨.single ⟨3790395259024606487⟩, 2, 3⟩]⟩,
        ⟨14205690914439878966⟩⟩]
      revision := "r1"
      index := [(⟨14205690914439878966⟩, 0)] }
  changes := .ofPatch (.empty "r0") sampleSnapshot ⟨[⟨none, some "a.c", [.insertion 1]⟩]⟩
  partition := ⟨[], ["a.c"], [], []⟩

theorem alongDiff_partial_sample :
    alongDiff (.empty "r0") sampleSnapshot partialDiff = .ok partialOutcome := by
  refine alongDiff_eq_ok_iff.mpr ⟨⟨[⟨none, some "a.c", [.insertion 1]⟩]⟩, by rfl, ?_⟩
  refine alongPatch_eq_ok_iff.mpr ⟨by decide +kernel, rfl, Snapshot.build_eq_ok_iff.mpr ?_⟩
  exact ⟨by decide +kernel, by decide +kernel, by decide +kernel, rfl⟩

theorem severed_of_dangling_sample :
    (Snapshot.empty "r0").Constructed ∧ sampleSnapshot.Constructed ∧
      (Snapshot.empty "r0").danglingEdges = [] ∧ sampleSnapshot.danglingEdges = [] ∧
      alongDiff (.empty "r0") sampleSnapshot partialDiff = .ok partialOutcome ∧
      (∀ caller e, (caller, e) ∈ partialOutcome.snapshot.danglingEdges →
        Severed (.empty "r0") (· ∉ partialOutcome.partition.touched) partialOutcome.snapshot
            caller e ∨
          Severed sampleSnapshot (· ∈ partialOutcome.partition.paths) partialOutcome.snapshot
            caller e) ∧
      ((∀ path ∈ sampleSnapshot.files, path ∈ partialOutcome.partition.paths) →
        ∀ caller e, (caller, e) ∈ partialOutcome.snapshot.danglingEdges →
          Severed (.empty "r0") (· ∉ partialOutcome.partition.touched) partialOutcome.snapshot
            caller e) := by
  have hbefore : (Snapshot.empty "r0").Constructed := .empty "r0"
  have hafter : sampleSnapshot.Constructed := .assembled assemble_sample
  have hbeforeNone : (Snapshot.empty "r0").danglingEdges = [] := rfl
  have hafterNone : sampleSnapshot.danglingEdges = [] := by decide
  exact ⟨hbefore, hafter, hbeforeNone, hafterNone, alongDiff_partial_sample,
    severed_of_dangling hbefore hafter hbeforeNone hafterNone alongDiff_partial_sample⟩

/-- There are no files before, so the caller is in a changed one. -/
theorem edge_of_changed_file_dangles :
    (Snapshot.empty "r0").Constructed ∧ sampleSnapshot.Constructed ∧
      (Snapshot.empty "r0").danglingEdges = [] ∧ sampleSnapshot.danglingEdges = [] ∧
      alongDiff (.empty "r0") sampleSnapshot partialDiff = .ok partialOutcome ∧
      (⟨14205690914439878966⟩, ⟨.single ⟨3790395259024606487⟩, 2, 3⟩) ∈
        partialOutcome.snapshot.danglingEdges ∧
      (Snapshot.empty "r0").records = [] ∧ "a.c" ∈ partialOutcome.partition.changed ∧
      (partialOutcome.snapshot.functionsIn "a.c").map (·.key) = [⟨14205690914439878966⟩] :=
  ⟨.empty "r0", .assembled assemble_sample, rfl, by decide, alongDiff_partial_sample, by decide,
    rfl, by decide, by decide⟩

end CallAtlas.Merge
