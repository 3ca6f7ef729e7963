import CallAtlas.Proofs.Change.Meaning
import CallAtlas.Proofs.Signature
import CallAtlas.Proofs.Snapshot.Provenance
import CallAtlas.Proofs.Snapshot.RoundTrip

/-!
# The spelling of stored signatures

Signatures are compared as texts, so a signature should be stored in one spelling
only. A build brings the signatures of its rows to the canonical one, and a merge
leaves those of its two snapshots alone. But a snapshot that is read has the
signatures that its text has, in whatever spelling: then one function is two, with
two keys, and is reported as removed and added.
-/

namespace CallAtlas

namespace Snapshot

/-- All signatures have their canonical spelling. -/
def Canonical (s : Snapshot) : Prop :=
  ∀ r ∈ s.records, r.signature.IsCanonical

def Parts.Canonical (p : Parts) : Prop :=
  ∀ b, .body b ∈ p.entries → b.signature.IsCanonical

/-! ## Where signatures come in -/

section

variable {s : Snapshot}

theorem canonical_parts_iff : s.parts.Canonical ↔ s.Canonical := by
  simp [Parts.Canonical, Canonical, parts, bodies]

theorem canonical_iff_of_ofJson {text : String} (h : ofJson text = .ok s) :
    ∃ p, Json.read Parts.decode text = .ok p ∧ (s.Canonical ↔ p.Canonical) :=
  ⟨s.parts, (ofJson_eq_ok_iff.mp h).2, canonical_parts_iff.symm⟩

theorem canonical_of_assemble {t : Extraction.Tables} {revision : String}
    (h : t.assemble revision = .ok s) : s.Canonical := by
  intro r hr
  rw [Extraction.Tables.records_eq h] at hr
  obtain ⟨⟨id, d⟩, hd, rfl⟩ := List.mem_map.mp hr
  obtain ⟨row, -, rfl⟩ := Option.map_eq_some_iff.mp
    ((Extraction.Inventory.mem_definitions_iff t.definitions).mp hd)
  exact Signature.isCanonical_canonical row.signature

theorem canonical_iff_sites : s.Canonical ↔ ∀ site ∈ s.sites, site.signature.IsCanonical := by
  simp [Canonical, sites, bodies, siteIn]

/-- Every function of a merge is one of its two snapshots. -/
theorem Canonical.alongPatch {before after : Snapshot} {patch : Patch} {outcome : Merge.Outcome}
    (hwell : before.WellFormed) (hbefore : before.Canonical) (hafter : after.Canonical)
    (h : Merge.alongPatch before after patch = .ok outcome) : outcome.snapshot.Canonical := by
  rw [canonical_iff_sites, Merge.sites_alongPatch hwell h]
  intro site hsite
  rcases List.mem_append.mp hsite with hleft | hadded
  · exact canonical_iff_sites.mp hbefore site (List.mem_of_mem_filter hleft)
  · exact canonical_iff_sites.mp hafter site (List.mem_of_mem_filter hadded)

/-- No signature has another spelling unless a text has it. -/
theorem ConstructedFrom.canonical (h : s.ConstructedFrom Canonical) : s.Canonical :=
  h.kind (fun _ _ hr => nomatch hr) canonical_of_assemble (fun _ hs => hs)
    fun hwell _ hbefore hafter h => hbefore.alongPatch hwell hafter h

/-! ## Where signatures are compared -/

theorem exists_of_linesOf? {path : Option String} {signature : Signature} {lines : Interval}
    (h : s.linesOf? path signature = some lines) : ∃ r ∈ s.records, r.signature = signature := by
  obtain ⟨path, rfl, hlines⟩ := Option.bind_eq_some_iff.mp h
  obtain ⟨r, hr, rfl⟩ := Option.map_eq_some_iff.mp hlines
  obtain ⟨hfunction, hsignature⟩ := List.mem_filter.mp (List.mem_of_getLast? hr)
  exact ⟨r, List.mem_of_mem_filter hfunction, of_decide_eq_true hsignature⟩

theorem Canonical.of_linesOf? (hs : s.Canonical) {path : Option String} {signature : Signature}
    {lines : Interval} (h : s.linesOf? path signature = some lines) : signature.IsCanonical := by
  obtain ⟨r, hr, rfl⟩ := exists_of_linesOf? h
  exact hs r hr

end

end Snapshot

section

variable {before after : Snapshot}

theorem FilePatch.Reports.isCanonical {f : FilePatch} {v : Verdict} {c : FunctionChange}
    (h : f.Reports before after v c) (hbefore : before.Canonical) (hafter : after.Canonical) :
    c.signature.IsCanonical := by
  rcases h.1 with ⟨_, _, _, hlines, _⟩ | ⟨_, _, _, hlines, _⟩
  · exact hafter.of_linesOf? hlines
  · exact hbefore.of_linesOf? hlines

/-- No function is reported in two spellings. -/
theorem FileChanges.Unites.eq_of_canonical_eq {patch : Patch} {path : String}
    {changes : FileChanges} (h : changes.Unites before after patch path)
    (hbefore : before.Canonical) (hafter : after.Canonical) {v w : Verdict}
    {c d : FunctionChange} (hc : c ∈ changes.listed v) (hd : d ∈ changes.listed w)
    (heq : Signature.canonical c.signature.text = .canonical d.signature.text) :
    c.signature = d.signature := by
  obtain ⟨f, -, -, hf⟩ := (h.mem_iff v c).mp hc
  obtain ⟨g, -, -, hg⟩ := (h.mem_iff w d).mp hd
  exact (hf.isCanonical hbefore hafter).eq_of_canonical_eq (hg.isCanonical hbefore hafter) heq

/-- A file patch does not report a function in one spelling as removed and in
another one as added. -/
theorem FileChanges.canonical_ne_of_ofPatch {f : FilePatch} {c d : FunctionChange}
    (hbefore : before.Canonical) (hafter : after.Canonical)
    (hc : c ∈ (FileChanges.ofPatch before after f).added)
    (hd : d ∈ (FileChanges.ofPatch before after f).removed) :
    Signature.canonical c.signature.text ≠ .canonical d.signature.text := by
  have hadded : f.Reports before after .added c := mem_listed_ofPatch.mp hc
  have hremoved : f.Reports before after .removed d := mem_listed_ofPatch.mp hd
  intro heq
  have hsame := (hadded.isCanonical hbefore hafter).eq_of_canonical_eq
    (hremoved.isCanonical hbefore hafter) heq
  have hverdict := hremoved.2
  rw [← hsame, hadded.2] at hverdict
  cases hverdict

end

namespace Snapshot

/-- No function of the two snapshots is taken for another one because of its
spelling. -/
structure SpelledAlike (before after : Snapshot) : Prop where
  eq_of_canonical_eq : ∀ r ∈ before.records, ∀ q ∈ after.records,
    Signature.canonical r.signature.text = .canonical q.signature.text → r.signature = q.signature
  /-- No entry of a report has two spellings of one signature. -/
  listed : ∀ patch path changes, (ChangeSet.ofPatch before after patch).get? path = some changes →
    ∀ v w, ∀ c ∈ changes.listed v, ∀ d ∈ changes.listed w,
      Signature.canonical c.signature.text = .canonical d.signature.text →
        c.signature = d.signature
  /-- No change of spelling is reported as a removal and an addition. -/
  added_ne_removed : ∀ f, ∀ c ∈ (FileChanges.ofPatch before after f).added,
    ∀ d ∈ (FileChanges.ofPatch before after f).removed,
      Signature.canonical c.signature.text ≠ .canonical d.signature.text

section

variable {before after : Snapshot}

theorem Canonical.spelledAlike (hbefore : before.Canonical) (hafter : after.Canonical) :
    before.SpelledAlike after where
  eq_of_canonical_eq r hr q hq heq := (hbefore r hr).eq_of_canonical_eq (hafter q hq) heq
  listed patch path changes h v w c hc d hd heq := by
    have hunites := unites_reportFor before after patch path
    rw [ChangeSet.reportFor, h, Option.getD_some] at hunites
    exact hunites.eq_of_canonical_eq hbefore hafter hc hd heq
  added_ne_removed f c hc d hd := FileChanges.canonical_ne_of_ofPatch hbefore hafter hc hd

/-- As long as the texts that are read have canonical signatures, all snapshots
have them, and no signature is taken for two. Whether a text has them decides it
for what is read from the text. -/
theorem spelledAlike_of_constructedFrom (hbefore : before.ConstructedFrom Canonical)
    (hafter : after.ConstructedFrom Canonical) :
    before.Canonical ∧ after.Canonical ∧ before.SpelledAlike after ∧
      ∀ {text : String} {s : Snapshot}, ofJson text = .ok s →
        ∃ p, Json.read Parts.decode text = .ok p ∧ (s.Canonical ↔ p.Canonical) :=
  ⟨hbefore.canonical, hafter.canonical, hbefore.canonical.spelledAlike hafter.canonical,
    canonical_iff_of_ofJson⟩

end

/-! ## Two spellings -/

def looseText : String :=
  "\x7b\"files\":[\"a.c\"],\"defs\":[0,[0,\"f(int *)\",1,4,[]]],\"revision\":\"r1\"\x7d"

def looseSnapshot : Snapshot where
  files := ["a.c"]
  records := [⟨⟨0, ⟨"f(int *)"⟩, ⟨1, 4⟩, []⟩, ⟨9171502954570100375⟩⟩]
  revision := "r1"
  index := [(⟨9171502954570100375⟩, 0)]

def tightText : String :=
  "\x7b\"files\":[\"a.c\"],\"defs\":[0,[0,\"f(int*)\",1,4,[]]],\"revision\":\"r2\"\x7d"

def tightSnapshot : Snapshot where
  files := ["a.c"]
  records := [⟨⟨0, ⟨"f(int*)"⟩, ⟨1, 4⟩, []⟩, ⟨14205690914439878966⟩⟩]
  revision := "r2"
  index := [(⟨14205690914439878966⟩, 0)]

theorem wellFormed_loose : looseSnapshot.WellFormed := by
  decide +kernel

theorem wellFormed_tight : tightSnapshot.WellFormed := by
  decide +kernel

theorem ofJson_loose : ofJson looseText = .ok looseSnapshot :=
  wellFormed_loose.read_of_toJson_eq (by decide) (by decide +kernel)

theorem ofJson_tight : ofJson tightText = .ok tightSnapshot :=
  wellFormed_tight.read_of_toJson_eq (by decide) (by decide +kernel)

open Extraction (sampleSnapshot assemble_sample)

theorem canonical_tight : tightSnapshot.Canonical := by
  intro r hr
  obtain rfl := List.mem_singleton.mp hr
  cbv

/-- A build that is given the blank has the spelling of a text without it. -/
theorem spelledAlike_tight :
    sampleSnapshot.ConstructedFrom Canonical ∧ tightSnapshot.ConstructedFrom Canonical ∧
      sampleSnapshot.Canonical ∧ sampleSnapshot.SpelledAlike tightSnapshot := by
  have hbefore : sampleSnapshot.ConstructedFrom Canonical := .assembled assemble_sample
  have hafter : tightSnapshot.ConstructedFrom Canonical := .read ofJson_tight canonical_tight
  obtain ⟨hcanonical, -, hspelled, -⟩ := spelledAlike_of_constructedFrom hbefore hafter
  exact ⟨hbefore, hafter, hcanonical, hspelled⟩

def respelledDiff : String :=
  "--- a/a.c\n+++ b/a.c\n@@ -2 +2 @@\n-x\n+y\n"

def respelledPatch : Patch :=
  ⟨[⟨some "a.c", some "a.c", [.deletion 2, .insertion 2]⟩]⟩

/-- Both texts are accepted. The one function has two keys, and is reported as
removed and added. -/
theorem respelled_function_is_removed_and_added :
    ofJson looseText = .ok looseSnapshot ∧ ofJson tightText = .ok tightSnapshot ∧
      ¬ looseSnapshot.Canonical ∧
      Signature.canonical "f(int *)" = .canonical "f(int*)" ∧
      looseSnapshot.records.map (·.key) ≠ tightSnapshot.records.map (·.key) ∧
      Patch.parse respelledDiff = .ok respelledPatch ∧
      (ChangeSet.ofPatch looseSnapshot tightSnapshot respelledPatch).entries =
        [("a.c", ⟨[⟨⟨"f(int*)"⟩, ⟨1, 4⟩⟩], [⟨⟨"f(int *)"⟩, ⟨1, 4⟩⟩], []⟩)] := by
  refine ⟨ofJson_loose, ofJson_tight, ?_, by cbv, by decide, by rfl, by decide +kernel⟩
  intro hcanonical
  have hspelling : Signature.canonical "f(int *)" = ⟨"f(int *)"⟩ :=
    hcanonical _ List.mem_cons_self
  have htight : Signature.canonical "f(int *)" = ⟨"f(int*)"⟩ := by
    cbv
  exact absurd (hspelling.symm.trans htight) (by decide)

end Snapshot

end CallAtlas
