import CallAtlas.Proofs.Change.Meaning
import CallAtlas.Proofs.Merge.Report
import CallAtlas.Proofs.Patch.Hunks

/-!
# One verdict for each function

A file patch gives a function one verdict, from what its own two sides know of the
function. The entry of a path unites the verdicts of all file patches that are
filed there, and a diff may file several: a file that is deleted and made again,
or one that is edited and copied from. Their sides need not know the same
functions, so a function may be reported in two ways. That happens exactly when
two file patches touch it and disagree whether it is there before or after.
-/

namespace CallAtlas

namespace FileChanges

/-- No function is reported in two ways. -/
def Exclusive (changes : FileChanges) : Prop :=
  ∀ v w, ∀ c ∈ changes.listed v, ∀ d ∈ changes.listed w, c.signature = d.signature → v = w

/-- No function that the file has before and after is reported as added or
removed. -/
def SparesKept (changes : FileChanges) (before after : Snapshot) (path : String) : Prop :=
  ∀ v, ∀ c ∈ changes.listed v, before.Defines path c.signature →
    after.Defines path c.signature → v = .modified

end FileChanges

namespace FilePatch

/-- The file patches agree whether there is such a function before, and whether
there is one after. -/
def AgreesOn (f g : FilePatch) (before after : Snapshot) (signature : Signature) : Prop :=
  (before.linesOf? f.old signature).isSome = (before.linesOf? g.old signature).isSome ∧
    (after.linesOf? f.new signature).isSome = (after.linesOf? g.new signature).isSome

end FilePatch

/-! ## Verdicts and sides -/

namespace Verdict

/-- Whether a function with that verdict is there before, and whether after. -/
def sides : Verdict → Bool × Bool
  | added => (false, true)
  | removed => (true, false)
  | modified => (true, true)

theorem sides_injective : Function.Injective sides := by
  intro v w h
  cases v <;> cases w <;> first | rfl | cases h

theorem sides_of_judge? {old new : Option Interval} {v : Verdict} {lines : Interval}
    (h : judge? old new = some (v, lines)) : v.sides = (old.isSome, new.isSome) := by
  cases old <;> cases new <;> cases h <;> rfl

theorem exists_judge? {old new : Option Interval} (h : old.isSome ∨ new.isSome) :
    ∃ v lines, judge? old new = some (v, lines) := by
  cases old with
  | some old =>
      cases new with
      | some new => exact ⟨modified, old, rfl⟩
      | none => exact ⟨removed, old, rfl⟩
  | none =>
      cases new with
      | some new => exact ⟨added, new, rfl⟩
      | none => simp at h

end Verdict

section

variable {before after : Snapshot} {patch : Patch} {path : String} {changes : FileChanges}

theorem FilePatch.exists_reports {f : FilePatch} {signature : Signature}
    (h : f.Touches before after signature) :
    ∃ v lines, f.Reports before after v ⟨signature, lines⟩ := by
  have hside : (before.linesOf? f.old signature).isSome ∨
      (after.linesOf? f.new signature).isSome := by
    rcases h with ⟨_, _, _, hlines, _⟩ | ⟨_, _, _, hlines, _⟩
    · exact Or.inr (hlines ▸ rfl)
    · exact Or.inl (hlines ▸ rfl)
  obtain ⟨v, lines, hverdict⟩ := Verdict.exists_judge? hside
  exact ⟨v, lines, h, hverdict⟩

theorem FilePatch.sides_of_reports {f : FilePatch} {v : Verdict} {c : FunctionChange}
    (h : f.Reports before after v c) :
    v.sides = ((before.linesOf? f.old c.signature).isSome,
      (after.linesOf? f.new c.signature).isSome) :=
  Verdict.sides_of_judge? h.2

/-! ## When a function is reported in one way only -/

theorem FileChanges.Unites.exclusive_iff (h : changes.Unites before after patch path) :
    changes.Exclusive ↔
      ∀ f ∈ patch.files, ∀ g ∈ patch.files, f.reportPath? = some path →
        g.reportPath? = some path → ∀ signature, f.Touches before after signature →
          g.Touches before after signature → f.AgreesOn g before after signature := by
  constructor
  · intro hexclusive f hf g hg hfpath hgpath signature hftouches hgtouches
    obtain ⟨v, lines, hfreports⟩ := FilePatch.exists_reports hftouches
    obtain ⟨w, lines', hgreports⟩ := FilePatch.exists_reports hgtouches
    have heq : v = w := hexclusive v w _ ((h.mem_iff v _).mpr ⟨f, hf, hfpath, hfreports⟩) _
      ((h.mem_iff w _).mpr ⟨g, hg, hgpath, hgreports⟩) rfl
    have hsides := FilePatch.sides_of_reports hgreports
    rw [← heq, FilePatch.sides_of_reports hfreports] at hsides
    exact ⟨congrArg Prod.fst hsides, congrArg Prod.snd hsides⟩
  · intro hagree v w c hc d hd heq
    obtain ⟨f, hf, hfpath, hfreports⟩ := (h.mem_iff v c).mp hc
    obtain ⟨g, hg, hgpath, hgreports⟩ := (h.mem_iff w d).mp hd
    obtain ⟨hold, hnew⟩ :=
      hagree f hf g hg hfpath hgpath c.signature hfreports.1 (heq ▸ hgreports.1)
    apply Verdict.sides_injective
    rw [FilePatch.sides_of_reports hfreports, FilePatch.sides_of_reports hgreports, hold, hnew, heq]

/-- What a file has before and after is reported as modified exactly when the file
patches that are filed there and touch it know it on both sides. -/
theorem FileChanges.Unites.sparesKept_iff (h : changes.Unites before after patch path) :
    changes.SparesKept before after path ↔
      ∀ f ∈ patch.files, f.reportPath? = some path → ∀ signature,
        f.Touches before after signature → before.Defines path signature →
          after.Defines path signature →
            (before.linesOf? f.old signature).isSome ∧ (after.linesOf? f.new signature).isSome := by
  constructor
  · intro hspares f hf hpath signature htouches hbefore hafter
    obtain ⟨v, lines, hreports⟩ := FilePatch.exists_reports htouches
    have heq : v = .modified :=
      hspares v _ ((h.mem_iff v _).mpr ⟨f, hf, hpath, hreports⟩) hbefore hafter
    have hsides := FilePatch.sides_of_reports hreports
    rw [heq] at hsides
    exact ⟨(congrArg Prod.fst hsides).symm, (congrArg Prod.snd hsides).symm⟩
  · intro hknown v c hc hbefore hafter
    obtain ⟨f, hf, hpath, hreports⟩ := (h.mem_iff v c).mp hc
    obtain ⟨hold, hnew⟩ := hknown f hf hpath c.signature hreports.1 hbefore hafter
    apply Verdict.sides_injective
    rw [FilePatch.sides_of_reports hreports, hold, hnew]
    rfl

/-! ## Patches that move no file -/

theorem Snapshot.isSome_linesOf?_iff {s : Snapshot} {signature : Signature} :
    (s.linesOf? (some path) signature).isSome ↔ s.Defines path signature := by
  rw [← Outline.lines?_ofFile, Option.isSome_iff_ne_none, ne_eq, Outline.lines?_ofFile_eq_none_iff,
    Classical.not_not]

theorem Merge.Stays.sides {f : FilePatch} (hstays : Merge.Stays before after f)
    (hpath : f.reportPath? = some path) (signature : Signature) :
    ((before.linesOf? f.old signature).isSome ↔ before.Defines path signature) ∧
      ((after.linesOf? f.new signature).isSome ↔ after.Defines path signature) := by
  have hgone : ∀ {s : Snapshot}, path ∉ s.files →
      ((s.linesOf? none signature).isSome ↔ s.Defines path signature) := fun hfile =>
    iff_of_false (by simp [Snapshot.linesOf?]) (Snapshot.not_defines_of_not_mem hfile signature)
  rw [FilePatch.reportPath?] at hpath
  rcases hstays with hsame | ⟨hold, new, hnew, hcreated⟩ | ⟨hnew, old, hold, hdeleted⟩
  · rw [← hsame, Option.or_self] at hpath
    rw [← hsame, hpath]
    exact ⟨Snapshot.isSome_linesOf?_iff, Snapshot.isSome_linesOf?_iff⟩
  · rw [hold, hnew, Option.none_or] at hpath
    cases hpath
    rw [hold, hnew]
    exact ⟨hgone hcreated, Snapshot.isSome_linesOf?_iff⟩
  · rw [hold, Option.some_or] at hpath
    cases hpath
    rw [hold, hnew]
    exact ⟨Snapshot.isSome_linesOf?_iff, hgone hdeleted⟩

/-- An entry reports a function in one way exactly when the file patches that are
filed there and touch it agree on which sides it is, and spares what the file keeps
exactly when they know that on both sides. Where no file moves both is so. -/
theorem exclusive_iff_of_get?
    (h : (ChangeSet.ofPatch before after patch).get? path = some changes) :
    (changes.Exclusive ↔
      ∀ f ∈ patch.files, ∀ g ∈ patch.files, f.reportPath? = some path →
        g.reportPath? = some path → ∀ signature, f.Touches before after signature →
          g.Touches before after signature → f.AgreesOn g before after signature) ∧
    (changes.SparesKept before after path ↔
      ∀ f ∈ patch.files, f.reportPath? = some path → ∀ signature,
        f.Touches before after signature → before.Defines path signature →
          after.Defines path signature →
            (before.linesOf? f.old signature).isSome ∧
              (after.linesOf? f.new signature).isSome) ∧
    (Merge.InPlace patch before after →
      changes.Exclusive ∧ changes.SparesKept before after path) := by
  have hunites := unites_reportFor before after patch path
  rw [ChangeSet.reportFor, h, Option.getD_some] at hunites
  refine ⟨hunites.exclusive_iff, hunites.sparesKept_iff, fun hplaces => ⟨?_, ?_⟩⟩
  · refine hunites.exclusive_iff.mpr fun f hf g hg hfpath hgpath signature _ _ => ?_
    obtain ⟨hfold, hfnew⟩ := (hplaces f hf).sides hfpath signature
    obtain ⟨hgold, hgnew⟩ := (hplaces g hg).sides hgpath signature
    exact ⟨Bool.eq_iff_iff.mpr (hfold.trans hgold.symm),
      Bool.eq_iff_iff.mpr (hfnew.trans hgnew.symm)⟩
  · refine hunites.sparesKept_iff.mpr fun f hf hpath signature _ hbefore hafter => ?_
    obtain ⟨hold, hnew⟩ := (hplaces f hf).sides hpath signature
    exact ⟨hold.mpr hbefore, hnew.mpr hafter⟩

end

/-! ## Two file patches for one path -/

open Extraction (sampleSnapshot assemble_sample)
open Merge (builtBefore builtInPart)

def twicePatch : Patch :=
  ⟨[⟨some "a.c", some "a.c", [.deletion 1]⟩,
    ⟨some "a.c", some "a.c", [.insertion 1, .deletion 6]⟩]⟩

def twiceChanges : FileChanges where
  added := [⟨⟨"e()"⟩, ⟨1, 3⟩⟩]
  removed := [⟨⟨"f()"⟩, ⟨1, 3⟩⟩, ⟨⟨"h()"⟩, ⟨5, 7⟩⟩]
  modified := []

theorem exclusive_twice :
    (ChangeSet.ofPatch builtBefore builtInPart twicePatch).get? "a.c" = some twiceChanges ∧
      Merge.InPlace twicePatch builtBefore builtInPart ∧ twiceChanges.Exclusive ∧
      twiceChanges.SparesKept builtBefore builtInPart "a.c" := by
  have hentry : (ChangeSet.ofPatch builtBefore builtInPart twicePatch).get? "a.c" =
      some twiceChanges := by
    decide +kernel
  have hplaces : Merge.InPlace twicePatch builtBefore builtInPart := by
    intro f hf
    simp only [twicePatch, List.mem_cons, List.not_mem_nil, or_false] at hf
    rcases hf with rfl | rfl
    · exact Or.inl rfl
    · exact Or.inl rfl
  exact ⟨hentry, hplaces, (exclusive_iff_of_get? hentry).2.2 hplaces⟩

/-- A file is deleted and made again with the same function. -/
def remadeDiff : String :=
  Patch.diffOf ["diff --git a/b.c b/b.c", "deleted file mode 100644", "--- a/b.c", "+++ /dev/null",
    "@@ -1,3 +0,0 @@", "-a", "-b", "-c",
    "diff --git a/b.c b/b.c", "new file mode 100644", "--- /dev/null", "+++ b/b.c",
    "@@ -0,0 +1,3 @@", "+a", "+b", "+c"]

def remadePatch : Patch :=
  ⟨[⟨some "b.c", none, [.deletion 1, .deletion 2, .deletion 3]⟩,
    ⟨none, some "b.c", [.insertion 1, .insertion 2, .insertion 3]⟩]⟩

def remadeChanges : FileChanges where
  added := [⟨⟨"g()"⟩, ⟨1, 3⟩⟩]
  removed := [⟨⟨"g()"⟩, ⟨1, 3⟩⟩]
  modified := []

/-- The function is there before and after, and is reported as added and as
removed. -/
theorem kept_function_is_added_and_removed :
    sampleSnapshot.Constructed ∧ (sampleSnapshot.withRevision "r2").Constructed ∧
      Patch.parse remadeDiff = .ok remadePatch ∧
      (ChangeSet.ofPatch sampleSnapshot (sampleSnapshot.withRevision "r2") remadePatch).get?
        "b.c" = some remadeChanges ∧
      sampleSnapshot.Defines "b.c" ⟨"g()"⟩ ∧
      (sampleSnapshot.withRevision "r2").Defines "b.c" ⟨"g()"⟩ ∧ ¬ remadeChanges.Exclusive := by
  have hbefore : sampleSnapshot.Constructed := .assembled assemble_sample
  refine ⟨hbefore, hbefore.revised "r2", ?_, by decide +kernel,
    Snapshot.isSome_linesOf?_iff.mp (by decide +kernel),
    Snapshot.isSome_linesOf?_iff.mp (by decide +kernel), ?_⟩
  · rw [Patch.parse, remadeDiff, Patch.lines_diffOf (by decide +kernel)]
    rfl
  · intro hexclusive
    have heq := hexclusive .added .removed _ List.mem_cons_self _ List.mem_cons_self rfl
    cases heq

end CallAtlas
