import CallAtlas.Proofs.Change.Meaning
import Mathlib.Algebra.BigOperators.Group.Finset.Basic
import Mathlib.Algebra.Ring.Nat
import Mathlib.Data.List.Induction

/-!
# Change sets as unions

Reports come one after the other, their lists in any order and with repetitions, and
some of them empty. What is gathered from them is a union: a path has an entry once a
report for it says something, and the entry lists, ascending, what the reports for the
path list. So it matters neither in which order reports come nor how often.
-/

namespace CallAtlas

namespace ChangeSet

/-- A report with the path that it is for. -/
abbrev Report := String × FileChanges

/-- The change set that these reports are inserted into, one after the other. -/
def gather (reports : List Report) : ChangeSet :=
  reports.foldl (fun s (path, changes) => s.insert path changes) empty

theorem gather_append_singleton (reports : List Report) (report : Report) :
    gather (reports ++ [report]) = (gather reports).insert report.1 report.2 := by
  rw [gather, List.foldl_append]
  rfl

/-! ## What is gathered -/

theorem proper_gather (reports : List Report) : (gather reports).Proper := by
  induction reports using List.reverseRecOn with
  | nil => exact proper_empty
  | append_singleton reports report ih =>
      rw [gather_append_singleton]
      exact ih.insert report.1 report.2

theorem mem_listed_gather {reports : List Report} {path : String} {v : Verdict}
    {c : FunctionChange} :
    c ∈ ((gather reports).reportFor path).listed v ↔
      ∃ given, (path, given) ∈ reports ∧ c ∈ given.listed v := by
  induction reports using List.reverseRecOn with
  | nil =>
      rw [show (gather []).reportFor path = .empty from rfl, FileChanges.listed_empty]
      simp
  | append_singleton reports report ih =>
      obtain ⟨other, changes⟩ := report
      rw [gather_append_singleton, mem_listed_insert (proper_gather reports).ordered, ih]
      constructor
      · rintro (⟨given, hgiven, hc⟩ | ⟨rfl, hc⟩)
        · exact ⟨given, List.mem_append_left _ hgiven, hc⟩
        · exact ⟨changes, List.mem_append_right _ List.mem_cons_self, hc⟩
      · rintro ⟨given, hgiven, hc⟩
        rcases List.mem_append.mp hgiven with hgiven | hlast
        · exact Or.inl ⟨given, hgiven, hc⟩
        · obtain ⟨rfl, rfl⟩ := Prod.mk.inj (List.mem_singleton.mp hlast)
          exact Or.inr ⟨rfl, hc⟩

theorem isEmpty_reportFor_gather {reports : List Report} {path : String} :
    ((gather reports).reportFor path).isEmpty = false ↔
      ∃ given, (path, given) ∈ reports ∧ given.isEmpty = false := by
  simp only [← Bool.not_eq_true, FileChanges.isEmpty_iff, not_forall,
    List.eq_nil_iff_forall_not_mem, not_not, mem_listed_gather]
  constructor
  · rintro ⟨v, c, given, hgiven, hc⟩
    exact ⟨given, hgiven, v, c, hc⟩
  · rintro ⟨given, hgiven, v, c, hc⟩
    exact ⟨v, c, given, hgiven, hc⟩

theorem get?_gather_iff {reports : List Report} {path : String} :
    (∃ changes, (gather reports).get? path = some changes) ↔
      ∃ given, (path, given) ∈ reports ∧ given.isEmpty = false := by
  rw [← isEmpty_reportFor_gather, (proper_gather reports).get?_eq]
  cases ((gather reports).reportFor path).isEmpty <;> simp

/-- What is gathered depends only on which reports there are. -/
theorem gather_congr {reports others : List Report}
    (h : ∀ report, report ∈ reports ↔ report ∈ others) : gather reports = gather others := by
  have hreports := proper_gather reports
  have hothers := proper_gather others
  refine hreports.ordered.ext hothers.ordered fun path => ?_
  have hreport : (gather reports).reportFor path = (gather others).reportFor path := by
    refine FileChanges.ext_listed fun v => Ascending.ext (hreports.ascending_reportFor path v)
      (hothers.ascending_reportFor path v) fun c => ?_
    simp only [mem_listed_gather, h]
  rw [hreports.get?_eq, hothers.get?_eq, hreport]

/-! ## Counting -/

theorem total_eq_sum (l : List ℕ) : total l = l.sum := by
  induction l with
  | nil => rfl
  | cons n l ih => rw [total, List.sum_cons, ih]

theorem Proper.functionCount_eq {s : ChangeSet} (hs : s.Proper) {paths : Finset String}
    (hpaths : ∀ path changes, s.get? path = some changes → path ∈ paths) :
    s.functionCount = ∑ path ∈ paths, (s.reportFor path).size := by
  have hentries : s.entries.map (·.2.size) =
      (s.entries.map (·.1)).map fun path => (s.reportFor path).size := by
    rw [List.map_map]
    refine List.map_congr_left fun entry hentry => ?_
    have hget : s.get? entry.1 = some entry.2 := (mem_iff_lookup hs.ordered).mp hentry
    rw [Function.comp_apply, reportFor, hget, Option.getD_some]
  rw [functionCount, total_eq_sum, hentries, ← List.sum_toFinset _ hs.ordered.nodup]
  refine Finset.sum_subset (fun path hpath => ?_) fun path _ hpath => ?_
  · obtain ⟨entry, hentry, rfl⟩ := List.mem_map.mp (List.mem_toFinset.mp hpath)
    exact hpaths entry.1 entry.2 ((mem_iff_lookup hs.ordered).mp hentry)
  · cases hget : s.get? path with
    | none => rw [reportFor, hget]; rfl
    | some changes =>
        have hentry := (mem_iff_lookup hs.ordered).mpr hget
        exact absurd (List.mem_toFinset.mpr (List.mem_map_of_mem hentry)) hpath

end ChangeSet

/-! ## The union -/

/-- The lists ascend and hold what the reports for a path list. -/
structure FileChanges.Gathers (changes : FileChanges) (reports : List ChangeSet.Report)
    (path : String) : Prop where
  ascending : ∀ v, Ascending (changes.listed v)
  mem_iff : ∀ v c, c ∈ changes.listed v ↔
    ∃ given, (path, given) ∈ reports ∧ c ∈ given.listed v

namespace ChangeSet

/-- A path has an entry once a report for it says something, and the entry is the
union of the reports for the path, with each change once. The order of the reports
does not matter, and a report that is repeated adds nothing. -/
theorem gather_unites (reports : List Report) :
    (gather reports).Ordered ∧
      (∀ path, (∃ changes, (gather reports).get? path = some changes) ↔
        ∃ given, (path, given) ∈ reports ∧ given.isEmpty = false) ∧
      (∀ path changes, (gather reports).get? path = some changes →
        changes.Gathers reports path) ∧
      (gather reports).functionCount = ∑ path ∈ (reports.map (·.1)).toFinset,
        (((gather reports).reportFor path).added.length +
          ((gather reports).reportFor path).removed.length +
          ((gather reports).reportFor path).modified.length) ∧
      (∀ others, others.Perm reports → gather others = gather reports) ∧
      ∀ front back, front ++ back = reports → ∀ report ∈ reports,
        gather (front ++ report :: back) = gather reports := by
  have hproper := proper_gather reports
  refine ⟨hproper.ordered, fun path => get?_gather_iff, ?_, ?_, ?_, ?_⟩
  · intro path changes hget
    have hreport : (gather reports).reportFor path = changes := by
      rw [reportFor, hget, Option.getD_some]
    rw [← hreport]
    exact ⟨hproper.ascending_reportFor path, fun v c => mem_listed_gather⟩
  · refine hproper.functionCount_eq fun path changes hget => ?_
    obtain ⟨given, hgiven, -⟩ := get?_gather_iff.mp ⟨changes, hget⟩
    exact List.mem_toFinset.mpr (List.mem_map_of_mem hgiven)
  · intro others hperm
    exact gather_congr fun report => hperm.mem_iff
  · rintro front back rfl report hreport
    refine gather_congr fun other => ?_
    rw [List.mem_append, List.mem_cons, List.mem_append]
    constructor
    · rintro (h | rfl | h)
      · exact Or.inl h
      · exact List.mem_append.mp hreport
      · exact Or.inr h
    · rintro (h | h)
      · exact Or.inl h
      · exact Or.inr (Or.inr h)

/-- A path is entered once, whatever is said again and in whatever order, and not at
all if nothing is said. -/
example :
    gather [
        ("b.c", .empty),
        ("a.c", ⟨[], [], [⟨⟨"g()"⟩, ⟨7, 9⟩⟩]⟩),
        ("a.c", ⟨[], [], [⟨⟨"g()"⟩, ⟨7, 9⟩⟩, ⟨⟨"f()"⟩, ⟨1, 5⟩⟩]⟩)] =
      ⟨[("a.c", ⟨[], [], [⟨⟨"f()"⟩, ⟨1, 5⟩⟩, ⟨⟨"g()"⟩, ⟨7, 9⟩⟩]⟩)]⟩ := by
  decide +kernel

end ChangeSet

end CallAtlas
