import CallAtlas.Change.Analysis
import CallAtlas.Proofs.Extraction.Linking

/-!
# What a change report says

A function is reported in one of three ways, by what the outlines of its file
know of it before and after. Where an outline knows a function a record of the
snapshot stands behind it, and what holds of the reports for one path holds of
the entry that unites them.
-/

namespace CallAtlas

/-! ## Outlines -/

namespace Snapshot

/-- A function of the file has that signature. -/
def Defines (s : Snapshot) (path : String) (signature : Signature) : Prop :=
  ∃ r ∈ s.functionsIn path, r.signature = signature

/-- A function of the file has the signature and the lines that are reported. -/
def DefinesAt (s : Snapshot) (path : String) (c : FunctionChange) : Prop :=
  ∃ r ∈ s.functionsIn path, r.signature = c.signature ∧ r.lines = c.lines

theorem functionsIn_eq_nil {s : Snapshot} {path : String} (h : s.hasFile path = false) :
    s.functionsIn path = [] := by
  have hnone : s.fileId? path = none := by simpa [hasFile] using h
  rw [functionsIn, hnone, List.filter_eq_nil_iff]
  intro r _
  simp

end Snapshot

namespace Outline

theorem lines?_eq_getLast? (o : Outline) (signature : Signature) :
    o.lines? signature = ((o.rows.filter (·.1 = signature)).getLast?).map (·.2) :=
  Extraction.lookup_reverse o.rows signature

theorem mem_rows_of_lines? {o : Outline} {signature : Signature} {lines : Interval}
    (h : o.lines? signature = some lines) : (signature, lines) ∈ o.rows := by
  rw [lines?_eq_getLast?, Option.map_eq_some_iff] at h
  obtain ⟨row, hrow, rfl⟩ := h
  obtain ⟨hmem, heq⟩ := List.mem_filter.mp (List.mem_of_getLast? hrow)
  obtain rfl := of_decide_eq_true heq
  exact hmem

theorem lines?_eq_none_iff {o : Outline} {signature : Signature} :
    o.lines? signature = none ↔ ∀ row ∈ o.rows, row.1 ≠ signature := by
  rw [lines?_eq_getLast?, Option.map_eq_none_iff, List.getLast?_eq_none_iff,
    List.filter_eq_nil_iff]
  simp only [decide_eq_true_eq, ne_eq]

section

variable {s : Snapshot} {path : String} {signature : Signature} {lines : Interval}

theorem definesAt_of_lines? (h : (ofFile s (some path)).lines? signature = some lines) :
    s.DefinesAt path ⟨signature, lines⟩ := by
  obtain ⟨r, hr, heq⟩ := List.mem_map.mp (mem_rows_of_lines? h)
  exact ⟨r, hr, congrArg Prod.fst heq, congrArg Prod.snd heq⟩

theorem lines?_ofFile_eq_none_iff :
    (ofFile s (some path)).lines? signature = none ↔ ¬ s.Defines path signature := by
  rw [lines?_eq_none_iff, Snapshot.Defines]
  simp [ofFile]

end

end Outline

/-! ## The three lists -/

namespace FileChanges

section

variable {before after : Outline} {touched : List Signature} {c : FunctionChange}

theorem mem_report_iff {pick : Option Interval → Option Interval → Option Interval} :
    c ∈ report before after touched pick ↔
      c.signature ∈ touched ∧
        pick (before.lines? c.signature) (after.lines? c.signature) = some c.lines := by
  rw [report, List.mem_filterMap]
  constructor
  · rintro ⟨signature, hmem, hpick⟩
    obtain ⟨lines, hlines, rfl⟩ := Option.map_eq_some_iff.mp hpick
    exact ⟨hmem, hlines⟩
  · rintro ⟨hmem, hlines⟩
    exact ⟨c.signature, hmem, Option.map_eq_some_iff.mpr ⟨c.lines, hlines, rfl⟩⟩

theorem mem_added_iff :
    c ∈ (ofTouched before after touched).added ↔
      c.signature ∈ touched ∧ before.lines? c.signature = none ∧
        after.lines? c.signature = some c.lines := by
  rw [ofTouched, mem_report_iff]
  cases before.lines? c.signature <;> simp

theorem mem_removed_iff :
    c ∈ (ofTouched before after touched).removed ↔
      c.signature ∈ touched ∧ before.lines? c.signature = some c.lines ∧
        after.lines? c.signature = none := by
  rw [ofTouched, mem_report_iff]
  cases after.lines? c.signature <;> simp

theorem mem_modified_iff :
    c ∈ (ofTouched before after touched).modified ↔
      c.signature ∈ touched ∧ before.lines? c.signature = some c.lines ∧
        after.lines? c.signature ≠ none := by
  rw [ofTouched, mem_report_iff]
  cases before.lines? c.signature <;> cases after.lines? c.signature <;> simp

end

/-! ## Reports united -/

section

variable {c d : FileChanges} {change : FunctionChange}

theorem mem_added_union : change ∈ (c.union d).added ↔ change ∈ c.added ∨ change ∈ d.added :=
  Ascending.mem_ofList.trans List.mem_append

theorem mem_removed_union :
    change ∈ (c.union d).removed ↔ change ∈ c.removed ∨ change ∈ d.removed :=
  Ascending.mem_ofList.trans List.mem_append

theorem mem_modified_union :
    change ∈ (c.union d).modified ↔ change ∈ c.modified ∨ change ∈ d.modified :=
  Ascending.mem_ofList.trans List.mem_append

end

end FileChanges

namespace ChangeSet

variable {Holds : String → FileChanges → Prop}

/-- A property of reports that an insertion keeps when it survives union and
holds of what is inserted. -/
theorem forall_mem_insertEntry (hempty : ∀ path, Holds path .empty)
    (hunion : ∀ {path c d}, Holds path c → Holds path d → Holds path (c.union d))
    {path : String} {changes : FileChanges} (hchanges : Holds path changes)
    {entries : List (String × FileChanges)} (h : ∀ entry ∈ entries, Holds entry.1 entry.2) :
    ∀ entry ∈ insertEntry path changes entries, Holds entry.1 entry.2 := by
  have hnew : Holds path (FileChanges.empty.union changes) := hunion (hempty path) hchanges
  induction entries with
  | nil => exact List.forall_mem_singleton.mpr hnew
  | cons entry rest ih =>
      obtain ⟨p, c⟩ := entry
      obtain ⟨hentry, hrest⟩ := List.forall_mem_cons.mp h
      rw [insertEntry]
      split
      case h_1 => exact List.forall_mem_cons.mpr ⟨hnew, h⟩
      case h_2 heq =>
        obtain rfl : path = p := Std.LawfulEqOrd.eq_of_compare heq
        exact List.forall_mem_cons.mpr ⟨hunion hentry hchanges, hrest⟩
      case h_3 => exact List.forall_mem_cons.mpr ⟨hentry, ih hrest⟩

theorem forall_mem_ofPatch (hempty : ∀ path, Holds path .empty)
    (hunion : ∀ {path c d}, Holds path c → Holds path d → Holds path (c.union d))
    {before after : Snapshot} {patch : Patch}
    (h : ∀ f ∈ patch.files, ∀ path, f.reportPath? = some path →
      Holds path (.ofPatch before after f)) :
    ∀ entry ∈ (ofPatch before after patch).entries, Holds entry.1 entry.2 := by
  refine List.foldlRecOn (motive := fun s : ChangeSet => ∀ entry ∈ s.entries,
    Holds entry.1 entry.2) patch.files _ (List.forall_mem_nil _) fun s hs f hf => ?_
  cases hpath : f.reportPath? with
  | none => exact hs
  | some path =>
      show ∀ entry ∈ (s.insert path (.ofPatch before after f)).entries, Holds entry.1 entry.2
      rw [insert]
      split
      · exact hs
      · exact forall_mem_insertEntry hempty hunion (h f hf path hpath) hs

end ChangeSet

end CallAtlas
