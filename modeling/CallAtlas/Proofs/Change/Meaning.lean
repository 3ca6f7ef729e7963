import CallAtlas.Proofs.Change.Analysis
import CallAtlas.Proofs.Change.Entries

/-!
# What a change report means

The report on a patch, said without the way in which it is made. A file patch
touches a function when it puts a line into its later body or takes one out of its
earlier one, and the verdict on the function follows from which of the two there
are. The entry of a path holds what the file patches for the path report, each
list ascending, and nothing else; a path with nothing to report has no entry. So
a report depends on which changes a patch has and not on their order.
-/

namespace CallAtlas

/-- The lines of the function with that signature in a file: those of the last
record that the file has with it. Without a path there is none. -/
def Snapshot.linesOf? (s : Snapshot) (path : Option String) (signature : Signature) :
    Option Interval :=
  path.bind fun path =>
    ((s.functionsIn path).filter (·.signature = signature)).getLast?.map (·.lines)

theorem Outline.lines?_ofFile (s : Snapshot) (path : Option String) (signature : Signature) :
    (ofFile s path).lines? signature = s.linesOf? path signature := by
  rw [lines?_eq_getLast?]
  cases path with
  | none => rfl
  | some path =>
      rw [ofFile, Snapshot.linesOf?, List.filter_map, List.getLast?_map, Option.map_map]
      rfl

/-! ## Verdicts -/

/-- What is said of a function that is reported. -/
inductive Verdict where
  | added
  | removed
  | modified
deriving DecidableEq, Repr

/-- The verdict on a function that has these lines before and after, and the
lines it is reported with. -/
def Verdict.judge? : Option Interval → Option Interval → Option (Verdict × Interval)
  | none, none => none
  | none, some new => some (added, new)
  | some old, none => some (removed, old)
  | some old, some _ => some (modified, old)

namespace FileChanges

def listed (changes : FileChanges) : Verdict → List FunctionChange
  | .added => changes.added
  | .removed => changes.removed
  | .modified => changes.modified

@[simp] theorem listed_empty (v : Verdict) : empty.listed v = [] := by
  cases v <;> rfl

theorem isEmpty_iff {changes : FileChanges} : changes.isEmpty ↔ ∀ v, changes.listed v = [] := by
  rw [isEmpty, Bool.and_eq_true, Bool.and_eq_true, List.isEmpty_iff, List.isEmpty_iff,
    List.isEmpty_iff]
  constructor
  · rintro ⟨⟨hadded, hremoved⟩, hmodified⟩ v
    cases v <;> assumption
  · intro h
    exact ⟨⟨h .added, h .removed⟩, h .modified⟩

theorem ext_listed {c d : FileChanges} (h : ∀ v, c.listed v = d.listed v) : c = d := by
  cases c
  cases d
  exact congr (congr (congrArg mk (h .added)) (h .removed)) (h .modified)

theorem mem_listed_union {c d : FileChanges} {v : Verdict} {change : FunctionChange} :
    change ∈ (c.union d).listed v ↔ change ∈ c.listed v ∨ change ∈ d.listed v := by
  cases v with
  | added => exact mem_added_union
  | removed => exact mem_removed_union
  | modified => exact mem_modified_union

theorem ascending_union (c d : FileChanges) (v : Verdict) : Ascending ((c.union d).listed v) := by
  cases v <;> exact Ascending.ofList_ascending _

theorem isEmpty_union {c d : FileChanges} (h : d.isEmpty = false) :
    (c.union d).isEmpty = false := by
  rw [← Bool.not_eq_true, isEmpty_iff] at h ⊢
  intro hunion
  refine h fun v => List.eq_nil_iff_forall_not_mem.mpr fun change hchange => ?_
  have hmem := mem_listed_union.mpr (Or.inr (a := change ∈ c.listed v) hchange)
  rw [hunion v] at hmem
  cases hmem

theorem mem_listed_ofTouched {before after : Outline} {touched : List Signature} {v : Verdict}
    {c : FunctionChange} :
    c ∈ (ofTouched before after touched).listed v ↔
      c.signature ∈ touched ∧
        Verdict.judge? (before.lines? c.signature) (after.lines? c.signature) =
          some (v, c.lines) := by
  cases v with
  | added =>
      refine mem_added_iff.trans (and_congr_right fun _ => ?_)
      cases before.lines? c.signature <;> cases after.lines? c.signature <;> simp [Verdict.judge?]
  | removed =>
      refine mem_removed_iff.trans (and_congr_right fun _ => ?_)
      cases before.lines? c.signature <;> cases after.lines? c.signature <;> simp [Verdict.judge?]
  | modified =>
      refine mem_modified_iff.trans (and_congr_right fun _ => ?_)
      cases before.lines? c.signature <;> cases after.lines? c.signature <;> simp [Verdict.judge?]

end FileChanges

/-! ## One file patch -/

namespace FilePatch

/-- A line is put into the body of the function, or one is taken out of it. -/
def Touches (f : FilePatch) (before after : Snapshot) (signature : Signature) : Prop :=
  (∃ line lines, .insertion line ∈ f.changes ∧ after.linesOf? f.new signature = some lines ∧
    lines.first ≤ line ∧ line ≤ lines.last) ∨
  (∃ line lines, .deletion line ∈ f.changes ∧ before.linesOf? f.old signature = some lines ∧
    lines.first ≤ line ∧ line ≤ lines.last)

/-- The file patch touches the function, and this is what is said of it. -/
def Reports (f : FilePatch) (before after : Snapshot) (v : Verdict) (c : FunctionChange) : Prop :=
  f.Touches before after c.signature ∧
    Verdict.judge? (before.linesOf? f.old c.signature) (after.linesOf? f.new c.signature) =
      some (v, c.lines)

end FilePatch

theorem Outline.mem_functionsAt_iff {o : Outline} {line : UInt32} {signature : Signature} :
    signature ∈ o.functionsAt line ↔
      ∃ lines, o.lines? signature = some lines ∧ lines.first ≤ line ∧ line ≤ lines.last := by
  rw [functionsAt, List.mem_filter, Option.any_eq_true]
  simp only [Interval.contains, Bool.and_eq_true, decide_eq_true_eq]
  constructor
  · rintro ⟨-, h⟩
    exact h
  · rintro ⟨lines, hlines, h⟩
    exact ⟨List.mem_map_of_mem (mem_rows_of_lines? hlines), lines, hlines, h⟩

section

variable {before after : Snapshot} {f : FilePatch}

theorem mem_touched_iff {signature : Signature} :
    signature ∈ f.changes.flatMap
        (·.touched (Outline.ofFile before f.old) (Outline.ofFile after f.new)) ↔
      f.Touches before after signature := by
  rw [List.mem_flatMap, FilePatch.Touches]
  simp only [← Outline.lines?_ofFile]
  constructor
  · rintro ⟨change, hchange, hmem⟩
    cases change with
    | context old new => cases hmem
    | deletion old =>
        obtain ⟨lines, hlines⟩ := Outline.mem_functionsAt_iff.mp hmem
        exact Or.inr ⟨old, lines, hchange, hlines⟩
    | insertion new =>
        obtain ⟨lines, hlines⟩ := Outline.mem_functionsAt_iff.mp hmem
        exact Or.inl ⟨new, lines, hchange, hlines⟩
  · rintro (⟨line, lines, hchange, hlines⟩ | ⟨line, lines, hchange, hlines⟩)
    · exact ⟨_, hchange, Outline.mem_functionsAt_iff.mpr ⟨lines, hlines⟩⟩
    · exact ⟨_, hchange, Outline.mem_functionsAt_iff.mpr ⟨lines, hlines⟩⟩

/-- The lists of a file patch hold what it reports. -/
theorem FileChanges.mem_listed_ofPatch {v : Verdict} {c : FunctionChange} :
    c ∈ (ofPatch before after f).listed v ↔ f.Reports before after v c := by
  rw [ofPatch, mem_listed_ofTouched, Ascending.mem_ofList, mem_touched_iff,
    Outline.lines?_ofFile, Outline.lines?_ofFile]
  rfl

end

/-! ## The whole patch -/

namespace ChangeSet

/-- What is reported for a path, which is nothing if there is no entry. -/
def reportFor (s : ChangeSet) (path : String) : FileChanges :=
  (s.get? path).getD .empty

/-- What a change set always satisfies: no entry is empty, and all lists ascend. -/
structure Proper (s : ChangeSet) : Prop where
  ordered : s.Ordered
  nonempty : ∀ path changes, s.get? path = some changes → changes.isEmpty = false
  ascending : ∀ path changes, s.get? path = some changes → ∀ v, Ascending (changes.listed v)

theorem proper_empty : empty.Proper :=
  ⟨ordered_empty, fun _ _ h => (nomatch h), fun _ _ h => (nomatch h)⟩

section

variable {s : ChangeSet}

theorem get?_insert_cases (hs : s.Ordered) {path other : String} {changes found : FileChanges}
    (h : (s.insert path changes).get? other = some found) :
    s.get? other = some found ∨
      changes.isEmpty = false ∧ found = (s.reportFor path).union changes := by
  rw [get?_insert hs] at h
  split at h
  case isTrue hnew => exact Or.inr ⟨hnew.2, (Option.some.inj h).symm⟩
  case isFalse => exact Or.inl h

theorem Proper.insert (hs : s.Proper) (path : String) (changes : FileChanges) :
    (s.insert path changes).Proper := by
  refine ⟨hs.ordered.insert path changes, ?_, ?_⟩
  · intro other found h
    rcases get?_insert_cases hs.ordered h with hold | ⟨hchanges, rfl⟩
    · exact hs.nonempty other found hold
    · exact FileChanges.isEmpty_union hchanges
  · intro other found h
    rcases get?_insert_cases hs.ordered h with hold | ⟨-, rfl⟩
    · exact hs.ascending other found hold
    · exact FileChanges.ascending_union _ _

theorem Proper.get?_eq (hs : s.Proper) (path : String) :
    s.get? path =
      if (s.reportFor path).isEmpty then none else some (s.reportFor path) := by
  rw [reportFor]
  cases h : s.get? path with
  | none => rfl
  | some changes =>
      rw [Option.getD_some, hs.nonempty path changes h]
      rfl

theorem Proper.ascending_reportFor (hs : s.Proper) (path : String) (v : Verdict) :
    Ascending ((s.reportFor path).listed v) := by
  rw [reportFor]
  cases h : s.get? path with
  | none =>
      rw [Option.getD_none, FileChanges.listed_empty]
      exact List.Pairwise.nil
  | some changes => exact hs.ascending path changes h v

theorem mem_listed_insert (hs : s.Ordered) {path other : String} {changes : FileChanges}
    {v : Verdict} {c : FunctionChange} :
    c ∈ ((s.insert path changes).reportFor other).listed v ↔
      c ∈ (s.reportFor other).listed v ∨ other = path ∧ c ∈ changes.listed v := by
  rw [reportFor, get?_insert hs]
  by_cases hother : other = path
  · subst hother
    cases hempty : changes.isEmpty with
    | true =>
        rw [FileChanges.isEmpty_iff.mp hempty v]
        simp [reportFor]
    | false =>
        rw [if_pos ⟨rfl, rfl⟩, Option.getD_some, FileChanges.mem_listed_union]
        simp [reportFor]
  · simp [hother, reportFor]

end

section

variable (before after : Snapshot)

/-- Adds what a file patch reports. -/
def note (s : ChangeSet) (f : FilePatch) : ChangeSet :=
  match f.reportPath? with
  | some path => s.insert path (.ofPatch before after f)
  | none => s

theorem ofPatch_eq_foldl (patch : Patch) :
    ofPatch before after patch = patch.files.foldl (note before after) empty :=
  rfl

variable {before after} {s : ChangeSet}

theorem Proper.note (hs : s.Proper) (f : FilePatch) : (s.note before after f).Proper := by
  rw [ChangeSet.note]
  cases f.reportPath? with
  | none => exact hs
  | some path => exact hs.insert path _

theorem mem_listed_note (hs : s.Ordered) {f : FilePatch} {path : String} {v : Verdict}
    {c : FunctionChange} :
    c ∈ ((s.note before after f).reportFor path).listed v ↔
      c ∈ (s.reportFor path).listed v ∨
        f.reportPath? = some path ∧ f.Reports before after v c := by
  rw [ChangeSet.note]
  cases hpath : f.reportPath? with
  | none => simp
  | some filed =>
      rw [mem_listed_insert hs, FileChanges.mem_listed_ofPatch, Option.some.injEq,
        eq_comm (a := path)]

theorem Proper.foldl_note (hs : s.Proper) (files : List FilePatch) :
    (files.foldl (ChangeSet.note before after) s).Proper :=
  List.foldlRecOn files _ hs fun _ h f _ => h.note f

theorem mem_listed_foldl_note (hs : s.Proper) {files : List FilePatch} {path : String}
    {v : Verdict} {c : FunctionChange} :
    c ∈ ((files.foldl (ChangeSet.note before after) s).reportFor path).listed v ↔
      c ∈ (s.reportFor path).listed v ∨
        ∃ f ∈ files, f.reportPath? = some path ∧ f.Reports before after v c := by
  induction files generalizing s with
  | nil => simp
  | cons f rest ih =>
      rw [List.foldl_cons, ih (hs.note f), mem_listed_note hs.ordered, List.exists_mem_cons_iff,
        or_assoc]

end

end ChangeSet

/-! ## The meaning of a report -/

/-- The lists ascend and hold what the file patches for a path report. -/
structure FileChanges.Unites (changes : FileChanges) (before after : Snapshot) (patch : Patch)
    (path : String) : Prop where
  ascending : ∀ v, Ascending (changes.listed v)
  mem_iff : ∀ v c, c ∈ changes.listed v ↔
    ∃ f ∈ patch.files, f.reportPath? = some path ∧ f.Reports before after v c

section

variable {before after : Snapshot} {patch other : Patch} {path : String}

theorem FileChanges.Unites.unique {changes others : FileChanges}
    (h : changes.Unites before after patch path)
    (hothers : others.Unites before after patch path) : changes = others := by
  refine ext_listed fun v => Ascending.ext (h.ascending v) (hothers.ascending v) fun c => ?_
  rw [h.mem_iff, hothers.mem_iff]

theorem unites_reportFor (before after : Snapshot) (patch : Patch) (path : String) :
    ((ChangeSet.ofPatch before after patch).reportFor path).Unites before after patch path := by
  rw [ChangeSet.ofPatch_eq_foldl]
  refine ⟨(ChangeSet.proper_empty.foldl_note patch.files).ascending_reportFor path, ?_⟩
  intro v c
  rw [ChangeSet.mem_listed_foldl_note ChangeSet.proper_empty]
  have hnone : c ∉ (ChangeSet.empty.reportFor path).listed v := by
    rw [show ChangeSet.empty.reportFor path = .empty from rfl, FileChanges.listed_empty]
    exact List.not_mem_nil
  simp [hnone]

namespace FilePatch

/-- `f` changes no line of its file that `g` does not change there too. -/
def Within (f g : FilePatch) : Prop :=
  f.old = g.old ∧ f.new = g.new ∧ f.changes ⊆ g.changes

theorem Within.reportPath?_eq {f g : FilePatch} (h : f.Within g) :
    f.reportPath? = g.reportPath? := by
  rw [reportPath?, reportPath?, h.1, h.2.1]

theorem Within.reports {f g : FilePatch} (h : f.Within g) {v : Verdict} {c : FunctionChange}
    (hf : f.Reports before after v c) : g.Reports before after v c := by
  obtain ⟨hold, hnew, hchanges⟩ := h
  rw [Reports, Touches, hold, hnew] at hf
  obtain ⟨htouches, hverdict⟩ := hf
  refine ⟨?_, hverdict⟩
  rcases htouches with ⟨line, lines, hchange, hlines⟩ | ⟨line, lines, hchange, hlines⟩
  · exact Or.inl ⟨line, lines, hchanges hchange, hlines⟩
  · exact Or.inr ⟨line, lines, hchanges hchange, hlines⟩

end FilePatch

/-- The same line changes to the same files; it does not matter in which order
they come and how often. -/
def Patch.SameChanges (p q : Patch) : Prop :=
  (∀ f ∈ p.files, ∃ g ∈ q.files, f.Within g) ∧ ∀ g ∈ q.files, ∃ f ∈ p.files, g.Within f

theorem Patch.SameChanges.symm {p q : Patch} (h : p.SameChanges q) : q.SameChanges p :=
  ⟨h.2, h.1⟩

theorem exists_mem_of_forall₂ {α β : Type} {R : α → β → Prop} {l : List α} {k : List β}
    (h : List.Forall₂ R l k) {a : α} (ha : a ∈ l) : ∃ b ∈ k, R a b := by
  induction h with
  | nil => cases ha
  | @cons b c l k hhead _ ih =>
      rcases List.mem_cons.mp ha with rfl | ha
      · exact ⟨c, List.mem_cons_self, hhead⟩
      · obtain ⟨d, hd, hrelated⟩ := ih ha
        exact ⟨d, List.mem_cons_of_mem _ hd, hrelated⟩

theorem Patch.sameChanges_of_perm {p q : Patch} {files : List FilePatch}
    (hperm : p.files.Perm files)
    (hchanges : List.Forall₂
      (fun f g => f.old = g.old ∧ f.new = g.new ∧ f.changes.Perm g.changes) files q.files) :
    p.SameChanges q := by
  constructor
  · intro f hf
    obtain ⟨g, hg, hold, hnew, hsame⟩ := exists_mem_of_forall₂ hchanges (hperm.mem_iff.mp hf)
    exact ⟨g, hg, hold, hnew, hsame.subset⟩
  · intro g hg
    obtain ⟨f, hf, hold, hnew, hsame⟩ := exists_mem_of_forall₂ hchanges.flip hg
    exact ⟨f, hperm.mem_iff.mpr hf, hold.symm, hnew.symm, hsame.symm.subset⟩

theorem FileChanges.Unites.congr {changes : FileChanges} (hsame : patch.SameChanges other)
    (h : changes.Unites before after patch path) : changes.Unites before after other path := by
  refine ⟨h.ascending, fun v c => (h.mem_iff v c).trans ⟨?_, ?_⟩⟩
  · rintro ⟨f, hf, hpath, hreports⟩
    obtain ⟨g, hg, hwithin⟩ := hsame.1 f hf
    exact ⟨g, hg, hwithin.reportPath?_eq ▸ hpath, hwithin.reports hreports⟩
  · rintro ⟨g, hg, hpath, hreports⟩
    obtain ⟨f, hf, hwithin⟩ := hsame.2 g hg
    exact ⟨f, hf, hwithin.reportPath?_eq ▸ hpath, hwithin.reports hreports⟩

end

namespace ChangeSet

theorem proper_ofPatch (before after : Snapshot) (patch : Patch) :
    (ofPatch before after patch).Proper :=
  proper_empty.foldl_note patch.files

/-- Each path has the union of what is reported for it, in ascending lists, or no
entry if that is nothing; and patches with the same changes are reported on in
the same way. -/
theorem unites_ofPatch (before after : Snapshot) (patch : Patch) :
    (ofPatch before after patch).Ordered ∧
      (∀ path, ∃ changes : FileChanges, changes.Unites before after patch path ∧
        (ofPatch before after patch).get? path =
          if changes.isEmpty then none else some changes) ∧
      ∀ other : Patch, patch.SameChanges other →
        ofPatch before after other = ofPatch before after patch := by
  have hproper := proper_ofPatch before after patch
  refine ⟨hproper.ordered, ?_, ?_⟩
  · intro path
    exact ⟨_, unites_reportFor before after patch path, hproper.get?_eq path⟩
  · intro other hsame
    have hother := proper_ofPatch before after other
    refine hother.ordered.ext hproper.ordered fun path => ?_
    have hreport : (ofPatch before after other).reportFor path =
        (ofPatch before after patch).reportFor path :=
      ((unites_reportFor before after other path).congr hsame.symm).unique
        (unites_reportFor before after patch path)
    rw [hother.get?_eq, hproper.get?_eq, hreport]

/-! ## A nested function -/

/-- A function inside another one that has a namesake behind it. -/
def nestedBefore : Snapshot where
  files := ["a.c"]
  records := [⟨⟨0, ⟨"f()"⟩, ⟨1, 9⟩, []⟩, ⟨6810523394191592565⟩⟩,
    ⟨⟨0, ⟨"g()"⟩, ⟨3, 5⟩, []⟩, ⟨5867211660229907249⟩⟩,
    ⟨⟨0, ⟨"f()"⟩, ⟨20, 22⟩, []⟩, ⟨3091269180001478846⟩⟩]
  revision := "r1"
  index := [(⟨6810523394191592565⟩, 0), (⟨5867211660229907249⟩, 1), (⟨3091269180001478846⟩, 2)]

def nestedAfter : Snapshot where
  files := ["a.c"]
  records := [⟨⟨0, ⟨"f()"⟩, ⟨1, 8⟩, []⟩, ⟨6810523394191592565⟩⟩,
    ⟨⟨0, ⟨"g()"⟩, ⟨3, 4⟩, []⟩, ⟨5867211660229907249⟩⟩,
    ⟨⟨0, ⟨"k()"⟩, ⟨20, 21⟩, []⟩, ⟨13797001009182743010⟩⟩]
  revision := "r2"
  index := [(⟨6810523394191592565⟩, 0), (⟨5867211660229907249⟩, 1), (⟨13797001009182743010⟩, 2)]

def nestedPatch : Patch :=
  ⟨[⟨some "a.c", some "a.c", [.deletion 4, .insertion 20]⟩,
    ⟨some "a.c", some "a.c", [.deletion 21]⟩]⟩

def nestedPatchTurned : Patch :=
  ⟨[⟨some "a.c", some "a.c", [.deletion 21]⟩,
    ⟨some "a.c", some "a.c", [.insertion 20, .deletion 4]⟩]⟩

/-- The line that is taken out of `g` does not count for the function around it,
whose lines are those of its namesake. -/
theorem unites_nested :
    nestedPatch.SameChanges nestedPatchTurned ∧
      (ofPatch nestedBefore nestedAfter nestedPatch).entries =
        [("a.c", ⟨[⟨⟨"k()"⟩, ⟨20, 21⟩⟩], [], [⟨⟨"f()"⟩, ⟨20, 22⟩⟩, ⟨⟨"g()"⟩, ⟨3, 5⟩⟩]⟩)] ∧
      ofPatch nestedBefore nestedAfter nestedPatchTurned =
        ofPatch nestedBefore nestedAfter nestedPatch := by
  have hsame : nestedPatch.SameChanges nestedPatchTurned :=
    Patch.sameChanges_of_perm (List.Perm.swap ..)
      (.cons ⟨rfl, rfl, .refl _⟩ (.cons ⟨rfl, rfl, .swap ..⟩ .nil))
  exact ⟨hsame, by decide +kernel,
    (unites_ofPatch nestedBefore nestedAfter nestedPatch).2.2 _ hsame⟩

end ChangeSet

end CallAtlas
