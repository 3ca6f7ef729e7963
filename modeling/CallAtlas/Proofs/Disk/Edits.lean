import CallAtlas.Proofs.Disk.Following
import Mathlib.Data.List.Nodup
import Mathlib.Data.List.Perm.Subperm
import Mathlib.Data.Set.Defs
import Mathlib.Logic.Relation

/-!
# What programs do to a disk

A program makes directories, writes and moves files, and has a directory for what
is gone when it ends. Whatever it does in which order, a file that it does not
write stays as it was, and the directories that lead there stay where they were.
-/

namespace CallAtlas.Disk

/-! ## Directories for what is gone in the end -/

def scratchName (n : Nat) : String :=
  s!"scratch-{n}"

def scratchAddress (n : Nat) : Address :=
  scratchHome ++ [scratchName n]

def scratchPath (n : Nat) : Path :=
  .ofSteps true (scratchAddress n)

/-- Such a directory, or something in one. -/
def InScratch (a : Address) : Prop :=
  ∃ n, scratchAddress n <+: a

theorem toList_scratchName (n : Nat) :
    (scratchName n).toList = "scratch-".toList ++ Nat.toDigits 10 n := by
  rw [scratchName, String.toList_append, Nat.toString_eq_ofList_toDigits, String.toList_ofList]
  rfl

theorem scratchName_injective : Function.Injective scratchName := by
  intro m n h
  have hdigits : Nat.toDigits 10 m = Nat.toDigits 10 n := by
    have htext := congrArg String.toList h
    rw [toList_scratchName, toList_scratchName] at htext
    exact List.append_cancel_left htext
  calc
    m = Nat.ofDigitChars 10 (Nat.toDigits 10 m) 0 := Nat.ofDigitChars_ten_toDigits.symm
    _ = Nat.ofDigitChars 10 (Nat.toDigits 10 n) 0 := by rw [hdigits]
    _ = n := Nat.ofDigitChars_ten_toDigits

theorem isName_scratchName (n : Nat) : Path.IsName (scratchName n) := by
  have hlong : ∀ short : String, short.toList.length < 8 → scratchName n ≠ short := by
    intro short hshort heq
    rw [← heq, toList_scratchName, List.length_append] at hshort
    have hhead : "scratch-".toList.length = 8 := by decide
    omega
  refine ⟨⟨hlong _ (by decide), ?_⟩, hlong _ (by decide), hlong _ (by decide)⟩
  rw [toList_scratchName]
  intro hslash
  rcases List.mem_append.mp hslash with hslash | hslash
  · exact absurd hslash (by decide)
  · exact absurd (Nat.isDigit_of_mem_toDigits (by decide) (by decide) hslash) (by decide)

theorem isStep_of_mem_scratchAddress {n : Nat} {step : String} (h : step ∈ scratchAddress n) :
    Path.IsStep step := by
  rcases List.mem_append.mp h with h | h
  · rw [List.mem_singleton.mp h]
    exact ⟨by decide, by decide⟩
  · rw [List.mem_singleton.mp h]
    exact (isName_scratchName n).toIsStep

theorem address_scratchPath (home : Address) (n : Nat) :
    (scratchPath n).address home = scratchAddress n := by
  rw [scratchPath, Path.address_ofSteps fun step h => isStep_of_mem_scratchAddress h]
  exact Path.onward_name (isName_scratchName n) scratchHome

theorem scratchAddress_ne_nil (n : Nat) : scratchAddress n ≠ [] := by
  simp [scratchAddress]

theorem scratchHome_ne_nil : scratchHome ≠ [] := by
  decide

theorem exists_free_scratch (d : Disk) :
    ∃ n ∈ List.range (d.entries.length + 1), d.entryAt? (scratchAddress n) = none := by
  by_contra hnone
  have htaken : ∀ n ∈ List.range (d.entries.length + 1),
      scratchAddress n ∈ d.entries.map (·.1) := by
    intro n hn
    have hsome : (d.entryAt? (scratchAddress n)).isSome := by
      rw [← Option.ne_none_iff_isSome]
      exact fun hfree => hnone ⟨n, hn, hfree⟩
    rw [entry_of_ne_nil (scratchAddress_ne_nil n)] at hsome
    exact mem_of_lookup_isSome hsome
  have hnodup : ((List.range (d.entries.length + 1)).map scratchAddress).Nodup := by
    refine List.Nodup.map ?_ List.nodup_range
    intro m n h
    exact scratchName_injective (List.singleton_inj.mp (List.append_cancel_left h))
  have hsub : (List.range (d.entries.length + 1)).map scratchAddress ⊆ d.entries.map (·.1) := by
    intro a ha
    obtain ⟨n, hn, rfl⟩ := List.mem_map.mp ha
    exact htaken n hn
  have hlength := (hnodup.subperm hsub).length_le
  rw [List.length_map, List.length_map, List.length_range] at hlength
  omega

theorem makeScratch_eq (d : Disk) : ∃ n, d.makeScratch =
    (scratchPath n, (d.set scratchHome .directory).set (scratchAddress n) .directory) := by
  obtain ⟨n, hn, hfree⟩ := exists_free_scratch d
  have hfound : ((List.range (d.entries.length + 1)).find?
      ((fun a => (d.entryAt? a).isNone) ∘ scratchAddress)).isSome := by
    rw [List.find?_isSome]
    exact ⟨n, hn, by simp [hfree]⟩
  obtain ⟨m, hm⟩ := Option.isSome_iff_exists.mp hfound
  refine ⟨m, ?_⟩
  have hname : (((List.range (d.entries.length + 1)).map scratchAddress).find? fun a =>
      (d.entryAt? a).isNone).getD scratchHome = scratchAddress m := by
    rw [List.find?_map, hm]
    rfl
  rw [← hname, scratchPath, ← hname]
  rfl

/-! ## Edits -/

/-- One edit of a disk by a program that makes and writes certain paths only. A
file that is written gets no database that it did not hold. -/
inductive Edit (makes writes : Set Path) : Disk → Disk → Prop where
  | directory {d e : Disk} {p : Path} : p ∈ makes → d.makeDirectory p = .ok e →
      Edit makes writes d e
  | content {d e : Disk} {p : Path} {f : File → File} : p ∈ writes →
      (∀ old db, (f old).content = .database db → old.content = .database db) →
      d.change p f = .ok e → Edit makes writes d e
  | move {d e : Disk} {p q : Path} : p ∈ writes → q ∈ writes → d.rename p q = .ok e →
      Edit makes writes d e

/-- Any number of edits, one after the other. -/
def Edits (makes writes : Set Path) : Disk → Disk → Prop :=
  Relation.ReflTransGen (Edit makes writes)

theorem Edits.mono {makes writes makes' writes' : Set Path} {d e : Disk}
    (hmakes : makes ⊆ makes') (hwrites : writes ⊆ writes') (h : Edits makes writes d e) :
    Edits makes' writes' d e := by
  refine Relation.ReflTransGen.mono (fun d e hedit => ?_) _ _ h
  cases hedit with
  | directory hp hmade => exact .directory (hmakes hp) hmade
  | content hp hf hchanged => exact .content (hwrites hp) hf hchanged
  | move hp hq hmoved => exact .move (hwrites hp) (hwrites hq) hmoved

/-! ## What is kept -/

/-- Paths start where they did, and directories stay. -/
structure Keeps (d e : Disk) : Prop where
  home : e.home = d.home
  directory : ∀ b, d.isDirectoryAt b → e.isDirectoryAt b

namespace Keeps

variable {a : Address} {d e f : Disk}

theorem refl (d : Disk) : Keeps d d :=
  ⟨rfl, fun _ h => h⟩

theorem trans (h : Keeps d e) (h' : Keeps e f) : Keeps d f :=
  ⟨h'.home.trans h.home, fun b hdir => h'.directory b (h.directory b hdir)⟩

theorem of_set {entry : Entry} (hnil : a ≠ []) (hdir : d.isDirectoryAt a → entry = .directory) :
    Keeps d (d.set a entry) := by
  refine ⟨rfl, fun b hb => ?_⟩
  rw [isDirectoryAt_iff, entry_set hnil]
  by_cases hba : b = a
  · rw [if_pos hba, hdir (hba ▸ hb)]
  · rw [if_neg hba, isDirectoryAt_iff.mp hb]

theorem of_erase (hnil : a ≠ []) (hdir : ¬ d.isDirectoryAt a) : Keeps d (d.erase a) := by
  refine ⟨rfl, fun b hb => ?_⟩
  have hba : b ≠ a := fun heq => hdir (heq ▸ hb)
  rw [isDirectoryAt_iff, entry_erase hnil, if_neg hba, isDirectoryAt_iff.mp hb]

end Keeps

/-- What a path leads to stays as it was, and so do the directories on the way. -/
structure Spares (q : Path) (d e : Disk) : Prop where
  home : e.home = d.home
  entry : e.entryAt? (q.address d.home) = d.entryAt? (q.address d.home)
  way : ∀ b ∈ q.way d.home, d.isDirectoryAt b → e.isDirectoryAt b

namespace Spares

variable {q : Path} {d e f : Disk}

theorem of_keeps (h : Keeps d e)
    (hentry : e.entryAt? (q.address d.home) = d.entryAt? (q.address d.home)) : Spares q d e :=
  ⟨h.home, hentry, fun b _ => h.directory b⟩

theorem refl (q : Path) (d : Disk) : Spares q d d :=
  of_keeps (.refl d) rfl

theorem trans (h : Spares q d e) (h' : Spares q e f) : Spares q d f := by
  obtain ⟨hhome, hentry, hway⟩ := h'
  rw [h.home] at hentry hway
  exact ⟨hhome.trans h.home, hentry.trans h.entry,
    fun b hb hdir => hway b hb (h.way b hb hdir)⟩

theorem file (h : Spares q d e) {f : File} (hfile : d.file q = .ok f) : e.file q = .ok f := by
  obtain ⟨a, hfind, hentry⟩ := file_eq_ok_iff.mp hfile
  have hkept : e.entryAt? a = some (.file f) := by
    rw [address_of_find hfind, h.entry, ← address_of_find hfind, hentry]
  exact file_eq_ok_iff.mpr ⟨a, find_of_kept h.home h.way (by rw [hkept]; rfl) hfind, hkept⟩

theorem readText (h : Spares q d e) {text : String} (htext : d.readText q = .ok text) :
    e.readText q = .ok text := by
  obtain ⟨isLocked, hfile⟩ := readText_eq_ok_iff.mp htext
  exact readText_eq_ok_iff.mpr ⟨isLocked, h.file hfile⟩

end Spares

/-! ## What one edit does -/

section

variable {d e : Disk} {p q : Path}

theorem ne_nil_of_file {a : Address} {f : File} (h : d.entryAt? a = some (.file f)) : a ≠ [] := by
  rintro rfl
  rw [entry_nil] at h
  cases h

theorem not_isDirectoryAt_of_file {a : Address} {f : File} (h : d.entryAt? a = some (.file f)) :
    ¬ d.isDirectoryAt a := by
  rw [isDirectoryAt_iff, h]
  simp

/-- The file at a path before something is written there, or the one that is made
for that. -/
def Before (d : Disk) (p : Path) (old : File) : Prop :=
  d.entryAt? (p.address d.home) = some (.file old) ∨
    d.entryAt? (p.address d.home) = none ∧ old = .empty

theorem Before.not_isDirectoryAt {old : File} (h : Before d p old) :
    ¬ d.isDirectoryAt (p.address d.home) := by
  rcases h with hfile | ⟨hnone, _⟩
  · exact not_isDirectoryAt_of_file hfile
  · rw [isDirectoryAt_iff, hnone]
    simp

theorem makeDirectory_spec (h : d.makeDirectory p = .ok e) :
    Keeps d e ∧ d.entryAt? (p.address d.home) = none ∧
      ∀ b, b ≠ p.address d.home → e.entryAt? b = d.entryAt? b := by
  obtain ⟨a, hplace, hnone, rfl⟩ := makeDirectory_eq_ok_iff.mp h
  rw [← address_of_place hplace]
  have hnil := ne_nil_of_place hplace
  exact ⟨.of_set hnil fun _ => rfl, hnone, fun b hb => by rw [entry_set hnil, if_neg hb]⟩

theorem change_spec {f : File → File} (h : d.change p f = .ok e) :
    Keeps d e ∧ (∃ old, Before d p old ∧ e.file p = .ok (f old)) ∧
      ∀ b, b ≠ p.address d.home → e.entryAt? b = d.entryAt? b := by
  obtain ⟨a, old, hplace, hslash, hold, rfl⟩ := change_eq_ok_iff.mp h
  have hnil := ne_nil_of_place hplace
  have hentry : entryAt? (d.set a (.file (f old))) a = some (.file (f old)) := by
    rw [entry_set hnil, if_pos rfl]
  have hbefore : Before d p old := by
    rw [Before, ← address_of_place hplace]
    exact hold
  have hkeeps : Keeps d (d.set a (.file (f old))) := by
    refine .of_set hnil fun hdir => ?_
    rw [address_of_place hplace] at hdir
    exact absurd hdir hbefore.not_isDirectoryAt
  have hplace' := place_of_kept hkeeps.home (fun c _ => hkeeps.directory c) hplace
  refine ⟨hkeeps, ⟨old, hbefore, file_eq_ok_iff.mpr ⟨a, ?_, hentry⟩⟩, fun b hb => ?_⟩
  · exact find_of_place hplace' (fun h => absurd h hslash) (by rw [hentry]; rfl)
  · rw [entry_set hnil, if_neg (address_of_place hplace ▸ hb)]

theorem rename_spec (h : d.rename p q = .ok e) :
    Keeps d e ∧ (∃ f, d.file p = .ok f ∧ e.file q = .ok f) ∧
      ∀ b, b ≠ p.address d.home → b ≠ q.address d.home → e.entryAt? b = d.entryAt? b := by
  obtain ⟨a, f, b, hfind, hfile, hplace, hslash, hdir, rfl⟩ := rename_eq_ok_iff.mp h
  have ha := ne_nil_of_file hfile
  have hb := ne_nil_of_place hplace
  have hentry : entryAt? ((d.erase a).set b (.file f)) b = some (.file f) := by
    rw [entry_set hb, if_pos rfl]
  have herased := Keeps.of_erase ha (not_isDirectoryAt_of_file hfile)
  have hkeeps : Keeps d ((d.erase a).set b (.file f)) := by
    refine herased.trans (.of_set hb fun hdir' => ?_)
    rw [isDirectoryAt_iff, entry_erase ha] at hdir'
    split at hdir'
    · cases hdir'
    · exact absurd (isDirectoryAt_iff.mpr hdir') hdir
  have hplace' := place_of_kept hkeeps.home (fun c _ => hkeeps.directory c) hplace
  refine ⟨hkeeps, ⟨f, file_eq_ok_iff.mpr ⟨a, hfind, hfile⟩, file_eq_ok_iff.mpr ⟨b, ?_, hentry⟩⟩,
    fun c hca hcb => ?_⟩
  · exact find_of_place hplace' (fun h => absurd h hslash) (by rw [hentry]; rfl)
  · rw [entry_set hb, if_neg (address_of_place hplace ▸ hcb), entry_erase ha,
      if_neg (address_of_find hfind ▸ hca)]

theorem readText_of_writeText {content : String} (h : d.writeText p content = .ok e) :
    e.readText p = .ok content := by
  obtain ⟨old, _, hfile⟩ := (change_spec h).2.1
  exact readText_eq_ok_iff.mpr ⟨old.isLocked, hfile⟩

theorem readText_of_rename {text : String} (h : d.rename p q = .ok e)
    (htext : d.readText p = .ok text) : e.readText q = .ok text := by
  obtain ⟨f, hfile, hmoved⟩ := (rename_spec h).2.1
  obtain ⟨isLocked, hfile'⟩ := readText_eq_ok_iff.mp htext
  rw [hfile] at hfile'
  cases hfile'
  exact readText_eq_ok_iff.mpr ⟨isLocked, hmoved⟩

end

/-! ## What edits do -/

section

variable {makes writes : Set Path} {d e : Disk}

theorem Edit.keeps (h : Edit makes writes d e) : Keeps d e := by
  cases h with
  | directory _ hmade => exact (makeDirectory_spec hmade).1
  | content _ _ hchanged => exact (change_spec hchanged).1
  | move _ _ hmoved => exact (rename_spec hmoved).1

theorem Edits.keeps (h : Edits makes writes d e) : Keeps d e := by
  induction h with
  | refl => exact .refl d
  | tail _ hedit ih => exact ih.trans hedit.keeps

theorem Edit.spares {q : Path} (h : Edit makes writes d e)
    (hmakes : (d.entryAt? (q.address d.home)).isSome ∨
      ∀ p ∈ makes, q.address d.home ≠ p.address d.home)
    (hwrites : ∀ p ∈ writes, q.address d.home ≠ p.address d.home) : Spares q d e := by
  refine .of_keeps h.keeps ?_
  cases h with
  | directory hp hmade =>
      obtain ⟨_, hnone, hothers⟩ := makeDirectory_spec hmade
      refine hothers _ ?_
      rcases hmakes with hsome | hmakes
      · intro heq
        rw [heq, hnone] at hsome
        cases hsome
      · exact hmakes _ hp
  | content hp _ hchanged => exact (change_spec hchanged).2.2 _ (hwrites _ hp)
  | move hp hp' hmoved => exact (rename_spec hmoved).2.2 _ (hwrites _ hp) (hwrites _ hp')

theorem Edits.spares {q : Path} (h : Edits makes writes d e)
    (hmakes : (d.entryAt? (q.address d.home)).isSome ∨
      ∀ p ∈ makes, q.address d.home ≠ p.address d.home)
    (hwrites : ∀ p ∈ writes, q.address d.home ≠ p.address d.home) : Spares q d e := by
  induction h with
  | refl => exact .refl q d
  | @tail e f _ hedit ih =>
      refine ih.trans (hedit.spares ?_ ?_)
      · rw [ih.home, ih.entry]
        exact hmakes
      · rw [ih.home]
        exact hwrites

/-- Where nothing is written a place that is free stays free or gets a directory. -/
theorem Edit.free {a : Address} (h : Edit makes ∅ d e) (hfree : d.entryAt? a = none) :
    e.entryAt? a = none ∨ e.isDirectoryAt a := by
  cases h with
  | directory _ hmade =>
      obtain ⟨b, hplace, _, rfl⟩ := makeDirectory_eq_ok_iff.mp hmade
      rw [isDirectoryAt_iff, entry_set (ne_nil_of_place hplace)]
      by_cases hab : a = b
      · exact Or.inr (if_pos hab)
      · exact Or.inl ((if_neg hab).trans hfree)
  | content himpossible => exact himpossible.elim
  | move himpossible => exact himpossible.elim

theorem Edits.free {a : Address} (h : Edits makes ∅ d e) (hfree : d.entryAt? a = none) :
    e.entryAt? a = none ∨ e.isDirectoryAt a := by
  induction h with
  | refl => exact Or.inl hfree
  | tail _ hedit ih =>
      rcases ih with hnone | hdir
      · exact hedit.free hnone
      · exact Or.inr (hedit.keeps.directory _ hdir)

end

/-! ## Directories for what is gone, as they come and go -/

/-- A path that has nothing to do with the directories for what is gone in the
end: it leads neither above them nor through one. -/
structure Lasting (q : Path) (home : Address) : Prop where
  above : ¬ q.address home <+: scratchHome
  way : ∀ b ∈ q.way home, ¬ InScratch b

theorem address_mem_way (q : Path) (home : Address) : q.address home ∈ q.way home := by
  rw [Path.way, Path.address]
  exact List.mem_of_getLast? List.getLast?_scanl

theorem Lasting.address {q : Path} {home : Address} (h : Lasting q home) :
    ¬ InScratch (q.address home) :=
  h.way _ (address_mem_way q home)

/-- What is not below the directory of such directories lasts. -/
theorem Lasting.of_head? {q : Path} {home : Address} (hnil : q.address home ≠ [])
    (h : ∀ b ∈ q.way home, b.head? ≠ scratchHome.head?) : Lasting q home := by
  refine ⟨fun habove => ?_, fun b hb => ?_⟩
  · obtain ⟨rest, hrest⟩ := habove
    refine h _ (address_mem_way q home) ?_
    rw [← hrest, List.head?_append_of_ne_nil _ hnil]
  · rintro ⟨n, rest, rfl⟩
    exact h _ hb rfl

section

variable {q : Path} {d : Disk}

theorem Lasting.spares_makeScratch (h : Lasting q d.home) : Spares q d d.makeScratch.2 := by
  obtain ⟨n, hscratch⟩ := makeScratch_eq d
  rw [hscratch]
  refine .of_keeps (.trans (.of_set scratchHome_ne_nil fun _ => rfl)
    (.of_set (scratchAddress_ne_nil n) fun _ => rfl)) ?_
  have hne : q.address d.home ≠ scratchAddress n := by
    intro heq
    exact h.address ⟨n, heq ▸ List.prefix_rfl⟩
  have hhome : q.address d.home ≠ scratchHome := by
    intro heq
    exact h.above (heq ▸ List.prefix_rfl)
  rw [entry_set (scratchAddress_ne_nil n), entry_set scratchHome_ne_nil, if_neg hne,
    if_neg hhome]

theorem Lasting.spares_dropScratch (h : Lasting q d.home) (n : Nat) :
    Spares q d (d.dropScratch (scratchPath n)) := by
  rw [dropScratch]
  cases hfind : d.find (scratchPath n) with
  | error why => exact .refl q d
  | ok a =>
      obtain rfl : a = scratchAddress n :=
        (address_of_find hfind).trans (address_scratchPath d.home n)
      refine ⟨rfl, ?_, ?_⟩
      · show entryAt? (d.eraseTree _) _ = _
        rw [entry_eraseTree (scratchAddress_ne_nil n), if_neg fun hbelow => h.address ⟨n, hbelow⟩]
      · intro b hb hdir
        show isDirectoryAt (d.eraseTree _) _
        rw [isDirectoryAt_iff, entry_eraseTree (scratchAddress_ne_nil n),
          if_neg fun hbelow => h.way b hb ⟨n, hbelow⟩, isDirectoryAt_iff.mp hdir]

end

/-! ## Databases -/

/-- A file of the disk holds the database. -/
def HoldsDatabase (d : Disk) (db : Store.Database) : Prop :=
  ∃ a isLocked, d.entryAt? a = some (.file ⟨.database db, isLocked⟩)

section

variable {d e : Disk} {db : Store.Database}

theorem mem_of_holdsDatabase (h : HoldsDatabase d db) :
    ∃ a isLocked, (a, .file ⟨.database db, isLocked⟩) ∈ d.entries := by
  obtain ⟨a, isLocked, hentry⟩ := h
  rw [entry_of_ne_nil (ne_nil_of_file hentry)] at hentry
  obtain ⟨before, after, hentries, _⟩ := List.lookup_eq_some_iff.mp hentry
  exact ⟨a, isLocked, by simp [hentries]⟩

theorem holdsDatabase_of_set {a : Address} {entry : Entry} (hnil : a ≠ [])
    (h : HoldsDatabase (d.set a entry) db)
    (hentry : ∀ isLocked, entry = .file ⟨.database db, isLocked⟩ → HoldsDatabase d db) :
    HoldsDatabase d db := by
  obtain ⟨b, isLocked, hb⟩ := h
  rw [entry_set hnil] at hb
  split at hb
  · exact hentry isLocked (Option.some.inj hb)
  · exact ⟨b, isLocked, hb⟩

/-- A database that can be opened is in a file or has no tables. -/
theorem holdsDatabase_of_openDatabase {p : Path} (h : d.openDatabase p = .ok db) :
    db = .void ∨ HoldsDatabase d db := by
  rw [openDatabase] at h
  split at h
  · exact Or.inl (Except.ok.inj h).symm
  · split at h
    · rename_i other isLocked hfile
      obtain ⟨a, _, hentry⟩ := file_eq_ok_iff.mp hfile
      exact Or.inr ⟨a, isLocked, by rw [hentry, Except.ok.inj h]⟩
    · rw [Store.Database.ofText] at h
      split at h
      · exact Or.inl (Except.ok.inj h).symm
      · cases h
    · cases h
    · cases h

theorem file_of_spares {p : Path} (h : Spares p d e) (hfound : d.has p = true) :
    e.file p = d.file p := by
  obtain ⟨a, hfind⟩ : ∃ a, d.find p = .ok a := by
    cases hfind : d.find p with
    | ok a => exact ⟨a, rfl⟩
    | error why =>
        rw [has, hfind] at hfound
        cases hfound
  have hentry : e.entryAt? a = d.entryAt? a := by
    rw [address_of_find hfind, h.entry]
  have hfind' : e.find p = .ok a :=
    find_of_kept h.home h.way (by rw [hentry]; exact isSome_of_find hfind) hfind
  rw [file, file, hfind, hfind']
  dsimp only [bind, Except.bind]
  rw [hentry]

theorem openDatabase_of_missing {p : Path} (h : d.entryAt? (p.address d.home) = none) :
    d.openDatabase p =
      if Store.Database.isTransient p.text then .ok .void else .error (.cannotOpen p.text) := by
  obtain ⟨why, hfile, hwhy⟩ : ∃ why, d.file p = .error why ∧ why ≠ .isADirectory := by
    cases hfind : d.find p with
    | ok a =>
        have hsome := isSome_of_find hfind
        rw [address_of_find hfind, h] at hsome
        cases hsome
    | error why =>
        refine ⟨why, by rw [file, hfind]; rfl, ?_⟩
        rintro rfl
        exact find_ne_isADirectory d p hfind
  rw [openDatabase, hfile]
  cases why <;> first | rfl | exact absurd rfl hwhy

/-- A database that is there, or is not there, can be opened or not as before. -/
theorem openDatabase_of_spares {p : Path} (h : Spares p d e)
    (hfound : d.has p = true ∨ d.entryAt? (p.address d.home) = none) :
    e.openDatabase p = d.openDatabase p := by
  rcases hfound with hfound | hnone
  · rw [openDatabase, openDatabase, file_of_spares h hfound]
  · have hnone' : e.entryAt? (p.address e.home) = none := by
      rw [h.home, h.entry]
      exact hnone
    rw [openDatabase_of_missing hnone, openDatabase_of_missing hnone']

/-- No program brings a database to a disk. -/
theorem Edit.holdsDatabase {makes writes : Set Path} (h : Edit makes writes d e)
    (hdb : HoldsDatabase e db) : HoldsDatabase d db := by
  cases h with
  | directory _ hmade =>
      obtain ⟨a, hplace, _, rfl⟩ := makeDirectory_eq_ok_iff.mp hmade
      exact holdsDatabase_of_set (ne_nil_of_place hplace) hdb fun _ himpossible => by
        cases himpossible
  | content _ hf hchanged =>
      obtain ⟨a, old, hplace, _, hold, rfl⟩ := change_eq_ok_iff.mp hchanged
      refine holdsDatabase_of_set (ne_nil_of_place hplace) hdb fun isLocked hfile => ?_
      have hcontent : old.content = .database db := by
        refine hf old db ?_
        rw [Entry.file.inj hfile]
      rcases hold with hold | ⟨_, rfl⟩
      · exact ⟨a, old.isLocked, by rw [hold, ← hcontent]⟩
      · cases hcontent
  | move _ _ hmoved =>
      obtain ⟨a, file, b, _, hentry, hplace, _, _, rfl⟩ := rename_eq_ok_iff.mp hmoved
      obtain ⟨c, isLocked, hc⟩ := hdb
      rw [entry_set (ne_nil_of_place hplace)] at hc
      split at hc
      · exact ⟨a, isLocked, by rw [hentry, Option.some.inj hc]⟩
      · rw [entry_erase (ne_nil_of_file hentry)] at hc
        split at hc
        · cases hc
        · exact ⟨c, isLocked, hc⟩

theorem Edits.holdsDatabase {makes writes : Set Path} (h : Edits makes writes d e)
    (hdb : HoldsDatabase e db) : HoldsDatabase d db := by
  induction h with
  | refl => exact hdb
  | tail _ hedit ih => exact ih (hedit.holdsDatabase hdb)

theorem holdsDatabase_of_makeScratch (hdb : HoldsDatabase d.makeScratch.2 db) :
    HoldsDatabase d db := by
  obtain ⟨n, hscratch⟩ := makeScratch_eq d
  rw [hscratch] at hdb
  refine holdsDatabase_of_set scratchHome_ne_nil
    (holdsDatabase_of_set (scratchAddress_ne_nil n) hdb ?_) ?_
  · rintro _ ⟨⟩
  · rintro _ ⟨⟩

theorem holdsDatabase_of_dropScratch {n : Nat}
    (hdb : HoldsDatabase (d.dropScratch (scratchPath n)) db) : HoldsDatabase d db := by
  rw [dropScratch] at hdb
  cases hfind : d.find (scratchPath n) with
  | error why =>
      rw [hfind] at hdb
      exact hdb
  | ok a =>
      rw [hfind] at hdb
      obtain rfl : a = scratchAddress n :=
        (address_of_find hfind).trans (address_scratchPath d.home n)
      obtain ⟨b, isLocked, hb⟩ := hdb
      rw [entry_eraseTree (scratchAddress_ne_nil n)] at hb
      split at hb
      · cases hb
      · exact ⟨b, isLocked, hb⟩

end

end CallAtlas.Disk
