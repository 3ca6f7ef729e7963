import CallAtlas.Proofs.Key.Ordinal
import CallAtlas.Snapshot

/-!
# Well-formed snapshots

What `build` establishes: every record names a listed file, keys are those
assigned to the records' contents, no two records share one, and the index
lists every key with its place. A snapshot is determined by its files, bodies
and revision.

A record names its file by a number that means nothing outside its snapshot.
The functions of different snapshots are therefore compared by what they are
when the path stands in place of that number, and keys are seen to depend on
nothing else.
-/

namespace CallAtlas.Snapshot

/-! ## Building -/

/-- The index of records of which the first stands at `place`. -/
def placesFrom (place : Nat) : List Record → List (Key × Nat)
  | [] => []
  | r :: rest => (r.key, place) :: placesFrom (place + 1) rest

theorem map_fst_placesFrom (place : Nat) (records : List Record) :
    (placesFrom place records).map (·.1) = records.map (·.key) := by
  induction records generalizing place with
  | nil => rfl
  | cons r rest ih => rw [placesFrom, List.map_cons, List.map_cons, ih]

/-- The records without their keys. -/
def bodies (s : Snapshot) : List Body :=
  s.records.map (·.toBody)

/-- What every snapshot of the library satisfies. -/
structure WellFormed (s : Snapshot) : Prop where
  file_lt : ∀ r ∈ s.records, r.file < s.files.length
  keys_eq : s.records.map (·.key) = Key.assign (sources s.files s.bodies)
  keys_nodup : (s.records.map (·.key)).Nodup
  index_eq : s.index = placesFrom 0 s.records

theorem lookup_eq_none_iff {index : List (Key × Nat)} {key : Key} :
    index.lookup key = none ↔ ∀ entry ∈ index, entry.1 ≠ key := by
  rw [List.lookup_eq_none_iff]
  constructor
  · intro h entry hentry heq
    have := h entry hentry
    simp [heq] at this
  · intro h entry hentry
    simpa using (h entry hentry).symm

theorem enter_cons_of_taken {index : List (Key × Nat)} {place : Nat} {r : Record}
    {rest : List Record} (h : ∃ entry ∈ index, entry.1 = r.key) :
    enter index place (r :: rest) = .error (.duplicateKey r.key) := by
  rw [enter]
  cases hlookup : index.lookup r.key with
  | some found => rfl
  | none =>
      obtain ⟨entry, hentry, heq⟩ := h
      exact absurd heq (lookup_eq_none_iff.mp hlookup entry hentry)

theorem enter_cons_of_fresh {index : List (Key × Nat)} {place : Nat} {r : Record}
    {rest : List Record} (h : ∀ entry ∈ index, entry.1 ≠ r.key) :
    enter index place (r :: rest) = enter (index ++ [(r.key, place)]) (place + 1) rest := by
  rw [enter, lookup_eq_none_iff.mpr h]

theorem fresh_append_iff {index : List (Key × Nat)} {place : Nat} {key : Key}
    {records : List Record} :
    (∀ r ∈ records, ∀ entry ∈ index ++ [(key, place)], entry.1 ≠ r.key) ↔
      (∀ r ∈ records, ∀ entry ∈ index, entry.1 ≠ r.key) ∧ key ∉ records.map (·.key) := by
  constructor
  · intro h
    refine ⟨fun r hr entry hentry => h r hr entry (List.mem_append_left _ hentry), fun hmem => ?_⟩
    obtain ⟨r, hr, heq⟩ := List.mem_map.mp hmem
    exact h r hr (key, place) (List.mem_append_right _ List.mem_cons_self) heq.symm
  · rintro ⟨h, hfresh⟩ r hr entry hentry
    rcases List.mem_append.mp hentry with hentry | hentry
    · exact h r hr entry hentry
    · rw [List.mem_singleton.mp hentry]
      exact fun heq => hfresh (List.mem_map.mpr ⟨r, hr, heq.symm⟩)

/-- Records are entered when their keys are new and differ among themselves. -/
theorem enter_eq_ok_iff {index entered : List (Key × Nat)} {place : Nat}
    {records : List Record} :
    enter index place records = .ok entered ↔
      (∀ r ∈ records, ∀ entry ∈ index, entry.1 ≠ r.key) ∧ (records.map (·.key)).Nodup ∧
        entered = index ++ placesFrom place records := by
  induction records generalizing index place with
  | nil => simp [enter, placesFrom, eq_comm]
  | cons r rest ih =>
      by_cases htaken : ∃ entry ∈ index, entry.1 = r.key
      · rw [enter_cons_of_taken htaken]
        refine iff_of_false (by simp) ?_
        rintro ⟨h, _⟩
        obtain ⟨entry, hentry, heq⟩ := htaken
        exact h r List.mem_cons_self entry hentry heq
      · have hfresh : ∀ entry ∈ index, entry.1 ≠ r.key :=
          fun entry hentry heq => htaken ⟨entry, hentry, heq⟩
        rw [enter_cons_of_fresh hfresh, ih, fresh_append_iff]
        simp only [placesFrom, List.map_cons, List.nodup_cons, List.append_assoc,
          List.singleton_append, List.forall_mem_cons]
        tauto

/-- Entering stops at the first record whose key is taken when its turn comes. -/
theorem enter_eq_error_iff {index : List (Key × Nat)} {place : Nat} {records : List Record}
    {why : Defect} :
    enter index place records = .error why ↔
      ∃ front r back entered, records = front ++ r :: back ∧
        enter index place front = .ok entered ∧ (∃ entry ∈ entered, entry.1 = r.key) ∧
        why = .duplicateKey r.key := by
  induction records generalizing index place with
  | nil => simp [enter]
  | cons r rest ih =>
      by_cases htaken : ∃ entry ∈ index, entry.1 = r.key
      · rw [enter_cons_of_taken htaken]
        constructor
        · intro h
          exact ⟨[], r, rest, index, rfl, rfl, htaken, (Except.error.inj h).symm⟩
        · rintro ⟨front, q, back, entered, hsplit, henter, -, rfl⟩
          cases front with
          | nil =>
              obtain ⟨rfl, -⟩ := List.cons.inj hsplit
              rfl
          | cons first front =>
              obtain ⟨rfl, -⟩ := List.cons.inj hsplit
              rw [enter_cons_of_taken htaken] at henter
              cases henter
      · have hfresh : ∀ entry ∈ index, entry.1 ≠ r.key :=
          fun entry hentry heq => htaken ⟨entry, hentry, heq⟩
        rw [enter_cons_of_fresh hfresh, ih]
        constructor
        · rintro ⟨front, q, back, entered, rfl, henter, hentry, hwhy⟩
          refine ⟨r :: front, q, back, entered, rfl, ?_, hentry, hwhy⟩
          rw [enter_cons_of_fresh hfresh, henter]
        · rintro ⟨front, q, back, entered, hsplit, henter, hentry, hwhy⟩
          cases front with
          | nil =>
              obtain ⟨rfl, -⟩ := List.cons.inj hsplit
              cases henter
              exact absurd hentry htaken
          | cons first front =>
              obtain ⟨rfl, rfl⟩ := List.cons.inj hsplit
              rw [enter_cons_of_fresh hfresh] at henter
              exact ⟨front, q, back, entered, rfl, henter, hentry, hwhy⟩

theorem length_sources (files : List String) (bodies : List Body) :
    (sources files bodies).length = bodies.length :=
  List.length_map _

theorem withKeys_eq_iff {files : List String} {bodies : List Body} {records : List Record} :
    withKeys files bodies = records ↔
      records.map (·.toBody) = bodies ∧
        records.map (·.key) = Key.assign (sources files bodies) := by
  have hlength : bodies.length = (Key.assign (sources files bodies)).length := by
    rw [Key.length_assign, length_sources]
  rw [withKeys]
  generalize Key.assign (sources files bodies) = keys at hlength ⊢
  induction bodies generalizing keys records with
  | nil =>
      obtain rfl := List.eq_nil_of_length_eq_zero hlength.symm
      cases records <;> simp
  | cons b bodies ih =>
      obtain _ | ⟨key, keys⟩ := keys
      · simp at hlength
      · obtain _ | ⟨r, records⟩ := records
        · simp
        · obtain ⟨b', key'⟩ := r
          have htail := @ih records keys (Nat.succ.inj hlength)
          simp only [List.zipWith_cons_cons, List.cons.injEq, Record.mk.injEq, List.map_cons, htail]
          constructor
          · rintro ⟨⟨rfl, rfl⟩, h, h'⟩
            exact ⟨⟨rfl, h⟩, rfl, h'⟩
          · rintro ⟨⟨rfl, h⟩, rfl, h'⟩
            exact ⟨⟨rfl, rfl⟩, h, h'⟩

theorem find?_file_eq_none {files : List String} {bodies : List Body}
    (hrange : ∀ b ∈ bodies, b.file < files.length) :
    (bodies.find? fun b => files.length ≤ b.file) = none := by
  rw [List.find?_eq_none]
  intro b hb
  simpa using hrange b hb

theorem build_eq {files : List String} {bodies : List Body} (revision : String)
    (hrange : ∀ b ∈ bodies, b.file < files.length) :
    build files bodies revision = (enter [] 0 (withKeys files bodies)).map fun index =>
      ⟨files, withKeys files bodies, revision, index⟩ := by
  rw [build, find?_file_eq_none hrange]
  show (enter [] 0 (withKeys files bodies) >>= fun index =>
    pure (⟨files, withKeys files bodies, revision, index⟩ : Snapshot)) = _
  cases enter [] 0 (withKeys files bodies) <;> rfl

theorem file_lt_of_build_eq_ok {files : List String} {bodies : List Body} {revision : String}
    {s : Snapshot} (h : build files bodies revision = .ok s) :
    ∀ b ∈ bodies, b.file < files.length := by
  rw [build] at h
  cases hfind : bodies.find? fun b => files.length ≤ b.file with
  | some b =>
      rw [hfind] at h
      cases h
  | none =>
      intro b hb
      simpa using List.find?_eq_none.mp hfind b hb

/-- A snapshot can be built exactly from its own parts, and only if it is
well-formed. -/
theorem build_eq_ok_iff {files : List String} {bodies : List Body} {revision : String}
    {s : Snapshot} :
    build files bodies revision = .ok s ↔
      s.WellFormed ∧ s.files = files ∧ s.bodies = bodies ∧ s.revision = revision := by
  constructor
  · intro h
    have hrange := file_lt_of_build_eq_ok h
    rw [build_eq revision hrange] at h
    obtain ⟨hbodies, hassign⟩ := withKeys_eq_iff.mp (rfl : withKeys files bodies = _)
    cases henter : enter [] 0 (withKeys files bodies) with
    | error why =>
        rw [henter] at h
        cases h
    | ok index =>
        rw [henter] at h
        cases h
        obtain ⟨_, hnodup, hindex⟩ := enter_eq_ok_iff.mp henter
        refine ⟨⟨?_, ?_, hnodup, hindex⟩, rfl, hbodies, rfl⟩
        · intro r hr
          have hmem := List.mem_map_of_mem (f := fun r : Record => r.toBody) hr
          exact hrange _ (hbodies ▸ hmem)
        · rw [hassign, Snapshot.bodies, hbodies]
  · rintro ⟨hs, rfl, rfl, rfl⟩
    have hrange : ∀ b ∈ s.bodies, b.file < s.files.length := by
      intro b hb
      obtain ⟨r, hr, rfl⟩ := List.mem_map.mp hb
      exact hs.file_lt r hr
    have hrecords : withKeys s.files s.bodies = s.records := withKeys_eq_iff.mpr ⟨rfl, hs.keys_eq⟩
    have henter : enter [] 0 s.records = .ok (placesFrom 0 s.records) :=
      enter_eq_ok_iff.mpr ⟨by simp, hs.keys_nodup, rfl⟩
    rw [build_eq _ hrange, hrecords, henter, ← hs.index_eq]
    rfl

/-- Well-formed snapshots are equal when their files, bodies and revisions
are. -/
theorem WellFormed.ext {s t : Snapshot} (hs : s.WellFormed) (ht : t.WellFormed)
    (hfiles : s.files = t.files) (hbodies : s.bodies = t.bodies)
    (hrevision : s.revision = t.revision) : s = t := by
  have h₁ := build_eq_ok_iff.mpr ⟨hs, hfiles, hbodies, hrevision⟩
  have h₂ := build_eq_ok_iff.mpr ⟨ht, rfl, rfl, rfl⟩
  exact Except.ok.inj (h₁.symm.trans h₂)

theorem WellFormed.withRevision {s : Snapshot} (hs : s.WellFormed) (revision : String) :
    (s.withRevision revision).WellFormed :=
  ⟨hs.file_lt, hs.keys_eq, hs.keys_nodup, hs.index_eq⟩

/-- The ordinals of functions are their ranks, for which nothing is sorted: with
them it can be computed whether a snapshot is well-formed. -/
theorem wellFormed_iff_ranks {s : Snapshot} :
    s.WellFormed ↔
      (∀ r ∈ s.records, r.file < s.files.length) ∧
        (s.records.map (·.key) =
          ((sources s.files s.bodies).zip
            ((sources s.files s.bodies).zipIdx.map (Key.rank (sources s.files s.bodies)))).map
              fun (source, ordinal) => Key.derive source.path source.signature ordinal) ∧
        (s.records.map (·.key)).Nodup ∧ s.index = placesFrom 0 s.records := by
  rw [← Key.ordinals_eq_map_rank, ← Key.assign]
  constructor
  · intro h
    exact ⟨h.file_lt, h.keys_eq, h.keys_nodup, h.index_eq⟩
  · rintro ⟨hfile, hkeys, hnodup, hindex⟩
    exact ⟨hfile, hkeys, hnodup, hindex⟩

instance (s : Snapshot) : Decidable s.WellFormed :=
  decidable_of_iff _ wellFormed_iff_ranks.symm

/-! ## Files -/

theorem hasFile_iff {s : Snapshot} {path : String} : s.hasFile path ↔ path ∈ s.files := by
  rw [hasFile, fileId?, List.findIdx?_isSome, List.any_eq_true]
  simp

theorem hasFile_eq_false_iff {s : Snapshot} {path : String} :
    s.hasFile path = false ↔ path ∉ s.files := by
  rw [← hasFile_iff, Bool.not_eq_true]

theorem getElem?_pathIn {files : List String} {file : Nat} (h : file < files.length) :
    files[file]? = some (pathIn files file) := by
  rw [pathIn, List.getElem?_eq_getElem h, Option.getD_some]

theorem pathIn_mem {files : List String} {file : Nat} (h : file < files.length) :
    pathIn files file ∈ files :=
  List.mem_of_getElem? (getElem?_pathIn h)

/-- Where no path repeats, a record belongs to the file found by its path. -/
theorem fileId?_eq_some_iff {s : Snapshot} (hfiles : s.files.Nodup) {path : String} {file : Nat}
    (hfile : file < s.files.length) :
    s.fileId? path = some file ↔ pathIn s.files file = path := by
  have hget := getElem?_pathIn hfile
  rw [List.getElem?_eq_getElem hfile, Option.some.injEq] at hget
  rw [fileId?, List.findIdx?_eq_some_iff_getElem, ← hget]
  constructor
  · rintro ⟨_, hpath, _⟩
    simpa using hpath
  · rintro rfl
    refine ⟨hfile, by simp, ?_⟩
    intro other hother hpath
    have heq := hfiles.getElem_inj_iff.mp (of_decide_eq_true hpath)
    omega

/-! ## Functions by path -/

/-- A body with the path of its file in place of the file's number. -/
structure Site where
  path : String
  signature : Signature
  lines : Interval
  callees : List Edge
deriving DecidableEq, Repr

/-- A record with the path of its file in place of the file's number. -/
structure Located extends Site where
  key : Key
deriving DecidableEq, Repr

/-- What the key of a function is derived from, but for the ordinal. -/
def Site.source (s : Site) : Key.Source :=
  ⟨s.path, s.signature, s.lines⟩

def siteIn (files : List String) (b : Body) : Site :=
  ⟨pathIn files b.file, b.signature, b.lines, b.callees⟩

def sites (s : Snapshot) : List Site :=
  s.bodies.map (siteIn s.files)

def locate (s : Snapshot) (r : Record) : Located :=
  ⟨siteIn s.files r.toBody, r.key⟩

/-- The functions of a snapshot without the numbers of their files. -/
def located (s : Snapshot) : List Located :=
  s.records.map s.locate

/-- Functions with the keys that they get as the records of one snapshot. -/
def keyed (sites : List Site) : List Located :=
  (sites.zip (Key.assign (sites.map Site.source))).map fun (site, key) => ⟨site, key⟩

theorem sources_eq_map_source (files : List String) (bodies : List Body) :
    sources files bodies = (bodies.map (siteIn files)).map Site.source := by
  rw [sources, List.map_map]
  rfl

/-- Keys depend on nothing but what a function is where the path stands in
place of the number of its file. -/
theorem WellFormed.located_eq {s : Snapshot} (hs : s.WellFormed) : s.located = keyed s.sites := by
  have hkeys : s.records.map (·.key) = Key.assign (s.sites.map Site.source) := by
    rw [hs.keys_eq, sources_eq_map_source, sites]
  rw [keyed, ← hkeys, sites, bodies, List.map_map, List.zip_map', List.map_map, located]
  rfl

theorem map_locate_functionsIn {s : Snapshot} (hs : s.WellFormed) (hfiles : s.files.Nodup)
    (path : String) :
    (s.functionsIn path).map s.locate = s.located.filter (·.path = path) := by
  rw [located, List.filter_map, functionsIn]
  congr 1
  apply List.filter_congr
  intro r hr
  exact decide_eq_decide.mpr (fileId?_eq_some_iff hfiles (hs.file_lt r hr))

/-- A file that is not listed has no functions. -/
theorem WellFormed.filter_path_eq_nil {s : Snapshot} (hs : s.WellFormed) {path : String}
    (h : path ∉ s.files) : s.located.filter (·.path = path) = [] := by
  rw [List.filter_eq_nil_iff]
  intro f hf heq
  obtain ⟨r, hr, rfl⟩ := List.mem_map.mp hf
  exact h (of_decide_eq_true heq ▸ pathIn_mem (hs.file_lt r hr))

/-- Of functions that are chosen by their paths, those of one file are all
there or none of them is. -/
theorem filter_path_filter (keep : String → Bool) (functions : List Located) (path : String) :
    (functions.filter fun f => keep f.path).filter (·.path = path) =
      if keep path then functions.filter (·.path = path) else [] := by
  rw [List.filter_filter]
  by_cases hkeep : keep path
  · rw [if_pos hkeep]
    apply List.filter_congr
    intro f _
    by_cases heq : f.path = path
    · simp [heq, hkeep]
    · simp [heq]
  · rw [if_neg hkeep, List.filter_eq_nil_iff]
    intro f _ hboth
    simp only [Bool.and_eq_true, decide_eq_true_eq] at hboth
    exact hkeep (hboth.1 ▸ hboth.2)

/-- The body of a function in a list of files. -/
def bodyIn (files : List String) (site : Site) : Body :=
  ⟨files.idxOf site.path, site.signature, site.lines, site.callees⟩

/-- Where no path repeats, the number of a file can be found by its path. -/
theorem bodyIn_siteIn {files : List String} (hfiles : files.Nodup) {b : Body}
    (h : b.file < files.length) : bodyIn files (siteIn files b) = b := by
  have hplace : files.idxOf (pathIn files b.file) = b.file := by
    rw [pathIn, List.getElem?_eq_getElem h, Option.getD_some, hfiles.idxOf_getElem]
  rw [bodyIn, siteIn, hplace]

theorem WellFormed.bodies_eq {s : Snapshot} (hs : s.WellFormed) (hfiles : s.files.Nodup) :
    s.bodies = s.sites.map (bodyIn s.files) := by
  have hback : ∀ b ∈ s.bodies, b = bodyIn s.files (siteIn s.files b) := by
    intro b hb
    obtain ⟨r, hr, rfl⟩ := List.mem_map.mp hb
    exact (bodyIn_siteIn hfiles (hs.file_lt r hr)).symm
  calc s.bodies = s.bodies.map id := (List.map_id _).symm
    _ = s.bodies.map (bodyIn s.files ∘ siteIn s.files) := List.map_congr_left hback
    _ = s.sites.map (bodyIn s.files) := (List.map_map ..).symm

theorem WellFormed.ext_sites {s t : Snapshot} (hs : s.WellFormed) (ht : t.WellFormed)
    (hnodup : t.files.Nodup) (hfiles : s.files = t.files) (hsites : s.sites = t.sites)
    (hrevision : s.revision = t.revision) : s = t := by
  refine hs.ext ht hfiles ?_ hrevision
  rw [hs.bodies_eq (hfiles ▸ hnodup), ht.bodies_eq hnodup, hsites, hfiles]

theorem keyed_eq_numbered (sites : List Site) :
    keyed sites = (Key.numbered Site.source sites).map fun p =>
      ⟨p.1, Key.derive p.1.path p.1.signature p.2⟩ := by
  rw [keyed, Key.zip_assign, List.map_map]
  rfl

/-- A function keeps its key when files are left out. -/
theorem keyed_filter (keep : String → Bool) (sites : List Site) :
    keyed (sites.filter fun s => keep s.path) = (keyed sites).filter fun f => keep f.path := by
  have hkeep : Key.ByName fun s => keep s.path := by
    intro a b h
    have hpath : a.path = b.path := congrArg Prod.fst h
    simp only [hpath]
  have h := Key.filter_numbered Site.source hkeep sites
  rw [keyed_eq_numbered, keyed_eq_numbered, List.filter_map]
  exact congrArg _ h.symm

/-- A function keeps its key when functions of other files are put in front or
behind. -/
theorem keyed_append {front back : List Site}
    (hother : ∀ a ∈ front, ∀ b ∈ back, b.path ≠ a.path) :
    keyed (front ++ back) = keyed front ++ keyed back := by
  have hname : ∀ a ∈ front, ∀ b ∈ back, b.source.name ≠ a.source.name := by
    intro a ha b hb h
    exact hother a ha b hb (congrArg Prod.fst h)
  have h := Key.numbered_append Site.source hname
  rw [keyed_eq_numbered, keyed_eq_numbered, keyed_eq_numbered, h, List.map_append]

end CallAtlas.Snapshot
