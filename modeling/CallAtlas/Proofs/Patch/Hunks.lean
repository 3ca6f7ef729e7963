import CallAtlas.Proofs.Patch.Reading

/-!
# Where hunks go

A hunk belongs to the file whose paths are in force at its header. The reader
keeps the hunks of a file together in the file that is open and closes that file
when the next one opens, so every hunk goes into one file, in order. What it
does not keep apart are the lines behind a hunk: one that reads like an extended
header, as a line of the message of the next patch may, still changes the paths
of the open file or takes them away. Hunks end up under the paths of their
headers when extended headers stand in front of them.
-/

namespace CallAtlas.Patch

open Text (startsWith trimReturn)

/-- What a hunk changes, and the paths in force at its header. -/
structure Hunk where
  old : Option String
  new : Option String
  changes : List LineChange
deriving DecidableEq, Repr

/-- The changes that the lines behind a hunk header spell, until both ranges
are used up. -/
def changesIn (old new : Range) : List (List Char) → List LineChange
  | [] => []
  | line :: rest =>
      if old.left = 0 ∧ new.left = 0 then []
      else
        match takeLine? old new line with
        | some (change, old, new) => change.toList ++ changesIn old new rest
        | none => []

/-- The line sets or drops a path of the file above it. -/
def isExtendedHeader (line : List Char) : Bool :=
  startsWith "rename from ".toList line || startsWith "rename to ".toList line ||
    startsWith "new file mode".toList line || startsWith "deleted file mode".toList line

namespace Reader

/-- The hunk that the line opens, `rest` being the lines behind it. -/
def hunkAt? (r : Reader) (line : List Char) (rest : List (List Char)) : Option Hunk :=
  if r.mode = .between ∧ startsWith "@@".toList line then do
    let (old, new) ← scanHunk? line
    let s ← r.current
    return ⟨s.old, s.new, changesIn (← old.range?) (← new.range?) rest⟩
  else none

/-- The hunks of the lines behind the first `count` ones. -/
def hunksFrom (r : Reader) (count : Nat) : List (List Char) → List Hunk
  | [] => []
  | line :: rest =>
      match r.step (count + 1) line with
      | .ok s => (r.hunkAt? line rest).toList ++ s.hunksFrom (count + 1) rest
      | .error _ => []

/-- A `---` and a `+++` line would give their paths to the current file. -/
def takesPaths (r : Reader) : Bool :=
  !r.named && r.current.any (·.seen.isEmpty)

/-- The line changes the paths of the current file. -/
def retitles (r : Reader) (line : List Char) : Bool :=
  match r.mode with
  | .between => isExtendedHeader line
  | .afterOld _ _ => r.takesPaths
  | .inside _ _ => false

/-- Whether the current file has had a hunk header once the line is read,
`hunked` saying so for what stands in front of the line. -/
def hunkedBy (r : Reader) (hunked : Bool) (line : List Char) : Bool :=
  match r.mode with
  | .between => !startsWith "diff ".toList line && (hunked || startsWith "@@".toList line)
  | .afterOld _ _ => hunked && r.takesPaths
  | .inside _ _ => hunked

/-- No line behind a hunk changes the paths of the file that the hunk is in. -/
def orderlyFrom (r : Reader) (hunked : Bool) (count : Nat) : List (List Char) → Bool
  | [] => true
  | line :: rest =>
      !(hunked && r.retitles line) &&
        match r.step (count + 1) line with
        | .ok s => s.orderlyFrom (r.hunkedBy hunked line) (count + 1) rest
        | .error _ => true

end Reader

/-- The hunks of a diff. -/
def hunks (diff : String) : List Hunk :=
  Reader.start.hunksFrom 0 (Text.lines diff.toList)

/-- The lines of a diff that change the paths of a file stand in front of its
hunks. -/
def Orderly (diff : String) : Prop :=
  Reader.start.orderlyFrom false 0 (Text.lines diff.toList) = true

instance (diff : String) : Decidable (Orderly diff) :=
  inferInstanceAs (Decidable (_ = true))

/-- The hunks that are read into one file, and the paths it is closed with. -/
structure Filing where
  old : Option String
  new : Option String
  hunks : List Hunk

namespace Filing

def hasPath (g : Filing) : Bool :=
  g.old.isSome || g.new.isSome

def patch (g : Filing) : FilePatch :=
  ⟨g.old, g.new, g.hunks.flatMap (·.changes)⟩

/-- Every hunk is in a file with the paths of its header. -/
def Settled (g : Filing) : Prop :=
  ∀ h ∈ g.hunks, g.hasPath ∧ h.old = g.old ∧ h.new = g.new

end Filing

namespace Reader

/-! ## What one line does -/

/-- The changes of the current hunk that are still to come. -/
def pending (r : Reader) (rest : List (List Char)) : List LineChange :=
  match r.mode with
  | .inside old new => changesIn old new rest
  | _ => []

/-- What the reader `s` behind a line has made of the reader `r` in front of
it. -/
inductive Move (r : Reader) (line : List Char) (rest : List (List Char)) (s : Reader) : Prop where
  | opens {old new : Option String} : r.pending (line :: rest) = [] →
      r.hunkAt? line rest = none → (∀ hunked, r.hunkedBy hunked line = false) →
      s.files = r.closed → s.current = some ⟨old, new, []⟩ → s.pending rest = [] →
      Move r line rest s
  | goes (f : Section → Section) : r.hunkAt? line rest = none →
      (∀ hunked, r.hunkedBy hunked line = hunked) → s.files = r.files →
      s.current = r.current.map f →
      (∀ t, (f t).seen.reverse ++ s.pending rest = t.seen.reverse ++ r.pending (line :: rest)) →
      (r.retitles line = true ∨ ∀ t, (f t).old = t.old ∧ (f t).new = t.new) →
      Move r line rest s
  | begins {t : Section} : r.current = some t → t.hasPath → r.pending (line :: rest) = [] →
      r.hunkAt? line rest = some ⟨t.old, t.new, s.pending rest⟩ →
      (∀ hunked, r.hunkedBy hunked line = true) → s.files = r.files → s.current = r.current →
      Move r line rest s

theorem Move.stays {r s : Reader} {line : List Char} {rest : List (List Char)}
    (hhunk : r.hunkAt? line rest = none) (hhunked : ∀ hunked, r.hunkedBy hunked line = hunked)
    (hfiles : s.files = r.files) (hcurrent : s.current = r.current)
    (hpending : s.pending rest = r.pending (line :: rest)) : Move r line rest s := by
  refine .goes id hhunk hhunked hfiles ?_ (fun t => ?_) (Or.inr fun t => ⟨rfl, rfl⟩)
  · rw [hcurrent, Option.map_id_fun, id]
  · rw [hpending, id]

theorem changesIn_done (rest : List (List Char)) {old new : Range}
    (h : old.left = 0 ∧ new.left = 0) : changesIn old new rest = [] := by
  cases rest with
  | nil => rfl
  | cons line rest => rw [changesIn, if_pos h]

theorem pending_into (r : Reader) (old new : Range) (rest : List (List Char)) :
    (r.into old new).pending rest = changesIn old new rest := by
  rw [into]
  split
  case isTrue h => exact (changesIn_done rest h).symm
  case isFalse h => rfl

/-- Only a hunk header opens a hunk. -/
theorem hunkAt?_of_ranges?_eq_none {line : List Char} (h : ranges? line = none) (r : Reader)
    (rest : List (List Char)) : r.hunkAt? line rest = none := by
  rw [hunkAt?]
  split
  case isFalse => rfl
  case isTrue =>
    rw [Option.eq_none_iff_forall_ne_some]
    intro hunk hhunk
    simp only [Option.bind_eq_bind, Option.bind_eq_some_iff] at hhunk
    obtain ⟨texts, hscan, t, -, old, hold, new, hnew, -⟩ := hhunk
    rw [ranges?_eq_some_iff.mpr ⟨texts.1, texts.2, hscan, hold, hnew⟩] at h
    cases h

theorem hunkAt?_of_ranges? {r : Reader} {line : List Char} {old new : Range} {t : Section}
    (hmode : r.mode = .between) (h : ranges? line = some (old, new)) (ht : r.current = some t)
    (rest : List (List Char)) :
    r.hunkAt? line rest = some ⟨t.old, t.new, changesIn old new rest⟩ := by
  obtain ⟨oldText, newText, hscan, hold, hnew⟩ := ranges?_eq_some_iff.mp h
  rw [hunkAt?, if_pos ⟨hmode, startsWith_of_ranges? h⟩]
  simp [hscan, ht, hold, hnew]

section

variable {r s : Reader} {line : List Char} {rest : List (List Char)}

/-! ### Inside a hunk -/

theorem hunkedBy_inside {old new : Range} (hmode : r.mode = .inside old new) (hunked : Bool) :
    r.hunkedBy hunked line = hunked := by
  rw [hunkedBy, hmode]

theorem pending_of_inside {old new : Range} (hmode : r.mode = .inside old new)
    (lines : List (List Char)) : r.pending lines = changesIn old new lines := by
  rw [pending, hmode]

theorem moves_of_marks {old new : Range} (hmode : r.mode = .inside old new)
    (htake : takeLine? old new line = some (none, old, new)) (rest : List (List Char)) :
    Move r line rest r := by
  refine .stays (hunkAt?_of_ranges?_eq_none (ranges?_of_takeLine? htake) r rest)
    (hunkedBy_inside hmode) rfl rfl ?_
  rw [pending_of_inside hmode, pending_of_inside hmode, changesIn, htake]
  by_cases hzero : old.left = 0 ∧ new.left = 0
  · rw [if_pos hzero]
    exact changesIn_done rest hzero
  · rw [if_neg hzero]
    rfl

theorem moves_of_takes {old new old' new' : Range} {change : LineChange}
    (hmode : r.mode = .inside old new)
    (htake : takeLine? old new line = some (some change, old', new'))
    (hleft : ¬ (old.left = 0 ∧ new.left = 0)) (rest : List (List Char)) :
    Move r line rest ((r.adjust fun t => { t with seen := change :: t.seen }).into old' new') := by
  refine .goes (fun t => { t with seen := change :: t.seen })
    (hunkAt?_of_ranges?_eq_none (ranges?_of_takeLine? htake) r rest) (hunkedBy_inside hmode)
    (files_into ..) (current_into ..) (fun t => ?_) (Or.inr fun t => ⟨rfl, rfl⟩)
  rw [pending_of_inside hmode, changesIn, if_neg hleft, htake, pending_into]
  simp

/-! ### Between hunks -/

theorem pending_of_between (hmode : r.mode = .between) (lines : List (List Char)) :
    r.pending lines = [] := by
  rw [pending, hmode]

theorem moves_of_opened (hmode : r.mode = .between) (hline : "diff ".toList <+: line)
    (old new : Option String) (rest : List (List Char)) : Move r line rest (r.opened old new) := by
  obtain ⟨tail, rfl⟩ := hline
  refine .opens (pending_of_between hmode _) (hunkAt?_of_ranges?_eq_none (ranges?_eq_none rfl) r _)
    (fun hunked => ?_) rfl rfl (pending_of_between hmode rest)
  rw [hunkedBy, hmode]
  rfl

theorem moves_of_begins {old new : Range} (hmode : r.mode = .between)
    (hranges : ranges? line = some (old, new)) (hpath : r.current.any Section.hasPath = true)
    (rest : List (List Char)) : Move r line rest (r.into old new) := by
  obtain ⟨t, ht, hpath⟩ := (Option.any_eq_true _ _).mp hpath
  obtain ⟨tail, rfl⟩ := Text.startsWith_iff.mp (startsWith_of_ranges? hranges)
  refine .begins ht hpath (pending_of_between hmode _) ?_ (fun hunked => ?_) (files_into ..)
    (current_into ..)
  · rw [hunkAt?_of_ranges? hmode hranges ht, pending_into]
  · rw [hunkedBy, hmode]
    exact Bool.or_true hunked

/-- An extended header changes paths, and any other line is passed. -/
theorem extendedHeader_cases (r : Reader) (line : List Char) :
    (isExtendedHeader line = true ∧ ∃ f : Section → Section,
        r.extendedHeader line = r.adjust f ∧ ∀ t, (f t).seen = t.seen) ∨
      r.extendedHeader line = r.passed line := by
  rw [extendedHeader]
  split
  case h_1 path hfrom =>
    have hstarts : startsWith "rename from ".toList line = true := by
      rw [startsWith, hfrom]
      rfl
    refine Or.inl ⟨?_, _, rfl, fun t => rfl⟩
    rw [isExtendedHeader, hstarts]
    rfl
  case h_2 =>
    split
    case h_1 path hto =>
      have hstarts : startsWith "rename to ".toList line = true := by
        rw [startsWith, hto]
        rfl
      refine Or.inl ⟨?_, _, rfl, fun t => rfl⟩
      rw [isExtendedHeader, hstarts, Bool.or_true]
      rfl
    case h_2 =>
      split
      case isTrue hcreated =>
        refine Or.inl ⟨?_, _, rfl, fun t => rfl⟩
        rw [isExtendedHeader, hcreated, Bool.or_true]
        rfl
      case isFalse =>
        split
        case isTrue hdeleted =>
          refine Or.inl ⟨?_, _, rfl, fun t => rfl⟩
          rw [isExtendedHeader, hdeleted, Bool.or_true]
        case isFalse => exact Or.inr rfl

theorem moves_of_passes (hmode : r.mode = .between)
    (hdiff : startsWith "diff ".toList line = false)
    (hhunk : startsWith "@@".toList line = false) (rest : List (List Char)) :
    Move r line rest (r.extendedHeader line) := by
  have hnone := hunkAt?_of_ranges?_eq_none (ranges?_eq_none hhunk) r rest
  have hkept (hunked : Bool) : r.hunkedBy hunked line = hunked := by
    rw [hunkedBy, hmode, hdiff, hhunk]
    simp
  have hbefore := pending_of_between hmode (line :: rest)
  have hbehind := pending_of_between ((mode_extendedHeader r line).trans hmode) rest
  rcases extendedHeader_cases r line with ⟨hheader, f, heq, hseen⟩ | heq
  · rw [heq] at hbehind ⊢
    refine .goes f hnone hkept rfl rfl (fun t => ?_) (Or.inl ?_)
    · rw [hseen, hbefore, hbehind]
    · rw [retitles, hmode]
      exact hheader
  · rw [heq] at hbehind ⊢
    have hsame : (r.passed line).files = r.files ∧ (r.passed line).current = r.current := by
      rw [passed]
      split <;> exact ⟨rfl, rfl⟩
    exact .stays hnone hkept hsame.1 hsame.2 (hbehind.trans hbefore.symm)

theorem headed_eq (r : Reader) (old new : Option String) :
    r.headed old new =
      { (if r.takesPaths then r.adjust fun t => { t with old, new } else r.opened old new) with
        named := true, afterHunk := false, mode := .between } :=
  rfl

theorem moves_of_headed {above : Nat} {old : Option String} (hmode : r.mode = .afterOld above old)
    (hline : ranges? line = none) (new : Option String) (rest : List (List Char)) :
    Move r line rest (r.headed old new) := by
  have hpending : r.pending (line :: rest) = [] := by
    rw [pending, hmode]
  have hhunk := hunkAt?_of_ranges?_eq_none hline r rest
  have hhunked : ∀ hunked, r.hunkedBy hunked line = (hunked && r.takesPaths) := by
    intro hunked
    rw [hunkedBy, hmode]
  by_cases htakes : r.takesPaths = true
  · rw [headed_eq, if_pos htakes]
    refine .goes (fun t => { t with old, new }) hhunk (fun hunked => ?_) rfl rfl (fun t => ?_)
      (Or.inl ?_)
    · rw [hhunked, htakes, Bool.and_true]
    · rw [hpending]
      rfl
    · rw [retitles, hmode]
      exact htakes
  · rw [headed_eq, if_neg htakes]
    refine .opens hpending hhunk ?_ rfl rfl rfl
    intro hunked
    rw [hhunked, Bool.eq_false_iff.mpr htakes, Bool.and_false]

theorem moves_of_step {number : Nat} (h : r.step number line = .ok s)
    (rest : List (List Char)) : Move r line rest s := by
  cases reads_of_step h with
  | opens hmode hline => exact moves_of_opened hmode hline _ _ rest
  | names hmode hline =>
      obtain rfl := hline
      refine .stays (hunkAt?_of_ranges?_eq_none (ranges?_eq_none rfl) r rest) (fun hunked => ?_)
        rfl rfl (pending_of_between hmode _).symm
      rw [hunkedBy, hmode]
      exact Bool.or_false hunked
  | heads hmode hline =>
      exact moves_of_headed hmode (ranges?_eq_none (by rw [hline]; rfl)) _ rest
  | begins hmode hranges hpath => exact moves_of_begins hmode hranges hpath rest
  | takes hmode htake hleft => exact moves_of_takes hmode htake hleft rest
  | marks hmode htake => exact moves_of_marks hmode htake rest
  | passes hmode hdiff hhunk => exact moves_of_passes hmode hdiff hhunk rest

end

/-! ## What is kept from line to line -/

/-- The current file as it would be closed with these hunks. -/
def filing (r : Reader) (own : List Hunk) : List Filing :=
  match r.current with
  | some t => [⟨t.old, t.new, own⟩]
  | none => []

/-- The closed files have the hunks of `filed` and the current one those of
`own`, of which the last may not have come to its end. -/
structure Keeps (r : Reader) (rest : List (List Char)) (filed : List Filing) (own : List Hunk) :
    Prop where
  files_eq : r.files.reverse = (filed.filter (·.hasPath)).map (·.patch)
  changes_eq : ∀ t ∈ r.current, t.seen.reverse ++ r.pending rest = own.flatMap (·.changes)
  own_eq_nil : r.current = none → own = []

/-- All hunks so far are in files with the paths of their headers. -/
structure Settled (r : Reader) (filed : List Filing) (own : List Hunk) (hunked : Bool) : Prop where
  filed : ∀ g ∈ filed, g.Settled
  filing : ∀ g ∈ r.filing own, g.Settled
  own_eq_nil : hunked = false → own = []

section

variable {r s : Reader} {line : List Char} {rest : List (List Char)} {filed : List Filing}
  {own : List Hunk}

theorem filing_of_map {f : Section → Section} (h : s.current = r.current.map f)
    (hf : ∀ t, (f t).old = t.old ∧ (f t).new = t.new) (own : List Hunk) :
    s.filing own = r.filing own := by
  rw [filing, filing, h]
  cases r.current with
  | none => rfl
  | some t =>
      show [Filing.mk (f t).old (f t).new own] = _
      rw [(hf t).1, (hf t).2]

theorem Settled.closed {hunked : Bool} (h : Settled r filed own hunked) :
    ∀ g ∈ filed ++ r.filing own, g.Settled := by
  intro g hg
  rcases List.mem_append.mp hg with hg | hg
  · exact h.filed g hg
  · exact h.filing g hg

theorem settled_filing_nil (r : Reader) : ∀ g ∈ r.filing [], g.Settled := by
  intro g hg
  rw [filing] at hg
  split at hg
  · rw [List.mem_singleton.mp hg]
    exact List.forall_mem_nil _
  · cases hg

/-- The hunks of the current file go where it goes. -/
theorem Keeps.hunks_filing (h : Keeps r rest filed own) :
    (r.filing own).flatMap (·.hunks) = own := by
  rw [filing]
  cases hcurrent : r.current with
  | none => exact (h.own_eq_nil hcurrent).symm
  | some t => simp

theorem Keeps.closed_eq (h : Keeps r rest filed own) (hpending : r.pending rest = []) :
    r.closed.reverse = ((filed ++ r.filing own).filter (·.hasPath)).map (·.patch) := by
  rw [List.filter_append, List.map_append, ← h.files_eq, closed, filing]
  cases hcurrent : r.current with
  | none => simp
  | some t =>
      have hchanges := h.changes_eq t hcurrent
      rw [hpending, List.append_nil] at hchanges
      by_cases hpath : t.hasPath = true
      · have hfiled : (Filing.mk t.old t.new own).hasPath = true := hpath
        simp [hpath, hfiled, Filing.patch, Section.close, hchanges]
      · have hfiled : ¬ (Filing.mk t.old t.new own).hasPath = true := hpath
        simp [hpath, hfiled]

theorem Keeps.of_opens (h : Keeps r (line :: rest) filed own) {old new : Option String}
    (hpending : r.pending (line :: rest) = []) (hfiles : s.files = r.closed)
    (hcurrent : s.current = some ⟨old, new, []⟩) (hnone : s.pending rest = []) :
    Keeps s rest (filed ++ r.filing own) [] := by
  refine ⟨?_, ?_, fun _ => rfl⟩
  · rw [hfiles, h.closed_eq hpending]
  · rintro t ht
    rw [hcurrent] at ht
    cases ht
    simp [hnone]

theorem Keeps.of_goes (h : Keeps r (line :: rest) filed own) {f : Section → Section}
    (hfiles : s.files = r.files) (hcurrent : s.current = r.current.map f)
    (hchanges : ∀ t,
      (f t).seen.reverse ++ s.pending rest = t.seen.reverse ++ r.pending (line :: rest)) :
    Keeps s rest filed own := by
  refine ⟨hfiles ▸ h.files_eq, ?_, ?_⟩
  · intro t ht
    rw [hcurrent] at ht
    obtain ⟨u, hu, rfl⟩ := Option.map_eq_some_iff.mp ht
    rw [hchanges, h.changes_eq u hu]
  · intro hclosed
    rw [hcurrent, Option.map_eq_none_iff] at hclosed
    exact h.own_eq_nil hclosed

theorem Keeps.of_begins (h : Keeps r (line :: rest) filed own) {t : Section}
    (hcurrent : r.current = some t) (hpending : r.pending (line :: rest) = [])
    (hfiles : s.files = r.files) (hsame : s.current = r.current) :
    Keeps s rest filed (own ++ [⟨t.old, t.new, s.pending rest⟩]) := by
  refine ⟨hfiles ▸ h.files_eq, ?_, ?_⟩
  · intro u hu
    rw [hsame, hcurrent] at hu
    cases hu
    have hchanges := h.changes_eq t hcurrent
    rw [hpending, List.append_nil] at hchanges
    rw [List.flatMap_append, ← hchanges]
    simp
  · intro hclosed
    rw [hsame, hcurrent] at hclosed
    cases hclosed

theorem Settled.of_opens {hunked : Bool} (h : Settled r filed own hunked) :
    Settled s (filed ++ r.filing own) [] false :=
  ⟨h.closed, settled_filing_nil s, fun _ => rfl⟩

theorem Settled.of_goes {hunked : Bool} (h : Settled r filed own hunked) {f : Section → Section}
    (hcurrent : s.current = r.current.map f)
    (htitle : r.retitles line = true ∨ ∀ t, (f t).old = t.old ∧ (f t).new = t.new)
    (hquiet : (hunked && r.retitles line) = false) : Settled s filed own hunked := by
  refine ⟨h.filed, ?_, h.own_eq_nil⟩
  rcases htitle with hretitles | hkept
  · rw [hretitles, Bool.and_true] at hquiet
    obtain rfl := h.own_eq_nil hquiet
    exact settled_filing_nil s
  · rw [filing_of_map hcurrent hkept]
    exact h.filing

theorem Settled.of_begins {hunked : Bool} (h : Settled r filed own hunked) {t : Section}
    {changes : List LineChange} (hcurrent : r.current = some t) (hpath : t.hasPath)
    (hsame : s.current = r.current) :
    Settled s filed (own ++ [⟨t.old, t.new, changes⟩]) true := by
  refine ⟨h.filed, ?_, fun himpossible => by cases himpossible⟩
  intro g hg
  rw [Reader.filing, hsame, hcurrent, List.mem_singleton] at hg
  subst hg
  have hown := h.filing ⟨t.old, t.new, own⟩ (by rw [Reader.filing, hcurrent]; simp)
  intro hunk hmem
  rcases List.mem_append.mp hmem with hmem | hmem
  · exact hown hunk hmem
  · rw [List.mem_singleton.mp hmem]
    exact ⟨hpath, rfl, rfl⟩

/-- One line adds its hunk to the hunks that are kept. They stay settled unless
it changes the paths of a file that has had a hunk. -/
theorem Keeps.step (h : Keeps r (line :: rest) filed own) (hmove : Move r line rest s) :
    ∃ filed' own', Keeps s rest filed' own' ∧
      filed'.flatMap (·.hunks) ++ own' =
        filed.flatMap (·.hunks) ++ own ++ (r.hunkAt? line rest).toList ∧
      ∀ hunked, Settled r filed own hunked → (hunked && r.retitles line) = false →
        Settled s filed' own' (r.hunkedBy hunked line) := by
  cases hmove with
  | opens hpending hhunk hhunked hfiles hcurrent hnone =>
      refine ⟨_, _, h.of_opens hpending hfiles hcurrent hnone, ?_, fun hunked hsettled _ => ?_⟩
      · rw [hhunk, List.flatMap_append, h.hunks_filing]
        simp
      · rw [hhunked]
        exact hsettled.of_opens
  | goes f hhunk hhunked hfiles hcurrent hchanges htitle =>
      refine ⟨_, _, h.of_goes hfiles hcurrent hchanges, ?_, fun hunked hsettled hquiet => ?_⟩
      · rw [hhunk]
        simp
      · rw [hhunked]
        exact hsettled.of_goes hcurrent htitle hquiet
  | begins hcurrent hpath hpending hhunk hhunked hfiles hsame =>
      refine ⟨_, _, h.of_begins hcurrent hpending hfiles hsame, ?_, fun hunked hsettled _ => ?_⟩
      · rw [hhunk]
        simp
      · rw [hhunked]
        exact hsettled.of_begins hcurrent hpath hsame

/-- A diff is closed with all its hunks. -/
theorem Keeps.run {count : Nat} {lines : List (List Char)} {patch : Patch}
    (h : Keeps r lines filed own) (hrun : r.run count lines = .ok patch) :
    ∃ filings : List Filing,
      patch.files = (filings.filter (·.hasPath)).map (·.patch) ∧
        filings.flatMap (·.hunks) = filed.flatMap (·.hunks) ++ own ++ r.hunksFrom count lines ∧
        ∀ hunked, Settled r filed own hunked → r.orderlyFrom hunked count lines = true →
          ∀ g ∈ filings, g.Settled := by
  induction lines generalizing r count filed own with
  | nil =>
      obtain ⟨hmode, rfl⟩ := finish_eq_ok_iff.mp hrun
      refine ⟨filed ++ r.filing own, h.closed_eq (pending_of_between hmode _), ?_, ?_⟩
      · rw [List.flatMap_append, h.hunks_filing, hunksFrom, List.append_nil]
      · exact fun hunked hsettled _ => hsettled.closed
  | cons line rest ih =>
      obtain ⟨s, hstep, hrest⟩ := run_cons_eq_ok_iff.mp hrun
      obtain ⟨filed', own', hkeeps, hhunks, hsettled'⟩ := h.step (moves_of_step hstep rest)
      obtain ⟨filings, hfiles, hall, hsettled⟩ := ih hkeeps hrest
      refine ⟨filings, hfiles, ?_, ?_⟩
      · rw [hall, hhunks, hunksFrom, hstep, List.append_assoc, List.append_assoc]
      · intro hunked hstart horderly
        rw [orderlyFrom, hstep, Bool.and_eq_true, Bool.not_eq_true'] at horderly
        exact hsettled _ (hsettled' hunked hstart horderly.1) horderly.2

end

theorem keeps_start (lines : List (List Char)) : Keeps start lines [] [] :=
  ⟨rfl, fun _ h => (nomatch h), fun _ => rfl⟩

theorem settled_start : Settled start [] [] false :=
  ⟨List.forall_mem_nil _, List.forall_mem_nil _, fun _ => rfl⟩

end Reader

/-- Every hunk of a diff is read into one file, with its changes in order, and a
file is left out only if it has no path in the end. In an orderly diff no hunk
is left out, and every hunk is in a file with the paths of its header. -/
theorem filings_of_parse {diff : String} {patch : Patch} (h : parse diff = .ok patch) :
    ∃ filings : List Filing,
      patch.files = (filings.filter (·.hasPath)).map (·.patch) ∧
        filings.flatMap (·.hunks) = hunks diff ∧
        (Orderly diff → ∀ g ∈ filings, g.Settled) := by
  obtain ⟨filings, hfiles, hhunks, hsettled⟩ := (Reader.keeps_start _).run h
  exact ⟨filings, hfiles, hhunks, hsettled false Reader.settled_start⟩

/-! ## Two diffs -/

/-- The diff with these lines. -/
def diffOf (lines : List String) : String :=
  .ofList (Text.closeLines (lines.map String.toList))

theorem lines_diffOf {lines : List String} (h : ∀ line ∈ lines.map String.toList, '\n' ∉ line) :
    Text.lines (diffOf lines).toList = (lines.map String.toList).map trimReturn := by
  rw [diffOf, String.toList_ofList, Text.lines_closeLines h]

def renamingLines : List String :=
  ["diff --git a/x.c b/y.c", "rename from x.c", "rename to y.c", "--- a/x.c", "+++ b/y.c",
    "@@ -1 +1 @@", "-a", "+b", "@@ -5 +5,2 @@", " c", "+d"]

/-- A file is renamed and changed in two places. -/
def renamingDiff : String :=
  diffOf renamingLines

def renamingPatch : Patch :=
  ⟨[⟨some "x.c", some "y.c", [.deletion 1, .insertion 1, .context 5 5, .insertion 6]⟩]⟩

theorem filings_renaming :
    parse renamingDiff = .ok renamingPatch ∧ Orderly renamingDiff ∧
      hunks renamingDiff = [⟨some "x.c", some "y.c", [.deletion 1, .insertion 1]⟩,
        ⟨some "x.c", some "y.c", [.context 5 5, .insertion 6]⟩] ∧
      ∃ filings : List Filing,
        renamingPatch.files = (filings.filter (·.hasPath)).map (·.patch) ∧
          filings.flatMap (·.hunks) = hunks renamingDiff ∧
          (Orderly renamingDiff → ∀ g ∈ filings, g.Settled) := by
  have hlines : Text.lines renamingDiff.toList =
      (renamingLines.map String.toList).map trimReturn := lines_diffOf (by decide +kernel)
  have hparse : parse renamingDiff = .ok renamingPatch := by
    rw [parse, hlines]
    rfl
  refine ⟨hparse, ?_, ?_, filings_of_parse hparse⟩
  · rw [Orderly, hlines]
    decide +kernel
  · rw [hunks, hlines]
    decide +kernel

/-- Two patches of a series. The text behind the first one starts like an
extended header, and that behind the second one like two of them. -/
def seriesDiff : String :=
  diffOf ["--- a/x.c", "+++ b/x.c", "@@ -1 +1 @@", "-a", "+b",
    "# HG changeset patch", "rename to z everywhere", "",
    "--- a/y.c", "+++ b/y.c", "@@ -1 +1 @@", "-c", "+d",
    "# HG changeset patch", "new file mode is read", "deleted file mode is read"]

/-- The first hunk goes to another path, and the second one goes nowhere. -/
theorem hunks_refiled_and_lost :
    parse seriesDiff =
        .ok ⟨[⟨some "x.c", some "z everywhere", [.deletion 1, .insertion 1]⟩]⟩ ∧
      hunks seriesDiff = [⟨some "x.c", some "x.c", [.deletion 1, .insertion 1]⟩,
        ⟨some "y.c", some "y.c", [.deletion 1, .insertion 1]⟩] := by
  rw [parse, hunks, seriesDiff, lines_diffOf (by decide +kernel)]
  exact ⟨by rfl, by decide +kernel⟩

end CallAtlas.Patch
