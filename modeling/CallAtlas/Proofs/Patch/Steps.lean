import CallAtlas.Patch.Reader
import CallAtlas.Proofs.Checks
import CallAtlas.Proofs.Text.Lines

/-!
# What a line does

`reads_of_step` lists what a line can make of the reader, by where the reader is
and how the line starts. What is kept from line to line is shown case by case
over this list. Hunk headers and the lines of hunks are read through `ranges?`
and `takeLine?`, which say what they give apart from the reader.
-/

namespace CallAtlas.Patch

open Text (dropHead? startsWith)

/-! ## The lines of a hunk -/

theorem Range.take?_eq_some_iff {r rest : Range} {n : UInt32} :
    r.take? = some (n, rest) ↔ r.left ≠ 0 ∧ n = r.next ∧ rest = ⟨r.next + 1, r.left - 1⟩ := by
  rw [take?]
  by_cases hleft : r.left = 0
  · simp [hleft]
  · simp [hleft, eq_comm]

/-- What a line of a hunk changes, and what it leaves of the two ranges. -/
def takeLine? (old new : Range) : List Char → Option (Option LineChange × Range × Range)
  | '\\' :: _ => some (none, old, new)
  | '-' :: _ => old.take?.map fun (m, old) => (some (.deletion m), old, new)
  | '+' :: _ => new.take?.map fun (n, new) => (some (.insertion n), old, new)
  | [] => kept
  | ' ' :: _ => kept
  | _ => none
where
  kept : Option (Option LineChange × Range × Range) := do
    let (m, old) ← old.take?
    let (n, new) ← new.take?
    return (some (.context m n), old, new)

/-- A marker takes nothing from the ranges. -/
theorem ranges_of_takeLine?_none {old new old' new' : Range} {line : List Char}
    (h : takeLine? old new line = some (none, old', new')) : old' = old ∧ new' = new := by
  have hkept : takeLine?.kept old new ≠ some (none, old', new') := by
    intro himpossible
    simp only [takeLine?.kept, Option.bind_eq_bind, Option.bind_eq_some_iff] at himpossible
    obtain ⟨_, _, _, _, heq⟩ := himpossible
    cases heq
  rw [takeLine?.eq_def] at h
  split at h
  case h_1 =>
    cases h
    exact ⟨rfl, rfl⟩
  case h_2 =>
    obtain ⟨_, _, heq⟩ := Option.map_eq_some_iff.mp h
    cases heq
  case h_3 =>
    obtain ⟨_, _, heq⟩ := Option.map_eq_some_iff.mp h
    cases heq
  case h_6 => cases h
  all_goals exact absurd h hkept

theorem not_ended_of_takeLine? {old new old' new' : Range} {line : List Char}
    {change : LineChange} (h : takeLine? old new line = some (some change, old', new')) :
    ¬ (old.left = 0 ∧ new.left = 0) := by
  rintro ⟨hold, hnew⟩
  have hold : old.take? = none := by rw [Range.take?, if_pos hold]
  have hnew : new.take? = none := by rw [Range.take?, if_pos hnew]
  rw [takeLine?.eq_def, takeLine?.kept, hold, hnew] at h
  split at h <;> cases h

/-- The ranges that a hunk header gives. -/
def ranges? (line : List Char) : Option (Range × Range) := do
  let (old, new) ← scanHunk? line
  return (← old.range?, ← new.range?)

theorem ranges?_eq_some_iff {line : List Char} {old new : Range} :
    ranges? line = some (old, new) ↔ ∃ oldText newText,
      scanHunk? line = some (oldText, newText) ∧ oldText.range? = some old ∧
        newText.range? = some new := by
  rw [ranges?, Option.bind_eq_bind, Option.bind_eq_some_iff]
  constructor
  · rintro ⟨⟨oldText, newText⟩, hscan, h⟩
    simp only [Option.bind_eq_bind, Option.bind_eq_some_iff] at h
    obtain ⟨_, hold, _, hnew, heq⟩ := h
    cases heq
    exact ⟨oldText, newText, hscan, hold, hnew⟩
  · rintro ⟨oldText, newText, hscan, hold, hnew⟩
    refine ⟨(oldText, newText), hscan, ?_⟩
    simp [hold, hnew]

theorem startsWith_of_ranges? {line : List Char} {ranges : Range × Range}
    (h : ranges? line = some ranges) : startsWith "@@".toList line = true := by
  obtain ⟨oldText, newText, hscan, -⟩ := ranges?_eq_some_iff.mp h
  rw [scanHunk?, Option.bind_eq_bind, Option.bind_eq_some_iff] at hscan
  obtain ⟨rest, hdrop, -⟩ := hscan
  obtain rfl := Text.dropHead?_eq_some_iff.mp hdrop
  rfl

theorem ranges?_eq_none {line : List Char} (h : startsWith "@@".toList line = false) :
    ranges? line = none := by
  rw [Option.eq_none_iff_forall_ne_some]
  intro ranges hranges
  rw [startsWith_of_ranges? hranges] at h
  cases h

/-- A line of a hunk does not look like the header of another. -/
theorem ranges?_of_takeLine? {old new : Range} {line : List Char}
    {taken : Option LineChange × Range × Range} (h : takeLine? old new line = some taken) :
    ranges? line = none := by
  apply ranges?_eq_none
  rw [takeLine?.eq_def] at h
  split at h
  case h_6 => cases h
  all_goals rfl

namespace Reader

/-! ## Going into a hunk -/

@[simp] theorem files_into (r : Reader) (old new : Range) : (r.into old new).files = r.files := by
  rw [into]
  split <;> rfl

@[simp] theorem current_into (r : Reader) (old new : Range) :
    (r.into old new).current = r.current := by
  rw [into]
  split <;> rfl

theorem mode_into {r : Reader} {old new : Range} (h : ¬ (old.left = 0 ∧ new.left = 0)) :
    (r.into old new).mode = .inside old new := by
  rw [into, if_neg h]

theorem inside_into {r : Reader} {old new old' new' : Range}
    (h : (r.into old new).mode = .inside old' new') :
    old = old' ∧ new = new' ∧ ¬ (old'.left = 0 ∧ new'.left = 0) := by
  by_cases hzero : old.left = 0 ∧ new.left = 0
  · rw [into, if_pos hzero] at h
    cases h
  · rw [mode_into hzero] at h
    cases h
    exact ⟨rfl, rfl, hzero⟩

theorem hunkHeader_eq_ok_iff {r s : Reader} {line : List Char} :
    r.hunkHeader line = .ok s ↔ ∃ old new, ranges? line = some (old, new) ∧
      r.current.any Section.hasPath = true ∧ s = r.into old new := by
  rw [hunkHeader]
  cases hscan : scanHunk? line with
  | none => simp [ranges?, hscan]
  | some texts =>
      obtain ⟨oldText, newText⟩ := texts
      cases hold : oldText.range? with
      | none => simp [ranges?, hscan, hold]
      | some old =>
          cases hnew : newText.range? with
          | none => simp [ranges?, hscan, hold, hnew]
          | some new =>
              have hranges : ranges? line = some (old, new) :=
                ranges?_eq_some_iff.mpr ⟨oldText, newText, hscan, hold, hnew⟩
              dsimp only
              rw [hold, hnew, hranges]
              dsimp only
              constructor
              · intro h
                split at h
                case isTrue hpath =>
                  cases h
                  exact ⟨old, new, rfl, hpath, rfl⟩
                case isFalse => cases h
              · rintro ⟨_, _, heq, hpath, rfl⟩
                cases heq
                rw [if_pos hpath]

theorem mode_extendedHeader (r : Reader) (line : List Char) :
    (r.extendedHeader line).mode = r.mode := by
  rw [extendedHeader, passed]
  repeat' split
  all_goals rfl

/-- What becomes of the reader when that has been taken for a line of a hunk. -/
def taken (r : Reader) : Option LineChange × Range × Range → Reader
  | (none, _, _) => r
  | (some change, old, new) =>
      (r.adjust fun t => { t with seen := change :: t.seen }).into old new

/-- Inside a hunk a line is what can be taken for it from the ranges. -/
theorem toOption_inside (r : Reader) (old new : Range) (line : List Char) :
    (r.inside old new line).toOption = (takeLine? old new line).map r.taken := by
  have hkept : (r.inside old new []).toOption = (takeLine?.kept old new).map r.taken := by
    rw [takeLine?.kept, inside]
    cases old.take? with
    | none => rfl
    | some taken =>
        cases new.take? with
        | none => rfl
        | some taken' => rfl
  fun_cases takeLine? old new line with
  | case1 rest => rfl
  | case2 rest =>
      rw [inside]
      cases old.take? with
      | none => rfl
      | some taken => rfl
  | case3 rest =>
      rw [inside]
      cases new.take? with
      | none => rfl
      | some taken => rfl
  | case4 => exact hkept
  | case5 rest => exact hkept
  | case6 line _ _ _ _ _ =>
      simp only [inside]
      rfl

theorem inside_eq_ok_iff {r s : Reader} {old new : Range} {line : List Char} :
    r.inside old new line = .ok s ↔
      ∃ taken, takeLine? old new line = some taken ∧ r.taken taken = s := by
  rw [← Option.map_eq_some_iff, ← toOption_inside]
  cases r.inside old new line with
  | error why => simp [Except.toOption]
  | ok t => simp [Except.toOption]

theorem inside_cases {r s : Reader} {old new : Range} {line : List Char}
    (h : r.inside old new line = .ok s) :
    (takeLine? old new line = some (none, old, new) ∧ s = r) ∨
      ∃ change old' new', takeLine? old new line = some (some change, old', new') ∧
        ¬ (old.left = 0 ∧ new.left = 0) ∧
        s = (r.adjust fun t => { t with seen := change :: t.seen }).into old' new' := by
  obtain ⟨⟨change?, old', new'⟩, htake, rfl⟩ := inside_eq_ok_iff.mp h
  cases change? with
  | none =>
      obtain ⟨rfl, rfl⟩ := ranges_of_takeLine?_none htake
      exact Or.inl ⟨htake, rfl⟩
  | some change =>
      exact Or.inr ⟨change, old', new', htake, not_ended_of_takeLine? htake, rfl⟩

/-! ## All lines -/

/-- What the line with that number makes of the reader. -/
inductive Reads (r : Reader) (number : Nat) (line : List Char) : Reader → Prop where
  | opens {old new : Option String} : r.mode = .between → "diff ".toList <+: line →
      Reads r number line (r.opened old new)
  | names {path : List Char} : r.mode = .between → line = "--- ".toList ++ path →
      Reads r number line { r with mode := .afterOld number (headerPath? path) }
  | heads {above : Nat} {old : Option String} {path : List Char} : r.mode = .afterOld above old →
      line = "+++ ".toList ++ path → Reads r number line (r.headed old (headerPath? path))
  | begins {old new : Range} : r.mode = .between → ranges? line = some (old, new) →
      r.current.any Section.hasPath = true → Reads r number line (r.into old new)
  | takes {old new old' new' : Range} {change : LineChange} : r.mode = .inside old new →
      takeLine? old new line = some (some change, old', new') →
      ¬ (old.left = 0 ∧ new.left = 0) →
      Reads r number line
        ((r.adjust fun t => { t with seen := change :: t.seen }).into old' new')
  | marks {old new : Range} : r.mode = .inside old new →
      takeLine? old new line = some (none, old, new) → Reads r number line r
  | passes : r.mode = .between → startsWith "diff ".toList line = false →
      startsWith "@@".toList line = false → Reads r number line (r.extendedHeader line)

variable {r s : Reader} {number : Nat} {line : List Char}

theorem reads_of_between (hmode : r.mode = .between) (h : r.between number line = .ok s) :
    Reads r number line s := by
  rw [between] at h
  split at h
  case h_1 rest hgit =>
    split at h
    case h_1 old new hpaths =>
      cases h
      obtain rfl := Text.dropHead?_eq_some_iff.mp hgit
      exact .opens hmode ⟨"--git ".toList ++ rest, rfl⟩
    case h_2 => cases h
  case h_2 =>
    split at h
    case isTrue hdiff =>
      cases h
      exact .opens hmode (Text.startsWith_iff.mp hdiff)
    case isFalse hdiff =>
      split at h
      case h_1 path hold =>
        cases h
        exact .names hmode (Text.dropHead?_eq_some_iff.mp hold)
      case h_2 =>
        split at h
        case isTrue =>
          obtain ⟨old, new, hranges, hpath, rfl⟩ := hunkHeader_eq_ok_iff.mp h
          exact .begins hmode hranges hpath
        case isFalse hhunk =>
          split at h
          case isTrue => cases h
          case isFalse =>
            cases h
            exact .passes hmode (Bool.eq_false_iff.mpr hdiff) (Bool.eq_false_iff.mpr hhunk)

theorem reads_of_step (h : r.step number line = .ok s) : Reads r number line s := by
  rw [step] at h
  split at h
  case h_1 hmode => exact reads_of_between hmode (mapError_eq_ok_iff.mp h)
  case h_2 old new hmode =>
    rcases inside_cases (mapError_eq_ok_iff.mp h) with
      ⟨htake, rfl⟩ | ⟨change, old', new', htake, hleft, rfl⟩
    · exact .marks hmode htake
    · exact .takes hmode htake hleft
  case h_3 above old hmode =>
    split at h
    case h_1 path hnew =>
      cases h
      exact .heads hmode (Text.dropHead?_eq_some_iff.mp hnew)
    case h_2 => cases h

end Reader

end CallAtlas.Patch
