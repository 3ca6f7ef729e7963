import CallAtlas.Proofs.Patch.Reading
import CallAtlas.Proofs.Patch.Written
import Mathlib.Data.List.DropRight
import Mathlib.Data.List.TakeWhile

/-!
# Reading what is written

A written diff is read back as the patch it says. The reader is followed from
line to line: between files all that was read is closed or complete, behind a
header of git the paths are still open, and inside a hunk the two ranges are as
long as what is left of its body.
-/

namespace CallAtlas.Patch

open Text (dropHead? startsWith splitAt? trimReturn)

/-! ## Remarks -/

theorem IsRemark.dropHead? {line : List Char} (h : IsRemark line) (head : String)
    (hhead : head ∈ heads) {long : List Char} (hlong : head.toList <+: long) :
    dropHead? long line = none := by
  rw [Option.eq_none_iff_forall_ne_some]
  intro rest hrest
  have hstarts : startsWith head.toList line :=
    Text.startsWith_iff.mpr (hlong.trans ⟨rest, (Text.dropHead?_eq_some_iff.mp hrest).symm⟩)
  rw [h head hhead] at hstarts
  cases hstarts

theorem IsRemark.trimReturn {line : List Char} (h : IsRemark line) :
    IsRemark (trimReturn line) := by
  intro head hhead
  rw [← Bool.not_eq_true, Text.startsWith_iff]
  intro hstart
  have hstarts := Text.startsWith_iff.mpr (hstart.trans (Text.trimReturn_prefix line))
  rw [h head hhead] at hstarts
  cases hstarts

theorem IsRemark.looksLikeBody {line : List Char} (h : IsRemark line) :
    Reader.looksLikeBody line = false := by
  have hhead : ∀ c : Char, String.ofList [c] ∈ heads → line.head? ≠ some c := by
    intro c hc heq
    have hnone := h.dropHead? _ hc List.prefix_rfl
    rw [String.toList_ofList] at hnone
    cases line with
    | nil => cases heq
    | cons d rest =>
        cases heq
        simp [Text.dropHead?] at hnone
  have hplus := hhead '+' (by decide)
  have hminus := hhead '-' (by decide)
  have hblank := hhead ' ' (by decide)
  unfold Reader.looksLikeBody
  split <;> simp_all

/-- A line is a remark if its first character starts nothing. -/
theorem isRemark_cons {c : Char} (h : ∀ head ∈ heads, head.toList.head?.any (· ≠ c))
    (rest : List Char) : IsRemark (c :: rest) := by
  intro head hhead
  have hfirst := h head hhead
  rw [startsWith]
  cases hlist : head.toList with
  | nil =>
      rw [hlist] at hfirst
      cases hfirst
  | cons d tail =>
      rw [hlist] at hfirst
      have hne : d ≠ c := by simpa using hfirst
      rw [Text.dropHead?, if_neg hne]
      rfl

/-- Between hunks a remark is passed. -/
theorem Reader.between_of_isRemark (r : Reader) (number : Nat) {line : List Char}
    (h : IsRemark line) : r.between number line = .ok (r.passed line) := by
  have hstarts : ∀ head ∈ heads, startsWith head.toList line = false := h
  rw [between, h.dropHead? "diff " (by decide) (by decide),
    hstarts "diff " (by decide), h.dropHead? "--- " (by decide) List.prefix_rfl,
    hstarts "@@" (by decide), h.looksLikeBody, extendedHeader,
    h.dropHead? "rename from " (by decide) List.prefix_rfl,
    h.dropHead? "rename to " (by decide) List.prefix_rfl,
    hstarts "new file mode" (by decide), hstarts "deleted file mode" (by decide)]
  simp

theorem Reader.between_gitHeader (r : Reader) (number : Nat) {rest : List Char}
    {old new : String} (h : gitPaths? rest = some (old, new)) :
    r.between number ("diff --git ".toList ++ rest) = .ok (r.opened (some old) (some new)) := by
  rw [between, Text.dropHead?_eq_some_iff.mpr rfl]
  dsimp only
  rw [h]

namespace Reader

/-! ## Where the reader stands -/

/-- Between hunks of the file that is open. -/
structure Stands (files : List FilePatch) (s : Section) (named : Bool) (r : Reader) : Prop where
  mode : r.mode = .between
  files : r.files.reverse = files
  current : r.current = some s
  named : r.named = named

/-- Between hunks, with these files once the open one is closed. -/
structure Paused (files : List FilePatch) (r : Reader) : Prop where
  mode : r.mode = .between
  closed : r.closed.reverse = files

/-- Between files: the next header opens another. -/
structure Done (files : List FilePatch) (r : Reader) : Prop extends Paused files r where
  sealed : r.named = true ∨ r.current = none

/-- Inside a hunk of the open file, or at its end. -/
structure Within (files : List FilePatch) (s : Section) (old new : Range) (r : Reader) :
    Prop where
  mode : r.mode = if old.left = 0 ∧ new.left = 0 then .between else .inside old new
  files : r.files.reverse = files
  current : r.current = some s
  named : r.named = true

theorem within_into {files : List FilePatch} {s : Section} {r : Reader}
    (hfiles : r.files.reverse = files) (hcurrent : r.current = some s) (hnamed : r.named = true)
    (old new : Range) : Within files s old new (r.into old new) := by
  rw [into]
  split
  case isTrue hend => exact ⟨(if_pos hend).symm, hfiles, hcurrent, hnamed⟩
  case isFalse hgoes => exact ⟨(if_neg hgoes).symm, hfiles, hcurrent, hnamed⟩

theorem done_start : Done [] start :=
  ⟨⟨rfl, rfl⟩, Or.inr rfl⟩

theorem Paused.finish {files : List FilePatch} {r : Reader} (h : Paused files r) (count : Nat) :
    r.finish count = .ok ⟨files⟩ := by
  rw [Reader.finish, h.mode, ← h.closed]

theorem Stands.closed {files : List FilePatch} {s : Section} {named : Bool} {r : Reader}
    (h : Stands files s named r) (hs : s.hasPath) : r.closed.reverse = files ++ [s.close] := by
  rw [Reader.closed, h.current]
  simp [hs, h.files]

theorem Stands.done {files : List FilePatch} {s : Section} {r : Reader}
    (h : Stands files s true r) (hs : s.hasPath) : Done (files ++ [s.close]) r :=
  ⟨⟨h.mode, h.closed hs⟩, Or.inl h.named⟩

/-- Whether the reader has just ended a hunk does not matter, and it is between
hunks. -/
def Calm (P : Reader → Prop) : Prop :=
  ∀ r, P r → r.mode = .between ∧ P { r with afterHunk := false }

theorem calm_stands (files : List FilePatch) (s : Section) (named : Bool) :
    Calm (Stands files s named) :=
  fun _ h => ⟨h.mode, h.mode, h.files, h.current, h.named⟩

theorem calm_done (files : List FilePatch) : Calm (Done files) :=
  fun _ h => ⟨h.mode, ⟨h.mode, h.closed⟩, h.sealed⟩

theorem Calm.leads_remark {P : Reader → Prop} (hP : Calm P) {line : List Char}
    (h : IsRemark line) : Leads P [line] P := by
  refine .single fun r hr number => ?_
  obtain ⟨hmode, hcalm⟩ := hP r hr
  refine ⟨r.passed (trimReturn line), ?_, ?_⟩
  · rw [step, hmode, r.between_of_isRemark number h.trimReturn]
    rfl
  · rw [passed]
    split
    · exact hr
    · exact hcalm

theorem Calm.leads_remarks {P : Reader → Prop} (hP : Calm P) (remarks : List Written.Remark) :
    Leads P (remarks.map (·.chars)) P := by
  induction remarks with
  | nil => exact .nil fun _ h => h
  | cons remark remarks ih => exact .cons (hP.leads_remark remark.isRemark) ih

/-! ## Headers -/

theorem leads_gitLine (files : List FilePatch) {old new : List Char} {front back : List Char}
    (h : splitAt? " b/".toList (old ++ (" b/".toList ++ trimReturn new)) = some (front, back)) :
    Leads (Paused files) ["diff --git a/".toList ++ (old ++ (" b/".toList ++ new))]
      (Stands files ⟨some (String.ofList front), some (String.ofList back), []⟩ false) := by
  refine .single fun r hr number => ?_
  have hline : trimReturn ("diff --git a/".toList ++ (old ++ (" b/".toList ++ new))) =
      "diff --git a/".toList ++ (old ++ (" b/".toList ++ trimReturn new)) := by
    rw [← List.append_assoc, ← List.append_assoc, Text.trimReturn_append, List.append_assoc,
      List.append_assoc]
    rw [List.getLast?_append_of_ne_nil _ (by decide)]
    decide
  refine ⟨r.opened (some (String.ofList front)) (some (String.ofList back)), ?_, ?_⟩
  · have hpaths : gitPaths? ("a/".toList ++ (old ++ (" b/".toList ++ trimReturn new))) =
        some (String.ofList front, String.ofList back) := by
      show (splitAt? " b/".toList (old ++ (" b/".toList ++ trimReturn new))).map _ = _
      rw [h]
      rfl
    have hhead : "diff --git a/".toList = "diff --git ".toList ++ "a/".toList := by decide
    rw [step, hr.mode, hline, hhead, List.append_assoc]
    dsimp only
    rw [r.between_gitHeader number hpaths]
    rfl
  · exact ⟨hr.mode, hr.closed, rfl, rfl⟩

end Reader

theorem isBlank_of_getLast?_side {directory : String} (h : directory = "a/" ∨ directory = "b/")
    (path : Option Written.HeaderPath) :
    ∀ c, (Written.side directory path).getLast? = some c → Text.isBlank c = false := by
  have hdirectory : directory.toList.getLast? = some '/' := by
    rcases h with rfl | rfl <;> decide
  intro c hc
  cases path with
  | none =>
      have hlast : "/dev/null".toList.getLast? = some 'l' := by decide
      rw [Written.side_none, hlast] at hc
      obtain rfl : 'l' = c := Option.some.inj hc
      decide
  | some p =>
      rw [Written.side_some, List.getLast?_append, hdirectory] at hc
      cases hlast : p.chars.getLast? with
      | none =>
          rw [hlast] at hc
          obtain rfl : '/' = c := Option.some.inj hc
          decide
      | some d =>
          rw [hlast] at hc
          obtain rfl : d = c := Option.some.inj hc
          exact p.no_blank d hlast

theorem tab_not_mem_side {directory : String} (h : directory = "a/" ∨ directory = "b/")
    (path : Option Written.HeaderPath) : '\t' ∉ Written.side directory path := by
  cases path with
  | none =>
      rw [Written.side_none]
      decide
  | some p =>
      have hdirectory : '\t' ∉ directory.toList := by
        rcases h with rfl | rfl <;> decide
      rw [Written.side_some, List.mem_append, not_or]
      exact ⟨hdirectory, p.no_tab⟩

theorem trimEnd_of_getLast? {text : List Char}
    (h : ∀ c, text.getLast? = some c → Text.isBlank c = false) : Text.trimEnd text = text := by
  refine List.rdropWhile_eq_self_iff.mpr fun hne => ?_
  rw [h _ (List.getLast?_eq_some_getLast hne)]
  decide

/-- A path of one side is read as it was written. -/
theorem headerPath?_side {directory : String} (h : directory = "a/" ∨ directory = "b/")
    (path : Option Written.HeaderPath) :
    headerPath? (Written.side directory path) = path.map Written.HeaderPath.path := by
  have htab : beforeTab (Written.side directory path) = Written.side directory path := by
    refine List.takeWhile_eq_self_iff.mpr fun c hc => ?_
    have hne : c ≠ '\t' := fun heq => tab_not_mem_side h path (heq ▸ hc)
    simpa using hne
  rw [headerPath?, htab, trimEnd_of_getLast? (isBlank_of_getLast?_side h path)]
  cases path with
  | none => rfl
  | some p => rcases h with rfl | rfl <;> rfl

theorem Written.HeaderPath.trimReturn_chars (p : Written.HeaderPath) :
    trimReturn p.chars = p.chars :=
  Text.trimReturn_of_getLast? fun hreturn => by
    have := p.no_blank _ hreturn
    revert this
    decide

theorem trimReturn_side (start : String) {directory : String}
    (h : directory = "a/" ∨ directory = "b/") (path : Option Written.HeaderPath) :
    trimReturn (start.toList ++ Written.side directory path) =
      start.toList ++ Written.side directory path := by
  have hblank := isBlank_of_getLast?_side h path
  have hne : Written.side directory path ≠ [] := by
    cases path with
    | none =>
        rw [Written.side_none]
        decide
    | some p => rcases h with rfl | rfl <;> exact List.cons_ne_nil _ _
  refine Text.trimReturn_of_getLast? fun hreturn => ?_
  rw [List.getLast?_append_of_ne_nil _ hne] at hreturn
  have := hblank _ hreturn
  revert this
  decide

namespace Reader

theorem headed_mode (r : Reader) (mode : Mode) (old new : Option String) :
    ({ r with mode } : Reader).headed old new = r.headed old new := by
  rw [headed, headed]
  dsimp only
  split <;> rfl

/-- The lines that name a file are read when the reader takes them for the file
that is open, or for another one. -/
theorem leads_headers {P Q : Reader → Prop} {old new : Option Written.HeaderPath}
    (hmode : ∀ r, P r → r.mode = .between)
    (hheaded : ∀ r, P r → Q (r.headed (old.map Written.HeaderPath.path)
      (new.map Written.HeaderPath.path))) : Leads P (Written.headers old new) Q := by
  intro r hr count
  refine ⟨r.headed (old.map Written.HeaderPath.path) (new.map Written.HeaderPath.path), ?_,
    hheaded r hr⟩
  have hold : r.step (count + 1) ("--- ".toList ++ Written.side "a/" old) =
      .ok { r with mode := .afterOld (count + 1) (old.map Written.HeaderPath.path) } := by
    rw [step, hmode r hr, ← headerPath?_side (Or.inl rfl) old]
    rfl
  have hnew : ∀ s : Reader, s.mode = .afterOld (count + 1) (old.map Written.HeaderPath.path) →
      s.step (count + 2) ("+++ ".toList ++ Written.side "b/" new) =
        .ok (s.headed (old.map Written.HeaderPath.path) (new.map Written.HeaderPath.path)) := by
    intro s hs
    rw [step, hs, ← headerPath?_side (Or.inr rfl) new]
    rfl
  rw [Written.headers, List.map_cons, List.map_singleton, trimReturn_side _ (Or.inl rfl),
    trimReturn_side _ (Or.inr rfl), feed, hold]
  show feed _ (count + 1) _ = _
  rw [feed, hnew _ rfl, headed_mode]
  rfl

/-- A file that git has opened takes its paths from these lines. -/
theorem leads_headers_of_stands (files : List FilePatch) (a b : Option String)
    (old new : Option Written.HeaderPath) :
    Leads (Stands files ⟨a, b, []⟩ false) (Written.headers old new)
      (Stands files ⟨old.map Written.HeaderPath.path, new.map Written.HeaderPath.path, []⟩
        true) := by
  refine leads_headers (fun _ hr => hr.mode) fun r hr => ?_
  have hreuse : (!r.named && r.current.any (·.seen.isEmpty)) = true := by
    rw [hr.named, hr.current]
    rfl
  rw [headed, hreuse]
  exact ⟨rfl, hr.files, congrArg (Option.map _) hr.current, rfl⟩

/-- Between files these lines open another one. -/
theorem leads_headers_of_done (files : List FilePatch) (old new : Option Written.HeaderPath) :
    Leads (Done files) (Written.headers old new)
      (Stands files ⟨old.map Written.HeaderPath.path, new.map Written.HeaderPath.path, []⟩
        true) := by
  refine leads_headers (fun _ hr => hr.mode) fun r hr => ?_
  have hreuse : (!r.named && r.current.any (·.seen.isEmpty)) = false := by
    rcases hr.sealed with hnamed | hnone
    · rw [hnamed]
      rfl
    · rw [hnone, Option.any_none, Bool.and_false]
  rw [headed, hreuse]
  exact ⟨rfl, hr.closed, rfl, rfl⟩

/-! ## Hunks -/

end Reader

/-- A range that goes on with that line and has that many. -/
structure Range.Spans (r : Range) (start count : Nat) : Prop where
  next : r.next = start.toUInt32
  left : r.left.toNat = count

theorem Range.Spans.left_eq_zero_iff {r : Range} {start count : Nat} (h : r.Spans start count) :
    r.left = 0 ↔ count = 0 := by
  rw [← h.left, ← UInt32.toNat_inj]
  rfl

theorem Range.Spans.left_ne_zero {r : Range} {start count : Nat}
    (h : r.Spans start (count + 1)) : r.left ≠ 0 := by
  rw [ne_eq, h.left_eq_zero_iff]
  exact Nat.succ_ne_zero count

theorem Range.Spans.take? {r : Range} {start count : Nat} (h : r.Spans start (count + 1)) :
    ∃ rest, r.take? = some (start.toUInt32, rest) ∧ rest.Spans (start + 1) count := by
  have hle : (1 : UInt32) ≤ r.left := by
    rw [UInt32.le_iff_toNat_le, h.left]
    exact Nat.le_add_left 1 count
  refine ⟨⟨r.next + 1, r.left - 1⟩, ?_, ?_, ?_⟩
  · rw [Range.take?, if_neg h.left_ne_zero, h.next]
  · show r.next + 1 = _
    rw [h.next]
    exact (UInt32.ofNat_add start 1).symm
  · show (r.left - 1).toNat = count
    rw [UInt32.toNat_sub_of_le _ _ hle, h.left]
    rfl

namespace Reader

/-- A line that takes its number from one or both ranges is a change of the
open file. -/
theorem leads_change (files : List FilePatch) (s : Section) {old new old' new' : Range}
    {change : LineChange} {c : Char} (content : List Char) (hc : c ≠ '\r')
    (htake : ∀ line, takeLine? old new (c :: line) = some (some change, old', new')) :
    Leads (Within files s old new) [c :: content]
      (Within files { s with seen := change :: s.seen } old' new') := by
  refine .single fun r hr number => ?_
  have hline := Text.trimReturn_cons hc content
  have hinside := inside_eq_ok_iff.mpr ⟨_, htake (trimReturn content), rfl (a := r.taken _)⟩
  refine ⟨(r.adjust fun s => { s with seen := change :: s.seen }).into old' new', ?_, ?_⟩
  · rw [step, hr.mode, if_neg (not_ended_of_takeLine? (htake content)), hline]
    show (r.inside old new (c :: trimReturn content)).mapError _ = _
    rw [hinside]
    rfl
  · have hcurrent : (r.adjust fun s => { s with seen := change :: s.seen }).current =
        some { s with seen := change :: s.seen } := by
      rw [adjust, hr.current]
      rfl
    exact within_into (r := r.adjust _) hr.files hcurrent hr.named old' new'

/-- The change stands in front of those of the lines behind. -/
theorem leads_change_cons (files : List FilePatch) (s : Section) {old new old' new' : Range}
    {change : LineChange} {changes : List LineChange} {c : Char} {content : List Char}
    {lines : List (List Char)} (hc : c ≠ '\r')
    (htake : ∀ line, takeLine? old new (c :: line) = some (some change, old', new'))
    (hrest : Leads (Within files { s with seen := change :: s.seen } old' new') lines
      (Stands files { s with seen := changes.reverse ++ change :: s.seen } true)) :
    Leads (Within files s old new) ((c :: content) :: lines)
      (Stands files { s with seen := (change :: changes).reverse ++ s.seen } true) := by
  rw [List.reverse_cons, List.append_assoc, List.singleton_append]
  exact .cons (leads_change files s content hc htake) hrest

theorem leads_marker (files : List FilePatch) (s : Section) (old new : Range)
    (content : List Char) :
    Leads (Within files s old new) ['\\' :: content] (Within files s old new) := by
  refine .single fun r hr number => ⟨r, ?_, hr⟩
  have hline : trimReturn ('\\' :: content) = '\\' :: trimReturn content :=
    Text.trimReturn_cons (by decide) content
  have hremark : IsRemark ('\\' :: trimReturn content) := isRemark_cons (by decide) _
  rw [step, hr.mode, hline]
  by_cases hend : old.left = 0 ∧ new.left = 0
  · rw [if_pos hend]
    show (r.between number ('\\' :: trimReturn content)).mapError _ = _
    rw [r.between_of_isRemark number hremark]
    rfl
  · rw [if_neg hend]
    rfl

theorem leads_body (files : List FilePatch) (body : List Written.BodyLine) (s : Section)
    (old new : Range) (first second : Nat)
    (hold : old.Spans first (body.countP Written.BodyLine.isOld))
    (hnew : new.Spans second (body.countP Written.BodyLine.isNew)) :
    Leads (Within files s old new) (body.map (·.chars))
      (Stands files { s with seen := (Written.numbered first second body).reverse ++ s.seen }
        true) := by
  -- a line is taken from the range of each side that has it, so that both ranges
  -- are used up with the last line and not before
  induction body generalizing s old new first second with
  | nil =>
      refine .nil fun r hr => ⟨?_, hr.files, hr.current, hr.named⟩
      rw [hr.mode, if_pos ⟨hold.left_eq_zero_iff.mpr rfl, hnew.left_eq_zero_iff.mpr rfl⟩]
  | cons line body ih =>
      cases line with
      | context content =>
          rw [List.countP_cons_of_pos rfl] at hold hnew
          obtain ⟨old', htake, hold'⟩ := hold.take?
          obtain ⟨new', htake', hnew'⟩ := hnew.take?
          refine leads_change_cons files s (by decide) (fun line => ?_) (ih _ _ _ _ _ hold' hnew')
          rw [takeLine?, takeLine?.kept, htake, htake']
          rfl
      | deletion content =>
          rw [List.countP_cons_of_pos rfl] at hold
          rw [List.countP_cons_of_neg Bool.false_ne_true] at hnew
          obtain ⟨old', htake, hold'⟩ := hold.take?
          refine leads_change_cons files s (by decide) (fun line => ?_) (ih _ _ _ _ _ hold' hnew)
          rw [takeLine?, htake]
          rfl
      | insertion content =>
          rw [List.countP_cons_of_neg Bool.false_ne_true] at hold
          rw [List.countP_cons_of_pos rfl] at hnew
          obtain ⟨new', htake, hnew'⟩ := hnew.take?
          refine leads_change_cons files s (by decide) (fun line => ?_) (ih _ _ _ _ _ hold hnew')
          rw [takeLine?, htake]
          rfl
      | marker content =>
          exact .cons (leads_marker files s old new content.chars) (ih s old new _ _ hold hnew)

end Reader

/-! ## Hunk headers -/

theorem isDigit_of_isDigit {c : Char} (h : c.isDigit = true) : Text.isDigit c = true := by
  obtain ⟨hzero, hnine⟩ := Char.isDigit_iff_toNat.mp h
  have hlow : 0x30 ≤ c.toNat := hzero
  have hhigh : c.toNat < 0x30 + 10 := Nat.lt_succ_of_le hnine
  rw [Text.isDigit, Text.digitZeros, List.any_cons, decide_eq_true hlow, decide_eq_true hhigh]
  rfl

theorem scanDigits?_digitsOf (n : Nat) {rest : List Char}
    (hrest : ∀ c ∈ rest.head?, Text.isDigit c = false) :
    scanDigits? (Text.digitsOf n ++ rest) = some (Text.digitsOf n, rest) := by
  have hdigits : ∀ c ∈ Text.digitsOf n, Text.isDigit c = true := fun c hc =>
    isDigit_of_isDigit (Nat.isDigit_of_mem_toDigits (by decide) (by decide) hc)
  have htake : rest.takeWhile Text.isDigit = [] := by
    cases rest with
    | nil => rfl
    | cons c rest => exact List.takeWhile_cons_of_neg (by simp [hrest c rfl])
  have hdrop : rest.dropWhile Text.isDigit = rest := by
    cases rest with
    | nil => rfl
    | cons c rest => exact List.dropWhile_cons_of_neg (by simp [hrest c rfl])
  rw [scanDigits?, List.takeWhile_append_of_pos hdigits, List.dropWhile_append_of_pos hdigits,
    htake, hdrop, List.append_nil]
  cases hempty : Text.digitsOf n with
  | nil => exact absurd hempty Nat.toDigits_ne_nil
  | cons c digits => rfl

theorem wordOfDigits?_digitsOf {n : Nat} (h : n < 0x100000000) :
    Text.wordOfDigits? (Text.digitsOf n) = some n.toUInt32 := by
  rw [Text.wordOfDigits?, Text.natOfDigits?_digitsOf]
  exact if_pos h

theorem scanRange?_range (start count : Nat) {rest : List Char}
    (hrest : ∀ c ∈ rest.head?, Text.isDigit c = false) :
    scanRange? (Written.Hunk.range start count ++ rest) =
      some (⟨Text.digitsOf start, some (Text.digitsOf count)⟩, rest) := by
  have hcomma : ∀ c ∈ (',' :: (Text.digitsOf count ++ rest)).head?, Text.isDigit c = false := by
    intro c hc
    obtain rfl : ',' = c := Option.some.inj hc
    decide
  rw [Written.Hunk.range, List.append_assoc, List.cons_append, scanRange?,
    scanDigits?_digitsOf start hcomma]
  show (scanDigits? (Text.digitsOf count ++ rest)).bind (fun scanned =>
    some (RangeText.mk (Text.digitsOf start) (some scanned.1), scanned.2)) = _
  rw [scanDigits?_digitsOf count hrest]
  rfl

theorem toNat_toUInt32 {n : Nat} (h : n < 0x100000000) : n.toUInt32.toNat = n :=
  UInt32.toNat_ofNat_of_lt' h

theorem range?_of_digits {start count : Nat} (h : start + count < 0x100000000) :
    RangeText.range? ⟨Text.digitsOf start, some (Text.digitsOf count)⟩ =
      some ⟨start.toUInt32, count.toUInt32⟩ := by
  have hbounds : Range.inBounds ⟨start.toUInt32, count.toUInt32⟩ = true := by
    rw [Range.inBounds, toNat_toUInt32 (Nat.lt_of_le_of_lt (Nat.le_add_right ..) h),
      toNat_toUInt32 (Nat.lt_of_le_of_lt (Nat.le_add_left ..) h)]
    exact decide_eq_true h
  rw [RangeText.range?]
  dsimp only
  rw [wordOfDigits?_digitsOf (by omega), wordOfDigits?_digitsOf (by omega)]
  show (if Range.inBounds ⟨start.toUInt32, count.toUInt32⟩ then _ else _) = _
  rw [if_pos hbounds]

theorem spans_toUInt32 {start count : Nat} (h : start + count < 0x100000000) :
    Range.Spans ⟨start.toUInt32, count.toUInt32⟩ start count :=
  ⟨rfl, toNat_toUInt32 (Nat.lt_of_le_of_lt (Nat.le_add_left ..) h)⟩

namespace Written.Hunk

theorem trimReturn_header (h : Hunk) :
    trimReturn h.header =
      "@@ -".toList ++ (range h.old (h.body.countP BodyLine.isOld) ++
        (" +".toList ++ (range h.new (h.body.countP BodyLine.isNew) ++
          (" @@".toList ++ trimReturn h.heading.chars)))) := by
  have hlast (front : List Char) : (front ++ " @@".toList).getLast? ≠ some '\r' := by
    rw [List.getLast?_append_of_ne_nil _ (by decide)]
    decide
  simp only [header, ← List.append_assoc]
  exact Text.trimReturn_append (hlast _) h.heading.chars

theorem scanHunk?_header (h : Hunk) :
    scanHunk? (trimReturn h.header) =
      some (⟨Text.digitsOf h.old, some (Text.digitsOf (h.body.countP BodyLine.isOld))⟩,
        ⟨Text.digitsOf h.new, some (Text.digitsOf (h.body.countP BodyLine.isNew))⟩) := by
  have hblank (rest : List Char) : ∀ c ∈ (' ' :: rest).head?, Text.isDigit c = false := by
    intro c hc
    obtain rfl : ' ' = c := Option.some.inj hc
    decide
  have hscan (start count : Nat) (head : List Char) (rest : List Char) :
      scanRange? (range start count ++ (' ' :: head ++ rest)) =
        some (⟨Text.digitsOf start, some (Text.digitsOf count)⟩, ' ' :: head ++ rest) :=
    scanRange?_range start count (hblank _)
  have hdrop (head rest : List Char) : dropHead? head (head ++ rest) = some rest :=
    Text.dropHead?_eq_some_iff.mpr rfl
  have hplus : " +".toList = ' ' :: ['+'] := rfl
  have hat : " @@".toList = ' ' :: ['@', '@'] := rfl
  simp only [h.trimReturn_header, scanHunk?, hdrop, hplus, hat, hscan, Option.bind_eq_bind,
    Option.bind_some, Option.pure_def]

end Written.Hunk

namespace Reader

theorem leads_hunkHeader (files : List FilePatch) {s : Section} (hs : s.hasPath)
    (h : Written.Hunk) :
    Leads (Stands files s true) [h.header]
      (Within files s ⟨h.old.toUInt32, (h.body.countP Written.BodyLine.isOld).toUInt32⟩
        ⟨h.new.toUInt32, (h.body.countP Written.BodyLine.isNew).toUInt32⟩) := by
  refine .single fun r hr number => ?_
  refine ⟨r.into ⟨h.old.toUInt32, (h.body.countP Written.BodyLine.isOld).toUInt32⟩
    ⟨h.new.toUInt32, (h.body.countP Written.BodyLine.isNew).toUInt32⟩, ?_, ?_⟩
  · have hopens : r.between number (trimReturn h.header) = r.hunkHeader (trimReturn h.header) := by
      rw [h.trimReturn_header]
      rfl
    rw [step, hr.mode]
    show (r.between number (trimReturn h.header)).mapError _ = _
    rw [hopens, hunkHeader, h.scanHunk?_header]
    dsimp only
    rw [range?_of_digits h.old_fits, range?_of_digits h.new_fits, hr.current]
    show (if s.hasPath then Except.ok _ else Except.error _ : Except Reason Reader).mapError _ = _
    rw [if_pos hs]
    rfl
  · exact within_into hr.files hr.current hr.named _ _

theorem leads_hunk (files : List FilePatch) {s : Section} (hs : s.hasPath) (h : Written.Hunk) :
    Leads (Stands files s true) h.lines
      (Stands files { s with seen := h.changes.reverse ++ s.seen } true) :=
  have hbody := leads_body files h.body s _ _ h.old h.new (spans_toUInt32 h.old_fits)
    (spans_toUInt32 h.new_fits)
  .append (.cons (leads_hunkHeader files hs h) hbody) ((calm_stands _ _ _).leads_remarks h.remarks)

/-- The hunks of a file add their changes one after the other. -/
theorem leads_hunks (files : List FilePatch) {s : Section} (hs : s.hasPath)
    (hunks : List Written.Hunk) (hseen : s.seen = []) :
    Leads (Stands files s true) (hunks.flatMap Written.Hunk.lines)
      (Stands files { s with seen := (hunks.flatMap Written.Hunk.changes).reverse } true) := by
  have hnext (done : List Written.Hunk) (h : Written.Hunk) :
      Leads (Stands files { s with seen := (done.flatMap Written.Hunk.changes).reverse } true)
        h.lines (Stands files
          { s with seen := ((done ++ [h]).flatMap Written.Hunk.changes).reverse } true) := by
    rw [List.flatMap_append, List.flatMap_singleton, List.reverse_append]
    exact leads_hunk files (s := { s with seen := (done.flatMap _).reverse }) hs h
  have hall := Leads.flatMap hnext hunks []
  have hstart : { s with seen := ([] : List LineChange) } = s := by
    rw [← hseen]
  rw [List.nil_append, List.flatMap_nil, List.reverse_nil, hstart] at hall
  exact hall

end Reader

/-! ## Files -/

namespace Written.File

/-- The file as it is open before its hunks are read. -/
def opening (f : File) : Section :=
  ⟨f.old.map HeaderPath.path, f.new.map HeaderPath.path, []⟩

theorem hasPath_opening (f : File) : f.opening.hasPath := by
  rw [Section.hasPath, opening, Option.isSome_map, Option.isSome_map, Bool.or_eq_true]
  exact f.named

end Written.File

namespace Reader

/-- A file is open with its paths, whether git has a header for it or not. -/
theorem leads_head (files : List FilePatch) (f : Written.File) :
    Leads (Done files) f.head (Stands files f.opening true) := by
  rw [Written.File.head]
  cases f.git with
  | none =>
      exact .append ((calm_done files).leads_remarks f.extended)
        (leads_headers_of_done files f.old f.new)
  | some paths =>
      obtain ⟨before, after, hsplit⟩ :=
        Text.exists_splitAt? " b/".toList paths.1.chars (trimReturn paths.2.chars)
      have hgit : Leads (Done files) [Written.gitLine paths.1 paths.2] _ :=
        (leads_gitLine files hsplit).strengthen fun _ h => h.toPaused
      exact .append (.append hgit ((calm_stands _ _ _).leads_remarks f.extended))
        (leads_headers_of_stands files _ _ f.old f.new)

theorem leads_file (files : List FilePatch) (f : Written.File) :
    Leads (Done files) f.lines (Done (files ++ [f.patch])) := by
  have habove := (calm_done files).leads_remarks f.above
  have hbelow := (calm_stands files f.opening true).leads_remarks f.below
  have hhunks := leads_hunks files f.hasPath_opening f.hunks rfl
  have hlines := ((habove.append (leads_head files f)).append hbelow).append hhunks
  refine hlines.weaken fun r hr => ?_
  have hclose := hr.done f.hasPath_opening
  rwa [Section.close, List.reverse_reverse] at hclose

end Reader

/-! ## Diffs -/

/-- A diff that is written from a list of files is read as these files, every
line of a hunk with its numbers. -/
theorem parse_written (d : Written.Diff) : parse d.text = .ok ⟨d.files.map Written.File.patch⟩ := by
  have hfiles := Reader.Leads.flatMap (P := fun done => Reader.Done (done.map Written.File.patch))
    (fun done f => by
      rw [List.map_append, List.map_singleton]
      exact Reader.leads_file _ f) d.files []
  have hlines := hfiles.append ((Reader.calm_done _).leads_remarks d.closing)
  obtain ⟨r, hfeed, hdone⟩ := hlines Reader.start Reader.done_start 0
  rw [parse, Written.Diff.text, String.toList_ofList, Text.lines_closeLines d.no_feed,
    Reader.run_eq_feed, Written.Diff.lines, hfeed]
  exact hdone.finish _

/-- The deleted line would be a header anywhere else. -/
example : parse "--- a/a.c\n+++ /dev/null\n@@ -1,1 +0,0 @@\n--- b/b.c\n" =
    .ok ⟨[⟨some "a.c", none, [.deletion 1]⟩]⟩ := by
  rfl

end CallAtlas.Patch
