import CallAtlas.Patch
import CallAtlas.Text.Blank
import CallAtlas.Text.Digit
import CallAtlas.Proofs.Text.Lines

/-!
# Written diffs

How a diff looks that says a given patch. What the patch does not determine is
left open: the content of every line of a hunk, the text behind a hunk header,
git headers, and remarks, the lines between hunks that mean nothing. A line of
a hunk may have any content, also one that would be a header between hunks.
-/

namespace CallAtlas.Patch

open Text (startsWith closeLines)

/-- How a line starts that means something between hunks. -/
def heads : List String :=
  ["diff ", "--- ", "@@", "rename from ", "rename to ", "new file mode", "deleted file mode",
    "+", "-", " "]

/-- A line that means nothing between hunks. -/
def IsRemark (line : List Char) : Prop :=
  ∀ head ∈ heads, startsWith head.toList line = false

instance (line : List Char) : Decidable (IsRemark line) :=
  inferInstanceAs (Decidable (∀ head ∈ heads, _))

namespace Written

/-! ## Lines -/

/-- Text that stands in one line. -/
structure LineText where
  chars : List Char
  no_feed : '\n' ∉ chars

/-- A path as it stands in a header. -/
structure HeaderPath extends LineText where
  no_tab : '\t' ∉ chars
  no_blank : ∀ c, chars.getLast? = some c → Text.isBlank c = false

def HeaderPath.path (p : HeaderPath) : String :=
  String.ofList p.chars

structure Remark extends LineText where
  isRemark : IsRemark chars

/-- A line of a hunk. -/
inductive BodyLine where
  | context (content : LineText)
  | deletion (content : LineText)
  | insertion (content : LineText)
  /-- A line that only says something about the one above it. -/
  | marker (content : LineText)

namespace BodyLine

def chars : BodyLine → List Char
  | context content => ' ' :: content.chars
  | deletion content => '-' :: content.chars
  | insertion content => '+' :: content.chars
  | marker content => '\\' :: content.chars

/-- Whether the old file has the line. -/
def isOld : BodyLine → Bool
  | context _ => true
  | deletion _ => true
  | insertion _ => false
  | marker _ => false

/-- Whether the new file has the line. -/
def isNew : BodyLine → Bool
  | context _ => true
  | deletion _ => false
  | insertion _ => true
  | marker _ => false

end BodyLine

/-! ## Hunks -/

/-- What the lines of a hunk say, the first of them having these numbers. -/
def numbered (old new : Nat) : List BodyLine → List LineChange
  | [] => []
  | .context _ :: rest =>
      .context old.toUInt32 new.toUInt32 :: numbered (old + 1) (new + 1) rest
  | .deletion _ :: rest => .deletion old.toUInt32 :: numbered (old + 1) new rest
  | .insertion _ :: rest => .insertion new.toUInt32 :: numbered old (new + 1) rest
  | .marker _ :: rest => numbered old new rest

/-- A hunk with the numbers its lines start from on both sides. -/
structure Hunk where
  old : Nat
  new : Nat
  heading : LineText
  body : List BodyLine
  remarks : List Remark
  old_fits : old + body.countP BodyLine.isOld < 0x100000000
  new_fits : new + body.countP BodyLine.isNew < 0x100000000

namespace Hunk

/-- The numbers of one side: the first line and how many there are. -/
def range (start count : Nat) : List Char :=
  Text.digitsOf start ++ ',' :: Text.digitsOf count

def header (h : Hunk) : List Char :=
  "@@ -".toList ++ (range h.old (h.body.countP BodyLine.isOld) ++
    (" +".toList ++ (range h.new (h.body.countP BodyLine.isNew) ++
      (" @@".toList ++ h.heading.chars))))

def lines (h : Hunk) : List (List Char) :=
  h.header :: h.body.map (·.chars) ++ h.remarks.map (·.chars)

def changes (h : Hunk) : List LineChange :=
  numbered h.old h.new h.body

end Hunk

/-! ## Files -/

/-- The header line of git, with what it gives for the two paths. -/
def gitLine (old new : LineText) : List Char :=
  "diff --git a/".toList ++ (old.chars ++ (" b/".toList ++ new.chars))

/-- A path below the directory of its side, or what stands for no path. -/
def side (directory : String) (path : Option HeaderPath) : List Char :=
  path.elim "/dev/null".toList fun p => directory.toList ++ p.chars

theorem side_none (directory : String) : side directory none = "/dev/null".toList :=
  rfl

theorem side_some (directory : String) (p : HeaderPath) :
    side directory (some p) = directory.toList ++ p.chars :=
  rfl

def headers (old new : Option HeaderPath) : List (List Char) :=
  ["--- ".toList ++ side "a/" old, "+++ ".toList ++ side "b/" new]

structure File where
  above : List Remark
  git : Option (LineText × LineText)
  extended : List Remark
  old : Option HeaderPath
  new : Option HeaderPath
  named : old.isSome ∨ new.isSome
  below : List Remark
  hunks : List Hunk

namespace File

def head (f : File) : List (List Char) :=
  (f.git.toList.map fun (old, new) => gitLine old new) ++ f.extended.map (·.chars) ++
    headers f.old f.new

def lines (f : File) : List (List Char) :=
  f.above.map (·.chars) ++ f.head ++ f.below.map (·.chars) ++ f.hunks.flatMap Hunk.lines

def patch (f : File) : FilePatch :=
  ⟨f.old.map HeaderPath.path, f.new.map HeaderPath.path, f.hunks.flatMap Hunk.changes⟩

end File

structure Diff where
  files : List File
  closing : List Remark

namespace Diff

def lines (d : Diff) : List (List Char) :=
  d.files.flatMap File.lines ++ d.closing.map (·.chars)

def text (d : Diff) : String :=
  String.ofList (closeLines d.lines)

end Diff

/-! ## No line is broken -/

theorem no_feed_side (directory : String) (h : '\n' ∉ directory.toList)
    (path : Option HeaderPath) : '\n' ∉ side directory path := by
  cases path with
  | none =>
      rw [side_none]
      decide
  | some p =>
      rw [side_some, List.mem_append, not_or]
      exact ⟨h, p.no_feed⟩

theorem no_feed_headers (old new : Option HeaderPath) : ∀ line ∈ headers old new, '\n' ∉ line := by
  have hold := no_feed_side "a/" (by decide) old
  have hnew := no_feed_side "b/" (by decide) new
  simp [headers, hold, hnew]

theorem no_feed_gitLine (old new : LineText) : '\n' ∉ gitLine old new := by
  show '\n' ∉ "diff --git a/".toList ++ (old.chars ++ (" b/".toList ++ new.chars))
  rw [List.mem_append, List.mem_append, List.mem_append, not_or, not_or, not_or]
  exact ⟨by decide, old.no_feed, by decide, new.no_feed⟩

theorem no_feed_remarks (remarks : List Remark) :
    ∀ line ∈ remarks.map (·.chars), '\n' ∉ line :=
  List.forall_mem_map.mpr fun remark _ => remark.no_feed

theorem BodyLine.no_feed (line : BodyLine) : '\n' ∉ line.chars := by
  have hcons {c : Char} (hc : '\n' ≠ c) (content : LineText) : '\n' ∉ c :: content.chars :=
    List.not_mem_cons_of_ne_of_not_mem hc content.no_feed
  cases line with
  | context content => exact hcons (by decide) content
  | deletion content => exact hcons (by decide) content
  | insertion content => exact hcons (by decide) content
  | marker content => exact hcons (by decide) content

theorem Hunk.no_feed_range (start count : Nat) : '\n' ∉ range start count := by
  have hdigits (n : Nat) : '\n' ∉ Text.digitsOf n := fun hmem =>
    absurd (Nat.isDigit_of_mem_toDigits (by decide) (by decide) hmem) (by decide)
  rw [range, List.mem_append, List.mem_cons]
  rintro (hstart | hcomma | hcount)
  · exact hdigits start hstart
  · exact absurd hcomma (by decide)
  · exact hdigits count hcount

theorem Hunk.no_feed (h : Hunk) : ∀ line ∈ h.lines, '\n' ∉ line := by
  have hheader : '\n' ∉ h.header := by
    have hold := no_feed_range h.old (h.body.countP BodyLine.isOld)
    have hnew := no_feed_range h.new (h.body.countP BodyLine.isNew)
    simp [header, hold, hnew, h.heading.no_feed]
  rw [lines, List.forall_mem_append, List.forall_mem_cons, List.forall_mem_map]
  exact ⟨⟨hheader, fun line _ => line.no_feed⟩, no_feed_remarks h.remarks⟩

theorem File.no_feed (f : File) : ∀ line ∈ f.lines, '\n' ∉ line := by
  have hgit : ∀ line ∈ f.git.toList.map fun (old, new) => gitLine old new, '\n' ∉ line :=
    List.forall_mem_map.mpr fun paths _ => no_feed_gitLine paths.1 paths.2
  have hhead : ∀ line ∈ f.head, '\n' ∉ line := by
    rw [head, List.forall_mem_append, List.forall_mem_append]
    exact ⟨⟨hgit, no_feed_remarks f.extended⟩, no_feed_headers f.old f.new⟩
  rw [lines, List.forall_mem_append, List.forall_mem_append, List.forall_mem_append,
    List.forall_mem_flatMap]
  exact ⟨⟨⟨no_feed_remarks f.above, hhead⟩, no_feed_remarks f.below⟩, fun hunk _ => hunk.no_feed⟩

theorem Diff.no_feed (d : Diff) : ∀ line ∈ d.lines, '\n' ∉ line := by
  rw [lines, List.forall_mem_append, List.forall_mem_flatMap]
  exact ⟨fun f _ => f.no_feed, no_feed_remarks d.closing⟩

end Written

end CallAtlas.Patch
