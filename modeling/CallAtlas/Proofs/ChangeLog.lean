import CallAtlas.ChangeLog
import CallAtlas.Proofs.Change.Entries
import CallAtlas.Proofs.Json.Decode
import CallAtlas.Proofs.Text.Lines

/-!
# The round trip of a change log

The reports that have been added to a log, one line each, are read back from it in
their order. No line breaks inside, since no control character is written as it
is. The paths of a change set ascend, so none is lost among the members of an
object.
-/

namespace CallAtlas

open Json (Value Decoder)

/-! ## Change sets in order -/

namespace ChangeSet

theorem setEntry_eq_append {path : String} {changes : FileChanges}
    {entries : List (String × FileChanges)} (h : ∀ entry ∈ entries, compare entry.1 path = .lt) :
    setEntry path changes entries = entries ++ [(path, changes)] := by
  induction entries with
  | nil => rfl
  | cons entry rest ih =>
      obtain ⟨p, c⟩ := entry
      have hgt : compare path p = .gt := Std.OrientedCmp.gt_of_lt (h (p, c) List.mem_cons_self)
      rw [setEntry, hgt]
      show (p, c) :: setEntry path changes rest = _
      rw [ih fun entry hentry => h entry (List.mem_cons_of_mem _ hentry)]
      rfl

theorem ofMembers_entries {s : ChangeSet} (h : s.Ordered) : ofMembers s.entries = s := by
  have hfold : ∀ seen entries : List (String × FileChanges),
      Ascending ((seen ++ entries).map (·.1)) →
      entries.foldl (fun entries entry => setEntry entry.1 entry.2 entries) seen =
        seen ++ entries := by
    intro seen entries
    induction entries generalizing seen with
    | nil => simp
    | cons entry rest ih =>
        intro hascending
        obtain ⟨path, changes⟩ := entry
        have hbehind : ∀ other ∈ seen, compare other.1 path = .lt := by
          rw [List.map_append] at hascending
          intro other hother
          exact (List.pairwise_append.mp hascending).2.2 _ (List.mem_map_of_mem hother) _
            List.mem_cons_self
        rw [List.foldl_cons]
        dsimp only
        rw [setEntry_eq_append hbehind, ih, List.append_assoc]
        · rfl
        · rwa [List.append_assoc]
  exact congrArg ChangeSet.mk (hfold [] s.entries h)

end ChangeSet

/-! ## Reports -/

theorem FunctionChange.fits_toValue (c : FunctionChange) : c.toValue.Fits 1 := by
  refine .array fun value hvalue => ?_
  simp only [List.mem_cons, List.not_mem_nil, or_false] at hvalue
  rcases hvalue with rfl | rfl | rfl
  · exact .text
  · exact .natural (Nat.lt_trans c.lines.first.toNat_lt (by decide))
  · exact .natural (Nat.lt_trans c.lines.last.toNat_lt (by decide))

theorem FunctionChange.decode_toValue (c : FunctionChange) (room : Nat) :
    FunctionChange.decode (room + 1) c.toValue.node = .ok c := by
  have hsignature : Signature.decode room c.signature.toValue.node = .ok c.signature := rfl
  refine Decoder.tuple_node ?_
  simp only [Value.nodes]
  rw [Decoder.Row.bind_of_eq_ok (Decoder.Row.next_cons hsignature _),
    Decoder.Row.bind_of_eq_ok (Decoder.Row.next_cons (Decoder.word_node c.lines.first _) _),
    Decoder.Row.bind_of_eq_ok (Decoder.Row.next_cons (Decoder.word_node c.lines.last _) _)]
  rfl

namespace FileChanges

theorem fits_list (l : List FunctionChange) :
    (Value.array (l.map FunctionChange.toValue)).Fits 2 := by
  refine .array fun value hvalue => ?_
  obtain ⟨c, _, rfl⟩ := List.mem_map.mp hvalue
  exact c.fits_toValue

theorem fits_toValue (c : FileChanges) : c.toValue.Fits 3 := by
  refine .object fun member hmember => ?_
  simp only [List.mem_cons, List.not_mem_nil, or_false] at hmember
  rcases hmember with rfl | rfl | rfl
  · exact fits_list c.added
  · exact fits_list c.removed
  · exact fits_list c.modified

theorem decode_list (l : List FunctionChange) (room : Nat) :
    Decoder.list FunctionChange.decode (room + 2)
      (Value.array (l.map FunctionChange.toValue)).node = .ok l :=
  Decoder.list_node fun c _ => c.decode_toValue room

theorem decode_toValue (c : FileChanges) (room : Nat) :
    FileChanges.decode (room + 3) c.toValue.node = .ok c := by
  have hmembers : Decoder.members FileChanges.fields (room + 2) .closed ⟨none, none, none⟩
      (Value.memberNodes [
        ("added", .array (c.added.map FunctionChange.toValue)),
        ("removed", .array (c.removed.map FunctionChange.toValue)),
        ("modified", .array (c.modified.map FunctionChange.toValue))]) =
      .ok ⟨some c.added, some c.removed, some c.modified⟩ := by
    simp only [Value.memberNodes, Value.memberNode]
    rw [Decoder.members_cons rfl rfl (Decoder.map_of_eq_ok _ (decode_list c.added room)),
      Decoder.members_cons rfl rfl (Decoder.map_of_eq_ok _ (decode_list c.removed room)),
      Decoder.members_cons rfl rfl (Decoder.map_of_eq_ok _ (decode_list c.modified room))]
    rfl
  show (Decoder.members _ _ _ _ _ >>= _) = _
  rw [hmembers]
  rfl

end FileChanges

namespace ChangeSet

theorem fits_toValue (s : ChangeSet) : s.toValue.Fits 4 := by
  refine .object fun member hmember => ?_
  obtain ⟨entry, _, rfl⟩ := List.mem_map.mp hmember
  exact entry.2.fits_toValue

theorem decode_toValue {s : ChangeSet} (h : s.Ordered) (room : Nat) :
    ChangeSet.decode (room + 4) s.toValue.node = .ok s := by
  have hentries : Decoder.dictionary FileChanges.decode (room + 4) s.toValue.node = .ok s.entries :=
    Decoder.dictionary_node fun entry _ => entry.2.decode_toValue room
  rw [decode, Decoder.map_of_eq_ok ofMembers hentries, ofMembers_entries h]

end ChangeSet

namespace Report

theorem fits_toValue (r : Report) : r.toValue.Fits 5 := by
  refine .object fun member hmember => ?_
  simp only [List.mem_cons, List.not_mem_nil, or_false] at hmember
  rcases hmember with rfl | rfl | rfl | rfl
  · exact .text
  · exact .text
  · exact .text
  · exact r.changes.fits_toValue

theorem decode_toValue {r : Report} (h : r.changes.Ordered) (room : Nat) :
    Report.decode (room + 5) r.toValue.node = .ok r := by
  have htext : ∀ (content : String) (f : String → SomeFields),
      (Decoder.text.map f) (room + 4) (Value.text content).node = .ok (f content) :=
    fun _ _ => rfl
  have hmembers : Decoder.members Report.fields (room + 4) .closed ⟨none, none, none, none⟩
      (Value.memberNodes [
        ("revision", .text r.revision),
        ("author", .text r.author),
        ("description", .text r.description),
        ("changes", r.changes.toValue)]) =
      .ok ⟨some r.revision, some r.author, some r.description, some r.changes⟩ := by
    simp only [Value.memberNodes, Value.memberNode]
    rw [Decoder.members_cons rfl rfl (htext r.revision fun revision =>
        ⟨some revision, none, none, none⟩),
      Decoder.members_cons rfl rfl (htext r.author fun author =>
        ⟨some r.revision, some author, none, none⟩),
      Decoder.members_cons rfl rfl (htext r.description fun description =>
        ⟨some r.revision, some r.author, some description, none⟩),
      Decoder.members_cons rfl rfl (Decoder.map_of_eq_ok _ (ChangeSet.decode_toValue h room))]
    rfl
  show (Decoder.members _ _ _ _ _ >>= _) = _
  rw [hmembers]
  rfl

theorem read_render {r : Report} (h : r.changes.Ordered) :
    Json.read Report.decode r.toValue.render = .ok r :=
  Json.read_render (r.fits_toValue.mono (by decide)) (decode_toValue h 122)

theorem toList_line (r : Report) : r.line.toList = r.toValue.chars ++ ['\n'] := by
  rw [line, String.toList_append, Value.render, String.toList_ofList]
  rfl

theorem le_toNat_of_mem_chars (r : Report) : ∀ c ∈ r.toValue.chars, 0x20 ≤ c.toNat :=
  fun _ hc => r.fits_toValue.le_toNat_of_mem_chars hc

end Report

/-! ## Logs -/

namespace ChangeLog

/-- The text of a log to which these reports have been added. -/
def textOf (reports : List Report) : String :=
  String.join (reports.map Report.line)

theorem textOf_append_singleton (reports : List Report) (r : Report) :
    textOf (reports ++ [r]) = textOf reports ++ r.line := by
  rw [textOf, List.map_append, String.join_append, textOf, List.map_singleton, String.join_cons,
    String.join_nil, String.append_empty]

theorem lines_textOf (reports : List Report) :
    Text.lines (textOf reports).toList = reports.map (·.toValue.chars) := by
  induction reports with
  | nil => rfl
  | cons r reports ih =>
      have htext : (textOf (r :: reports)).toList =
          r.toValue.chars ++ '\n' :: (textOf reports).toList := by
        rw [textOf, List.map_cons, String.join_cons, String.toList_append, r.toList_line,
          List.append_assoc]
        rfl
      rw [htext, Text.lines_append r.le_toNat_of_mem_chars, ih, List.map_cons]

/-- A report is written as an object, so its line is not blank. -/
theorem allBlank_chars (r : Report) : Text.allBlank r.toValue.chars = false :=
  rfl

theorem read_textOf {reports : List Report} (h : ∀ r ∈ reports, r.changes.Ordered) :
    read (textOf reports) = .ok reports := by
  have hkept : (reports.map (·.toValue.chars)).filter (fun line => !Text.allBlank line) =
      reports.map (·.toValue.chars) := by
    refine List.filter_eq_self.mpr fun line hline => ?_
    obtain ⟨r, _, rfl⟩ := List.mem_map.mp hline
    rw [allBlank_chars]
    rfl
  rw [read, lines_textOf, hkept]
  clear hkept
  induction reports with
  | nil => rfl
  | cons r reports ih =>
      have hread : Json.read Report.decode (String.ofList r.toValue.chars) = .ok r :=
        Report.read_render (h r List.mem_cons_self)
      rw [List.map_cons, List.mapM_cons, hread, ih fun other hother =>
        h other (List.mem_cons_of_mem _ hother)]
      rfl

end ChangeLog

end CallAtlas
