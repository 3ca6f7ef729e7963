import CallAtlas.Proofs.Extraction.Assembly
import CallAtlas.Proofs.Json.Decode
import CallAtlas.Proofs.Key.Text
import CallAtlas.Proofs.Snapshot.Constructed

/-!
# The round trip of a snapshot

A snapshot is read back from its text as it was. Keys and the index are not
written: they are made anew from what is, so nothing is lost. The alternatives
of the format do not get into each other's way, since no text is an array and
no number is a record.
-/

namespace CallAtlas

open Json (Value Decoder)

/-! ## Keys and edges -/

theorem Key.decode_toValue (k : Key) (room : Nat) : Key.decode room k.toValue.node = .ok k := by
  rw [Key.decode, Key.toValue]
  apply Decoder.ofText_node
  rw [Key.parse_text]
  rfl

theorem Key.fits_toValue (k : Key) (room : Nat) : k.toValue.Fits room :=
  .text

theorem Signature.decode_toValue (s : Signature) (room : Nat) :
    Signature.decode room s.toValue.node = .ok s :=
  rfl

theorem Callee.fits_toValue (c : Callee) : c.toValue.Fits 1 := by
  cases c with
  | single key => exact key.fits_toValue 1
  | candidates keys =>
      refine .array fun value hvalue => ?_
      obtain ⟨key, _, rfl⟩ := List.mem_map.mp hvalue
      exact key.fits_toValue 0

theorem Callee.decode_toValue (c : Callee) (room : Nat) :
    Callee.decode (room + 1) c.toValue.node = .ok c := by
  refine Decoder.whole_node (c.fits_toValue.mono (by omega)) ?_
  cases c with
  | single key =>
      exact Decoder.either_left (Decoder.map_of_eq_ok single (key.decode_toValue (room + 1)))
  | candidates keys =>
      have htext : (Key.decode.map single) (room + 1) (candidates keys).toValue.node =
          .error .mismatched := rfl
      rw [Decoder.either_right htext]
      exact Decoder.map_of_eq_ok candidates
        (Decoder.list_node fun key _ => key.decode_toValue room)

theorem Edge.fits_toValue (e : Edge) : e.toValue.Fits 2 := by
  refine .array fun value hvalue => ?_
  simp only [List.mem_cons, List.not_mem_nil, or_false] at hvalue
  rcases hvalue with rfl | rfl | rfl
  · exact e.callee.fits_toValue
  · exact .natural (Nat.lt_trans e.line.toNat_lt (by decide))
  · exact .natural (Nat.lt_trans e.col.toNat_lt (by decide))

theorem Edge.decode_toValue (e : Edge) (room : Nat) :
    Edge.decode (room + 2) e.toValue.node = .ok e := by
  refine Decoder.tuple_node ?_
  simp only [Value.nodes]
  rw [Decoder.Row.bind_of_eq_ok (Decoder.Row.next_cons (e.callee.decode_toValue room) _),
    Decoder.Row.bind_of_eq_ok (Decoder.Row.next_cons (Decoder.word_node e.line _) _),
    Decoder.Row.bind_of_eq_ok (Decoder.Row.next_cons (Decoder.word_node e.col _) _)]
  rfl

/-! ## Records -/

theorem Body.fits_toValue {b : Body} (hfile : b.file < 0x10000000000000000) :
    b.toValue.Fits 4 := by
  refine .array fun value hvalue => ?_
  simp only [List.mem_cons, List.not_mem_nil, or_false] at hvalue
  rcases hvalue with rfl | rfl | rfl | rfl | rfl
  · exact .natural hfile
  · exact .text
  · exact .natural (Nat.lt_trans b.lines.first.toNat_lt (by decide))
  · exact .natural (Nat.lt_trans b.lines.last.toNat_lt (by decide))
  · refine .array fun edge hedge => ?_
    obtain ⟨e, _, rfl⟩ := List.mem_map.mp hedge
    exact e.fits_toValue

theorem Body.decode_toValue {b : Body} (hfile : b.file < 0x10000000000000000) (room : Nat) :
    Body.decode (room + 4) b.toValue.node = .ok b := by
  have hcallees : Decoder.list Edge.decode (room + 3)
      (Value.array (b.callees.map Edge.toValue)).node = .ok b.callees :=
    Decoder.list_node fun e _ => e.decode_toValue room
  refine Decoder.tuple_node ?_
  simp only [Value.nodes]
  rw [Decoder.Row.bind_of_eq_ok (Decoder.Row.next_cons (Decoder.natural_node hfile _) _),
    Decoder.Row.bind_of_eq_ok (Decoder.Row.next_cons (Signature.decode_toValue b.signature _) _),
    Decoder.Row.bind_of_eq_ok (Decoder.Row.next_cons (Decoder.word_node b.lines.first _) _),
    Decoder.Row.bind_of_eq_ok (Decoder.Row.next_cons (Decoder.word_node b.lines.last _) _),
    Decoder.Row.bind_of_eq_ok (Decoder.Row.next_cons hcallees _)]
  rfl

namespace Snapshot

def Entry.toValue : Entry → Value
  | .number n => .natural n
  | .body b => b.toValue

theorem Entry.decode_number {n : Nat} (hn : n < 256) (room : Nat) :
    Entry.decode room (Entry.number n).toValue.node = .ok (.number n) := by
  refine Decoder.whole_node (.natural (by omega)) ?_
  exact Decoder.either_left (Decoder.map_of_eq_ok Entry.number (Decoder.natural_node hn room))

theorem Entry.decode_body {b : Body} (hfile : b.file < 0x10000000000000000) (room : Nat) :
    Entry.decode (room + 4) (Entry.body b).toValue.node = .ok (.body b) := by
  have hnumber : ((Decoder.natural 256).map Entry.number) (room + 4) b.toValue.node =
      .error .mismatched := rfl
  refine Decoder.whole_node ((b.fits_toValue hfile).mono (by omega)) ?_
  rw [Entry.toValue, Decoder.either_right hnumber]
  exact Decoder.map_of_eq_ok Entry.body (Body.decode_toValue hfile room)

/-! ## Snapshots -/

/-- The parts that a snapshot is written as. -/
def parts (s : Snapshot) : Parts :=
  ⟨s.files, .number 0 :: s.bodies.map .body, s.revision⟩

theorem bodiesFrom_map_body (place : Nat) (bodies : List Body) :
    bodiesFrom place (bodies.map .body) = .ok bodies := by
  induction bodies generalizing place with
  | nil => rfl
  | cons b bodies ih =>
      rw [List.map_cons, bodiesFrom, ih]
      rfl

/-- Nothing but the parts is needed to have the snapshot again. -/
theorem ofParts_parts {s : Snapshot} (hs : s.WellFormed) : ofParts s.parts = .ok s := by
  rw [ofParts, parts, bodiesOf, bodiesFrom_map_body]
  exact build_eq_ok_iff.mpr ⟨hs, rfl, rfl, rfl⟩

/-- No entry is left out, and none is changed. -/
theorem eq_map_body_of_bodiesFrom {place : Nat} {entries : List Entry} {bodies : List Body}
    (h : bodiesFrom place entries = .ok bodies) : entries = bodies.map .body := by
  induction entries generalizing place bodies with
  | nil =>
      cases h
      rfl
  | cons entry rest ih =>
      cases entry with
      | number n => cases h
      | body b =>
          obtain ⟨others, hothers, rfl⟩ := map_eq_ok_iff.mp h
          rw [List.map_cons, ih hothers]

theorem eq_cons_of_bodiesOf {entries : List Entry} {bodies : List Body}
    (h : bodiesOf entries = .ok bodies) : entries = .number 0 :: bodies.map .body := by
  rw [bodiesOf.eq_def] at h
  split at h
  case h_1 rest => rw [eq_map_body_of_bodiesFrom h]
  case h_2 => cases h

/-- Parts are taken as they are, or not at all. -/
theorem ofParts_eq_ok_iff {p : Parts} {s : Snapshot} :
    ofParts p = .ok s ↔ s.WellFormed ∧ s.parts = p := by
  constructor
  · intro h
    obtain ⟨bodies, hbodies, hbuild⟩ := bind_eq_ok_iff.mp h
    obtain ⟨hs, hfiles, rfl, hrevision⟩ := build_eq_ok_iff.mp hbuild
    refine ⟨hs, ?_⟩
    rw [parts, hfiles, hrevision, ← eq_cons_of_bodiesOf hbodies]
  · rintro ⟨hs, rfl⟩
    exact ofParts_parts hs

theorem ofJson_eq_ok_iff {text : String} {s : Snapshot} :
    ofJson text = .ok s ↔ s.WellFormed ∧ Json.read Parts.decode text = .ok s.parts := by
  rw [ofJson]
  cases Json.read Parts.decode text with
  | error fault => simp
  | ok parts =>
      rw [mapError_eq_ok_iff, ofParts_eq_ok_iff, Except.ok.injEq, eq_comm (b := parts)]

section

variable {s : Snapshot} (hfiles : ∀ r ∈ s.records, r.file < 0x10000000000000000)

include hfiles

theorem fits_toValue : s.toValue.Fits 6 := by
  refine .object fun member hmember => ?_
  simp only [List.mem_cons, List.not_mem_nil, or_false] at hmember
  rcases hmember with rfl | rfl | rfl
  · refine .array fun value hvalue => ?_
    obtain ⟨path, _, rfl⟩ := List.mem_map.mp hvalue
    exact .text
  · refine .array fun value hvalue => ?_
    rcases List.mem_cons.mp hvalue with rfl | hvalue
    · exact .natural (by decide)
    · obtain ⟨r, hr, rfl⟩ := List.mem_map.mp hvalue
      exact r.toBody.fits_toValue (hfiles r hr)
  · exact .text

theorem decode_entries (room : Nat) :
    Decoder.list Entry.decode (room + 5)
      (Value.array (.natural 0 :: s.records.map (·.toBody.toValue))).node =
      .ok s.parts.entries := by
  have hvalues : Value.natural 0 :: s.records.map (·.toBody.toValue) =
      s.parts.entries.map Entry.toValue := by
    rw [parts, bodies, List.map_cons, List.map_map, List.map_map]
    rfl
  rw [hvalues]
  refine Decoder.list_node fun entry hentry => ?_
  rcases List.mem_cons.mp hentry with rfl | hentry
  · exact Entry.decode_number (by decide) _
  · obtain ⟨b, hb, rfl⟩ := List.mem_map.mp hentry
    obtain ⟨r, hr, rfl⟩ := List.mem_map.mp hb
    exact Entry.decode_body (hfiles r hr) room

theorem decode_toValue (room : Nat) : Parts.decode (room + 6) s.toValue.node = .ok s.parts := by
  have hpaths : Decoder.list .text (room + 5) (Value.array (s.files.map .text)).node =
      .ok s.files := Decoder.list_node fun path _ => rfl
  have hentries := decode_entries hfiles room
  have hrevision : ∀ state : SomeParts,
      (Decoder.text.map fun revision => { state with revision := some revision }) (room + 5)
        (Value.text s.revision).node = .ok { state with revision := some s.revision } :=
    fun _ => rfl
  have hmembers : Decoder.members Parts.fields (room + 5) .closed ⟨none, none, none⟩
      (Value.memberNodes [
        ("files", .array (s.files.map .text)),
        ("defs", .array (.natural 0 :: s.records.map (·.toBody.toValue))),
        ("revision", .text s.revision)]) =
      .ok ⟨some s.files, some s.parts.entries, some s.revision⟩ := by
    simp only [Value.memberNodes, Value.memberNode]
    rw [Decoder.members_cons rfl rfl (Decoder.map_of_eq_ok _ hpaths),
      Decoder.members_cons rfl rfl (Decoder.map_of_eq_ok _ hentries),
      Decoder.members_cons rfl rfl (hrevision _)]
    rfl
  show (Decoder.members _ _ _ _ _ >>= _) = _
  rw [hmembers]
  rfl

end

theorem WellFormed.read_toJson {s : Snapshot} (hs : s.WellFormed)
    (hfiles : ∀ r ∈ s.records, r.file < 0x10000000000000000) : ofJson s.toJson = .ok s := by
  have hfits : s.toValue.Fits Json.depthLimit := (fits_toValue hfiles).mono (by decide)
  exact ofJson_eq_ok_iff.mpr ⟨hs, Json.read_render hfits (decode_toValue hfiles 121)⟩

theorem WellFormed.read_of_toJson_eq {s : Snapshot} {text : String} (hs : s.WellFormed)
    (hfiles : ∀ r ∈ s.records, r.file < 0x10000000000000000) (h : s.toJson = text) :
    ofJson text = .ok s :=
  h ▸ hs.read_toJson hfiles

/-- A snapshot is read back from its text as it was, with all its keys. The
number of a file is one of 64 bits, in memory as in the text. -/
theorem ofJson_toJson {s : Snapshot} (hs : s.Constructed)
    (hfiles : ∀ r ∈ s.records, r.file < 0x10000000000000000) : ofJson s.toJson = .ok s :=
  hs.wellFormed.read_toJson hfiles

theorem ofJson_toJson_sample :
    Extraction.sampleSnapshot.Constructed ∧
      (∀ r ∈ Extraction.sampleSnapshot.records, r.file < 0x10000000000000000) ∧
      ofJson Extraction.sampleSnapshot.toJson = .ok Extraction.sampleSnapshot := by
  have hs : Extraction.sampleSnapshot.Constructed := .assembled Extraction.assemble_sample
  have hfiles : ∀ r ∈ Extraction.sampleSnapshot.records, r.file < 0x10000000000000000 := by decide
  exact ⟨hs, hfiles, ofJson_toJson hs hfiles⟩

end Snapshot

end CallAtlas
