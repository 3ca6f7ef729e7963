import CallAtlas.Json.Decode
import CallAtlas.Proofs.Checks
import Mathlib.Data.List.Forall2

/-!
# What decoders accept

A decoder that succeeds has found what it looked for: a text, a number, an array that
closes behind its last element. Each kind of decoder on any tree that it accepts.
-/

namespace CallAtlas.Json

theorem Ending.fault?_eq_none_iff {ending : Ending} : ending.fault? = none ↔ ending = .closed := by
  cases ending <;> simp [fault?]

namespace Decoder

variable {α β : Type} {room : Nat} {node : Node}

theorem map_eq_ok {d : Decoder α} {f : α → β} {b : β} (h : d.map f room node = .ok b) :
    ∃ a, d room node = .ok a ∧ f a = b :=
  map_eq_ok_iff.mp h

theorem text_eq_ok {content : String} (h : text room node = .ok content) :
    node = .text (some content) := by
  unfold text at h
  split at h
  · cases h
    rfl
  · cases h

theorem ofText_eq_ok {read : String → Option α} {a : α} (h : ofText read room node = .ok a) :
    ∃ content, node = .text (some content) ∧ read content = some a := by
  obtain ⟨content, hcontent, hread⟩ := bind_eq_ok_iff.mp h
  refine ⟨content, text_eq_ok hcontent, ?_⟩
  unfold require at hread
  split at hread
  · cases hread
    assumption
  · cases hread

theorem natural_eq_ok {limit n : Nat} (h : natural limit room node = .ok n) :
    node = .natural n ∧ n < limit := by
  unfold natural at h
  split at h
  · split at h
    · cases h
      exact ⟨rfl, ‹_›⟩
    · cases h
  · cases h

theorem word_eq_ok {n : UInt32} (h : word room node = .ok n) : node = .natural n.toNat := by
  obtain ⟨m, hm, rfl⟩ := map_eq_ok h
  obtain ⟨rfl, hlt⟩ := natural_eq_ok hm
  rw [Nat.toUInt32_eq, UInt32.toNat_ofNat_of_lt' hlt]

theorem whole_eq_ok {d : Decoder α} {a : α} (h : whole d room node = .ok a) :
    d room node = .ok a := by
  unfold whole at h
  split at h
  · cases h
  · exact mapError_eq_ok_iff.mp h

theorem either_eq_ok {d e : Decoder α} {a : α} (h : either d e room node = .ok a) :
    d room node = .ok a ∨ e room node = .ok a := by
  unfold either at h
  split at h
  case h_1 b hb =>
    cases h
    exact Or.inl hb
  case h_2 => exact Or.inr h

/-! ## Arrays -/

theorem elements_eq_ok {d : Decoder α} {ending : Ending} {items : List Node} {l : List α}
    (h : elements d room ending items = .ok l) :
    ending = .closed ∧ List.Forall₂ (fun item a => d room item = .ok a) items l := by
  induction items generalizing l with
  | nil =>
      unfold elements at h
      split at h
      · cases h
      · cases h
        exact ⟨Ending.fault?_eq_none_iff.mp ‹_›, .nil⟩
  | cons item items ih =>
      obtain ⟨a, ha, hrest⟩ := bind_eq_ok_iff.mp h
      obtain ⟨others, hothers, hl⟩ := bind_eq_ok_iff.mp hrest
      obtain rfl := pure_eq_ok_iff.mp hl
      obtain ⟨hclosed, hitems⟩ := ih hothers
      exact ⟨hclosed, .cons ha hitems⟩

theorem enter_eq_ok {inside : Nat → Except Fault α} {a : α} (h : enter room inside = .ok a) :
    ∃ inner, inside inner = .ok a := by
  cases room with
  | zero => cases h
  | succ inner => exact ⟨inner, h⟩

theorem list_eq_ok {d : Decoder α} {l : List α} (h : list d room node = .ok l) :
    ∃ inner items, node = .array items .closed ∧
      List.Forall₂ (fun item a => d inner item = .ok a) items l := by
  cases node with
  | array items ending =>
      obtain ⟨inner, hinner⟩ := enter_eq_ok h
      obtain ⟨rfl, hitems⟩ := elements_eq_ok hinner
      exact ⟨inner, items, rfl, hitems⟩
  | _ => cases h

/-- The next element is there, and the reading goes on behind it. -/
theorem Row.bind_next_eq_ok {d : Decoder α} {f : α → Row β} {inside : Inside} {items : List Node}
    {result : β × List Node} (h : (Row.next d >>= f) inside items = .ok result) :
    ∃ item rest a, items = item :: rest ∧ d inside.room item = .ok a ∧
      f a inside rest = .ok result := by
  obtain ⟨⟨a, left⟩, hnext, hrest⟩ := bind_eq_ok_iff.mp h
  cases items with
  | nil => cases hnext
  | cons item rest =>
      obtain ⟨b, hb, heq⟩ := map_eq_ok_iff.mp hnext
      cases heq
      exact ⟨item, _, _, rfl, hb, hrest⟩

theorem closeFault?_eq_none {items : List Node} {ending : Ending}
    (h : closeFault? items ending = none) : items = [] ∧ ending = .closed := by
  unfold closeFault? at h
  split at h
  · exact ⟨rfl, rfl⟩
  · cases h
  · cases h

theorem tuple_eq_ok {row : Row α} {a : α} (h : tuple row room node = .ok a) :
    ∃ inside items, node = .array items .closed ∧ row inside items = .ok (a, []) := by
  cases node with
  | array items ending =>
      obtain ⟨inner, hinner⟩ := enter_eq_ok h
      obtain ⟨⟨b, rest⟩, hrow, hclose⟩ := bind_eq_ok_iff.mp hinner
      cases hfault : closeFault? rest ending with
      | some fault =>
          simp only [hfault] at hclose
          cases hclose
      | none =>
          simp only [hfault] at hclose
          cases hclose
          obtain ⟨rfl, rfl⟩ := closeFault?_eq_none hfault
          exact ⟨_, items, rfl, hrow⟩
  | _ => cases h

end Decoder

end CallAtlas.Json
