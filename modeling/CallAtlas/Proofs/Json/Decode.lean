import CallAtlas.Proofs.Json.Written

/-!
# Decoding what was written

Each kind of decoder on the tree of a value that was written for it.
-/

namespace CallAtlas.Json.Decoder

variable {α β σ : Type}

theorem natural_node {limit n : Nat} (h : n < limit) (room : Nat) :
    natural limit room (Value.natural n).node = .ok n := by
  show (if n < limit then Except.ok n else .error Fault.mismatched) = .ok n
  rw [if_pos h]

theorem word_node (n : UInt32) (room : Nat) : word room (Value.word n).node = .ok n := by
  rw [word, map, Value.word, natural_node n.toNat_lt room]
  show Except.ok n.toNat.toUInt32 = .ok n
  rw [Nat.toUInt32_eq, UInt32.ofNat_toNat]

theorem ofText_node {read : String → Option α} {content : String} {a : α}
    (h : read content = some a) (room : Nat) :
    ofText read room (Value.text content).node = .ok a := by
  show require (read content) .mismatched = .ok a
  rw [h]
  rfl

theorem map_of_eq_ok {d : Decoder α} {room : Nat} {node : Node} {a : α} (f : α → β)
    (h : d room node = .ok a) : d.map f room node = .ok (f a) := by
  rw [map, h]
  rfl

/-! ## Arrays -/

theorem elements_nodes {d : Decoder α} {toValue : α → Value} {room : Nat} {l : List α}
    (h : ∀ a ∈ l, d room (toValue a).node = .ok a) :
    elements d room .closed (Value.nodes (l.map toValue)) = .ok l := by
  induction l with
  | nil => rfl
  | cons a l ih =>
      rw [List.map_cons, Value.nodes, elements, h a List.mem_cons_self,
        ih fun other hother => h other (List.mem_cons_of_mem _ hother)]
      rfl

theorem list_node {d : Decoder α} {toValue : α → Value} {room : Nat} {l : List α}
    (h : ∀ a ∈ l, d room (toValue a).node = .ok a) :
    list d (room + 1) (Value.array (l.map toValue)).node = .ok l :=
  elements_nodes h

theorem Row.next_cons {d : Decoder α} {inside : Inside} {node : Node} {a : α}
    (h : d inside.room node = .ok a) (rest : List Node) :
    Row.next d inside (node :: rest) = .ok (a, rest) := by
  rw [next, h]
  rfl

theorem Row.bind_of_eq_ok {row : Row α} {f : α → Row β} {inside : Inside} {items rest : List Node}
    {a : α} (h : row inside items = .ok (a, rest)) :
    (row >>= f) inside items = f a inside rest := by
  show (row inside items >>= _) = _
  rw [h]
  rfl

theorem tuple_node {row : Row α} {room : Nat} {items : List Value} {a : α}
    (h : row ⟨room, .closed⟩ (Value.nodes items) = .ok (a, [])) :
    tuple row (room + 1) (Value.array items).node = .ok a := by
  show (row ⟨room, .closed⟩ (Value.nodes items) >>= _) = _
  rw [h]
  rfl

/-! ## Objects -/

theorem members_cons {fields : List (Field σ)} {room : Nat} {ending : Ending} {state read : σ}
    {field : Field σ} {key : String} {node : Node}
    (hfield : fields.find? (·.name = key) = some field)
    (hset : field.isSet state = false) (hread : field.read state room node = .ok read)
    (rest : List (Option String × Node)) :
    members fields room ending state ((some key, node) :: rest) =
      members fields room ending read rest := by
  rw [members, hfield]
  simp only [hset, Bool.false_eq_true, if_false, hread]
  rfl

theorem pairs_memberNodes {d : Decoder α} {toValue : α → Value} {room : Nat}
    {l : List (String × α)} (h : ∀ entry ∈ l, d room (toValue entry.2).node = .ok entry.2) :
    pairs d room .closed (Value.memberNodes (l.map fun (key, a) => (key, toValue a))) =
      .ok l := by
  induction l with
  | nil => rfl
  | cons entry l ih =>
      obtain ⟨key, a⟩ := entry
      rw [List.map_cons, Value.memberNodes, Value.memberNode, pairs, h (key, a) List.mem_cons_self,
        ih fun other hother => h other (List.mem_cons_of_mem _ hother)]
      rfl

theorem dictionary_node {d : Decoder α} {toValue : α → Value} {room : Nat} {l : List (String × α)}
    (h : ∀ entry ∈ l, d room (toValue entry.2).node = .ok entry.2) :
    dictionary d (room + 1)
      (Value.object (l.map fun (key, a) => (key, toValue a))).node = .ok l :=
  pairs_memberNodes h

/-! ## Alternatives -/

theorem whole_node {d : Decoder α} {room : Nat} {value : Value} {a : α} (hfits : value.Fits room)
    (h : d room value.node = .ok a) : whole d room value.node = .ok a := by
  rw [whole, hfits.readFault?_node, h]
  rfl

theorem either_left {d e : Decoder α} {room : Nat} {node : Node} {a : α}
    (h : d room node = .ok a) : either d e room node = .ok a := by
  rw [either, h]

theorem either_right {d e : Decoder α} {room : Nat} {node : Node} {fault : Fault}
    (h : d room node = .error fault) : either d e room node = e room node := by
  rw [either, h]

end CallAtlas.Json.Decoder
