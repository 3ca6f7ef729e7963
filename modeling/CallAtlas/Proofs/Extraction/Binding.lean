import CallAtlas.Proofs.Extraction.Indexes
import Mathlib.Data.Finset.Card

/-!
# What declarations are bound to

A declaration is bound to the definition that its row names or, if the row names
none, to the only definition that has its signature. Of rows with the same id the last
one decides. The bindings can also be entered into a table row by row, each in the
place of an older one with its id, while they are counted.
-/

namespace CallAtlas.Extraction

/-! ## Binding row by row -/

def BindingCounts.count (c : BindingCounts) : Binding → BindingCounts
  | .explicit _ => { c with explicit := c.explicit + 1 }
  | .bySignature _ => { c with bySignature := c.bySignature + 1 }
  | .ambiguous => { c with ambiguous := c.ambiguous + 1 }
  | .unknown => { c with unknown := c.unknown + 1 }

/-- What declarations are bound to while their rows are read. -/
structure BindingTable where
  targets : Std.TreeMap RowId (Option RowId)
  counts : BindingCounts

namespace BindingTable

def empty : BindingTable :=
  ⟨∅, ⟨0, 0, 0, 0⟩⟩

def read (inv : Inventory) (x : BindingTable) (row : DeclarationRow) : BindingTable :=
  let binding := Binding.ofRow inv row
  ⟨x.targets.insert row.id binding.target?, x.counts.count binding⟩

def ofRows (inv : Inventory) (rows : List DeclarationRow) : BindingTable :=
  rows.foldl (read inv) empty

structure IsOf (x : BindingTable) (d : Declarations) : Prop where
  mem_iff : ∀ id, id ∈ x.targets ↔ id ∈ d.bindings.map (·.1)
  resolve : ∀ id : RowId, x.targets[id]?.join = d.resolve id
  size : x.targets.size = d.size
  counts : x.counts = d.counts

section

variable {inv : Inventory} {x : BindingTable} {bindings : List (RowId × Binding)}

theorem counts_append_singleton (id : RowId) (b : Binding) :
    Declarations.counts ⟨bindings ++ [(id, b)]⟩ = (Declarations.counts ⟨bindings⟩).count b := by
  cases b <;> simp [Declarations.counts, BindingCounts.count]

theorem resolve_append_singleton (id : RowId) (b : Binding) (other : RowId) :
    Declarations.resolve ⟨bindings ++ [(id, b)]⟩ other =
      if id = other then b.target? else Declarations.resolve ⟨bindings⟩ other := by
  rw [Declarations.resolve, List.reverse_append, List.reverse_singleton, List.singleton_append,
    List.lookup_cons]
  by_cases h : id = other
  · simp [h]
  · have hne : (other == id) = false := by simpa using fun heq : other = id => h heq.symm
    rw [hne, if_neg h]
    rfl

theorem size_append_singleton (id : RowId) (b : Binding) :
    Declarations.size ⟨bindings ++ [(id, b)]⟩ =
      if id ∈ bindings.map (·.1) then Declarations.size ⟨bindings⟩
      else Declarations.size ⟨bindings⟩ + 1 := by
  rw [Declarations.size, List.map_append, List.map_singleton, eraseDups_append_singleton,
    List.length_append]
  split <;> rfl

theorem IsOf.read (h : x.IsOf ⟨bindings⟩) (row : DeclarationRow) :
    (x.read inv row).IsOf ⟨bindings ++ [(row.id, .ofRow inv row)]⟩ := by
  refine ⟨fun id => ?_, fun id => ?_, ?_, ?_⟩
  · rw [BindingTable.read, Std.TreeMap.mem_insert, Std.LawfulEqCmp.compare_eq_iff_eq, h.mem_iff,
      List.map_append, List.mem_append, List.map_singleton, List.mem_singleton, or_comm,
      eq_comm (a := id)]
  · rw [BindingTable.read, Std.TreeMap.getElem?_insert, resolve_append_singleton, ← h.resolve]
    by_cases hid : row.id = id
    · simp [hid]
    · simp [hid]
  · rw [BindingTable.read, Std.TreeMap.size_insert, size_append_singleton, ← h.size]
    simp only [Std.TreeMap.contains_iff_mem, h.mem_iff]
  · rw [counts_append_singleton, ← h.counts]
    rfl

end

theorem isOf_bind (inv : Inventory) (rows : List DeclarationRow) :
    (ofRows inv rows).IsOf (.bind rows inv) := by
  induction rows using List.reverseRecOn with
  | nil =>
      refine ⟨fun id => ?_, fun id => ?_, rfl, rfl⟩
      · simp [ofRows, empty, Declarations.bind]
      · simp [ofRows, empty, Declarations.bind, Declarations.resolve]
  | append_singleton rows row ih =>
      rw [ofRows, List.foldl_append, Declarations.bind, List.map_append]
      exact ih.read row

end BindingTable

/-! ## What the rows say -/

/-- Of all definitions only that one has the signature. -/
def OnlyBearer (definitions : List DefinitionRow) (s : Signature) (id : RowId) : Prop :=
  ∃ row ∈ definitions, row.id = id ∧ .canonical row.signature = s ∧
    ∀ other ∈ definitions, .canonical other.signature = s → other = row

/-- The row names the definition or, if it names none, declares the signature that
only the definition has. -/
def DeclarationRow.StandsFor (row : DeclarationRow) (definitions : List DefinitionRow)
    (id : RowId) : Prop :=
  row.definition = some id ∨
    row.definition = none ∧ OnlyBearer definitions (.canonical row.signature) id

/-- How many definitions have the signature that the row declares. -/
def DeclarationRow.bearers (row : DeclarationRow) (definitions : List DefinitionRow) : Nat :=
  definitions.countP fun d => Signature.canonical d.signature = .canonical row.signature

/-- No row behind it has the same id. -/
def Decides (rows : List DeclarationRow) (row : DeclarationRow) : Prop :=
  ∃ before after, rows = before ++ row :: after ∧ ∀ other ∈ after, other.id ≠ row.id

/-- The declarations are bound as the rows say. -/
structure Declarations.Exact (d : Declarations) (definitions : List DefinitionRow)
    (rows : List DeclarationRow) : Prop where
  decided : ∀ row, Decides rows row → ∀ id,
    d.resolve row.id = some id ↔ row.StandsFor definitions id
  unseen : ∀ id, (∀ row ∈ rows, row.id ≠ id) → d.resolve id = none
  explicit : d.counts.explicit = rows.countP fun row => row.definition ≠ none
  bySignature : d.counts.bySignature =
    rows.countP fun row => row.definition = none ∧ row.bearers definitions = 1
  ambiguous : d.counts.ambiguous =
    rows.countP fun row => row.definition = none ∧ 2 ≤ row.bearers definitions
  unknown : d.counts.unknown =
    rows.countP fun row => row.definition = none ∧ row.bearers definitions = 0
  total : d.counts.total = rows.length
  size : d.size = (rows.map (·.id)).toFinset.card

section

variable {definitions : List DefinitionRow} {rows : List DeclarationRow} {row : DeclarationRow}

theorem filter_eq_singleton_iff {α : Type} {l : List α} (h : l.Nodup) {p : α → Bool} {a : α} :
    l.filter p = [a] ↔ a ∈ l ∧ p a ∧ ∀ b ∈ l, p b → b = a := by
  rw [← List.perm_singleton, List.perm_ext_iff_of_nodup (h.filter p) (List.nodup_singleton a)]
  simp only [List.mem_filter, List.mem_singleton]
  constructor
  · intro hiff
    obtain ⟨ha, hpa⟩ := (hiff a).mpr rfl
    exact ⟨ha, hpa, fun b hb hpb => (hiff b).mp ⟨hb, hpb⟩⟩
  · rintro ⟨ha, hpa, honly⟩ b
    exact ⟨fun hb => honly b hb.1 hb.2, fun hb => hb ▸ ⟨ha, hpa⟩⟩

theorem candidates_eq_singleton_iff_onlyBearer (h : (definitions.map (·.id)).Nodup)
    {s : Signature} {id : RowId} :
    (Inventory.extract definitions).candidates s = [id] ↔ OnlyBearer definitions s id := by
  rw [Inventory.candidates_eq_singleton_iff]
  simp only [filter_eq_singleton_iff (List.Nodup.of_map _ h), decide_eq_true_iff]
  constructor
  · rintro ⟨only, ⟨hmem, hs, honly⟩, hid⟩
    exact ⟨only, hmem, hid, hs, honly⟩
  · rintro ⟨only, hmem, hid, hs, honly⟩
    exact ⟨only, ⟨hmem, hs, honly⟩, hid⟩

theorem target?_ofRow_eq_some_iff_standsFor (h : (definitions.map (·.id)).Nodup) {id : RowId} :
    (Binding.ofRow (.extract definitions) row).target? = some id ↔
      row.StandsFor definitions id := by
  rw [Binding.target?_ofRow_eq_some_iff, candidates_eq_singleton_iff_onlyBearer h,
    DeclarationRow.StandsFor]

theorem Decides.getLast?_filter (h : Decides rows row) :
    (rows.filter (·.id = row.id)).getLast? = some row := by
  obtain ⟨before, after, rfl, hafter⟩ := h
  have hnone : after.filter (·.id = row.id) = [] := by
    simpa [List.filter_eq_nil_iff] using hafter
  rw [List.filter_append, List.filter_cons_of_pos (by simp), hnone, List.getLast?_append]
  rfl

theorem Declarations.resolve_eq_some_iff_standsFor (h : (definitions.map (·.id)).Nodup)
    (hrow : Decides rows row) {id : RowId} :
    (bind rows (.extract definitions)).resolve row.id = some id ↔
      row.StandsFor definitions id := by
  rw [resolve_eq_some_iff, hrow.getLast?_filter]
  simp only [Option.some.injEq, exists_eq_left', target?_ofRow_eq_some_iff_standsFor h]

theorem Declarations.resolve_eq_none {inv : Inventory} {id : RowId}
    (h : ∀ row ∈ rows, row.id ≠ id) : (bind rows inv).resolve id = none := by
  have hnone : rows.filter (·.id = id) = [] := by simpa [List.filter_eq_nil_iff] using h
  rw [Option.eq_none_iff_forall_ne_some]
  intro target htarget
  obtain ⟨row, hrow, -⟩ := resolve_eq_some_iff.mp htarget
  rw [hnone] at hrow
  cases hrow

/-! ## Counting -/

theorem length_candidates (definitions : List DefinitionRow) (s : Signature) :
    ((Inventory.extract definitions).candidates s).length =
      definitions.countP fun d => Signature.canonical d.signature = s := by
  rw [Inventory.candidates_extract, List.length_map, ← List.countP_eq_length_filter,
    (Inventory.perm_byId definitions).countP_eq]

/-- How a row is bound depends on how many definitions have its signature. -/
inductive Binding.IsKind (definitions : List DefinitionRow) (row : DeclarationRow) :
    Binding → Prop where
  | explicit {id : RowId} : row.definition = some id → IsKind definitions row (.explicit id)
  | bySignature {id : RowId} : row.definition = none → row.bearers definitions = 1 →
      IsKind definitions row (.bySignature id)
  | ambiguous : row.definition = none → 2 ≤ row.bearers definitions →
      IsKind definitions row .ambiguous
  | unknown : row.definition = none → row.bearers definitions = 0 →
      IsKind definitions row .unknown

theorem Binding.isKind_ofRow (definitions : List DefinitionRow) (row : DeclarationRow) :
    IsKind definitions row (ofRow (.extract definitions) row) := by
  have hlength := length_candidates definitions (.canonical row.signature)
  rw [ofRow]
  cases hdefinition : row.definition with
  | some id => exact .explicit hdefinition
  | none =>
      dsimp only
      split
      case h_1 hnone =>
        rw [hnone] at hlength
        exact .unknown hdefinition hlength.symm
      case h_2 hone =>
        rw [hone] at hlength
        exact .bySignature hdefinition hlength.symm
      case h_3 hmany =>
        rw [hmany] at hlength
        exact .ambiguous hdefinition (Nat.le_trans (Nat.le_add_left 2 _) (Nat.le_of_eq hlength))

theorem BindingCounts.total_eq_length (d : Declarations) :
    d.counts.total = d.bindings.length := by
  obtain ⟨bindings⟩ := d
  induction bindings using List.reverseRecOn with
  | nil => rfl
  | append_singleton bindings entry ih =>
      rw [BindingTable.counts_append_singleton, List.length_append, ← ih]
      cases entry.2 <;> simp [BindingCounts.count, BindingCounts.total] <;> omega

theorem length_eraseDups {α : Type} [DecidableEq α] (l : List α) :
    l.eraseDups.length = l.toFinset.card := by
  rw [← List.toFinset_card_of_nodup (nodup_eraseDups l)]
  congr 1
  ext a
  simp [List.mem_eraseDups]

theorem countP_bindings {p : RowId × Binding → Bool} {q : DeclarationRow → Bool}
    (h : ∀ row b, Binding.IsKind definitions row b → (p (row.id, b) ↔ q row)) :
    (Declarations.bind rows (.extract definitions)).bindings.countP p = rows.countP q := by
  rw [Declarations.bind, List.countP_map]
  exact List.countP_congr fun row _ => h row _ (Binding.isKind_ofRow definitions row)

namespace Declarations

/-- Where no definition has the id of another one declarations are bound as the rows
say, and their table is the one that is made row by row. -/
theorem exact_bind (h : (definitions.map (·.id)).Nodup) :
    (bind rows (.extract definitions)).Exact definitions rows ∧
      (BindingTable.ofRows (.extract definitions) rows).IsOf
        (bind rows (.extract definitions)) := by
  refine ⟨?_, BindingTable.isOf_bind _ rows⟩
  constructor
  case decided => exact fun row hrow id => resolve_eq_some_iff_standsFor h hrow
  case unseen => exact fun id hid => resolve_eq_none hid
  case explicit =>
    refine countP_bindings fun row b hkind => ?_
    cases hkind <;> simp [*]
  case bySignature =>
    refine countP_bindings fun row b hkind => ?_
    cases hkind with
    | ambiguous hrow hmany => simp [hrow, Nat.ne_of_gt hmany]
    | _ => simp [*]
  case ambiguous =>
    refine countP_bindings fun row b hkind => ?_
    cases hkind <;> simp [*]
  case unknown =>
    refine countP_bindings fun row b hkind => ?_
    cases hkind with
    | ambiguous hrow hmany => simp [hrow, Nat.ne_of_gt (Nat.lt_of_succ_lt hmany)]
    | _ => simp [*]
  case total => rw [BindingCounts.total_eq_length, bind, List.length_map]
  case size =>
    rw [size, length_eraseDups, bind, List.map_map]
    rfl

end Declarations

end

/-- A declaration of each kind, the first of them declared again. -/
def sampleDeclarations : List DeclarationRow :=
  [⟨⟨10, "a.h", "f(int*)", ⟨1, 1⟩⟩, none⟩, ⟨⟨11, "a.h", "g(int, int)", ⟨2, 2⟩⟩, none⟩,
    ⟨⟨12, "a.h", "h()", ⟨3, 3⟩⟩, none⟩, ⟨⟨10, "b.h", "g(int,int)", ⟨4, 4⟩⟩, some 3⟩]

theorem exact_bind_sample :
    (Inventory.sampleRows.map (·.id)).Nodup ∧
      (Declarations.bind sampleDeclarations (.extract Inventory.sampleRows)).Exact
        Inventory.sampleRows sampleDeclarations ∧
      (Declarations.bind sampleDeclarations (.extract Inventory.sampleRows)).resolve 10 =
        some 3 ∧
      (Declarations.bind sampleDeclarations (.extract Inventory.sampleRows)).counts =
        ⟨1, 1, 1, 1⟩ := by
  have h : (Inventory.sampleRows.map (·.id)).Nodup := by decide
  exact ⟨h, (Declarations.exact_bind h).1, by rfl, by cbv⟩

end CallAtlas.Extraction
