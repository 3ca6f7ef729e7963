import CallAtlas.Extraction.Override
import CallAtlas.Proofs.Extraction.Inventory
import Mathlib.Data.List.Induction

/-!
# Bindings and override classes

Which row decides what a declaration is bound to, and which pairs of functions
make up the override classes.
-/

namespace CallAtlas.Extraction

/-! ## Declarations -/

theorem Binding.target?_ofRow_eq_some_iff {inv : Inventory} {row : DeclarationRow}
    {definition : RowId} :
    (ofRow inv row).target? = some definition ↔
      row.definition = some definition ∨
        row.definition = none ∧ inv.candidates (.canonical row.signature) = [definition] := by
  rw [ofRow]
  cases row.definition with
  | some recorded => simp [target?]
  | none =>
      simp only [reduceCtorEq, true_and, false_or]
      split <;> simp [target?, *]

theorem lookup_reverse [BEq α] [LawfulBEq α] [DecidableEq α] (l : List (α × β)) (a : α) :
    l.reverse.lookup a = ((l.filter (·.1 = a)).getLast?).map (·.2) := by
  induction l using List.reverseRecOn with
  | nil => rfl
  | append_singleton l entry ih =>
      obtain ⟨key, value⟩ := entry
      rw [List.reverse_append, List.reverse_singleton, List.singleton_append, List.lookup_cons,
        List.filter_append]
      by_cases heq : key = a
      · simp [heq]
      · have hne : (a == key) = false := by simpa using fun h : a = key => heq h.symm
        simp [heq, hne, ih]

/-- The last row with the id of a declaration decides what it is bound to. -/
theorem Declarations.resolve_eq_some_iff {rows : List DeclarationRow} {inv : Inventory}
    {declaration definition : RowId} :
    (bind rows inv).resolve declaration = some definition ↔
      ∃ row, (rows.filter (·.id = declaration)).getLast? = some row ∧
        (Binding.ofRow inv row).target? = some definition := by
  rw [resolve, bind, lookup_reverse, List.filter_map, List.getLast?_map]
  show (((rows.filter (·.id = declaration)).getLast?.map _).map _).bind _ = _ ↔ _
  cases (rows.filter (·.id = declaration)).getLast? with
  | none => simp
  | some row => simp

/-! ## Override classes -/

namespace Overrides

variable {resolved unresolved : List OverrideRow} {d : Declarations} {a b : RowId}

theorem pairOf_eq_some_iff {resolve : RowId → Option RowId} {row : OverrideRow} :
    pairOf resolve row = some (a, b) ↔
      row.base = some a ∧ ∃ other, row.other = some other ∧ resolve other = some b := by
  simp [pairOf, Option.bind_eq_some_iff]

theorem mem_recorded_iff :
    (a, b) ∈ recorded resolved unresolved d ↔
      (∃ row ∈ resolved, row.base = some a ∧ row.other = some b) ∨
        ∃ row ∈ unresolved, row.base = some a ∧
          ∃ declaration, row.other = some declaration ∧ d.resolve declaration = some b := by
  simp [recorded, List.mem_filterMap, pairOf_eq_some_iff]

theorem mem_members_iff :
    b ∈ (ofRows resolved unresolved d).members a ↔
      (a, b) ∈ recorded resolved unresolved d ∨ (b, a) ∈ recorded resolved unresolved d := by
  simp [members, ofRows, Ascending.mem_ofList]

theorem compare_pair (id a b : RowId) : compare (id, a) (id, b) = compare a b := by
  show (compare id id).then (compare a b) = compare a b
  have hself : compare id id = .eq := Std.ReflCmp.compare_self
  rw [hself]
  rfl

theorem ascending_members (id : RowId) :
    Ascending ((ofRows resolved unresolved d).members id) := by
  have hpairs : Ascending (ofRows resolved unresolved d).pairs := Ascending.ofList_ascending _
  rw [members, Ascending, List.pairwise_map, List.pairwise_filter]
  refine hpairs.imp ?_
  rintro ⟨a, b⟩ ⟨c, d⟩ hlt ha hc
  obtain rfl : a = id := of_decide_eq_true ha
  obtain rfl : c = a := of_decide_eq_true hc
  rwa [compare_pair] at hlt

end Overrides

end CallAtlas.Extraction
