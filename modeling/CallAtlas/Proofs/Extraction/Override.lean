import CallAtlas.Proofs.Extraction.Linking
import Mathlib.Logic.Relation

/-!
# Override classes as a symmetric closure

Two functions share a class exactly when a row pairs them, in either direction. The
classes can also be filled row by row: a pair with two known sides enters each side in
the class of the other, and every other row is passed over.
-/

namespace CallAtlas.Extraction

/-! ## Filling classes row by row -/

/-- The classes while rows are read. -/
structure Adjacency where
  classes : Std.TreeMap RowId (Std.TreeSet RowId)

namespace Adjacency

def empty : Adjacency :=
  ⟨∅⟩

def enter (x : Adjacency) (a b : RowId) : Adjacency :=
  ⟨x.classes.alter a fun members? => some ((members?.getD ∅).insert b)⟩

def link (x : Adjacency) (pair : RowId × RowId) : Adjacency :=
  (x.enter pair.1 pair.2).enter pair.2 pair.1

def read (resolve : RowId → Option RowId) (x : Adjacency) (row : OverrideRow) : Adjacency :=
  match Overrides.pairOf resolve row with
  | some pair => x.link pair
  | none => x

def ofRows (resolved unresolved : List OverrideRow) (d : Declarations) : Adjacency :=
  unresolved.foldl (read d.resolve) (resolved.foldl (read some) empty)

/-- `b` is in the class of `a`. -/
def Lists (x : Adjacency) (a b : RowId) : Prop :=
  b ∈ x.classes.getD a ∅

/-- The classes hold these pairs, in both directions, and nothing else. -/
structure Hold (x : Adjacency) (pairs : List (RowId × RowId)) : Prop where
  lists_iff : ∀ a b, x.Lists a b ↔ (a, b) ∈ pairs ∨ (b, a) ∈ pairs
  mem_iff : ∀ a, a ∈ x.classes ↔ ∃ b, (a, b) ∈ pairs ∨ (b, a) ∈ pairs

/-- These are the override classes. -/
structure AreOf (x : Adjacency) (o : Overrides) : Prop where
  ids : x.classes.keys = o.ids
  class_eq : ∀ id : RowId, x.classes[id]?.map (·.toList) = o.class? id

section

variable {x : Adjacency} {a b c e : RowId} {pairs : List (RowId × RowId)}

theorem lists_enter : (x.enter a b).Lists c e ↔ a = c ∧ b = e ∨ x.Lists c e := by
  rw [Lists, enter, Std.TreeMap.getD_alter]
  by_cases h : a = c
  · subst h
    simp [Lists, Std.TreeMap.getD_eq_getD_getElem?]
  · simp [h, Lists]

theorem mem_enter : c ∈ (x.enter a b).classes ↔ a = c ∨ c ∈ x.classes := by
  rw [enter, Std.TreeMap.mem_alter]
  by_cases h : a = c <;> simp [h]

theorem hold_empty : empty.Hold [] := by
  refine ⟨fun a b => ?_, fun a => ?_⟩
  · simp [Lists, empty]
  · simp [empty]

theorem Hold.link (h : x.Hold pairs) (pair : RowId × RowId) :
    (x.link pair).Hold (pairs ++ [pair]) := by
  obtain ⟨a, b⟩ := pair
  refine ⟨fun c e => ?_, fun c => ?_⟩
  · rw [Adjacency.link, lists_enter, lists_enter, h.lists_iff]
    simp only [List.mem_append, List.mem_singleton, Prod.mk.injEq]
    grind
  · rw [Adjacency.link, mem_enter, mem_enter, h.mem_iff]
    simp only [List.mem_append, List.mem_singleton, Prod.mk.injEq]
    grind

theorem hold_foldl_link (pairs : List (RowId × RowId)) :
    (pairs.foldl link empty).Hold pairs := by
  induction pairs using List.reverseRecOn with
  | nil => exact hold_empty
  | append_singleton pairs pair ih =>
      rw [List.foldl_concat]
      exact ih.link pair

end

theorem foldl_read (resolve : RowId → Option RowId) (rows : List OverrideRow) (x : Adjacency) :
    rows.foldl (read resolve) x = (rows.filterMap (Overrides.pairOf resolve)).foldl link x := by
  induction rows generalizing x with
  | nil => rfl
  | cons row rows ih =>
      rw [List.foldl_cons, List.filterMap_cons, read, ih]
      cases Overrides.pairOf resolve row <;> rfl

variable (resolved unresolved : List OverrideRow) (d : Declarations)

theorem hold_ofRows :
    (ofRows resolved unresolved d).Hold (Overrides.recorded resolved unresolved d) := by
  rw [ofRows, foldl_read, foldl_read, ← List.foldl_append]
  exact hold_foldl_link _

end Adjacency

/-! ## Classes and recorded pairs -/

namespace Overrides

/-- A row of either table pairs the two functions. -/
inductive Kept (resolved unresolved : List OverrideRow) (d : Declarations) (a b : RowId) :
    Prop where
  | resolved : ⟨some a, some b⟩ ∈ resolved → Kept resolved unresolved d a b
  | unresolved (declaration : RowId) : ⟨some a, some declaration⟩ ∈ unresolved →
      d.resolve declaration = some b → Kept resolved unresolved d a b

def Lists (o : Overrides) (a b : RowId) : Prop :=
  ∃ members, o.class? a = some members ∧ b ∈ members

/-- The classes are the symmetric closure of a relation. -/
structure IsClosure (o : Overrides) (r : RowId → RowId → Prop) : Prop where
  lists_iff : ∀ a b, o.Lists a b ↔ Relation.SymmGen r a b
  symm : ∀ a b, o.Lists a b ↔ o.Lists b a
  self_iff : ∀ a, o.Lists a a ↔ r a a
  /-- Nothing is listed that a symmetric relation can do without. -/
  least : ∀ s : RowId → RowId → Prop, (∀ a b, r a b → s a b) → (∀ a b, s a b → s b a) →
    ∀ a b, o.Lists a b → s a b
  ne_nil : ∀ id members, o.class? id = some members → members ≠ []
  ascending : ∀ id members, o.class? id = some members → Ascending members
  ascending_ids : Ascending o.ids
  mem_ids_iff : ∀ id, id ∈ o.ids ↔ ∃ other, r id other ∨ r other id
  isSome_class? : ∀ id, (o.class? id).isSome ↔ id ∈ o.ids

/-- A row with a side that no function stands on. -/
def IsPartial (resolve : RowId → Option RowId) (row : OverrideRow) : Prop :=
  row.base = none ∨ row.other.bind resolve = none

instance (resolve : RowId → Option RowId) (row : OverrideRow) :
    Decidable (IsPartial resolve row) :=
  inferInstanceAs (Decidable (_ ∨ _))

section

variable {resolved unresolved : List OverrideRow} {d : Declarations} {o : Overrides}
  {a b id : RowId} {members : List RowId}

theorem mem_recorded_iff_kept :
    (a, b) ∈ recorded resolved unresolved d ↔ Kept resolved unresolved d a b := by
  rw [mem_recorded_iff]
  constructor
  · rintro (⟨⟨_, _⟩, hrow, rfl, rfl⟩ | ⟨⟨_, _⟩, hrow, rfl, declaration, rfl, hbound⟩)
    · exact .resolved hrow
    · exact .unresolved declaration hrow hbound
  · rintro (hrow | ⟨declaration, hrow, hbound⟩)
    · exact .inl ⟨_, hrow, rfl, rfl⟩
    · exact .inr ⟨_, hrow, rfl, declaration, rfl, hbound⟩

theorem class?_eq_some_iff :
    o.class? id = some members ↔ o.members id = members ∧ members ≠ [] := by
  rw [class?]
  split
  case h_1 hnil => simp [hnil, eq_comm]
  case h_2 hcons =>
    constructor
    · rintro ⟨rfl⟩
      exact ⟨rfl, hcons⟩
    · rintro ⟨rfl, -⟩
      rfl

theorem lists_iff_mem_members : o.Lists a b ↔ b ∈ o.members a := by
  simp only [Lists, class?_eq_some_iff]
  constructor
  · rintro ⟨_, ⟨rfl, -⟩, hb⟩
    exact hb
  · exact fun hb => ⟨_, ⟨rfl, List.ne_nil_of_mem hb⟩, hb⟩

theorem mem_ids_iff_lists : id ∈ o.ids ↔ ∃ other, o.Lists id other := by
  simp [ids, Ascending.mem_ofList, lists_iff_mem_members, members]

theorem isSome_class?_iff : (o.class? id).isSome ↔ id ∈ o.ids := by
  rw [mem_ids_iff_lists, Option.isSome_iff_exists]
  constructor
  · rintro ⟨members, hclass⟩
    obtain ⟨other, hother⟩ := List.exists_mem_of_ne_nil _ (class?_eq_some_iff.mp hclass).2
    exact ⟨other, members, hclass, hother⟩
  · rintro ⟨_, members, hclass, -⟩
    exact ⟨members, hclass⟩

theorem lists_ofRows_iff :
    (ofRows resolved unresolved d).Lists a b ↔
      Relation.SymmGen (Kept resolved unresolved d) a b := by
  show _ ↔ Kept resolved unresolved d a b ∨ Kept resolved unresolved d b a
  rw [lists_iff_mem_members, mem_members_iff, mem_recorded_iff_kept, mem_recorded_iff_kept]

theorem mem_ids_ofRows_iff :
    id ∈ (ofRows resolved unresolved d).ids ↔
      ∃ other, Kept resolved unresolved d id other ∨ Kept resolved unresolved d other id := by
  rw [mem_ids_iff_lists]
  exact exists_congr fun _ => lists_ofRows_iff

theorem isClosure_ofRows :
    (ofRows resolved unresolved d).IsClosure (Kept resolved unresolved d) := by
  constructor
  case lists_iff => exact fun a b => lists_ofRows_iff
  case symm =>
    intro a b
    rw [lists_ofRows_iff, lists_ofRows_iff, Relation.symmGen_comm]
  case self_iff => exact fun a => lists_ofRows_iff.trans or_self_iff
  case least =>
    intro s hkept hsymm a b hlists
    rcases lists_ofRows_iff.mp hlists with hab | hba
    · exact hkept a b hab
    · exact hsymm b a (hkept b a hba)
  case ne_nil => exact fun id members hclass => (class?_eq_some_iff.mp hclass).2
  case ascending =>
    intro id members hclass
    obtain ⟨rfl, -⟩ := class?_eq_some_iff.mp hclass
    exact ascending_members id
  case ascending_ids => exact Ascending.ofList_ascending _
  case mem_ids_iff => exact fun id => mem_ids_ofRows_iff
  case isSome_class? => exact fun id => isSome_class?_iff

theorem pairOf_eq_none_iff {resolve : RowId → Option RowId} {row : OverrideRow} :
    pairOf resolve row = none ↔ IsPartial resolve row := by
  obtain ⟨base, other⟩ := row
  cases base with
  | none => simp [IsPartial, pairOf]
  | some base =>
      cases other with
      | none => simp [IsPartial, pairOf]
      | some other => cases hbound : resolve other <;> simp [IsPartial, pairOf, hbound]

theorem filterMap_pairOf (resolve : RowId → Option RowId) (rows : List OverrideRow) :
    (rows.filter (¬ IsPartial resolve ·)).filterMap (pairOf resolve) =
      rows.filterMap (pairOf resolve) := by
  rw [List.filterMap_filter]
  refine List.filterMap_congr fun row _ => ?_
  by_cases h : IsPartial resolve row
  · simp [h, pairOf_eq_none_iff.mpr h]
  · simp [h]

theorem ofRows_filter :
    ofRows (resolved.filter (¬ IsPartial some ·)) (unresolved.filter (¬ IsPartial d.resolve ·)) d =
      ofRows resolved unresolved d := by
  rw [ofRows, recorded, filterMap_pairOf, filterMap_pairOf, ← recorded, ← ofRows]

end

end Overrides

/-! ## Both ways agree -/

section

variable (resolved unresolved : List OverrideRow) (d : Declarations)

open Adjacency in
/-- The classes that are filled row by row are the override classes. -/
theorem Adjacency.areOf_ofRows :
    (ofRows resolved unresolved d).AreOf (.ofRows resolved unresolved d) := by
  have h := hold_ofRows resolved unresolved d
  have hmem (id : RowId) : id ∈ (ofRows resolved unresolved d).classes ↔
      id ∈ (Overrides.ofRows resolved unresolved d).ids := by
    simp only [h.mem_iff, Overrides.mem_ids_ofRows_iff, Overrides.mem_recorded_iff_kept]
  refine ⟨?_, fun id => ?_⟩
  · refine Ascending.ext Std.TreeMap.ordered_keys (Ascending.ofList_ascending _) fun id => ?_
    rw [Std.TreeMap.mem_keys, hmem]
  · have hsome := (hmem id).trans Overrides.isSome_class?_iff.symm
    rw [Std.TreeMap.mem_iff_isSome_getElem?] at hsome
    cases hfound : (ofRows resolved unresolved d).classes[id]? with
    | none =>
        rw [hfound, Option.isSome_none] at hsome
        exact (Option.not_isSome_iff_eq_none.mp (mt hsome.mpr Bool.false_ne_true)).symm
    | some set =>
        rw [hfound] at hsome
        obtain ⟨members, hclass⟩ := Option.isSome_iff_exists.mp (hsome.mp rfl)
        obtain ⟨rfl, -⟩ := Overrides.class?_eq_some_iff.mp hclass
        rw [hclass, Option.map_some, Option.some.injEq]
        refine Ascending.ext Std.TreeSet.ordered_toList (Overrides.ascending_members id)
          fun b => ?_
        rw [Std.TreeSet.mem_toList, Overrides.mem_members_iff, ← h.lists_iff, Lists,
          Std.TreeMap.getD_eq_getD_getElem?, hfound, Option.getD_some]

/-- The classes are the symmetric closure of the pairs with both sides known. Partial rows
add nothing, and filling the classes row by row gives the same ones. -/
theorem Overrides.closure_ofRows :
    (ofRows resolved unresolved d).IsClosure (Kept resolved unresolved d) ∧
      ofRows (resolved.filter (¬ IsPartial some ·))
          (unresolved.filter (¬ IsPartial d.resolve ·)) d = ofRows resolved unresolved d ∧
      (Adjacency.ofRows resolved unresolved d).AreOf (ofRows resolved unresolved d) :=
  ⟨isClosure_ofRows, ofRows_filter, Adjacency.areOf_ofRows resolved unresolved d⟩

end

-- 2 overrides 1 and 3 overrides 2, which does not pair 3 with 1
example :
    let o := Overrides.ofRows [⟨some 2, some 1⟩, ⟨some 3, some 2⟩] [] (.bind [] (.extract []))
    o.class? 1 = some [2] ∧ o.class? 2 = some [1, 3] ∧ o.class? 4 = none := by
  decide

end CallAtlas.Extraction
