import CallAtlas.Proofs.Distinct
import CallAtlas.Proofs.Store.Insertion
import Mathlib.Data.List.Induction

/-!
# Filling a database

Rows are put into a new database one after the other. Whatever is put in, in any order,
the database is loaded as what was accepted, in the order in which it came: definitions
and declarations with the ids that they were answered with, which are one, two, three and
so on, and calls and overrides each once.
-/

namespace CallAtlas.Store

open Extraction (RowId Tables DefinitionRow DeclarationRow CallRow OverrideRow)
open Insertion

/-! ## What has been accepted -/

def definitionOf? : Insertion × Answer → Option DefinitionRow
  | (.definition path signature lines, .ok (some id)) => some ⟨id, path, signature, lines⟩
  | _ => none

def declarationOf? : Insertion × Answer → Option DeclarationRow
  | (.declaration path signature lines definition?, .ok (some id)) =>
      some ⟨⟨id, path, signature, lines⟩, definition?⟩
  | _ => none

def callOf? (inResolved : Bool) : Insertion × Answer → Option CallRow
  | (.call isResolved caller callee line col isVirtual, .ok _) =>
      if isResolved = inResolved then some ⟨some caller, some callee, line, col, isVirtual⟩
      else none
  | _ => none

def overrideOf? (inResolved : Bool) : Insertion × Answer → Option OverrideRow
  | (.override isResolved base other, .ok _) =>
      if isResolved = inResolved then some ⟨some base, some other⟩ else none
  | _ => none

/-- The accepted rows in their order, calls and overrides without repetition. -/
def recorded (history : List (Insertion × Answer)) : Tables where
  definitions := history.filterMap definitionOf?
  declarations := history.filterMap declarationOf?
  callsResolved := (history.filterMap (callOf? true)).eraseDups
  callsUnresolved := (history.filterMap (callOf? false)).eraseDups
  overridesResolved := (history.filterMap (overrideOf? true)).eraseDups
  overridesUnresolved := (history.filterMap (overrideOf? false)).eraseDups

section

variable {history : List (Insertion × Answer)} {i : Insertion}

theorem filterMap_append_singleton {α β : Type} (f : α → Option β) (l : List α) (a : α) :
    (l ++ [a]).filterMap f = l.filterMap f ++ (f a).toList := by
  rw [List.filterMap_append, List.filterMap_cons, List.filterMap_nil]
  cases f a <;> rfl

theorem recorded_refused (fault : Fault) :
    recorded (history ++ [(i, .error fault)]) = recorded history := by
  simp only [recorded, filterMap_append_singleton]
  cases i <;>
    simp only [definitionOf?, declarationOf?, callOf?, overrideOf?, Option.toList_none,
      List.append_nil]

theorem has_call_iff (history : List (Insertion × Answer)) (isResolved : Bool)
    (row : CallRow) :
    Database.Has (callTable isResolved) (cellsOf (recorded history) (callTable isResolved))
        (callCells row) ↔
      row ∈ history.filterMap (callOf? isResolved) := by
  have hcells : cellsOf (recorded history) (callTable isResolved) =
      (history.filterMap (callOf? isResolved)).eraseDups.map callCells := by
    cases isResolved <;> rfl
  rw [hcells, Database.has_map_iff (keyOf_callCells isResolved) callCells_injective,
    List.mem_eraseDups]

theorem has_override_iff (history : List (Insertion × Answer)) (isResolved : Bool)
    (row : OverrideRow) :
    Database.Has (overrideTable isResolved) (cellsOf (recorded history) (overrideTable isResolved))
        (overrideCells row) ↔
      row ∈ history.filterMap (overrideOf? isResolved) := by
  have hcells : cellsOf (recorded history) (overrideTable isResolved) =
      (history.filterMap (overrideOf? isResolved)).eraseDups.map overrideCells := by
    cases isResolved <;> rfl
  rw [hcells, Database.has_map_iff (keyOf_overrideCells isResolved) overrideCells_injective,
    List.mem_eraseDups]

/-- An accepted row comes to the end of its table, but for a call or an override that is
there already. -/
theorem recorded_accepted (id : RowId) (h : i.body?.isSome → ¬ i.Taken (recorded history)) :
    recorded (history ++ [(i, .ok (i.answer id))]) =
      if i.Taken (recorded history) then recorded history
      else i.enter (recorded history) id := by
  cases i with
  | definition | declaration =>
      rw [if_neg (h rfl)]
      simp only [recorded, filterMap_append_singleton, answer, body?, Option.map_some,
        definitionOf?, declarationOf?, callOf?, overrideOf?, Option.toList_none,
        Option.toList_some, List.append_nil, enter]
  | call isResolved =>
      have htaken := has_call_iff history isResolved
      simp only [Taken, table, cells, htaken]
      cases isResolved <;>
        simp only [recorded, filterMap_append_singleton, definitionOf?, declarationOf?, callOf?,
          overrideOf?, Option.toList_none, Option.toList_some, List.append_nil, if_true, if_false,
          Bool.false_eq_true, reduceCtorEq, eraseDups_append_singleton, enter] <;>
        split <;> simp only [List.append_nil]
  | override isResolved =>
      have htaken := has_override_iff history isResolved
      simp only [Taken, table, cells, htaken]
      cases isResolved <;>
        simp only [recorded, filterMap_append_singleton, definitionOf?, declarationOf?, callOf?,
          overrideOf?, Option.toList_none, Option.toList_some, List.append_nil, if_true, if_false,
          Bool.false_eq_true, reduceCtorEq, eraseDups_append_singleton, enter] <;>
        split <;> simp only [List.append_nil]

end

/-! ## Filling -/

/-- A database that is being filled, with what has been put in and the answers. -/
structure Filling where
  history : List (Insertion × Answer)
  database : Database
deriving DecidableEq, Repr

/-- Puts a row in. A row that is refused leaves the database as it is. -/
def Filling.put (f : Filling) (i : Insertion) : Filling :=
  match i.apply f.database with
  | .ok (id, db) => ⟨f.history ++ [(i, .ok id)], db⟩
  | .error fault => ⟨f.history ++ [(i, .error fault)], f.database⟩

/-- Puts rows into a new database. -/
def fill (steps : List Insertion) : Filling :=
  steps.foldl Filling.put ⟨[], .empty⟩

theorem fill_append_singleton (steps : List Insertion) (i : Insertion) :
    fill (steps ++ [i]) = (fill steps).put i := by
  rw [fill, List.foldl_append]
  rfl

/-- What holds after each step. -/
structure Filling.Keeps (steps : List Insertion) (f : Filling) : Prop where
  asked : f.history.map (·.1) = steps
  holds : f.database.Holds (recorded f.history)
  /-- A key is taken exactly if a row with it has been put in. -/
  taken_iff : ∀ i : Insertion,
    i.Taken (recorded f.history) ↔ ∃ earlier ∈ steps, earlier.SameKey i

namespace Filling

variable {steps : List Insertion} {f : Filling} {i : Insertion}

theorem put_of_ok {id : Option RowId} {db : Database} (h : i.apply f.database = .ok (id, db)) :
    f.put i = ⟨f.history ++ [(i, .ok id)], db⟩ := by
  rw [put, h]

theorem put_of_error {fault : Fault} (h : i.apply f.database = .error fault) :
    f.put i = ⟨f.history ++ [(i, .error fault)], f.database⟩ := by
  rw [put, h]

theorem keeps_nil : Keeps [] (fill []) where
  asked := rfl
  holds :=
    { rows := fun t => by cases t <;> rfl
      definition_ids := rfl
      declaration_ids := rfl }
  taken_iff i := by
    have hnone : cellsOf (recorded (fill []).history) i.table = [] := by
      cases i.table <;> rfl
    rw [Insertion.Taken, hnone]
    constructor
    · rintro ⟨_, hold, -⟩
      cases hold
    · rintro ⟨_, hearlier, -⟩
      cases hearlier

theorem Keeps.of_unchanged (h : Keeps steps f) (htaken : i.Taken (recorded f.history))
    {answer : Answer} (hrecorded : recorded (f.history ++ [(i, answer)]) = recorded f.history) :
    Keeps (steps ++ [i]) ⟨f.history ++ [(i, answer)], f.database⟩ where
  asked := by rw [List.map_append, h.asked, List.map_singleton]
  holds := hrecorded ▸ h.holds
  taken_iff j := by
    rw [hrecorded, h.taken_iff]
    constructor
    · rintro ⟨earlier, hearlier, hsame⟩
      exact ⟨earlier, List.mem_append_left _ hearlier, hsame⟩
    · rintro ⟨earlier, hearlier, hsame⟩
      rcases List.mem_append.mp hearlier with hearlier | hearlier
      · exact ⟨earlier, hearlier, hsame⟩
      · obtain rfl := List.mem_singleton.mp hearlier
        exact (h.taken_iff j).mp (htaken.of_sameKey hsame)

theorem Keeps.put (h : Keeps steps f) (i : Insertion) : Keeps (steps ++ [i]) (f.put i) := by
  -- a taken key is refused or passed over, which the tables do not show
  by_cases htaken : i.Taken (recorded f.history)
  · cases hbody : i.body? with
    | some body =>
        have hsome : i.body?.isSome := by rw [hbody]; rfl
        rw [put_of_error (apply_of_taken_body h.holds htaken hsome)]
        exact h.of_unchanged htaken (recorded_refused _)
    | none =>
        have hanswer : i.answer (i.next (recorded f.history)) = none := by
          rw [answer, hbody]
          rfl
        have hlink : i.body?.isSome → ¬ i.Taken (recorded f.history) := fun hsome => by
          rw [hbody] at hsome
          cases hsome
        have hrecorded := recorded_accepted (i.next (recorded f.history)) hlink
        rw [if_pos htaken, hanswer] at hrecorded
        rw [put_of_ok (apply_of_taken_link h.holds htaken hbody)]
        exact h.of_unchanged htaken hrecorded
  · have hrecorded := recorded_accepted (i.next (recorded f.history)) fun _ => htaken
    rw [if_neg htaken] at hrecorded
    rw [put_of_ok (apply_of_not_taken h.holds htaken)]
    exact
      { asked := by rw [List.map_append, h.asked, List.map_singleton]
        holds := hrecorded ▸ holds_enter h.holds i
        taken_iff := fun j => by
          rw [hrecorded, taken_enter_iff, h.taken_iff]
          simp only [List.mem_append, List.mem_singleton, or_and_right, exists_or,
            exists_eq_left] }

theorem keeps_fill (steps : List Insertion) : Keeps steps (fill steps) := by
  induction steps using List.reverseRecOn with
  | nil => exact keeps_nil
  | append_singleton steps i ih =>
      rw [fill_append_singleton]
      exact ih.put i

theorem Keeps.repeats_iff (h : Keeps steps f) (i : Insertion) :
    (∃ body, i.body? = some body ∧ ∃ earlier ∈ steps, earlier.body? = some body) ↔
      i.body?.isSome ∧ i.Taken (recorded f.history) := by
  rw [h.taken_iff, Option.isSome_iff_exists, ← exists_and_right]
  refine exists_congr fun body => and_congr_right fun hbody => exists_congr fun earlier => ?_
  rw [sameKey_iff hbody]

theorem Keeps.apply_eq_error_iff (h : Keeps steps f) (i : Insertion) (fault : Fault) :
    i.apply f.database = .error fault ↔
      (∃ body, i.body? = some body ∧ ∃ earlier ∈ steps, earlier.body? = some body) ∧
        fault = .notUnique (Database.keyNames i.table) := by
  rw [h.repeats_iff]
  by_cases htaken : i.Taken (recorded f.history)
  · by_cases hbody : i.body?.isSome
    · rw [apply_of_taken_body h.holds htaken hbody, Except.error.injEq, eq_comm]
      simp only [hbody, htaken, and_self, true_and]
    · rw [apply_of_taken_link h.holds htaken (Option.not_isSome_iff_eq_none.mp hbody)]
      simp only [hbody, reduceCtorEq, false_and]
  · rw [apply_of_not_taken h.holds htaken]
    simp only [htaken, reduceCtorEq, and_false, false_and]

end Filling

/-- The database is an ordered store of what has been put into it. -/
structure Filling.Faithful (steps : List Insertion) (f : Filling) : Prop where
  asked : f.history.map (·.1) = steps
  load : f.database.load = .ok (recorded f.history)
  definition_ids : (recorded f.history).definitions.map (·.id) =
    firstIds (recorded f.history).definitions.length
  declaration_ids : (recorded f.history).declarations.map (·.id) =
    firstIds (recorded f.history).declarations.length
  distinct_ids : ((recorded f.history).definitions.map (·.id)).Nodup ∧
    ((recorded f.history).declarations.map (·.id)).Nodup
  /-- Exactly what repeats the body of a row of its table is refused. -/
  refused_iff : ∀ (i : Insertion) (fault : Fault), i.apply f.database = .error fault ↔
    (∃ body, i.body? = some body ∧ ∃ earlier ∈ steps, earlier.body? = some body) ∧
      fault = .notUnique (Database.keyNames i.table)
  unchanged : ∀ (i : Insertion) (fault : Fault), i.apply f.database = .error fault →
    recorded (f.put i).history = recorded f.history ∧ (f.put i).database = f.database
  /-- A row that repeats none gets the next id. -/
  entered : ∀ i : Insertion, (∀ earlier ∈ steps, ¬ earlier.SameKey i) →
    ∃ db, i.apply f.database = .ok (i.answer (i.next (recorded f.history)), db)
  /-- A call or an override that is there already is passed over. -/
  passed_over : ∀ i ∈ steps, i.body? = none → i.apply f.database = .ok (none, f.database)
  distinct_links : (recorded f.history).callsResolved.Nodup ∧
    (recorded f.history).callsUnresolved.Nodup ∧
    (recorded f.history).overridesResolved.Nodup ∧
    (recorded f.history).overridesUnresolved.Nodup

/-- Whatever is put into a new database, in any order, it is a faithful store of it. -/
theorem fill_faithful (steps : List Insertion) : (fill steps).Faithful steps where
  asked := (Filling.keeps_fill steps).asked
  load := (Filling.keeps_fill steps).holds.load
  definition_ids := (Filling.keeps_fill steps).holds.definition_ids
  declaration_ids := (Filling.keeps_fill steps).holds.declaration_ids
  distinct_ids := by
    have hkeeps := Filling.keeps_fill steps
    rw [hkeeps.holds.definition_ids, hkeeps.holds.declaration_ids]
    exact ⟨nodup_firstIds _, nodup_firstIds _⟩
  refused_iff := (Filling.keeps_fill steps).apply_eq_error_iff
  unchanged i fault h := by
    rw [Filling.put_of_error h]
    exact ⟨recorded_refused fault, rfl⟩
  entered i hnew := by
    have hkeeps := Filling.keeps_fill steps
    have hfree : ¬ i.Taken (recorded (fill steps).history) := fun htaken => by
      obtain ⟨earlier, hearlier, hsame⟩ := (hkeeps.taken_iff i).mp htaken
      exact hnew earlier hearlier hsame
    exact ⟨_, apply_of_not_taken hkeeps.holds hfree⟩
  passed_over i hi hbody := by
    have hkeeps := Filling.keeps_fill steps
    exact apply_of_taken_link hkeeps.holds ((hkeeps.taken_iff i).mpr ⟨i, hi, rfl, rfl⟩) hbody
  distinct_links :=
    ⟨nodup_eraseDups _, nodup_eraseDups _, nodup_eraseDups _, nodup_eraseDups _⟩

/-- A refused row uses up no id, and a repeated call is not put in again. -/
example :
    (fill [.definition "a.cpp" "f()" ⟨1, 5⟩, .definition "a.cpp" "f()" ⟨1, 5⟩,
        .definition "a.cpp" "g()" ⟨7, 9⟩, .call true 1 2 3 4 false,
        .call true 1 2 3 4 false]).database.tables =
      [(.definitions, numbered [Database.bodyCells "a.cpp" "f()" ⟨1, 5⟩,
          Database.bodyCells "a.cpp" "g()" ⟨7, 9⟩]),
        (.declarations, []),
        (.callgraphResolved, numbered [callCells ⟨some 1, some 2, 3, 4, false⟩]),
        (.callgraphUnresolved, []), (.overridesResolved, []), (.overridesUnresolved, [])] := by
  decide +kernel

end CallAtlas.Store
