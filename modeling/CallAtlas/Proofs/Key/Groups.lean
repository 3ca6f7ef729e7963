import CallAtlas.Proofs.Distinct
import CallAtlas.Proofs.Key.Ordinal

/-!
# Keys group by group

Keys may also be given out one group at a time: the places of the sources that
share a name are sorted, and each gets the key with its number in the group. A
group settles nothing about the places of another one, so that the groups may
come in any order, such as the one in which a hash table happens to hold them.
-/

namespace CallAtlas.Key

/-- The sources of one name in the order of their ordinals. -/
def group (sources : List Source) (name : String × Signature) : List Placed :=
  (sources.zipIdx.filter (·.1.name = name)).mergeSort Placed.before

/-- The keys of one group, each with the place it belongs to. -/
def groupKeys (sources : List Source) (name : String × Signature) : List (Nat × Key) :=
  (group sources name).zipIdx.map fun (p, ordinal) => (p.2, derive name.1 name.2 ordinal)

/-- Writes each value at its place. -/
def writeAll (keys : List Key) (values : List (Nat × Key)) : List Key :=
  values.foldl (fun keys (place, key) => keys.set place key) keys

/-- The key of each source, in list order, the groups taken in the order of
these names. -/
def assignAlong (order : List (String × Signature)) (sources : List Source) : List Key :=
  writeAll (List.replicate sources.length ⟨0⟩) (order.flatMap (groupKeys sources))

/-- Every name that occurs, once and in any order. -/
def Enumerates (order : List (String × Signature)) (sources : List Source) : Prop :=
  order.Nodup ∧ ∀ name, name ∈ order ↔ ∃ s ∈ sources, s.name = name

/-- The names may come in any other order. -/
theorem Enumerates.perm {order order' : List (String × Signature)} {sources : List Source}
    (h : Enumerates order sources) (hperm : order'.Perm order) : Enumerates order' sources :=
  ⟨hperm.nodup_iff.mpr h.1, fun _ => hperm.mem_iff.trans (h.2 _)⟩

/-! ## One group -/

section

variable {sources : List Source} {name : String × Signature}

theorem perm_group (sources : List Source) (name : String × Signature) :
    (group sources name).Perm (sources.zipIdx.filter (·.1.name = name)) :=
  List.mergeSort_perm _ _

theorem mem_group {p : Placed} :
    p ∈ group sources name ↔ p ∈ sources.zipIdx ∧ p.1.name = name := by
  rw [(perm_group sources name).mem_iff, List.mem_filter, decide_eq_true_iff]

theorem rank_of_getElem?_group {p : Placed} {ordinal : Nat}
    (h : (group sources name)[ordinal]? = some p) : rank sources p = ordinal := by
  obtain ⟨hlt, hget⟩ := List.getElem?_eq_some_iff.mp h
  have hsplit : group sources name =
      (group sources name).take ordinal ++ p :: (group sources name).drop (ordinal + 1) := by
    rw [← hget, ← List.drop_eq_getElem_cons hlt, List.take_append_drop]
  have hname : p.1.name = name := (mem_group.mp (List.mem_of_getElem? h)).2
  have hsorted : (group sources name).Pairwise fun a b => a.before b :=
    List.pairwise_mergeSort Placed.before_trans Placed.before_total _
  have hnodup : (group sources name).Nodup :=
    (perm_group sources name).nodup_iff.mpr ((nodup_zipIdx sources).filter _)
  have hmem : ∀ q ∈ group sources name, q ∈ sources.zipIdx := fun q hq => (mem_group.mp hq).1
  have hcount : rank sources p =
      (group sources name).countP fun q => True ∧ q.before p ∧ q ≠ p := by
    rw [rank, (perm_group sources name).countP_eq, List.countP_filter, hname]
    exact List.countP_congr fun q _ => by simp [and_comm]
  rw [hsplit] at hmem hnodup hsorted hcount
  rw [hcount, countP_before hmem hnodup hsorted fun _ => True]
  simp [Nat.min_eq_left (Nat.le_of_lt hlt)]

theorem mem_groupKeys {place : Nat} {key : Key} :
    (place, key) ∈ groupKeys sources name ↔
      ∃ s, sources[place]? = some s ∧ s.name = name ∧
        key = derive s.path s.signature (rank sources (s, place)) := by
  rw [groupKeys, List.mem_map]
  constructor
  · rintro ⟨⟨⟨s, _⟩, ordinal⟩, hordinal, heq⟩
    cases heq
    have hget := List.mem_zipIdx_iff_getElem?.mp hordinal
    obtain ⟨hplaced, rfl⟩ := mem_group.mp (List.mem_of_getElem? hget)
    refine ⟨s, List.mem_zipIdx_iff_getElem?.mp hplaced, rfl, ?_⟩
    rw [rank_of_getElem?_group hget]
    rfl
  · rintro ⟨s, hsource, rfl, rfl⟩
    have hplaced : (s, place) ∈ group sources s.name :=
      mem_group.mpr ⟨List.mem_zipIdx_iff_getElem?.mpr hsource, rfl⟩
    obtain ⟨ordinal, hordinal⟩ := List.mem_iff_getElem?.mp hplaced
    refine ⟨((s, place), ordinal), List.mem_zipIdx_iff_getElem?.mpr hordinal, ?_⟩
    rw [rank_of_getElem?_group hordinal]
    rfl

end

/-! ## All groups -/

theorem length_writeAll (keys : List Key) (values : List (Nat × Key)) :
    (writeAll keys values).length = keys.length := by
  induction values generalizing keys with
  | nil => rfl
  | cons value values ih => exact (ih _).trans (List.length_set ..)

/-- A place for which there is only one value has it in the end. -/
theorem getElem?_writeAll {values : List (Nat × Key)} {place : Nat} {key : Key}
    (honly : ∀ other, (place, other) ∈ values → other = key) {keys : List Key}
    (hlt : place < keys.length) (h : keys[place]? = some key ∨ (place, key) ∈ values) :
    (writeAll keys values)[place]? = some key := by
  induction values generalizing keys with
  | nil =>
      rcases h with h | h
      · exact h
      · cases h
  | cons value values ih =>
      obtain ⟨here, value⟩ := value
      refine ih (fun other hother => honly other (List.mem_cons_of_mem _ hother))
        (by rwa [List.length_set]) ?_
      by_cases hplace : here = place
      · subst hplace
        rw [List.getElem?_set_self hlt, honly value List.mem_cons_self]
        exact Or.inl rfl
      · rw [List.getElem?_set_ne hplace]
        rcases h with h | h
        · exact Or.inl h
        · rcases List.mem_cons.mp h with heq | h
          · exact absurd (congrArg Prod.fst heq).symm hplace
          · exact Or.inr h

/-- The order of the groups does not matter. -/
theorem assignAlong_eq {order : List (String × Signature)} {sources : List Source}
    (h : Enumerates order sources) : assignAlong order sources = assign sources := by
  apply List.ext_getElem?
  intro place
  by_cases hlt : place < sources.length
  · have hsource := List.getElem?_eq_getElem hlt
    rw [getElem?_assign hsource]
    refine getElem?_writeAll ?_ (by rwa [List.length_replicate]) (Or.inr ?_)
    · intro other hother
      obtain ⟨name, _, hkey⟩ := List.mem_flatMap.mp hother
      obtain ⟨s, hs, _, rfl⟩ := mem_groupKeys.mp hkey
      rw [hsource] at hs
      cases hs
      rfl
    · exact List.mem_flatMap.mpr ⟨_, (h.2 _).mpr ⟨_, List.getElem_mem hlt, rfl⟩,
        mem_groupKeys.mpr ⟨_, hsource, rfl, rfl⟩⟩
  · rw [List.getElem?_eq_none, List.getElem?_eq_none]
    · rw [length_assign]
      exact Nat.le_of_not_lt hlt
    · rw [assignAlong, length_writeAll, List.length_replicate]
      exact Nat.le_of_not_lt hlt

/-- A way to give out keys group by group, in an order of its own for each
list. -/
def GroupByGroup (assignment : List Source → List Key) : Prop :=
  ∃ order : List Source → List (String × Signature),
    (∀ sources, Enumerates (order sources) sources) ∧
      assignment = fun sources => assignAlong (order sources) sources

theorem GroupByGroup.eq_assign {assignment : List Source → List Key}
    (h : GroupByGroup assignment) : assignment = assign := by
  obtain ⟨order, horder, rfl⟩ := h
  funext sources
  exact assignAlong_eq (horder sources)

theorem enumerates_eraseDups (sources : List Source) :
    Enumerates (sources.map Source.name).eraseDups sources := by
  refine ⟨nodup_eraseDups _, fun name => ?_⟩
  rw [List.mem_eraseDups, List.mem_map]

theorem groupByGroup_assign : GroupByGroup assign :=
  ⟨fun sources => (sources.map Source.name).eraseDups, enumerates_eraseDups,
    funext fun sources => (assignAlong_eq (enumerates_eraseDups sources)).symm⟩

end CallAtlas.Key
