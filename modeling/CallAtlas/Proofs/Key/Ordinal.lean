import CallAtlas.Key.Ordinal
import Mathlib.Data.List.Nodup
import Mathlib.Data.List.Perm.Basic

/-!
# Ordinals are ranks

Sorting the places once and counting names along the way gives every source
its rank. The rank itself is then said without places: it is how many sources
of the same name stand earlier with lines not above, or later with lines below.
In that form one sees that sources of other names do not matter, so that keys
survive when other files are taken out or put in.
-/

namespace CallAtlas.Key

/-! ## The order of places -/

theorem Placed.before_trans (a b c : Placed) (hab : a.before b) (hbc : b.before c) :
    a.before c :=
  @Std.TransCmp.isLE_trans _ (compareLex _ _) _ a b c hab hbc

theorem Placed.before_total (a b : Placed) : (a.before b || b.before a) = true := by
  have h : compareLex (compareOn fun p : Placed => p.1.lines) (compareOn Prod.snd) a b =
      (compareLex (compareOn fun p : Placed => p.1.lines) (compareOn Prod.snd) b a).swap :=
    Std.OrientedCmp.eq_swap
  simp only [Placed.before, h]
  cases compareLex (compareOn fun p : Placed => p.1.lines) (compareOn Prod.snd) b a <;> rfl

theorem Placed.before_iff {a b : Placed} :
    a.before b ↔ compare a.1.lines b.1.lines = .lt ∨
      (compare a.1.lines b.1.lines = .eq ∧ a.2 ≤ b.2) := by
  simp only [Placed.before, compareLex, compareOn]
  cases compare a.1.lines b.1.lines <;> simp [Ordering.then, Nat.isLE_compare]

theorem Placed.snd_eq_of_before {a b : Placed} (hab : a.before b) (hba : b.before a) :
    a.2 = b.2 := by
  rw [Placed.before_iff] at hab hba
  rcases hab with hab | ⟨hab, h⟩
  · have hgt := Std.OrientedCmp.gt_of_lt hab
    rcases hba with hba | ⟨hba, _⟩
    · rw [hgt] at hba
      exact absurd hba (by decide)
    · rw [hgt] at hba
      exact absurd hba (by decide)
  · rcases hba with hba | ⟨_, h'⟩
    · rw [Std.OrientedCmp.eq_comm, hba] at hab
      exact absurd hab (by decide)
    · exact Nat.le_antisymm h h'

theorem eq_of_mem_zipIdx_of_snd_eq {sources : List Source} {a b : Placed}
    (ha : a ∈ sources.zipIdx) (hb : b ∈ sources.zipIdx) (h : a.2 = b.2) : a = b := by
  rw [List.mem_zipIdx_iff_getElem?] at ha hb
  rw [h, hb] at ha
  exact Prod.ext (Option.some.inj ha).symm h

theorem nodup_zipIdx (sources : List Source) : sources.zipIdx.Nodup := by
  apply List.Nodup.of_map Prod.snd
  rw [List.zipIdx_map_snd]
  exact List.nodup_range'

/-! ## Counting names in sorted order -/

/-- In sorted order what comes before a source stands in front of it. -/
theorem countP_before {sources : List Source} {done rest : List Placed} {p : Placed}
    (hmem : ∀ q ∈ done ++ p :: rest, q ∈ sources.zipIdx) (hnodup : (done ++ p :: rest).Nodup)
    (hsorted : (done ++ p :: rest).Pairwise fun a b => a.before b) (keep : Placed → Prop)
    [DecidablePred keep] :
    (done ++ p :: rest).countP (fun q => keep q ∧ q.before p ∧ q ≠ p) =
      done.countP fun q => keep q := by
  obtain ⟨_, hrest, hdone⟩ := List.pairwise_append.mp hsorted
  obtain ⟨_, _, hne⟩ := List.nodup_append.mp hnodup
  have hlater : rest.countP (fun q => keep q ∧ q.before p ∧ q ≠ p) = 0 := by
    rw [List.countP_eq_zero]
    intro q hq h
    obtain ⟨_, hqp, hdiff⟩ := of_decide_eq_true h
    have hpq := (List.pairwise_cons.mp hrest).1 q hq
    exact hdiff (eq_of_mem_zipIdx_of_snd_eq
      (hmem q (List.mem_append_right _ (List.mem_cons_of_mem _ hq)))
      (hmem p (List.mem_append_right _ List.mem_cons_self)) (Placed.snd_eq_of_before hqp hpq))
  have hearlier : done.countP (fun q => keep q ∧ q.before p ∧ q ≠ p) =
      done.countP fun q => keep q := by
    apply List.countP_congr
    intro q hq
    rw [decide_eq_true_eq, decide_eq_true_eq]
    constructor
    · rintro ⟨h, _⟩
      exact h
    · intro h
      exact ⟨h, hdone q hq p List.mem_cons_self, hne q hq p List.mem_cons_self⟩
  rw [List.countP_append, List.countP_cons, hlater, hearlier]
  simp

/-- In sorted order the rank of a source is how often its name comes before
it. -/
theorem rank_eq_count {sources : List Source} {done rest : List Placed} {p : Placed}
    (hperm : (done ++ p :: rest).Perm sources.zipIdx)
    (hsorted : (done ++ p :: rest).Pairwise fun a b => a.before b) :
    rank sources p = (done.map fun q => q.1.name).count p.1.name := by
  rw [rank, ← hperm.countP_eq, countP_before (fun q => hperm.mem_iff.mp)
    (hperm.nodup_iff.mpr (nodup_zipIdx sources)) hsorted, List.count_eq_countP, List.countP_map]
  exact List.countP_congr fun q _ => by simp

/-- Behind the part `done` of the sorted sources, every source is numbered by
its rank. -/
theorem numberFrom_eq_map_rank {sources : List Source} {sorted : List Placed}
    (hperm : sorted.Perm sources.zipIdx) (hsorted : sorted.Pairwise fun a b => a.before b) :
    ∀ (rest done : List Placed) (seen : List (String × Signature)), sorted = done ++ rest →
      (∀ name, seen.count name = (done.map fun q => q.1.name).count name) →
      numberFrom seen rest = rest.map fun p => (p, rank sources p) := by
  intro rest
  induction rest with
  | nil =>
      intro done seen _ _
      rfl
  | cons p rest ih =>
      intro done seen hsplit hseen
      subst hsplit
      rw [numberFrom, List.map_cons, hseen, ← rank_eq_count hperm hsorted]
      congr 1
      apply ih (done ++ [p]) _ (by rw [List.append_assoc, List.singleton_append])
      intro name
      rw [List.count_cons, hseen, List.map_append, List.count_append, List.map_singleton,
        List.count_singleton]

theorem pairwise_zipIdx_snd_le (sources : List Source) :
    sources.zipIdx.Pairwise fun a b => a.2 ≤ b.2 := by
  have hrange : (sources.zipIdx.map Prod.snd).Pairwise (· < ·) := by
    rw [List.zipIdx_map_snd]
    exact List.pairwise_lt_range'
  exact (List.pairwise_map.mp hrange).imp fun h => Nat.le_of_lt h

theorem pairwise_mergeSort_place (numbered : List (Placed × Nat)) :
    (numbered.mergeSort fun a b => a.1.2 ≤ b.1.2).Pairwise fun a b => a.1.2 ≤ b.1.2 := by
  have h : (numbered.mergeSort fun a b => a.1.2 ≤ b.1.2).Pairwise
      fun a b => decide (a.1.2 ≤ b.1.2) = true := by
    apply List.pairwise_mergeSort
    · intro a b c hab hbc
      exact decide_eq_true (Nat.le_trans (of_decide_eq_true hab) (of_decide_eq_true hbc))
    · intro a b
      rw [Bool.or_eq_true, decide_eq_true_eq, decide_eq_true_eq]
      exact Nat.le_total _ _
  exact h.imp of_decide_eq_true

theorem ordinals_eq_map_rank (sources : List Source) :
    ordinals sources = sources.zipIdx.map (rank sources) := by
  have hperm := List.mergeSort_perm sources.zipIdx Placed.before
  have hsorted := List.pairwise_mergeSort Placed.before_trans Placed.before_total sources.zipIdx
  have hnumber := numberFrom_eq_map_rank hperm hsorted _ [] [] rfl (fun _ => rfl)
  have hback : (numberFrom [] (sources.zipIdx.mergeSort Placed.before)).mergeSort
      (fun a b => decide (a.1.2 ≤ b.1.2)) = sources.zipIdx.map fun p => (p, rank sources p) := by
    rw [hnumber]
    refine List.Perm.eq_of_pairwise ?_ (pairwise_mergeSort_place _)
      (List.pairwise_map.mpr (pairwise_zipIdx_snd_le sources))
      ((List.mergeSort_perm _ _).trans (hperm.map _))
    intro a b ha hb hab hba
    obtain ⟨p, hp, rfl⟩ := List.mem_map.mp (List.mem_mergeSort.mp ha)
    obtain ⟨q, hq, rfl⟩ := List.mem_map.mp hb
    rw [eq_of_mem_zipIdx_of_snd_eq (hperm.mem_iff.mp hp) hq (Nat.le_antisymm hab hba)]
  rw [ordinals, hback, List.map_map]
  rfl

theorem length_zip_ordinals (sources : List Source) :
    (sources.zip (ordinals sources)).length = sources.length := by
  rw [List.length_zip, ordinals_eq_map_rank, List.length_map, List.length_zipIdx, Nat.min_self]

theorem getElem?_zip_ordinals {sources : List Source} {place : Nat} {s : Source}
    (h : sources[place]? = some s) :
    (sources.zip (ordinals sources))[place]? = some (s, rank sources (s, place)) := by
  have hrank : (ordinals sources)[place]? = some (rank sources (s, place)) := by
    rw [ordinals_eq_map_rank, List.getElem?_map, List.getElem?_zipIdx, h, Nat.zero_add]
    rfl
  exact List.getElem?_zip_eq_some.mpr ⟨h, hrank⟩

@[simp] theorem length_assign (sources : List Source) :
    (assign sources).length = sources.length := by
  rw [assign, List.length_map, length_zip_ordinals]

theorem getElem?_assign {sources : List Source} {place : Nat} {s : Source}
    (h : sources[place]? = some s) :
    (assign sources)[place]? = some (derive s.path s.signature (rank sources (s, place))) := by
  rw [assign, List.getElem?_map, getElem?_zip_ordinals h]
  rfl

/-! ## Ranks without places

From here on the things to be named are of any type that has a source, so that
what else they carry goes along. -/

/-- The sources that are told apart from `s` by their ordinals. -/
def namesakes (s : Source) (sources : List Source) : List Source :=
  sources.filter (·.name = s.name)

/-- The rank of `s` between what stands in front of it and what stands behind
it. -/
def rankBetween (earlier : List Source) (s : Source) (later : List Source) : Nat :=
  (namesakes s earlier).countP (fun q => (compare q.lines s.lines).isLE) +
    (namesakes s later).countP (fun q => compare q.lines s.lines = .lt)

theorem rank_append (earlier : List Source) (s : Source) (later : List Source) :
    rank (earlier ++ s :: later) (s, earlier.length) = rankBetween earlier s later := by
  have hearlier : earlier.zipIdx.countP
      (fun q : Placed => q.1.name = s.name ∧ q.before (s, earlier.length) ∧
        q ≠ (s, earlier.length)) =
      (namesakes s earlier).countP fun q => (compare q.lines s.lines).isLE := by
    rw [namesakes, List.countP_filter, ← List.zipIdx_map_fst 0 earlier, List.countP_map,
      List.zipIdx_map_fst]
    apply List.countP_congr
    intro q hq
    have hlt : q.2 < earlier.length := by simpa using List.snd_lt_add_of_mem_zipIdx hq
    have hne : q ≠ (s, earlier.length) := fun h => by simp [h] at hlt
    cases h : compare q.1.lines s.lines <;>
      simp [Placed.before_iff, h, hne, Nat.le_of_lt hlt, and_comm]
  have hlater : (later.zipIdx (earlier.length + 1)).countP
      (fun q : Placed => q.1.name = s.name ∧ q.before (s, earlier.length) ∧
        q ≠ (s, earlier.length)) =
      (namesakes s later).countP fun q => compare q.lines s.lines = .lt := by
    rw [namesakes, List.countP_filter, ← List.zipIdx_map_fst (earlier.length + 1) later,
      List.countP_map, List.zipIdx_map_fst]
    apply List.countP_congr
    intro q hq
    have hlt : earlier.length < q.2 := List.le_snd_of_mem_zipIdx hq
    have hne : q ≠ (s, earlier.length) := fun h => by simp [h] at hlt
    cases h : compare q.1.lines s.lines <;>
      simp [Placed.before_iff, h, hne, hlt]
  rw [rank, List.zipIdx_append, List.zipIdx_cons, List.countP_append, List.countP_cons,
    Nat.zero_add, hearlier, hlater]
  simp [rankBetween]

variable {α : Type} (source : α → Source)

/-- The items behind `earlier`, each with its rank. -/
def numberedFrom (earlier : List Source) : List α → List (α × Nat)
  | [] => []
  | a :: later =>
      (a, rankBetween earlier (source a) (later.map source)) ::
        numberedFrom (earlier ++ [source a]) later

/-- Items with their ordinals. -/
def numbered (items : List α) : List (α × Nat) :=
  numberedFrom source [] items

theorem zip_rank_eq_numberedFrom (sources : List Source) :
    ∀ (later : List α) (earlier : List Source), sources = earlier ++ later.map source →
      later.zip (((later.map source).zipIdx earlier.length).map (rank sources)) =
        numberedFrom source earlier later := by
  intro later
  induction later with
  | nil =>
      intro earlier _
      rfl
  | cons a later ih =>
      intro earlier hsplit
      have htail := ih (earlier ++ [source a])
        (by rw [hsplit, List.append_assoc, List.singleton_append, List.map_cons])
      rw [List.length_append, List.length_singleton] at htail
      rw [List.map_cons, List.zipIdx_cons, List.map_cons, List.zip_cons_cons, htail, numberedFrom,
        hsplit, List.map_cons, rank_append]

theorem zip_ordinals (items : List α) :
    items.zip (ordinals (items.map source)) = numbered source items := by
  rw [ordinals_eq_map_rank]
  exact zip_rank_eq_numberedFrom source _ items [] rfl

theorem zip_map_zip {β γ : Type} (f : α → β) (g : β × Nat → γ) (items : List α)
    (numbers : List Nat) :
    items.zip (((items.map f).zip numbers).map g) =
      (items.zip numbers).map fun p => (p.1, g (f p.1, p.2)) := by
  induction items generalizing numbers with
  | nil => rfl
  | cons a items ih =>
      cases numbers with
      | nil => rfl
      | cons n numbers => simp [ih]

theorem zip_assign (items : List α) :
    items.zip (assign (items.map source)) = (numbered source items).map fun p =>
      (p.1, derive (source p.1).path (source p.1).signature p.2) := by
  rw [← zip_ordinals, assign, zip_map_zip]

/-! ## Items of other names do not matter -/

/-- A choice of sources by their names. -/
def ByName (keep : Source → Bool) : Prop :=
  ∀ a b, a.name = b.name → keep a = keep b

theorem namesakes_filter {keep : Source → Bool} (hkeep : ByName keep) {s : Source}
    (hs : keep s) (sources : List Source) :
    namesakes s (sources.filter keep) = namesakes s sources := by
  rw [namesakes, List.filter_filter]
  apply List.filter_congr
  intro q _
  by_cases h : q.name = s.name
  · simp [h, hkeep q s h, hs]
  · simp [h]

theorem filter_numberedFrom {keep : Source → Bool} (hkeep : ByName keep)
    (items : List α) (earlier : List Source) :
    (numberedFrom source earlier items).filter (fun p => keep (source p.1)) =
      numberedFrom source (earlier.filter keep) (items.filter fun a => keep (source a)) := by
  induction items generalizing earlier with
  | nil => rfl
  | cons a later ih =>
      have hmap : (later.filter fun a => keep (source a)).map source =
          (later.map source).filter keep := List.filter_map.symm
      by_cases ha : keep (source a)
      · simp only [numberedFrom, List.filter_cons, ha, if_true, ih, List.filter_append,
          List.filter_nil, rankBetween, hmap, namesakes_filter hkeep ha]
      · simp only [numberedFrom, List.filter_cons, ha, if_false, ih, List.filter_append,
          List.filter_nil, List.append_nil, Bool.false_eq_true]

/-- Ordinals are kept when items of other names are left out. -/
theorem filter_numbered {keep : Source → Bool} (hkeep : ByName keep) (items : List α) :
    (numbered source items).filter (fun p => keep (source p.1)) =
      numbered source (items.filter fun a => keep (source a)) :=
  filter_numberedFrom source hkeep items []

theorem namesakes_eq_nil {s : Source} {sources : List Source}
    (h : ∀ q ∈ sources, q.name ≠ s.name) : namesakes s sources = [] := by
  rw [namesakes, List.filter_eq_nil_iff]
  intro q hq
  simpa using h q hq

theorem rankBetween_append_later {s : Source} {back : List Source}
    (h : ∀ q ∈ back, q.name ≠ s.name) (earlier later : List Source) :
    rankBetween earlier s (later ++ back) = rankBetween earlier s later := by
  have hback := namesakes_eq_nil h
  rw [namesakes] at hback
  rw [rankBetween, rankBetween, namesakes, namesakes, namesakes, List.filter_append, hback,
    List.append_nil]

theorem rankBetween_append_earlier {s : Source} {front : List Source}
    (h : ∀ q ∈ front, q.name ≠ s.name) (earlier later : List Source) :
    rankBetween (front ++ earlier) s later = rankBetween earlier s later := by
  have hfront := namesakes_eq_nil h
  rw [namesakes] at hfront
  rw [rankBetween, rankBetween, namesakes, namesakes, namesakes, List.filter_append, hfront,
    List.nil_append]

theorem numberedFrom_append {front back : List α}
    (hother : ∀ a ∈ front, ∀ b ∈ back, (source b).name ≠ (source a).name)
    (earlier : List Source) :
    numberedFrom source earlier (front ++ back) =
      numberedFrom source earlier front ++
        numberedFrom source (earlier ++ front.map source) back := by
  induction front generalizing earlier with
  | nil => simp [numberedFrom]
  | cons a front ih =>
      have ha : ∀ q ∈ back.map source, q.name ≠ (source a).name := by
        intro q hq
        obtain ⟨b, hb, rfl⟩ := List.mem_map.mp hq
        exact hother a List.mem_cons_self b hb
      rw [List.cons_append, numberedFrom, List.map_append, rankBetween_append_later ha,
        ih fun x hx => hother x (List.mem_cons_of_mem _ hx), numberedFrom, List.cons_append,
        List.map_cons, List.append_assoc, List.singleton_append]

theorem numberedFrom_skip {items : List α} {skipped : List Source}
    (hother : ∀ a ∈ items, ∀ q ∈ skipped, q.name ≠ (source a).name) (earlier : List Source) :
    numberedFrom source (skipped ++ earlier) items = numberedFrom source earlier items := by
  induction items generalizing earlier with
  | nil => rfl
  | cons a later ih =>
      rw [numberedFrom, numberedFrom, rankBetween_append_earlier (hother a List.mem_cons_self),
        List.append_assoc, ih fun x hx => hother x (List.mem_cons_of_mem _ hx)]

/-- Ordinals are kept when items of other names are put in front or behind. -/
theorem numbered_append {front back : List α}
    (hother : ∀ a ∈ front, ∀ b ∈ back, (source b).name ≠ (source a).name) :
    numbered source (front ++ back) = numbered source front ++ numbered source back := by
  have hfront : ∀ b ∈ back, ∀ q ∈ front.map source, q.name ≠ (source b).name := by
    intro b hb q hq
    obtain ⟨a, ha, rfl⟩ := List.mem_map.mp hq
    exact (hother a ha b hb).symm
  rw [numbered, numberedFrom_append source hother, List.nil_append,
    ← List.append_nil (front.map source), numberedFrom_skip source hfront]
  rfl

end CallAtlas.Key
