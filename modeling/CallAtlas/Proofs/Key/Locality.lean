import CallAtlas.Proofs.Key.Groups
import Mathlib.Data.Fintype.Card
import Mathlib.Data.Prod.Lex

/-!
# Keys within one file

The ordinal of a source is the number of places at which a source of the same
name stands before it, by first line, last line and place. So the keys of one
file are settled by the sources of that file: they are those that the file gets
on its own, wherever in a list its sources stand. Its lines matter only by the
order in which they put the sources of one name.
-/

namespace CallAtlas.Key

/-- Keys that the sources may be given, their groups taken in some order. -/
def GivenOut (sources : List Source) (keys : List Key) : Prop :=
  ∃ order, Enumerates order sources ∧ assignAlong order sources = keys

/-- Where a source stands: by its lines, and then by its place. -/
def standing (s : Source) (place : ℕ) : ℕ ×ₗ ℕ ×ₗ ℕ :=
  toLex (s.lines.first.toNat, toLex (s.lines.last.toNat, place))

/-- The number of places at which a source of the same name stands before that
one. -/
def ordinalAt (sources : List Source) (i : Fin sources.length) : ℕ :=
  (Finset.univ.filter fun j : Fin sources.length =>
    sources[j].name = sources[i].name ∧ standing sources[j] j < standing sources[i] i).card

/-- The sources of one file. -/
def ofFile (path : String) (sources : List Source) : List Source :=
  sources.filter (·.path = path)

/-- The keys of the sources of one file. -/
def keysIn (path : String) (sources : List Source) (keys : List Key) : List Key :=
  ((sources.zip keys).filter (·.1.path = path)).map (·.2)

/-- The same names stand at the same places, and the lines put the sources of
one name in the same order. -/
structure OrderedAlike (sources others : List Source) : Prop where
  names_eq : sources.map Source.name = others.map Source.name
  lt_iff : ∀ (i j : Fin sources.length) (i' j' : Fin others.length), i.val = i'.val →
    j.val = j'.val → sources[i].name = sources[j].name →
      (standing sources[i] i < standing sources[j] j ↔
        standing others[i'] i' < standing others[j'] j')

/-! ## Ranks are numbers of places -/

theorem compare_lines_eq_lt {a b : Interval} :
    compare a b = .lt ↔
      a.first.toNat < b.first.toNat ∨
        a.first.toNat = b.first.toNat ∧ a.last.toNat < b.last.toNat := by
  show compareLex (compareOn Interval.first) (compareOn Interval.last) a b = .lt ↔ _
  rw [compareLex, compareOn, compareOn, Ordering.then_eq_lt, Std.compare_eq_lt,
    Std.compare_eq_lt, Std.compare_eq_iff_eq, UInt32.lt_iff_toNat_lt, UInt32.lt_iff_toNat_lt,
    UInt32.toNat_inj]

theorem lines_eq_iff {a b : Interval} :
    a = b ↔ a.first.toNat = b.first.toNat ∧ a.last.toNat = b.last.toNat := by
  rw [UInt32.toNat_inj, UInt32.toNat_inj, ← Interval.mk.injEq]

theorem before_and_ne_iff {a b : Placed} (hplace : a.2 = b.2 → a = b) :
    a.before b ∧ a ≠ b ↔ standing a.1 a.2 < standing b.1 b.2 := by
  have heq : a = b ↔ a.2 = b.2 := ⟨congrArg Prod.snd, hplace⟩
  have hlines (h : a.2 = b.2) : a.1.lines = b.1.lines := by rw [hplace h]
  rw [lines_eq_iff] at hlines
  rw [Placed.before_iff, compare_lines_eq_lt, Std.compare_eq_iff_eq, lines_eq_iff, Ne, heq,
    standing, standing, Prod.Lex.toLex_lt_toLex, Prod.Lex.toLex_lt_toLex]
  dsimp only
  omega

theorem zipIdx_eq_map_finRange (sources : List Source) :
    sources.zipIdx = (List.finRange sources.length).map fun j => (sources[j], j.val) := by
  apply List.ext_getElem
  · simp
  · intro place _ _
    simp

theorem rank_eq_ordinalAt {sources : List Source} (i : Fin sources.length) :
    rank sources (sources[i], i.val) = ordinalAt sources i := by
  have hcard (p : Fin sources.length → Prop) [DecidablePred p] :
      (Finset.univ.filter p).card = (List.finRange sources.length).countP p := by
    rw [List.countP_eq_length_filter]
    rfl
  rw [rank, ordinalAt, hcard, zipIdx_eq_map_finRange, List.countP_map]
  apply List.countP_congr
  intro j _
  have hplace (h : j.val = i.val) : (sources[j], j.val) = (sources[i], i.val) := by
    obtain rfl := Fin.ext h
    rfl
  rw [Function.comp_apply, decide_eq_true_iff, decide_eq_true_iff, before_and_ne_iff hplace]

/-! ## Sources in the same order -/

namespace OrderedAlike

variable {sources others : List Source}

theorem length_eq (h : OrderedAlike sources others) : sources.length = others.length := by
  simpa using congrArg List.length h.names_eq

theorem name_eq (h : OrderedAlike sources others) (i : Fin sources.length)
    (i' : Fin others.length) (hi : i.val = i'.val) : sources[i].name = others[i'].name := by
  have hnames : (sources.map Source.name)[i.val]? = (others.map Source.name)[i'.val]? := by
    rw [h.names_eq, hi]
  simpa using hnames

/-- An ordinal depends on the order of the sources of its name only. -/
theorem ordinalAt_eq (h : OrderedAlike sources others) {i : Fin sources.length}
    {i' : Fin others.length} (hi : i.val = i'.val) :
    ordinalAt sources i = ordinalAt others i' := by
  apply Finset.card_equiv (finCongr h.length_eq)
  intro j
  have hj : j.val = (finCongr h.length_eq j).val := rfl
  rw [Finset.mem_filter, Finset.mem_filter, ← h.name_eq i i' hi,
    ← h.name_eq j _ hj]
  simp only [Finset.mem_univ, true_and]
  exact and_congr_right fun hname => h.lt_iff j i _ i' hj hi hname

theorem assign_eq (h : OrderedAlike sources others) : assign sources = assign others := by
  apply List.ext_getElem?
  intro place
  by_cases hlt : place < sources.length
  · have hlt' : place < others.length := h.length_eq ▸ hlt
    rw [getElem?_assign (List.getElem?_eq_getElem hlt),
      getElem?_assign (List.getElem?_eq_getElem hlt')]
    have hrank : rank sources (sources[place], place) = rank others (others[place], place) :=
      (rank_eq_ordinalAt ⟨place, hlt⟩).trans ((h.ordinalAt_eq rfl).trans
        (rank_eq_ordinalAt ⟨place, hlt'⟩).symm)
    have hname : sources[place].name = others[place].name :=
      h.name_eq ⟨place, hlt⟩ ⟨place, hlt'⟩ rfl
    obtain ⟨hpath, hsignature⟩ := Prod.mk.inj hname
    rw [hrank, hpath, hsignature]
  · rw [List.getElem?_eq_none, List.getElem?_eq_none]
    · rw [length_assign, ← h.length_eq]
      exact Nat.le_of_not_lt hlt
    · rw [length_assign]
      exact Nat.le_of_not_lt hlt

end OrderedAlike

/-! ## Sources of one file -/

/-- The keys of a file in a list are those that the file gets on its own. -/
theorem keysIn_assign (path : String) (sources : List Source) :
    keysIn path sources (assign sources) = assign (ofFile path sources) := by
  have hkeep : ByName fun s => s.path = path := by
    intro a b hname
    have hpath : a.path = b.path := congrArg Prod.fst hname
    simp only [hpath]
  have hwhole := zip_assign id sources
  have hfile := zip_assign id (ofFile path sources)
  rw [List.map_id] at hwhole hfile
  have hkept := filter_numbered id hkeep sources
  calc keysIn path sources (assign sources)
      = (((numbered id sources).filter fun p => (id p.1).path = path).map fun p =>
          (p.1, derive p.1.path p.1.signature p.2)).map (·.2) := by
        rw [keysIn, hwhole, List.filter_map]
        rfl
    _ = ((ofFile path sources).zip (assign (ofFile path sources))).map (·.2) := by
        rw [hkept, hfile]
        rfl
    _ = assign (ofFile path sources) := List.map_snd_zip (by rw [length_assign])

theorem GivenOut.eq_assign {sources : List Source} {keys : List Key} (h : GivenOut sources keys) :
    keys = assign sources := by
  obtain ⟨order, horder, rfl⟩ := h
  exact assignAlong_eq horder

/-- In whatever order the groups are taken, each source has the key of its
ordinal. The keys of a file are those that the file gets on its own, and they
stay when the sources of other files are changed, or the lines of its own so
that the order within each name stays. -/
theorem keys_settled_by_file {sources : List Source} {keys : List Key}
    (h : GivenOut sources keys) :
    (keys.length = sources.length ∧ ∀ i : Fin sources.length,
      keys[i.val]? =
        some (derive sources[i].path sources[i].signature (ordinalAt sources i))) ∧
    (∀ path own, GivenOut (ofFile path sources) own → keysIn path sources keys = own) ∧
    ∀ path others keys', GivenOut others keys' →
      OrderedAlike (ofFile path sources) (ofFile path others) →
        keysIn path sources keys = keysIn path others keys' := by
  obtain rfl := h.eq_assign
  refine ⟨⟨length_assign sources, ?_⟩, ?_, ?_⟩
  · intro i
    rw [getElem?_assign (List.getElem?_eq_getElem i.isLt), ← rank_eq_ordinalAt]
    rfl
  · intro path own hown
    rw [hown.eq_assign, keysIn_assign]
  · intro path others keys' hothers halike
    rw [hothers.eq_assign, keysIn_assign, keysIn_assign, halike.assign_eq]

/-- Three functions of one signature, two of them with the same lines, and
another file between these. -/
def interleaved : List Source :=
  [⟨"a.c", ⟨"f()"⟩, ⟨9, 12⟩⟩, ⟨"a.c", ⟨"f()"⟩, ⟨3, 5⟩⟩, ⟨"b.c", ⟨"f()"⟩, ⟨1, 2⟩⟩,
    ⟨"a.c", ⟨"g()"⟩, ⟨20, 21⟩⟩, ⟨"a.c", ⟨"f()"⟩, ⟨3, 5⟩⟩]

/-- The first file alone, one function moved up and the others down. -/
def shifted : List Source :=
  [⟨"a.c", ⟨"f()"⟩, ⟨19, 22⟩⟩, ⟨"a.c", ⟨"f()"⟩, ⟨13, 15⟩⟩, ⟨"a.c", ⟨"g()"⟩, ⟨1, 2⟩⟩,
    ⟨"a.c", ⟨"f()"⟩, ⟨13, 15⟩⟩]

/-- Keys for which the groups are taken from the last one on. -/
def keysFromLast (sources : List Source) : List Key :=
  assignAlong (sources.map Source.name).eraseDups.reverse sources

theorem givenOut_keysFromLast (sources : List Source) : GivenOut sources (keysFromLast sources) :=
  ⟨_, (enumerates_eraseDups sources).perm (List.reverse_perm _), rfl⟩

theorem keys_settled_by_file_shifted :
    GivenOut interleaved (keysFromLast interleaved) ∧ GivenOut shifted (assign shifted) ∧
      OrderedAlike (ofFile "a.c" interleaved) (ofFile "a.c" shifted) ∧
      (keysFromLast interleaved)[0]? = some (derive "a.c" ⟨"f()"⟩ 2) ∧
      (keysFromLast interleaved)[1]? = some (derive "a.c" ⟨"f()"⟩ 0) ∧
      (keysFromLast interleaved)[4]? = some (derive "a.c" ⟨"f()"⟩ 1) ∧
      keysIn "a.c" interleaved (keysFromLast interleaved) =
        keysIn "a.c" shifted (assign shifted) := by
  have hlast := givenOut_keysFromLast interleaved
  have hshifted : GivenOut shifted (assign shifted) :=
    ⟨_, enumerates_eraseDups shifted, assignAlong_eq (enumerates_eraseDups shifted)⟩
  have halike : OrderedAlike (ofFile "a.c" interleaved) (ofFile "a.c" shifted) :=
    ⟨by decide +kernel, by decide +kernel⟩
  obtain ⟨⟨-, hkeys⟩, -, hlocal⟩ := keys_settled_by_file hlast
  refine ⟨hlast, hshifted, halike, ?_, ?_, ?_, hlocal _ _ _ hshifted halike⟩
  · exact hkeys ⟨0, by decide⟩
  · exact hkeys ⟨1, by decide⟩
  · exact hkeys ⟨4, by decide⟩

end CallAtlas.Key
