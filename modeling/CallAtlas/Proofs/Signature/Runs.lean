import CallAtlas.Proofs.Signature
import Mathlib.Data.List.Induction
import Mathlib.Logic.Function.Iterate
import Mathlib.Logic.Relation

/-!
# Runs of blanks

A run of blanks is loose when a comma stands right before it or one of `*`, `&` right
behind it. Rewriting takes one blank at a time, and each pass may bring new characters
together; yet what it comes to is the text without its loose runs, all of them taken
out at once. So two texts are spellings of one signature exactly when loose runs are
all that they differ in.
-/

namespace CallAtlas

namespace Signature

/-! ## Loose runs -/

/-- Between what stands in front and what stands behind there are only blanks, and no
more blanks around them. -/
structure IsRun (front run back : List Char) : Prop where
  blank : ∀ c ∈ run, c = ' '
  front_ne : front.getLast? ≠ some ' '
  back_ne : back.head? ≠ some ' '

/-- A run right behind a comma or right before `*` or `&`. -/
structure IsLoose (front run back : List Char) : Prop extends IsRun front run back where
  loose : front.getLast? = some ',' ∨ back.head? = some '*' ∨ back.head? = some '&'

/-- The place lies in a loose run of the text. -/
def InLooseRun (text : List Char) (place : ℕ) : Prop :=
  ∃ front run back, text = front ++ run ++ back ∧ IsLoose front run back ∧
    front.length ≤ place ∧ place < front.length + run.length

/-- The second text is the first one without one of its loose runs. -/
inductive Drops : List Char → List Char → Prop where
  | drop {front run back : List Char} : run ≠ [] → IsLoose front run back →
      Drops (front ++ run ++ back) (front ++ back)

/-! ## The ends of a run -/

/-- The last character that is no blank. -/
def lastSolid? (text : List Char) : Option Char :=
  text.reverse.find? (· ≠ ' ')

/-- The first character that is no blank. -/
def firstSolid? (text : List Char) : Option Char :=
  text.find? (· ≠ ' ')

theorem lastSolid?_append_singleton (text : List Char) (c : Char) :
    lastSolid? (text ++ [c]) = if c = ' ' then lastSolid? text else some c := by
  rw [lastSolid?, List.reverse_append, List.reverse_singleton, List.singleton_append,
    List.find?_cons]
  by_cases h : c = ' ' <;> simp [h, lastSolid?]

theorem firstSolid?_cons (c : Char) (text : List Char) :
    firstSolid? (c :: text) = if c = ' ' then firstSolid? text else some c := by
  rw [firstSolid?, List.find?_cons]
  by_cases h : c = ' ' <;> simp [h, firstSolid?]

theorem lastSolid?_ne (text : List Char) : lastSolid? text ≠ some ' ' := by
  intro h
  simpa using List.find?_some h

theorem firstSolid?_ne (text : List Char) : firstSolid? text ≠ some ' ' := by
  intro h
  simpa using List.find?_some h

section

variable {front run back : List Char}

theorem lastSolid?_append_run (hrun : ∀ c ∈ run, c = ' ') (hfront : front.getLast? ≠ some ' ') :
    lastSolid? (front ++ run) = front.getLast? := by
  induction run using List.reverseRecOn with
  | nil =>
      rw [List.append_nil]
      induction front using List.reverseRecOn with
      | nil => rfl
      | append_singleton front c _ =>
          rw [List.getLast?_concat, ne_eq, Option.some.injEq] at hfront
          rw [lastSolid?_append_singleton, if_neg hfront, List.getLast?_concat]
  | append_singleton run c ih =>
      obtain rfl : c = ' ' := hrun c (List.mem_append_right _ List.mem_cons_self)
      rw [← List.append_assoc, lastSolid?_append_singleton, if_pos rfl]
      exact ih fun d hd => hrun d (List.mem_append_left _ hd)

theorem firstSolid?_run_append (hrun : ∀ c ∈ run, c = ' ') (hback : back.head? ≠ some ' ') :
    firstSolid? (run ++ back) = back.head? := by
  induction run with
  | nil =>
      cases back with
      | nil => rfl
      | cons c back =>
          rw [List.head?_cons, ne_eq, Option.some.injEq] at hback
          rw [List.nil_append, firstSolid?_cons, if_neg hback, List.head?_cons]
  | cons c run ih =>
      obtain ⟨rfl, hrest⟩ := List.forall_mem_cons.mp hrun
      rw [List.cons_append, firstSolid?_cons, if_pos rfl]
      exact ih hrest

theorem exists_run_at_end (text : List Char) :
    ∃ front run, text = front ++ run ∧ (∀ c ∈ run, c = ' ') ∧
      front.getLast? = lastSolid? text := by
  induction text using List.reverseRecOn with
  | nil => exact ⟨[], [], rfl, by simp, rfl⟩
  | append_singleton text c ih =>
      rw [lastSolid?_append_singleton]
      by_cases hblank : c = ' '
      · obtain ⟨front, run, rfl, hrun, hlast⟩ := ih
        refine ⟨front, run ++ [c], by rw [List.append_assoc], ?_, by rw [if_pos hblank, hlast]⟩
        intro d hd
        rcases List.mem_append.mp hd with hd | hd
        · exact hrun d hd
        · exact (List.mem_singleton.mp hd).trans hblank
      · refine ⟨text ++ [c], [], (List.append_nil _).symm, by simp, ?_⟩
        rw [if_neg hblank, List.getLast?_concat]

theorem exists_run_at_start (text : List Char) :
    ∃ run back, text = run ++ back ∧ (∀ c ∈ run, c = ' ') ∧ back.head? = firstSolid? text := by
  induction text with
  | nil => exact ⟨[], [], rfl, by simp, rfl⟩
  | cons c text ih =>
      rw [firstSolid?_cons]
      by_cases hblank : c = ' '
      · obtain ⟨run, back, rfl, hrun, hhead⟩ := ih
        exact ⟨c :: run, back, rfl, List.forall_mem_cons.mpr ⟨hblank, hrun⟩,
          by rw [if_pos hblank, hhead]⟩
      · exact ⟨[], c :: text, rfl, by simp, by rw [if_neg hblank, List.head?_cons]⟩

end

theorem exists_cut {f run b front back : List Char} {c : Char}
    (h : f ++ run ++ b = front ++ c :: back) (hle : f.length ≤ front.length)
    (hlt : front.length < f.length + run.length) :
    ∃ r r', front = f ++ r ∧ run = r ++ c :: r' ∧ back = r' ++ b := by
  obtain ⟨r, rfl⟩ : f <+: front :=
    List.prefix_of_prefix_length_le ⟨run ++ b, by rw [← h, List.append_assoc]⟩ ⟨_, rfl⟩ hle
  rw [List.append_assoc, List.append_assoc, List.append_cancel_left_eq] at h
  rw [List.length_append] at hlt
  obtain ⟨rest, rfl⟩ : r <+: run :=
    List.prefix_of_prefix_length_le ⟨c :: back, h.symm⟩ ⟨b, rfl⟩ (by omega)
  rw [List.append_assoc, List.append_cancel_left_eq] at h
  rw [List.length_append] at hlt
  cases rest with
  | nil =>
      rw [List.length_nil] at hlt
      omega
  | cons d r' =>
      obtain ⟨rfl, rfl⟩ := List.cons.inj h
      exact ⟨r, r', rfl, rfl, rfl⟩

/-- What stands before a run makes it loose, or what stands behind. -/
def Loosens (before after : Option Char) : Prop :=
  before = some ',' ∨ after = some '*' ∨ after = some '&'

instance (before after : Option Char) : Decidable (Loosens before after) :=
  inferInstanceAs (Decidable (_ ∨ _ ∨ _))

/-- Whether a place lies in a loose run is settled by the nearest characters that are
no blanks. -/
theorem inLooseRun_iff {front back : List Char} {c : Char} :
    InLooseRun (front ++ c :: back) front.length ↔
      c = ' ' ∧ Loosens (lastSolid? front) (firstSolid? back) := by
  constructor
  · rintro ⟨f, run, b, htext, ⟨⟨hblank, hfront, hback⟩, hloosens⟩, hle, hlt⟩
    obtain ⟨r, r', rfl, rfl, rfl⟩ :
        ∃ r r', front = f ++ r ∧ run = r ++ c :: r' ∧ back = r' ++ b :=
      exists_cut htext.symm hle hlt
    obtain ⟨hr, hc, hr'⟩ : (∀ d ∈ r, d = ' ') ∧ c = ' ' ∧ ∀ d ∈ r', d = ' ' := by
      simpa [or_imp, forall_and] using hblank
    rw [lastSolid?_append_run hr hfront, firstSolid?_run_append hr' hback]
    exact ⟨hc, hloosens⟩
  · rintro ⟨rfl, hloosens⟩
    obtain ⟨f, r, rfl, hr, hlast⟩ := exists_run_at_end front
    obtain ⟨r', b, rfl, hr', hhead⟩ := exists_run_at_start back
    have hrun : ∀ c ∈ r ++ ' ' :: r', c = ' ' := by
      intro c hc
      rcases List.mem_append.mp hc with hc | hc
      · exact hr c hc
      · rcases List.mem_cons.mp hc with hc | hc
        · exact hc
        · exact hr' c hc
    refine ⟨f, r ++ ' ' :: r', b, by simp, ⟨⟨hrun, ?_, ?_⟩, ?_⟩, by simp, by simp⟩
    · rw [hlast]
      exact lastSolid?_ne _
    · rw [hhead]
      exact firstSolid?_ne _
    · rw [hlast, hhead]
      exact hloosens

instance (text : List Char) (place : ℕ) : Decidable (InLooseRun text place) :=
  if h : place < text.length then
    decidable_of_iff (text[place] = ' ' ∧
        Loosens (lastSolid? (text.take place)) (firstSolid? (text.drop (place + 1)))) <| by
      rw [← inLooseRun_iff, List.length_take_of_le (Nat.le_of_lt h), ← List.drop_eq_getElem_cons,
        List.take_append_drop]
  else
    isFalse fun ⟨front, run, back, htext, _, _, hlt⟩ => h <| by
      rw [htext, List.length_append, List.length_append]
      omega

/-- What stands outside of loose runs. -/
def withoutLoose (text : List Char) : List Char :=
  (text.zipIdx.filter fun (_, place) => ¬ InLooseRun text place).map (·.1)

/-! ## Reading once -/

theorem tightFrom_solid {c : Char} (hc : c ≠ ' ') (comma : Bool) (pending : ℕ)
    (text : List Char) :
    tightFrom comma pending (c :: text) =
      (if c = '*' ∨ c = '&' then [] else List.replicate pending ' ') ++
        c :: tightFrom (c = ',') 0 text := by
  rw [tightFrom, if_neg hc]
  split
  case isTrue hstar =>
    have hcomma : c ≠ ',' := by
      rintro rfl
      simp at hstar
    rw [decide_eq_false hcomma, List.nil_append]
  case isFalse => rfl

/-- Blanks that are held back are kept unless `*` or `&` comes behind them. -/
theorem tightFrom_pending (pending : ℕ) (text : List Char) :
    tightFrom false pending text =
      (if Loosens none (firstSolid? text) then [] else List.replicate pending ' ') ++
        tightFrom false 0 text := by
  induction text generalizing pending with
  | nil => simp [tightFrom, Loosens, firstSolid?]
  | cons c text ih =>
      rw [firstSolid?_cons]
      by_cases hblank : c = ' '
      · have hstep (held : ℕ) : tightFrom false held (c :: text) =
            tightFrom false (held + 1) text := by
          simp [tightFrom, hblank]
        rw [hstep, hstep, ih (pending + 1), ih (0 + 1), if_pos hblank]
        split <;> simp [List.replicate_succ']
      · rw [tightFrom_solid hblank, tightFrom_solid hblank, if_neg hblank]
        simp [Loosens]

/-- What is read behind `front`: a blank goes if its run is loose, all else stays. -/
theorem tightFrom_cons (front : List Char) (c : Char) (back : List Char) :
    tightFrom (lastSolid? front = some ',') 0 (c :: back) =
      (if c = ' ' ∧ Loosens (lastSolid? front) (firstSolid? back) then [] else [c]) ++
        tightFrom (lastSolid? (front ++ [c]) = some ',') 0 back := by
  rw [lastSolid?_append_singleton]
  by_cases hblank : c = ' '
  · by_cases hcomma : lastSolid? front = some ','
    · simp [tightFrom, hblank, hcomma, Loosens]
    · have hloosens : Loosens (lastSolid? front) (firstSolid? back) ↔
          Loosens none (firstSolid? back) := by
        simp [Loosens, hcomma]
      simp only [tightFrom, hblank, hcomma, hloosens, decide_false, if_true, true_and,
        Bool.false_eq_true, if_false]
      rw [tightFrom_pending]
      rfl
  · simp [tightFrom_solid hblank, hblank]

theorem withoutLoose_eq_tight (text : List Char) : withoutLoose text = tight text := by
  -- the same for what stands behind any part of a text
  have hbehind (front back : List Char) :
      ((back.zipIdx front.length).filter
          fun (_, place) => ¬ InLooseRun (front ++ back) place).map (·.1) =
        tightFrom (lastSolid? front = some ',') 0 back := by
    induction back generalizing front with
    | nil => rfl
    | cons c back ih =>
        have hrest := ih (front ++ [c])
        rw [List.append_assoc, List.singleton_append, List.length_append,
          List.length_singleton] at hrest
        rw [tightFrom_cons, ← hrest, List.zipIdx_cons]
        by_cases hloose : c = ' ' ∧ Loosens (lastSolid? front) (firstSolid? back)
        · rw [if_pos hloose,
            List.filter_cons_of_neg (by simpa using inLooseRun_iff.mpr hloose)]
          rfl
        · rw [if_neg hloose,
            List.filter_cons_of_pos (by simpa using fun h => hloose (inLooseRun_iff.mp h))]
          rfl
  exact hbehind [] text

/-! ## Taking out runs -/

section

variable {text : List Char}

theorem withoutLoose_eq_self (h : ∀ place, ¬ InLooseRun text place) : withoutLoose text = text := by
  rw [withoutLoose, List.filter_eq_self.mpr fun entry _ => by simpa using h entry.2,
    List.zipIdx_map_fst]

theorem drops_of_inLooseRun {place : ℕ} (h : InLooseRun text place) : ∃ other, Drops text other := by
  obtain ⟨front, run, back, rfl, hloose, hle, hlt⟩ := h
  refine ⟨_, .drop ?_ hloose⟩
  rintro rfl
  rw [List.length_nil] at hlt
  omega

theorem Drops.length_lt {other : List Char} (h : Drops text other) :
    other.length < text.length := by
  cases h with
  | drop hne _ =>
      have := List.length_pos_iff.mpr hne
      simp only [List.length_append]
      omega

/-- What is read alike behind any text is read alike behind a longer one. -/
theorem tightFrom_append_congr {s t : List Char}
    (h : ∀ comma pending, tightFrom comma pending s = tightFrom comma pending t)
    (front : List Char) (comma : Bool) (pending : ℕ) :
    tightFrom comma pending (front ++ s) = tightFrom comma pending (front ++ t) := by
  induction front generalizing comma pending with
  | nil => exact h comma pending
  | cons c front ih => simp only [List.cons_append, tightFrom, ih]

theorem tightFrom_run {run : List Char} (hrun : ∀ c ∈ run, c = ' ') (rest : List Char) :
    tightFrom true 0 (run ++ rest) = tightFrom true 0 rest := by
  induction run with
  | nil => rfl
  | cons c run ih =>
      obtain ⟨rfl, hrest⟩ := List.forall_mem_cons.mp hrun
      simpa [tightFrom] using ih hrest

theorem tightFrom_run_star {run : List Char} (hrun : ∀ c ∈ run, c = ' ') {c : Char}
    (hc : c = '*' ∨ c = '&') (rest : List Char) (comma : Bool) (pending : ℕ) :
    tightFrom comma pending (run ++ c :: rest) = c :: tightFrom false 0 rest := by
  induction run generalizing comma pending with
  | nil =>
      have hsolid : c ≠ ' ' := by
        rintro rfl
        simp at hc
      simp [tightFrom, hsolid, hc]
  | cons d run ih =>
      obtain ⟨rfl, hrest⟩ := List.forall_mem_cons.mp hrun
      cases comma <;> simp [tightFrom, ih hrest]

/-- Taking out a loose run changes nothing for the one-pass reading. -/
theorem Drops.tight_eq {other : List Char} (h : Drops text other) : tight text = tight other := by
  cases h with
  | @drop front run back _ hloose =>
      obtain ⟨⟨hrun, -, -⟩, hloosens⟩ := hloose
      rw [List.append_assoc]
      rcases hloosens with hcomma | hstar
      · obtain ⟨front, rfl⟩ := List.getLast?_eq_some_iff.mp hcomma
        rw [List.append_assoc, List.append_assoc]
        refine tightFrom_append_congr (fun comma pending => ?_) front false 0
        rw [List.singleton_append, List.singleton_append, tightFrom_solid (by decide),
          tightFrom_solid (by decide), decide_eq_true rfl, tightFrom_run hrun]
      · obtain ⟨c, rest, hc, rfl⟩ : ∃ c rest, (c = '*' ∨ c = '&') ∧ back = c :: rest := by
          rcases hstar with hstar | hstar
          · obtain ⟨rest, rfl⟩ := List.head?_eq_some_iff.mp hstar
            exact ⟨_, rest, Or.inl rfl, rfl⟩
          · obtain ⟨rest, rfl⟩ := List.head?_eq_some_iff.mp hstar
            exact ⟨_, rest, Or.inr rfl, rfl⟩
        refine tightFrom_append_congr (fun comma pending => ?_) front false 0
        rw [tightFrom_run_star hrun hc]
        exact (tightFrom_run_star (List.forall_mem_nil _) hc rest comma pending).symm

end

/-! ## Rewriting -/

/-- A pass does not change what is read. -/
theorem tight_rewriteOnce (text : List Char) : tight (rewriteOnce text) = tight text := by
  have hcomma (text : List Char) (comma : Bool) (pending : ℕ) :
      tightFrom comma pending (replacePair ',' ' ' ',' text) = tightFrom comma pending text := by
    fun_induction replacePair ',' ' ' ',' text generalizing comma pending with
    | case1 => rfl
    | case2 => rfl
    | case3 _ _ rest h ih =>
        obtain ⟨rfl, rfl⟩ := h
        simp [tightFrom, ih]
    | case4 _ _ _ _ ih =>
        rw [tightFrom, tightFrom]
        simp only [ih]
  have hstar {k : Char} (hk : k = '*' ∨ k = '&') (text : List Char) (comma : Bool) (pending : ℕ) :
      tightFrom comma pending (replacePair ' ' k k text) = tightFrom comma pending text := by
    fun_induction replacePair ' ' k k text generalizing comma pending with
    | case1 => rfl
    | case2 => rfl
    | case3 a b rest h ih =>
        obtain ⟨rfl, rfl⟩ := h
        have hrun : ∀ c ∈ [' '], c = ' ' := fun _ hc => List.mem_singleton.mp hc
        calc tightFrom comma pending (b :: replacePair ' ' b b rest)
            = b :: tightFrom false 0 (replacePair ' ' b b rest) :=
              tightFrom_run_star (List.forall_mem_nil _) hk _ comma pending
          _ = b :: tightFrom false 0 rest := by rw [ih]
          _ = tightFrom comma pending (' ' :: b :: rest) :=
              (tightFrom_run_star hrun hk rest comma pending).symm
    | case4 _ _ _ _ ih =>
        rw [tightFrom, tightFrom]
        simp only [ih]
  rw [rewriteOnce, tight, hstar (Or.inr rfl), hstar (Or.inl rfl), hcomma]
  rfl

theorem length_replacePair_lt {p q k : Char} {text : List Char} (h : [p, q] <:+: text) :
    (replacePair p q k text).length < text.length := by
  fun_induction replacePair p q k text with
  | case1 => simp at h
  | case2 =>
      have := h.length_le
      simp at this
  | case3 _ _ rest _ ih =>
      have := length_replacePair_le p q k rest
      simp only [List.length_cons]
      omega
  | case4 a b rest hpair ih =>
      have hrest : [p, q] <:+: b :: rest := by
        rcases List.infix_cons_iff.mp h with hhead | htail
        · exact absurd (by simpa [eq_comm] using hhead) hpair
        · exact htail
      have := ih hrest
      simp only [List.length_cons] at this ⊢
      omega

theorem not_infix_of_rewriteOnce_eq {text : List Char} (h : rewriteOnce text = text) :
    ¬ [',', ' '] <:+: text ∧ ¬ [' ', '*'] <:+: text ∧ ¬ [' ', '&'] <:+: text := by
  have h₁ := length_replacePair_le ',' ' ' ',' text
  have h₂ := length_replacePair_le ' ' '*' '*' (replacePair ',' ' ' ',' text)
  have h₃ := length_replacePair_le ' ' '&' '&'
    (replacePair ' ' '*' '*' (replacePair ',' ' ' ',' text))
  have hlength : (rewriteOnce text).length = text.length := congrArg List.length h
  rw [rewriteOnce] at hlength
  have hcomma := replacePair_eq_of_length ',' ' ' ',' text (by omega)
  rw [hcomma] at hlength h₂ h₃
  have hstar := replacePair_eq_of_length ' ' '*' '*' text (by omega)
  rw [hstar] at hlength
  refine ⟨fun hpair => ?_, fun hpair => ?_, fun hpair => ?_⟩
  · exact Nat.ne_of_lt (length_replacePair_lt hpair) (congrArg List.length hcomma)
  · exact Nat.ne_of_lt (length_replacePair_lt hpair) (congrArg List.length hstar)
  · exact Nat.ne_of_lt (length_replacePair_lt hpair) hlength

/-- Passes go on as long as there is a loose run. -/
theorem Drops.rewriteOnce_ne {text other : List Char} (h : Drops text other) :
    rewriteOnce text ≠ text := by
  intro hfixed
  obtain ⟨hcomma, hstar, hamp⟩ := not_infix_of_rewriteOnce_eq hfixed
  cases h with
  | @drop front run back hne hloose =>
      obtain ⟨⟨hrun, -, -⟩, hloosens⟩ := hloose
      rcases hloosens with hbefore | hbehind
      · obtain ⟨front, rfl⟩ := List.getLast?_eq_some_iff.mp hbefore
        obtain ⟨c, rest, rfl⟩ := List.exists_cons_of_ne_nil hne
        obtain rfl : c = ' ' := hrun c List.mem_cons_self
        exact hcomma ⟨front, rest ++ back, by simp⟩
      · have hlast : run.getLast hne = ' ' := hrun _ (List.getLast_mem hne)
        rw [← List.dropLast_concat_getLast hne, hlast] at hstar hamp
        rcases hbehind with hbehind | hbehind
        · obtain ⟨rest, rfl⟩ := List.head?_eq_some_iff.mp hbehind
          exact hstar ⟨front ++ run.dropLast, rest, by simp⟩
        · obtain ⟨rest, rfl⟩ := List.head?_eq_some_iff.mp hbehind
          exact hamp ⟨front ++ run.dropLast, rest, by simp⟩

/-- Rewriting comes to the text without its loose runs. -/
theorem normalize_eq_withoutLoose (text : List Char) : normalize text = withoutLoose text := by
  fun_induction normalize text with
  | case1 text hfixed =>
      refine (withoutLoose_eq_self fun place hloose => ?_).symm
      obtain ⟨other, hdrops⟩ := drops_of_inLooseRun hloose
      exact hdrops.rewriteOnce_ne hfixed
  | case2 text _ ih => rw [ih, withoutLoose_eq_tight, withoutLoose_eq_tight, tight_rewriteOnce]

/-- Loose runs can be taken out one by one until none is left. -/
theorem eqvGen_drops_withoutLoose (text : List Char) :
    Relation.EqvGen Drops text (withoutLoose text) := by
  by_cases h : ∃ place, InLooseRun text place
  · obtain ⟨place, hplace⟩ := h
    obtain ⟨other, hdrops⟩ := drops_of_inLooseRun hplace
    have hrest := eqvGen_drops_withoutLoose other
    rw [withoutLoose_eq_tight, ← hdrops.tight_eq, ← withoutLoose_eq_tight] at hrest
    exact .trans _ _ _ (.rel _ _ hdrops) hrest
  · rw [withoutLoose_eq_self (not_exists.mp h)]
    exact .refl text
termination_by text.length
decreasing_by exact hdrops.length_lt

theorem normalize_eq_of_eqvGen {text other : List Char} (h : Relation.EqvGen Drops text other) :
    normalize text = normalize other := by
  induction h with
  | rel text other hdrops =>
      rw [normalize_eq_withoutLoose, normalize_eq_withoutLoose, withoutLoose_eq_tight,
        withoutLoose_eq_tight, hdrops.tight_eq]
  | refl text => rfl
  | symm text other _ ih => exact ih.symm
  | trans text between other _ _ ih ih' => exact ih.trans ih'

/-- As many passes as change something lead to the result. -/
theorem exists_passes (text : List Char) :
    ∃ passes, rewriteOnce^[passes] text = normalize text ∧
      ∀ n < passes, rewriteOnce^[n + 1] text ≠ rewriteOnce^[n] text := by
  fun_induction normalize text with
  | case1 text _ => exact ⟨0, rfl, fun n hn => absurd hn (Nat.not_lt_zero n)⟩
  | case2 text hchanged ih =>
      obtain ⟨passes, hresult, hall⟩ := ih
      refine ⟨passes + 1, hresult, fun n hn => ?_⟩
      cases n with
      | zero => exact hchanged
      | succ n => exact hall n (Nat.lt_of_succ_lt_succ hn)

/-- Rewriting ends with the first pass that changes nothing, and comes to the text
without its loose runs. So it leaves its own result alone, and two texts come to the
same exactly when one turns into the other by loose runs that are taken out or put
in. -/
theorem normalize_takes_out_loose_runs (text : List Char) :
    (∃ passes, rewriteOnce^[passes] text = normalize text ∧
        rewriteOnce (normalize text) = normalize text ∧
        ∀ n < passes, rewriteOnce^[n + 1] text ≠ rewriteOnce^[n] text) ∧
      normalize text = withoutLoose text ∧
      normalize (normalize text) = normalize text ∧
      ∀ other, normalize text = normalize other ↔ Relation.EqvGen Drops text other := by
  obtain ⟨passes, hresult, hall⟩ := exists_passes text
  refine ⟨⟨passes, hresult, rewriteOnce_normalize text, hall⟩, normalize_eq_withoutLoose text,
    normalize_normalize text, fun other => ⟨fun h => ?_, normalize_eq_of_eqvGen⟩⟩
  have hown := eqvGen_drops_withoutLoose text
  rw [← normalize_eq_withoutLoose, h, normalize_eq_withoutLoose] at hown
  exact .trans _ _ _ hown (.symm _ _ (eqvGen_drops_withoutLoose other))

/-- Runs that are loose on both sides, next to each other or at an end go; the one
between two words stays. -/
example :
    withoutLoose "f( *,  &, int  x,  ".toList = "f(*,&,int  x,".toList ∧
      normalize "f( *,  &, int  x,  ".toList = "f(*,&,int  x,".toList := by
  decide +kernel

end Signature

end CallAtlas
