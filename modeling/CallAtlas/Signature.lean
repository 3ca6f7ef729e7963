/-!
# Signatures

A compiler does not print the blanks of a signature the same way in every
build: `f(int *, char &)` in one is `f(int*,char&)` in the next. A signature
is therefore brought to one spelling before it is compared, hashed or stored.

Two descriptions of that spelling stand here. `normalize` rewrites: it applies
three replacements over and over until none of them changes anything. `tight`
reads the text once: a run of blanks is dropped when a comma stands before it
or one of `*`, `&` after it.
-/

namespace CallAtlas

namespace Signature

/-! ## Rewriting until nothing changes -/

/-- Replaces every pair `p q` by the single character `k`, from left to right
and without overlaps. -/
def replacePair (p q k : Char) : List Char → List Char
  | [] => []
  | [a] => [a]
  | a :: b :: rest =>
      if a = p ∧ b = q then k :: replacePair p q k rest
      else a :: replacePair p q k (b :: rest)

/-- One pass: a blank after a comma, before `*` and before `&`. -/
def rewriteOnce (text : List Char) : List Char :=
  replacePair ' ' '&' '&' (replacePair ' ' '*' '*' (replacePair ',' ' ' ',' text))

theorem length_replacePair_le (p q k : Char) (text : List Char) :
    (replacePair p q k text).length ≤ text.length := by
  fun_induction replacePair p q k text with
  | case1 => simp
  | case2 => simp
  | case3 => simp only [List.length_cons] at *; omega
  | case4 => simp only [List.length_cons] at *; omega

/-- A replacement that does not shorten the text leaves it alone. -/
theorem replacePair_eq_of_length (p q k : Char) (text : List Char)
    (h : text.length ≤ (replacePair p q k text).length) : replacePair p q k text = text := by
  fun_induction replacePair p q k text with
  | case1 => rfl
  | case2 => rfl
  | case3 _ _ rest _ ih =>
      have := length_replacePair_le p q k rest
      simp only [List.length_cons] at h
      omega
  | case4 _ _ _ _ ih =>
      simp only [List.length_cons] at h ih
      rw [ih (by omega)]

theorem length_rewriteOnce_lt {text : List Char} (h : rewriteOnce text ≠ text) :
    (rewriteOnce text).length < text.length := by
  rcases Nat.lt_or_ge (rewriteOnce text).length text.length with hlt | hge
  · exact hlt
  · refine absurd ?_ h
    have h₁ := length_replacePair_le ',' ' ' ',' text
    have h₂ := length_replacePair_le ' ' '*' '*' (replacePair ',' ' ' ',' text)
    have h₃ := length_replacePair_le ' ' '&' '&'
      (replacePair ' ' '*' '*' (replacePair ',' ' ' ',' text))
    unfold rewriteOnce at hge ⊢
    rw [replacePair_eq_of_length ' ' '&' '&' _ (by omega),
      replacePair_eq_of_length ' ' '*' '*' _ (by omega),
      replacePair_eq_of_length ',' ' ' ',' _ (by omega)]

/-- Passes are repeated until one of them changes nothing. -/
def normalize (text : List Char) : List Char :=
  if rewriteOnce text = text then text else normalize (rewriteOnce text)
termination_by text.length
decreasing_by exact length_rewriteOnce_lt (by assumption)

/-! ## Reading once -/

/-- Reads the text once. `comma` says that the last character kept was a comma
and only blanks have followed it; `pending` counts blanks whose fate the next
character decides. -/
def tightFrom (comma : Bool) (pending : Nat) : List Char → List Char
  | [] => List.replicate pending ' '
  | c :: rest =>
      if c = ' ' then
        if comma then tightFrom true 0 rest else tightFrom false (pending + 1) rest
      else if c = '*' ∨ c = '&' then c :: tightFrom false 0 rest
      else List.replicate pending ' ' ++ c :: tightFrom (c = ',') 0 rest

/-- The text without the runs of blanks that follow a comma or precede `*` or
`&`. -/
def tight (text : List Char) : List Char :=
  tightFrom false 0 text

end Signature

structure Signature where
  text : String
deriving DecidableEq, Repr, Inhabited

namespace Signature

def canonical (raw : String) : Signature :=
  ⟨String.ofList (normalize raw.toList)⟩

def IsCanonical (s : Signature) : Prop :=
  canonical s.text = s

instance (s : Signature) : Decidable s.IsCanonical :=
  inferInstanceAs (Decidable (_ = _))

instance : Ord Signature where
  compare := compareOn text

instance : Std.TransOrd Signature :=
  inferInstanceAs (Std.TransCmp (compareOn _))

instance : Std.LawfulEqOrd Signature where
  eq_of_compare {a b} h := by
    cases a
    cases b
    exact congrArg mk (Std.LawfulEqOrd.eq_of_compare (α := String) h)

end Signature

end CallAtlas
