import CallAtlas.Signature

/-!
# Canonical spelling

Rewriting goes on until it changes nothing, so it leaves its own result alone. Two
spellings of a signature are one signature once both are canonical.
-/

namespace CallAtlas

namespace Signature

/-- One more pass changes nothing. -/
theorem rewriteOnce_normalize (text : List Char) :
    rewriteOnce (normalize text) = normalize text := by
  fun_induction normalize text with
  | case1 text hfixed => exact hfixed
  | case2 text _ ih => exact ih

theorem normalize_eq_self {text : List Char} (h : rewriteOnce text = text) :
    normalize text = text := by
  rw [normalize, if_pos h]

theorem normalize_normalize (text : List Char) : normalize (normalize text) = normalize text :=
  normalize_eq_self (rewriteOnce_normalize text)

theorem isCanonical_canonical (raw : String) : (canonical raw).IsCanonical := by
  rw [IsCanonical, canonical, canonical, String.toList_ofList, normalize_normalize]

/-- Canonical signatures that are spellings of one signature are equal. -/
theorem IsCanonical.eq_of_canonical_eq {s t : Signature} (hs : s.IsCanonical)
    (ht : t.IsCanonical) (h : canonical s.text = canonical t.text) : s = t :=
  hs.symm.trans (h.trans ht)

end Signature

end CallAtlas
