import CallAtlas.Proofs.Key.Groups
import Mathlib.Data.String.Basic

/-!
# What keys are digested from

The bytes behind a key say what the key names, as long as the path has no zero byte:
the first zero byte ends the path, and the ordinal has a fixed length, so that nothing
a signature holds can be taken for one of these ends. Ordinals tell apart what shares
path and signature. So no two functions of a list are digested from the same bytes, and
keys that are equal all the same show two inputs that the digest does not tell apart.
-/

namespace CallAtlas.Key

/-! ## Reading the bytes back -/

theorem utf8_injective : Function.Injective utf8 := by
  intro s t h
  have hbytes : (String.ofList s.toList).toByteArray = (String.ofList t.toList).toByteArray := by
    rw [String.toByteArray_ofList, String.toByteArray_ofList]
    exact congrArg List.toByteArray h
  rwa [String.toByteArray_inj, String.ofList_toList, String.ofList_toList] at hbytes

theorem eq_of_bytes_eq (count : ℕ) {n m : ℕ} (hn : n < 256 ^ count) (hm : m < 256 ^ count)
    (h : ∀ i < count, n / 256 ^ i % 256 = m / 256 ^ i % 256) : n = m := by
  induction count generalizing n m with
  | zero =>
      rw [pow_zero, Nat.lt_one_iff] at hn hm
      rw [hn, hm]
  | succ count ih =>
      have hfirst := h 0 (Nat.succ_pos count)
      rw [pow_zero, Nat.div_one, Nat.div_one] at hfirst
      have hrest : n / 256 = m / 256 := by
        refine ih (Nat.div_lt_of_lt_mul ?_) (Nat.div_lt_of_lt_mul ?_) fun i hi => ?_
        · rwa [← pow_succ']
        · rwa [← pow_succ']
        · rw [Nat.div_div_eq_div_mul, Nat.div_div_eq_div_mul, ← pow_succ']
          exact h (i + 1) (Nat.succ_lt_succ hi)
      omega

theorem ordinalBytes_inj {n m : ℕ} (hn : n < 2 ^ 64) (hm : m < 2 ^ 64)
    (h : ordinalBytes n = ordinalBytes m) : n = m := by
  refine eq_of_bytes_eq 8 hn hm fun i hi => ?_
  have hbyte := List.map_inj_left.mp h i (List.mem_range.mpr hi)
  exact congrArg UInt8.toNat hbyte

theorem length_ordinalBytes (n : ℕ) : (ordinalBytes n).length = 8 := by
  rw [ordinalBytes, List.length_map, List.length_range]

/-- What stands in front of the first zero byte, and what stands behind it. -/
theorem eq_of_append_zero_eq {front front' back back' : List UInt8} (hfront : 0 ∉ front)
    (hfront' : 0 ∉ front') (h : front ++ 0 :: back = front' ++ 0 :: back') :
    front = front' ∧ back = back' := by
  induction front generalizing front' with
  | nil =>
      cases front' with
      | nil => exact ⟨rfl, (List.cons.inj h).2⟩
      | cons b front' =>
          obtain ⟨rfl, -⟩ := List.cons.inj h
          exact absurd List.mem_cons_self hfront'
  | cons a front ih =>
      cases front' with
      | nil =>
          obtain ⟨rfl, -⟩ := List.cons.inj h
          exact absurd List.mem_cons_self hfront
      | cons b front' =>
          obtain ⟨rfl, hrest⟩ := List.cons.inj h
          rw [List.mem_cons, not_or] at hfront hfront'
          obtain ⟨rfl, hback⟩ := ih hfront.2 hfront'.2 hrest
          exact ⟨rfl, hback⟩

/-- Path, signature and ordinal can be read off the bytes of a key. -/
theorem material_inj {path path' : String} {signature signature' : Signature} {n m : ℕ}
    (hpath : 0 ∉ utf8 path) (hpath' : 0 ∉ utf8 path') (hn : n < 2 ^ 64) (hm : m < 2 ^ 64)
    (h : material path signature n = material path' signature' m) :
    path = path' ∧ signature = signature' ∧ n = m := by
  obtain ⟨hnames, hends⟩ := List.append_inj' h
    (by rw [List.length_cons, List.length_cons, length_ordinalBytes, length_ordinalBytes])
  obtain ⟨hpaths, hsignatures⟩ := eq_of_append_zero_eq hpath hpath' hnames
  refine ⟨utf8_injective hpaths, ?_, ordinalBytes_inj hn hm (List.cons.inj hends).2⟩
  cases signature
  cases signature'
  exact congrArg Signature.mk (utf8_injective hsignatures)

/-- A zero byte in a path can be taken for the one that closes it. -/
example : material "a\x00b" ⟨"c"⟩ 0 = material "a" ⟨"b\x00c"⟩ 0 := by
  decide +kernel

/-! ## The bytes of a list -/

/-- The bytes that the key of each source is digested from, in list order. -/
def materials (sources : List Source) : List (List UInt8) :=
  (sources.zip (ordinals sources)).map fun (s, n) => material s.path s.signature n

/-- Sources whose bytes can be read back: their paths have no zero byte, and their
ordinals fit into eight bytes. -/
structure Plain (sources : List Source) : Prop where
  few : sources.length < 2 ^ 64
  clean : ∀ s ∈ sources, 0 ∉ utf8 s.path

/-- The key of each source, in list order, where `H` digests. -/
def assignBy (H : List UInt8 → Key) (sources : List Source) : List Key :=
  (materials sources).map H

/-- The first eight bytes of the digest. -/
def digest (bytes : List UInt8) : Key :=
  ofBytes (Digest.hash bytes)

theorem assignBy_digest : assignBy digest = assign := by
  funext sources
  rw [assignBy, materials, List.map_map, assign]
  rfl

section

variable {sources : List Source}

theorem length_materials (sources : List Source) : (materials sources).length = sources.length := by
  rw [materials, List.length_map, length_zip_ordinals]

theorem getElem?_materials {place : ℕ} {s : Source} (h : sources[place]? = some s) :
    (materials sources)[place]? =
      some (material s.path s.signature (rank sources (s, place))) := by
  rw [materials, List.getElem?_map, getElem?_zip_ordinals h]
  rfl

theorem rank_lt (hplain : Plain sources) (p : Placed) : rank sources p < 2 ^ 64 := by
  refine Nat.lt_of_le_of_lt List.countP_le_length ?_
  rw [List.length_zipIdx]
  exact hplain.few

theorem eq_of_rank_eq {p q : Placed} (hp : p ∈ sources.zipIdx) (hq : q ∈ sources.zipIdx)
    (hname : p.1.name = q.1.name) (hrank : rank sources p = rank sources q) : p = q := by
  have hgroup (r : Placed) (hr : r ∈ sources.zipIdx) (hsame : r.1.name = q.1.name) :
      (group sources q.1.name)[rank sources r]? = some r := by
    obtain ⟨ordinal, hordinal⟩ := List.mem_iff_getElem?.mp (mem_group.mpr ⟨hr, hsame⟩)
    rwa [rank_of_getElem?_group hordinal]
  have hfound := hgroup p hp hname
  rw [hrank, hgroup q hq rfl] at hfound
  exact (Option.some.inj hfound).symm

/-- No two sources are digested from the same bytes. -/
theorem nodup_materials (hplain : Plain sources) : (materials sources).Nodup := by
  rw [List.nodup_iff_getElem?_ne_getElem?]
  intro i j hlt hj heq
  rw [length_materials] at hj
  have hi : i < sources.length := Nat.lt_trans hlt hj
  have hsi := List.getElem?_eq_getElem hi
  have hsj := List.getElem?_eq_getElem hj
  rw [getElem?_materials hsi, getElem?_materials hsj, Option.some.injEq] at heq
  obtain ⟨hpath, hsignature, hrank⟩ := material_inj (hplain.clean _ (List.getElem_mem hi))
    (hplain.clean _ (List.getElem_mem hj)) (rank_lt hplain _) (rank_lt hplain _) heq
  have hname : sources[i].name = sources[j].name := Prod.ext hpath hsignature
  have hsame := eq_of_rank_eq (List.mem_zipIdx_iff_getElem?.mpr hsi)
    (List.mem_zipIdx_iff_getElem?.mpr hsj) hname hrank
  exact Nat.ne_of_lt hlt (congrArg Prod.snd hsame)

end

end CallAtlas.Key
