import Mathlib.Data.List.Count
import Mathlib.Data.List.Perm.Basic
import Mathlib.Order.Lattice

/-!
# Partial sorts

A partial sort brings the elements with the least keys to the front of a list. An element is among
the first ones if there are too few others to push it out.
-/

namespace FastLivo.Lib

variable {α K : Type*} [LE K] {key : α → K} {sort : ℕ → List α → List α}

/-- What a partial sort promises of its first elements. -/
structure PartialSorts (key : α → K) (sort : ℕ → List α → List α) : Prop where
  perm : ∀ n l, (sort n l).Perm l
  first_le : ∀ n l, ∀ x ∈ (sort n l).take n, ∀ y ∈ (sort n l).drop n, key x ≤ key y

/-- `p` holds of whatever could stand before `t`. -/
theorem PartialSorts.mem_take (h : PartialSorts key sort) {l : List α} {n : ℕ} {t : α}
    {p : α → Bool} (hn : n ≤ l.length) (ht : t ∈ l)
    (hp : ∀ x ∈ l, key x ≤ key t → x ≠ t → p x = true) (hfew : l.countP p < n) :
    t ∈ (sort n l).take n := by
  by_contra hout
  have hsplit : (sort n l).take n ++ (sort n l).drop n = sort n l := List.take_append_drop n _
  have hmem : t ∈ (sort n l).take n ++ (sort n l).drop n := by
    rw [hsplit]
    exact (h.perm n l).mem_iff.mpr ht
  have hdrop := (List.mem_append.mp hmem).resolve_left hout
  have hall : ∀ x ∈ (sort n l).take n, p x = true := fun x hx =>
    hp x ((h.perm n l).mem_iff.mp (List.mem_of_mem_take hx)) (h.first_le n l x hx t hdrop)
      (fun heq => hout (heq ▸ hx))
  have hlength : ((sort n l).take n).length = n := by
    rw [List.length_take, (h.perm n l).length_eq]
    omega
  have hcount : ((sort n l).take n).countP p = n := by
    rw [List.countP_eq_length.mpr hall, hlength]
  have htotal : (sort n l).countP p = l.countP p := (h.perm n l).countP_eq p
  rw [← hsplit, List.countP_append, hcount] at htotal
  omega

/-- A whole sort is a partial one. -/
theorem partialSorts_mergeSort {K : Type*} [LinearOrder K] (key : α → K) :
    PartialSorts key fun _ l => l.mergeSort fun a b => decide (key a ≤ key b) where
  perm _ l := List.mergeSort_perm l _
  first_le n l x hx y hy := by
    have htrans : ∀ a b c, decide (key a ≤ key b) = true → decide (key b ≤ key c) = true →
        decide (key a ≤ key c) = true := fun a b c hab hbc =>
      decide_eq_true (le_trans (of_decide_eq_true hab) (of_decide_eq_true hbc))
    have htotal : ∀ a b, (decide (key a ≤ key b) || decide (key b ≤ key a)) = true :=
      fun a b => by simpa using le_total (key a) (key b)
    have hsorted := List.pairwise_mergeSort htrans htotal l
    rw [← List.take_append_drop n (l.mergeSort _), List.pairwise_append] at hsorted
    exact of_decide_eq_true (hsorted.2.2 x hx y hy)

end FastLivo.Lib
