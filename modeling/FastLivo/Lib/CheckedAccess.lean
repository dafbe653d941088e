import Mathlib.Data.List.Basic

/-!
# Checked memory accesses

Copies out of a memory and into it that fail outside of it, loops of such copies, and the bytes
that a loop over rows and columns touches.
-/

namespace FastLivo.Lib

variable {α β σ : Type*}

/-- So many bytes at an address, if all of them lie inside. -/
def loadBytes (memory : List α) (address width : ℕ) : Option (List α) :=
  if address + width ≤ memory.length then some ((memory.drop address).take width) else none

/-- The memory after these bytes are written at an address, if all of them lie inside. -/
def storeBytes (memory : List α) (address : ℕ) (bytes : List α) : Option (List α) :=
  if address + bytes.length ≤ memory.length then
    some (memory.take address ++ bytes ++ memory.drop (address + bytes.length))
  else none

theorem isSome_loadBytes_iff {memory : List α} {address width : ℕ} :
    (loadBytes memory address width).isSome ↔ address + width ≤ memory.length := by
  rw [loadBytes, Option.isSome_ite]

theorem length_of_loadBytes {memory bytes : List α} {address width : ℕ}
    (h : loadBytes memory address width = some bytes) : bytes.length = width := by
  have hfits : address + width ≤ memory.length :=
    isSome_loadBytes_iff.mp (Option.isSome_of_eq_some h)
  rw [loadBytes, if_pos hfits] at h
  obtain rfl := Option.some.inj h
  rw [List.length_take, List.length_drop]
  omega

theorem isSome_storeBytes_iff {memory bytes : List α} {address : ℕ} :
    (storeBytes memory address bytes).isSome ↔ address + bytes.length ≤ memory.length := by
  rw [storeBytes, Option.isSome_ite]

/-- A write keeps the size of the memory. -/
theorem length_of_storeBytes {memory memory' bytes : List α} {address : ℕ}
    (h : storeBytes memory address bytes = some memory') : memory'.length = memory.length := by
  have hfits : address + bytes.length ≤ memory.length :=
    isSome_storeBytes_iff.mp (Option.isSome_of_eq_some h)
  rw [storeBytes, if_pos hfits] at h
  obtain rfl := Option.some.inj h
  rw [List.length_append, List.length_append, List.length_take, List.length_drop]
  omega

/-! ## Loops -/

/-- A computation and what comes behind it, where that depends on its result in no way. -/
theorem isSome_bind_iff {x : Option α} {f : α → Option β} {P Q : Prop} (hx : x.isSome ↔ P)
    (hf : ∀ a, x = some a → ((f a).isSome ↔ Q)) : (x.bind f).isSome ↔ P ∧ Q := by
  cases x with
  | none => exact ⟨fun hnone => absurd hnone Bool.false_ne_true, fun hboth => hx.mpr hboth.1⟩
  | some a => exact (hf a rfl).trans ⟨fun hQ => ⟨hx.mp rfl, hQ⟩, fun hboth => hboth.2⟩

theorem isSome_mapM_iff {f : α → Option β} {l : List α} :
    (l.mapM f).isSome ↔ ∀ a ∈ l, (f a).isSome := by
  induction l with
  | nil => simp
  | cons a l ih =>
    rw [List.mapM_cons, List.forall_mem_cons, ← ih]
    cases f a with
    | none => simp
    | some b => cases l.mapM f <;> simp

/-- A loop whose turns succeed under a condition that the state has no part in. -/
theorem isSome_foldlM_iff {f : σ → α → Option σ} (I : σ → Prop) (P : α → Prop) {l : List α}
    (hturn : ∀ a ∈ l, ∀ s, I s → ((f s a).isSome ↔ P a))
    (hkeep : ∀ a ∈ l, ∀ s t, I s → f s a = some t → I t) {s : σ} (hs : I s) :
    (l.foldlM f s).isSome ↔ ∀ a ∈ l, P a := by
  induction l generalizing s with
  | nil => simp
  | cons a l ih =>
    obtain ⟨hturn_a, hturn⟩ := List.forall_mem_cons.mp hturn
    obtain ⟨hkeep_a, hkeep⟩ := List.forall_mem_cons.mp hkeep
    rw [List.foldlM_cons, List.forall_mem_cons, ← hturn_a s hs]
    cases hstep : f s a with
    | none => simp
    | some t =>
      have htail := ih hturn hkeep (hkeep_a s t hs hstep)
      simpa using htail

/-- What every turn of a loop keeps. -/
theorem foldlM_keeps {f : σ → α → Option σ} (I : σ → Prop) {l : List α}
    (hkeep : ∀ a ∈ l, ∀ s t, I s → f s a = some t → I t) {s t : σ} (hs : I s)
    (h : l.foldlM f s = some t) : I t := by
  induction l generalizing s with
  | nil =>
    obtain rfl := Option.some.inj h
    exact hs
  | cons a l ih =>
    obtain ⟨hkeep_a, hkeep⟩ := List.forall_mem_cons.mp hkeep
    rw [List.foldlM_cons] at h
    obtain ⟨u, hu, h⟩ := Option.bind_eq_some_iff.mp h
    exact ih hkeep (hkeep_a s u hs hu) h

/-- A loop over indices, with what holds before each of its turns. -/
theorem foldlM_range'_spec {f : σ → ℕ → Option σ} (first n : ℕ) (I : ℕ → σ → Prop) (P : ℕ → Prop)
    (hturn : ∀ i, first ≤ i → i < first + n → ∀ s, I i s → ((f s i).isSome ↔ P i) ∧
      ∀ t, f s i = some t → I (i + 1) t) {s : σ} (hs : I first s) :
    (((List.range' first n).foldlM f s).isSome ↔ ∀ i, first ≤ i → i < first + n → P i) ∧
      ∀ t, (List.range' first n).foldlM f s = some t → I (first + n) t := by
  induction n generalizing first s with
  | zero =>
    refine ⟨⟨fun _ i hlow hhigh => absurd hlow (by omega), fun _ => rfl⟩, fun t ht => ?_⟩
    exact Option.some.inj ht ▸ hs
  | succ n ih =>
    obtain ⟨hfirst, hkeep⟩ := hturn first (Nat.le_refl first) (by omega) s hs
    rw [List.range'_succ, List.foldlM_cons]
    cases hstep : f s first with
    | none =>
      rw [hstep] at hfirst
      refine ⟨⟨fun hnone => absurd hnone Bool.false_ne_true, fun hall => ?_⟩, fun t hnone => ?_⟩
      · exact absurd (hfirst.mpr (hall first (Nat.le_refl first) (by omega))) Bool.false_ne_true
      · cases hnone
    | some t =>
      have htail := ih (first + 1) (fun i hlow hhigh => hturn i (by omega) (by omega)) (hkeep t hstep)
      rw [hstep] at hfirst
      refine ⟨htail.1.trans ⟨fun hall i hlow hhigh => ?_, fun hall i hlow hhigh => ?_⟩,
        fun u hu => ?_⟩
      · rcases Nat.eq_or_lt_of_le hlow with rfl | hlt
        · exact hfirst.mp rfl
        · exact hall i hlt (by omega)
      · exact hall i (by omega) (by omega)
      · rw [show first + (n + 1) = first + 1 + n by omega]
        exact htail.2 u hu

theorem drop_of_getElem? {l : List α} {i : ℕ} {a : α} (h : l[i]? = some a) :
    l.drop i = a :: l.drop (i + 1) := by
  obtain ⟨hi, rfl⟩ := List.getElem?_eq_some_iff.mp h
  exact List.drop_eq_getElem_cons hi

/-- A loop over indices that stay inside folds the elements there. -/
theorem foldlM_range'_read {f : σ → α → σ} {l : List α} {i m : ℕ} {s : σ}
    (h : i + m ≤ l.length) :
    (List.range' i m).foldlM (fun s j => l[j]?.bind fun a => some (f s a)) s =
      some (((l.drop i).take m).foldl f s) := by
  induction m generalizing i s with
  | zero => simp
  | succ m ih =>
    have hread : l[i]? = some l[i] := List.getElem?_eq_getElem (by omega)
    have htail := ih (i := i + 1) (s := f s l[i]) (by omega)
    rw [List.range'_succ, List.foldlM_cons, hread, drop_of_getElem? hread, List.take_succ_cons,
      List.foldl_cons]
    exact htail

/-! ## Scans -/

/-- The first index that stops a scan over so many, or the one behind them. -/
def firstStop (stop : ℕ → Bool) : ℕ → ℕ → ℕ
  | 0, i => i
  | m + 1, i => if stop i then i else firstStop stop m (i + 1)

theorem le_firstStop (stop : ℕ → Bool) (m i : ℕ) : i ≤ firstStop stop m i := by
  induction m generalizing i with
  | zero => exact Nat.le_refl i
  | succ m ih =>
    rw [firstStop]
    split
    · exact Nat.le_refl i
    · exact Nat.le_trans (Nat.le_succ i) (ih (i + 1))

theorem firstStop_le (stop : ℕ → Bool) (m i : ℕ) : firstStop stop m i ≤ i + m := by
  induction m generalizing i with
  | zero => exact Nat.le_refl i
  | succ m ih =>
    rw [firstStop]
    split
    · exact Nat.le_add_right i (m + 1)
    · exact Nat.le_trans (ih (i + 1)) (by omega)

theorem stop_firstStop {stop : ℕ → Bool} {m i : ℕ} (h : firstStop stop m i < i + m) :
    stop (firstStop stop m i) := by
  induction m generalizing i with
  | zero => exact absurd h (Nat.lt_irrefl i)
  | succ m ih =>
    rw [firstStop] at h ⊢
    split at h
    · rename_i hstop
      rw [if_pos hstop]
      exact hstop
    · rename_i hstop
      rw [if_neg hstop]
      exact ih (by omega)

/-! ## Rows and columns -/

/-- A loop over rows and columns stays inside if and only if its last turn does. -/
theorem raster_fits_iff (rows cols rowStep colStep last size : ℕ) :
    (∀ row < rows, ∀ col < cols, row * rowStep + col * colStep + last ≤ size) ↔
      rows = 0 ∨ cols = 0 ∨ (rows - 1) * rowStep + (cols - 1) * colStep + last ≤ size := by
  constructor
  · intro h
    by_cases hrows : rows = 0
    · exact .inl hrows
    · by_cases hcols : cols = 0
      · exact .inr (.inl hcols)
      · exact .inr (.inr (h _ (by omega) _ (by omega)))
  · rintro (rfl | rfl | h) row hrow col hcol
    · omega
    · omega
    · have hr : row * rowStep ≤ (rows - 1) * rowStep := Nat.mul_le_mul_right _ (by omega)
      have hc : col * colStep ≤ (cols - 1) * colStep := Nat.mul_le_mul_right _ (by omega)
      omega

end FastLivo.Lib
