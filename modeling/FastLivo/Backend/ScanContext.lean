import FastLivo.Backend.Lockstep
import FastLivo.Lib.CyclicDistance
import FastLivo.Lib.PartialSort

/-!
# Scan contexts under rotation

A sensor that turns on the spot moves the columns of its descriptor around. The distance of
descriptors is the distance of their columns on the cycle of the sectors; it does not see such a
turn, nor does the ring key, so the loop search finds the place again.
-/

namespace FastLivo.Backend

open Lib Matrix

noncomputable section

/-- Cosine of two columns, unless one of them is empty. -/
def columnCosine {n : ℕ} (queryColumn candidateColumn : Fin n → ℝ) : Option ℝ :=
  let denominator := columnNorm queryColumn * columnNorm candidateColumn
  if denominator < 1e-6 then none else some (queryColumn ⬝ᵥ candidateColumn / denominator)

/-- A descriptor with its columns moved around the cycle. -/
def columnShift {rings sectors : ℕ} (A : Matrix (Fin rings) (Fin sectors) ℝ) (shift : ℕ) :
    Matrix (Fin rings) (Fin sectors) ℝ :=
  A.submatrix id fun sector => shiftedSector sector shift

/-- `descriptor.rowwise().mean()`. -/
def ringMean {rings sectors : ℕ} (A : Matrix (Fin rings) (Fin sectors) ℝ) : Fin rings → ℝ :=
  fun ring => (∑ sector, A ring sector) / sectors

/-- The ring key is that of the descriptor. -/
def ScanContextEntry.Keyed {cfg : BackendConfig} (e : ScanContextEntry cfg) : Prop :=
  e.ringKey = ringMean e.descriptor

/-! ## Cosines -/

section Cosines

variable {n : ℕ} {u v : Fin n → ℝ}

theorem columnNorm_mul_self (u : Fin n → ℝ) : columnNorm u * columnNorm u = u ⬝ᵥ u := by
  apply Real.mul_self_sqrt
  rw [dotProduct]
  exact Finset.sum_nonneg fun i _ => mul_self_nonneg (u i)

theorem columnNorm_nonneg (u : Fin n → ℝ) : 0 ≤ columnNorm u := Real.sqrt_nonneg _

theorem dotProduct_le_columnNorm (u v : Fin n → ℝ) : u ⬝ᵥ v ≤ columnNorm u * columnNorm v := by
  have h := Real.sum_mul_le_sqrt_mul_sqrt Finset.univ u v
  simpa only [columnNorm, dotProduct, sq] using h

theorem columnCosine_comm (u v : Fin n → ℝ) : columnCosine u v = columnCosine v u := by
  unfold columnCosine
  rw [mul_comm, dotProduct_comm]

theorem columnCosine_le_one (u v : Fin n → ℝ) (r : ℝ) (h : columnCosine u v = some r) : r ≤ 1 := by
  unfold columnCosine at h
  dsimp only at h
  split at h
  · cases h
  · rename_i hden
    obtain rfl := Option.some.inj h
    exact div_le_one_of_le₀ (dotProduct_le_columnNorm u v)
      (mul_nonneg (columnNorm_nonneg u) (columnNorm_nonneg v))

theorem columnCosine_self (v : Fin n → ℝ) (r : ℝ) (h : columnCosine v v = some r) : r = 1 := by
  unfold columnCosine at h
  dsimp only at h
  split at h
  · cases h
  · rename_i hden
    obtain rfl := Option.some.inj h
    rw [columnNorm_mul_self] at hden ⊢
    exact div_self (ne_of_gt (lt_of_lt_of_le (by norm_num) (not_lt.mp hden)))

theorem columnCosine_isSome (h : 1e-6 ≤ v ⬝ᵥ v) : (columnCosine v v).isSome := by
  unfold columnCosine
  dsimp only
  rw [columnNorm_mul_self, if_neg (not_lt.mpr h)]
  rfl

end Cosines

/-! ## The distance on the cycle of sectors -/

section Distance

variable {rings : ℕ}

theorem shiftedSector_eq_add {m : ℕ} (sector : Fin (m + 1)) (shift : ℕ) :
    shiftedSector sector shift = sector + Fin.ofNat (m + 1) shift := by
  apply Fin.ext
  rw [Fin.val_add, Fin.val_ofNat, Nat.add_mod_mod]
  rfl

/-- The loop over the sectors adds up what it does not skip. -/
theorem foldl_unless {ι : Type*} (skip : ι → Prop) [DecidablePred skip] (x : ι → ℝ) (l : List ι)
    (acc : ℝ × ℕ) :
    l.foldl (fun acc i => if skip i then acc else (acc.1 + x i, acc.2 + 1)) acc =
      (acc.1 + (l.map fun i => if skip i then 0 else x i).sum,
        acc.2 + (l.map fun i => if skip i then 0 else 1).sum) := by
  induction l generalizing acc with
  | nil => simp
  | cons i l ih =>
    rw [List.foldl_cons, ih, List.map_cons, List.map_cons, List.sum_cons, List.sum_cons]
    split
    · rw [zero_add, zero_add]
    · rw [add_assoc, add_assoc]

theorem cosineSum_eq {m : ℕ} (query candidate : Matrix (Fin rings) (Fin (m + 1)) ℝ) (shift : ℕ) :
    cosineSum query candidate shift =
      (totalSimilarity columnCosine query.col candidate.col (Fin.ofNat (m + 1) shift),
        comparablePairs columnCosine query.col candidate.col (Fin.ofNat (m + 1) shift)) := by
  have hterm (sector : Fin (m + 1)) :
      (columnCosine (query.col sector) (candidate.col (sector + Fin.ofNat (m + 1) shift))).getD 0 =
        if columnNorm (query.col sector) *
            columnNorm (candidate.col (shiftedSector sector shift)) < 1e-6 then 0
        else query.col sector ⬝ᵥ candidate.col (shiftedSector sector shift) /
          (columnNorm (query.col sector) *
            columnNorm (candidate.col (shiftedSector sector shift))) := by
    rw [← shiftedSector_eq_add, columnCosine]
    split <;> rfl
  have hcount (sector : Fin (m + 1)) :
      (if (columnCosine (query.col sector)
          (candidate.col (sector + Fin.ofNat (m + 1) shift))).isSome then 1 else 0) =
        if columnNorm (query.col sector) *
            columnNorm (candidate.col (shiftedSector sector shift)) < 1e-6 then 0 else 1 := by
    rw [← shiftedSector_eq_add, columnCosine]
    split <;> rfl
  unfold cosineSum totalSimilarity comparablePairs
  dsimp only
  rw [foldl_unless, zero_add, zero_add]
  simp only [hterm, hcount, Fin.sum_univ_def]

/-- The loop over the shifts keeps the least distance. -/
theorem le_foldl_min_iff {ι : Type*} (skip : ι → Prop) [DecidablePred skip] (d : ι → ℝ) (l : List ι)
    (best x : ℝ) :
    x ≤ l.foldl (fun best i => if skip i then best else min best (d i)) best ↔
      x ≤ best ∧ ∀ i ∈ l, ¬skip i → x ≤ d i := by
  induction l generalizing best with
  | nil => simp
  | cons i l ih =>
    rw [List.foldl_cons, ih, List.forall_mem_cons]
    split
    · rename_i hskip
      simp [hskip]
    · rename_i hskip
      simp [hskip, and_assoc]

theorem scanContextDistance_eq {m : ℕ} (query candidate : Matrix (Fin rings) (Fin (m + 1)) ℝ) :
    scanContextDistance query candidate =
      cyclicDistance columnCosine query.col candidate.col := by
  refine eq_of_forall_le_iff fun x => ?_
  unfold scanContextDistance
  simp only [cosineSum_eq]
  rw [le_foldl_min_iff, le_cyclicDistance_iff]
  refine and_congr_right fun hone => ?_
  have hshift (g : Fin (m + 1)) : x ≤ shiftDistance columnCosine query.col candidate.col g ↔
      (¬comparablePairs columnCosine query.col candidate.col g = 0 →
        x ≤ 1 - totalSimilarity columnCosine query.col candidate.col g /
          comparablePairs columnCosine query.col candidate.col g) := by
    unfold shiftDistance
    split
    · rename_i hnone
      exact iff_of_true hone fun hsome => absurd hnone hsome
    · rename_i hsome
      exact ⟨fun h _ => h, fun h => h hsome⟩
  simp only [hshift]
  constructor
  · intro h g
    have := h g.val (List.mem_range.mpr g.isLt)
    rwa [Fin.ofNat_val_eq_self] at this
  · intro h k _
    exact h _

theorem columnShift_col {m : ℕ} (A : Matrix (Fin rings) (Fin (m + 1)) ℝ) (shift : ℕ) :
    (columnShift A shift).col = cyclicShift A.col (Fin.ofNat (m + 1) shift) := by
  funext sector
  show A.col (shiftedSector sector shift) = _
  rw [shiftedSector_eq_add]
  rfl

variable {sectors : ℕ} (A B : Matrix (Fin rings) (Fin sectors) ℝ)

theorem distance_columnShift_left (shift : ℕ) :
    scanContextDistance (columnShift A shift) B = scanContextDistance A B := by
  cases sectors with
  | zero => rfl
  | succ m =>
    rw [scanContextDistance_eq, scanContextDistance_eq, columnShift_col, cyclicDistance_shift_left]

theorem distance_columnShift_right (shift : ℕ) :
    scanContextDistance A (columnShift B shift) = scanContextDistance A B := by
  cases sectors with
  | zero => rfl
  | succ m =>
    rw [scanContextDistance_eq, scanContextDistance_eq, columnShift_col, cyclicDistance_shift_right]

theorem distance_comm : scanContextDistance A B = scanContextDistance B A := by
  cases sectors with
  | zero => rfl
  | succ m =>
    rw [scanContextDistance_eq, scanContextDistance_eq]
    exact cyclicDistance_comm columnCosine_comm _ _

theorem distance_mem : 0 ≤ scanContextDistance A B ∧ scanContextDistance A B ≤ 1 := by
  cases sectors with
  | zero => exact ⟨zero_le_one, le_rfl⟩
  | succ m =>
    rw [scanContextDistance_eq]
    exact ⟨cyclicDistance_nonneg columnCosine_le_one _ _, cyclicDistance_le_one⟩

variable {A} in
theorem distance_columnShift_self (hA : ∃ sector, 1e-6 ≤ A.col sector ⬝ᵥ A.col sector)
    (shift : ℕ) : scanContextDistance A (columnShift A shift) = 0 := by
  cases sectors with
  | zero =>
    obtain ⟨sector, -⟩ := hA
    exact sector.elim0
  | succ m =>
    obtain ⟨sector, hsector⟩ := hA
    rw [scanContextDistance_eq, columnShift_col]
    exact cyclicDistance_shift_self columnCosine_le_one columnCosine_self
      ⟨sector, columnCosine_isSome hsector⟩ _

theorem ringMean_columnShift (shift : ℕ) : ringMean (columnShift A shift) = ringMean A := by
  cases sectors with
  | zero => rfl
  | succ m =>
    funext ring
    unfold ringMean
    congr 1
    rw [← Equiv.sum_comp (Equiv.addRight (Fin.ofNat (m + 1) shift)) (A ring)]
    refine Finset.sum_congr rfl fun sector _ => ?_
    show A ring (shiftedSector sector shift) = A ring (sector + Fin.ofNat (m + 1) shift)
    rw [shiftedSector_eq_add]

end Distance

/-! ## The loop search -/

section Search

variable {cfg : BackendConfig} {G : Geodesy} {b : Optimization cfg G} {query : ScanContextEntry cfg}

/-- The entries below an index, but one, that have the ring key of the query. -/
def ringKeyRivals (b : Optimization cfg G) (query : ScanContextEntry cfg) (limit index : ℕ) : Set ℕ :=
  {i | i < limit ∧ i ≠ index ∧ ∃ e, b.scanContextDatabase[i]? = some e ∧ e.ringKey = query.ringKey}

/-- The first part of a ring candidate. -/
def ringDistance (b : Optimization cfg G) (query : ScanContextEntry cfg) (index : ℕ) : ℝ :=
  b.scanContextDatabase[index]?.elim 0 fun e => columnNorm (query.ringKey - e.ringKey)

/-- The ring candidates below an index. -/
def ringList (b : Optimization cfg G) (query : ScanContextEntry cfg) (limit : ℕ) : List (ℝ × ℕ) :=
  (List.range limit).map fun i => (ringDistance b query i, i)

/-- The candidates that are compared by their descriptors. -/
def shortlistOf (sort : ℕ → List (ℝ × ℕ) → List (ℝ × ℕ)) (ring : List (ℝ × ℕ)) : List (ℝ × ℕ) :=
  let shortlistSize := min 10 ring.length
  (sort shortlistSize ring).take shortlistSize

theorem columnNorm_sub_eq_zero {n : ℕ} {u v : Fin n → ℝ} : columnNorm (u - v) = 0 ↔ v = u := by
  rw [← mul_self_eq_zero, columnNorm_mul_self, dotProduct_self_eq_zero, sub_eq_zero, eq_comm]

theorem ringCandidates_eq {limit : ℕ} (hlimit : limit ≤ b.scanContextDatabase.length) :
    ringCandidates b query limit = some (ringList b query limit) := by
  refine mapM_eq_map fun i hi => ?_
  have hget := List.getElem?_eq_getElem ((List.mem_range.mp hi).trans_le hlimit)
  rw [ringDistance, hget]
  rfl

/-- With few rivals an entry of the same ring key is in the shortlist. -/
theorem mem_shortlist {sort : ℕ → List (ℝ × ℕ) → List (ℝ × ℕ)} (hsort : PartialSorts Prod.fst sort)
    {limit index : ℕ} {entry : ScanContextEntry cfg} (hindex : index < limit)
    (hlimit : limit ≤ b.scanContextDatabase.length)
    (hentry : b.scanContextDatabase[index]? = some entry) (hkey : entry.ringKey = query.ringKey)
    (hfew : (ringKeyRivals b query limit index).ncard < 10) :
    (ringDistance b query index, index) ∈ shortlistOf sort (ringList b query limit) := by
  classical
  have hmem : (ringDistance b query index, index) ∈ ringList b query limit :=
    List.mem_map.mpr ⟨index, List.mem_range.mpr hindex, rfl⟩
  have hzero : ringDistance b query index = 0 := by
    rw [ringDistance, hentry]
    exact columnNorm_sub_eq_zero.mpr hkey
  have hrival (i : ℕ) (hi : i < limit) (hle : ringDistance b query i ≤ 0) (hne : i ≠ index) :
      i ∈ ringKeyRivals b query limit index := by
    have hget := List.getElem?_eq_getElem (hi.trans_le hlimit)
    rw [ringDistance, hget] at hle
    exact ⟨hi, hne, _, hget, columnNorm_sub_eq_zero.mp (le_antisymm hle (columnNorm_nonneg _))⟩
  let p : ℝ × ℕ → Bool := fun c => decide (c.2 ∈ ringKeyRivals b query limit index)
  have hcount : (ringList b query limit).countP p = (ringKeyRivals b query limit index).ncard := by
    have hset : ringKeyRivals b query limit index =
        (Finset.range limit).filter fun i => i ∈ ringKeyRivals b query limit index := by
      ext i
      rw [Finset.mem_coe, Finset.mem_filter, Finset.mem_range]
      exact ⟨fun h => ⟨h.1, h⟩, fun h => h.2⟩
    rw [hset, Set.ncard_coe_finset, ringList, List.countP_map, List.countP_eq_length_filter]
    rfl
  have hout : p (ringDistance b query index, index) ≠ true := fun h =>
    (of_decide_eq_true h : index ∈ ringKeyRivals b query limit index).2.1 rfl
  refine hsort.mem_take (p := p) (min_le_right _ _) hmem ?_ ?_
  · intro c hc hle hne
    obtain ⟨i, hi, rfl⟩ := List.mem_map.mp hc
    refine decide_eq_true (hrival i (List.mem_range.mp hi) (hle.trans hzero.le) fun heq => hne ?_)
    rw [heq]
  · refine lt_min (hcount ▸ hfew) (lt_of_le_of_ne List.countP_le_length fun hall => ?_)
    exact hout (List.countP_eq_length.mp hall _ hmem)

/-- The closest of the shortlist is at least as close as each of them. -/
theorem bestOfShortlist_least (query : ScanContextEntry cfg) {shortlist : List (ℝ × ℕ)}
    (hin : ∀ c ∈ shortlist, ∃ e, b.scanContextDatabase[c.2]? = some e) :
    ∃ best, bestOfShortlist b query shortlist = some best ∧
      (∀ c ∈ best, ∃ e, b.scanContextDatabase[c.1]? = some e ∧
        c.2 = scanContextDistance query.descriptor e.descriptor) ∧
      ∀ c ∈ shortlist, ∀ e, b.scanContextDatabase[c.2]? = some e →
        ∃ d ∈ best, d.2 ≤ scanContextDistance query.descriptor e.descriptor := by
  induction shortlist using List.reverseRecOn with
  | nil => exact ⟨none, rfl, by simp, by simp⟩
  | append_singleton l c ih =>
    obtain ⟨best, hbest, hheld, hleast⟩ := ih fun d hd => hin d (List.mem_append_left _ hd)
    obtain ⟨e, he⟩ := hin c (List.mem_append_right _ (List.mem_singleton_self c))
    have hstep : bestOfShortlist b query (l ++ [c]) =
        if best.all fun d => decide (scanContextDistance query.descriptor e.descriptor < d.2) then
          some (some (c.2, scanContextDistance query.descriptor e.descriptor))
        else some best := by
      unfold bestOfShortlist at hbest ⊢
      rw [List.foldlM_append, hbest]
      simp [he]
    rw [hstep]
    split
    · rename_i hcloser
      refine ⟨_, rfl, ?_, ?_⟩
      · rintro d hd
        obtain rfl := Option.some.inj hd
        exact ⟨e, he, rfl⟩
      · intro d hd e' he'
        refine ⟨_, rfl, ?_⟩
        rcases List.mem_append.mp hd with hd | hd
        · obtain ⟨d', hd', hle⟩ := hleast d hd e' he'
          obtain rfl : best = some d' := hd'
          exact (of_decide_eq_true hcloser).le.trans hle
        · obtain rfl := List.mem_singleton.mp hd
          rw [Option.some.inj (he.symm.trans he')]
    · rename_i hcloser
      refine ⟨best, rfl, hheld, ?_⟩
      intro d hd e' he'
      rcases List.mem_append.mp hd with hd | hd
      · exact hleast d hd e' he'
      · obtain rfl := List.mem_singleton.mp hd
        rw [← Option.some.inj (he.symm.trans he')]
        cases best with
        | none => exact absurd rfl hcloser
        | some d' =>
          exact ⟨d', rfl, not_lt.mp fun hlt => hcloser (decide_eq_true hlt)⟩

/-- The search reads the shortlist of all entries that are old enough. -/
theorem detectLoopCandidate_eq {L : BackendLibs} {currentIndex : ℕ}
    (hmany : ¬(currentIndex ≤ cfg.scExcludeRecent ∨
      b.scanContextDatabase.length ≤ cfg.scExcludeRecent))
    (hlimit : currentIndex - cfg.scExcludeRecent ≤ b.scanContextDatabase.length) :
    detectLoopCandidate L b query currentIndex =
      (bestOfShortlist b query (shortlistOf L.partialSort
        (ringList b query (currentIndex - cfg.scExcludeRecent)))).map fun best =>
          (best.filter fun c => decide (c.2 < cfg.scDistanceThreshold)).map Prod.fst := by
  unfold detectLoopCandidate
  rw [if_neg hmany, ringCandidates_eq hlimit, Option.map_eq_bind]
  rfl

/-- A turned copy of the query is found, unless ten others have its ring key. -/
theorem detectLoopCandidate_columnShift {L : BackendLibs} (hsort : PartialSorts Prod.fst L.partialSort)
    {currentIndex index shift : ℕ} {entry : ScanContextEntry cfg}
    (hcurrent : currentIndex ≤ b.scanContextDatabase.length)
    (hindex : index < currentIndex - cfg.scExcludeRecent)
    (hentry : b.scanContextDatabase[index]? = some entry)
    (hshift : entry.descriptor = columnShift query.descriptor shift)
    (hquery : query.Keyed) (hkey : entry.Keyed)
    (hcolumn : ∃ sector, 1e-6 ≤ query.descriptor.col sector ⬝ᵥ query.descriptor.col sector)
    (hfew : (ringKeyRivals b query (currentIndex - cfg.scExcludeRecent) index).ncard < 10)
    (hthreshold : 0 < cfg.scDistanceThreshold) :
    ∃ candidate e, detectLoopCandidate L b query currentIndex = some (some candidate) ∧
      b.scanContextDatabase[candidate]? = some e ∧
      scanContextDistance query.descriptor e.descriptor = 0 := by
  have hlimit : currentIndex - cfg.scExcludeRecent ≤ b.scanContextDatabase.length := by omega
  have hsame : entry.ringKey = query.ringKey := by
    rw [ScanContextEntry.Keyed] at hquery hkey
    rw [hkey, hshift, ringMean_columnShift, hquery]
  have hlisted := mem_shortlist hsort hindex hlimit hentry hsame hfew
  have hin : ∀ c ∈ shortlistOf L.partialSort
      (ringList b query (currentIndex - cfg.scExcludeRecent)),
      ∃ e, b.scanContextDatabase[c.2]? = some e := by
    intro c hc
    obtain ⟨i, hi, rfl⟩ := List.mem_map.mp ((hsort.perm _ _).mem_iff.mp (List.mem_of_mem_take hc))
    exact ⟨_, List.getElem?_eq_getElem ((List.mem_range.mp hi).trans_le hlimit)⟩
  obtain ⟨best, hbest, hheld, hleast⟩ := bestOfShortlist_least query hin
  obtain ⟨c, hc, hle⟩ := hleast _ hlisted entry hentry
  rw [hshift, distance_columnShift_self hcolumn] at hle
  obtain ⟨e, he, hdistance⟩ := hheld c hc
  have hzero : c.2 = 0 := le_antisymm hle (hdistance ▸ (distance_mem _ _).1)
  refine ⟨c.1, e, ?_, he, hdistance ▸ hzero⟩
  obtain rfl : best = some c := hc
  have haccept : (some c).filter (fun c => decide (c.2 < cfg.scDistanceThreshold)) = some c := by
    rw [Option.filter_some, hzero, if_pos (decide_eq_true hthreshold)]
  rw [detectLoopCandidate_eq (by omega) hlimit, hbest, Option.map_some, haccept]
  rfl

end Search

/-- The distance and the ring key do not see a turn, and the loop search finds turned places. -/
theorem scanContext_laws (cfg : BackendConfig) :
    (∀ A B : Matrix (Fin cfg.scRings) (Fin cfg.scSectors) ℝ,
      (∀ shift, scanContextDistance (columnShift A shift) B = scanContextDistance A B ∧
        scanContextDistance A (columnShift B shift) = scanContextDistance A B) ∧
      scanContextDistance A B = scanContextDistance B A ∧
      (0 ≤ scanContextDistance A B ∧ scanContextDistance A B ≤ 1) ∧
      ((∃ sector, 1e-6 ≤ A.col sector ⬝ᵥ A.col sector) →
        ∀ shift, scanContextDistance A (columnShift A shift) = 0) ∧
      ∀ shift, ringMean (columnShift A shift) = ringMean A) ∧
    ∀ {G : Geodesy} {L : BackendLibs} {b : Optimization cfg G} {query entry : ScanContextEntry cfg}
      {currentIndex index shift : ℕ},
      PartialSorts Prod.fst L.partialSort → currentIndex ≤ b.scanContextDatabase.length →
      index < currentIndex - cfg.scExcludeRecent → b.scanContextDatabase[index]? = some entry →
      entry.descriptor = columnShift query.descriptor shift → query.Keyed → entry.Keyed →
      (∃ sector, 1e-6 ≤ query.descriptor.col sector ⬝ᵥ query.descriptor.col sector) →
      (ringKeyRivals b query (currentIndex - cfg.scExcludeRecent) index).ncard < 10 →
      0 < cfg.scDistanceThreshold →
      ∃ candidate e, detectLoopCandidate L b query currentIndex = some (some candidate) ∧
        b.scanContextDatabase[candidate]? = some e ∧
        scanContextDistance query.descriptor e.descriptor = 0 :=
  ⟨fun A B => ⟨fun shift => ⟨distance_columnShift_left A B shift, distance_columnShift_right A B shift⟩,
      distance_comm A B, distance_mem A B, distance_columnShift_self, ringMean_columnShift A⟩,
    fun hsort hcurrent => detectLoopCandidate_columnShift hsort hcurrent⟩

/-- Two sectors, one of them empty. -/
def BackendConfig.twoSectors : BackendConfig :=
  { scRings := 1, scSectors := 2, scExcludeRecentParam := 1 }

def ScanContextEntry.corner (shift : ℕ) : ScanContextEntry .twoSectors :=
  let descriptor := columnShift (of fun _ sector => if sector.val = 0 then 1 else 0) shift
  ⟨descriptor, ringMean descriptor⟩

/-- The place was seen with the sensor turned. -/
def Optimization.seenTurned : Optimization .twoSectors .flat :=
  { Optimization.start (G := .flat) .twoSectors () with
    scanContextDatabase := [.corner 1, .corner 0] }

theorem scanContext_laws_corner :
    ∃ candidate e, detectLoopCandidate .initialValues .seenTurned (.corner 0) 2 =
        some (some candidate) ∧
      Optimization.seenTurned.scanContextDatabase[candidate]? = some e ∧
      scanContextDistance (ScanContextEntry.corner 0).descriptor e.descriptor = 0 := by
  have hthreshold : 0 < BackendConfig.twoSectors.scDistanceThreshold := by
    norm_num [BackendConfig.twoSectors]
  have hturned : (ScanContextEntry.corner 1).descriptor =
      columnShift (ScanContextEntry.corner 0).descriptor 1 := by
    ext i sector
    fin_cases sector <;> rfl
  have hnone : ringKeyRivals .seenTurned (.corner 0) 1 0 = ∅ := by
    refine Set.eq_empty_of_forall_notMem fun i hi => hi.2.1 ?_
    have := hi.1
    omega
  have hold : 0 < 2 - BackendConfig.twoSectors.scExcludeRecent := Nat.one_pos
  have hcolumn : 1e-6 ≤ (ScanContextEntry.corner 0).descriptor.col ⟨0, Nat.two_pos⟩ ⬝ᵥ
      (ScanContextEntry.corner 0).descriptor.col ⟨0, Nat.two_pos⟩ := by
    show 1e-6 ≤ ∑ _ : Fin 1, (1 : ℝ) * 1
    norm_num
  refine (scanContext_laws .twoSectors).2 (partialSorts_mergeSort Prod.fst) le_rfl hold rfl hturned
    rfl rfl ⟨_, hcolumn⟩ ?_ hthreshold
  show (ringKeyRivals Optimization.seenTurned (ScanContextEntry.corner 0) 1 0).ncard < 10
  rw [hnone, Set.ncard_empty]
  norm_num


end

end FastLivo.Backend
