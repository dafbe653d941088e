import FastLivo.VisualMap.Frame

/-!
# The invariant of the visual map

Between any two operations every point keeps its invariant. Where `normal_en` is set the
points of the submap have a reference from their retrieval on; otherwise a point gets one from
`updateReferencePatch` only, which comes after the operations that read through it.
-/

namespace FastLivo.VisualMap

open Lib

/-! ## Faults -/

/-- A fault that is none of the observations. -/
def Harmless (e : Fault) : Prop := ¬e.OfObservation

theorem harmless_nullPoint : Harmless .nullPoint := by
  rintro (h | h | h) <;> cases h

theorem harmless_overflow : Harmless .overflow := by
  rintro (h | h | h) <;> cases h

/-! ## Points of the submap -/

/-- What the operations after the retrieval find in a point of the submap. -/
structure Tracked (cfg : Config) (frameId : ℕ) (p : VisualPoint) : Prop where
  observed : p.obs ≠ []
  older : ∀ f ∈ p.obs, f.id < frameId
  ref : cfg.normalEn = true → p.hasRefPatch = true

/-- The submap still is as it was retrieved. -/
def Phase.Submap : Phase → Prop
  | .compute | .generate | .project | .update => True
  | .retrieve | .reference => False

/-- The invariant of the map. -/
structure MapInv (cfg : Config) (s : VioMap) : Prop where
  points : ∀ p ∈ s.points, PointInv p
  ids : ∀ p ∈ s.points, ∀ f ∈ p.obs, f.id < s.frameCounter
  frame : s.phase ≠ .retrieve → s.frameId + 1 = s.frameCounter
  distinct : s.voxelPoints.Nodup
  bound : ∀ k ∈ s.voxelPoints, k < s.points.length
  tracked : s.phase.Submap →
    ∀ k ∈ s.voxelPoints, ∀ p, s.points[k]? = some p → Tracked cfg s.frameId p

theorem mapInv_init (cfg : Config) : MapInv cfg {} := by
  constructor
  · intro p hp
    cases hp
  · intro p hp
    cases hp
  · intro h
    exact absurd rfl h
  · exact List.nodup_nil
  · intro k hk
    cases hk
  · intro h
    cases h

/-! ## Retrieval -/

/-- The points that a cell can hold. -/
structure GridInv (points : List VisualPoint) (v : View) (grid : ℕ → Cell) : Prop where
  point : ∀ i k, (grid i).point = some k →
    (∃ p, points[k]? = some p ∧ p.obs ≠ []) ∧ ∃ dist, v.cell k = some (i, dist)

theorem GridInv.visit {points : List VisualPoint} {v : View} {grid : ℕ → Cell}
    (h : GridInv points v grid) (k : ℕ) : GridInv points v (visit points v grid k) := by
  unfold VisualMap.visit
  split
  · exact h
  · rename_i p hp
    split
    · exact h
    · rename_i hobs
      split
      · exact h
      · rename_i index dist hcell
        constructor
        intro i k' hk'
        by_cases hi : i = index
        · subst hi
          rw [assign_self] at hk'
          split at hk'
          · obtain rfl := Option.some.inj hk'
            exact ⟨⟨p, hp, by simpa using hobs⟩, dist, hcell⟩
          · exact h.point i k' hk'
        · rw [assign_of_ne hi] at hk'
          exact h.point i k' hk'

theorem gridInv_fillGrid (points : List VisualPoint) (v : View) :
    GridInv points v (fillGrid points v) := by
  have hfold : ∀ (ks : List ℕ) (grid : ℕ → Cell), GridInv points v grid →
      GridInv points v (ks.foldl (visit points v) grid) := by
    intro ks
    induction ks with
    | nil => exact fun grid h => h
    | cons k ks ih => exact fun grid h => ih _ (h.visit k)
  apply hfold
  constructor
  intro i k hk
  cases hk

/-- What the loop over the cells keeps: `cells` are left, and the points that were retrieved lie in
others. -/
structure RetrieveInv (cfg : Config) (v : View) (old : List VisualPoint) (cells : List ℕ)
    (s : List VisualPoint × List ℕ) : Prop where
  once : cells.Nodup
  obs : s.1.map VisualPoint.obs = old.map VisualPoint.obs
  points : ∀ p ∈ s.1, PointInv p
  distinct : s.2.Nodup
  bound : ∀ k ∈ s.2, k < s.1.length
  done : ∀ k ∈ s.2, ∃ i dist, v.cell k = some (i, dist) ∧ i ∉ cells
  tracked : ∀ k ∈ s.2, ∀ p, s.1[k]? = some p →
    p.obs ≠ [] ∧ (cfg.normalEn = true → p.hasRefPatch = true)

section Retrieve

variable {cfg : Config} {v : View} {old : List VisualPoint} {i : ℕ} {cells : List ℕ}
  {s : List VisualPoint × List ℕ}

/-- A cell whose point is not retrieved. -/
theorem RetrieveInv.skip (h : RetrieveInv cfg v old (i :: cells) s) :
    RetrieveInv cfg v old cells s where
  once := h.once.of_cons
  obs := h.obs
  points := h.points
  distinct := h.distinct
  bound := h.bound
  done := fun k hk => by
    obtain ⟨j, dist, hcell, hj⟩ := h.done k hk
    exact ⟨j, dist, hcell, fun hmem => hj (List.mem_cons_of_mem _ hmem)⟩
  tracked := h.tracked

/-- A point that is met in this cell was not retrieved in an earlier one. -/
theorem RetrieveInv.fresh (h : RetrieveInv cfg v old (i :: cells) s) {k : ℕ} {dist : ℚ}
    (hcell : v.cell k = some (i, dist)) : k ∉ s.2 := by
  intro hk
  obtain ⟨j, dist', hcell', hj⟩ := h.done k hk
  rw [hcell] at hcell'
  obtain ⟨rfl, -⟩ := Prod.mk.inj (Option.some.inj hcell')
  exact hj List.mem_cons_self

/-- The point of a cell is changed without its observations. -/
theorem RetrieveInv.set (h : RetrieveInv cfg v old (i :: cells) s) {k : ℕ} {dist : ℚ}
    (hcell : v.cell k = some (i, dist)) {p q : VisualPoint} (hp : s.1[k]? = some p)
    (hq : PointInv q) (hobs : q.obs = p.obs) :
    RetrieveInv cfg v old (i :: cells) (s.1.set k q, s.2) := by
  have hk : k < s.1.length := (List.getElem?_eq_some_iff.mp hp).1
  have hget : s.1[k] = p := (List.getElem?_eq_some_iff.mp hp).2
  constructor
  · exact h.once
  · have hsame : (s.1.map VisualPoint.obs).set k q.obs = s.1.map VisualPoint.obs := by
      rw [hobs, ← List.map_set, ← hget, List.set_getElem_self]
    rw [List.map_set, hsame]
    exact h.obs
  · intro r hr
    rcases List.mem_or_eq_of_mem_set hr with hr | rfl
    · exact h.points r hr
    · exact hq
  · exact h.distinct
  · intro j hj
    rw [List.length_set]
    exact h.bound j hj
  · exact h.done
  · intro j hj r hr
    have hne : k ≠ j := fun heq => h.fresh hcell (heq ▸ hj)
    rw [List.getElem?_set_ne hne] at hr
    exact h.tracked j hj r hr

/-- The point of a cell is put into the submap. -/
theorem RetrieveInv.push (h : RetrieveInv cfg v old (i :: cells) s) {k : ℕ} {dist : ℚ}
    (hcell : v.cell k = some (i, dist)) {p : VisualPoint} (hp : s.1[k]? = some p)
    (hobs : p.obs ≠ []) (href : cfg.normalEn = true → p.hasRefPatch = true) :
    RetrieveInv cfg v old cells (s.1, s.2 ++ [k]) := by
  have hk : k < s.1.length := (List.getElem?_eq_some_iff.mp hp).1
  have hi : i ∉ cells := (List.nodup_cons.mp h.once).1
  constructor
  · exact h.once.of_cons
  · exact h.obs
  · exact h.points
  · rw [List.nodup_append]
    refine ⟨h.distinct, List.nodup_singleton k, ?_⟩
    intro a ha b hb heq
    rw [List.mem_singleton] at hb
    exact h.fresh hcell (hb ▸ heq ▸ ha)
  · intro j hj
    rcases List.mem_append.mp hj with hj | hj
    · exact h.bound j hj
    · exact List.mem_singleton.mp hj ▸ hk
  · intro j hj
    rcases List.mem_append.mp hj with hj | hj
    · exact h.skip.done j hj
    · rw [List.mem_singleton] at hj
      subst hj
      exact ⟨i, dist, hcell, hi⟩
  · intro j hj r hr
    rcases List.mem_append.mp hj with hj | hj
    · exact h.tracked j hj r hr
    · rw [List.mem_singleton] at hj
      subst hj
      obtain rfl := Option.some.inj (hp.symm.trans hr)
      exact ⟨hobs, href⟩

/-- A turn of the loop. -/
theorem RetrieveInv.cell {grid : ℕ → Cell} (hgrid : GridInv old v grid)
    (h : RetrieveInv cfg v old (i :: cells) s) :
    Ensures Harmless (RetrieveInv cfg v old cells) (retrieveCell cfg v grid s i) := by
  unfold retrieveCell
  split
  · exact h.skip
  split
  · exact harmless_nullPoint
  rename_i k hk
  split
  · exact harmless_nullPoint
  rename_i p hp
  obtain ⟨⟨p', hp', hobs'⟩, dist, hcell⟩ := hgrid.point i k hk
  have hobs : p.obs ≠ [] := by
    have hsame := congrArg (fun l => l[k]?) h.obs
    simp only [List.getElem?_map, hp, hp', Option.map_some, Option.some.injEq] at hsame
    rw [hsame]
    exact hobs'
  have hmem : p ∈ s.1 := List.mem_of_getElem? hp
  split
  · exact h.skip
  split
  · exact h.skip
  split
  · obtain ⟨q, hq, hinv, href, hqobs⟩ := (h.points p hmem).chooseReference hobs
    have hset := h.set hcell hp hinv hqobs
    have hget : (s.1.set k q)[k]? = some q := by
      rw [List.getElem?_set_self (List.getElem?_eq_some_iff.mp hp).1]
    rw [hq]
    change RetrieveInv cfg v old cells (s.1.set k q, _)
    split
    · exact hset.push hcell hget (hqobs ▸ hobs) fun _ => href
    · exact hset.skip
  · rename_i hnormal
    split
    · exact h.skip
    · rw [ensures_ok]
      split
      · exact h.push hcell hp hobs fun hen => absurd hen hnormal
      · exact h.skip

end Retrieve

/-- Points with the same observations. -/
theorem exists_obs_eq {points old : List VisualPoint}
    (h : points.map VisualPoint.obs = old.map VisualPoint.obs) {p : VisualPoint}
    (hp : p ∈ points) : ∃ p' ∈ old, p'.obs = p.obs := by
  have hmem : p.obs ∈ old.map VisualPoint.obs := h ▸ List.mem_map_of_mem hp
  exact List.mem_map.mp hmem

/-- What the retrieval leaves of a map. -/
structure Retrieved (cfg : Config) (s t : VioMap) : Prop where
  frameId : t.frameId = s.frameId
  frameCounter : t.frameCounter = s.frameCounter
  obs : t.points.map VisualPoint.obs = s.points.map VisualPoint.obs
  points : ∀ p ∈ t.points, PointInv p
  distinct : t.voxelPoints.Nodup
  bound : ∀ k ∈ t.voxelPoints, k < t.points.length
  tracked : ∀ k ∈ t.voxelPoints, ∀ p, t.points[k]? = some p →
    p.obs ≠ [] ∧ (cfg.normalEn = true → p.hasRefPatch = true)

section Steps

variable {cfg : Config} {s : VioMap}

theorem retrieved (v : View) (hpoints : ∀ p ∈ s.points, PointInv p)
    (hdistinct : s.voxelPoints.Nodup) (hbound : ∀ k ∈ s.voxelPoints, k < s.points.length) :
    Ensures Harmless (Retrieved cfg s) (retrieveFromVisualSparseMap cfg v s) := by
  unfold retrieveFromVisualSparseMap
  split
  · rename_i hempty
    have hnil : s.points = [] := List.isEmpty_iff.mp hempty
    rw [ensures_ok]
    refine ⟨rfl, rfl, rfl, hpoints, hdistinct, hbound, ?_⟩
    intro k hk
    have hlt := hbound k hk
    rw [hnil] at hlt
    exact absurd hlt (Nat.not_lt_zero k)
  · have hstart : RetrieveInv cfg v s.points (List.range cfg.length) (s.points, []) := by
      refine ⟨List.nodup_range, rfl, hpoints, List.nodup_nil, ?_, ?_, ?_⟩ <;> intro k hk <;> cases hk
    have hloop := Ensures.foldlM (RetrieveInv cfg v s.points)
      (fun i cells t ht => ht.cell (gridInv_fillGrid s.points v)) hstart
    apply Ensures.bind hloop
    intro t ht
    exact ⟨rfl, rfl, ht.obs, ht.points, ht.distinct, ht.bound, ht.tracked⟩

theorem begun : Ensures Harmless (fun t => t = { s with
    frameId := s.frameCounter
    frameCounter := s.frameCounter + 1
    totalPoints := 0
    updateFlag := fun _ => false }) (beginFrame s) := by
  unfold beginFrame
  split
  · exact rfl
  · exact harmless_overflow

/-- The retrieval of a frame. -/
theorem MapInv.retrieve (h : MapInv cfg s) (v : View) (hphase : s.phase = .retrieve) :
    Ensures Harmless (MapInv cfg) (step cfg v s) := by
  unfold step
  rw [hphase]
  dsimp only
  apply Ensures.bind begun
  rintro _ rfl
  refine Ensures.bind (retrieved v ?_ ?_ ?_) ?_
  · exact h.points
  · exact h.distinct
  · exact h.bound
  intro t ht
  change MapInv cfg { t with phase := .compute }
  constructor
  · exact ht.points
  · intro p hp f hf
    obtain ⟨p', hp', hobs⟩ := exists_obs_eq ht.obs hp
    have hlt := h.ids p' hp' f (hobs ▸ hf)
    rw [ht.frameCounter]
    exact hlt.trans (Nat.lt_succ_self _)
  · intro _
    rw [ht.frameId, ht.frameCounter]
  · exact ht.distinct
  · exact ht.bound
  · intro _ k hk p hp
    obtain ⟨hobs, href⟩ := ht.tracked k hk p hp
    refine ⟨hobs, ?_, href⟩
    intro f hf
    obtain ⟨p', hp', hobs'⟩ := exists_obs_eq ht.obs (List.mem_of_getElem? hp)
    rw [ht.frameId]
    exact h.ids p' hp' f (hobs' ▸ hf)

/-! ## Reading through the reference -/

/-- The condition under which the operation that comes next reads through references that are
there: `normal_en` is set, or every point of the submap has a reference where
`precomputeReferencePatches` or `projectPatchFromRefToCur` is called. -/
def ReferencesReady (cfg : Config) (s : VioMap) (v : View) : Prop :=
  cfg.normalEn = true ∨
    ((s.phase = .compute ∧ cfg.Precomputes ∨ s.phase = .project ∧ v.plotFlag = true) →
      ∀ k ∈ s.voxelPoints, ∀ p, s.points[k]? = some p → p.hasRefPatch = true)

/-- Points with a reference can be read through. -/
theorem MapInv.referencesValid (h : MapInv cfg s)
    (href : ∀ k ∈ s.voxelPoints, ∀ p, s.points[k]? = some p → p.hasRefPatch = true)
    (test : VisualPoint → Bool) : s.referencesValid test = true := by
  unfold VioMap.referencesValid
  rw [List.all_eq_true]
  intro k hk
  rw [Option.all_eq_true]
  intro p hp
  have hvalid := (h.points p (List.mem_of_getElem? hp)).ref (href k hk p hp)
  simp [hvalid]

/-- The references of the submap, from the parameters or from the condition. -/
theorem MapInv.hasRefPatch (h : MapInv cfg s) {v : View} (hready : ReferencesReady cfg s v)
    (hsubmap : s.phase.Submap)
    (hread : s.phase = .compute ∧ cfg.Precomputes ∨ s.phase = .project ∧ v.plotFlag = true) :
    ∀ k ∈ s.voxelPoints, ∀ p, s.points[k]? = some p → p.hasRefPatch = true := by
  rcases hready with hnormal | hcondition
  · intro k hk p hp
    exact (h.tracked hsubmap k hk p hp).ref hnormal
  · exact hcondition hread

/-- An operation that only reads the map. -/
theorem MapInv.next (h : MapInv cfg s) (phase : Phase) (hsubmap : s.phase.Submap) :
    MapInv cfg { s with phase := phase } where
  points := h.points
  ids := h.ids
  frame := fun _ => h.frame (by
    intro heq
    rw [heq] at hsubmap
    exact hsubmap)
  distinct := h.distinct
  bound := h.bound
  tracked := fun _ => h.tracked hsubmap

theorem MapInv.compute (h : MapInv cfg s) {v : View} (hready : ReferencesReady cfg s v)
    (hphase : s.phase = .compute) : Ensures Harmless (MapInv cfg) (step cfg v s) := by
  have hsubmap : s.phase.Submap := by
    rw [hphase]
    trivial
  unfold step computeJacobianAndUpdateEKF
  rw [hphase]
  dsimp only
  split
  · exact h.next _ hsubmap
  split
  · rename_i hfault
    have hvalid := h.referencesValid
      (h.hasRefPatch hready hsubmap (Or.inl ⟨hphase, hfault.1⟩)) fun _ => true
    rw [hvalid] at hfault
    cases hfault.2
  · exact h.next _ hsubmap

theorem MapInv.project (h : MapInv cfg s) {v : View} (hready : ReferencesReady cfg s v)
    (hphase : s.phase = .project) : Ensures Harmless (MapInv cfg) (step cfg v s) := by
  have hsubmap : s.phase.Submap := by
    rw [hphase]
    trivial
  unfold step projectPatchFromRefToCur
  rw [hphase]
  dsimp only
  split
  · rename_i hplot
    split
    · exact h.next _ hsubmap
    split
    · rename_i hfault
      have hvalid := h.referencesValid
        (h.hasRefPatch hready hsubmap (Or.inr ⟨hphase, hplot⟩)) VisualPoint.isNormalInitialized
      rw [hvalid] at hfault
      cases hfault
    · exact h.next _ hsubmap
  · exact h.next _ hsubmap

/-! ## Writing -/

/-- The points of the map stay, and new ones of this frame follow. -/
theorem MapInv.generate (h : MapInv cfg s) (v : View) (hphase : s.phase = .generate) :
    Ensures Harmless (MapInv cfg) (step cfg v s) := by
  have hsubmap : s.phase.Submap := by
    rw [hphase]
    trivial
  have hframe : s.frameId + 1 = s.frameCounter := h.frame (by rw [hphase]; decide)
  unfold step
  rw [hphase]
  dsimp only
  change MapInv cfg { generateVisualMapPoints v s with phase := .project }
  unfold generateVisualMapPoints
  constructor
  · intro p hp
    rcases List.mem_append.mp hp with hp | hp
    · exact h.points p hp
    · obtain ⟨n, -, rfl⟩ := List.mem_map.mp hp
      refine ⟨?_, List.nodup_singleton _, by simp⟩
      intro href
      cases href
  · intro p hp f hf
    rcases List.mem_append.mp hp with hp | hp
    · exact h.ids p hp f hf
    · obtain ⟨n, -, rfl⟩ := List.mem_map.mp hp
      obtain rfl := List.mem_singleton.mp hf
      dsimp only
      omega
  · exact fun _ => hframe
  · exact h.distinct
  · intro k hk
    rw [List.length_append]
    exact (h.bound k hk).trans_le (Nat.le_add_right _ _)
  · intro _ k hk p hp
    rw [List.getElem?_append_left (h.bound k hk)] at hp
    exact h.tracked hsubmap k hk p hp

/-- There is room for an observation before one is added. -/
theorem maintainSize_ensures {p : VisualPoint} (hp : PointInv p) (hobs : p.obs ≠ []) :
    Ensures Harmless (fun q => PointInv q ∧ q.obs.length < 30 ∧ ∀ f ∈ q.obs, f ∈ p.obs)
      p.maintainSize := by
  unfold VisualPoint.maintainSize
  split
  · obtain ⟨f, hf, hmin⟩ := VisualPoint.findMinScoreFeature_mem hobs
    rw [hmin]
    change PointInv _ ∧ _
    refine ⟨hp.deleteFeatureRef f.address, ?_, ?_⟩
    · exact (PointInv.deleteFeatureRef_length hf).trans_le hp.count
    · intro g hg
      rw [VisualPoint.deleteFeatureRef_obs] at hg
      exact List.mem_of_mem_eraseP hg
  · exact ⟨hp, by omega, fun f hf => hf⟩

/-- A point of the submap is updated. -/
theorem updatePoint_ensures {p : VisualPoint} (hp : PointInv p) {frameId : ℕ}
    (htracked : Tracked cfg frameId p) (v : View) (k : ℕ) :
    Ensures Harmless (fun q => PointInv q.1 ∧ ∀ f ∈ q.1.obs, f.id ≤ frameId)
      (updatePoint v frameId k p) := by
  unfold updatePoint
  split
  · refine ⟨hp.deleteNonRefPatchFeatures, ?_⟩
    intro f hf
    exact (htracked.older f (List.mem_of_mem_filter hf)).le
  split
  · rename_i hlast
    exact absurd (List.getLast?_eq_none_iff.mp hlast) htracked.observed
  apply Ensures.bind (maintainSize_ensures hp htracked.observed)
  intro q hq
  obtain ⟨hinv, hlength, hsub⟩ := hq
  split
  · have hnew : frameId ∉ q.obs.map Feature.id := by
      intro hmem
      obtain ⟨f, hf, hid⟩ := List.mem_map.mp hmem
      have hlt := htracked.older f (hsub f hf)
      omega
    refine ⟨hinv.addFrameRef hnew hlength, ?_⟩
    intro f hf
    rcases List.mem_cons.mp hf with rfl | hf
    · exact le_refl _
    · exact (htracked.older f (hsub f hf)).le
  · exact ⟨hinv, fun f hf => (htracked.older f (hsub f hf)).le⟩

/-- What the loop of `updateVisualMapPoints` keeps, with the turns that are left. -/
structure UpdateInv (cfg : Config) (s : VioMap) (turns : List (ℕ × ℕ))
    (t : List VisualPoint × (ℕ → Bool)) : Prop where
  once : (turns.map Prod.fst).Nodup
  length : t.1.length = s.points.length
  points : ∀ p ∈ t.1, PointInv p
  ids : ∀ p ∈ t.1, ∀ f ∈ p.obs, f.id < s.frameCounter
  tracked : ∀ k ∈ turns.map Prod.fst, ∀ p, t.1[k]? = some p → Tracked cfg s.frameId p

theorem UpdateInv.turn {turn : ℕ × ℕ} {turns : List (ℕ × ℕ)} {t : List VisualPoint × (ℕ → Bool)}
    (hframe : s.frameId + 1 = s.frameCounter) (h : UpdateInv cfg s (turn :: turns) t) (v : View) :
    Ensures Harmless (UpdateInv cfg s turns) (updateTurn v s.frameId t turn) := by
  obtain ⟨hfresh, honce⟩ := List.nodup_cons.mp h.once
  have hrest : ∀ k ∈ turns.map Prod.fst, k ∈ (turn :: turns).map Prod.fst :=
    fun k hk => List.mem_cons_of_mem _ hk
  unfold updateTurn
  split
  · exact ⟨honce, h.length, h.points, h.ids, fun k hk => h.tracked k (hrest k hk)⟩
  · rename_i p hp
    have hmem : p ∈ t.1 := List.mem_of_getElem? hp
    have htracked := h.tracked turn.1 List.mem_cons_self p hp
    apply Ensures.bind (updatePoint_ensures (h.points p hmem) htracked v turn.1)
    rintro ⟨q, added⟩ ⟨hq, hids⟩
    change UpdateInv cfg s turns (t.1.set turn.1 q, _)
    constructor
    · exact honce
    · rw [List.length_set]
      exact h.length
    · intro r hr
      rcases List.mem_or_eq_of_mem_set hr with hr | rfl
      · exact h.points r hr
      · exact hq
    · intro r hr f hf
      rcases List.mem_or_eq_of_mem_set hr with hr | rfl
      · exact h.ids r hr f hf
      · have hle := hids f hf
        omega
    · intro k hk r hr
      have hne : turn.1 ≠ k := fun heq => hfresh (heq ▸ hk)
      rw [List.getElem?_set_ne hne] at hr
      exact h.tracked k (hrest k hk) r hr

/-- The observations of the frame are added. -/
theorem MapInv.update (h : MapInv cfg s) (v : View) (hphase : s.phase = .update) :
    Ensures Harmless (MapInv cfg) (step cfg v s) := by
  have hsubmap : s.phase.Submap := by
    rw [hphase]
    trivial
  have hframe : s.frameId + 1 = s.frameCounter := h.frame (by rw [hphase]; decide)
  unfold step updateVisualMapPoints
  rw [hphase]
  dsimp only
  split
  · exact ⟨h.points, h.ids, fun _ => hframe, h.distinct, h.bound, fun hno => hno.elim⟩
  · have hturns : s.voxelPoints.zipIdx.map Prod.fst = s.voxelPoints := List.zipIdx_map_fst ..
    have hstart : UpdateInv cfg s s.voxelPoints.zipIdx (s.points, s.updateFlag) := by
      refine ⟨?_, rfl, h.points, h.ids, ?_⟩
      · rw [hturns]
        exact h.distinct
      · rw [hturns]
        exact h.tracked hsubmap
    have hloop := Ensures.foldlM (UpdateInv cfg s)
      (fun turn turns t ht => ht.turn hframe v) hstart
    refine Ensures.bind (Ensures.bind hloop fun t ht => ensures_ok.mpr ?_) fun u hu => ensures_ok.mpr hu
    exact ⟨ht.points, ht.ids, fun _ => hframe, h.distinct,
      fun k hk => ht.length ▸ h.bound k hk, fun hno => hno.elim⟩

/-- What the loop of `updateReferencePatch` keeps. -/
structure ReferenceInv (s : VioMap) (ps : List VisualPoint) : Prop where
  length : ps.length = s.points.length
  points : ∀ p ∈ ps, PointInv p
  ids : ∀ p ∈ ps, ∀ f ∈ p.obs, f.id < s.frameCounter

theorem ReferenceInv.turn {points : List VisualPoint} (h : ReferenceInv s points) (v : View)
    (updateFlag : ℕ → Bool) (turn : ℕ × ℕ) :
    ReferenceInv s (referenceTurn v updateFlag points turn) := by
  unfold referenceTurn
  split
  · exact h
  · rename_i p hp
    have hmem : p ∈ points := List.mem_of_getElem? hp
    split
    · exact h
    · constructor
      · rw [List.length_set]
        exact h.length
      · intro r hr
        rcases List.mem_or_eq_of_mem_set hr with hr | rfl
        · exact h.points r hr
        · exact (h.points p hmem).updateReference _ _
      · intro r hr f hf
        rcases List.mem_or_eq_of_mem_set hr with hr | rfl
        · exact h.ids r hr f hf
        · rw [VisualPoint.updateReference_obs] at hf
          obtain ⟨g, hg, rfl⟩ := List.mem_map.mp hf
          exact h.ids p hmem g hg

theorem ReferenceInv.foldl (v : View) (updateFlag : ℕ → Bool) {turns : List (ℕ × ℕ)}
    {points : List VisualPoint} (h : ReferenceInv s points) :
    ReferenceInv s (turns.foldl (referenceTurn v updateFlag) points) := by
  induction turns generalizing points with
  | nil => exact h
  | cons turn turns ih => exact ih (h.turn v updateFlag turn)

/-- The references are chosen anew. -/
theorem MapInv.reference (h : MapInv cfg s) (v : View) (hphase : s.phase = .reference) :
    Ensures Harmless (MapInv cfg) (step cfg v s) := by
  unfold step updateReferencePatch
  rw [hphase]
  change MapInv cfg { (if s.totalPoints = 0 then s else _) with phase := .retrieve }
  split
  · exact ⟨h.points, h.ids, fun hne => absurd rfl hne, h.distinct, h.bound, fun hno => hno.elim⟩
  · have hloop : ReferenceInv s (s.voxelPoints.zipIdx.foldl (referenceTurn v s.updateFlag)
        s.points) := ReferenceInv.foldl v s.updateFlag ⟨rfl, h.points, h.ids⟩
    exact ⟨hloop.points, hloop.ids, fun hne => absurd rfl hne, h.distinct,
      fun k hk => hloop.length ▸ h.bound k hk, fun hno => hno.elim⟩

/-! ## Runs -/

/-- What every operation keeps. -/
theorem MapInv.step (h : MapInv cfg s) {v : View} (hready : ReferencesReady cfg s v) :
    Ensures Harmless (MapInv cfg) (step cfg v s) := by
  cases hphase : s.phase with
  | retrieve => exact h.retrieve v hphase
  | compute => exact h.compute hready hphase
  | generate => exact h.generate v hphase
  | project => exact h.project hready hphase
  | update => exact h.update v hphase
  | reference => exact h.reference v hphase

end Steps

/-- The maps between the operations of the runs whose operations meet the condition. -/
def Reached (cfg : Config) : VioMap → Prop :=
  Reach (fun s v => (step cfg v s).toOption) (ReferencesReady cfg) {}

theorem Reached.mapInv {cfg : Config} {s : VioMap} (h : Reached cfg s) : MapInv cfg s := by
  apply Reach.invariant (mapInv_init cfg) _ h
  intro s t v _ hs hready hstep
  have hensures := hs.step hready
  cases hnext : step cfg v s with
  | ok u =>
    rw [hnext] at hstep
    obtain rfl := Option.some.inj hstep
    exact hensures.of_ok hnext
  | error e =>
    rw [hnext] at hstep
    cases hstep

/-- In every run whose operations read through references that are there, every point keeps its
invariant, and the next operation reads no observation of a point without one and no reference
that is not an observation. -/
theorem visual_map_invariant {cfg : Config} {s : VioMap} (h : Reached cfg s) :
    (∀ p ∈ s.points, PointInv p) ∧
      ∀ v, ReferencesReady cfg s v → ∀ e, step cfg v s = .error e → ¬e.OfObservation := by
  constructor
  · exact h.mapInv.points
  · intro v hready e he
    exact (h.mapInv.step hready).of_error he

/-! ## Two runs -/

/-- A patch of one pixel. -/
def greyPatch : Patch where
  values := [100]
  bounds := by
    intro v hv
    obtain rfl := List.mem_singleton.mp hv
    norm_num
  size := by simp

/-- Every frame adds a point, meets the first one and observes it again. -/
def tracking : View where
  visits := [0]
  cell k := if k = 0 then some (0, 5) else none
  depthContinous _ := false
  closeView _ := true
  accepted _ := true
  newPoints := [⟨1, greyPatch, none⟩]
  plotFlag := false
  addFlag _ _ := true
  observation _ := (2, greyPatch)
  settled _ := false
  score _ _ := none

/-- The parameters of a launch file, with a grid of one cell. -/
def launchConfig (normalEn inverseCompositionEn : Bool) : Config where
  normalEn := normalEn
  inverseCompositionEn := inverseCompositionEn
  patchPyrimidLevel := 4
  maxIterations := 5
  length := 1

/-- Two frames with `normal_en`: the first point has two observations and a reference. -/
theorem visual_map_invariant_twoFrames :
    ∃ s : VioMap, (s.points.head?.any fun p => p.obs.length == 2 && p.hasRefPatch) = true ∧
      (∀ p ∈ s.points, PointInv p) ∧
      ∀ v, ReferencesReady (launchConfig true true) s v →
        ∀ e, step (launchConfig true true) v s = .error e → ¬e.OfObservation := by
  have hreplay : (exec (fun s v => (step (launchConfig true true) v s).toOption) {}
      (List.replicate 12 tracking)).any (fun s =>
        s.points.head?.any fun p => p.obs.length == 2 && p.hasRefPatch) = true := by
    decide +kernel
  obtain ⟨s, hexec, hs⟩ := exists_exec_of_any _ hreplay
  have hreached : Reached (launchConfig true true) s :=
    (Reach.of_exec hexec).mono fun _ _ _ => Or.inl rfl
  exact ⟨s, hs, visual_map_invariant hreached⟩

/-- The fault of a result. -/
def faultOf {α : Type} : Except Fault α → Option Fault
  | .ok _ => none
  | .error e => some e

theorem eq_error_of_faultOf {α : Type} {x : Except Fault α} {e : Fault}
    (h : faultOf x = some e) : x = .error e := by
  cases x with
  | ok a => cases h
  | error e' => exact congrArg Except.error (Option.some.inj h)

/-- Without `normal_en` a point that is tracked for the first time has no reference, and the inverse
compositional update reads through it. -/
theorem reference_read_unset :
    ∃ s : VioMap, exec (fun s v => (step (launchConfig false true) v s).toOption) {}
        (List.replicate 7 tracking) = some s ∧
      step (launchConfig false true) tracking s = .error .danglingRef := by
  have hreplay : (exec (fun s v => (step (launchConfig false true) v s).toOption) {}
      (List.replicate 7 tracking)).any (fun s =>
        faultOf (step (launchConfig false true) tracking s) == some .danglingRef) = true := by
    decide +kernel
  obtain ⟨s, hexec, hs⟩ := exists_exec_of_any _ hreplay
  exact ⟨s, hexec, eq_error_of_faultOf (eq_of_beq hs)⟩

end FastLivo.VisualMap
