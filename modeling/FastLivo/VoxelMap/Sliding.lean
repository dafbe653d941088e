import FastLivo.Lib.Ghost
import FastLivo.Lib.KeyedLog
import FastLivo.VoxelMap.Geometry

/-!
# The sliding map

`mapSliding` deletes the voxels out of a cube around the position once the position moved far
enough. Seen from one key the map is a replay: its voxel is what the points filed under the key
make of an empty voxel, counted from the last deletion on. Between two slides the map grows by at
most one voxel for each point.
-/

namespace FastLivo.VoxelMap

open Lib

variable {K : Type*} [Field K] [LinearOrder K] [FloorRing K]

/-- Parameters of `mapSliding`. Its voxel size is the `double`, where the map is built with the
`float`. -/
structure SlideConfig (K : Type*) where
  maxVoxelSize : K
  halfMapSize : ℤ
  slidingThresh : K
  /-- `(position_last_ - last_slide_position).norm()`. -/
  distance : (Fin 3 → K) → (Fin 3 → K) → K

/-- `voxel_map_` with `last_slide_position`. -/
structure LocalMap (K : Type*) [Field K] where
  voxels : Voxels K
  lastSlidePosition : Fin 3 → K

/-- A bound of `clearMemOutOfMap`: a sum of type `int64_t`, passed as an `int`. -/
def mapBound (n : ℤ) : Option ℤ := if FitsInt64 n then some (n.bmod (2 ^ 32)) else none

/-- `should_remove`. -/
def shouldRemove (low high loc : VoxelLocation) : Bool :=
  decide (∃ j, high j < loc j ∨ loc j < low j)

/-- `clearMemOutOfMap`. -/
def clearMemOutOfMap (low high : VoxelLocation) (m : Voxels K) : Voxels K :=
  clearKeys (shouldRemove low high) .null m

/-- The bounds that `mapSliding` computes. -/
def slideBounds (r : Rounding K) (sc : SlideConfig K) (position : Fin 3 → K) :
    Option (VoxelLocation × VoxelLocation) := do
  let loc ← planeKey r sc.maxVoxelSize position
  let high ← keyOf (fun n => mapBound (n + sc.halfMapSize)) loc
  let low ← keyOf (fun n => mapBound (n - sc.halfMapSize)) loc
  some (low, high)

/-- `mapSliding` at `position_last_`. -/
def mapSliding (r : Rounding K) (sc : SlideConfig K) (position : Fin 3 → K) (s : LocalMap K) :
    Option (LocalMap K) :=
  if sc.distance position s.lastSlidePosition < sc.slidingThresh then some s
  else (slideBounds r sc position).map fun (low, high) =>
    ⟨clearMemOutOfMap low high s.voxels, position⟩

/-- What `handleLIO` does to the map: a point of `UpdateVoxelMap`, or a slide. -/
inductive SlideCall (K : Type*)
  | updateVoxelMap (pv : PointWithVar K)
  | mapSliding (position : Fin 3 → K)

def slideStep (r : Rounding K) (cfg : TreeConfig K) (sc : SlideConfig K) (s : LocalMap K) :
    SlideCall K → Option (LocalMap K)
  | .updateVoxelMap pv => (updatePoint r cfg s.voxels pv).map fun voxels => { s with voxels := voxels }
  | .mapSliding position => mapSliding r sc position s

/-! ## The replay -/

/-- A point put into a voxel: a new one, if there is none. -/
def putPoint (cfg : TreeConfig K) (position : VoxelLocation) (t : VoxelOctoTree K)
    (pv : PointWithVar K) : VoxelOctoTree K :=
  match t with
  | .null => updateOctoTree cfg pv (.node (newVoxel cfg position) noLeaves)
  | .node n leaves => updateOctoTree cfg pv (.node n leaves)

/-- The points filed under each key since it was deleted last; the bounds of the last slide; and
the keys filed under since. -/
structure SlideLog (K : Type*) [Field K] where
  filed : VoxelLocation → KeyLog (PointWithVar K) := fun _ => {}
  bounds : Option (VoxelLocation × VoxelLocation) := none
  recent : List VoxelLocation := []

/-- The log of a call. -/
def recordSlide (r : Rounding K) (cfg : TreeConfig K) (sc : SlideConfig K) (s : LocalMap K)
    (call : SlideCall K) (_ : LocalMap K) (log : SlideLog K) : SlideLog K :=
  match call with
  | .updateVoxelMap pv =>
    match planeKey r cfg.maxVoxelSize pv.pointW with
    | some key => { log with
        filed := assign log.filed key ((log.filed key).add pv), recent := log.recent ++ [key] }
    | none => log
  | .mapSliding position =>
    if sc.distance position s.lastSlidePosition < sc.slidingThresh then log
    else
      match slideBounds r sc position with
      | some (low, high) =>
        ⟨clearKeys (shouldRemove low high) ⟨true, []⟩ log.filed, some (low, high), []⟩
      | none => log

/-- The maps, with the log, of the runs from a map that `BuildVoxelMap` built whose calls meet a
condition. -/
def SlideRun (r : Rounding K) (cfg : TreeConfig K) (sc : SlideConfig K) (ok : SlideCall K → Prop)
    (built : Voxels K) (s : LocalMap K) (log : SlideLog K) : Prop :=
  Reach (withGhost (slideStep r cfg sc) (recordSlide r cfg sc)) (fun _ call => ok call)
    (⟨built, fun _ => 0⟩, {}) (s, log)

variable {r : Rounding K} {cfg : TreeConfig K} {sc : SlideConfig K} {built m : Voxels K}
  {s s' : LocalMap K} {log : SlideLog K} {key : VoxelLocation} {pv : PointWithVar K}
  {low high : VoxelLocation} {position : Fin 3 → K}

theorem updatePoint_eq {m' : Voxels K} (h : updatePoint r cfg m pv = some m') :
    ∃ key, planeKey r cfg.maxVoxelSize pv.pointW = some key ∧
      m' = assign m key (putPoint cfg key (m key) pv) := by
  obtain ⟨key, hkey, rfl⟩ := Option.map_eq_some_iff.mp h
  refine ⟨key, hkey, ?_⟩
  unfold putPoint
  cases m key <;> rfl

/-- Outcomes of a call, with what they add to the log. -/
inductive SlideEffect (r : Rounding K) (cfg : TreeConfig K) (sc : SlideConfig K) (s : LocalMap K)
    (call : SlideCall K) (log : SlideLog K) : LocalMap K → SlideLog K → Prop
  | filed {pv : PointWithVar K} {key : VoxelLocation}
      (hkey : planeKey r cfg.maxVoxelSize pv.pointW = some key) :
      SlideEffect r cfg sc s call log
        { s with voxels := assign s.voxels key (putPoint cfg key (s.voxels key) pv) }
        { log with
          filed := assign log.filed key ((log.filed key).add pv), recent := log.recent ++ [key] }
  | stays : SlideEffect r cfg sc s call log s log
  | slides {position : Fin 3 → K} {low high : VoxelLocation} (hcall : call = .mapSliding position)
      (hbounds : slideBounds r sc position = some (low, high)) :
      SlideEffect r cfg sc s call log ⟨clearMemOutOfMap low high s.voxels, position⟩
        ⟨clearKeys (shouldRemove low high) ⟨true, []⟩ log.filed, some (low, high), []⟩

theorem slideStep_cases (log : SlideLog K) {call : SlideCall K}
    (h : slideStep r cfg sc s call = some s') :
    SlideEffect r cfg sc s call log s' (recordSlide r cfg sc s call s' log) := by
  cases call with
  | updateVoxelMap pv =>
    obtain ⟨m', hm, rfl⟩ := Option.map_eq_some_iff.mp h
    obtain ⟨key, hkey, rfl⟩ := updatePoint_eq hm
    simp only [recordSlide, hkey]
    exact .filed hkey
  | mapSliding position =>
    simp only [slideStep, mapSliding] at h
    split at h
    · rename_i hnear
      obtain rfl := Option.some.inj h
      simp only [recordSlide, if_pos hnear]
      exact .stays
    · rename_i hfar
      obtain ⟨⟨low, high⟩, hbounds, rfl⟩ := Option.map_eq_some_iff.mp h
      simp only [recordSlide, if_neg hfar, hbounds]
      exact .slides rfl hbounds

/-- A voxel in its place keeps in place when it takes a point of its key. -/
theorem VoxelInv.put {t : VoxelOctoTree K}
    (h : VoxelInv cfg True (fun key pv => planeKey r cfg.maxVoxelSize pv.pointW = some key) key t)
    (hkey : planeKey r cfg.maxVoxelSize pv.pointW = some key) :
    VoxelInv cfg True (fun key pv => planeKey r cfg.maxVoxelSize pv.pointW = some key) key
      (putPoint cfg key t pv) := by
  cases t with
  | null =>
    have hfresh : VoxelInv cfg True
        (fun key pv => planeKey r cfg.maxVoxelSize pv.pointW = some key) key
        (.node (newVoxel cfg key) noLeaves) :=
      ⟨inv_noLeaves (Nat.zero_le _) (.fresh rfl rfl rfl rfl),
        fun _ _ h => (VoxelOctoTree.node.inj h).1 ▸ newVoxel_root key,
        by simp [VoxelOctoTree.arrived, newVoxel]⟩
    exact hfresh.update hkey fun hno => absurd trivial hno
  | node n leaves => exact h.update hkey fun hno => absurd trivial hno

theorem voxelInv_null : VoxelInv cfg True
    (fun key pv => planeKey r cfg.maxVoxelSize pv.pointW = some key) key .null :=
  ⟨trivial, nofun, by simp [VoxelOctoTree.arrived]⟩

/-- In every run of insertions and slides each voxel is what the points filed under its key since
its last deletion make of it, in order, and is a tree in its place. -/
theorem sliding_replays (r : Rounding K) (cfg : TreeConfig K) (sc : SlideConfig K)
    {ok : SlideCall K → Prop} {inputPoints : List (PointWithVar K)} {built : Voxels K}
    (hbuilt : buildVoxelMap r cfg inputPoints = some built) {s : LocalMap K} {log : SlideLog K}
    (h : SlideRun r cfg sc ok built s log) (key : VoxelLocation) :
    s.voxels key = (log.filed key).value (putPoint cfg key) .null (built key) ∧
      VoxelInv cfg True (fun key pv => planeKey r cfg.maxVoxelSize pv.pointW = some key) key
        (s.voxels key) := by
  refine Reach.invariant (I := fun p : LocalMap K × SlideLog K => ∀ key,
    p.1.voxels key = (p.2.filed key).value (putPoint cfg key) .null (built key) ∧
      VoxelInv cfg True (fun key pv => planeKey r cfg.maxVoxelSize pv.pointW = some key) key
        (p.1.voxels key)) ?_ ?_ h key
  · exact fun key => ⟨rfl, buildVoxelMap_inv hbuilt key⟩
  · rintro ⟨s, log⟩ ⟨s', log'⟩ call _ hinv _ hst key'
    obtain ⟨hstep, hlog⟩ := withGhost_cases hst
    dsimp only at hstep hlog hinv ⊢
    have heffect := slideStep_cases log hstep
    rw [← hlog] at heffect
    cases heffect with
    | @filed pv key hkey =>
      refine ⟨value_assign (fun key => (hinv key).1) key pv key', ?_⟩
      by_cases heq : key' = key
      · subst heq
        dsimp only
        rw [assign_self]
        exact (hinv key').2.put hkey
      · dsimp only
        rw [assign_of_ne heq]
        exact (hinv key').2
    | stays => exact hinv key'
    | @slides _ low high =>
      refine ⟨value_clearKeys (fun key => (hinv key).1) (shouldRemove low high) key', ?_⟩
      dsimp only [clearMemOutOfMap, clearKeys]
      split
      · exact voxelInv_null
      · exact (hinv key').2

/-- A cube of seven voxels a side, which slides when the position moved by a metre along the
axes. -/
def SlideConfig.sample : SlideConfig ℚ := ⟨1 / 2, 3, 1, fun p q => ∑ j, |p j - q j|⟩

/-- Five metres to the east. -/
def east : Fin 3 → ℚ := fun j => if j.val = 0 then 5 else 0

/-- The corner is left behind and seen again. -/
theorem sliding_replays_corner : ∃ (built : Voxels ℚ) (s : LocalMap ℚ) (log : SlideLog ℚ),
    (log.filed fun _ => -2).swept = true ∧ (log.filed fun _ => -2).items.length = 1 ∧
      s.voxels (fun _ => -2) = (log.filed fun _ => -2).value (putPoint .sample fun _ => -2) .null
        (built fun _ => -2) := by
  have htest : (buildVoxelMap .exact .sample [.corner]).any (fun built =>
      (exec (withGhost (slideStep .exact .sample .sample) (recordSlide .exact .sample .sample))
        (⟨built, fun _ => 0⟩, {}) [.mapSliding east, .updateVoxelMap .corner]).any fun p =>
          (p.2.filed fun _ => -2).swept && (p.2.filed fun _ => -2).items.length == 1) = true := by
    decide +kernel
  obtain ⟨built, hbuilt, hany⟩ := (Option.any_eq_true _ _).mp htest
  obtain ⟨⟨s, log⟩, hexec, hlog⟩ := exists_exec_of_any _ hany
  rw [Bool.and_eq_true, beq_iff_eq] at hlog
  exact ⟨built, s, log, hlog.1, hlog.2,
    (sliding_replays .exact .sample .sample hbuilt
      (show SlideRun .exact .sample .sample (fun _ => True) built s log from .of_exec hexec) _).1⟩

/-! ## The size of the map -/

/-- The cube around the position is within the range of an `int`. -/
def SlideFits (r : Rounding K) (sc : SlideConfig K) : SlideCall K → Prop
  | .updateVoxelMap _ => True
  | .mapSliding position => ∀ loc, planeKey r sc.maxVoxelSize position = some loc →
    ∀ j, -2147483648 ≤ loc j - sc.halfMapSize ∧ loc j + sc.halfMapSize < 2147483648

theorem mapBound_eq {n bound : ℤ} (h : mapBound n = some bound) (hlow : -2147483648 ≤ n)
    (hhigh : n < 2147483648) : bound = n := by
  obtain ⟨-, hbound⟩ := Option.ite_none_right_eq_some.mp h
  rw [← Option.some.inj hbound]
  exact Int.bmod_eq_of_le (by omega) (by omega)

theorem slideBounds_side (hhalf : 0 ≤ sc.halfMapSize)
    (hfits : SlideFits r sc (.mapSliding position))
    (h : slideBounds r sc position = some (low, high)) (j : Fin 3) :
    high j + 1 - low j = (2 * sc.halfMapSize + 1).toNat := by
  simp only [slideBounds, Option.bind_eq_bind, Option.bind_eq_some_iff, Option.some.injEq,
    Prod.mk.injEq] at h
  obtain ⟨loc, hloc, high', hhigh, low', hlow, rfl, rfl⟩ := h
  obtain ⟨hleast, hmost⟩ := hfits loc hloc j
  have hupper := mapBound_eq (keyOf_eq_some.mp hhigh j) (by omega) hmost
  have hlower := mapBound_eq (keyOf_eq_some.mp hlow j) hleast (by omega)
  omega

/-- After a slide the voxels are in the cube, or were filed under since. -/
structure SlideInv (sc : SlideConfig K) (s : LocalMap K) (low high : VoxelLocation)
    (recent : List VoxelLocation) : Prop where
  side : ∀ j, high j + 1 - low j = (2 * sc.halfMapSize + 1).toNat
  inside : ∀ key, s.voxels key ≠ .null → key ∈ recent ∨ ∀ j, low j ≤ key j ∧ key j ≤ high j

theorem slideInv_step (hhalf : 0 ≤ sc.halfMapSize) {call : SlideCall K} {log' : SlideLog K}
    (hfits : SlideFits r sc call) (heffect : SlideEffect r cfg sc s call log s' log')
    (hinv : ∀ low high, log.bounds = some (low, high) → SlideInv sc s low high log.recent)
    (hbounds' : log'.bounds = some (low, high)) : SlideInv sc s' low high log'.recent := by
  cases heffect with
  | @filed pv key hkey =>
    obtain ⟨hside, hinside⟩ := hinv low high hbounds'
    refine ⟨hside, fun key' hkey' => ?_⟩
    by_cases heq : key' = key
    · exact .inl (List.mem_append_right _ (List.mem_singleton.mpr heq))
    · dsimp only at hkey'
      rw [assign_of_ne heq] at hkey'
      exact (hinside key' hkey').imp_left (List.mem_append_left _)
  | stays => exact hinv low high hbounds'
  | slides hcall hbounds =>
    obtain ⟨rfl, rfl⟩ := Prod.mk.inj (Option.some.inj hbounds')
    refine ⟨slideBounds_side hhalf (hcall ▸ hfits) hbounds, fun key hkey => .inr fun j => ?_⟩
    simp only [clearMemOutOfMap, clearKeys, shouldRemove, decide_eq_true_eq] at hkey
    split at hkey
    · exact absurd rfl hkey
    · rename_i hkept
      push Not at hkept
      exact ⟨(hkept j).2, (hkept j).1⟩

/-- As long as the cubes are within the range of an `int`, the voxels after a slide are those in
its cube and at most one for each point that was filed since. -/
theorem sliding_bounds_map (r : Rounding K) (cfg : TreeConfig K) (sc : SlideConfig K)
    (hhalf : 0 ≤ sc.halfMapSize) {built : Voxels K} {s : LocalMap K} {log : SlideLog K}
    (h : SlideRun r cfg sc (SlideFits r sc) built s log) {low high : VoxelLocation}
    (hbounds : log.bounds = some (low, high)) :
    (∀ key, s.voxels key ≠ .null → key ∈ log.recent ∨ ∀ j, low j ≤ key j ∧ key j ≤ high j) ∧
      {key | s.voxels key ≠ .null}.Finite ∧ {key | s.voxels key ≠ .null}.ncard ≤
        (2 * sc.halfMapSize + 1).toNat ^ 3 + log.recent.length := by
  have hinv : ∀ low high, log.bounds = some (low, high) → SlideInv sc s low high log.recent := by
    refine Reach.invariant (I := fun p : LocalMap K × SlideLog K => ∀ low high,
      p.2.bounds = some (low, high) → SlideInv sc p.1 low high p.2.recent)
      (fun _ _ hnone => by cases hnone) ?_ h
    rintro ⟨s, log⟩ ⟨s', log'⟩ call _ hinv hfits hst low high hbounds'
    obtain ⟨hstep, hlog⟩ := withGhost_cases hst
    dsimp only at hstep hlog hinv hbounds' ⊢
    have heffect := slideStep_cases log hstep
    rw [← hlog] at heffect
    exact slideInv_step hhalf hfits heffect hinv hbounds'
  obtain ⟨hside, hinside⟩ := hinv low high hbounds
  obtain ⟨hfinite, hcard⟩ := ncard_cube_le {key | ∀ j, low j ≤ key j ∧ key j ≤ high j} hside
    fun _ hkey => hkey
  have hsub : {key | s.voxels key ≠ .null} ⊆
      {key | ∀ j, low j ≤ key j ∧ key j ≤ high j} ∪ ↑log.recent.toFinset := by
    intro key hkey
    rcases hinside key hkey with hrecent | hcube
    · exact .inr (List.mem_toFinset.mpr hrecent)
    · exact .inl hcube
  have hunion := hfinite.union (Finset.finite_toSet log.recent.toFinset)
  refine ⟨hinside, hunion.subset hsub, ?_⟩
  calc {key | s.voxels key ≠ .null}.ncard
      ≤ ({key | ∀ j, low j ≤ key j ∧ key j ≤ high j} ∪ ↑log.recent.toFinset).ncard :=
        Set.ncard_le_ncard hsub hunion
    _ ≤ {key : VoxelLocation | ∀ j, low j ≤ key j ∧ key j ≤ high j}.ncard +
          (↑log.recent.toFinset : Set VoxelLocation).ncard := Set.ncard_union_le _ _
    _ ≤ (2 * sc.halfMapSize + 1).toNat ^ 3 + log.recent.length := by
        rw [Set.ncard_coe_finset]
        exact Nat.add_le_add hcard log.recent.toFinset_card_le

instance decidableSlideFits (r : Rounding K) (sc : SlideConfig K) :
    ∀ call, Decidable (SlideFits r sc call)
  | .updateVoxelMap _ => .isTrue trivial
  | .mapSliding position =>
    inferInstanceAs (Decidable (∀ loc ∈ planeKey r sc.maxVoxelSize position,
      ∀ j, -2147483648 ≤ loc j - sc.halfMapSize ∧ loc j + sc.halfMapSize < 2147483648))

/-- A point in the middle of the voxel at `east`. -/
def PointWithVar.east : PointWithVar ℚ := ⟨fun j => (if j.val = 0 then 5 else 0) + 1 / 4, 0⟩

/-- The voxels at the origin and on the corner are left behind, the one in the east is kept, and
the corner is seen again. -/
theorem sliding_bounds_map_east : ∃ s : LocalMap ℚ, s.lastSlidePosition = east ∧
    (s.voxels fun _ => 0).arrived.length = 0 ∧ (s.voxels fun _ => -2).arrived.length = 1 ∧
      (s.voxels fun j => if j.val = 0 then 10 else 0).arrived.length = 2 ∧
        {key | s.voxels key ≠ .null}.ncard ≤ 7 ^ 3 + 1 := by
  have htest : (buildVoxelMap .exact .sample
      (.corner :: .east :: .east :: PointWithVar.square)).any (fun built =>
        (exec (fun p call => if SlideFits .exact SlideConfig.sample call then
          withGhost (slideStep .exact .sample .sample) (recordSlide .exact .sample .sample) p call
            else none) (⟨built, fun _ => 0⟩, {}) [.mapSliding east, .updateVoxelMap .corner]).any
          fun p => decide (p.1.lastSlidePosition = east ∧ p.2.recent.length = 1 ∧
            p.2.bounds.isSome ∧ (p.1.voxels fun _ => 0).arrived.length = 0 ∧
              (p.1.voxels fun _ => -2).arrived.length = 1 ∧
                (p.1.voxels fun j => if j.val = 0 then 10 else 0).arrived.length = 2)) = true := by
    decide +kernel
  obtain ⟨built, -, hany⟩ := (Option.any_eq_true _ _).mp htest
  obtain ⟨⟨s, log⟩, hexec, hlog⟩ := exists_exec_of_any _ hany
  obtain ⟨hlast, hrecent, hbounds, horigin, hcorner, heast⟩ := of_decide_eq_true hlog
  obtain ⟨⟨low, high⟩, hbounds⟩ := Option.isSome_iff_exists.mp hbounds
  have hrun : SlideRun .exact .sample .sample (SlideFits .exact .sample) built s log :=
    Reach.of_guarded hexec
  have hbound := (sliding_bounds_map .exact .sample .sample (by decide) hrun hbounds).2.2
  rw [hrecent] at hbound
  exact ⟨s, hlast, horigin, hcorner, heast, hbound⟩

end FastLivo.VoxelMap
