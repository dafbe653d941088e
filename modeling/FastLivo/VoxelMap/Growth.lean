import FastLivo.VoxelMap.Invariant

/-!
# Runs of the voxel map

`BuildVoxelMap` and any sequence of insertions keep every voxel in order and in its place.
-/

namespace FastLivo.VoxelMap

open Lib

variable {K : Type*} [Field K] [LinearOrder K]

section Voxel

variable {cfg : TreeConfig K} {stuckOk : Prop} {filed : VoxelLocation → PointWithVar K → Prop}
  {position : VoxelLocation} {n : OctoNode K} {leaves : Octant → VoxelOctoTree K}
  {pv : PointWithVar K} {t : VoxelOctoTree K}

/-- The root of a voxel. -/
structure RootOf (cfg : TreeConfig K) (position : VoxelLocation) (n : OctoNode K) : Prop where
  layer : n.layer = 0
  voxelCenter : ∀ j, n.voxelCenter j = (1 / 2 + position j) * cfg.maxVoxelSize
  quaterLength : n.quaterLength = cfg.maxVoxelSize / 4

/-- A voxel in its place. -/
structure VoxelInv (cfg : TreeConfig K) (stuckOk : Prop)
    (filed : VoxelLocation → PointWithVar K → Prop) (position : VoxelLocation)
    (t : VoxelOctoTree K) : Prop where
  inv : Inv cfg stuckOk t
  root : ∀ n leaves, t = .node n leaves → RootOf cfg position n
  filed : ∀ pv ∈ t.arrived, filed position pv

theorem VoxelInv.of_settled (h : Settled cfg stuckOk n t) (hroot : RootOf cfg position n)
    (hfiled : ∀ pv ∈ n.arrived, filed position pv) : VoxelInv cfg stuckOk filed position t := by
  constructor
  · exact h.inv
  · intro n' leaves' ht
    obtain ⟨m, below, hm, hlayer, hcenter, hquater, -⟩ := h.root
    obtain ⟨rfl, -⟩ := VoxelOctoTree.node.inj (ht.symm.trans hm)
    exact ⟨hlayer.trans hroot.layer, fun j => (congrFun hcenter j).trans (hroot.voxelCenter j),
      hquater.trans hroot.quaterLength⟩
  · rwa [h.arrived]

theorem newVoxel_root (position : VoxelLocation) : RootOf cfg position (newVoxel cfg position) :=
  ⟨rfl, fun _ => rfl, rfl⟩

/-- An insertion into a voxel. -/
theorem VoxelInv.update (h : VoxelInv cfg stuckOk filed position (.node n leaves))
    (hpv : filed position pv) (hstuck : ¬stuckOk → ¬refutes cfg pv (.node n leaves)) :
    VoxelInv cfg stuckOk filed position (updateOctoTree cfg pv (.node n leaves)) := by
  have hroot := h.root n leaves rfl
  refine .of_settled (settled_update _ rfl h.inv hstuck)
    ⟨hroot.layer, hroot.voxelCenter, hroot.quaterLength⟩ fun pv' hpv' => ?_
  rcases List.mem_append.mp hpv' with hpv' | hpv'
  · exact h.filed pv' hpv'
  · rw [List.mem_singleton.mp hpv']
    exact hpv

theorem VoxelInv.mono {filed' : VoxelLocation → PointWithVar K → Prop}
    (h : VoxelInv cfg stuckOk filed position t) (himp : ∀ pv, filed position pv → filed' position pv) :
    VoxelInv cfg stuckOk filed' position t :=
  ⟨h.inv, h.root, fun pv hpv => himp pv (h.filed pv hpv)⟩

end Voxel

variable [FloorRing K]

/-- A call that inserts a point: `UpdateVoxelMap` for each of its points, or `UpdateOctoTree` on
a voxel. -/
inductive MapCall (K : Type*)
  | updateVoxelMap (pv : PointWithVar K)
  | updateOctoTree (position : VoxelLocation) (pv : PointWithVar K)

/-- The voxel that a point is inserted into: a new one, if there is none. -/
def voxelAt (cfg : TreeConfig K) (m : Voxels K) (position : VoxelLocation) : VoxelOctoTree K :=
  match m position with
  | .null => .node (newVoxel cfg position) noLeaves
  | .node n leaves => .node n leaves

def mapStep (r : Rounding K) (cfg : TreeConfig K) (m : Voxels K) : MapCall K → Option (Voxels K)
  | .updateVoxelMap pv => updatePoint r cfg m pv
  | .updateOctoTree position pv =>
    match m position with
    | .null => none
    | .node n leaves => some (assign m position (updateOctoTree cfg pv (.node n leaves)))

/-- Maps that `BuildVoxelMap` and calls that meet a condition lead to. -/
def MapRun (r : Rounding K) (cfg : TreeConfig K) (ok : Voxels K → MapCall K → Prop)
    (m : Voxels K) : Prop :=
  ∃ inputPoints built, buildVoxelMap r cfg inputPoints = some built ∧ Reach (mapStep r cfg) ok built m

/-- Where a call puts its point. -/
def MapCall.Inserts (r : Rounding K) (cfg : TreeConfig K) (position : VoxelLocation)
    (pv : PointWithVar K) : MapCall K → Prop
  | .updateVoxelMap pv' => pv' = pv ∧ planeKey r cfg.maxVoxelSize pv.pointW = some position
  | .updateOctoTree position' pv' => position' = position ∧ pv' = pv

variable {r : Rounding K} {cfg : TreeConfig K} {m m' : Voxels K} {call : MapCall K}
  {stuckOk : Prop} {filed : VoxelLocation → PointWithVar K → Prop} {position : VoxelLocation}
  {n : OctoNode K} {leaves : Octant → VoxelOctoTree K} {pv : PointWithVar K} {t : VoxelOctoTree K}

/-- Every call updates one voxel. -/
theorem mapStep_cases (h : mapStep r cfg m call = some m') :
    ∃ position pv, call.Inserts r cfg position pv ∧
      m' = assign m position (updateOctoTree cfg pv (voxelAt cfg m position)) := by
  cases call with
  | updateVoxelMap pv =>
    obtain ⟨position, hkey, rfl⟩ := Option.map_eq_some_iff.mp h
    refine ⟨position, pv, ⟨rfl, hkey⟩, ?_⟩
    unfold voxelAt
    cases m position <;> rfl
  | updateOctoTree position pv =>
    rw [mapStep] at h
    refine ⟨position, pv, ⟨rfl, rfl⟩, ?_⟩
    unfold voxelAt
    cases hold : m position with
    | null =>
      rw [hold] at h
      cases h
    | node n leaves =>
      rw [hold] at h
      exact (Option.some.inj h).symm

/-- A test of the map at the end of a replay whose calls meet the condition. -/
theorem MapRun.of_any (ok : Voxels K → MapCall K → Prop) [∀ m call, Decidable (ok m call)]
    {inputPoints : List (PointWithVar K)} {calls : List (MapCall K)} (p : Voxels K → Bool)
    (h : ((buildVoxelMap r cfg inputPoints).bind fun built =>
      exec (fun m call => if ok m call then mapStep r cfg m call else none) built calls).any p =
        true) : ∃ m, MapRun r cfg ok m ∧ p m = true := by
  cases hbuilt : buildVoxelMap r cfg inputPoints with
  | none =>
    rw [hbuilt] at h
    cases h
  | some built =>
    rw [hbuilt, Option.bind_some] at h
    obtain ⟨m, hm, hp⟩ := exists_exec_of_any p h
    exact ⟨m, ⟨inputPoints, built, hbuilt, Reach.of_guarded hm⟩, hp⟩

/-! ## `BuildVoxelMap` -/

/-- A voxel while `BuildVoxelMap` fills it. -/
def Filling (r : Rounding K) (cfg : TreeConfig K) (position : VoxelLocation) (t : VoxelOctoTree K) :
    Prop :=
  t = .null ∨ ∃ n, t = .node n noLeaves ∧ RootOf cfg position n ∧ n.initOcto = false ∧
    n.octoState = 0 ∧ n.tempPoints = n.arrived ∧
    ∀ pv ∈ n.arrived, planeKey r cfg.maxVoxelSize pv.pointW = some position

theorem filling_push (hroot : RootOf cfg position n) (hinit : n.initOcto = false)
    (hstate : n.octoState = 0) (hkept : n.tempPoints = n.arrived)
    (hfiled : ∀ pv ∈ n.arrived, planeKey r cfg.maxVoxelSize pv.pointW = some position)
    (hkey : planeKey r cfg.maxVoxelSize pv.pointW = some position) :
    Filling r cfg position (.node (n.push pv) noLeaves) := by
  refine .inr ⟨_, rfl, ⟨hroot.layer, hroot.voxelCenter, hroot.quaterLength⟩, hinit, hstate,
    congrArg (· ++ [pv]) hkept, fun pv' hpv' => ?_⟩
  rcases List.mem_append.mp hpv' with hpv' | hpv'
  · exact hfiled pv' hpv'
  · rw [List.mem_singleton.mp hpv']
    exact hkey

theorem filling_buildPoint (h : ∀ position, Filling r cfg position (m position))
    (hst : buildPoint r cfg m pv = some m') (position : VoxelLocation) :
    Filling r cfg position (m' position) := by
  obtain ⟨key, hkey, rfl⟩ := Option.map_eq_some_iff.mp hst
  by_cases hp : position = key
  · subst hp
    rw [assign_self]
    rcases h position with hnull | ⟨n, hn, hroot, hinit, hstate, hkept, hfiled⟩
    · rw [hnull]
      exact filling_push (newVoxel_root position) rfl rfl rfl (by simp [newVoxel]) hkey
    · rw [hn]
      exact filling_push hroot hinit hstate hkept hfiled hkey
  · rw [assign_of_ne hp]
    exact h position

/-- `BuildVoxelMap` leaves every voxel in order. -/
theorem buildVoxelMap_inv {inputPoints : List (PointWithVar K)}
    (h : buildVoxelMap r cfg inputPoints = some m) (position : VoxelLocation) :
    VoxelInv cfg stuckOk (fun position pv => planeKey r cfg.maxVoxelSize pv.pointW = some position)
      position (m position) := by
  obtain ⟨filled, hfilled, rfl⟩ := Option.map_eq_some_iff.mp h
  have hfilling : ∀ position, Filling r cfg position (filled position) := by
    refine Reach.invariant (I := fun m => ∀ position, Filling r cfg position (m position)) ?_ ?_
      (Reach.of_exec hfilled)
    · exact fun _ => .inl rfl
    · intro m m' pv _ hinv _ hst
      exact filling_buildPoint hinv hst
  beta_reduce
  rcases hfilling position with hnull | ⟨n, hn, hroot, hinit, hstate, hkept, hfiled⟩
  · rw [hnull]
    exact ⟨trivial, nofun, by simp [VoxelOctoTree.arrived]⟩
  · rw [hn]
    have hlayer : n.layer ≤ cfg.maxLayer := by
      rw [hroot.layer]
      exact Nat.zero_le _
    exact .of_settled (settled_initOctoTree hlayer hinit hstate hkept) hroot hfiled

/-- A run whose calls file their points where they belong, and refute no plane unless a node may
be stuck. -/
theorem MapRun.voxelInv {ok : Voxels K → MapCall K → Prop} (h : MapRun r cfg ok m)
    (hbuilt : ∀ position pv, planeKey r cfg.maxVoxelSize pv.pointW = some position →
      filed position pv)
    (hfiled : ∀ m call position pv, ok m call → call.Inserts r cfg position pv → filed position pv)
    (hstuck : ∀ m call position pv, ok m call → call.Inserts r cfg position pv → ¬stuckOk →
      ¬refutes cfg pv (m position)) (position : VoxelLocation) :
    VoxelInv cfg stuckOk filed position (m position) := by
  obtain ⟨inputPoints, built, hbuild, hreach⟩ := h
  refine Reach.invariant
    (I := fun m => ∀ position, VoxelInv cfg stuckOk filed position (m position)) ?_ ?_ hreach position
  · exact fun position => (buildVoxelMap_inv hbuild position).mono (hbuilt position)
  · intro m m' call _ hinv hok hst position'
    obtain ⟨key, pv, hinserts, rfl⟩ := mapStep_cases hst
    by_cases hp : position' = key
    · subst hp
      rw [assign_self]
      have hpv := hfiled m call position' pv hok hinserts
      have hno := hstuck m call position' pv hok hinserts
      have hold := hinv position'
      unfold voxelAt
      cases hvoxel : m position' with
      | null =>
        have hfresh : VoxelInv cfg stuckOk filed position' (.node (newVoxel cfg position') noLeaves) :=
          ⟨inv_noLeaves (Nat.zero_le _) (.fresh rfl rfl rfl rfl),
            fun _ _ h => (VoxelOctoTree.node.inj h).1 ▸ newVoxel_root position',
            by simp [VoxelOctoTree.arrived, newVoxel]⟩
        exact hfresh.update hpv fun _ hrefutes => Bool.false_ne_true hrefutes.1
      | node n leaves =>
        rw [hvoxel] at hold hno
        exact hold.update hpv hno
    · rw [assign_of_ne hp]
      exact hinv position'

end FastLivo.VoxelMap
