import FastLivo.VoxelMap.Geometry

/-!
# Splits

A node whose points are not planar is split when they are fitted for the first time. A plane
that a later fit refutes is not: its state still says that the tree ends here, and its points
stay.
-/

namespace FastLivo.VoxelMap

open Lib

variable {K : Type*} [Field K] [LinearOrder K]

/-- A fitted node that is planar or in the last layer ends the tree; any other is split, and
passed the points it keeps to its leaves. -/
structure SplitNode (cfg : TreeConfig K) (n : OctoNode K) (leaves : Octant → VoxelOctoTree K) :
    Prop where
  ends : n.initOcto = true → n.plane.isPlane = true ∨ n.layer = cfg.maxLayer →
    n.octoState = 0 ∧ ∀ o, leaves o = .null
  splits : n.initOcto = true → n.plane.isPlane = false → n.layer < cfg.maxLayer →
    n.octoState = 1 ∧ ∀ o, (n.within o n.tempPoints).Sublist (leaves o).arrived

/-- Every node is split as its points need. -/
def SplitConsistent (cfg : TreeConfig K) : VoxelOctoTree K → Prop
  | .null => True
  | .node n leaves => SplitNode cfg n leaves ∧ ∀ o, SplitConsistent cfg (leaves o)

variable {cfg : TreeConfig K} {n : OctoNode K} {leaves : Octant → VoxelOctoTree K}

/-- A node that is not stuck. -/
theorem Phase.splitNode (h : Phase cfg False n leaves) : SplitNode cfg n leaves := by
  cases h with
  | fresh hnew => exact ⟨fun h => absurd h (by simp [hnew]), fun h => absurd h (by simp [hnew])⟩
  | closed _ hlast hstate hnone =>
    refine ⟨fun _ _ => ⟨hstate, fun o => congrFun hnone o⟩, fun _ hplane hlt => ?_⟩
    rcases hlast with h | h
    · rw [hplane] at h
      cases h
    · omega
  | split _ hplane hlt hstate _ hkept hpassed =>
    constructor
    · intro _ hlast
      rcases hlast with h | h
      · rw [hplane] at h
        cases h
      · omega
    · intro _ _ _
      refine ⟨hstate, fun o => ?_⟩
      rw [hpassed o]
      exact hkept.sublist.filter _
  | stuck _ _ _ _ _ _ _ _ _ hno => exact hno.elim

theorem splitConsistent_of_inv (t : VoxelOctoTree K) (h : Inv cfg False t) :
    SplitConsistent cfg t := by
  induction t with
  | null => trivial
  | node n leaves ih => exact ⟨h.1.phase.splitNode, fun o => ih o (h.2 o)⟩

variable [FloorRing K]

/-- The call makes no plane above the last layer be fitted again and refuted. -/
def RefutesNone (r : Rounding K) (cfg : TreeConfig K) (m : Voxels K) (call : MapCall K) : Prop :=
  ∀ position pv, call.Inserts r cfg position pv → ¬refutes cfg pv (m position)

/-- As long as no plane is refuted, every node of every voxel is split as its points need. -/
theorem splits_consistent {r : Rounding K} {m : Voxels K} (h : MapRun r cfg (RefutesNone r cfg) m)
    (position : VoxelLocation) : SplitConsistent cfg (m position) := by
  have hvoxel : VoxelInv cfg False (fun _ _ => True) position (m position) :=
    h.voxelInv (fun _ _ _ => trivial) (fun _ _ _ _ _ _ => trivial)
      (fun m call position pv hok hinserts _ => hok position pv hinserts) position
  exact splitConsistent_of_inv _ hvoxel.inv

instance decidableRefutes (cfg : TreeConfig K) (pv : PointWithVar K) :
    ∀ t : VoxelOctoTree K, Decidable (refutes cfg pv t)
  | .null => .isFalse id
  | .node n leaves =>
    have := decidableRefutes cfg pv (leaves (n.octant pv.pointW))
    inferInstanceAs (Decidable (n.initOcto = true ∧ n.layer < cfg.maxLayer ∧
      if n.plane.isPlane then n.refuted cfg pv else refutes cfg pv (leaves (n.octant pv.pointW))))

instance decidableRefutesNone (r : Rounding K) (cfg : TreeConfig K) (m : Voxels K) :
    ∀ call, Decidable (RefutesNone r cfg m call)
  | .updateVoxelMap pv =>
    decidable_of_iff (∀ position ∈ planeKey r cfg.maxVoxelSize pv.pointW, ¬refutes cfg pv (m position))
      ⟨fun h position _ hinserts => hinserts.1 ▸ h position (hinserts.1 ▸ hinserts.2),
        fun h position hkey => h position pv ⟨rfl, hkey⟩⟩
  | .updateOctoTree position pv =>
    decidable_of_iff (¬refutes cfg pv (m position))
      ⟨fun h _ _ hinserts => hinserts.1 ▸ hinserts.2 ▸ h, fun h => h position pv ⟨rfl, rfl⟩⟩

/-- Fourteen points are cut, and two more are passed on. -/
theorem splits_consistent_cut :
    ∃ (m : Voxels ℚ) (n : OctoNode ℚ) (leaves : Octant → VoxelOctoTree ℚ),
      m (fun _ => 0) = .node n leaves ∧ n.arrived.length = 16 ∧ n.octoState = 1 ∧
        ∀ o, (n.within o n.tempPoints).Sublist (leaves o).arrived := by
  have htest : ((buildVoxelMap .exact .sample (PointWithVar.square ++ PointWithVar.poles)).bind
      fun built => exec (fun m call => if RefutesNone .exact .sample m call then
        mapStep .exact .sample m call else none) built laterCalls).any
          (fun m => (m fun _ => 0).rootIs fun n => n.initOcto = true ∧ n.plane.isPlane = false ∧
            n.layer < TreeConfig.sample.maxLayer ∧ n.arrived.length = 16) = true := by
    decide +kernel
  obtain ⟨m, hrun, hcut⟩ := MapRun.of_any _ _ htest
  obtain ⟨n, leaves, hn, hinit, hplane, hlt, harrived⟩ := exists_of_rootIs hcut
  have hsplit := splits_consistent hrun fun _ => 0
  rw [hn] at hsplit
  exact ⟨m, n, leaves, hn, harrived, hsplit.1.splits hinit hplane hlt⟩

/-! ## A plane that is refuted -/

/-- A fitted node that is neither planar nor in the last layer, and says that the tree ends. -/
def VoxelOctoTree.stuckRoot (cfg : TreeConfig ℚ) : VoxelOctoTree ℚ → Bool
  | .null => false
  | .node n _ => n.initOcto && !n.plane.isPlane && n.layer < cfg.maxLayer && n.octoState = 0

theorem stuckRoot_not_consistent {cfg : TreeConfig ℚ} {t : VoxelOctoTree ℚ}
    (h : t.stuckRoot cfg = true) : ¬SplitConsistent cfg t := by
  intro hsplit
  cases t with
  | null => cases h
  | node n leaves =>
    simp only [VoxelOctoTree.stuckRoot, Bool.and_eq_true, Bool.not_eq_true', decide_eq_true_eq] at h
    obtain ⟨⟨⟨hinit, hplane⟩, hlt⟩, hstate⟩ := h
    have hone := (hsplit.1.splits hinit hplane hlt).1
    omega

/-- A square of points is a plane, and the poles refute it. -/
theorem refuted_plane_not_split : ∃ m, MapRun .exact .sample (fun _ _ => True) m ∧
    ¬SplitConsistent .sample (m fun _ => 0) := by
  have htest : ((buildVoxelMap .exact .sample PointWithVar.square).bind fun built =>
      exec (fun m call => if True then mapStep .exact .sample m call else none) built
        (PointWithVar.poles.map .updateVoxelMap)).any
          (fun m => (m fun _ => 0).stuckRoot .sample) = true := by
    decide +kernel
  obtain ⟨m, hrun, hstuck⟩ := MapRun.of_any (fun _ _ => True) _ htest
  exact ⟨m, hrun, stuckRoot_not_consistent hstuck⟩

end FastLivo.VoxelMap
