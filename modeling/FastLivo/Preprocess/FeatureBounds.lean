import FastLivo.Preprocess.PlaneGroups
import Mathlib.Logic.Relation

/-!
# Where `give_feature` stays inside of its ring

The loop over planes goes from group to group. It leaves the ring when it finds nothing but the
blind zone, and when it marks a plane that goes up to the last point. The other loops look at two
neighbours at most and keep away from both ends.
-/

set_option linter.unusedSectionVars false

namespace FastLivo.Preprocess

open Lib Relation

variable {K : Type} [Zero K] [Add K] [Sub K] [Mul K] [Div K] [Neg K] [LT K] [LE K] [DecidableLT K]
  [DecidableLE K] [OfScientific K] (ops : FloatOps K) (cfg : Config K)

namespace ScanRing

variable (ring : ScanRing K)

/-- The loop over planes goes on from one index to another. -/
def NextTurn (i j : ℕ) : Prop :=
  i + groupSize < ring.points.length ∧
    ((ring.blind cfg i = true ∧ j = i + 1) ∨
      (ring.blind cfg i = false ∧ ring.IsPlane ops cfg i ∧ j = ring.groupEnd cfg i) ∨
      (ring.blind cfg i = false ∧ ¬ring.IsPlane ops cfg i ∧ j = ring.groupEnd cfg i + 1))

/-- No plane that the loop comes to from an index on goes up to the last point. -/
def PlanesInside (head : ℕ) : Prop :=
  ∀ i, ReflTransGen (ring.NextTurn ops cfg) head i → i + groupSize < ring.points.length →
    ring.blind cfg i = false → ring.IsPlane ops cfg i → ring.groupEnd cfg i < ring.points.length

/-- The first point behind the blind zone. -/
def head : ℕ := firstStop (fun k => !ring.blind cfg k) ring.points.length 0

/-- The rings that `give_feature` reads and writes inside. -/
def Fits : Prop :=
  ring.points = [] ∨ (ring.head cfg < ring.points.length ∧
    ring.PlanesInside ops cfg (ring.head cfg))

end ScanRing

variable {ops cfg} {ring : ScanRing K} {pl : List (PointType K)} {types : List (OrgType K)}

/-! ## Marks -/

/-- A change of a type that leaves its range and distance. -/
theorem ShapeOf.set (h : ShapeOf ops ring pl types) {j : ℕ} {t : OrgType K} (t' : OrgType K)
    (ht : types[j]? = some t) (hrange : t'.range = t.range) (hdista : t'.dista = t.dista) :
    ShapeOf ops ring pl (types.set j t') := by
  obtain ⟨hj, rfl⟩ := List.getElem?_eq_some_iff.mp ht
  refine ⟨h.points, ?_, ?_⟩
  · rw [List.map_set, hrange, ← h.ranges]
    exact List.ext_getElem? fun k => by
      rw [List.getElem?_set]
      grind
  · rw [List.map_set, hdista, ← h.distas]
    exact List.ext_getElem? fun k => by
      rw [List.getElem?_set]
      grind

theorem isSome_setFtype_iff (h : ShapeOf ops ring pl types) {j : ℕ} {ftype : LiDARFeature} :
    (setFtype types j ftype).isSome ↔ j < ring.points.length := by
  rw [← h.length_types, setFtype]
  by_cases hj : j < types.length
  · rw [List.getElem?_eq_getElem hj]
    exact ⟨fun _ => hj, fun _ => rfl⟩
  · rw [List.getElem?_eq_none (by omega)]
    exact ⟨fun hsome => absurd hsome Bool.false_ne_true, fun hlt => absurd hlt hj⟩

theorem ShapeOf.setFtype (h : ShapeOf ops ring pl types) {j : ℕ} {ftype : LiDARFeature}
    {types' : List (OrgType K)} (hset : setFtype types j ftype = some types') :
    ShapeOf ops ring pl types' := by
  obtain ⟨t, ht, hset⟩ := Option.bind_eq_some_iff.mp hset
  obtain rfl := Option.some.inj hset
  exact h.set _ ht rfl rfl

/-- A mark inside. -/
theorem ShapeOf.exists_setFtype (h : ShapeOf ops ring pl types) {j : ℕ} (ftype : LiDARFeature)
    (hj : j < ring.points.length) : ∃ types', Preprocess.setFtype types j ftype = some types' ∧
      ShapeOf ops ring pl types' := by
  obtain ⟨types', hset⟩ := Option.isSome_iff_exists.mp ((isSome_setFtype_iff h).mpr hj)
  exact ⟨types', hset, h.setFtype hset⟩

/-! ## The head -/

variable (cfg) in
/-- The loop that skips the blind zone ends at a point, or behind the last one. -/
theorem findHead_eq (h : ShapeOf ops ring pl types) {m head : ℕ}
    (hm : head + m = ring.points.length) :
    findHead cfg types (m + 1) head =
      if firstStop (fun k => !ring.blind cfg k) m head < ring.points.length then
        some (firstStop (fun k => !ring.blind cfg k) m head) else none := by
  induction m generalizing head with
  | zero =>
    have hnone : types[head]? = none := List.getElem?_eq_none (by rw [h.length_types]; omega)
    rw [findHead, hnone, firstStop, if_neg (by omega)]
    rfl
  | succ m ih =>
    obtain ⟨t, ht, -, hblind, -⟩ := h.type cfg (show head < ring.points.length by omega)
    rw [findHead, firstStop, ht, Option.bind_eq_bind, Option.bind_some]
    by_cases hrange : t.range < cfg.blindSqr
    · rw [if_pos hrange, hblind.mp hrange, Bool.not_true, if_neg Bool.false_ne_true]
      exact ih (by omega)
    · have hclear : ring.blind cfg head = false := Bool.eq_false_iff.mpr (hblind.not.mp hrange)
      rw [if_neg hrange, hclear, Bool.not_false, if_pos rfl, if_pos (by omega)]

/-! ## The loop over planes -/

/-- A group goes on behind its first point. -/
theorem lt_groupEnd {i : ℕ} (hclear : ring.blind cfg i = false) : i < ring.groupEnd cfg i := by
  rw [ScanRing.groupEnd]
  have hfirst : i < firstStop (ring.blind cfg) groupSize i := by
    rw [groupSize, firstStop, hclear, if_neg Bool.false_ne_true]
    exact le_firstStop _ _ (i + 1)
  have hrest := le_firstStop (fun k => ring.blind cfg k || ring.far cfg i k)
    (ring.points.length - (i + groupSize)) (i + groupSize)
  have hsize : groupSize = 8 := rfl
  split
  · exact hfirst
  · omega

theorem isSome_markPlane_iff (h : ShapeOf ops ring pl types) {i last : ℕ} (hi : i ≤ last) :
    (markPlane types i last).isSome ↔ last < ring.points.length := by
  rw [markPlane, isSome_foldlM_iff (ShapeOf ops ring pl) (· < ring.points.length)
    (fun _ _ _ h => isSome_setFtype_iff h) (fun _ _ _ _ h hset => h.setFtype hset) h]
  constructor
  · intro hall
    exact hall last (List.mem_range'_1.mpr (by omega))
  · intro hlast j hj
    have hj' := List.mem_range'_1.mp hj
    omega

theorem ShapeOf.markPlane (h : ShapeOf ops ring pl types) {i last : ℕ} {types' : List (OrgType K)}
    (hmark : markPlane types i last = some types') : ShapeOf ops ring pl types' :=
  foldlM_keeps (ShapeOf ops ring pl) (fun _ _ _ _ h hset => h.setFtype hset) h hmark

theorem ShapeOf.exists_markMeeting {s : PlaneState K} (h : ShapeOf ops ring pl s.types) {i : ℕ}
    (hi : i < ring.points.length) (direct : Vec3 K) :
    ∃ types', markMeeting ops s i direct = some types' ∧ ShapeOf ops ring pl types' := by
  rw [markMeeting]
  split
  · exact h.exists_setFtype _ hi
  · exact ⟨s.types, rfl, h⟩

/-- A turn of the loop over planes leaves the ring with a plane that goes up to the last point. -/
theorem planeTurn_eq_none {s : PlaneState K} (h : ShapeOf ops ring pl s.types) {i : ℕ}
    (hi : i + groupSize < ring.points.length) (hclear : ring.blind cfg i = false)
    (hplane : ring.IsPlane ops cfg i) (hlast : ring.points.length ≤ ring.groupEnd cfg i) :
    planeTurn ops cfg pl s i = none := by
  obtain ⟨t, ht, -, hblind, -⟩ := h.type cfg (show i < ring.points.length by omega)
  obtain ⟨g, hg, hnext, hkind⟩ := planeJudge_eq cfg h hi
  have hseen : ¬t.range < cfg.blindSqr := fun hrange =>
    absurd (hblind.mp hrange) (hclear ▸ Bool.false_ne_true)
  have hmark : markPlane s.types i g.next = none := by
    refine Option.not_isSome_iff_eq_none.mp ?_
    rw [isSome_markPlane_iff h (by omega)]
    omega
  rw [planeTurn, ht, Option.bind_eq_bind, Option.bind_some, if_neg hseen, hg, Option.bind_eq_bind,
    Option.bind_some, if_pos (hkind.mpr hplane), hmark]
  rfl

/-- Any other turn goes on. -/
theorem planeTurn_eq_some {s : PlaneState K} (h : ShapeOf ops ring pl s.types) {i : ℕ}
    (hi : i + groupSize < ring.points.length) (hinside : ring.blind cfg i = false →
      ring.IsPlane ops cfg i → ring.groupEnd cfg i < ring.points.length) :
    ∃ j s', planeTurn ops cfg pl s i = some (j, s') ∧ i < j ∧ ring.NextTurn ops cfg i j ∧
      (∀ k, ring.NextTurn ops cfg i k → k = j) ∧ ShapeOf ops ring pl s'.types := by
  have hlt : i < ring.points.length := by omega
  obtain ⟨t, ht, -, hblind, -⟩ := h.type cfg hlt
  rw [planeTurn, ht, Option.bind_eq_bind, Option.bind_some]
  by_cases hrange : t.range < cfg.blindSqr
  · have hstop := hblind.mp hrange
    rw [if_pos hrange]
    refine ⟨i + 1, s, rfl, Nat.lt_succ_self i, ⟨hi, .inl ⟨hstop, rfl⟩⟩, ?_, h⟩
    rintro k ⟨-, ⟨-, hk⟩ | ⟨hclear, -⟩ | ⟨hclear, -⟩⟩
    · exact hk
    · exact absurd hstop (hclear ▸ Bool.false_ne_true)
    · exact absurd hstop (hclear ▸ Bool.false_ne_true)
  · have hclear : ring.blind cfg i = false := Bool.eq_false_iff.mpr (hblind.not.mp hrange)
    have hend := lt_groupEnd hclear
    obtain ⟨g, hg, hnext, hkind⟩ := planeJudge_eq cfg h hi
    rw [if_neg hrange, hg, Option.bind_eq_bind, Option.bind_some]
    by_cases hplane : ring.IsPlane ops cfg i
    · have hlast := hinside hclear hplane
      obtain ⟨marked, hmark⟩ := Option.isSome_iff_exists.mp
        ((isSome_markPlane_iff h (show i ≤ g.next by omega)).mpr (by omega))
      obtain ⟨met, hmeet, hmet⟩ := ShapeOf.exists_markMeeting (s := { s with types := marked })
        (h.markPlane hmark) hlt g.direction
      rw [if_pos (hkind.mpr hplane), hmark, Option.bind_eq_bind, Option.bind_some, hmeet,
        Option.bind_some, hnext]
      refine ⟨ring.groupEnd cfg i, _, rfl, hend, ⟨hi, .inr (.inl ⟨hclear, hplane, rfl⟩)⟩, ?_, hmet⟩
      rintro k ⟨-, ⟨hstop, -⟩ | ⟨-, -, hk⟩ | ⟨-, hnot, -⟩⟩
      · exact absurd hstop (hclear ▸ Bool.false_ne_true)
      · exact hk
      · exact absurd hplane hnot
    · rw [if_neg (hkind.not.mpr hplane), hnext]
      refine ⟨ring.groupEnd cfg i + 1, _, rfl, by omega,
        ⟨hi, .inr (.inr ⟨hclear, hplane, rfl⟩)⟩, ?_, h⟩
      rintro k ⟨-, ⟨hstop, -⟩ | ⟨-, hyes, -⟩ | ⟨-, -, hk⟩⟩
      · exact absurd hstop (hclear ▸ Bool.false_ne_true)
      · exact absurd hyes hplane
      · exact hk

/-- What the loop can come to from an index on is that index and what it can come to from the
next. -/
theorem planesInside_iff {i j : ℕ} (hij : ring.NextTurn ops cfg i j)
    (honly : ∀ k, ring.NextTurn ops cfg i k → k = j) (hinside : ring.blind cfg i = false →
      ring.IsPlane ops cfg i → ring.groupEnd cfg i < ring.points.length) :
    ring.PlanesInside ops cfg i ↔ ring.PlanesInside ops cfg j := by
  constructor
  · exact fun h k hjk => h k (ReflTransGen.head hij hjk)
  · intro h k hik hk
    rcases ReflTransGen.cases_head hik with rfl | ⟨m, him, hmk⟩
    · exact hinside
    · obtain rfl := honly m him
      exact h k hmk hk

variable (cfg) in
/-- The loop over planes, with turns enough to come to the last group. -/
theorem planeLoop_eq (m i : ℕ) {s : PlaneState K} (h : ShapeOf ops ring pl s.types) (hm : 0 < m)
    (hi : ring.points.length ≤ i + m) :
    ((planeLoop ops cfg pl (ring.points.length - groupSize) m i s).isSome ↔
      ring.PlanesInside ops cfg i) ∧
    ∀ types', planeLoop ops cfg pl (ring.points.length - groupSize) m i s = some types' →
      ShapeOf ops ring pl types' := by
  have hsize : groupSize = 8 := rfl
  induction m generalizing i s with
  | zero => exact absurd hm (Nat.lt_irrefl 0)
  | succ m ih =>
    rw [planeLoop]
    by_cases hmore : i < ring.points.length - groupSize
    · rw [if_pos hmore]
      by_cases hinside : ring.blind cfg i = false → ring.IsPlane ops cfg i →
          ring.groupEnd cfg i < ring.points.length
      · obtain ⟨j, s', hturn, hlt, hij, honly, h'⟩ := planeTurn_eq_some h (by omega) hinside
        rw [hturn, planesInside_iff hij honly hinside]
        exact ih j h' (by omega) (by omega)
      · have hout : ring.blind cfg i = false ∧ ring.IsPlane ops cfg i ∧
            ring.points.length ≤ ring.groupEnd cfg i := by
          grind
        rw [planeTurn_eq_none h (by omega) hout.1 hout.2.1 hout.2.2]
        refine ⟨⟨fun hsome => absurd hsome Bool.false_ne_true, fun hall => ?_⟩, fun types' hnone => ?_⟩
        · exact absurd (hall i ReflTransGen.refl (by omega)) hinside
        · cases hnone
    · rw [if_neg hmore]
      refine ⟨⟨fun _ k hik hk => ?_, fun _ => rfl⟩, fun types' hsome => Option.some.inj hsome ▸ h⟩
      rcases ReflTransGen.cases_head hik with rfl | ⟨j, hij, -⟩
      · omega
      · have := hij.1
        omega

/-! ## The loops over neighbours -/

theorem ShapeOf.read (h : ShapeOf ops ring pl types) {k : ℕ} (hk : k < ring.points.length) :
    ∃ t, types[k]? = some t :=
  ⟨_, List.getElem?_eq_getElem (h.length_types ▸ hk)⟩

variable (cfg) in
theorem exists_edgeJumpJudge (h : ShapeOf ops ring pl types) {i : ℕ} (hlow : 2 ≤ i)
    (hhigh : i + 2 < ring.points.length) (side : Surround) :
    ∃ jump, edgeJumpJudge ops cfg types i side = some jump := by
  obtain ⟨t, ht⟩ := h.read (show i < ring.points.length by omega)
  obtain ⟨before1, hbefore1⟩ := h.read (show i - 1 < ring.points.length by omega)
  obtain ⟨before2, hbefore2⟩ := h.read (show i - 2 < ring.points.length by omega)
  obtain ⟨behind1, hbehind1⟩ := h.read (show i + 1 < ring.points.length by omega)
  obtain ⟨behind2, hbehind2⟩ := h.read (show i + 2 < ring.points.length by omega)
  refine Option.isSome_iff_exists.mp ?_
  cases side with
  | prev =>
    simp only [edgeJumpJudge, if_neg (show ¬i < 1 by omega), if_neg (show ¬i < 2 by omega),
      hbefore1, hbefore2, Option.bind_eq_bind, Option.bind_some]
    split
    · rfl
    · split <;> rfl
  | next =>
    simp only [edgeJumpJudge, ht, hbehind1, hbehind2, Option.bind_eq_bind, Option.bind_some]
    split
    · rfl
    · split <;> rfl

variable (cfg) in
theorem ShapeOf.exists_sideOf (h : ShapeOf ops ring pl types) {j : ℕ} (hj : j < ring.points.length)
    (t : OrgType K) (vecA : Vec3 K) (old : EdgeKind) :
    ∃ side, sideOf ops cfg pl types t vecA j old = some side := by
  obtain ⟨side, hside⟩ := h.read hj
  obtain ⟨p, hp, -⟩ := h.point hj
  rw [sideOf, hside, hp, Option.bind_eq_bind, Option.bind_some]
  split
  · exact ⟨_, rfl⟩
  · exact ⟨_, rfl⟩

/-- A turn of the loop over edges, two points and more away from both ends. -/
theorem edgeTurn_inside (h : ShapeOf ops ring pl types) {i : ℕ} (hlow : 2 ≤ i)
    (hhigh : i + 2 < ring.points.length) :
    ∃ types', edgeTurn ops cfg pl types i = some types' ∧ ShapeOf ops ring pl types' := by
  obtain ⟨t, ht⟩ := h.read (show i < ring.points.length by omega)
  obtain ⟨before, hbefore⟩ := h.read (show i - 1 < ring.points.length by omega)
  obtain ⟨p, hp, -⟩ := h.point (show i < ring.points.length by omega)
  rw [edgeTurn, ht, Option.bind_eq_bind, Option.bind_some]
  split
  · exact ⟨types, rfl, h⟩
  · rw [if_neg (show ¬i < 1 by omega), hbefore, Option.bind_eq_bind, Option.bind_some]
    dsimp only
    split
    · exact ⟨types, rfl, h⟩
    · obtain ⟨prev, hprev⟩ := h.exists_sideOf cfg
        (show i - 1 < ring.points.length by omega) t p.vec t.edjPrev
      obtain ⟨next, hnext⟩ := h.exists_sideOf cfg
        (show i + 1 < ring.points.length by omega) t p.vec t.edjNext
      rw [hp, Option.bind_eq_bind, Option.bind_some, hprev, Option.bind_some, hnext,
        Option.bind_some]
      have hset := h.set { t with
        edjPrev := prev.1
        edjNext := next.1
        intersect := prev.2.dot next.2 / prev.2.norm ops / next.2.norm ops } ht rfl rfl
      split
      · rename_i side _
        obtain ⟨jump, hjump⟩ := exists_edgeJumpJudge cfg hset hlow hhigh side
        rw [hjump, Option.bind_eq_bind, Option.bind_some]
        split
        · exact hset.exists_setFtype _ (by omega)
        · exact ⟨_, rfl, hset⟩
      · split
        · exact hset.exists_setFtype _ (by omega)
        · exact ⟨_, rfl, hset⟩

theorem fillPlane_inside (h : ShapeOf ops ring pl types) {j : ℕ} (hj : j < ring.points.length) :
    ∃ types', fillPlane types j = some types' ∧ ShapeOf ops ring pl types' := by
  obtain ⟨t, ht⟩ := h.read hj
  rw [fillPlane, ht, Option.bind_eq_bind, Option.bind_some]
  split
  · exact h.exists_setFtype _ hj
  · exact ⟨types, rfl, h⟩

/-- A turn of the loop that fills planes up, between the first point and the last. -/
theorem fillTurn_inside (h : ShapeOf ops ring pl types) {i : ℕ} (hlow : 1 ≤ i)
    (hhigh : i + 1 < ring.points.length) :
    ∃ types', fillTurn cfg types i = some types' ∧ ShapeOf ops ring pl types' := by
  obtain ⟨t, ht⟩ := h.read (show i < ring.points.length by omega)
  obtain ⟨before, hbefore⟩ := h.read (show i - 1 < ring.points.length by omega)
  obtain ⟨behind, hbehind⟩ := h.read hhigh
  simp only [fillTurn, ht, if_neg (show ¬i < 1 by omega), hbefore, hbehind, Option.bind_eq_bind,
    Option.bind_some]
  generalize (if t.dista < before.dista then before.dista / t.dista
    else t.dista / before.dista) = ratio
  split
  · exact ⟨types, rfl, h⟩
  · split
    · exact ⟨types, rfl, h⟩
    · split
      · split
        · obtain ⟨types1, heq1, h1⟩ := fillPlane_inside h (show i - 1 < ring.points.length by omega)
          obtain ⟨types2, heq2, h2⟩ := fillPlane_inside h1 hhigh
          obtain ⟨types3, heq3, h3⟩ := h2.exists_setFtype .realPlane
            (show i < ring.points.length by omega)
          exact ⟨types3, by simp only [heq1, heq2, heq3, Option.bind_some], h3⟩
        · exact ⟨types, rfl, h⟩
      · exact ⟨types, rfl, h⟩

variable [NatCast K]

theorem exists_averagePoint (h : ShapeOf ops ring pl types) (first : ℕ) {j : ℕ}
    (hj : j < ring.points.length) : ∃ ap, averagePoint pl first j = some ap := by
  have hsum : ∃ sum, (List.range' first (j - first)).foldlM (fun ap k => do
      let p ← pl[k]?
      return { ap with
        x := ap.x + p.x
        y := ap.y + p.y
        z := ap.z + p.z
        curvature := ap.curvature + p.curvature }) (⟨0, 0, 0, 0, 0⟩ : PointType K) = some sum ∧
      True := by
    refine foldlM_eq_some (fun k hk ap _ => ?_) trivial
    have hk' := List.mem_range'_1.mp hk
    obtain ⟨p, hp, -⟩ := h.point (show k < ring.points.length by omega)
    rw [hp]
    exact ⟨_, rfl, trivial⟩
  obtain ⟨sum, hsum, -⟩ := hsum
  rw [averagePoint, hsum]
  exact ⟨_, rfl⟩

/-- A turn of the loop that fills the clouds. -/
theorem outputTurn_inside (h : ShapeOf ops ring pl types) {j : ℕ} (hj : j < ring.points.length)
    (s : OutputState K) : ∃ s', outputTurn cfg pl types s j = some s' := by
  obtain ⟨t, ht⟩ := h.read hj
  obtain ⟨p, hp, -⟩ := h.point hj
  rw [outputTurn, ht, hp, Option.bind_eq_bind, Option.bind_some]
  split
  · dsimp only
    split
    · exact ⟨_, rfl⟩
    · exact ⟨_, rfl⟩
  · rw [Option.bind_eq_bind, Option.bind_some]
    cases s.lastSurface with
    | none => exact ⟨_, rfl⟩
    | some first =>
      obtain ⟨ap, hap⟩ := exists_averagePoint h first hj
      dsimp only
      rw [hap]
      exact ⟨_, rfl⟩

/-! ## `give_feature` -/

/-- `give_feature` reads and writes inside of a ring that fits, and of no other. -/
theorem isSome_giveFeature_iff (h : ShapeOf ops ring pl types) (clouds : Clouds K) :
    (giveFeature ops cfg pl types clouds).isSome ↔ ring.Fits ops cfg := by
  rw [giveFeature, h.length_pl, ScanRing.Fits, ← List.length_eq_zero_iff]
  by_cases hempty : ring.points.length = 0
  · rw [if_pos hempty]
    exact ⟨fun _ => .inl hempty, fun _ => rfl⟩
  · have hhead := findHead_eq cfg h (Nat.zero_add ring.points.length)
    rw [show firstStop (fun k => !ring.blind cfg k) ring.points.length 0 = ring.head cfg from rfl]
      at hhead
    rw [if_neg hempty, h.length_types, hhead]
    by_cases hvisible : ring.head cfg < ring.points.length
    · have hloop := planeLoop_eq cfg (ring.points.length + 1) (ring.head cfg)
        (s := ⟨types, 0, .zero⟩) h (by omega) (by omega)
      rw [if_pos hvisible, Option.bind_eq_bind, Option.bind_some]
      constructor
      · intro hsome
        refine .inr ⟨hvisible, hloop.1.mp ?_⟩
        cases hplanes : planeLoop ops cfg pl (ring.points.length - groupSize)
            (ring.points.length + 1) (ring.head cfg) ⟨types, 0, .zero⟩ with
        | none =>
          rw [hplanes] at hsome
          exact absurd hsome Bool.false_ne_true
        | some planes => rfl
      · rintro (hzero | ⟨-, hinside⟩)
        · exact absurd hzero hempty
        · obtain ⟨planes, hplanes⟩ := Option.isSome_iff_exists.mp (hloop.1.mpr hinside)
          have hshape := hloop.2 planes hplanes
          obtain ⟨edges, hedges, hshape⟩ := foldlM_eq_some (P := ShapeOf ops ring pl)
            (f := edgeTurn ops cfg pl) (l := List.range' (ring.head cfg + 3)
              (ring.points.length - 3 - (ring.head cfg + 3))) (fun i hi types h => by
              have hi' := List.mem_range'_1.mp hi
              exact edgeTurn_inside h (by omega) (by omega)) hshape
          obtain ⟨filled, hfilled, hshape⟩ := foldlM_eq_some (P := ShapeOf ops ring pl)
            (f := fillTurn cfg) (l := List.range' (ring.head cfg + 1)
              (ring.points.length - 1 - (ring.head cfg + 1))) (fun i hi types h => by
              have hi' := List.mem_range'_1.mp hi
              exact fillTurn_inside h (by omega) (by omega)) hshape
          obtain ⟨out, hout, -⟩ := foldlM_eq_some (P := fun _ => True)
            (f := outputTurn cfg pl filled) (l := List.range' (ring.head cfg)
              (ring.points.length - ring.head cfg)) (fun j hj s _ => by
              have hj' := List.mem_range'_1.mp hj
              obtain ⟨s', hs'⟩ := outputTurn_inside hshape (show j < ring.points.length by omega) s
              exact ⟨s', hs', trivial⟩) (s := ⟨none, clouds⟩) trivial
          simp only [hplanes, hedges, hfilled, hout, Option.bind_eq_bind, Option.bind_some]
          rfl
    · rw [if_neg hvisible]
      constructor
      · exact fun hnone => absurd hnone Bool.false_ne_true
      · rintro (hzero | ⟨hlt, -⟩)
        · exact absurd hzero hempty
        · exact absurd hlt hvisible

end FastLivo.Preprocess
