import FastLivo.Lib.CheckedAccess
import Mathlib.Data.Int.Notation

/-!
# Planes and edges of a line

`give_feature` looks for planes and edges among the points of one ring and averages the planes into
the surface cloud. Every access to a point or to what is kept of it is checked: `none` is an access
outside. The arithmetic is that of any numbers with the operations and comparisons the code uses.
-/

namespace FastLivo.Preprocess

open Lib

/-! ## Data -/

/-- `LiDARFeature`. -/
inductive LiDARFeature
  | nor | possPlane | realPlane | edgeJump | edgePlane | wire | zeroPoint
  deriving DecidableEq, Repr

/-- `ftype >= Real_Plane`. -/
def LiDARFeature.atLeastRealPlane : LiDARFeature → Bool
  | .nor | .possPlane => false
  | _ => true

/-- `Surround`. -/
inductive Surround
  | prev | next
  deriving DecidableEq, Repr

/-- `E_jump`. -/
inductive EdgeKind
  | nor | zero | deg180 | inf | blind
  deriving DecidableEq, Repr

/-- `LID_TYPE`. -/
inductive LidarType
  | avia | velo16 | oust64 | l515 | xt32 | pandar128 | robosense
  deriving DecidableEq, Repr

variable {K : Type}

/-- `PointType`, without the members that keep their defaults. -/
structure PointType (K : Type) where
  x : K
  y : K
  z : K
  intensity : K
  curvature : K
  deriving DecidableEq, Repr

/-- A vector of Eigen. -/
structure Vec3 (K : Type) where
  x : K
  y : K
  z : K
  deriving DecidableEq, Repr

/-- `orgtype`, without the angles, which are read where they are computed. -/
structure OrgType (K : Type) where
  range : K
  dista : K
  intersect : K
  edjPrev : EdgeKind := .nor
  edjNext : EdgeKind := .nor
  ftype : LiDARFeature := .nor
  deriving DecidableEq, Repr

/-- Functions of the C library, and what a variable holds that nothing was written to. -/
structure FloatOps (K : Type) where
  sqrt : K → K
  atan2 : K → K → K
  uninit : K

/-- Members of `Preprocess` that the handlers read. The thresholds of `give_feature` are set by the
constructor. -/
structure Config (K : Type) where
  lidarType : LidarType
  featureEnabled : Bool
  pointFilterNum : ℤ
  nScans : ℕ
  blindSqr : K
  infBound : K
  disA : K
  disB : K
  p2lRatio : K
  limitMaxmid : K
  limitMidmin : K
  limitMaxmin : K
  jumpUpLimit : K
  jumpDownLimit : K
  cos160 : K
  edgea : K
  edgeb : K
  smallpIntersect : K
  smallpRatio : K

/-- `group_size`, which only the constructor sets. -/
def groupSize : ℕ := 8

/-- The members as the constructor leaves them, from the cosines of angles in degrees. `disB` is not
written to, and `blind_sqr` is set from `blind`. -/
def Config.initial [Mul K] [OfScientific K] (cosine : K → K) (disB : K) : Config K where
  lidarType := .avia
  featureEnabled := false
  pointFilterNum := 1
  nScans := 6
  blindSqr := 0.01 * 0.01
  infBound := 10.0
  disA := 0.1
  disB := disB
  p2lRatio := 225.0
  limitMaxmid := 6.25
  limitMidmin := 6.25
  limitMaxmin := 3.24
  jumpUpLimit := cosine 170.0
  jumpDownLimit := cosine 8.0
  cos160 := cosine 160.0
  edgea := 2.0
  edgeb := 0.1
  smallpIntersect := cosine 172.5
  smallpRatio := 1.2

section Code

variable [Zero K] [Add K] [Sub K] [Mul K] [Div K] [Neg K] [LT K] [LE K] [DecidableLT K]
  [DecidableLE K] [OfScientific K] (ops : FloatOps K) (cfg : Config K)

/-! ## Vectors -/

namespace Vec3

def zero : Vec3 K := ⟨0, 0, 0⟩

def sub (a b : Vec3 K) : Vec3 K := ⟨a.x - b.x, a.y - b.y, a.z - b.z⟩

def dot (a b : Vec3 K) : K := a.x * b.x + a.y * b.y + a.z * b.z

def cross (a b : Vec3 K) : Vec3 K :=
  ⟨a.y * b.z - b.y * a.z, a.z * b.x - a.x * b.z, a.x * b.y - b.x * a.y⟩

def norm (a : Vec3 K) : K := ops.sqrt (a.dot a)

def normalize (a : Vec3 K) : Vec3 K := ⟨a.x / a.norm ops, a.y / a.norm ops, a.z / a.norm ops⟩

end Vec3

/-- The coordinates of a point. -/
def PointType.vec (p : PointType K) : Vec3 K := ⟨p.x, p.y, p.z⟩

/-! ## `plane_judge` -/

/-- `plane_type`, `i_nex` and `curr_direct` after a call. -/
structure PlaneGroup (K : Type) where
  kind : ℕ
  next : ℕ
  direction : Vec3 K

/-- The loop over the first `group_size` points, from `i_nex` on; without distances when it meets a
point in the blind zone. -/
def firstGroup (types : List (OrgType K)) : ℕ → ℕ → List K → Option (ℕ × Option (List K))
  | 0, iNex, disarr => some (iNex, some disarr)
  | n + 1, iNex, disarr => do
    let t ← types[iNex]?
    if t.range < cfg.blindSqr then some (iNex, none)
    else firstGroup types n (iNex + 1) (disarr ++ [t.dista])

/-- `i_nex`, the last `vx`, `vy`, `vz` with `two_dis`, and the distances after the loop that
extends the group; without distances when it meets a point in the blind zone. -/
structure Extent (K : Type) where
  next : ℕ
  v : Vec3 K
  twoDis : K
  disarr : Option (List K)

/-- The loop that extends the group, with as many turns as there are points from `i_nex` on. -/
def extendGroup (pl : List (PointType K)) (types : List (OrgType K)) (cur : Vec3 K) (groupDis : K) :
    ℕ → ℕ → Vec3 K → K → List K → Option (Extent K)
  | 0, iNex, v, twoDis, disarr => some ⟨iNex, v, twoDis, some disarr⟩
  | n + 1, iNex, v, twoDis, disarr => do
    let t ← types[iNex]?
    if t.range < cfg.blindSqr then some ⟨iNex, v, twoDis, none⟩
    else
      let p ← pl[iNex]?
      let v := p.vec.sub cur
      let twoDis := v.dot v
      if groupDis ≤ twoDis then some ⟨iNex, v, twoDis, some disarr⟩
      else extendGroup pl types cur groupDis n (iNex + 1) v twoDis (disarr ++ [t.dista])

/-- `leng_wid`: the largest square of a cross product, over the points between. -/
def lengWid (pl : List (PointType K)) (cur v : Vec3 K) (js : List ℕ) : Option K :=
  js.foldlM (fun lengWid j => do
    let p ← pl[j]?
    let v2 := (p.vec.sub cur).cross v
    let lw := v2.dot v2
    return if lengWid < lw then lw else lengWid) 0

/-- A turn of the outer loop that sorts the distances: what ends at its index, and the rest. -/
def sortTurn (a : K) : List K → K × List K
  | [] => (a, [])
  | b :: l =>
    if a < b then ((sortTurn b l).1, a :: (sortTurn b l).2)
    else ((sortTurn a l).1, b :: (sortTurn a l).2)

/-- The loops that sort the distances, the largest first, for as many turns as there are. -/
def sortDistances : ℕ → List K → List K
  | _, [] => []
  | 0, l => l
  | n + 1, a :: l => (sortTurn a l).1 :: sortDistances n (sortTurn a l).2

/-- `disarr[disarr.size() - 2]`. -/
def nextToLast (disarr : List K) : Option K :=
  if disarr.length < 2 then none else disarr[disarr.length - 2]?

/-- The tests on the sorted distances. -/
def distancesEven (disarr : List K) : Option Bool := do
  let low ← nextToLast disarr
  if low < 1e-16 then return false
  else
    let high ← disarr[0]?
    if cfg.lidarType = .avia then
      let mid ← disarr[disarr.length / 2]?
      return !(cfg.limitMaxmid ≤ high / mid || cfg.limitMidmin ≤ mid / low)
    else return !(cfg.limitMaxmin ≤ high / low)

/-- `plane_judge`. -/
def planeJudge (pl : List (PointType K)) (types : List (OrgType K)) (iCur : ℕ) :
    Option (PlaneGroup K) := do
  let t ← types[iCur]?
  let groupDis := cfg.disA * t.range + cfg.disB
  let groupDis := groupDis * groupDis
  match ← firstGroup cfg types groupSize iCur [] with
  | (iNex, none) => return ⟨2, iNex, .zero⟩
  | (iNex, some disarr) =>
    let cur ← pl[iCur]?
    let e ← extendGroup cfg pl types cur.vec groupDis (pl.length - iNex) iNex
      ⟨ops.uninit, ops.uninit, ops.uninit⟩ ops.uninit disarr
    match e.disarr with
    | none => return ⟨2, e.next, .zero⟩
    | some disarr =>
      let lengWid ← lengWid pl cur.vec e.v
        ((List.range' (iCur + 1) (e.next - (iCur + 1))).filter (· < pl.length))
      if e.twoDis * e.twoDis / lengWid < cfg.p2lRatio then return ⟨0, e.next, .zero⟩
      else
        let even ← distancesEven cfg (sortDistances disarr.length disarr)
        if even then return ⟨1, e.next, e.v.normalize ops⟩ else return ⟨0, e.next, .zero⟩

/-! ## `edge_jump_judge` -/

/-- `edge_jump_judge`. -/
def edgeJumpJudge (types : List (OrgType K)) (i : ℕ) (norDir : Surround) : Option Bool := do
  -- The two points on the side, and the two distances there.
  let near ← match norDir with
    | .prev => if i < 1 then none else types[i - 1]?
    | .next => types[i + 1]?
  if near.range < cfg.blindSqr then return false
  else
    let far ← match norDir with
      | .prev => if i < 2 then none else types[i - 2]?
      | .next => types[i + 2]?
    if far.range < cfg.blindSqr then return false
    else
      let t1 ← match norDir with
        | .prev => if i < 1 then none else types[i - 1]?
        | .next => types[i]?
      let t2 ← match norDir with
        | .prev => if i < 2 then none else types[i - 2]?
        | .next => types[i + 1]?
      let high := if t1.dista < t2.dista then t2.dista else t1.dista
      let low := if t1.dista < t2.dista then t1.dista else t2.dista
      let d1 := ops.sqrt high
      let d2 := ops.sqrt low
      return !(cfg.edgea * d2 < d1 || cfg.edgeb < d1 - d2)

/-! ## `give_feature` -/

/-- `types[j].ftype = ftype`. -/
def setFtype (types : List (OrgType K)) (j : ℕ) (ftype : LiDARFeature) :
    Option (List (OrgType K)) := do
  let t ← types[j]?
  return types.set j { t with ftype := ftype }

/-- The loop that skips the blind zone, for so many turns at most. -/
def findHead (types : List (OrgType K)) : ℕ → ℕ → Option ℕ
  | 0, _ => none
  | n + 1, head => do
    let t ← types[head]?
    if t.range < cfg.blindSqr then findHead types n (head + 1) else some head

/-- What the loop over planes keeps from one turn to the next. -/
structure PlaneState (K : Type) where
  types : List (OrgType K)
  lastState : ℕ
  lastDirect : Vec3 K

/-- The marks of a plane that goes from `i` to `i_nex`. -/
def markPlane (types : List (OrgType K)) (i iNex : ℕ) : Option (List (OrgType K)) :=
  (List.range' i (iNex + 1 - i)).foldlM (fun types j =>
    setFtype types j (if j ≠ i ∧ j ≠ iNex then .realPlane else .possPlane)) types

/-- The mark of a plane that meets the one before it. -/
def markMeeting (s : PlaneState K) (i : ℕ) (currDirect : Vec3 K) : Option (List (OrgType K)) :=
  if s.lastState = 1 ∧ 0.1 < s.lastDirect.norm ops then
    let mod := s.lastDirect.dot currDirect
    setFtype s.types i (if -0.707 < mod ∧ mod < 0.707 then .edgePlane else .realPlane)
  else some s.types

/-- A turn of the loop over planes: the next index, and what is kept. -/
def planeTurn (pl : List (PointType K)) (s : PlaneState K) (i : ℕ) : Option (ℕ × PlaneState K) := do
  let t ← s.types[i]?
  if t.range < cfg.blindSqr then return (i + 1, s)
  else
    let g ← planeJudge ops cfg pl s.types i
    if g.kind = 1 then
      let types ← markPlane s.types i g.next
      let types ← markMeeting ops { s with types := types } i g.direction
      return (g.next, ⟨types, 1, g.direction⟩)
    else return (g.next + 1, { s with lastState := 0, lastDirect := g.direction })

/-- The loop over planes, for so many turns at most. -/
def planeLoop (pl : List (PointType K)) (plsize2 : ℕ) :
    ℕ → ℕ → PlaneState K → Option (List (OrgType K))
  | 0, _, _ => none
  | n + 1, i, s =>
    if i < plsize2 then do
      let (i, s) ← planeTurn ops cfg pl s i
      planeLoop pl plsize2 n i s
    else some s.types

/-- `edj` and the vector on one side of a point. -/
def sideOf (pl : List (PointType K)) (types : List (OrgType K)) (t : OrgType K) (vecA : Vec3 K)
    (j : ℕ) (old : EdgeKind) : Option (EdgeKind × Vec3 K) := do
  let side ← types[j]?
  if side.range < cfg.blindSqr then
    return (if cfg.infBound < t.range then .inf else .blind, ⟨ops.uninit, ops.uninit, ops.uninit⟩)
  else
    let p ← pl[j]?
    let v := p.vec.sub vecA
    let angle := vecA.dot v / vecA.norm ops / v.norm ops
    return (if angle < cfg.jumpUpLimit then .deg180
      else if cfg.jumpDownLimit < angle then .zero else old, v)

/-- The jump that `edge_jump_judge` is asked for, if any. -/
def jumpSide (before t : OrgType K) : Option Surround :=
  if t.edjPrev = .nor ∧ t.edjNext = .zero ∧ 0.0225 < t.dista ∧ 4.0 * before.dista < t.dista then
    if cfg.cos160 < t.intersect then some .prev else none
  else if t.edjPrev = .zero ∧ t.edjNext = .nor ∧ 0.0225 < before.dista ∧
      4.0 * t.dista < before.dista then
    if cfg.cos160 < t.intersect then some .next else none
  else if t.edjPrev = .nor ∧ t.edjNext = .inf then some .prev
  else if t.edjPrev = .inf ∧ t.edjNext = .nor then some .next
  else none

/-- A turn of the loop over edges. -/
def edgeTurn (pl : List (PointType K)) (types : List (OrgType K)) (i : ℕ) :
    Option (List (OrgType K)) := do
  let t ← types[i]?
  if t.range < cfg.blindSqr ∨ t.ftype.atLeastRealPlane then return types
  else
    let before ← if i < 1 then none else types[i - 1]?
    if before.dista < 1e-16 ∨ t.dista < 1e-16 then return types
    else
      let p ← pl[i]?
      let (edjPrev, vPrev) ← sideOf ops cfg pl types t p.vec (i - 1) t.edjPrev
      let (edjNext, vNext) ← sideOf ops cfg pl types t p.vec (i + 1) t.edjNext
      let t := { t with
        edjPrev := edjPrev
        edjNext := edjNext
        intersect := vPrev.dot vNext / vPrev.norm ops / vNext.norm ops }
      let types := types.set i t
      match jumpSide cfg before t with
      | some side =>
        if ← edgeJumpJudge ops cfg types i side then setFtype types i .edgeJump else return types
      | none =>
        if edjPrev ≠ .nor ∧ edjNext ≠ .nor ∧ t.ftype = .nor then setFtype types i .wire
        else return types

/-- `if (types[j].ftype == Nor) types[j].ftype = Real_Plane`. -/
def fillPlane (types : List (OrgType K)) (j : ℕ) : Option (List (OrgType K)) := do
  let t ← types[j]?
  if t.ftype = .nor then setFtype types j .realPlane else return types

/-- A turn of the loop that fills planes up. -/
def fillTurn (types : List (OrgType K)) (i : ℕ) : Option (List (OrgType K)) := do
  let t ← types[i]?
  let before ← if i < 1 then none else types[i - 1]?
  let behind ← types[i + 1]?
  if t.range < cfg.blindSqr ∨ before.range < cfg.blindSqr ∨ behind.range < cfg.blindSqr then
    return types
  else if before.dista < 1e-8 ∨ t.dista < 1e-8 then return types
  else if t.ftype = .nor then
    let ratio := if t.dista < before.dista then before.dista / t.dista else t.dista / before.dista
    if t.intersect < cfg.smallpIntersect ∧ ratio < cfg.smallpRatio then
      let types ← fillPlane types (i - 1)
      let types ← fillPlane types (i + 1)
      setFtype types i .realPlane
    else return types
  else return types

/-- The clouds that `give_feature` fills. -/
structure Clouds (K : Type) where
  surf : List (PointType K)
  corn : List (PointType K)

/-- `last_surface`, which is `none` for -1, and the clouds. -/
structure OutputState (K : Type) where
  lastSurface : Option ℕ
  clouds : Clouds K

/-- The average of the points from `last_surface` to before `j`. -/
def averagePoint [NatCast K] (pl : List (PointType K)) (lastSurface j : ℕ) :
    Option (PointType K) := do
  let sum ← (List.range' lastSurface (j - lastSurface)).foldlM (fun ap k => do
    let p ← pl[k]?
    return { ap with
      x := ap.x + p.x
      y := ap.y + p.y
      z := ap.z + p.z
      curvature := ap.curvature + p.curvature }) (⟨0, 0, 0, 0, 0⟩ : PointType K)
  let n : K := ((j - lastSurface : ℕ) : K)
  return { sum with
    x := sum.x / n
    y := sum.y / n
    z := sum.z / n
    curvature := sum.curvature / n }

/-- A turn of the loop that fills the clouds. -/
def outputTurn [NatCast K] (pl : List (PointType K)) (types : List (OrgType K)) (s : OutputState K)
    (j : ℕ) : Option (OutputState K) := do
  let t ← types[j]?
  if t.ftype = .possPlane ∨ t.ftype = .realPlane then
    let lastSurface := s.lastSurface.getD j
    if (j : ℤ) = ((lastSurface : ℤ) + cfg.pointFilterNum - 1) % 4294967296 then
      let p ← pl[j]?
      return ⟨none, { s.clouds with surf := s.clouds.surf ++ [{ p with intensity := 0 }] }⟩
    else return { s with lastSurface := some lastSurface }
  else
    let p ← pl[j]?
    let corn := if t.ftype = .edgeJump ∨ t.ftype = .edgePlane then s.clouds.corn ++ [p]
      else s.clouds.corn
    match s.lastSurface with
    | none => return ⟨none, { s.clouds with corn := corn }⟩
    | some lastSurface =>
      let ap ← averagePoint pl lastSurface j
      return ⟨none, ⟨s.clouds.surf ++ [ap], corn⟩⟩

/-- `give_feature`. -/
def giveFeature [NatCast K] (pl : List (PointType K)) (types : List (OrgType K)) (clouds : Clouds K) :
    Option (Clouds K) :=
  let plsize := pl.length
  if plsize = 0 then some clouds
  else do
    let head ← findHead cfg types (types.length + 1) 0
    let types ← planeLoop ops cfg pl (plsize - groupSize) (plsize + 1) head
      ⟨types, 0, .zero⟩
    let types ← (List.range' (head + 3) (plsize - 3 - (head + 3))).foldlM (edgeTurn ops cfg pl) types
    let types ← (List.range' (head + 1) (plsize - 1 - (head + 1))).foldlM (fillTurn cfg) types
    let out ← (List.range' head (plsize - head)).foldlM (outputTurn cfg pl types) ⟨none, clouds⟩
    return out.clouds

end Code

end FastLivo.Preprocess
