import FastLivo.Preprocess.Feature

/-!
# The handlers of the lidar types

A handler filters the points of a message, gives each a time within the scan and returns the surface
cloud. A remainder by zero, which is undefined in the source, is the number itself here.
-/

namespace FastLivo.Preprocess

variable {K : Type}

/-! ## Messages -/

/-- `livox_ros_driver2::msg::CustomPoint`. -/
structure CustomPoint (K : Type) where
  x : K
  y : K
  z : K
  reflectivity : K
  offsetTime : UInt32
  line : UInt8
  tag : UInt8

/-- `livox_ros_driver2::msg::CustomMsg`. -/
structure CustomMsg (K : Type) where
  pointNum : UInt32
  points : List (CustomPoint K)

/-- The points of the other lidars. `time` is the member that holds the time: `time`, `t` or
`timestamp`. -/
structure SensorPoint (K : Type) where
  x : K
  y : K
  z : K
  intensity : K
  time : K
  ring : ℕ
  deriving DecidableEq, Repr

/-- `int plsize` of a size; without a value when it is negative, which makes `reserve` throw. -/
def intSize (n : ℕ) : Option ℕ :=
  if n % 4294967296 < 2147483648 then some (n % 4294967296) else none

/-- `MAX_LINE_NUM`. -/
def maxLineNum : ℕ := 64

/-- The length of `pl_buff` and `typess`. -/
def maxBuffers : ℕ := 128

/-- `i % point_filter_num == 0`. -/
def Config.sampled (cfg : Config K) (i : ℕ) : Bool := (i : ℤ) % cfg.pointFilterNum = 0

/-- `valid_num % point_filter_num == 0`, of unsigned numbers. -/
def Config.sampledUnsigned (cfg : Config K) (validNum : ℕ) : Bool :=
  (validNum : ℤ) % (cfg.pointFilterNum % 4294967296) = 0

section Code

variable [Zero K] [Add K] [Sub K] [Mul K] [Div K] [Neg K] [LT K] [LE K] [DecidableLT K]
  [DecidableLE K] [OfScientific K] [NatCast K] (ops : FloatOps K) (cfg : Config K)

/-- The square of the distance of a point. -/
def PointType.sqNorm (p : PointType K) : K := p.x * p.x + p.y * p.y + p.z * p.z

def fabs (x : K) : K := if x < 0 then -x else x

/-! ## Rings -/

/-- The buffers of the rings after they were cleared. -/
def clearBuffers : Option (List (List (PointType K))) :=
  if cfg.nScans ≤ maxBuffers then some (List.replicate maxBuffers []) else none

/-- `pl_buff[ring].push_back(p)`. -/
def pushBuffer (buffers : List (List (PointType K))) (ring : ℕ) (p : PointType K) :
    Option (List (List (PointType K))) := do
  let pl ← buffers[ring]?
  return buffers.set ring (pl ++ [p])

/-- `types` of a ring that is not empty. -/
def orgTypes (rangeOf : PointType K → K) : List (PointType K) → List (OrgType K)
  | [] => []
  | [p] => [⟨rangeOf p, ops.uninit, 2.0, .nor, .nor, .nor⟩]
  | p :: q :: rest =>
    ⟨rangeOf p, (p.vec.sub q.vec).dot (p.vec.sub q.vec), 2.0, .nor, .nor, .nor⟩ ::
      orgTypes rangeOf (q :: rest)

/-- `types` of a ring. `linesize - 1` of an empty ring is the largest unsigned number, and the loop
leaves the ring at once. -/
def ringTypes (rangeOf : PointType K → K) (pl : List (PointType K)) : Option (List (OrgType K)) :=
  if pl.isEmpty then none else some (orgTypes ops rangeOf pl)

/-- The loop over the rings that have so many points. -/
def ringFeatures (rangeOf : PointType K → K) (minSize : ℕ) (buffers : List (List (PointType K))) :
    Option (Clouds K) :=
  (List.range cfg.nScans).foldlM (fun clouds j => do
    let pl ← buffers[j]?
    if pl.length < minSize then return clouds
    else
      let types ← ringTypes ops rangeOf pl
      giveFeature ops cfg pl types clouds) ⟨[], []⟩

/-- `range` in `avia_handler`. -/
def planarSquare (p : PointType K) : K := p.x * p.x + p.y * p.y

/-- `range` in the other handlers. -/
def planarRange (p : PointType K) : K := ops.sqrt (p.x * p.x + p.y * p.y)

/-! ## `avia_handler` -/

/-- The point of a message, with its time in milliseconds. -/
def CustomPoint.toPointType (p : CustomPoint K) : PointType K where
  x := p.x
  y := p.y
  z := p.z
  intensity := p.reflectivity
  curvature := ((p.offsetTime.toNat : ℕ) : K) / 1e6

/-- A default point of `pl_full`. -/
def PointType.blank : PointType K := ⟨0, 0, 0, 0, 0⟩

/-- `pl_full`, `valid_num` and `pl_surf`. -/
structure AviaState (K : Type) where
  plFull : List (PointType K)
  validNum : ℕ
  plSurf : List (PointType K)

/-- `0.004166667f`. -/
def timeStep : K := 0.004166667

/-- The time that a point is given, from its own one and that of the point before it. -/
def aviaTime (plFull : List (PointType K)) (i : ℕ) (time : K) : Option K :=
  if i = 0 then some (if fabs time < 1.0 then time else 0)
  else do
    let before ← plFull[i - 1]?
    return if fabs (time - before.curvature) < 1.0 then time else before.curvature + timeStep

/-- A turn of the loop without features. -/
def aviaTurn (msg : CustomMsg K) (s : AviaState K) (i : ℕ) : Option (AviaState K) := do
  let p ← msg.points[i]?
  if p.line.toNat < cfg.nScans then
    let validNum := s.validNum + 1
    let time ← aviaTime s.plFull i p.toPointType.curvature
    let added := { p.toPointType with curvature := time }
    let plFull := s.plFull.set i added
    if cfg.sampledUnsigned validNum ∧ cfg.blindSqr ≤ added.sqNorm then
      return ⟨plFull, validNum, s.plSurf ++ [added]⟩
    else return ⟨plFull, validNum, s.plSurf⟩
  else return s

/-- A turn of the loop with features. -/
def aviaFeatureTurn (msg : CustomMsg K)
    (s : List (PointType K) × List (List (PointType K))) (i : ℕ) :
    Option (List (PointType K) × List (List (PointType K))) := do
  let p ← msg.points[i]?
  if p.line.toNat < cfg.nScans ∧ p.tag &&& 0x30 = 0x10 then
    let added := p.toPointType
    let plFull := s.1.set i added
    let before ← s.1[i - 1]?
    if 1e-7 < fabs (added.x - before.x) ∨ 1e-7 < fabs (added.y - before.y) ∨
        1e-7 < fabs (added.z - before.z) then
      return (plFull, ← pushBuffer s.2 p.line.toNat added)
    else return (plFull, s.2)
  else return s

/-- `avia_handler`. -/
def aviaHandler (msg : CustomMsg K) : Option (List (PointType K)) :=
  match intSize msg.pointNum.toNat with
  | none => some []
  | some plsize => do
    let plFull := List.replicate plsize .blank
    let buffers ← clearBuffers cfg
    if cfg.featureEnabled then
      let s ← (List.range' 1 (plsize - 1)).foldlM (aviaFeatureTurn cfg msg) (plFull, buffers)
      let clouds ← ringFeatures ops cfg planarSquare 6 s.2
      return clouds.surf
    else
      let s ← (List.range plsize).foldlM (aviaTurn cfg msg) ⟨plFull, 0, []⟩
      return s.plSurf

/-! ## Handlers of clouds -/

/-- `std::sort` by the times; points of equal times keep their order here. -/
def sortByTime (l : List (PointType K)) : List (PointType K) :=
  l.mergeSort fun a b => !(b.curvature < a.curvature)

/-- The points of the indices that are sampled, as long as they pass a test. -/
def sampledPoints (keep : PointType K → Bool) (point : SensorPoint K → PointType K) (plsize : ℕ)
    (cloud : List (SensorPoint K)) : Option (List (PointType K)) :=
  (List.range plsize).foldlM (fun surf i => do
    if cfg.sampled i then
      let p ← cloud[i]?
      if keep (point p) then return surf ++ [point p] else return surf
    else return surf) []

/-- A point with a time. -/
def SensorPoint.toPointType (p : SensorPoint K) (intensity curvature : K) : PointType K where
  x := p.x
  y := p.y
  z := p.z
  intensity := intensity
  curvature := curvature

/-- `l515_handler`. -/
def l515Handler (cloud : List (SensorPoint K)) : Option (List (PointType K)) :=
  match intSize cloud.length with
  | none => some []
  | some _ => sampledPoints cfg (fun p => !(p.sqNorm < cfg.blindSqr))
      (fun p => p.toPointType 0 0) cloud.length cloud

/-- A turn of the loop of `oust64_handler` with features. -/
def oust64FeatureTurn (cloud : List (SensorPoint K)) (buffers : List (List (PointType K))) (i : ℕ) :
    Option (List (List (PointType K))) := do
  let p ← cloud[i]?
  let added := p.toPointType p.intensity (p.time / 1e6)
  if added.sqNorm < cfg.blindSqr then return buffers
  else if p.ring < cfg.nScans then pushBuffer buffers p.ring added
  else return buffers

/-- `oust64_handler`. -/
def oust64Handler (cloud : List (SensorPoint K)) : Option (List (PointType K)) :=
  match intSize cloud.length with
  | none => some []
  | some plsize =>
    if cfg.featureEnabled then do
      let buffers ← clearBuffers cfg
      let buffers ← (List.range plsize).foldlM (oust64FeatureTurn cfg cloud) buffers
      let clouds ← ringFeatures ops cfg (planarRange ops) 0 buffers
      return clouds.surf
    else (sampledPoints cfg (fun p => !(p.sqNorm < cfg.blindSqr))
      (fun p => p.toPointType p.intensity (p.time / 1e6)) cloud.length cloud).map sortByTime

/-- `is_first`, `yaw_fp` and `time_last` of a ring. -/
structure RingClock (K : Type) where
  isFirst : Bool
  yawFp : K
  timeLast : K

/-- The clocks of the rings. -/
def initialClocks : List (RingClock K) := List.replicate maxLineNum ⟨true, 0, 0⟩

/-- The time of a point from its azimuth, which is none for the first point of a ring. -/
def azimuthTime (clocks : List (RingClock K)) (layer : ℕ) (p : SensorPoint K) :
    Option (List (RingClock K) × Option K) := do
  let clock ← clocks[layer]?
  let yawAngle := ops.atan2 p.y p.x * 57.2957
  if clock.isFirst then return (clocks.set layer ⟨false, yawAngle, 0⟩, none)
  else
    let turned := if yawAngle ≤ clock.yawFp then (clock.yawFp - yawAngle) / 3.61
      else (clock.yawFp - yawAngle + 360.0) / 3.61
    let time := if turned < clock.timeLast then turned + 360.0 / 3.61 else turned
    return (clocks.set layer { clock with timeLast := time }, some time)

/-- The time of a point: the given one, or the one from its azimuth. -/
def pointTime (given : Bool) (givenTime : SensorPoint K → K) (clocks : List (RingClock K))
    (p : SensorPoint K) : Option (List (RingClock K) × Option K) :=
  if given then some (clocks, some (givenTime p)) else azimuthTime ops clocks p.ring p

/-- A turn of the loop of `velodyne_handler` and `xt32_handler` with features. -/
def clockedFeatureTurn (given : Bool) (givenTime : SensorPoint K → K) (cloud : List (SensorPoint K))
    (s : List (RingClock K) × List (List (PointType K))) (i : ℕ) :
    Option (List (RingClock K) × List (List (PointType K))) := do
  let p ← cloud[i]?
  if cfg.nScans ≤ p.ring then return s
  else
    match ← pointTime ops given givenTime s.1 p with
    | (clocks, none) => return (clocks, s.2)
    | (clocks, some time) =>
      return (clocks, ← pushBuffer s.2 p.ring (p.toPointType p.intensity time))

/-- The features of `velodyne_handler` and `xt32_handler`. -/
def clockedFeatures (given : Bool) (givenTime : SensorPoint K → K) (plsize : ℕ)
    (cloud : List (SensorPoint K)) : Option (List (PointType K)) := do
  let buffers ← clearBuffers cfg
  let s ← (List.range plsize).foldlM (clockedFeatureTurn ops cfg given givenTime cloud)
    (initialClocks, buffers)
  let clouds ← ringFeatures ops cfg (planarRange ops) 2 s.2
  return clouds.surf

/-- A turn of the loop of `velodyne_handler` without features. -/
def velodyneTurn (given : Bool) (cloud : List (SensorPoint K))
    (s : List (RingClock K) × List (PointType K)) (i : ℕ) :
    Option (List (RingClock K) × List (PointType K)) := do
  let p ← cloud[i]?
  match ← pointTime ops given (fun p => p.time / 1000.0) s.1 p with
  | (clocks, none) => return (clocks, s.2)
  | (clocks, some time) =>
    let added := p.toPointType p.intensity time
    if cfg.sampled i ∧ cfg.blindSqr < added.sqNorm then return (clocks, s.2 ++ [added])
    else return (clocks, s.2)

/-- `pl_orig.points[plsize - 1]`. -/
def lastPoint (plsize : ℕ) (cloud : List (SensorPoint K)) : Option (SensorPoint K) :=
  if plsize = 0 then none else cloud[plsize - 1]?

/-- `velodyne_handler`. -/
def velodyneHandler (cloud : List (SensorPoint K)) : Option (List (PointType K)) :=
  match intSize cloud.length with
  | none => some []
  | some plsize =>
    if plsize = 0 then some []
    else do
      let last ← lastPoint plsize cloud
      let given := decide (0 < last.time)
      if cfg.featureEnabled then
        clockedFeatures ops cfg given (fun p => p.time / 1000.0) plsize cloud
      else
        let s ← (List.range plsize).foldlM (velodyneTurn ops cfg given cloud) (initialClocks, [])
        return s.2

/-- `Pandar128_handler`. -/
def pandar128Handler (cloud : List (SensorPoint K)) : Option (List (PointType K)) :=
  match intSize cloud.length with
  | none => some []
  | some plsize => do
    let head ← cloud[0]?
    let surf ← sampledPoints cfg (fun p => decide (cfg.blindSqr < p.sqNorm))
      (fun p => p.toPointType (p.intensity / 255.0) ((p.time - head.time) * 1000.0)) plsize cloud
    return sortByTime surf

/-- `xt32_handler`. -/
def xt32Handler (cloud : List (SensorPoint K)) : Option (List (PointType K)) :=
  match intSize cloud.length with
  | none => some []
  | some plsize => do
    let last ← lastPoint plsize cloud
    let given := decide (0 < last.time)
    let head ← cloud[0]?
    if cfg.featureEnabled then
      clockedFeatures ops cfg given (fun p => p.time / 1000.0) plsize cloud
    else
      sampledPoints cfg (fun p => decide (cfg.blindSqr < p.sqNorm))
        (fun p => p.toPointType p.intensity ((p.time - head.time) * 1000.0)) plsize cloud

/-- `robosense_handler`. A number that is not one is not at most itself. -/
def robosenseHandler (cloud : List (SensorPoint K)) : Option (List (PointType K)) :=
  match intSize cloud.length with
  | none => some []
  | some plsize => do
    let head ← cloud[0]?
    let surf ← sampledPoints cfg
      (fun p => cfg.blindSqr ≤ p.sqNorm ∧ p.x ≤ p.x ∧ p.y ≤ p.y ∧ p.z ≤ p.z)
      (fun p => p.toPointType p.intensity ((p.time - head.time) * 1000.0)) plsize cloud
    return sortByTime surf

/-- `Preprocess::process` of a cloud. Other types leave the surface cloud as it was, here empty. -/
def processCloud (cloud : List (SensorPoint K)) : Option (List (PointType K)) :=
  match cfg.lidarType with
  | .oust64 => oust64Handler ops cfg cloud
  | .velo16 => velodyneHandler ops cfg cloud
  | .l515 => l515Handler cfg cloud
  | .xt32 => xt32Handler ops cfg cloud
  | .pandar128 => pandar128Handler cfg cloud
  | .robosense => robosenseHandler cfg cloud
  | .avia => some []

/-- The messages that `Preprocess::process` takes. -/
inductive Message (K : Type)
  | custom (msg : CustomMsg K)
  | cloud (points : List (SensorPoint K))

/-- `Preprocess::process`. -/
def process : Message K → Option (List (PointType K))
  | .custom msg => aviaHandler ops cfg msg
  | .cloud points => processCloud ops cfg points

end Code

end FastLivo.Preprocess
