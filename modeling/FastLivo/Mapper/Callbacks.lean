import FastLivo.Mapper.State

/-!
# Sensor callbacks

The callbacks run one after the other on the thread of `run()`, so the mutexes
around the buffers do not show here.
-/

namespace FastLivo

variable {C : Carrier}

/-! ## Lidar -/

/-- A lidar message; `cloud` is what `p_pre->process` makes of it. -/
structure LidarMsg where
  stamp : Stamp
  cloud : List PointType

/-- The cloud of a message as the callbacks push it: ghost fields filled in. -/
def makeScan (curHeadTime : Double) (seq : Nat) (cloud : List PointType) : Scan where
  points := cloud.map fun p => { p with acq := curHeadTime + p.offset }
  headerTime := curHeadTime
  seq := seq

/-- On a header time that goes back, `lid_raw_data_buffer.clear()`. -/
def lidarLoopBack (curHeadTime : Double) (b : SensorBuffers C) : SensorBuffers C :=
  if curHeadTime < b.lastTimestampLidar then { b with lidRawDataBuffer := [] } else b

/-- The three pushes that end both lidar callbacks. -/
def pushScan (curHeadTime : Double) (cloud : List PointType) (b : SensorBuffers C) :
    SensorBuffers C :=
  { b with
    lidRawDataBuffer := b.lidRawDataBuffer ++ [makeScan curHeadTime b.lidSeq cloud]
    lidHeaderTimeBuffer := b.lidHeaderTimeBuffer ++ [curHeadTime]
    lastTimestampLidar := curHeadTime
    lidSeq := b.lidSeq + 1 }

/-- Header time computed by `standard_pcl_cbk`. -/
def standardHeadTime (cfg : Config C) (msg : LidarMsg) : Double :=
  msg.stamp.toSec + cfg.lidarTimeOffset

/-- `standard_pcl_cbk`. -/
def standardPclCbk (cfg : Config C) (msg : LidarMsg) (b : SensorBuffers C) : SensorBuffers C :=
  if !cfg.lidarEn then b
  else
    let curHeadTime := standardHeadTime cfg msg
    pushScan curHeadTime msg.cloud (lidarLoopBack curHeadTime b)

/-- `livox_pcl_cbk`: no time offset, and an empty cloud is dropped after the
loop-back check. -/
def livoxPclCbk (cfg : Config C) (msg : LidarMsg) (b : SensorBuffers C) : SensorBuffers C :=
  if !cfg.lidarEn then b
  else
    let curHeadTime := msg.stamp.toSec
    let b := lidarLoopBack curHeadTime b
    if msg.cloud.isEmpty then b else pushScan curHeadTime msg.cloud b

/-! ## IMU -/

structure ImuMsg (C : Carrier) where
  stamp : Stamp
  linearAcceleration : C.V3D
  angularVelocity : C.V3D

/-- `timestamp` of `imu_cbk`: offset, snap to the lidar time, nanosecond grid. -/
def imuTimestamp (cfg : Config C) (lastTimestampLidar : Double) (stamp : Stamp) : Double :=
  let timestamp := (rosTime (stamp.toSec - cfg.imuTimeOffset)).toSec
  if cfg.rosDriverFixEn then timestamp + llround (lastTimestampLidar - timestamp) else timestamp

/-- `imu_cbk` on the buffers; `none` when the sample is not accepted. -/
def acceptImu (cfg : Config C) (msg : ImuMsg C) (b : SensorBuffers C) :
    Option (Imu C × SensorBuffers C) :=
  if !cfg.imuEn then none
  else if b.lastTimestampLidar < 0 then none
  else
    let timestamp := imuTimestamp cfg b.lastTimestampLidar msg.stamp
    if 0 < b.lastTimestampImu ∧ timestamp < b.lastTimestampImu then none
    else
      let m : Imu C := ⟨rosTime timestamp, msg.linearAcceleration, msg.angularVelocity, b.imuSeq⟩
      some (m, { b with
        lastTimestampImu := timestamp, imuBuffer := b.imuBuffer ++ [m], imuSeq := b.imuSeq + 1 })

/-- `imu_cbk`. -/
def imuCbk (cfg : Config C) (msg : ImuMsg C) (s : LIVMapper C) : LIVMapper C :=
  match acceptImu cfg msg s.buf with
  | none => s
  | some (m, buf) =>
    { s with
      buf := buf
      prop := if cfg.imuPropEnable then
          { s.prop with
            propImuBuffer :=
              if s.imu.imuNeedInit then s.prop.propImuBuffer else s.prop.propImuBuffer ++ [m]
            newestImu := m, newImu := true }
        else s.prop }

/-! ## Image -/

structure ImageMsg (C : Carrier) where
  stamp : Stamp
  mat : C.Mat

/-- `msg_header_time` of `img_cbk`. -/
def imgHeaderTime (cfg : Config C) (msg : ImageMsg C) : Double :=
  msg.stamp.toSec + cfg.imgTimeOffset

/-- `img_cbk` after the frame counter. -/
def pushImage (msgHeaderTime : Double) (mat : C.Mat) (b : SensorBuffers C) : SensorBuffers C :=
  if |msgHeaderTime - b.lastTimestampImg| < 1 / 1000 then b
  else if b.lastTimestampLidar < 0 then b
  else if msgHeaderTime < b.lastTimestampImg then b
  else if msgHeaderTime - b.lastTimestampImg < 1 / 50 then b
  else
    { b with
      imgBuffer := b.imgBuffer ++ [⟨mat, msgHeaderTime, b.imgSeq⟩]
      imgTimeBuffer := b.imgTimeBuffer ++ [msgHeaderTime]
      lastTimestampImg := msgHeaderTime
      imgSeq := b.imgSeq + 1 }

/-- `img_cbk`: with `hilti_en` only every fourth message is looked at. -/
def imgCbk (cfg : Config C) (msg : ImageMsg C) (b : SensorBuffers C) : SensorBuffers C :=
  if !cfg.imgEn then b
  else if cfg.hiltiEn then
    let b := { b with frameCounter := b.frameCounter + 1 }
    if b.frameCounter % 4 ≠ 0 then b else pushImage (imgHeaderTime cfg msg) msg.mat b
  else pushImage (imgHeaderTime cfg msg) msg.mat b

/-! ## RTK -/

/-- `GnssPVTSolnMsg`; an accuracy that is not finite is `none`. -/
structure GnssPVTSolnMsg (C : Carrier) where
  week : Int
  tow : Double
  geo : C.Geo
  velE : C.Scalar
  velN : C.Scalar
  velD : C.Scalar
  hAcc : Option Double
  vAcc : Option Double
  validFix : Bool
  diffSoln : Bool
  carrSoln : Nat

/-- `NavSatFix`; `usable` is the status and finiteness test at the head of the
callback, a covariance entry that is not finite is `none`. -/
structure NavSatFix (C : Carrier) where
  stamp : Stamp
  usable : Bool
  geo : C.Geo
  covX : Option Double
  covY : Option Double
  covZ : Option Double

/-- Matching loop of `InitializeRTK`: `livo_it` only moves forward. -/
def matchRtk (threshold : Double) :
    List (RTK C) → List (Double × C.V3D) → List (C.V3D × C.V3D)
  | [], _ => []
  | rtk :: rest, livo =>
    match livo.dropWhile fun l => decide (l.1 < rtk.timestamp - threshold) with
    | [] => []
    | l :: ls =>
      let dt := |l.1 - rtk.timestamp|
      let best := match ls with
        | next :: _ => if |next.1 - rtk.timestamp| < dt then next else l
        | [] => l
      if |best.1 - rtk.timestamp| < threshold then
        (rtk.p, best.2) :: matchRtk threshold rest (l :: ls)
      else matchRtk threshold rest (l :: ls)

/-- `max_baseline` of `InitializeRTK`. -/
def maxBaseline (K : Kernel C) : List C.V3D → Double
  | [] => 0
  | front :: rest => (front :: rest).foldl (fun m p => max m (K.dist p front)) 0

/-- `InitializeRTK`: the result and the members it sets. -/
def initializeRTK (cfg : Config C) (K : Kernel C) (r : RtkFrontend C) : Bool × RtkFrontend C :=
  if r.rtkBuffer.length < cfg.onlineRtkMinMatches ∨
      r.livoStateBuffer.length < cfg.onlineRtkMinMatches then (false, r)
  else
    let pairs := matchRtk cfg.onlineRtkSyncThreshold r.rtkBuffer r.livoStateBuffer
    if pairs.length < cfg.onlineRtkMinMatches then (false, r)
    else if maxBaseline K (pairs.map (·.2)) < cfg.onlineRtkMinDistance then (false, r)
    else
      let tWToG := K.computeSVD (pairs.map (·.1)) (pairs.map (·.2))
      let r := { r with tWToG := tWToG, tGToW := K.inverse tWToG }
      (K.allFinite tWToG, r)

/-- Push of an observation, bounded to 5000, and the attempt to initialise. -/
def acceptRtk (cfg : Config C) (K : Kernel C) (rtk : RTK C) (r : RtkFrontend C) : RtkFrontend C :=
  if cfg.rtkEn && rtk.valid then
    let buffer := r.rtkBuffer ++ [{ rtk with seq := r.rtkSeq }]
    let r := { r with
      rtkBuffer := buffer.drop (buffer.length - 5000), rtkSeq := r.rtkSeq + 1 }
    if r.rtkIni then r
    else
      let (ok, r) := initializeRTK cfg K r
      if ok then { r with rtkIni := true } else r
  else r

/-- `rtk_cbk`. -/
def rtkCbk (cfg : Config C) (K : Kernel C) (msg : GnssPVTSolnMsg C) (r : RtkFrontend C) :
    RtkFrontend C × List (Output C) :=
  let r := if r.firstGpsPvt then r
    else { r with firstGpsPvt := true, gpsTrans := K.geoReset r.gpsTrans msg.geo }
  let stamp := msg.week * 604800 + msg.tow + 315964800 - 18
  let transLocal := K.geoForward r.gpsTrans msg.geo
  let hStd := max (msg.hAcc.getD 0) cfg.onlineRtkMinHStd
  let vStd := max (msg.vAcc.getD 0) cfg.onlineRtkMinVStd
  let rtk : RTK C := {
    timestamp := stamp - cfg.gpsTimeOffset, p := transLocal
    v := K.velENU msg.velE msg.velN msg.velD
    positionCov := K.diagonal (hStd * hStd) (hStd * hStd) (vStd * vStd)
    valid := msg.validFix && msg.diffSoln && decide (msg.carrSoln = 2) &&
      msg.hAcc.any (fun h => decide (h ≤ cfg.onlineRtkMaxHAcc)) &&
      msg.vAcc.any (fun v => decide (v ≤ cfg.onlineRtkMaxVAcc)) }
  (acceptRtk cfg K rtk r, [.gps stamp transLocal])

/-- `x_std` and its like in `navsatfix_cbk`; `none` is not a number below any bound. -/
def fixStd (K : Kernel C) (cov : Option Double) (minStd : Double) : Option Double :=
  cov.map fun c => K.sqrt (max c (minStd * minStd))

/-- `navsatfix_cbk`. -/
def navsatfixCbk (cfg : Config C) (K : Kernel C) (msg : NavSatFix C) (r : RtkFrontend C) :
    RtkFrontend C × List (Output C) :=
  if !msg.usable then (r, [])
  else
    let r := if r.firstGpsFix then
        { r with firstGpsFix := false, gpsTrans := K.geoReset r.gpsTrans msg.geo }
      else r
    let transLocal := K.geoForward r.gpsTrans msg.geo
    let xStd := fixStd K msg.covX cfg.onlineRtkMinHStd
    let yStd := fixStd K msg.covY cfg.onlineRtkMinHStd
    let zStd := fixStd K msg.covZ cfg.onlineRtkMinVStd
    let rtk : RTK C := {
      timestamp := msg.stamp.toSec - cfg.gpsTimeOffset, p := transLocal
      positionCov := K.diagonal (xStd.getD 0 * xStd.getD 0) (yStd.getD 0 * yStd.getD 0)
        (zStd.getD 0 * zStd.getD 0)
      valid := xStd.any (fun x => decide (x ≤ cfg.onlineRtkMaxHAcc)) &&
        yStd.any (fun y => decide (y ≤ cfg.onlineRtkMaxHAcc)) &&
        zStd.any (fun z => decide (z ≤ cfg.onlineRtkMaxVAcc)) }
    (acceptRtk cfg K rtk r, [.gps msg.stamp.toSec transLocal])

end FastLivo
