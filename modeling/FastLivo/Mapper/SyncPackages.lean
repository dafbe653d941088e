import FastLivo.Mapper.State

/-!
# `sync_packages`

One call either returns false or hands the next measurement to the estimator.
`none` is a call that reads `front()` or `back()` of an empty container or pops
one. Each mode has its own function, and each function one lemma that says
everything a call can do.
-/

namespace FastLivo

variable {C : Carrier}

/-! ## Loops over the buffers -/

/-- Samples popped up to `endTime`, and what stays in `imu_buffer`. -/
def takeImu (endTime : Double) (imuBuffer : List (Imu C)) : List (Imu C) × List (Imu C) :=
  (imuBuffer.takeWhile fun m => !decide (endTime < m.sec),
    imuBuffer.dropWhile fun m => !decide (endTime < m.sec))

/-- Loop of the LIO half over `imu_buffer`: samples not later than the last update
are popped and left out. -/
def sliceImu (lastLio lioTime : Double) (imuBuffer : List (Imu C)) :
    List (Imu C) × List (Imu C) :=
  let (popped, rest) := takeImu lioTime imuBuffer
  (popped.filter fun m => decide (lastLio < m.sec), rest)

/-- Loop of the LIO half over `rtk_buffer`: the newest valid observation of the
interval, and what stays in the buffer. -/
def sliceRtk (lastLio lioTime : Double) : List (RTK C) → RTK C → RTK C × List (RTK C)
  | [], rtk => (rtk, [])
  | front :: rest, rtk =>
    if lioTime < front.timestamp then (rtk, front :: rest)
    else sliceRtk lastLio lioTime rest
      (if lastLio < front.timestamp && front.valid then front else rtk)

/-- `pt.curvature += (from - to) * 1000`. -/
def PointType.rebase (fromTime toTime : Double) (p : PointType) : PointType :=
  { p with curvature := p.curvature + (fromTime - toTime) * 1000 }

/-- Loop over the points of one popped frame, pushing to `pcl_proc_cur` or
`pcl_proc_next`. -/
def sliceFrame (frameHeaderTime lastLio lioTime : Double) :
    List PointType → List PointType × List PointType → List PointType × List PointType
  | [], acc => acc
  | pt :: pts, (cur, next) =>
    if pt.curvature < (lioTime - frameHeaderTime) * 1000 then
      sliceFrame frameHeaderTime lastLio lioTime pts
        (cur ++ [pt.rebase frameHeaderTime lastLio], next)
    else
      sliceFrame frameHeaderTime lastLio lioTime pts
        (cur, next ++ [pt.rebase frameHeaderTime lioTime])

/-- Loop of the LIO half over `lid_raw_data_buffer` and `lid_header_time_buffer`:
what stays in the two buffers and the two clouds. -/
def sliceLidar (lastLio lioTime : Double) :
    List Scan → List Double → List PointType × List PointType →
      Option (List Scan × List Double × List PointType × List PointType)
  | [], headers, (cur, next) => some ([], headers, cur, next)
  | _ :: _, [], _ => none
  | scan :: raw, header :: headers, (cur, next) =>
    if lioTime < header then some (scan :: raw, header :: headers, cur, next)
    else sliceLidar lastLio lioTime raw headers
      (sliceFrame header lastLio lioTime scan.points (cur, next))

/-! ## The modes -/

/-- `if (meas.last_lio_update_time < 0.0) meas.last_lio_update_time = front()`. -/
def initLastLio (b : SensorBuffers C) (meas : LidarMeasureGroup C) :
    Option (LidarMeasureGroup C) :=
  if meas.lastLioUpdateTime < 0 then
    b.lidHeaderTimeBuffer.head?.map fun header => { meas with lastLioUpdateTime := header }
  else some meas

/-- Pop of `lid_raw_data_buffer` and `lid_header_time_buffer`. -/
def SensorBuffers.popLidar (b : SensorBuffers C) : Option (SensorBuffers C) :=
  match b.lidRawDataBuffer, b.lidHeaderTimeBuffer with
  | _ :: raw, _ :: headers => some { b with lidRawDataBuffer := raw, lidHeaderTimeBuffer := headers }
  | _, _ => none

/-- Pop of `img_buffer` and `img_time_buffer`. -/
def SensorBuffers.popImage (b : SensorBuffers C) : Option (SensorBuffers C) :=
  match b.imgBuffer, b.imgTimeBuffer with
  | _ :: imgs, _ :: times => some { b with imgBuffer := imgs, imgTimeBuffer := times }
  | _, _ => none

/-- ONLY_LIO, `if (!lidar_pushed)`: false when the front scan has at most one
point, with `meas.lidar` already replaced. -/
def pushLidar (s : LIVMapper C) : Option (Bool × LIVMapper C) := do
  let lidar ← s.buf.lidRawDataBuffer.head?
  let s := { s with meas := { s.meas with lidar := lidar } }
  if lidar.points.length ≤ 1 then some (false, s)
  else do
    let begTime ← s.buf.lidHeaderTimeBuffer.head?
    let back ← lidar.points.getLast?
    some (true,
      { s with
        meas := { s.meas with
          lidarFrameBegTime := begTime
          lidarFrameEndTime := begTime + back.curvature / 1000
          pclProcCur := lidar.points }
        buf := { s.buf with lidarPushed := true } })

/-- ONLY_LIO after the scan was pushed. -/
def completeLio (cfg : Config C) (s : LIVMapper C) : Option (Bool × LIVMapper C) :=
  let endTime := s.meas.lidarFrameEndTime
  if cfg.imuEn && decide (s.buf.lastTimestampImu < endTime) then some (false, s)
  else do
    let (imu, imuBuffer) := takeImu endTime s.buf.imuBuffer
    let buf ← s.buf.popLidar
    some (true,
      { s with
        buf := { buf with imuBuffer := imuBuffer, lidarPushed := false }
        meas := { s.meas with
          lioVioFlg := .lio
          measures := s.meas.measures ++ [{ lioTime := endTime, imu := imu }] }
        est := if cfg.imgEn then s.est else { s.est with keyframeTime := endTime } })

/-- Case `ONLY_LIO`. -/
def syncOnlyLio (cfg : Config C) (s : LIVMapper C) : Option (Bool × LIVMapper C) := do
  let meas ← initLastLio s.buf s.meas
  let s := { s with meas := meas }
  if s.buf.lidarPushed then completeLio cfg s
  else do
    let (pushed, s) ← pushLidar s
    if pushed then completeLio cfg s else some (false, s)

/-- `lid_newest_time`. -/
def lidNewestTime (b : SensorBuffers C) : Option Double := do
  let header ← b.lidHeaderTimeBuffer.getLast?
  let scan ← b.lidRawDataBuffer.getLast?
  let back ← scan.points.getLast?
  some (header + back.curvature / 1000)

/-- RTK part of the slicing: the observation of the measurement and `rtk_buffer`. -/
def sliceLivoRtk (cfg : Config C) (lastLio lioTime : Double) (r : RtkFrontend C) :
    RTK C × RtkFrontend C :=
  if cfg.rtkEn && r.rtkIni then
    let (rtk, rtkBuffer) := sliceRtk lastLio lioTime r.rtkBuffer {}
    (rtk, { r with rtkBuffer := rtkBuffer })
  else ({}, r)

/-- The slicing that ends the LIO half, from `struct MeasureGroup m` on. -/
def sliceLivo (cfg : Config C) (lioTime : Double) (s : LIVMapper C) :
    Option (Bool × LIVMapper C) := do
  let lastLio := s.meas.lastLioUpdateTime
  let (rtk, rtkFrontend) := sliceLivoRtk cfg lastLio lioTime s.rtk
  let (imu, imuBuffer) := sliceImu lastLio lioTime s.buf.imuBuffer
  let (raw, headers, cur, next) ← sliceLidar lastLio lioTime s.buf.lidRawDataBuffer
    s.buf.lidHeaderTimeBuffer (s.meas.pclProcNext, [])
  some (true,
    { s with
      buf := { s.buf with
        imuBuffer := imuBuffer, lidRawDataBuffer := raw, lidHeaderTimeBuffer := headers }
      rtk := rtkFrontend
      meas := { s.meas with
        pclProcCur := cur, pclProcNext := next, lioVioFlg := .lio
        measures := s.meas.measures ++ [{ rtk := rtk, lioTime := lioTime, imu := imu }] } })

/-- `if(img_en) keyframe_time = img_capture_time`. -/
def atImage (cfg : Config C) (imgCaptureTime : Double) (est : Estimation C) : Estimation C :=
  if cfg.imgEn then { est with keyframeTime := imgCaptureTime } else est

/-- Case `LIVO`, flag `WAIT` or `VIO`: the LIO half of a pair. -/
def syncLivoLio (cfg : Config C) (s : LIVMapper C) : Option (Bool × LIVMapper C) := do
  let imgTime ← s.buf.imgTimeBuffer.head?
  let imgCaptureTime := imgTime + cfg.exposureTimeInit
  let meas ← initLastLio s.buf s.meas
  let lidNewest ← lidNewestTime s.buf
  let imuNewest ← s.buf.imuBuffer.getLast?
  let s := { s with meas := meas, est := atImage cfg imgCaptureTime s.est }
  if imgCaptureTime < meas.lastLioUpdateTime + 1 / 100000 then do
    let buf ← s.buf.popImage
    some (false, { s with buf := buf })
  else if lidNewest < imgCaptureTime ∨ imuNewest.sec < imgCaptureTime then some (false, s)
  else sliceLivo cfg imgCaptureTime s

/-- Case `LIVO`, flag `LIO`: the VIO half of a pair. -/
def syncLivoVio (cfg : Config C) (s : LIVMapper C) : Option (Bool × LIVMapper C) := do
  let imgTime ← s.buf.imgTimeBuffer.head?
  let img ← s.buf.imgBuffer.head?
  let _ ← s.buf.imuBuffer.head?
  let buf ← s.buf.popImage
  some (true,
    { s with
      buf := { buf with lidarPushed := false }
      meas := { s.meas with
        lioVioFlg := .vio
        measures := [{
          vioTime := imgTime + cfg.exposureTimeInit
          lioTime := s.meas.lastLioUpdateTime
          img := img }] } })

/-- ONLY_LO, `if (!lidar_pushed)`. -/
def frontScan (s : LIVMapper C) : Option (LidarMeasureGroup C) :=
  if s.buf.lidarPushed then some s.meas
  else do
    let lidar ← s.buf.lidRawDataBuffer.head?
    let begTime ← s.buf.lidHeaderTimeBuffer.head?
    let back ← lidar.points.getLast?
    some { s.meas with
      lidar := lidar, lidarFrameBegTime := begTime
      lidarFrameEndTime := begTime + back.curvature / 1000 }

/-- Case `ONLY_LO`. -/
def syncOnlyLo (s : LIVMapper C) : Option (Bool × LIVMapper C) :=
  if !s.buf.lidarPushed && s.buf.lidRawDataBuffer.isEmpty then some (false, s)
  else do
    let meas ← frontScan s
    let buf ← s.buf.popLidar
    some (true,
      { s with
        buf := { buf with lidarPushed := false }
        meas := { meas with
          lioVioFlg := .lo, measures := meas.measures ++ [{ lioTime := meas.lidarFrameEndTime }] } })

/-- `sync_packages`. -/
def syncPackages (cfg : Config C) (s : LIVMapper C) : Option (Bool × LIVMapper C) :=
  if s.buf.lidRawDataBuffer.isEmpty && cfg.lidarEn then some (false, s)
  else if s.buf.imgBuffer.isEmpty && cfg.imgEn then some (false, s)
  else if s.buf.imuBuffer.isEmpty && cfg.imuEn then some (false, s)
  else
    match cfg.slamMode with
    | .onlyLio => syncOnlyLio cfg s
    | .livo =>
      match s.meas.lioVioFlg with
      | .wait | .vio => syncLivoLio cfg s
      | .lio => syncLivoVio cfg s
      | .lo => some (false, s)
    | .onlyLo => syncOnlyLo s

/-! ## What a call does -/

theorem sliceFrame_eq (header lastLio lioTime : Double) (pts : List PointType)
    (cur next : List PointType) :
    sliceFrame header lastLio lioTime pts (cur, next) =
      (cur ++ (pts.filter fun p => decide (p.curvature < (lioTime - header) * 1000)).map
          (PointType.rebase header lastLio),
        next ++ (pts.filter fun p => !decide (p.curvature < (lioTime - header) * 1000)).map
          (PointType.rebase header lioTime)) := by
  induction pts generalizing cur next with
  | nil => simp [sliceFrame]
  | cons p pts ih =>
    by_cases hp : p.curvature < (lioTime - header) * 1000
    · simp [sliceFrame, hp, ih]
    · simp [sliceFrame, hp, ih]

/-- Points of one popped frame that go to `pcl_proc_cur`. -/
def frameCur (lastLio lioTime : Double) (f : Scan × Double) : List PointType :=
  (f.1.points.filter fun p => decide (p.curvature < (lioTime - f.2) * 1000)).map
    (PointType.rebase f.2 lastLio)

/-- Points of one popped frame that go to `pcl_proc_next`. -/
def frameNext (lioTime : Double) (f : Scan × Double) : List PointType :=
  (f.1.points.filter fun p => !decide (p.curvature < (lioTime - f.2) * 1000)).map
    (PointType.rebase f.2 lioTime)

/-- The slicing loop pops frames with their headers from the fronts of the two
buffers and appends what they contribute. -/
theorem sliceLidar_cases {lastLio lioTime : Double} {raw raw' : List Scan}
    {headers headers' : List Double} {acc : List PointType × List PointType}
    {cur next : List PointType}
    (h : sliceLidar lastLio lioTime raw headers acc = some (raw', headers', cur, next)) :
    ∃ popped : List (Scan × Double),
      raw = popped.map (·.1) ++ raw' ∧ headers = popped.map (·.2) ++ headers' ∧
      cur = acc.1 ++ popped.flatMap (frameCur lastLio lioTime) ∧
      next = acc.2 ++ popped.flatMap (frameNext lioTime) := by
  induction raw generalizing headers acc with
  | nil =>
    obtain ⟨c, n⟩ := acc
    simp only [sliceLidar, Option.some.injEq, Prod.mk.injEq] at h
    obtain ⟨rfl, rfl, rfl, rfl⟩ := h
    exact ⟨[], by simp⟩
  | cons scan raw ih =>
    obtain ⟨c, n⟩ := acc
    cases headers with
    | nil => simp [sliceLidar] at h
    | cons header headers =>
      rw [sliceLidar] at h
      split at h
      · simp only [Option.some.injEq, Prod.mk.injEq] at h
        obtain ⟨rfl, rfl, rfl, rfl⟩ := h
        exact ⟨[], by simp⟩
      · obtain ⟨popped, hr, hh, hc, hn⟩ := ih h
        rw [sliceFrame_eq] at hc hn
        refine ⟨(scan, header) :: popped, by simp [hr], by simp [hh], ?_, ?_⟩
        · rw [hc, List.flatMap_cons, ← List.append_assoc]; rfl
        · rw [hn, List.flatMap_cons, ← List.append_assoc]; rfl

/-- `last_lio_update_time` once the guard at the head of a call has run. -/
def LastLio (s : LIVMapper C) (lastLio : Double) : Prop :=
  (s.meas.lastLioUpdateTime < 0 ∧ s.buf.lidHeaderTimeBuffer.head? = some lastLio) ∨
    (0 ≤ s.meas.lastLioUpdateTime ∧ lastLio = s.meas.lastLioUpdateTime)

theorem initLastLio_cases {s : LIVMapper C} {meas : LidarMeasureGroup C}
    (h : initLastLio s.buf s.meas = some meas) :
    ∃ lastLio, LastLio s lastLio ∧ meas = { s.meas with lastLioUpdateTime := lastLio } := by
  unfold initLastLio at h
  split at h
  · rename_i hneg
    obtain ⟨lastLio, hfront, rfl⟩ := Option.map_eq_some_iff.mp h
    exact ⟨lastLio, .inl ⟨hneg, hfront⟩, rfl⟩
  · rename_i hpos
    cases h
    exact ⟨_, .inr ⟨not_lt.mp hpos, rfl⟩, rfl⟩

theorem popImage_eq {b b' : SensorBuffers C} (h : b.popImage = some b') :
    ∃ img imgs time times, b.imgBuffer = img :: imgs ∧ b.imgTimeBuffer = time :: times ∧
      b' = { b with imgBuffer := imgs, imgTimeBuffer := times } := by
  unfold SensorBuffers.popImage at h
  split at h
  · rename_i img imgs time times himg htime
    cases h
    exact ⟨img, imgs, time, times, himg, htime, rfl⟩
  · cases h

theorem popLidar_eq {b b' : SensorBuffers C} (h : b.popLidar = some b') :
    ∃ scan raw header headers, b.lidRawDataBuffer = scan :: raw ∧
      b.lidHeaderTimeBuffer = header :: headers ∧
      b' = { b with lidRawDataBuffer := raw, lidHeaderTimeBuffer := headers } := by
  unfold SensorBuffers.popLidar at h
  split at h
  · rename_i scan raw header headers hraw hhdr
    cases h
    exact ⟨scan, raw, header, headers, hraw, hhdr, rfl⟩
  · cases h

/-- Outcomes of a call in LIVO mode. -/
inductive LivoSync (cfg : Config C) (s : LIVMapper C) : Bool → LIVMapper C → Prop
  /-- A buffer is empty, or the flag is none of the three. -/
  | idle : LivoSync cfg s false s
  /-- The newest point or sample is older than the front image. -/
  | hold {time lastLio : Double} (hflg : s.meas.lioVioFlg ≠ .lio) (hlast : LastLio s lastLio) :
      LivoSync cfg s false
        { s with
          meas := { s.meas with lastLioUpdateTime := lastLio }
          est := atImage cfg time s.est }
  | throwImage {img : Image C} {imgs : List (Image C)} {time lastLio : Double} {times : List Double}
      (hflg : s.meas.lioVioFlg ≠ .lio) (hlast : LastLio s lastLio)
      (hbuf : s.buf.imgBuffer = img :: imgs) (htime : s.buf.imgTimeBuffer = time :: times)
      (hold : time + cfg.exposureTimeInit < lastLio + 1 / 100000) :
      LivoSync cfg s false
        { s with
          meas := { s.meas with lastLioUpdateTime := lastLio }
          est := atImage cfg (time + cfg.exposureTimeInit) s.est
          buf := { s.buf with imgBuffer := imgs, imgTimeBuffer := times } }
  | lio {time lastLio lioTime : Double} {times headers : List Double} {raw : List Scan}
      {cur next : List PointType}
      (hflg : s.meas.lioVioFlg ≠ .lio) (hlast : LastLio s lastLio)
      (htime : s.buf.imgTimeBuffer = time :: times)
      (himu : s.buf.imuBuffer ≠ []) (hlio : lioTime = time + cfg.exposureTimeInit)
      (hnew : lastLio + 1 / 100000 ≤ lioTime)
      (hcut : sliceLidar lastLio lioTime s.buf.lidRawDataBuffer s.buf.lidHeaderTimeBuffer
        (s.meas.pclProcNext, []) = some (raw, headers, cur, next)) :
      LivoSync cfg s true
        { s with
          est := atImage cfg lioTime s.est
          buf := { s.buf with
            imuBuffer := (sliceImu lastLio lioTime s.buf.imuBuffer).2
            lidRawDataBuffer := raw, lidHeaderTimeBuffer := headers }
          rtk := (sliceLivoRtk cfg lastLio lioTime s.rtk).2
          meas := { s.meas with
            lastLioUpdateTime := lastLio
            pclProcCur := cur, pclProcNext := next, lioVioFlg := .lio
            measures := s.meas.measures ++ [{
              rtk := (sliceLivoRtk cfg lastLio lioTime s.rtk).1, lioTime := lioTime
              imu := (sliceImu lastLio lioTime s.buf.imuBuffer).1 }] } }
  | vio {img : Image C} {imgs : List (Image C)} {time : Double} {times : List Double}
      (hflg : s.meas.lioVioFlg = .lio) (himu : s.buf.imuBuffer ≠ [])
      (hbuf : s.buf.imgBuffer = img :: imgs) (htime : s.buf.imgTimeBuffer = time :: times) :
      LivoSync cfg s true
        { s with
          buf := { s.buf with
            imgBuffer := imgs, imgTimeBuffer := times, lidarPushed := false }
          meas := { s.meas with
            lioVioFlg := .vio
            measures := [{
              vioTime := time + cfg.exposureTimeInit, lioTime := s.meas.lastLioUpdateTime
              img := img }] } }

theorem syncLivoLio_cases {cfg : Config C} {s t : LIVMapper C} {b : Bool}
    (hflg : s.meas.lioVioFlg ≠ .lio) (h : syncLivoLio cfg s = some (b, t)) :
    LivoSync cfg s b t := by
  unfold syncLivoLio at h
  simp only [Option.bind_eq_bind, Option.bind_eq_some_iff] at h
  obtain ⟨time, hfront, meas, hmeas, lidNewest, -, imuNewest, hback, h⟩ := h
  obtain ⟨lastLio, hlast, rfl⟩ := initLastLio_cases hmeas
  obtain ⟨times, htime⟩ := List.head?_eq_some_iff.mp hfront
  split at h
  · rename_i hold
    obtain ⟨buf, hbuf, h⟩ := Option.bind_eq_some_iff.mp h
    obtain ⟨img, imgs, time', times', himg, htime', rfl⟩ := popImage_eq hbuf
    obtain ⟨rfl, rfl⟩ := List.cons.inj (htime'.symm.trans htime)
    cases h
    exact .throwImage hflg hlast himg htime hold
  · rename_i hnew
    split at h
    · cases h
      exact .hold hflg hlast
    · unfold sliceLivo at h
      obtain ⟨⟨raw, headers, cur, next⟩, hcut, h⟩ := Option.bind_eq_some_iff.mp h
      cases h
      exact .lio hflg hlast htime (List.ne_nil_of_mem (List.mem_of_getLast? hback)) rfl
        (not_lt.mp hnew) hcut

theorem syncLivoVio_cases {cfg : Config C} {s t : LIVMapper C} {b : Bool}
    (hflg : s.meas.lioVioFlg = .lio) (h : syncLivoVio cfg s = some (b, t)) :
    LivoSync cfg s b t := by
  unfold syncLivoVio at h
  simp only [Option.bind_eq_bind, Option.bind_eq_some_iff] at h
  obtain ⟨time, htime, img, himg, m, himu, buf, hbuf, h⟩ := h
  obtain ⟨img', imgs, time', times, himg', htime', rfl⟩ := popImage_eq hbuf
  rw [htime', List.head?_cons, Option.some.injEq] at htime
  rw [himg', List.head?_cons, Option.some.injEq] at himg
  subst htime himg
  cases h
  exact .vio hflg (List.ne_nil_of_mem (List.mem_of_head? himu)) himg' htime'

/-- Everything a call can do in LIVO mode. -/
theorem syncPackages_livo {cfg : Config C} {s t : LIVMapper C} {b : Bool}
    (hm : cfg.slamMode = .livo) (h : syncPackages cfg s = some (b, t)) : LivoSync cfg s b t := by
  unfold syncPackages at h
  split at h
  · cases h; exact .idle
  split at h
  · cases h; exact .idle
  split at h
  · cases h; exact .idle
  simp only [hm] at h
  cases hflg : s.meas.lioVioFlg with
  | wait => rw [hflg] at h; exact syncLivoLio_cases (by simp [hflg]) h
  | vio => rw [hflg] at h; exact syncLivoLio_cases (by simp [hflg]) h
  | lio => rw [hflg] at h; exact syncLivoVio_cases hflg h
  | lo => rw [hflg] at h; cases h; exact .idle

/-- The state once ONLY_LIO has a scan pushed. -/
inductive ScanPushed (s : LIVMapper C) : LIVMapper C → Prop
  | before {lastLio : Double} (hpushed : s.buf.lidarPushed = true) (hlast : LastLio s lastLio) :
      ScanPushed s { s with meas := { s.meas with lastLioUpdateTime := lastLio } }
  | now {lastLio begTime : Double} {scan : Scan} {raw : List Scan} {headers : List Double}
      {back : PointType}
      (hpushed : s.buf.lidarPushed = false) (hlast : LastLio s lastLio)
      (hraw : s.buf.lidRawDataBuffer = scan :: raw) (hhdr : s.buf.lidHeaderTimeBuffer = begTime :: headers)
      (hmany : 1 < scan.points.length) (hback : scan.points.getLast? = some back) :
      ScanPushed s
        { s with
          meas := { s.meas with
            lastLioUpdateTime := lastLio, lidar := scan, lidarFrameBegTime := begTime
            lidarFrameEndTime := begTime + back.curvature / 1000, pclProcCur := scan.points }
          buf := { s.buf with lidarPushed := true } }

/-- Outcomes of a call in ONLY_LIO mode. -/
inductive OnlyLioSync (cfg : Config C) (s : LIVMapper C) : Bool → LIVMapper C → Prop
  | idle : OnlyLioSync cfg s false s
  /-- The front scan has at most one point. -/
  | refuse {lastLio : Double} {scan : Scan} {raw : List Scan}
      (hpushed : s.buf.lidarPushed = false) (hlast : LastLio s lastLio)
      (hraw : s.buf.lidRawDataBuffer = scan :: raw) (hfew : scan.points.length ≤ 1) :
      OnlyLioSync cfg s false
        { s with meas := { s.meas with lastLioUpdateTime := lastLio, lidar := scan } }
  | wait {m : LIVMapper C} (hscan : ScanPushed s m)
      (himu : m.buf.lastTimestampImu < m.meas.lidarFrameEndTime) : OnlyLioSync cfg s false m
  | deliver {m : LIVMapper C} {scan : Scan} {raw : List Scan} {header : Double}
      {headers : List Double} (hscan : ScanPushed s m)
      (himu : cfg.imuEn = true → m.meas.lidarFrameEndTime ≤ m.buf.lastTimestampImu)
      (hraw : s.buf.lidRawDataBuffer = scan :: raw)
      (hhdr : s.buf.lidHeaderTimeBuffer = header :: headers) :
      OnlyLioSync cfg s true
        { m with
          buf := { m.buf with
            imuBuffer := (takeImu m.meas.lidarFrameEndTime m.buf.imuBuffer).2
            lidRawDataBuffer := raw, lidHeaderTimeBuffer := headers, lidarPushed := false }
          meas := { m.meas with
            lioVioFlg := .lio
            measures := m.meas.measures ++ [{
              lioTime := m.meas.lidarFrameEndTime
              imu := (takeImu m.meas.lidarFrameEndTime m.buf.imuBuffer).1 }] }
          est := if cfg.imgEn then m.est else
            { m.est with keyframeTime := m.meas.lidarFrameEndTime } }

theorem ScanPushed.buffers {s m : LIVMapper C} (h : ScanPushed s m) :
    m.buf = { s.buf with lidarPushed := true } := by
  cases h with
  | before hpushed =>
    obtain ⟨buf, meas, imu, est, prop, rtk⟩ := s
    obtain ⟨⟩ := buf
    cases hpushed
    rfl
  | now => rfl

theorem ScanPushed.imu {s m : LIVMapper C} (h : ScanPushed s m) : m.imu = s.imu := by
  cases h <;> rfl

theorem completeLio_cases {cfg : Config C} {s m t : LIVMapper C} {b : Bool}
    (hscan : ScanPushed s m) (h : completeLio cfg m = some (b, t)) : OnlyLioSync cfg s b t := by
  unfold completeLio at h
  simp only at h
  split at h
  · rename_i hc
    cases h
    exact .wait hscan (of_decide_eq_true ((Bool.and_eq_true _ _).mp hc).2)
  · rename_i hc
    obtain ⟨buf, hbuf, h⟩ := Option.bind_eq_some_iff.mp h
    obtain ⟨scan, raw, header, headers, hraw, hhdr, rfl⟩ := popLidar_eq hbuf
    rw [hscan.buffers] at hraw hhdr
    cases h
    refine .deliver hscan (fun hen => ?_) hraw hhdr
    by_contra hlt
    exact hc (by simp [hen, not_le.mp hlt])

theorem syncOnlyLio_cases {cfg : Config C} {s t : LIVMapper C} {b : Bool}
    (h : syncOnlyLio cfg s = some (b, t)) : OnlyLioSync cfg s b t := by
  unfold syncOnlyLio at h
  obtain ⟨meas, hmeas, h⟩ := Option.bind_eq_some_iff.mp h
  obtain ⟨lastLio, hlast, rfl⟩ := initLastLio_cases hmeas
  simp only at h
  cases hpushed : s.buf.lidarPushed with
  | true =>
    rw [hpushed, if_pos rfl] at h
    exact completeLio_cases (.before hpushed hlast) h
  | false =>
    rw [hpushed, if_neg Bool.false_ne_true] at h
    obtain ⟨⟨pushed, m⟩, hpush, h⟩ := Option.bind_eq_some_iff.mp h
    unfold pushLidar at hpush
    obtain ⟨scan, hfront, hpush⟩ := Option.bind_eq_some_iff.mp hpush
    obtain ⟨raw, hraw⟩ := List.head?_eq_some_iff.mp hfront
    split at hpush
    · rename_i hfew
      cases hpush
      cases h
      exact .refuse hpushed hlast hraw hfew
    · rename_i hmany
      obtain ⟨begTime, hbeg, hpush⟩ := Option.bind_eq_some_iff.mp hpush
      obtain ⟨back, hback, hpush⟩ := Option.bind_eq_some_iff.mp hpush
      obtain ⟨headers, hhdr⟩ := List.head?_eq_some_iff.mp hbeg
      cases hpush
      exact completeLio_cases (.now hpushed hlast hraw hhdr (not_le.mp hmany) hback) h

/-- Everything a call can do in ONLY_LIO mode. -/
theorem syncPackages_onlyLio {cfg : Config C} {s t : LIVMapper C} {b : Bool}
    (hm : cfg.slamMode = .onlyLio) (h : syncPackages cfg s = some (b, t)) :
    OnlyLioSync cfg s b t := by
  unfold syncPackages at h
  split at h
  · cases h; exact .idle
  split at h
  · cases h; exact .idle
  split at h
  · cases h; exact .idle
  simp only [hm] at h
  exact syncOnlyLio_cases h

/-- Outcomes of a call in ONLY_LO mode. -/
inductive OnlyLoSync (s : LIVMapper C) : Bool → LIVMapper C → Prop
  | idle : OnlyLoSync s false s
  | deliver {meas : LidarMeasureGroup C} {scan : Scan} {raw : List Scan} {header : Double}
      {headers : List Double} (hmeas : frontScan s = some meas)
      (hraw : s.buf.lidRawDataBuffer = scan :: raw)
      (hhdr : s.buf.lidHeaderTimeBuffer = header :: headers) :
      OnlyLoSync s true
        { s with
          buf := { s.buf with
            lidRawDataBuffer := raw, lidHeaderTimeBuffer := headers, lidarPushed := false }
          meas := { meas with
            lioVioFlg := .lo
            measures := meas.measures ++ [{ lioTime := meas.lidarFrameEndTime }] } }

theorem syncOnlyLo_cases {s t : LIVMapper C} {b : Bool} (h : syncOnlyLo s = some (b, t)) :
    OnlyLoSync s b t := by
  unfold syncOnlyLo at h
  split at h
  · cases h
    exact .idle
  · simp only [Option.bind_eq_bind, Option.bind_eq_some_iff] at h
    obtain ⟨meas, hmeas, buf, hbuf, h⟩ := h
    obtain ⟨scan, raw, header, headers, hraw, hhdr, rfl⟩ := popLidar_eq hbuf
    cases h
    exact .deliver hmeas hraw hhdr

/-- Everything a call can do in ONLY_LO mode. -/
theorem syncPackages_onlyLo {cfg : Config C} {s t : LIVMapper C} {b : Bool}
    (hm : cfg.slamMode = .onlyLo) (h : syncPackages cfg s = some (b, t)) : OnlyLoSync s b t := by
  unfold syncPackages at h
  split at h
  · cases h; exact .idle
  split at h
  · cases h; exact .idle
  split at h
  · cases h; exact .idle
  simp only [hm] at h
  exact syncOnlyLo_cases h

/-- With no scan pushed, ONLY_LO reads the front of the two buffers. -/
theorem frontScan_eq {s : LIVMapper C} {meas : LidarMeasureGroup C} {scan : Scan}
    {raw : List Scan} {header : Double} {headers : List Double}
    (hpushed : s.buf.lidarPushed = false) (hraw : s.buf.lidRawDataBuffer = scan :: raw)
    (hhdr : s.buf.lidHeaderTimeBuffer = header :: headers) (h : frontScan s = some meas) :
    ∃ back, scan.points.getLast? = some back ∧
      meas = { s.meas with
        lidar := scan, lidarFrameBegTime := header
        lidarFrameEndTime := header + back.curvature / 1000 } := by
  unfold frontScan at h
  simp only [hpushed, hraw, hhdr, List.head?_cons, Bool.false_eq_true, if_false,
    Option.bind_eq_bind, Option.bind_some, Option.bind_eq_some_iff] at h
  obtain ⟨back, hback, h⟩ := h
  exact ⟨back, hback, (Option.some.inj h).symm⟩

/-- In every mode a call pops as many headers as clouds, from the fronts. -/
theorem syncPackages_pop {cfg : Config C} {s t : LIVMapper C} {b : Bool}
    (h : syncPackages cfg s = some (b, t)) :
    ∃ popped : List (Scan × Double),
      s.buf.lidRawDataBuffer = popped.map (·.1) ++ t.buf.lidRawDataBuffer ∧
      s.buf.lidHeaderTimeBuffer = popped.map (·.2) ++ t.buf.lidHeaderTimeBuffer := by
  cases hm : cfg.slamMode with
  | livo =>
    cases syncPackages_livo hm h with
    | idle => exact ⟨[], by simp⟩
    | hold => exact ⟨[], by simp⟩
    | throwImage => exact ⟨[], by simp⟩
    | lio _ _ _ _ _ _ hcut =>
      obtain ⟨popped, hraw, hhdr, -, -⟩ := sliceLidar_cases hcut
      exact ⟨popped, hraw, hhdr⟩
    | vio => exact ⟨[], by simp⟩
  | onlyLio =>
    cases syncPackages_onlyLio hm h with
    | idle => exact ⟨[], by simp⟩
    | refuse => exact ⟨[], by simp⟩
    | wait hscan => exact ⟨[], by simp [hscan.buffers]⟩
    | @deliver m scan raw header headers hscan _ hraw hhdr =>
      exact ⟨[(scan, header)], by simp [hraw], by simp [hhdr]⟩
  | onlyLo =>
    cases syncPackages_onlyLo hm h with
    | idle => exact ⟨[], by simp⟩
    | @deliver _ scan _ header _ _ hraw hhdr =>
      exact ⟨[(scan, header)], by simp [hraw], by simp [hhdr]⟩

end FastLivo
