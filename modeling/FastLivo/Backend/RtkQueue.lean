import FastLivo.Esikf.Run

/-!
# RTK observations of the global backend

`gpsHandler` and `navSatFixHandler` check an observation and queue it by time;
`findNearestRtk` takes the one closest to a keyframe. A field of a message is `none` when
it is not finite. The geodesy of GeographicLib is a parameter.
-/

namespace FastLivo.Backend

open Lib Esikf

noncomputable section

/-- `GeographicLib::LocalCartesian`. -/
structure Geodesy where
  LocalCartesian : Type
  reset : Double → Double → Double → LocalCartesian
  forward : LocalCartesian → Double → Double → Double → Vec3

/-- Parameters of `optimization` for the RTK observations. -/
structure RtkConfig where
  gpsTimeOffset : Double := 0
  rtkSyncTolerance : Double := 1 / 10
  rtkMaxHorizontalStd : Double := 1 / 2
  rtkMaxVerticalStd : Double := 1

/-- `gnss_comm::msg::GnssPVTSolnMsg`. -/
structure GnssPVTSolnMsg where
  validFix : Bool
  diffSoln : Bool
  carrSoln : Nat
  week : Nat
  tow : Option Double
  latitude : Option Double
  longitude : Option Double
  altitude : Option Double
  hAcc : Option Double
  vAcc : Option Double
  velN : Option Double
  velE : Option Double
  velD : Option Double
  velAcc : Option Double
  headingValid : Bool
  heading : Option Double
  headingAcc : Option Double

/-- `sensor_msgs::msg::NavSatFix`, with the diagonal of its covariance. -/
structure NavSatFix where
  stamp : Stamp
  status : Int
  latitude : Option Double
  longitude : Option Double
  altitude : Option Double
  covEast : Option Double
  covNorth : Option Double
  covUp : Option Double

/-- Members of `optimization` that the handlers and `findNearestRtk` use. -/
structure RtkBuffer (G : Geodesy) where
  rtkQueue : List GlobalRtkObservation := []
  localCartesian : G.LocalCartesian
  /-- `enu_origin_lla_`, once `enu_origin_initialized_`. -/
  enuOriginLla : Option (Double × Double × Double) := none
  /-- `rtk_path_`. -/
  rtkPath : List (Double × Vec3) := []
  realtimeGlobalEsikf : RealtimeGlobalEsikf := .configured
  /-- Ghost: number of observations queued so far. -/
  rtkSeq : ℕ := 0

variable {G : Geodesy}

/-- The position of a fix in the frame of the first one, which sets the origin. -/
def RtkBuffer.enuForward (b : RtkBuffer G) (latitude longitude altitude : Double) :
    RtkBuffer G × Vec3 :=
  let b := if b.enuOriginLla.isSome then b else
    { b with
      localCartesian := G.reset latitude longitude altitude
      enuOriginLla := some (latitude, longitude, altitude) }
  (b, G.forward b.localCartesian latitude longitude altitude)

/-- `publishRtkPath`, `pushRtk` and the insertion that both handlers end with. -/
def RtkBuffer.insert (b : RtkBuffer G) (measurement : GlobalRtkObservation) : RtkBuffer G :=
  let queue := insertSorted GlobalRtkObservation.stamp { measurement with seq := b.rtkSeq }
    b.rtkQueue
  { b with
    rtkPath := b.rtkPath ++ [(measurement.stamp, measurement.position)]
    realtimeGlobalEsikf := b.realtimeGlobalEsikf.pushRtk (some measurement.stamp) measurement
    rtkQueue := queue.drop (queue.length - 10000)
    rtkSeq := b.rtkSeq + 1 }

/-- Whether latitude and longitude are those of a place. -/
def onEarth (latitude longitude : Double) : Bool :=
  decide (|latitude| ≤ 90) && decide (|longitude| ≤ 180)

/-- The fields of a PVT message that pass the checks of `gpsHandler`. -/
structure PvtFix where
  tow : Double
  latitude : Double
  longitude : Double
  altitude : Double
  hAcc : Double
  vAcc : Double

/-- Checks of `gpsHandler`. -/
def GnssPVTSolnMsg.fix (cfg : RtkConfig) (msg : GnssPVTSolnMsg) : Option PvtFix := do
  guard (msg.validFix && msg.diffSoln && msg.carrSoln == 2 && msg.week != 0)
  let tow ← msg.tow
  guard (decide (0 ≤ tow) && decide (tow < 604800))
  let latitude ← msg.latitude
  let longitude ← msg.longitude
  let altitude ← msg.altitude
  guard (onEarth latitude longitude)
  let hAcc ← msg.hAcc
  let vAcc ← msg.vAcc
  guard (decide (0 < hAcc) && decide (0 < vAcc))
  guard (decide (hAcc ≤ cfg.rtkMaxHorizontalStd) && decide (vAcc ≤ cfg.rtkMaxVerticalStd))
  return ⟨tow, latitude, longitude, altitude, hAcc, vAcc⟩

/-- The observation of a PVT message. A velocity or heading that is not finite is not
valid, and reads as zero. -/
def GnssPVTSolnMsg.measurement (cfg : RtkConfig) (msg : GnssPVTSolnMsg) (fix : PvtFix)
    (position : Vec3) : GlobalRtkObservation :=
  let horizontal : ℝ := max 1e-4 (fix.hAcc * fix.hAcc : Double)
  let velocityStd : ℝ := max 0.02 (msg.velAcc.getD 0 : Double)
  let headingAcc : ℝ := (msg.headingAcc.getD 0 : Double)
  { stamp := 315964800 + msg.week * 604800 + fix.tow - 18 - cfg.gpsTimeOffset
    position := position
    positionVariance := ![horizontal, horizontal, max 2.5e-3 (fix.vAcc * fix.vAcc : Double)]
    velocity := ![(msg.velE.getD 0 : Double), (msg.velN.getD 0 : Double),
      -(msg.velD.getD 0 : Double)]
    velocityVariance := fun _ => velocityStd * velocityStd
    heading := (msg.heading.getD 0 : Double)
    headingVariance := max 1e-6 (headingAcc * headingAcc)
    velocityValid := msg.velE.isSome && msg.velN.isSome && msg.velD.isSome &&
      msg.velAcc.any fun acc => decide (0 < acc)
    headingValid := msg.headingValid && msg.heading.isSome &&
      msg.headingAcc.any fun acc => decide (0 < acc) }

/-- `gpsHandler`. -/
def gpsHandler (cfg : RtkConfig) (msg : GnssPVTSolnMsg) (b : RtkBuffer G) : RtkBuffer G :=
  match msg.fix cfg with
  | none => b
  | some fix =>
    let (b, position) := b.enuForward fix.latitude fix.longitude fix.altitude
    b.insert (msg.measurement cfg fix position)

/-- The fields of a `NavSatFix` that pass the checks of `navSatFixHandler`. -/
structure NavFix where
  latitude : Double
  longitude : Double
  altitude : Double
  covEast : Double
  covNorth : Double
  covUp : Double

/-- Checks of `navSatFixHandler`. -/
def NavSatFix.fix (cfg : RtkConfig) (msg : NavSatFix) : Option NavFix := do
  guard (decide (0 ≤ msg.status))
  let latitude ← msg.latitude
  let longitude ← msg.longitude
  let altitude ← msg.altitude
  guard (onEarth latitude longitude)
  let covEast ← msg.covEast
  let covNorth ← msg.covNorth
  let covUp ← msg.covUp
  guard (decide (0 ≤ covEast) && decide (0 ≤ covNorth) && decide (0 ≤ covUp))
  let horizontalStd := Real.sqrt (max 0 (max covEast covNorth : Double))
  let verticalStd := Real.sqrt (max 0 (covUp : Double))
  guard (decide (horizontalStd ≤ cfg.rtkMaxHorizontalStd) &&
    decide (verticalStd ≤ cfg.rtkMaxVerticalStd))
  return ⟨latitude, longitude, altitude, covEast, covNorth, covUp⟩

/-- The observation of a `NavSatFix`: a position alone. -/
def NavSatFix.measurement (cfg : RtkConfig) (msg : NavSatFix) (fix : NavFix) (position : Vec3) :
    GlobalRtkObservation :=
  { stamp := msg.stamp.toSec - cfg.gpsTimeOffset
    position := position
    positionVariance := ![max 1e-4 (fix.covEast : ℝ), max 1e-4 (fix.covNorth : ℝ),
      max 2.5e-3 (fix.covUp : ℝ)] }

/-- `navSatFixHandler`. -/
def navSatFixHandler (cfg : RtkConfig) (msg : NavSatFix) (b : RtkBuffer G) : RtkBuffer G :=
  match msg.fix cfg with
  | none => b
  | some fix =>
    let (b, position) := b.enuForward fix.latitude fix.longitude fix.altitude
    b.insert (msg.measurement cfg fix position)

/-- `findNearestRtk`. -/
def findNearestRtk (cfg : RtkConfig) (stamp : Double) (b : RtkBuffer G) :
    Option GlobalRtkObservation × RtkBuffer G :=
  let (measurement, queue) := takeClosest GlobalRtkObservation.stamp stamp 5 cfg.rtkSyncTolerance
    b.rtkQueue
  (measurement, { b with rtkQueue := queue })

/-! ## Runs -/

/-- A call that touches the queue; each holds `rtk_mutex_` while it does. -/
inductive RtkCall
  | gps (msg : GnssPVTSolnMsg)
  | navSatFix (msg : NavSatFix)
  | findNearest (stamp : Double)

def RtkCall.apply (cfg : RtkConfig) (b : RtkBuffer G) : RtkCall → RtkBuffer G
  | .gps msg => gpsHandler cfg msg b
  | .navSatFix msg => navSatFixHandler cfg msg b
  | .findNearest stamp => (findNearestRtk cfg stamp b).2

/-- Every call returns. -/
def rtkStep (cfg : RtkConfig) (b : RtkBuffer G) (c : RtkCall) : Option (RtkBuffer G) :=
  some (c.apply cfg b)

/-- Ghost: numbers of the observations that `findNearestRtk` returned. -/
def associate (cfg : RtkConfig) (b : RtkBuffer G) (c : RtkCall) (_ : RtkBuffer G)
    (associated : List ℕ) : List ℕ :=
  match c with
  | .findNearest stamp =>
    associated ++ ((findNearestRtk cfg stamp b).1.map GlobalRtkObservation.seq).toList
  | _ => associated

/-- Runs from an empty queue. -/
def RtkRun (cfg : RtkConfig) (localCartesian : G.LocalCartesian) :
    RtkBuffer G × List ℕ → Prop :=
  Reach (withGhost (rtkStep cfg) (associate cfg)) (fun _ _ => True)
    ({ localCartesian := localCartesian }, [])

/-- The queue is sorted and bounded, and nothing in it was associated. -/
abbrev RtkBuffer.Kept (b : RtkBuffer G) (associated : List ℕ) : Prop :=
  Ledger GlobalRtkObservation.stamp GlobalRtkObservation.seq 10000 b.rtkSeq b.rtkQueue associated

variable {cfg : RtkConfig} {b : RtkBuffer G} {associated : List ℕ}

theorem enuForward_kept (h : b.Kept associated) (latitude longitude altitude : Double) :
    (b.enuForward latitude longitude altitude).1.Kept associated := by
  unfold RtkBuffer.enuForward
  dsimp only
  split
  · exact h
  · exact h

theorem RtkBuffer.Kept.insert (h : b.Kept associated) (measurement : GlobalRtkObservation) :
    (b.insert measurement).Kept associated := by
  simp only [RtkBuffer.Kept, RtkBuffer.insert]
  exact Ledger.insert h (x := { measurement with seq := b.rtkSeq }) rfl

/-- Both handlers queue what passes their checks. -/
theorem gpsHandler_kept (h : b.Kept associated) (msg : GnssPVTSolnMsg) :
    (gpsHandler cfg msg b).Kept associated := by
  unfold gpsHandler
  split
  · exact h
  · exact (enuForward_kept h _ _ _).insert _

theorem navSatFixHandler_kept (h : b.Kept associated) (msg : NavSatFix) :
    (navSatFixHandler cfg msg b).Kept associated := by
  unfold navSatFixHandler
  split
  · exact h
  · exact (enuForward_kept h _ _ _).insert _

/-- What `findNearestRtk` owes a keyframe. -/
theorem findNearestRtk_closest (htol : cfg.rtkSyncTolerance ≤ 5) (h : b.Kept associated)
    (stamp : Double) :
    Closest GlobalRtkObservation.stamp stamp 5 cfg.rtkSyncTolerance b.rtkQueue
      (findNearestRtk cfg stamp b).1 (findNearestRtk cfg stamp b).2.rtkQueue :=
  takeClosest_spec h.sorted htol

theorem findNearestRtk_kept (htol : cfg.rtkSyncTolerance ≤ 5) (h : b.Kept associated)
    (stamp : Double) :
    (findNearestRtk cfg stamp b).2.Kept
      (associated ++ ((findNearestRtk cfg stamp b).1.map GlobalRtkObservation.seq).toList) := by
  obtain ⟨pre, hsplit⟩ := (findNearestRtk_closest htol h stamp).split
  exact Ledger.take h hsplit

theorem RtkRun.kept (htol : cfg.rtkSyncTolerance ≤ 5) {localCartesian : G.LocalCartesian}
    {p : RtkBuffer G × List ℕ} (h : RtkRun cfg localCartesian p) : p.1.Kept p.2 := by
  refine Reach.invariant (I := fun p => p.1.Kept p.2) ?_ ?_ h
  · exact .empty _ _ _ _
  · intro p q c _ hkept _ hst
    obtain ⟨hstep, hlog⟩ := withGhost_cases hst
    rw [← Option.some.inj hstep, hlog]
    cases c with
    | gps msg => exact gpsHandler_kept hkept msg
    | navSatFix msg => exact navSatFixHandler_kept hkept msg
    | findNearest stamp => exact findNearestRtk_kept htol hkept stamp

/-- What a search with the tolerance of `cfg` owes the keyframe at `stamp`. -/
structure RtkMatch (cfg : RtkConfig) (b : RtkBuffer G) (stamp : Double)
    (measurement : Option GlobalRtkObservation) (b' : RtkBuffer G) : Prop where
  found : measurement.isSome ↔ ∃ q ∈ b.rtkQueue, |q.stamp - stamp| ≤ cfg.rtkSyncTolerance
  queued : ∀ o, measurement = some o → o ∈ b.rtkQueue
  within : ∀ o, measurement = some o → |o.stamp - stamp| ≤ cfg.rtkSyncTolerance
  closest : ∀ o, measurement = some o → ∀ q ∈ b.rtkQueue, |o.stamp - stamp| ≤ |q.stamp - stamp|
  /-- A search in vain drops only what is older than the retention window. -/
  kept : measurement = none →
    ∃ old, b.rtkQueue = old ++ b'.rtkQueue ∧ ∀ q ∈ old, q.stamp < stamp - 5

/-- The queue stays sorted and bounded, no observation is associated twice, and every
search takes the closest observation within the tolerance if there is one. -/
theorem rtk_association (htol : cfg.rtkSyncTolerance ≤ 5) {localCartesian : G.LocalCartesian}
    (h : RtkRun cfg localCartesian (b, associated)) :
    Sorted GlobalRtkObservation.stamp b.rtkQueue ∧ b.rtkQueue.length ≤ 10000 ∧
      (∀ n, associated.count n ≤ 1) ∧
      ∀ stamp, RtkMatch cfg b stamp (findNearestRtk cfg stamp b).1
        (findNearestRtk cfg stamp b).2 := by
  have hkept := h.kept htol
  refine ⟨hkept.sorted, hkept.bounded, fun n => ?_, fun stamp => ?_⟩
  · exact List.nodup_iff_count_le_one.mp hkept.distinct.of_append_left n
  · have hclosest := findNearestRtk_closest htol hkept stamp
    exact ⟨hclosest.isSome_iff, fun o ho => hclosest.mem ho, hclosest.close, hclosest.closest,
      hclosest.kept⟩

/-- A flat earth. -/
def Geodesy.flat : Geodesy where
  LocalCartesian := Unit
  reset _ _ _ := ()
  forward _ latitude longitude altitude := ![(longitude : ℝ), (latitude : ℝ), (altitude : ℝ)]

/-- A fix at the origin. -/
def NavSatFix.origin (nanosec : ℕ) : NavSatFix where
  stamp := ⟨0, nanosec⟩
  status := 0
  latitude := some 0
  longitude := some 0
  altitude := some 0
  covEast := some 0
  covNorth := some 0
  covUp := some 0

theorem NavSatFix.fix_origin (nanosec : ℕ) :
    (NavSatFix.origin nanosec).fix {} = some ⟨0, 0, 0, 0, 0, 0⟩ := by
  simp [NavSatFix.fix, NavSatFix.origin, onEarth]

/-- What such a fix adds to the queue. -/
theorem navSatFixHandler_origin (nanosec : ℕ) (b : RtkBuffer .flat) : ∃ o : GlobalRtkObservation,
    o.stamp = (nanosec : Double) / 1000000000 ∧ o.seq = b.rtkSeq ∧
      (navSatFixHandler {} (.origin nanosec) b).rtkSeq = b.rtkSeq + 1 ∧
      (b.rtkQueue.length < 10000 → (navSatFixHandler {} (.origin nanosec) b).rtkQueue =
        insertSorted GlobalRtkObservation.stamp o b.rtkQueue) := by
  have hforward : (b.enuForward 0 0 0).1.rtkQueue = b.rtkQueue ∧
      (b.enuForward 0 0 0).1.rtkSeq = b.rtkSeq := by
    unfold RtkBuffer.enuForward
    split
    · exact ⟨rfl, rfl⟩
    · exact ⟨rfl, rfl⟩
  have hhandled : navSatFixHandler {} (.origin nanosec) b = (b.enuForward 0 0 0).1.insert
      ((NavSatFix.origin nanosec).measurement {} ⟨0, 0, 0, 0, 0, 0⟩ (b.enuForward 0 0 0).2) := by
    rw [navSatFixHandler, NavSatFix.fix_origin]
  rw [hhandled]
  refine ⟨{ (NavSatFix.origin nanosec).measurement {} ⟨0, 0, 0, 0, 0, 0⟩ (b.enuForward 0 0 0).2 with
    seq := b.rtkSeq }, ?_, rfl, congrArg (· + 1) hforward.2, fun hroom => ?_⟩
  · show ((0 : ℤ) : Double) + (nanosec : Double) / 1000000000 - 0 = _
    norm_num
  · rw [RtkBuffer.insert, hforward.1, hforward.2]
    dsimp only
    rw [(insertSorted_perm _ _ _).length_eq, List.length_cons, Nat.sub_eq_zero_of_le hroom,
      List.drop_zero]

/-- The queue with two fixes that came in the wrong order. -/
def RtkBuffer.twoFixes : RtkBuffer .flat :=
  navSatFixHandler {} (.origin 100000000)
    (navSatFixHandler {} (.origin 200000000) { localCartesian := () })

theorem RtkBuffer.twoFixes_queue : ∃ early late : GlobalRtkObservation,
    early.stamp = 0.1 ∧ early.seq = 1 ∧ late.stamp = 0.2 ∧
      RtkBuffer.twoFixes.rtkQueue = [early, late] := by
  obtain ⟨late, hlate, -, hseq, hfirst⟩ := navSatFixHandler_origin 200000000 { localCartesian := () }
  obtain ⟨early, hearly, hearlySeq, -, hsecond⟩ := navSatFixHandler_origin 100000000
    (navSatFixHandler {} (.origin 200000000) { localCartesian := () })
  rw [hseq] at hearlySeq
  rw [hfirst (by decide)] at hsecond
  have hbefore : early.stamp < late.stamp := by
    rw [hearly, hlate]
    norm_num
  refine ⟨early, late, hearly.trans (by norm_num), hearlySeq, hlate.trans (by norm_num), ?_⟩
  refine (hsecond (by simp [insertSorted])).trans ?_
  simp [insertSorted, hbefore]

/-- A keyframe between two fixes gets the closer one, which came last. -/
theorem rtk_association_twoFixes :
    Sorted GlobalRtkObservation.stamp RtkBuffer.twoFixes.rtkQueue ∧
      RtkMatch {} RtkBuffer.twoFixes 0.12 (findNearestRtk {} 0.12 RtkBuffer.twoFixes).1
        (findNearestRtk {} 0.12 RtkBuffer.twoFixes).2 ∧
      (findNearestRtk {} 0.12 RtkBuffer.twoFixes).1.map GlobalRtkObservation.seq = some 1 := by
  have hfirst : RtkRun {} () (navSatFixHandler {} (.origin 200000000)
      ({ localCartesian := () } : RtkBuffer .flat), []) :=
    .next (.navSatFix (.origin 200000000)) .start trivial rfl
  have hrun : RtkRun {} () (RtkBuffer.twoFixes, []) :=
    .next (.navSatFix (.origin 100000000)) hfirst trivial rfl
  obtain ⟨hsorted, -, -, hall⟩ :=
    rtk_association (show ({} : RtkConfig).rtkSyncTolerance ≤ 5 by norm_num) hrun
  have hmatch := hall 0.12
  obtain ⟨early, late, hearly, hseq, hlate, hqueue⟩ := RtkBuffer.twoFixes_queue
  refine ⟨hsorted, hmatch, ?_⟩
  have hmem : early ∈ RtkBuffer.twoFixes.rtkQueue := by
    rw [hqueue]
    exact List.mem_cons_self
  have hnear : |early.stamp - 0.12| ≤ ({} : RtkConfig).rtkSyncTolerance := by
    rw [hearly]
    norm_num [abs_le]
  obtain ⟨o, ho⟩ := Option.isSome_iff_exists.mp (hmatch.found.mpr ⟨early, hmem, hnear⟩)
  have hcloser := hmatch.closest o ho early hmem
  have hqueued := hmatch.queued o ho
  rw [hqueue, List.mem_pair] at hqueued
  rw [ho]
  rcases hqueued with rfl | rfl
  · exact congrArg some hseq
  · rw [hearly, hlate] at hcloser
    norm_num [abs_le] at hcloser

end

end FastLivo.Backend
