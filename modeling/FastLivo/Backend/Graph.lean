import FastLivo.Backend.Keyframe

/-!
# The factor graph of the global backend

`processKeyframe` and what it calls. The smoother of GTSAM is the list of the updates it
was given, and its estimate a function of them. An access outside a container is `none`.
-/

namespace FastLivo.Backend

open Lib Esikf Matrix

noncomputable section

/-! ## GTSAM and PCL -/

/-- `gtsam::noiseModel::mEstimator`. -/
inductive MEstimator
  | huber (k : ℝ)
  | cauchy (k : ℝ)

/-- `gtsam::noiseModel::Diagonal::Variances`, robust when there is an estimator. -/
structure NoiseModel where
  variances : List ℝ
  robust : Option MEstimator := none

/-- A factor of the graph. -/
inductive Factor
  | prior (key : Nat) (pose : Pose3) (noise : NoiseModel)
  | between (key₁ key₂ : Nat) (measured : Pose3) (noise : NoiseModel)
  | antennaPosition (key : Nat) (measurement leverArm : Vec3) (noise : NoiseModel)
  | antennaVelocity (previousKey currentKey : Nat) (velocity leverArm : Vec3) (dt : Double)
      (noise : NoiseModel)
  | heading (key : Nat) (heading : ℝ) (noise : NoiseModel)

/-- `gtsam::Values`. -/
abbrev Values := List (Nat × Pose3)

/-- Arguments of `isam_->update`. -/
structure IsamUpdate where
  newFactors : List Factor := []
  newValues : Values := []

/-- What an alignment of `pcl::GeneralizedIterativeClosestPoint` gives. -/
structure GicpResult where
  hasConverged : Bool
  /-- `none` when it is not finite. -/
  fitness : Option ℝ
  finalTransformation : Pose3

/-- The libraries that the backend calls. -/
structure BackendLibs extends PoseLibs where
  /-- `calculateEstimate` after the updates. -/
  calculateEstimate : List IsamUpdate → Values
  /-- `std::partial_sort` of pairs by their first part. -/
  partialSort : Nat → List (ℝ × Nat) → List (ℝ × Nat)
  /-- `pcl::VoxelGrid` with the leaf size of the loop search, and of the map. -/
  gicpVoxelGrid : List PointXYZRGB → List PointXYZRGB
  mapVoxelGrid : List PointXYZRGB → List PointXYZRGB
  /-- `gicp.align` of a source to a target from an initial pose. -/
  gicpAlign : List PointXYZRGB → List PointXYZRGB → Pose3 → GicpResult
  transformPointCloud : List PointXYZRGB → Pose3 → List PointXYZRGB
  partialSort_perm : ∀ n l, (partialSort n l).Perm l

/-- Keys inserted by the updates. -/
def insertedKeys (isam : List IsamUpdate) : List Nat :=
  isam.flatMap fun u => u.newValues.map Prod.fst

/-- Factors of the graph. -/
def graphFactors (isam : List IsamUpdate) : List Factor :=
  isam.flatMap IsamUpdate.newFactors

/-! ## State -/

/-- What `publishBackendState` publishes: key positions, path and loop lines. -/
structure BackendMessages where
  keyposes : List Vec3
  globalPath : List (Double × Pose3)
  lines : List (Vec3 × Vec3)

/-- What `reconstructFinalMap` writes. -/
structure FinalMap where
  trajectory : List (Double × Pose3)
  fullMap : List PointXYZRGB

/-- Members of `optimization` that the worker uses. -/
structure Optimization (cfg : BackendConfig) (G : Geodesy) where
  isam : List IsamUpdate := []
  latestEstimate : Values := []
  localKeyposes : List Pose3 := []
  keyframeClouds : List (List PointXYZRGB) := []
  keyframeStamps : List Double := []
  keyframeRtk : List (Option GlobalRtkObservation) := []
  scanContextDatabase : List (ScanContextEntry cfg) := []
  loopEdges : List (Nat × Nat) := []
  rtk : RtkBuffer G
  smoothedMapToOdom : Pose3 := 1
  targetMapToOdom : Pose3 := 1
  correctionInitialized : Bool := false
  /-- The last messages published. -/
  messages : Option BackendMessages := none
  /-- The last map written. -/
  finalMap : Option FinalMap := none

variable {cfg : BackendConfig} {G : Geodesy}

/-- `latest_estimate_.at`. -/
def Optimization.at (b : Optimization cfg G) (key : Nat) : Option Pose3 := b.latestEstimate.lookup key

/-! ## Factors of a keyframe -/

/-- `shouldCreateKeyframe`. -/
def shouldCreateKeyframe (L : BackendLibs) (b : Optimization cfg G) (pose : Pose3) (stamp : Double) :
    Option Bool :=
  if b.localKeyposes.isEmpty then some true
  else do
    let last ← b.localKeyposes.getLast?
    let lastStamp ← b.keyframeStamps.getLast?
    return movedFar cfg L.toPoseLibs (.pose last, lastStamp) (.pose pose, stamp)

/-- `rotationWithYaw`, the formula of `replaceYaw`. -/
def rotationWithYaw (rotation : Rot3) (yaw : ℝ) : Rot3 := replaceYaw rotation yaw

/-- Three variances of the rotation and three of the translation. -/
def poseVariances (rotation translation : ℝ) : List ℝ :=
  [rotation, rotation, rotation, translation, translation, translation]

/-- The prior of the first node, or the odometry factor of a later one, with the initial
pose of the node. -/
def poseFactor (b : Optimization cfg G) (input : BackendKeyframeInput) (index : Nat)
    (rtk : Option GlobalRtkObservation) : Option (Factor × Pose3) :=
  if index = 0 then
    let initial : Pose3 := match rtk with
      | none => input.localPose
      | some m =>
        let rotation := if m.headingValid then
            rotationWithYaw input.localPose.rotation (m.heading + cfg.rtkHeadingOffset)
          else input.localPose.rotation
        ⟨rotation, m.position - rotation.matrix *ᵥ cfg.imuToAntenna⟩
    some (.prior index initial ⟨[1e-3, 1e-3, 10.0, 100.0, 100.0, 100.0], none⟩, initial)
  else do
    let last ← b.localKeyposes.getLast?
    let localRelative := last.between input.localPose
    let previous ← b.at (index - 1)
    let noise : NoiseModel :=
      ⟨poseVariances cfg.odomRotationVariance cfg.odomTranslationVariance, none⟩
    return (.between (index - 1) index localRelative noise, previous.compose localRelative)

/-- A robust noise model from the variances of a vector. -/
def huberNoise (variances : Vec3) : NoiseModel :=
  ⟨List.ofFn variances, some (.huber 1.345)⟩

/-- The velocity factor between the last node and this one, if both have a velocity. -/
def velocityFactor (b : Optimization cfg G) (input : BackendKeyframeInput) (index : Nat)
    (m : GlobalRtkObservation) : Option (List Factor) :=
  if index = 0 ∨ !m.velocityValid then some []
  else do
    let lastRtk ← b.keyframeRtk.getLast?
    match lastRtk with
    | none => return []
    | some last =>
      if !last.velocityValid then return []
      else
        let lastStamp ← b.keyframeStamps.getLast?
        let dt := input.stamp - lastStamp
        if dt ≤ 1 / 50 then return []
        else
          let averageVelocity := (0.5 : ℝ) • (last.velocity + m.velocity)
          let variance : Vec3 := fun i =>
            0.25 * (last.velocityVariance i + m.velocityVariance i) + 2.5e-3
          return [.antennaVelocity (index - 1) index averageVelocity cfg.imuToAntenna dt
            (huberNoise variance)]

/-- Factors of the RTK observation of a node. -/
def rtkFactors (b : Optimization cfg G) (input : BackendKeyframeInput) (index : Nat)
    (rtk : Option GlobalRtkObservation) : Option (List Factor) :=
  match rtk with
  | none => some []
  | some m => do
    let position : Factor := .antennaPosition index m.position cfg.imuToAntenna
      (huberNoise m.positionVariance)
    let velocity ← velocityFactor b input index m
    let heading : List Factor :=
      if m.headingValid then
        [.heading index (m.heading + cfg.rtkHeadingOffset)
          ⟨[m.headingVariance], some (.huber 1.345)⟩]
      else []
    return position :: velocity ++ heading

/-! ## Loops -/

/-- `ring_candidates`. -/
def ringCandidates (b : Optimization cfg G) (query : ScanContextEntry cfg) (candidateLimit : Nat) :
    Option (List (ℝ × Nat)) :=
  (List.range candidateLimit).mapM fun index => do
    let entry ← b.scanContextDatabase[index]?
    return (columnNorm (query.ringKey - entry.ringKey), index)

/-- The closest of the shortlist, with its distance. -/
def bestOfShortlist (b : Optimization cfg G) (query : ScanContextEntry cfg)
    (shortlist : List (ℝ × Nat)) : Option (Option (Nat × ℝ)) :=
  shortlist.foldlM (fun (best : Option (Nat × ℝ)) candidate => do
    let entry ← b.scanContextDatabase[candidate.2]?
    let distance := scanContextDistance query.descriptor entry.descriptor
    if best.all fun c => decide (distance < c.2) then return some (candidate.2, distance)
    else return best) none

/-- `detectLoopCandidate`: the candidate, if one is similar enough. -/
def detectLoopCandidate (L : BackendLibs) (b : Optimization cfg G) (query : ScanContextEntry cfg)
    (currentIndex : Nat) : Option (Option Nat) :=
  if currentIndex ≤ cfg.scExcludeRecent ∨ b.scanContextDatabase.length ≤ cfg.scExcludeRecent then
    some none
  else do
    let ring ← ringCandidates b query (currentIndex - cfg.scExcludeRecent)
    let shortlistSize := min 10 ring.length
    let best ← bestOfShortlist b query ((L.partialSort shortlistSize ring).take shortlistSize)
    return (best.filter fun c => decide (c.2 < cfg.scDistanceThreshold)).map Prod.fst

/-- `verifyLoopWithGicp`: the relative pose of an accepted loop. -/
def verifyLoopWithGicp (L : BackendLibs) (b : Optimization cfg G) (candidateIndex : Nat)
    (current : BackendKeyframeInput) : Option (Option Pose3) :=
  if b.keyframeClouds.length ≤ candidateIndex then some none
  else do
    let candidateCloud ← b.keyframeClouds[candidateIndex]?
    let source := L.gicpVoxelGrid current.cloud
    let target := L.gicpVoxelGrid candidateCloud
    if source.length < 100 ∨ target.length < 100 then return none
    else
      let candidatePose ← b.localKeyposes[candidateIndex]?
      let r := L.gicpAlign source target (candidatePose.between current.localPose)
      if r.hasConverged && r.fitness.any fun fitness => decide (fitness ≤ cfg.gicpFitnessThreshold)
      then return some r.finalTransformation
      else return none

/-- The loop of a keyframe that passes both checks: candidate and relative pose. -/
def acceptedLoop (L : BackendLibs) (b : Optimization cfg G) (query : ScanContextEntry cfg)
    (index : Nat) (input : BackendKeyframeInput) : Option (Option (Nat × Pose3)) :=
  if !cfg.loopEnabled then some none
  else do
    let candidate ← detectLoopCandidate L b query index
    match candidate with
    | none => return none
    | some candidate =>
      let relative ← verifyLoopWithGicp L b candidate input
      return relative.map fun pose => (candidate, pose)

/-- The factor of an accepted loop. -/
def loopFactor (cfg : BackendConfig) (index : Nat) (l : Nat × Pose3) : Factor :=
  .between l.1 index l.2
    ⟨poseVariances cfg.loopRotationVariance cfg.loopTranslationVariance, some (.cauchy 1)⟩

/-! ## Processing -/

/-- `updateGlobalCorrection`. -/
def updateGlobalCorrection (latestLocalPose latestGlobalPose : Pose3) (b : Optimization cfg G) :
    Optimization cfg G :=
  let target := latestGlobalPose.compose latestLocalPose.inverse
  { b with
    targetMapToOdom := target
    smoothedMapToOdom := if b.correctionInitialized then b.smoothedMapToOdom else target
    correctionInitialized := true }

/-- The messages of `publishBackendState`. -/
def backendMessages (b : Optimization cfg G) : Option BackendMessages := do
  let path ← (List.range b.localKeyposes.length).mapM fun index => do
    let pose ← b.at index
    let stamp ← b.keyframeStamps[index]?
    return (stamp, pose)
  let lines ← b.loopEdges.mapM fun edge => do
    let first ← b.at edge.1
    let second ← b.at edge.2
    return (first.translation, second.translation)
  return ⟨path.map fun p => p.2.translation, path, lines⟩

/-- `publishBackendState`. -/
def publishBackendState (b : Optimization cfg G) : Option (Optimization cfg G) :=
  if b.latestEstimate.isEmpty then some b
  else (backendMessages b).map fun messages => { b with messages := some messages }

/-- A new node: its values and factors go to the smoother, its data to the containers. -/
def addNode (L : BackendLibs) (input : BackendKeyframeInput) (rtk : Option GlobalRtkObservation)
    (query : ScanContextEntry cfg) (loop : Option (Nat × Pose3)) (newFactors : List Factor)
    (initialGlobalPose : Pose3) (b : Optimization cfg G) : Optimization cfg G :=
  let index := b.localKeyposes.length
  let isam := b.isam ++ ⟨newFactors, [(index, initialGlobalPose)]⟩ ::
    (if loop.isSome then [⟨[], []⟩, ⟨[], []⟩] else [])
  { b with
    isam := isam
    latestEstimate := L.calculateEstimate isam
    localKeyposes := b.localKeyposes ++ [input.localPose]
    keyframeClouds := b.keyframeClouds ++ [input.cloud]
    keyframeStamps := b.keyframeStamps ++ [input.stamp]
    keyframeRtk := b.keyframeRtk ++ [rtk]
    scanContextDatabase := b.scanContextDatabase ++ [query]
    loopEdges := b.loopEdges ++ (loop.map fun l => (l.1, index)).toList }

/-- `processKeyframe` of a keyframe that becomes a node. -/
def createNode (L : BackendLibs) (input : BackendKeyframeInput) (b : Optimization cfg G) :
    Option (Optimization cfg G) := do
  let index := b.localKeyposes.length
  let query := makeScanContext cfg input.cloud
  let (rtk, buffer) := if cfg.gpsEnabled then findNearestRtk cfg.rtk input.stamp b.rtk
    else (none, b.rtk)
  let b := { b with rtk := buffer }
  let (pose, initialGlobalPose) ← poseFactor b input index rtk
  let rtkFactors ← rtkFactors b input index rtk
  let loop ← acceptedLoop L b query index input
  let newFactors := pose :: rtkFactors ++ (loop.map (loopFactor cfg index)).toList
  let b := addNode L input rtk query loop newFactors initialGlobalPose b
  let optimizedPose ← b.at index
  publishBackendState (updateGlobalCorrection input.localPose optimizedPose b)

/-- `processKeyframe`. -/
def processKeyframe (L : BackendLibs) (input : BackendKeyframeInput) (b : Optimization cfg G) :
    Option (Optimization cfg G) := do
  let create ← shouldCreateKeyframe L b input.localPose input.stamp
  if create then createNode L input b else return b

/-- `reconstructFinalMap`. -/
def reconstructFinalMap (L : BackendLibs) (b : Optimization cfg G) : Option (Optimization cfg G) :=
  if b.localKeyposes.isEmpty then some b
  else do
    let b := { b with latestEstimate := L.calculateEstimate b.isam }
    let frames ← (List.range b.keyframeClouds.length).mapM fun index => do
      let pose ← b.at index
      let cloud ← b.keyframeClouds[index]?
      let stamp ← b.keyframeStamps[index]?
      return (stamp, pose, L.transformPointCloud cloud pose)
    let finalMap : FinalMap :=
      { trajectory := frames.map fun f => (f.1, f.2.1)
        fullMap := L.mapVoxelGrid (frames.flatMap fun f => f.2.2) }
    return { b with finalMap := some finalMap }

end

end FastLivo.Backend
