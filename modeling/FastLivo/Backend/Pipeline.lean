import FastLivo.Backend.Lockstep
import FastLivo.Backend.PendingQueue

/-!
# From synced frames to graph nodes

`syncedCallback` filters frames against the last one it queued, and the worker filters
them again against the last node. Without an overflow the second filter passes whatever
the first one queued, unless a comparison was with something that is not a number; with one,
neighbours in the graph are still apart.
-/

namespace FastLivo.Backend

open Lib Esikf Frontend Matrix

noncomputable section

variable {cfg : BackendConfig} {G : Geodesy} {L : BackendLibs}

/-! ## The callback and the whole backend -/

/-- A pair of an odometry and a cloud from the synchronizer; `cloud` is what
`pcl::fromROSMsg` makes of the points. -/
structure SyncedFrame where
  stamp : Stamp
  localPose : LocalPose
  width : Nat
  height : Nat
  cloud : List PointXYZRGB

/-- Pose and stamp of the frame. -/
def SyncedFrame.key (frame : SyncedFrame) : KeyPose := (frame.localPose, frame.stamp.toSec)

/-- An entry of the queue: `BackendKeyframeInput` with the pose as it came. -/
structure SelectedKeyframe where
  key : KeyPose
  cloud : List PointXYZRGB

/-- `syncedCallback` up to its queue: the frame it queues next (`last_enqueued_*`), and
the input that it hands over. -/
def selectKeyframe (cfg : BackendConfig) (P : PoseLibs) (lastEnqueued : Option KeyPose)
    (frame : SyncedFrame) : Option KeyPose × Option SelectedKeyframe :=
  if lastEnqueued.any fun last => staysClose cfg P last frame.key then (lastEnqueued, none)
  else if frame.width * frame.height < 100 then (lastEnqueued, none)
  else (some frame.key, if frame.cloud.length < 100 then none else some ⟨frame.key, frame.cloud⟩)

/-- The backend with its threads. -/
structure Pipeline (cfg : BackendConfig) (G : Geodesy) where
  lastEnqueued : Option KeyPose := none
  worker : Worker SelectedKeyframe := {}
  /-- `local_keyposes_` with `keyframe_stamps_`. -/
  nodes : List KeyPose := []
  /-- The members of the worker, until a pose that is not a number becomes a node. -/
  members : Option (Optimization cfg G)

inductive PipelineEvent
  | synced (frame : SyncedFrame)
  | rtk (c : RtkCall)
  | thread (t : ThreadStep)

inductive WorkerDuty
  | keyframe (input : SelectedKeyframe)
  | save

/-- What a step of the threads asks of the members of the worker. -/
def workerDuty (w : Worker SelectedKeyframe) (t : ThreadStep) : Option WorkerDuty :=
  match t, w.pc with
  | .process, .processing keyframe => some (.keyframe keyframe.input)
  | .exchange, _ => if w.saveRequested then some .save else none
  | .join, _ => some .save
  | _, _ => none

/-- `shouldCreateKeyframe`, over the poses as they came. -/
def shouldCreateNode (cfg : BackendConfig) (P : PoseLibs) (nodes : List KeyPose) (next : KeyPose) :
    Bool :=
  nodes.getLast?.all fun last => movedFar cfg P last next

/-- An event at the members of the worker. -/
def memberStep (L : BackendLibs) (members : Option (Optimization cfg G)) (e : BackendEvent) :
    Option (Option (Optimization cfg G)) :=
  match members with
  | none => some none
  | some b => (backendStep L b e).map some

/-- `processKeyframe`: the nodes and the members. What GTSAM makes of a node whose pose is not a
number is not followed. -/
def processSelected (L : BackendLibs) (input : SelectedKeyframe) (nodes : List KeyPose)
    (members : Option (Optimization cfg G)) :
    Option (List KeyPose × Option (Optimization cfg G)) :=
  let create := shouldCreateNode cfg L.toPoseLibs nodes input.key
  let nodes := if create then nodes ++ [input.key] else nodes
  match input.key.1 with
  | .pose pose =>
    (memberStep L members (.keyframe ⟨input.key.2, pose, input.cloud⟩)).map fun members =>
      (nodes, members)
  | .special _ _ => some (nodes, if create then none else members)

/-- A step, if it can be taken. -/
def pipelineStep (L : BackendLibs) (s : Pipeline cfg G) :
    PipelineEvent → Option (Pipeline cfg G)
  | .synced frame =>
    let (lastEnqueued, input) := selectKeyframe cfg L.toPoseLibs s.lastEnqueued frame
    match input with
    | none => some { s with lastEnqueued := lastEnqueued }
    | some input =>
      (workerStep cfg.maxPendingKeyframes s.worker (.enqueue input)).map fun worker =>
        { s with lastEnqueued := lastEnqueued, worker := worker }
  | .rtk c => (memberStep L s.members (.rtk c)).map fun members => { s with members := members }
  | .thread t => do
    let worker ← threadStep s.worker t
    match workerDuty s.worker t with
    | none => return { s with worker := worker }
    | some .save =>
      let members ← memberStep L s.members .save
      return { s with worker := worker, members := members }
    | some (.keyframe input) =>
      let (nodes, members) ← processSelected L input s.nodes s.members
      return { s with worker := worker, nodes := nodes, members := members }

/-- After the constructor. -/
def Pipeline.start (cfg : BackendConfig) (localCartesian : G.LocalCartesian) : Pipeline cfg G :=
  { members := some (.start cfg localCartesian) }

variable {s t : Pipeline cfg G}

/-- What a step does to the parts. -/
inductive PipelineMove (L : BackendLibs) (s : Pipeline cfg G) :
    PipelineEvent → Pipeline cfg G → Prop
  | skipped (frame : SyncedFrame) (lastEnqueued : Option KeyPose) :
      selectKeyframe cfg L.toPoseLibs s.lastEnqueued frame = (lastEnqueued, none) →
      PipelineMove L s (.synced frame) { s with lastEnqueued := lastEnqueued }
  | queued (frame : SyncedFrame) (lastEnqueued : Option KeyPose) (input : SelectedKeyframe)
      (worker : Worker SelectedKeyframe) :
      selectKeyframe cfg L.toPoseLibs s.lastEnqueued frame = (lastEnqueued, some input) →
      workerStep cfg.maxPendingKeyframes s.worker (.enqueue input) = some worker →
      PipelineMove L s (.synced frame) { s with lastEnqueued := lastEnqueued, worker := worker }
  | rtk (c : RtkCall) (members : Option (Optimization cfg G)) :
      memberStep L s.members (.rtk c) = some members →
      PipelineMove L s (.rtk c) { s with members := members }
  | idle (t : ThreadStep) (worker : Worker SelectedKeyframe) :
      threadStep s.worker t = some worker → workerDuty s.worker t = none →
      PipelineMove L s (.thread t) { s with worker := worker }
  | save (t : ThreadStep) (worker : Worker SelectedKeyframe)
      (members : Option (Optimization cfg G)) :
      threadStep s.worker t = some worker → workerDuty s.worker t = some .save →
      memberStep L s.members .save = some members →
      PipelineMove L s (.thread t) { s with worker := worker, members := members }
  | keyframe (t : ThreadStep) (worker : Worker SelectedKeyframe) (input : SelectedKeyframe)
      (nodes : List KeyPose) (members : Option (Optimization cfg G)) :
      threadStep s.worker t = some worker → workerDuty s.worker t = some (.keyframe input) →
      processSelected L input s.nodes s.members = some (nodes, members) →
      PipelineMove L s (.thread t)
        { s with worker := worker, nodes := nodes, members := members }

theorem pipelineMove_of_step {e : PipelineEvent} (h : pipelineStep L s e = some t) :
    PipelineMove L s e t := by
  cases e with
  | synced frame =>
    simp only [pipelineStep] at h
    generalize hsel : selectKeyframe cfg L.toPoseLibs s.lastEnqueued frame = selected at h
    obtain ⟨lastEnqueued, _ | input⟩ := selected
    · obtain rfl := Option.some.inj h
      exact .skipped frame lastEnqueued hsel
    · obtain ⟨worker, hworker, rfl⟩ := Option.map_eq_some_iff.mp h
      exact .queued frame lastEnqueued input worker hsel hworker
  | rtk c =>
    simp only [pipelineStep] at h
    obtain ⟨members, hmembers, rfl⟩ := Option.map_eq_some_iff.mp h
    exact .rtk c members hmembers
  | thread t =>
    simp only [pipelineStep] at h
    obtain ⟨worker, hworker, h⟩ := Option.bind_eq_some_iff.mp h
    generalize hduty : workerDuty s.worker t = duty at h
    rcases duty with _ | input | _
    · obtain rfl := Option.some.inj h
      exact .idle t worker hworker hduty
    · obtain ⟨⟨nodes, members⟩, hprocess, h⟩ := Option.bind_eq_some_iff.mp h
      obtain rfl := Option.some.inj h
      exact .keyframe t worker input nodes members hworker hduty hprocess
    · obtain ⟨members, hmembers, h⟩ := Option.bind_eq_some_iff.mp h
      obtain rfl := Option.some.inj h
      exact .save t worker members hworker hduty hmembers

/-- The threads of the backend take the steps of `workerStep`. -/
theorem Pipeline.worker_reach {ok : Pipeline cfg G → PipelineEvent → Prop}
    {localCartesian : G.LocalCartesian}
    (h : Reach (pipelineStep L) ok (Pipeline.start cfg localCartesian) s) :
    Reach (workerStep cfg.maxPendingKeyframes) (fun _ _ => True) {} s.worker := by
  induction h with
  | start => exact .start
  | next e _ _ hst ih =>
    cases pipelineMove_of_step hst with
    | skipped | rtk => exact ih
    | queued frame lastEnqueued input worker _ hworker =>
      exact .next (.enqueue input) ih trivial hworker
    | idle t worker hworker | save t worker _ hworker | keyframe t worker _ _ _ hworker =>
      exact .next (.thread t) ih trivial hworker

/-- The members of the worker take the steps of `backendStep`, as long as they are followed. -/
theorem Pipeline.members_reach {ok : Pipeline cfg G → PipelineEvent → Prop}
    {localCartesian : G.LocalCartesian}
    (h : Reach (pipelineStep L) ok (Pipeline.start cfg localCartesian) s) :
    ∀ b ∈ s.members,
      Reach (backendStep L) (fun _ _ => True) (Optimization.start cfg localCartesian) b := by
  have hstep {members members' : Option (Optimization cfg G)} {e : BackendEvent}
      (ih : ∀ b ∈ members,
        Reach (backendStep L) (fun _ _ => True) (Optimization.start cfg localCartesian) b)
      (hst : memberStep L members e = some members') :
      ∀ b ∈ members',
        Reach (backendStep L) (fun _ _ => True) (Optimization.start cfg localCartesian) b := by
    cases members with
    | none =>
      obtain rfl := Option.some.inj hst
      exact ih
    | some b =>
      obtain ⟨b', hb', rfl⟩ := Option.map_eq_some_iff.mp hst
      intro b'' hb''
      obtain rfl := Option.some.inj hb''
      exact .next e (ih b rfl) trivial hb'
  induction h with
  | start =>
    intro b hb
    obtain rfl := Option.some.inj hb
    exact .start
  | next _ _ _ hst ih =>
    cases pipelineMove_of_step hst with
    | skipped | queued | idle => exact ih
    | rtk c members hmembers => exact hstep ih hmembers
    | save t worker members _ _ hmembers => exact hstep ih hmembers
    | keyframe t worker input nodes members _ _ hprocess =>
      unfold processSelected at hprocess
      dsimp only at hprocess
      split at hprocess
      · obtain ⟨_, hmember, hresult⟩ := Option.map_eq_some_iff.mp hprocess
        obtain rfl := (Prod.mk.inj hresult).2
        exact hstep ih hmember
      · obtain rfl := (Prod.mk.inj (Option.some.inj hprocess)).2
        dsimp only
        split
        · exact nofun
        · exact ih

/-! ## Poses and stamps of the nodes -/

/-- Poses and stamps of the nodes of the smoother. -/
def Optimization.keys (b : Optimization cfg G) : List KeyPose :=
  (b.localKeyposes.map LocalPose.pose).zip b.keyframeStamps

/-- The key of an input. -/
def BackendKeyframeInput.key (input : BackendKeyframeInput) : KeyPose :=
  (.pose input.localPose, input.stamp)

variable {b b' : Optimization cfg G}

theorem keys_getLast (hpaired : b.keyframeStamps.length = b.localKeyposes.length) :
    b.keys.getLast? = b.localKeyposes.getLast?.bind fun pose =>
      b.keyframeStamps.getLast?.map fun stamp => (.pose pose, stamp) := by
  have hlength : b.keys.length = b.localKeyposes.length := by
    rw [Optimization.keys, List.length_zip, List.length_map, hpaired, min_self]
  rw [List.getLast?_eq_getElem?, List.getLast?_eq_getElem?, List.getLast?_eq_getElem?, hlength,
    hpaired, Optimization.keys, List.zip, List.getElem?_zipWith, List.getElem?_map]
  cases b.localKeyposes[b.localKeyposes.length - 1]? <;>
    cases b.keyframeStamps[b.localKeyposes.length - 1]? <;> rfl

/-- The test of the worker compares with the last node. -/
theorem shouldCreateKeyframe_eq (hpaired : b.keyframeStamps.length = b.localKeyposes.length)
    (input : BackendKeyframeInput) :
    shouldCreateKeyframe L b input.localPose input.stamp =
      some (shouldCreateNode cfg L.toPoseLibs b.keys input.key) := by
  rw [shouldCreateNode, keys_getLast hpaired, shouldCreateKeyframe]
  split
  · rename_i hempty
    rw [List.isEmpty_iff.mp hempty]
    rfl
  · rename_i hne
    obtain ⟨pose, hpose⟩ := getLast?_of_ne_nil (l := b.localKeyposes) (by simpa using hne)
    obtain ⟨stamp, hstamp⟩ := getLast?_of_ne_nil (l := b.keyframeStamps) fun hnil => by
      rw [hnil, List.length_nil, eq_comm, ← List.isEmpty_iff_length_eq_zero] at hpaired
      exact hne hpaired
    rw [hpose, hstamp]
    rfl

/-- The nodes are as before, with the keys of `added` after them. -/
structure NodesGrow (added : List BackendKeyframeInput) (b b' : Optimization cfg G) : Prop where
  poses : b'.localKeyposes = b.localKeyposes ++ added.map BackendKeyframeInput.localPose
  stamps : b'.keyframeStamps = b.keyframeStamps ++ added.map BackendKeyframeInput.stamp

theorem NodesGrow.same : NodesGrow [] b b := ⟨(List.append_nil _).symm, (List.append_nil _).symm⟩

theorem NodesGrow.keys {added : List BackendKeyframeInput} (h : NodesGrow added b b')
    (hpaired : b.keyframeStamps.length = b.localKeyposes.length) :
    b'.keyframeStamps.length = b'.localKeyposes.length ∧
      b'.keys = b.keys ++ added.map BackendKeyframeInput.key := by
  rw [Optimization.keys, Optimization.keys, h.poses, h.stamps]
  refine ⟨?_, ?_⟩
  · simp [hpaired]
  · rw [List.map_append, List.zip_append (by rw [List.length_map, hpaired]), List.map_map,
      List.zip_map']
    rfl

theorem createNode_nodes {input : BackendKeyframeInput} (h : createNode L input b = some b') :
    NodesGrow [input] b b' := by
  obtain ⟨loop, -, hadded⟩ := createNode_added h
  exact ⟨hadded.poses, hadded.stamps⟩

theorem reconstructFinalMap_nodes (h : reconstructFinalMap L b = some b') : NodesGrow [] b b' := by
  unfold reconstructFinalMap at h
  split at h
  · obtain rfl := Option.some.inj h
    exact .same
  · obtain ⟨frames, -, h⟩ := Option.bind_eq_some_iff.mp h
    obtain rfl := Option.some.inj h
    exact ⟨(List.append_nil _).symm, (List.append_nil _).symm⟩

/-- A keyframe that passes the test of the worker becomes a node, nothing else does. -/
theorem backendStep_nodes {e : BackendEvent} (h : backendStep L b e = some b') :
    NodesGrow [] b b' ∧ (∀ input, e = .keyframe input →
      shouldCreateKeyframe L b input.localPose input.stamp = some false) ∨
    ∃ input, e = .keyframe input ∧ NodesGrow [input] b b' ∧
      shouldCreateKeyframe L b input.localPose input.stamp = some true := by
  cases e with
  | rtk c =>
    obtain rfl := Option.some.inj h
    exact .inl ⟨⟨(List.append_nil _).symm, (List.append_nil _).symm⟩, nofun⟩
  | save => exact .inl ⟨reconstructFinalMap_nodes h, nofun⟩
  | keyframe input =>
    obtain ⟨create, hcreate, h⟩ := Option.bind_eq_some_iff.mp h
    cases create with
    | true => exact .inr ⟨input, rfl, createNode_nodes h, hcreate⟩
    | false =>
      obtain rfl := Option.some.inj h
      refine .inl ⟨.same, fun input' hinput => ?_⟩
      cases hinput
      exact hcreate

/-- The members hold the nodes, as long as they are followed. -/
def NodesOf (nodes : List KeyPose) (members : Option (Optimization cfg G)) : Prop :=
  ∀ b ∈ members, b.keyframeStamps.length = b.localKeyposes.length ∧ nodes = b.keys

/-- Neighbours in the graph are separated. -/
structure Spaced (L : BackendLibs) (nodes : List KeyPose) (members : Option (Optimization cfg G)) :
    Prop where
  chain : nodes.IsChain (Separated cfg L.toPoseLibs)
  held : NodesOf nodes members

/-- A keyframe passes the test of the worker if and only if it is separated from the last node. -/
theorem shouldCreateNode_iff {P : PoseLibs} {nodes : List KeyPose} {next : KeyPose} :
    shouldCreateNode cfg P nodes next = true ↔
      ∀ last ∈ nodes.getLast?, Separated cfg P last next := by
  simp only [shouldCreateNode, Option.all_eq_true, movedFar_iff, Option.mem_def]

variable {nodes nodes' : List KeyPose} {members members' : Option (Optimization cfg G)}

theorem nodesOf_memberStep {e : BackendEvent} (h : NodesOf nodes members)
    (hother : ∀ input, e ≠ .keyframe input) (hst : memberStep L members e = some members') :
    NodesOf nodes members' := by
  cases members with
  | none =>
    obtain rfl := Option.some.inj hst
    exact h
  | some b =>
    obtain ⟨b', hb', rfl⟩ := Option.map_eq_some_iff.mp hst
    obtain ⟨hpaired, hkeys⟩ := h b rfl
    rcases backendStep_nodes hb' with ⟨hnodes, -⟩ | ⟨input, hinput, -⟩
    · intro b'' hb''
      obtain rfl := Option.some.inj hb''
      obtain ⟨hpaired', hkeys'⟩ := hnodes.keys hpaired
      rw [List.map_nil, List.append_nil] at hkeys'
      exact ⟨hpaired', hkeys.trans hkeys'.symm⟩
    · exact absurd hinput (hother input)

/-- The worker appends a keyframe that passes its test, to the nodes and to the members. -/
theorem processSelected_cases {input : SelectedKeyframe}
    (h : processSelected L input nodes members = some (nodes', members')) :
    nodes' = if shouldCreateNode cfg L.toPoseLibs nodes input.key then nodes ++ [input.key]
      else nodes := by
  unfold processSelected at h
  dsimp only at h
  split at h
  · obtain ⟨_, -, h⟩ := Option.map_eq_some_iff.mp h
    exact (congrArg Prod.fst h).symm
  · exact (congrArg Prod.fst (Option.some.inj h)).symm

theorem nodesOf_processSelected {input : SelectedKeyframe} (h : NodesOf nodes members)
    (hst : processSelected L input nodes members = some (nodes', members')) :
    NodesOf nodes' members' := by
  obtain ⟨⟨pose | ⟨m, hm⟩, stamp⟩, cloud⟩ := input
  · obtain ⟨_, hmember, hresult⟩ := Option.map_eq_some_iff.mp hst
    obtain ⟨hnodes, rfl⟩ := Prod.mk.inj hresult
    cases members with
    | none =>
      obtain rfl := Option.some.inj hmember
      exact nofun
    | some b =>
      obtain ⟨b', hb', rfl⟩ := Option.map_eq_some_iff.mp hmember
      obtain ⟨hpaired, hkeys⟩ := h b rfl
      have htest := shouldCreateKeyframe_eq (L := L) hpaired ⟨stamp, pose, cloud⟩
      intro b'' hb''
      obtain rfl := Option.some.inj hb''
      rw [← hnodes, hkeys]
      rcases backendStep_nodes hb' with ⟨hgrow, hrejected⟩ | ⟨input, hinput, hgrow, hcreate⟩
      · obtain ⟨hpaired', hkeys'⟩ := hgrow.keys hpaired
        have hfalse := Option.some.inj (htest.symm.trans (hrejected _ rfl))
        rw [List.map_nil, List.append_nil] at hkeys'
        exact ⟨hpaired', (if_neg (Bool.eq_false_iff.mp hfalse)).trans hkeys'.symm⟩
      · cases hinput
        obtain ⟨hpaired', hkeys'⟩ := hgrow.keys hpaired
        exact ⟨hpaired', (if_pos (Option.some.inj (htest.symm.trans hcreate))).trans hkeys'.symm⟩
  · obtain ⟨rfl, rfl⟩ := Prod.mk.inj (Option.some.inj hst)
    cases shouldCreateNode cfg L.toPoseLibs nodes (.special m hm, stamp) with
    | true => exact nofun
    | false => exact h

theorem spaced_processSelected {input : SelectedKeyframe} (h : Spaced L nodes members)
    (hst : processSelected L input nodes members = some (nodes', members')) :
    Spaced L nodes' members' := by
  refine ⟨?_, nodesOf_processSelected h.held hst⟩
  rw [processSelected_cases hst]
  split
  · rename_i hcreate
    refine h.chain.append (List.isChain_singleton _) fun last hlast next hnext => ?_
    obtain rfl := Option.some.inj hnext
    exact shouldCreateNode_iff.mp hcreate last hlast
  · exact h.chain

/-- The test of the worker keeps neighbours apart. -/
theorem spaced_step {e : PipelineEvent} (h : Spaced L s.nodes s.members)
    (hst : pipelineStep L s e = some t) : Spaced L t.nodes t.members := by
  cases pipelineMove_of_step hst with
  | skipped | queued | idle => exact h
  | rtk c members hmembers =>
    refine ⟨h.chain, nodesOf_memberStep h.held (fun _ hinput => ?_) hmembers⟩
    cases hinput
  | save t worker members _ _ hmembers =>
    refine ⟨h.chain, nodesOf_memberStep h.held (fun _ hinput => ?_) hmembers⟩
    cases hinput
  | keyframe t worker input nodes members _ _ hprocess => exact spaced_processSelected h hprocess

theorem spaced_of_reach {ok : Pipeline cfg G → PipelineEvent → Prop}
    {localCartesian : G.LocalCartesian}
    (h : Reach (pipelineStep L) ok (Pipeline.start cfg localCartesian) s) :
    Spaced L s.nodes s.members := by
  refine Reach.invariant (I := fun s => Spaced L s.nodes s.members) ?_ ?_ h
  · refine ⟨.nil, fun b hb => ?_⟩
    obtain rfl := Option.some.inj hb
    exact ⟨rfl, rfl⟩
  · exact fun _ _ hspaced _ hst => spaced_step hspaced hst

/-! ## Keyframes on their way -/

/-- What the worker holds and what the queue holds, in the order of arrival. -/
def onTheWay (w : Worker SelectedKeyframe) : List KeyPose :=
  (match w.pc with
    | .processing keyframe => [keyframe.input.key]
    | _ => []) ++ w.keyframeQueue.map fun keyframe => keyframe.input.key

variable {w w' : Worker SelectedKeyframe}

theorem onTheWay_notify (w : Worker SelectedKeyframe) : onTheWay w.notify = onTheWay w := by
  rcases notify_cases w with ⟨n, hpc, h⟩ | ⟨-, h⟩
  · rw [h, onTheWay, onTheWay, hpc]
  · rw [h]

/-- A keyframe leaves the way only when it is processed. -/
theorem onTheWay_threadStep {t : ThreadStep} (hst : threadStep w t = some w') :
    (∃ keyframe, workerDuty w t = some (.keyframe keyframe.input) ∧
      w.pc = .processing keyframe ∧ onTheWay w = keyframe.input.key :: onTheWay w') ∨
    (∀ input, workerDuty w t ≠ some (.keyframe input)) ∧ onTheWay w' = onTheWay w := by
  cases move_of_step (show workerStep 0 w (.thread t) = some w' from hst) with
  | process keyframe hpc =>
    left
    refine ⟨keyframe, ?_, hpc, ?_⟩
    · simp only [workerDuty, hpc]
    · simp only [onTheWay, hpc]
      rfl
  | saveStore | stopStore => exact .inr ⟨nofun, rfl⟩
  | saveNotify | stopNotify => exact .inr ⟨nofun, onTheWay_notify w⟩
  | join => exact .inr ⟨nofun, rfl⟩
  | exchange hpc =>
    refine .inr ⟨fun input => ?_, ?_⟩
    · simp only [workerDuty]
      split <;> nofun
    · simp only [onTheWay, hpc]
  | take hpc =>
    refine .inr ⟨nofun, ?_⟩
    rcases take_cases w with ⟨keyframe, rest, hq, htake⟩ | ⟨hq, -, htake⟩ | ⟨hq, -, htake⟩ <;>
      simp [onTheWay, htake, hpc, hq]
  | evaluate hpc =>
    refine .inr ⟨nofun, ?_⟩
    simp only [onTheWay, hpc]
    split <;> rename_i heq
    · split at heq <;> cases heq
    · rfl
  | block hpc => exact .inr ⟨nofun, by simp only [onTheWay, hpc]⟩
  | wake hpc => exact .inr ⟨nofun, by simp only [onTheWay, hpc]⟩
  | spuriousWake n hpc => exact .inr ⟨nofun, by simp only [onTheWay, hpc]⟩

/-- The conversion keeps the points of the message, and the queue has room for the frame. -/
def Lossless (L : BackendLibs) (s : Pipeline cfg G) : PipelineEvent → Prop
  | .synced frame =>
    frame.cloud.length = frame.width * frame.height ∧
      ((selectKeyframe cfg L.toPoseLibs s.lastEnqueued frame).2.isSome →
        s.worker.keyframeQueue.length < cfg.maxPendingKeyframes)
  | _ => True

/-- A frame with points enough is comparable with the last one that was queued. -/
def MeetsComparable (L : BackendLibs) (s : Pipeline cfg G) : PipelineEvent → Prop
  | .synced frame => 100 ≤ frame.width * frame.height →
    ∀ last ∈ s.lastEnqueued, Comparable cfg L.toPoseLibs last frame.key
  | _ => True

/-- A frame that keeps its points is queued whenever it is recorded. -/
theorem selectKeyframe_cases (P : PoseLibs) {lastEnqueued : Option KeyPose}
    {frame : SyncedFrame} (hcount : frame.cloud.length = frame.width * frame.height) :
    selectKeyframe cfg P lastEnqueued frame = (lastEnqueued, none) ∨
    selectKeyframe cfg P lastEnqueued frame = (some frame.key, some ⟨frame.key, frame.cloud⟩) ∧
      100 ≤ frame.width * frame.height ∧
      ∀ last ∈ lastEnqueued, ¬staysClose cfg P last frame.key = true := by
  unfold selectKeyframe
  split
  · exact .inl rfl
  · rename_i hfar
    split
    · exact .inl rfl
    · rename_i hsize
      right
      rw [if_neg (by rwa [hcount])]
      refine ⟨rfl, not_lt.mp hsize, fun last hlast hclose => hfar ?_⟩
      rw [Option.mem_def.mp hlast]
      exact hclose

/-- The nodes, then what is on its way, are separated one from the next up to the frame
queued last. -/
structure Agree (L : BackendLibs) (s : Pipeline cfg G) : Prop where
  chain : (s.nodes ++ onTheWay s.worker).IsChain (Separated cfg L.toPoseLibs)
  last : (s.nodes ++ onTheWay s.worker).getLast? = s.lastEnqueued

/-- The test of the worker passes the keyframe in its hand. -/
theorem Agree.accepted (h : Agree L s) {keyframe : Pending SelectedKeyframe}
    (hpc : s.worker.pc = .processing keyframe) :
    shouldCreateNode cfg L.toPoseLibs s.nodes keyframe.input.key = true := by
  refine shouldCreateNode_iff.mpr fun last hlast => ?_
  have hchain := h.chain
  simp only [onTheWay, hpc] at hchain
  exact (List.isChain_append.mp hchain).2.2 last hlast _ rfl

/-- Keys and keyframes on their way, one after the other, as before. -/
theorem Agree.of_eq (h : Agree L s)
    (hway : t.nodes ++ onTheWay t.worker = s.nodes ++ onTheWay s.worker)
    (hlast : t.lastEnqueued = s.lastEnqueued) : Agree L t :=
  ⟨hway ▸ h.chain, by rw [hway, hlast, h.last]⟩

theorem agree_step {e : PipelineEvent} (h : Agree L s) (hok : Lossless L s e)
    (hcomparable : MeetsComparable L s e) (hst : pipelineStep L s e = some t) : Agree L t := by
  cases pipelineMove_of_step hst with
  | skipped frame lastEnqueued hsel =>
    rcases selectKeyframe_cases L.toPoseLibs hok.1 with hkept | ⟨hqueued, -⟩
    · rw [hsel] at hkept
      exact h.of_eq rfl (congrArg Prod.fst hkept)
    · cases hsel.symm.trans hqueued
  | queued frame lastEnqueued input worker hsel hworker =>
    have hroom := hok.2 (by rw [hsel]; rfl)
    rcases selectKeyframe_cases L.toPoseLibs hok.1 with hkept | ⟨hqueued, hsize, hfar⟩
    · cases hsel.symm.trans hkept
    · cases hsel.symm.trans hqueued
      have hway : onTheWay worker = onTheWay s.worker ++ [frame.key] := by
        cases move_of_step hworker with
        | enqueue =>
          rw [onTheWay_notify]
          simp [onTheWay, Worker.push, Worker.roomFor, not_le.mpr hroom]
      refine ⟨?_, ?_⟩
      · rw [hway, ← List.append_assoc]
        refine h.chain.append (List.isChain_singleton _) fun last hlast next hnext => ?_
        obtain rfl := Option.some.inj hnext
        rw [h.last] at hlast
        -- comparable frames that are not close are separated
        exact (separated_or_staysClose_iff.mpr (hcomparable hsize last hlast)).resolve_right
          (hfar last hlast)
      · rw [hway, ← List.append_assoc, List.getLast?_append]
        rfl
  | rtk c members hmembers => exact h.of_eq rfl rfl
  | idle t worker hworker hduty =>
    rcases onTheWay_threadStep hworker with ⟨keyframe, hprocess, -⟩ | ⟨-, hway⟩
    · cases hduty.symm.trans hprocess
    · exact h.of_eq (congrArg _ hway) rfl
  | save t worker members hworker hduty hmembers =>
    rcases onTheWay_threadStep hworker with ⟨keyframe, hprocess, -⟩ | ⟨-, hway⟩
    · cases hduty.symm.trans hprocess
    · exact h.of_eq (congrArg _ hway) rfl
  | keyframe t worker input nodes members hworker hduty hprocess =>
    rcases onTheWay_threadStep hworker with ⟨keyframe, htaken, hpc, hway⟩ | ⟨hother, -⟩
    · obtain rfl := WorkerDuty.keyframe.inj (Option.some.inj (hduty.symm.trans htaken))
      have hnodes := processSelected_cases hprocess
      rw [if_pos (h.accepted hpc)] at hnodes
      refine h.of_eq ?_ rfl
      rw [hnodes, hway, List.append_assoc]
      rfl
    · exact absurd hduty (hother input)

theorem agree_of_reach {localCartesian : G.LocalCartesian}
    (h : Reach (pipelineStep L) (fun s e => Lossless L s e ∧ MeetsComparable L s e)
      (Pipeline.start cfg localCartesian) s) : Agree L s :=
  h.invariant ⟨.nil, rfl⟩ fun _ _ hagree hok hst => agree_step hagree hok.1 hok.2 hst

/-- Without an overflow, and with frames that are comparable when they are queued, the worker
passes every keyframe that the callback queued; in every run neighbours in the graph are separated
by distance, angle or time. -/
theorem keyframe_filters_agree (localCartesian : G.LocalCartesian) :
    (∀ s : Pipeline cfg G,
      Reach (pipelineStep L) (fun s e => Lossless L s e ∧ MeetsComparable L s e)
        (Pipeline.start cfg localCartesian) s →
      ∀ keyframe, s.worker.pc = .processing keyframe →
        shouldCreateNode cfg L.toPoseLibs s.nodes keyframe.input.key = true) ∧
    ∀ s : Pipeline cfg G,
      Reach (pipelineStep L) (fun _ _ => True) (Pipeline.start cfg localCartesian) s →
      s.nodes.IsChain (Separated cfg L.toPoseLibs) ∧ NodesOf s.nodes s.members := by
  refine ⟨fun s h keyframe hpc => (agree_of_reach h).accepted hpc, fun s h => ?_⟩
  have hspaced := spaced_of_reach h
  exact ⟨hspaced.chain, hspaced.held⟩

/-! ## Two frames -/

/-- A frame of a hundred points. -/
def SyncedFrame.sample (localPose : LocalPose) (stamp : Stamp) : SyncedFrame :=
  ⟨stamp, localPose, 100, 1, .replicate 100 ⟨0, 0, 0, 0⟩⟩

/-- A frame at the origin, at time 0. -/
def SyncedFrame.first : SyncedFrame := .sample (.pose 1) ⟨0, 0⟩

theorem selectKeyframe_sample (cfg : BackendConfig) (P : PoseLibs) (lastEnqueued : Option KeyPose)
    (localPose : LocalPose) (stamp : Stamp) (hfar : ∀ last ∈ lastEnqueued,
      ¬staysClose cfg P last (SyncedFrame.sample localPose stamp).key = true) :
    selectKeyframe cfg P lastEnqueued (.sample localPose stamp) =
      (some (SyncedFrame.sample localPose stamp).key,
        some ⟨(SyncedFrame.sample localPose stamp).key, .replicate 100 ⟨0, 0, 0, 0⟩⟩) := by
  unfold selectKeyframe
  rw [if_neg, if_neg, if_neg]
  · rfl
  · show ¬(List.replicate 100 _).length < 100
    rw [List.length_replicate]
    decide
  · show ¬100 * 1 < 100
    decide
  · intro hany
    obtain ⟨last, hlast, hclose⟩ := (Option.any_eq_true _ _).mp hany
    exact hfar last hlast hclose

/-- The backend with both frames queued, or with the second one in the hands of the worker. -/
def Pipeline.pair (localPose : LocalPose) (stamp : Stamp)
    (keyframeQueue : List (Pending SelectedKeyframe)) (pc : WorkerPc SelectedKeyframe)
    (nodes : List KeyPose) (members : Option (Optimization {} .flat)) : Pipeline {} .flat where
  lastEnqueued := some (SyncedFrame.sample localPose stamp).key
  worker := { keyframeQueue := keyframeQueue, pc := pc, enqueued := 2 }
  nodes := nodes
  members := members

/-- An entry of the queue with a hundred points. -/
def Pending.sample (key : KeyPose) (seq : ℕ) : Pending SelectedKeyframe :=
  ⟨⟨key, .replicate 100 ⟨0, 0, 0, 0⟩⟩, seq⟩

/-- A second frame that the callback does not turn away comes to the worker after the first one
became a node. -/
theorem second_frame_taken (ok : Pipeline {} .flat → PipelineEvent → Prop) (localPose : LocalPose)
    (stamp : Stamp) (hfirst : ok (.start {} ()) (.synced .first))
    (hsecond : ∀ s : Pipeline {} .flat, s.lastEnqueued = some SyncedFrame.first.key →
      s.worker.keyframeQueue.length = 1 → ok s (.synced (.sample localPose stamp)))
    (hthread : ∀ s t, ok s (.thread t))
    (hfar : ¬staysClose {} BackendLibs.initialValues.toPoseLibs SyncedFrame.first.key
      (SyncedFrame.sample localPose stamp).key = true) :
    ∃ s : Pipeline {} .flat, Reach (pipelineStep .initialValues) ok (.start {} ()) s ∧
      s.nodes = [SyncedFrame.first.key] ∧
      s.worker.pc = .processing (.sample (SyncedFrame.sample localPose stamp).key 1) := by
  have hstart : selectKeyframe {} BackendLibs.initialValues.toPoseLibs none .first =
      (some SyncedFrame.first.key, some ⟨SyncedFrame.first.key, .replicate 100 ⟨0, 0, 0, 0⟩⟩) :=
    selectKeyframe_sample _ _ none _ _ nofun
  have hselect := selectKeyframe_sample {} BackendLibs.initialValues.toPoseLibs
    (some SyncedFrame.first.key) localPose stamp fun last hlast => by
      obtain rfl := Option.some.inj hlast
      exact hfar
  -- the members make the first frame a node
  obtain ⟨b, hb, -⟩ := backendStep_returns holdsKeys_initialValues
    (@lockstep_start {} .flat ()) (.keyframe ⟨SyncedFrame.first.key.2, 1,
      .replicate 100 ⟨0, 0, 0, 0⟩⟩)
  let both : List (Pending SelectedKeyframe) :=
    [.sample SyncedFrame.first.key 0, .sample (SyncedFrame.sample localPose stamp).key 1]
  have hone : Reach (pipelineStep .initialValues) ok (.start {} ())
      { Pipeline.start {} () with
        lastEnqueued := some SyncedFrame.first.key
        worker := { keyframeQueue := [.sample SyncedFrame.first.key 0], enqueued := 1 } } := by
    refine .next (.synced .first) .start hfirst ?_
    simp only [pipelineStep]
    rw [show (Pipeline.start {} () : Pipeline {} .flat).lastEnqueued = none from rfl, hstart]
    rfl
  have htwo : Reach (pipelineStep .initialValues) ok (.start {} ())
      (.pair localPose stamp both .waiting [] (some (.start {} ()))) := by
    refine .next (.synced (.sample localPose stamp)) hone (hsecond _ rfl rfl) ?_
    simp only [pipelineStep]
    rw [hselect]
    rfl
  have htaken : Reach (pipelineStep .initialValues) ok (.start {} ())
      (.pair localPose stamp both.tail (.processing (.sample SyncedFrame.first.key 0)) []
        (some (.start {} ()))) :=
    .next (.thread .take) (.next (.thread .evaluate) htwo (hthread _ _) rfl) (hthread _ _) rfl
  have hnode : Reach (pipelineStep .initialValues) ok (.start {} ())
      (.pair localPose stamp both.tail .saving [SyncedFrame.first.key] (some b)) := by
    refine .next (.thread .process) htaken (hthread _ _) ?_
    have hprocess : processSelected .initialValues
        ⟨SyncedFrame.first.key, .replicate 100 ⟨0, 0, 0, 0⟩⟩ [] (some (.start {} ())) =
          some ([SyncedFrame.first.key], some b) :=
      congrArg (fun members => members.map fun b => ([SyncedFrame.first.key], some b)) hb
    exact congrArg (fun processed => processed.map fun p =>
      (.pair localPose stamp both.tail .saving p.1 p.2 : Pipeline {} .flat)) hprocess
  exact ⟨.pair localPose stamp [] (.processing (.sample (SyncedFrame.sample localPose stamp).key 1))
      [SyncedFrame.first.key] (some b),
    .next (.thread .take) (.next (.thread .evaluate) (.next (.thread .exchange) hnode (hthread _ _)
      rfl) (hthread _ _) rfl) (hthread _ _) rfl, rfl, rfl⟩

theorem lossless_sample {s : Pipeline {} .flat} (localPose : LocalPose) (stamp : Stamp)
    (hroom : s.worker.keyframeQueue.length < 30) :
    Lossless L s (.synced (.sample localPose stamp)) := by
  refine ⟨List.length_replicate, fun _ => hroom⟩

/-- Two seconds later the frame is a keyframe for both tests. -/
theorem keyframe_filters_agree_second :
    ∃ s : Pipeline {} .flat, s.nodes = [SyncedFrame.first.key] ∧
      shouldCreateNode {} BackendLibs.initialValues.toPoseLibs s.nodes
        (SyncedFrame.sample (.pose 1) ⟨2, 0⟩).key = true := by
  have hcomparable : Comparable {} BackendLibs.initialValues.toPoseLibs SyncedFrame.first.key
      (SyncedFrame.sample (.pose 1) ⟨2, 0⟩).key :=
    comparable_pose (Special.number_ne_nan _) (Special.number_ne_nan _) (Special.number_ne_nan _)
  have hlater : Separated {} BackendLibs.initialValues.toPoseLibs SyncedFrame.first.key
      (SyncedFrame.sample (.pose 1) ⟨2, 0⟩).key := by
    refine Or.inr (Or.inr (Special.number_le.mpr ?_))
    decide +kernel
  obtain ⟨s, hreach, hnodes, hpc⟩ := second_frame_taken
    (fun s e => Lossless .initialValues s e ∧ MeetsComparable .initialValues s e) (.pose 1)
    ⟨2, 0⟩ ⟨lossless_sample _ _ (by decide), nofun⟩
    (fun s hlast hlength => ⟨lossless_sample _ _ (hlength.trans_lt (by decide)),
      fun _ last hmem => by
        rw [hlast] at hmem
        obtain rfl := Option.some.inj hmem
        exact hcomparable⟩)
    (fun _ _ => ⟨trivial, trivial⟩) (not_staysClose_of_separated hlater)
  exact ⟨s, hnodes, (keyframe_filters_agree (L := .initialValues) (G := .flat) ()).1 s hreach _ hpc⟩

/-- A pose whose position is not a number. -/
def LocalPose.unknown : LocalPose :=
  .special ⟨fun _ => .nan, fun i => if i.val = 3 then .number 1 else .number 0⟩
    (Or.inl ⟨0, fun _ => nofun⟩)

/-- A tenth of a second later the callback queues a frame of unknown position, since no comparison
turns it away, and the worker discards it, since no comparison passes it. -/
theorem unknown_position_discarded :
    ∃ s : Pipeline {} .flat,
      Reach (pipelineStep .initialValues) (Lossless .initialValues) (.start {} ()) s ∧
      s.nodes = [SyncedFrame.first.key] ∧
      s.worker.pc = .processing (.sample (SyncedFrame.sample .unknown ⟨0, 100000000⟩).key 1) ∧
      shouldCreateNode {} BackendLibs.initialValues.toPoseLibs s.nodes
        (SyncedFrame.sample .unknown ⟨0, 100000000⟩).key = false := by
  have hfar : ¬staysClose {} BackendLibs.initialValues.toPoseLibs SyncedFrame.first.key
      (SyncedFrame.sample .unknown ⟨0, 100000000⟩).key = true := fun hclose =>
    (Special.ne_nan_of_lt (staysClose_iff.mp hclose).1).1 rfl
  obtain ⟨s, hreach, hnodes, hpc⟩ := second_frame_taken (Lossless .initialValues) .unknown
    ⟨0, 100000000⟩ (lossless_sample _ _ (by decide))
    (fun s _ hlength => lossless_sample _ _ (hlength.trans_lt (by decide)))
    (fun _ _ => trivial) hfar
  refine ⟨s, hreach, hnodes, hpc, ?_⟩
  rw [hnodes, Bool.eq_false_iff]
  intro hcreate
  rcases shouldCreateNode_iff.mp hcreate _ rfl with hdistance | hangle | htime
  · exact hdistance
  · have hle : (0.1 : ℝ) ≤ 0 := Special.number_le.mp hangle
    norm_num at hle
  · have hle := Special.number_le.mp htime
    revert hle
    decide +kernel

end

end FastLivo.Backend
