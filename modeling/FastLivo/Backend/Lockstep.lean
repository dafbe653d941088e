import FastLivo.Backend.Graph
import FastLivo.Lib.OptionList

/-!
# The containers of the backend in lockstep

Between keyframes all containers have one entry a node, the smoother holds one pose a
node, and every factor ties nodes that exist. So no access of the backend is out of range.
-/

namespace FastLivo.Backend

open Lib Esikf Frontend Matrix

/-! ## Shape of the graph -/

/-- Key of a prior. -/
def Factor.priorKey : Factor → Option Nat
  | .prior key _ _ => some key
  | _ => none

/-- Keys of a between factor. -/
def Factor.betweenKeys : Factor → Option (Nat × Nat)
  | .between key₁ key₂ _ _ => some (key₁, key₂)
  | _ => none

/-- Keys of a factor of an RTK observation. -/
def Factor.rtkKeys : Factor → Option (List Nat)
  | .antennaPosition key _ _ _ => some [key]
  | .antennaVelocity previousKey currentKey _ _ _ _ => some [previousKey, currentKey]
  | .heading key _ _ => some [key]
  | _ => none

/-- Between factors of neighbours. -/
def odometryKeys (factors : List Factor) : List (Nat × Nat) :=
  (factors.filterMap Factor.betweenKeys).filter fun k => k.1 + 1 == k.2

/-- Between factors of other nodes. -/
def loopKeys (factors : List Factor) : List (Nat × Nat) :=
  (factors.filterMap Factor.betweenKeys).filter fun k => k.1 + 1 != k.2

/-- The keys of an RTK factor of node `i`. -/
def RtkKeysOf (i : Nat) (keys : List Nat) : Prop := keys = [i] ∨ 0 < i ∧ keys = [i - 1, i]

/-- A graph over `n` nodes whose loops exclude the last `exclude` nodes. -/
structure GraphShape (exclude n : Nat) (factors : List Factor) : Prop where
  prior : factors.filterMap Factor.priorKey = if n = 0 then [] else [0]
  odometry : odometryKeys factors = (List.range (n - 1)).map fun i => (i, i + 1)
  loops : ∀ k ∈ loopKeys factors, k.1 + exclude < k.2 + 1 ∧ k.1 < k.2 ∧ k.2 < n
  rtk : ∀ keys ∈ factors.filterMap Factor.rtkKeys, ∃ i < n, RtkKeysOf i keys

/-- The factors that come with node `n`. -/
structure NodeFactors (exclude n : Nat) (factors : List Factor) : Prop where
  prior : factors.filterMap Factor.priorKey = if n = 0 then [0] else []
  odometry : odometryKeys factors = if n = 0 then [] else [(n - 1, n)]
  loops : ∀ k ∈ loopKeys factors, k.1 + exclude < n ∧ k.2 = n
  rtk : ∀ keys ∈ factors.filterMap Factor.rtkKeys, RtkKeysOf n keys

theorem GraphShape.empty (exclude : Nat) : GraphShape exclude 0 [] :=
  ⟨rfl, rfl, by simp [loopKeys], by simp⟩

theorem GraphShape.append {exclude n : Nat} {factors new : List Factor}
    (h : GraphShape exclude n factors) (hnew : NodeFactors exclude n new) :
    GraphShape exclude (n + 1) (factors ++ new) where
  prior := by
    rw [List.filterMap_append, h.prior, hnew.prior]
    split <;> rfl
  odometry := by
    have happ : odometryKeys (factors ++ new) = odometryKeys factors ++ odometryKeys new := by
      simp [odometryKeys]
    rw [happ, h.odometry, hnew.odometry, Nat.add_sub_cancel]
    cases n with
    | zero => rfl
    | succ n => simp [List.range_succ]
  loops k hk := by
    rw [loopKeys, List.filterMap_append, List.filter_append, List.mem_append] at hk
    rcases hk with hk | hk
    · obtain ⟨hfar, hlt, hn⟩ := h.loops k hk
      exact ⟨hfar, hlt, by omega⟩
    · obtain ⟨hfar, hn⟩ := hnew.loops k hk
      omega
  rtk keys hkeys := by
    rw [List.filterMap_append, List.mem_append] at hkeys
    rcases hkeys with hkeys | hkeys
    · obtain ⟨i, hi, hkeys⟩ := h.rtk keys hkeys
      exact ⟨i, by omega, hkeys⟩
    · exact ⟨n, by omega, hnew.rtk keys hkeys⟩

/-! ## Lockstep -/

/-- The estimate of the smoother holds exactly the keys inserted. -/
def BackendLibs.HoldsKeys (L : BackendLibs) : Prop :=
  ∀ isam key, key ∈ (L.calculateEstimate isam).map Prod.fst ↔ key ∈ insertedKeys isam

variable {cfg : BackendConfig} {G : Geodesy} {L : BackendLibs} {b : Optimization cfg G}

/-- Number of nodes. -/
def Optimization.nodes (b : Optimization cfg G) : Nat := b.localKeyposes.length

/-- What holds between keyframes. -/
structure Lockstep (b : Optimization cfg G) : Prop where
  clouds : b.keyframeClouds.length = b.nodes
  stamps : b.keyframeStamps.length = b.nodes
  rtk : b.keyframeRtk.length = b.nodes
  contexts : b.scanContextDatabase.length = b.nodes
  keys : insertedKeys b.isam = List.range b.nodes
  graph : GraphShape cfg.scExcludeRecent b.nodes (graphFactors b.isam)
  edges : ∀ e ∈ b.loopEdges, e.1 < e.2 ∧ e.2 < b.nodes
  estimate : ∀ key, key ∈ b.latestEstimate.map Prod.fst ↔ key < b.nodes

theorem at_eq_some {key : Nat} (h : key ∈ b.latestEstimate.map Prod.fst) :
    ∃ pose, b.at key = some pose := by
  obtain ⟨p, hp, rfl⟩ := List.mem_map.mp h
  exact lookup_of_mem hp

theorem Lockstep.at (h : Lockstep b) {key : Nat} (hkey : key < b.nodes) :
    ∃ pose, b.at key = some pose :=
  at_eq_some ((h.estimate key).mpr hkey)

/-! ## Factors of a new node -/

/-- A factor of an RTK observation of node `n`. -/
def IsRtkOf (n : Nat) (f : Factor) : Prop := ∃ keys, f.rtkKeys = some keys ∧ RtkKeysOf n keys

theorem IsRtkOf.priorKey {n : Nat} {f : Factor} (h : IsRtkOf n f) : f.priorKey = none := by
  obtain ⟨keys, hkeys, -⟩ := h
  cases f <;> simp_all [Factor.rtkKeys, Factor.priorKey]

theorem IsRtkOf.betweenKeys {n : Nat} {f : Factor} (h : IsRtkOf n f) : f.betweenKeys = none := by
  obtain ⟨keys, hkeys, -⟩ := h
  cases f <;> simp_all [Factor.rtkKeys, Factor.betweenKeys]

/-- A prior on the first node, an odometry factor on a later one. -/
inductive IsPoseOf : Nat → Factor → Prop
  | prior (pose : Pose3) (noise : NoiseModel) : IsPoseOf 0 (.prior 0 pose noise)
  | between (n : Nat) (measured : Pose3) (noise : NoiseModel) :
      IsPoseOf (n + 1) (.between n (n + 1) measured noise)

theorem nodeFactors_of_parts {n : Nat} {pose : Factor} (hpose : IsPoseOf n pose)
    {rtk : List Factor} (hrtk : ∀ f ∈ rtk, IsRtkOf n f) {loop : Option (Nat × Pose3)}
    (hloop : ∀ l, loop = some l → l.1 + cfg.scExcludeRecent < n) :
    NodeFactors cfg.scExcludeRecent n (pose :: rtk ++ (loop.map (loopFactor cfg n)).toList) := by
  have hprior : rtk.filterMap Factor.priorKey = [] :=
    List.filterMap_eq_nil_iff.mpr fun f hf => (hrtk f hf).priorKey
  have hbetween : rtk.filterMap Factor.betweenKeys = [] :=
    List.filterMap_eq_nil_iff.mpr fun f hf => (hrtk f hf).betweenKeys
  have hloopBetween : ((loop.map (loopFactor cfg n)).toList.filterMap Factor.betweenKeys) =
      (loop.map fun l => (l.1, n)).toList := by
    cases loop <;> rfl
  have hloopPrior : (loop.map (loopFactor cfg n)).toList.filterMap Factor.priorKey = [] := by
    cases loop <;> rfl
  have hloopRtk : (loop.map (loopFactor cfg n)).toList.filterMap Factor.rtkKeys = [] := by
    cases loop <;> rfl
  -- A loop never ties neighbours: at least one node is excluded.
  have hfar : ∀ l, loop = some l → l.1 + 1 ≠ n := fun l hl => by
    have hexclude := scExcludeRecent_pos cfg
    have hloop := hloop l hl
    omega
  refine ⟨?_, ?_, fun k hk => ?_, fun keys hkeys => ?_⟩
  · rw [List.filterMap_append, List.filterMap_cons, hprior, hloopPrior]
    cases hpose <;> rfl
  · rw [odometryKeys, List.filterMap_append, List.filterMap_cons, hbetween, hloopBetween]
    cases hpose <;> cases loop <;> simp_all [Factor.betweenKeys]
  · rw [loopKeys, List.filterMap_append, List.filterMap_cons, hbetween, hloopBetween] at hk
    have hmem : k ∈ (loop.map fun l => (l.1, n)).toList := by
      cases hpose with
      | prior => simpa [Factor.betweenKeys] using (List.mem_filter.mp hk).1
      | between =>
        obtain ⟨hk, hne⟩ := List.mem_filter.mp hk
        simp only [Factor.betweenKeys] at hk
        rcases List.mem_append.mp hk with hk | hk
        · simp at hk
          simp [hk] at hne
        · exact hk
    obtain ⟨l, hl, rfl⟩ := Option.map_eq_some_iff.mp (Option.mem_toList.mp hmem)
    exact ⟨hloop l hl, rfl⟩
  · rw [List.filterMap_append, hloopRtk, List.append_nil] at hkeys
    obtain ⟨f, hf, hfkeys⟩ := List.mem_filterMap.mp hkeys
    rcases List.mem_cons.mp hf with rfl | hf
    · cases hpose <;> cases hfkeys
    · obtain ⟨keys', hkeys', hof⟩ := hrtk f hf
      rwa [← Option.some.inj (hkeys'.symm.trans hfkeys)]

/-! ## Accesses -/

theorem Lockstep.getLast {α : Type} {l : List α} (hlen : l.length = b.nodes) (hn : b.nodes ≠ 0) :
    ∃ a, l.getLast? = some a :=
  getLast?_of_ne_nil fun hnil => hn (by rw [← hlen, hnil, List.length_nil])

theorem getElem_of_lt {α : Type} {l : List α} (hlen : l.length = b.nodes) {i : Nat}
    (hi : i < b.nodes) : ∃ a, l[i]? = some a :=
  ⟨_, List.getElem?_eq_getElem (hlen ▸ hi)⟩

theorem shouldCreateKeyframe_returns (h : Lockstep b) (pose : Pose3) (stamp : Double) :
    ∃ create, shouldCreateKeyframe L b pose stamp = some create := by
  unfold shouldCreateKeyframe
  split
  · exact ⟨_, rfl⟩
  · rename_i hne
    have hn : b.nodes ≠ 0 := fun hn => hne (List.isEmpty_iff_length_eq_zero.mpr hn)
    obtain ⟨last, hlast⟩ := Lockstep.getLast (l := b.localKeyposes) rfl hn
    obtain ⟨lastStamp, hstamp⟩ := Lockstep.getLast h.stamps hn
    exact ⟨_, by rw [hlast, hstamp]; rfl⟩

theorem poseFactor_returns (h : Lockstep b) (input : BackendKeyframeInput)
    (rtk : Option GlobalRtkObservation) :
    ∃ f pose, poseFactor b input b.nodes rtk = some (f, pose) ∧ IsPoseOf b.nodes f := by
  unfold poseFactor
  cases hn : b.nodes with
  | zero => exact ⟨_, _, rfl, .prior _ _⟩
  | succ n =>
    have hne : b.nodes ≠ 0 := by omega
    obtain ⟨last, hlast⟩ := Lockstep.getLast (l := b.localKeyposes) rfl hne
    obtain ⟨previous, hprevious⟩ := h.at (show n < b.nodes by omega)
    rw [if_neg (Nat.succ_ne_zero n), hlast, Nat.add_sub_cancel, hprevious]
    exact ⟨_, _, rfl, .between _ _ _⟩

theorem velocityFactor_returns (h : Lockstep b) (input : BackendKeyframeInput)
    (m : GlobalRtkObservation) :
    ∃ fs, velocityFactor b input b.nodes m = some fs ∧ ∀ f ∈ fs, IsRtkOf b.nodes f := by
  unfold velocityFactor
  split
  · exact ⟨[], rfl, by simp⟩
  · rename_i hcond
    have hn : b.nodes ≠ 0 := fun hn => hcond (Or.inl hn)
    obtain ⟨lastRtk, hrtk⟩ := Lockstep.getLast h.rtk hn
    obtain ⟨lastStamp, hstamp⟩ := Lockstep.getLast h.stamps hn
    rw [hrtk, hstamp]
    cases lastRtk with
    | none => exact ⟨[], rfl, by simp⟩
    | some last =>
      simp only [Option.bind_eq_bind, Option.bind_some]
      split
      · exact ⟨[], rfl, by simp⟩
      · split
        · exact ⟨[], rfl, by simp⟩
        · refine ⟨_, rfl, fun f hf => ?_⟩
          obtain rfl := List.mem_singleton.mp hf
          exact ⟨_, rfl, Or.inr ⟨Nat.pos_of_ne_zero hn, rfl⟩⟩

theorem rtkFactors_returns (h : Lockstep b) (input : BackendKeyframeInput)
    (rtk : Option GlobalRtkObservation) :
    ∃ fs, rtkFactors b input b.nodes rtk = some fs ∧ ∀ f ∈ fs, IsRtkOf b.nodes f := by
  cases rtk with
  | none => exact ⟨[], rfl, by simp⟩
  | some m =>
    obtain ⟨velocity, hvelocity, hof⟩ := velocityFactor_returns h input m
    unfold rtkFactors
    simp only [hvelocity, Option.bind_eq_bind, Option.bind_some]
    refine ⟨_, rfl, fun f hf => ?_⟩
    rcases List.mem_append.mp hf with hf | hf
    · rcases List.mem_cons.mp hf with rfl | hf
      · exact ⟨_, rfl, Or.inl rfl⟩
      · exact hof f hf
    · split at hf
      · obtain rfl := List.mem_singleton.mp hf
        exact ⟨_, rfl, Or.inl rfl⟩
      · cases hf

/-- The candidates of the ring search are the nodes below the limit. -/
theorem ringCandidates_returns (h : Lockstep b) (query : ScanContextEntry cfg) {limit : Nat}
    (hlimit : limit ≤ b.nodes) :
    ∃ ring, ringCandidates b query limit = some ring ∧ ∀ c ∈ ring, c.2 < limit := by
  refine mapM_eq_some fun i hi => ?_
  have hi := List.mem_range.mp hi
  obtain ⟨entry, hentry⟩ := getElem_of_lt h.contexts (hi.trans_le hlimit)
  exact ⟨_, by rw [hentry]; rfl, hi⟩

theorem bestOfShortlist_returns (h : Lockstep b) (query : ScanContextEntry cfg) {limit : Nat}
    (hlimit : limit ≤ b.nodes) {shortlist : List (ℝ × Nat)}
    (hshort : ∀ c ∈ shortlist, c.2 < limit) :
    ∃ best, bestOfShortlist b query shortlist = some best ∧ ∀ c ∈ best, c.1 < limit := by
  refine foldlM_eq_some (P := fun best : Option (Nat × ℝ) => ∀ c ∈ best, c.1 < limit)
    (fun candidate hc best hbest => ?_) (by simp)
  have hlt := hshort candidate hc
  obtain ⟨entry, hentry⟩ := getElem_of_lt h.contexts (hlt.trans_le hlimit)
  simp only [hentry, Option.bind_eq_bind, Option.bind_some]
  split
  · refine ⟨_, rfl, fun c hc => ?_⟩
    obtain rfl := Option.some.inj hc
    exact hlt
  · exact ⟨best, rfl, hbest⟩

theorem detectLoopCandidate_returns (h : Lockstep b) (query : ScanContextEntry cfg) :
    ∃ candidate, detectLoopCandidate L b query b.nodes = some candidate ∧
      ∀ c, candidate = some c → c + cfg.scExcludeRecent < b.nodes := by
  unfold detectLoopCandidate
  split
  · exact ⟨none, rfl, by simp⟩
  · rename_i hfew
    obtain ⟨ring, hring, hlt⟩ := ringCandidates_returns h query
      (Nat.sub_le b.nodes cfg.scExcludeRecent)
    have hshort : ∀ c ∈ (L.partialSort (min 10 ring.length) ring).take (min 10 ring.length),
        c.2 < b.nodes - cfg.scExcludeRecent := fun c hc =>
      hlt c ((L.partialSort_perm _ ring).mem_iff.mp (List.mem_of_mem_take hc))
    obtain ⟨best, hbest, hin⟩ := bestOfShortlist_returns h query (Nat.sub_le _ _) hshort
    simp only [hring, hbest, Option.bind_eq_bind, Option.bind_some]
    refine ⟨_, rfl, fun c hc => ?_⟩
    obtain ⟨p, hp, rfl⟩ := Option.map_eq_some_iff.mp hc
    have := hin p (Option.filter_eq_some_iff.mp hp).1
    omega

theorem verifyLoopWithGicp_returns (h : Lockstep b) {candidate : Nat} (hc : candidate < b.nodes)
    (input : BackendKeyframeInput) :
    ∃ relative, verifyLoopWithGicp L b candidate input = some relative := by
  obtain ⟨cloud, hcloud⟩ := getElem_of_lt h.clouds hc
  obtain ⟨pose, hpose⟩ := getElem_of_lt (l := b.localKeyposes) rfl hc
  unfold verifyLoopWithGicp
  rw [if_neg (by rw [h.clouds]; omega), hcloud, hpose]
  simp only [Option.bind_eq_bind, Option.bind_some]
  split
  · exact ⟨_, rfl⟩
  · split
    · exact ⟨_, rfl⟩
    · exact ⟨_, rfl⟩

theorem acceptedLoop_returns (h : Lockstep b) (query : ScanContextEntry cfg)
    (input : BackendKeyframeInput) :
    ∃ loop, acceptedLoop L b query b.nodes input = some loop ∧
      ∀ l, loop = some l → l.1 + cfg.scExcludeRecent < b.nodes := by
  unfold acceptedLoop
  split
  · exact ⟨none, rfl, by simp⟩
  · obtain ⟨candidate, hcandidate, hfar⟩ := detectLoopCandidate_returns (L := L) h query
    simp only [hcandidate, Option.bind_eq_bind, Option.bind_some]
    cases candidate with
    | none => exact ⟨none, rfl, by simp⟩
    | some c =>
      have hc := hfar c rfl
      obtain ⟨relative, hrelative⟩ :=
        verifyLoopWithGicp_returns (L := L) h (show c < b.nodes by omega) input
      simp only [hrelative, Option.bind_some]
      refine ⟨_, rfl, fun l hl => ?_⟩
      obtain ⟨pose, -, rfl⟩ := Option.map_eq_some_iff.mp hl
      exact hc

/-! ## Processing keeps lockstep -/

/-- Neither the RTK buffer nor the correction nor what is published counts. -/
theorem Lockstep.withRtk (h : Lockstep b) (rtk : RtkBuffer G) : Lockstep { b with rtk := rtk } :=
  ⟨h.clouds, h.stamps, h.rtk, h.contexts, h.keys, h.graph, h.edges, h.estimate⟩

theorem Lockstep.updateGlobalCorrection (h : Lockstep b) (latestLocalPose latestGlobalPose : Pose3) :
    Lockstep (updateGlobalCorrection latestLocalPose latestGlobalPose b) :=
  ⟨h.clouds, h.stamps, h.rtk, h.contexts, h.keys, h.graph, h.edges, h.estimate⟩

/-- The empty updates after a loop add nothing to the graph. -/
theorem addNode_isam (input : BackendKeyframeInput) (rtk : Option GlobalRtkObservation)
    (query : ScanContextEntry cfg) (loop : Option (Nat × Pose3)) (newFactors : List Factor)
    (pose : Pose3) :
    insertedKeys (addNode L input rtk query loop newFactors pose b).isam =
        insertedKeys b.isam ++ [b.nodes] ∧
      graphFactors (addNode L input rtk query loop newFactors pose b).isam =
        graphFactors b.isam ++ newFactors := by
  unfold addNode insertedKeys graphFactors Optimization.nodes
  cases loop <;> simp

theorem addNode_nodes (input : BackendKeyframeInput) (rtk : Option GlobalRtkObservation)
    (query : ScanContextEntry cfg) (loop : Option (Nat × Pose3)) (newFactors : List Factor)
    (pose : Pose3) : (addNode L input rtk query loop newFactors pose b).nodes = b.nodes + 1 :=
  List.length_append

theorem Lockstep.addNode (hL : L.HoldsKeys) (h : Lockstep b) (input : BackendKeyframeInput)
    (rtk : Option GlobalRtkObservation) (query : ScanContextEntry cfg)
    {loop : Option (Nat × Pose3)} (hloop : ∀ l, loop = some l → l.1 + cfg.scExcludeRecent < b.nodes)
    {newFactors : List Factor} (hnew : NodeFactors cfg.scExcludeRecent b.nodes newFactors)
    (pose : Pose3) : Lockstep (addNode L input rtk query loop newFactors pose b) := by
  obtain ⟨hkeys, hgraph⟩ := addNode_isam (L := L) (b := b) input rtk query loop newFactors pose
  have hnodes := addNode_nodes (L := L) (b := b) input rtk query loop newFactors pose
  rw [h.keys, ← List.range_succ, Nat.succ_eq_add_one, ← hnodes] at hkeys
  have hestimate : ∀ key,
      key ∈ (Backend.addNode L input rtk query loop newFactors pose b).latestEstimate.map Prod.fst ↔
        key < (Backend.addNode L input rtk query loop newFactors pose b).nodes := fun key => by
    rw [← List.mem_range, ← hkeys]
    exact hL _ key
  refine ⟨?_, ?_, ?_, ?_, hkeys, ?_, fun e he => ?_, hestimate⟩
  · rw [hnodes, ← h.clouds]
    exact List.length_append
  · rw [hnodes, ← h.stamps]
    exact List.length_append
  · rw [hnodes, ← h.rtk]
    exact List.length_append
  · rw [hnodes, ← h.contexts]
    exact List.length_append
  · rw [hgraph, hnodes]
    exact h.graph.append hnew
  · rw [hnodes]
    rcases List.mem_append.mp he with he | he
    · obtain ⟨hlt, hn⟩ := h.edges e he
      exact ⟨hlt, by omega⟩
    · obtain ⟨l, hl, rfl⟩ := Option.map_eq_some_iff.mp (Option.mem_toList.mp he)
      have hfar := hloop l hl
      exact ⟨show l.1 < b.nodes by omega, Nat.lt_succ_self b.nodes⟩

/-- The new node has an estimate. -/
theorem addNode_at {input : BackendKeyframeInput} {rtk : Option GlobalRtkObservation}
    {query : ScanContextEntry cfg} {loop : Option (Nat × Pose3)} {newFactors : List Factor}
    {pose : Pose3} (h : Lockstep (addNode L input rtk query loop newFactors pose b)) :
    ∃ estimate, (addNode L input rtk query loop newFactors pose b).at b.nodes = some estimate :=
  h.at (by
    rw [addNode_nodes]
    exact Nat.lt_succ_self b.nodes)

/-- Every pose and stamp that is published exists. -/
theorem backendMessages_returns (h : Lockstep b) : ∃ messages, backendMessages b = some messages := by
  obtain ⟨path, hpath, -⟩ := mapM_eq_some (P := fun _ => True)
    (f := fun index => do
      let pose ← b.at index
      let stamp ← b.keyframeStamps[index]?
      return (stamp, pose)) (l := List.range b.localKeyposes.length) fun index hindex => by
    have hindex := List.mem_range.mp hindex
    obtain ⟨pose, hpose⟩ := h.at hindex
    obtain ⟨stamp, hstamp⟩ := getElem_of_lt h.stamps hindex
    exact ⟨_, by rw [hpose, hstamp]; rfl, trivial⟩
  obtain ⟨lines, hlines, -⟩ := mapM_eq_some (P := fun _ => True)
    (f := fun edge => do
      let first ← b.at edge.1
      let second ← b.at edge.2
      return (first.translation, second.translation)) (l := b.loopEdges) fun edge hedge => by
    obtain ⟨hlt, hn⟩ := h.edges edge hedge
    obtain ⟨first, hfirst⟩ := h.at (hlt.trans hn)
    obtain ⟨second, hsecond⟩ := h.at hn
    exact ⟨_, by rw [hfirst, hsecond]; rfl, trivial⟩
  exact ⟨_, by rw [backendMessages, hpath, Option.bind_eq_bind, Option.bind_some, hlines]; rfl⟩

theorem publishBackendState_returns (h : Lockstep b) :
    ∃ b', publishBackendState b = some b' ∧ Lockstep b' := by
  unfold publishBackendState
  split
  · exact ⟨b, rfl, h⟩
  · obtain ⟨messages, hmessages⟩ := backendMessages_returns h
    rw [hmessages]
    exact ⟨_, rfl, h.clouds, h.stamps, h.rtk, h.contexts, h.keys, h.graph, h.edges, h.estimate⟩

theorem createNode_returns (hL : L.HoldsKeys) (h : Lockstep b) (input : BackendKeyframeInput) :
    ∃ b', createNode L input b = some b' ∧ Lockstep b' := by
  unfold createNode
  generalize (if cfg.gpsEnabled then findNearestRtk cfg.rtk input.stamp b.rtk
    else (none, b.rtk)) = found
  obtain ⟨rtk, buffer⟩ := found
  have h := h.withRtk buffer
  obtain ⟨pose, initialGlobalPose, hpose, hposeOf⟩ := poseFactor_returns h input rtk
  obtain ⟨rtkFactors, hrtkFactors, hrtkOf⟩ := rtkFactors_returns h input rtk
  obtain ⟨loop, hloop, hfar⟩ := acceptedLoop_returns (L := L) h (makeScanContext cfg input.cloud) input
  have hnew := nodeFactors_of_parts hposeOf hrtkOf hfar
  have hnode := h.addNode hL input rtk (makeScanContext cfg input.cloud) hfar hnew initialGlobalPose
  obtain ⟨optimizedPose, hoptimized⟩ := addNode_at hnode
  obtain ⟨b', hb', hlock⟩ := publishBackendState_returns
    (hnode.updateGlobalCorrection input.localPose optimizedPose)
  refine ⟨b', ?_, hlock⟩
  simp only [Optimization.nodes] at hpose hrtkFactors hloop hoptimized hb'
  simp only [hpose, hrtkFactors, hloop, Option.bind_eq_bind, Option.bind_some, hoptimized]
  exact hb'

/-- A node more: an entry in each container, and an edge for a loop. -/
structure NodeAdded (input : BackendKeyframeInput) (rtk : Option GlobalRtkObservation)
    (loop : Option (Nat × Pose3)) (b b' : Optimization cfg G) : Prop where
  poses : b'.localKeyposes = b.localKeyposes ++ [input.localPose]
  clouds : b'.keyframeClouds = b.keyframeClouds ++ [input.cloud]
  stamps : b'.keyframeStamps = b.keyframeStamps ++ [input.stamp]
  rtk : b'.keyframeRtk = b.keyframeRtk ++ [rtk]
  contexts : b'.scanContextDatabase = b.scanContextDatabase ++ [makeScanContext cfg input.cloud]
  edges : b'.loopEdges = b.loopEdges ++ (loop.map fun l => (l.1, b.localKeyposes.length)).toList

/-- The node of a keyframe has the observation that was found for it and the loop that was
accepted. -/
theorem createNode_added {input : BackendKeyframeInput} {b' : Optimization cfg G}
    (h : createNode L input b = some b') :
    ∃ loop, acceptedLoop L b (makeScanContext cfg input.cloud) b.localKeyposes.length input =
        some loop ∧
      NodeAdded input (if cfg.gpsEnabled then findNearestRtk cfg.rtk input.stamp b.rtk
        else (none, b.rtk)).1 loop b b' := by
  unfold createNode at h
  generalize (if cfg.gpsEnabled then findNearestRtk cfg.rtk input.stamp b.rtk
    else (none, b.rtk)) = found at h ⊢
  obtain ⟨pose, -, h⟩ := Option.bind_eq_some_iff.mp h
  obtain ⟨rtkFactors, -, h⟩ := Option.bind_eq_some_iff.mp h
  obtain ⟨loop, hloop, h⟩ := Option.bind_eq_some_iff.mp h
  obtain ⟨optimizedPose, -, h⟩ := Option.bind_eq_some_iff.mp h
  refine ⟨loop, hloop, ?_⟩
  unfold publishBackendState at h
  split at h
  · obtain rfl := Option.some.inj h
    exact ⟨rfl, rfl, rfl, rfl, rfl, rfl⟩
  · obtain ⟨messages, -, rfl⟩ := Option.map_eq_some_iff.mp h
    exact ⟨rfl, rfl, rfl, rfl, rfl, rfl⟩

theorem processKeyframe_returns (hL : L.HoldsKeys) (h : Lockstep b) (input : BackendKeyframeInput) :
    ∃ b', processKeyframe L input b = some b' ∧ Lockstep b' := by
  obtain ⟨create, hcreate⟩ := shouldCreateKeyframe_returns (L := L) h input.localPose input.stamp
  obtain ⟨b', hb', hlock⟩ := createNode_returns hL h input
  unfold processKeyframe
  rw [hcreate, Option.bind_eq_bind, Option.bind_some]
  cases create with
  | true => exact ⟨b', hb', hlock⟩
  | false => exact ⟨b, rfl, h⟩

theorem reconstructFinalMap_returns (hL : L.HoldsKeys) (h : Lockstep b) :
    ∃ b', reconstructFinalMap L b = some b' ∧ Lockstep b' := by
  unfold reconstructFinalMap
  split
  · exact ⟨b, rfl, h⟩
  · have h : Lockstep { b with latestEstimate := L.calculateEstimate b.isam } :=
      ⟨h.clouds, h.stamps, h.rtk, h.contexts, h.keys, h.graph, h.edges, fun key => by
        rw [hL, h.keys]
        exact List.mem_range⟩
    obtain ⟨frames, hframes, -⟩ := mapM_eq_some (P := fun _ => True)
      (f := fun index => do
        let pose ← ({ b with latestEstimate := L.calculateEstimate b.isam } : Optimization cfg G).at index
        let cloud ← b.keyframeClouds[index]?
        let stamp ← b.keyframeStamps[index]?
        return (stamp, pose, L.transformPointCloud cloud pose))
      (l := List.range b.keyframeClouds.length) fun index hindex => by
        have hindex : index < b.nodes := (List.mem_range.mp hindex).trans_eq h.clouds
        obtain ⟨pose, hpose⟩ := h.at hindex
        obtain ⟨cloud, hcloud⟩ := getElem_of_lt h.clouds hindex
        obtain ⟨stamp, hstamp⟩ := getElem_of_lt h.stamps hindex
        exact ⟨_, by rw [hpose, hcloud, hstamp]; rfl, trivial⟩
    dsimp only
    rw [hframes]
    exact ⟨_, rfl, h.clouds, h.stamps, h.rtk, h.contexts, h.keys, h.graph, h.edges, h.estimate⟩

/-! ## Runs -/

/-- What touches the members of the worker: a call of an RTK handler, a keyframe from the
queue, or a save request. -/
inductive BackendEvent
  | rtk (c : RtkCall)
  | keyframe (input : BackendKeyframeInput)
  | save

noncomputable def backendStep (L : BackendLibs) (b : Optimization cfg G) :
    BackendEvent → Option (Optimization cfg G)
  | .rtk c => some { b with rtk := c.apply cfg.rtk b.rtk }
  | .keyframe input => processKeyframe L input b
  | .save => reconstructFinalMap L b

/-- After the constructor. -/
def Optimization.start (cfg : BackendConfig) (localCartesian : G.LocalCartesian) : Optimization cfg G :=
  { rtk := { localCartesian := localCartesian } }

theorem lockstep_start (localCartesian : G.LocalCartesian) :
    Lockstep (Optimization.start cfg localCartesian) :=
  ⟨rfl, rfl, rfl, rfl, rfl, .empty _, by simp [Optimization.start], by simp [Optimization.start,
    Optimization.nodes]⟩

theorem backendStep_returns (hL : L.HoldsKeys) (h : Lockstep b) (e : BackendEvent) :
    ∃ b', backendStep L b e = some b' ∧ Lockstep b' := by
  cases e with
  | rtk c => exact ⟨_, rfl, h.withRtk _⟩
  | keyframe input => exact processKeyframe_returns hL h input
  | save => exact reconstructFinalMap_returns hL h

/-- Between keyframes the containers are in lockstep, and no event makes an access out of range. -/
theorem backend_lockstep (hL : L.HoldsKeys) (localCartesian : G.LocalCartesian)
    (h : Reach (backendStep L) (fun _ _ => True) (Optimization.start cfg localCartesian) b) :
    Lockstep b ∧ ∀ e, (backendStep L b e).isSome := by
  have hlock : Lockstep b := h.invariant (lockstep_start localCartesian)
    fun e _ hlock _ hst => by
      obtain ⟨b', hb', hlock'⟩ := backendStep_returns hL hlock e
      rwa [← Option.some.inj (hb'.symm.trans hst)]
  refine ⟨hlock, fun e => ?_⟩
  obtain ⟨b', hb', -⟩ := backendStep_returns hL hlock e
  exact Option.isSome_iff_exists.mpr ⟨b', hb'⟩

/-- A point moved by a pose. -/
def PointXYZRGB.transform (pose : Pose3) (p : PointXYZRGB) : PointXYZRGB :=
  let q := pose.rotation.matrix *ᵥ ![p.x, p.y, p.z] + pose.translation
  ⟨xCoord q, yCoord q, zCoord q, p.rgb⟩

/-- A smoother that returns the initial values, and alignments that never converge. The special
poses are those of an unknown position without a turn. -/
noncomputable def BackendLibs.initialValues : BackendLibs where
  logmap R := logRot R.matrix
  specialMotion _ _ := (.nan, .number 0)
  calculateEstimate isam := isam.flatMap IsamUpdate.newValues
  partialSort _ l := l.mergeSort fun a b => decide (a.1 ≤ b.1)
  gicpVoxelGrid cloud := cloud
  mapVoxelGrid cloud := cloud
  gicpAlign _ _ guess := ⟨false, none, guess⟩
  transformPointCloud cloud pose := cloud.map (PointXYZRGB.transform pose)
  partialSort_perm _ l := List.mergeSort_perm l _

theorem holdsKeys_initialValues : BackendLibs.initialValues.HoldsKeys := fun isam key => by
  rw [insertedKeys, BackendLibs.initialValues, List.map_flatMap]

/-! ## A loop -/

/-- The smoother of `initialValues`, and alignments that converge at once. -/
noncomputable def BackendLibs.converging : BackendLibs :=
  { BackendLibs.initialValues with gicpAlign := fun _ _ guess => ⟨true, some 0, guess⟩ }

/-- Only the node before is too recent for a loop, and every place is similar enough. -/
noncomputable def BackendConfig.closing : BackendConfig :=
  { scExcludeRecentParam := 1, scDistanceThreshold := 2.0 }

/-- A keyframe of a hundred points at the origin. -/
def BackendKeyframeInput.atOrigin (stamp : Double) : BackendKeyframeInput :=
  ⟨stamp, 1, .replicate 100 ⟨0, 0, 0, 0⟩⟩

theorem scanContextDistance_le_one {rings sectors : ℕ}
    (query candidate : Matrix (Fin rings) (Fin sectors) ℝ) :
    scanContextDistance query candidate ≤ 1 := by
  unfold scanContextDistance
  generalize List.range sectors = shifts
  suffices hall : ∀ best : ℝ, best ≤ 1 → shifts.foldl (fun best shift =>
      if (cosineSum query candidate shift).2 = 0 then best
      else min best (1 - (cosineSum query candidate shift).1 /
        (cosineSum query candidate shift).2)) best ≤ 1 from
    hall 1 le_rfl
  induction shifts with
  | nil => exact fun best hbest => hbest
  | cons shift shifts ih =>
    intro best hbest
    refine ih _ ?_
    dsimp only
    split
    · exact hbest
    · exact (min_le_left _ _).trans hbest

/-- The first nodes close no loop. -/
theorem acceptedLoop_recent (b : Optimization cfg G) (query : ScanContextEntry cfg) {index : Nat}
    (input : BackendKeyframeInput) (hrecent : index ≤ cfg.scExcludeRecent) :
    acceptedLoop L b query index input = some none := by
  rw [acceptedLoop, detectLoopCandidate, if_pos (Or.inl hrecent)]
  split <;> rfl

/-- The third node closes a loop with the first one. -/
theorem acceptedLoop_third {b : Optimization .closing G} {query : ScanContextEntry .closing}
    {entry entry' : ScanContextEntry .closing} {stamp : Double}
    (hcontexts : b.scanContextDatabase = [entry, entry'])
    (hclouds : b.keyframeClouds = List.replicate 2 (.replicate 100 ⟨0, 0, 0, 0⟩))
    (hposes : b.localKeyposes = [1, 1]) :
    ∃ relative, acceptedLoop .converging b query 2 (.atOrigin stamp) = some (some (0, relative)) := by
  have hdetect : detectLoopCandidate .converging b query 2 = some (some 0) := by
    have hring : ringCandidates b query 1 =
        some [(columnNorm (query.ringKey - entry.ringKey), 0)] := by
      rw [ringCandidates, hcontexts]
      rfl
    have hbest : bestOfShortlist b query [(columnNorm (query.ringKey - entry.ringKey), 0)] =
        some (some (0, scanContextDistance query.descriptor entry.descriptor)) := by
      rw [bestOfShortlist, hcontexts]
      rfl
    have hsort : BackendLibs.converging.partialSort 1
        [(columnNorm (query.ringKey - entry.ringKey), 0)] =
          [(columnNorm (query.ringKey - entry.ringKey), 0)] :=
      List.mergeSort_singleton _
    have hsimilar : scanContextDistance query.descriptor entry.descriptor < 2.0 :=
      (scanContextDistance_le_one _ _).trans_lt (by norm_num)
    have hrecent : BackendConfig.closing.scExcludeRecent = 1 := rfl
    rw [detectLoopCandidate, hrecent, hcontexts, if_neg (by simp), hring]
    simp only [Option.bind_eq_bind, Option.bind_some, List.length_singleton]
    rw [show min 10 1 = 1 from rfl, hsort, List.take_of_length_le (Nat.le_refl 1), hbest]
    rw [Option.bind_some, Option.filter_some,
      if_pos (show decide (_ < BackendConfig.closing.scDistanceThreshold) = true from
        decide_eq_true hsimilar)]
    rfl
  have hverify : verifyLoopWithGicp .converging b 0 (.atOrigin stamp) =
      some (some ((1 : Pose3).between 1)) := by
    have hfitness : decide ((0 : ℝ) ≤ BackendConfig.closing.gicpFitnessThreshold) = true :=
      decide_eq_true (show (0 : ℝ) ≤ 0.3 by norm_num)
    rw [verifyLoopWithGicp, hclouds, hposes, if_neg (by simp)]
    have hsize : ¬((List.replicate 100 (⟨0, 0, 0, 0⟩ : PointXYZRGB)).length < 100 ∨
        (List.replicate 100 (⟨0, 0, 0, 0⟩ : PointXYZRGB)).length < 100) := by simp
    show (if (List.replicate 100 (⟨0, 0, 0, 0⟩ : PointXYZRGB)).length < 100 ∨
        (List.replicate 100 (⟨0, 0, 0, 0⟩ : PointXYZRGB)).length < 100 then some none else _) = _
    rw [if_neg hsize]
    exact if_pos hfitness
  refine ⟨(1 : Pose3).between 1, ?_⟩
  rw [acceptedLoop, if_neg (by decide), hdetect]
  show (verifyLoopWithGicp .converging b 0 (.atOrigin stamp)).bind _ = _
  rw [hverify]
  rfl

theorem holdsKeys_converging : BackendLibs.converging.HoldsKeys := holdsKeys_initialValues

/-- A keyframe a second or more after the last node becomes a node. -/
theorem atOrigin_added {b : Optimization .closing G} (h : Lockstep b) (stamp : Double)
    (hlast : ∀ last ∈ b.keyframeStamps.getLast?, last + 1 ≤ stamp) :
    ∃ b', backendStep .converging b (.keyframe (.atOrigin stamp)) = some b' ∧ Lockstep b' ∧
      ∃ loop, acceptedLoop .converging b
          (makeScanContext .closing (BackendKeyframeInput.atOrigin stamp).cloud)
          b.localKeyposes.length (.atOrigin stamp) = some loop ∧
        NodeAdded (.atOrigin stamp)
          (findNearestRtk BackendConfig.closing.rtk stamp b.rtk).1 loop b b' := by
  have hcreate : shouldCreateKeyframe .converging b 1 stamp = some true := by
    unfold shouldCreateKeyframe
    split
    · rfl
    · rename_i hne
      have hn : b.nodes ≠ 0 := fun hn => hne (List.isEmpty_iff_length_eq_zero.mpr hn)
      obtain ⟨pose, hpose⟩ := Lockstep.getLast (l := b.localKeyposes) rfl hn
      obtain ⟨lastStamp, hstamp⟩ := Lockstep.getLast h.stamps hn
      have hlater := hlast lastStamp hstamp
      have htime : BackendConfig.closing.keyframeTime ≤ .number (stamp - lastStamp) :=
        Special.number_le.mpr (by linarith)
      rw [hpose, hstamp]
      show some (_ || decide (_ ≤ Special.number (stamp - lastStamp))) = some true
      rw [decide_eq_true htime, Bool.or_true]
  obtain ⟨b', hb', hlock⟩ := createNode_returns holdsKeys_converging h (.atOrigin stamp)
  obtain ⟨loop, hloop, hadded⟩ := createNode_added hb'
  refine ⟨b', ?_, hlock, loop, hloop, hadded⟩
  show processKeyframe .converging (.atOrigin stamp) b = some b'
  rw [processKeyframe]
  show (shouldCreateKeyframe .converging b 1 stamp).bind _ = _
  rw [hcreate, Option.bind_some]
  exact hb'

/-- A fix that comes before the first of three keyframes at one place: the first node has the fix,
and the third one closes a loop with it. -/
theorem backend_lockstep_loop :
    ∃ b, exec (backendStep .converging) (Optimization.start (G := .flat) .closing ())
        [.rtk (.navSatFix (.origin 100000000)), .keyframe (.atOrigin 0.1), .keyframe (.atOrigin 1.1),
          .keyframe (.atOrigin 2.1)] = some b ∧
      b.nodes = 3 ∧ (∃ fix, b.keyframeRtk.head? = some (some fix)) ∧ b.loopEdges = [(0, 2)] ∧
      Lockstep b ∧ ∀ e, (backendStep .converging b e).isSome := by
  obtain ⟨fix, hstamp, -, -, hqueue⟩ := navSatFixHandler_origin 100000000 { localCartesian := () }
  let buffer := navSatFixHandler {} (.origin 100000000) ({ localCartesian := () } : RtkBuffer .flat)
  have hbuffer : buffer.rtkQueue = [fix] := hqueue (by decide)
  obtain ⟨o, ho⟩ : ∃ o, (findNearestRtk {} 0.1 buffer).1 = some o := by
    refine Option.isSome_iff_exists.mp ?_
    have hclosest : Closest GlobalRtkObservation.stamp 0.1 5 (1 / 10) buffer.rtkQueue
        (findNearestRtk {} 0.1 buffer).1 _ :=
      takeClosest_spec (by rw [hbuffer]; exact List.pairwise_singleton _ _) (by norm_num)
    rw [hclosest.isSome_iff, hbuffer]
    exact ⟨fix, List.mem_singleton_self _, by rw [hstamp]; norm_num⟩
  let b₀ : Optimization .closing .flat := { rtk := buffer }
  have hlock₀ : Lockstep b₀ := (@lockstep_start .closing .flat ()).withRtk buffer
  let query := makeScanContext .closing (.replicate 100 ⟨0, 0, 0, 0⟩)
  obtain ⟨b₁, hb₁, hlock₁, loop₁, hloop₁, hadded₁⟩ := atOrigin_added hlock₀ 0.1 nofun
  have hstamps₁ : b₁.keyframeStamps = [0.1] := hadded₁.stamps
  have hposes₁ : b₁.localKeyposes = [1] := hadded₁.poses
  have hclouds₁ : b₁.keyframeClouds = [.replicate 100 ⟨0, 0, 0, 0⟩] := hadded₁.clouds
  have hcontexts₁ : b₁.scanContextDatabase = [query] := hadded₁.contexts
  have hrtk₁ : b₁.keyframeRtk = [some o] := by
    rw [← ho]
    exact hadded₁.rtk
  have hedges₁ : b₁.loopEdges = [] := by
    obtain rfl := Option.some.inj
      (hloop₁.symm.trans (acceptedLoop_recent _ _ _ (Nat.zero_le _)))
    exact hadded₁.edges
  obtain ⟨b₂, hb₂, hlock₂, loop₂, hloop₂, hadded₂⟩ := atOrigin_added hlock₁ 1.1 (by
    rw [hstamps₁]
    intro last hlast
    obtain rfl := Option.some.inj hlast
    norm_num)
  have hstamps₂ : b₂.keyframeStamps = [0.1, 1.1] := by
    rw [hadded₂.stamps, hstamps₁]
    rfl
  have hedges₂ : b₂.loopEdges = [] := by
    rw [hposes₁] at hloop₂
    obtain rfl := Option.some.inj
      (hloop₂.symm.trans (acceptedLoop_recent _ _ _ (scExcludeRecent_pos _)))
    rw [hadded₂.edges, hedges₁]
    rfl
  have hposes₂ : b₂.localKeyposes = [1, 1] := by
    rw [hadded₂.poses, hposes₁]
    rfl
  have hclouds₂ : b₂.keyframeClouds = List.replicate 2 (.replicate 100 ⟨0, 0, 0, 0⟩) := by
    rw [hadded₂.clouds, hclouds₁]
    rfl
  have hcontexts₂ : b₂.scanContextDatabase = [query, query] := by
    rw [hadded₂.contexts, hcontexts₁]
    rfl
  obtain ⟨b₃, hb₃, hlock₃, loop₃, hloop₃, hadded₃⟩ := atOrigin_added hlock₂ 2.1 (by
    rw [hstamps₂]
    intro last hlast
    obtain rfl := Option.some.inj hlast
    norm_num)
  obtain ⟨relative, hthird⟩ : ∃ relative,
      acceptedLoop .converging b₂ query 2 (.atOrigin 2.1) = some (some (0, relative)) :=
    acceptedLoop_third hcontexts₂ hclouds₂ hposes₂
  have hrun : exec (backendStep .converging) (Optimization.start (G := .flat) .closing ())
      [.rtk (.navSatFix (.origin 100000000)), .keyframe (.atOrigin 0.1), .keyframe (.atOrigin 1.1),
        .keyframe (.atOrigin 2.1)] = some b₃ := by
    rw [exec_cons]
    show exec (backendStep .converging) b₀ _ = _
    rw [exec_cons, hb₁, Option.bind_some, exec_cons, hb₂, Option.bind_some, exec_cons, hb₃]
    rfl
  refine ⟨b₃, hrun, ?_, ⟨o, ?_⟩, ?_, backend_lockstep holdsKeys_converging () (Reach.of_exec hrun)⟩
  · rw [Optimization.nodes, hadded₃.poses, hposes₂]
    rfl
  · rw [hadded₃.rtk, hadded₂.rtk, hrtk₁]
    rfl
  · rw [hposes₂] at hloop₃
    obtain rfl := Option.some.inj (hloop₃.symm.trans hthird)
    rw [hadded₃.edges, hedges₂, hposes₂]
    rfl

end FastLivo.Backend
