import FastLivo.Lib.Ghost
import FastLivo.Livox.Packets

/-!
# Frames of one device

With a time source the driver cuts the points of a device into frames on a fixed grid: the first
point sets it, a frame is published once the newest point has reached the next publish time, and the
publish time then moves on behind that point. The times are 64-bit integers that wrap around.
-/

namespace FastLivo.Livox

open Lib

/-! ## State -/

/-- What the callback is given of one device. -/
structure DeviceFrame where
  baseTime : UInt64
  points : List PointXyzlt
  deriving DecidableEq, Repr

/-- What `PubHandler` keeps of one device: the `points_clouds_` of its handler, its
`next_publish_timestamp_ns_`, and the frames that were published. -/
structure DevicePublisher where
  pointsClouds : List PointXyzlt := []
  nextPublishTime : UInt64 := 0
  published : List DeviceFrame := []
  deriving DecidableEq, Repr

/-- A turn of `RawDataProcess`, in its two parts. -/
inductive PubEvent where
  | packet (pkt : RawPacket)
  | checkTimer
  deriving DecidableEq, Repr

namespace DevicePublisher

/-- `LidarPubHandler::GetLidarBaseTime`. -/
def getLidarBaseTime (s : DevicePublisher) : UInt64 :=
  (s.pointsClouds.head?.map PointXyzlt.offsetTime).getD 0

/-- `LidarPubHandler::GetRecentTimeStamp`. -/
def getRecentTimeStamp (s : DevicePublisher) : UInt64 :=
  (s.pointsClouds.getLast?.map PointXyzlt.offsetTime).getD 0

end DevicePublisher

/-! ## `CheckTimer` -/

/-- The loop that moves the publish time on, for so many turns at most. -/
def catchUpWithin (interval recent : UInt64) : ℕ → UInt64 → Option UInt64
  | 0, _ => none
  | turns + 1, next =>
    if next + interval ≤ recent then catchUpWithin interval recent turns (next + interval)
    else some (next + interval)

/-- The loop that moves the publish time on. After as many turns as there are times it has come
around and never ends. -/
def catchUp (interval recent next : UInt64) : Option UInt64 :=
  catchUpWithin interval recent 18446744073709551616 next

/-- The publish time of a call, which the first one sets. -/
def DevicePublisher.publishTime (interval : UInt64) (s : DevicePublisher) : UInt64 :=
  if s.nextPublishTime = 0 then s.getLidarBaseTime + interval else s.nextPublishTime

/-- `PubHandler::CheckTimer` with a time source. -/
def DevicePublisher.checkTimer (interval : UInt64) (s : DevicePublisher) : Option DevicePublisher :=
  let recent := s.getRecentTimeStamp
  let base := s.getLidarBaseTime
  if recent = 0 ∨ base = 0 ∨ recent < base then some s
  else
    let next := s.publishTime interval
    if recent < next then some { s with nextPublishTime := next }
    else (catchUp interval recent next).map fun next =>
      { pointsClouds := []
        nextPublishTime := next
        published := s.published ++ [⟨base, s.pointsClouds⟩] }

section Run

variable (sdk : LivoxSdk) (decoder : PointDecoder) (interval : UInt64)

def pubStep (s : DevicePublisher) : PubEvent → Option DevicePublisher
  | .packet pkt => (pointCloudProcess sdk decoder pkt).map fun ps =>
      { s with pointsClouds := s.pointsClouds ++ ps }
  | .checkTimer => s.checkTimer interval

/-- Ghost: the points received, the base time that set the grid, and the newest points at which
frames were published. -/
structure PubLog where
  received : List PointXyzlt := []
  firstBase : UInt64 := 0
  triggers : List UInt64 := []
  deriving DecidableEq, Repr

def logPub (s : DevicePublisher) (e : PubEvent) (s' : DevicePublisher) (log : PubLog) : PubLog :=
  match e with
  | .packet pkt =>
    { log with received := log.received ++ (pointCloudProcess sdk decoder pkt).getD [] }
  | .checkTimer =>
    { log with
      firstBase :=
        if s.nextPublishTime = 0 ∧ s'.nextPublishTime ≠ 0 then s.getLidarBaseTime
        else log.firstBase
      triggers :=
        if s.published.length < s'.published.length then log.triggers ++ [s.getRecentTimeStamp]
        else log.triggers }

/-- Runs of one device. -/
def PubRun (ok : DevicePublisher → PubEvent → Prop) : DevicePublisher × PubLog → Prop :=
  Reach (withGhost (pubStep sdk decoder interval) (logPub sdk decoder)) (fun p e => ok p.1 e) ({}, {})

end Run

/-! ## One call -/

section Step

variable {interval recent next : UInt64} {s s' : DevicePublisher}

/-- While no time wraps around, the loop ends at the first grid time behind the newest point. -/
theorem catchUpWithin_eq_some (hinterval : 0 < interval.toNat)
    (hfit : recent.toNat + interval.toNat < 18446744073709551616) {turns : ℕ}
    (hle : next.toNat ≤ recent.toNat) (hturns : recent.toNat - next.toNat < turns) :
    ∃ r k, catchUpWithin interval recent turns next = some r ∧
      r.toNat = next.toNat + k * interval.toNat ∧ recent.toNat < r.toNat := by
  induction turns generalizing next with
  | zero => omega
  | succ turns ih =>
    have hsum : (next + interval).toNat = next.toNat + interval.toNat := by
      rw [UInt64.toNat_add]
      omega
    rw [catchUpWithin]
    by_cases hagain : next + interval ≤ recent
    · have hle' := UInt64.le_iff_toNat_le.mp hagain
      obtain ⟨r, k, hrun, hgrid, hlater⟩ := ih hle' (by omega)
      refine ⟨r, k + 1, ?_, ?_, hlater⟩
      · rw [if_pos hagain, hrun]
      · rw [hgrid, hsum, Nat.add_mul]
        omega
    · refine ⟨next + interval, 1, if_neg hagain, ?_, ?_⟩
      · rw [hsum, Nat.one_mul]
      · exact UInt64.lt_iff_toNat_lt.mp (UInt64.not_le.mp hagain)

/-- The loop never ends for a point at the last of all times. -/
theorem catchUpWithin_last (interval : UInt64) (turns : ℕ) (next : UInt64) :
    catchUpWithin interval 18446744073709551615 turns next = none := by
  induction turns generalizing next with
  | zero => rfl
  | succ turns ih =>
    have hle : next + interval ≤ 18446744073709551615 := by
      have hlt := (next + interval).toNat_lt
      refine UInt64.le_iff_toNat_le.mpr ?_
      have hlast : (18446744073709551615 : UInt64).toNat = 18446744073709551615 := rfl
      omega
    rw [catchUpWithin, if_pos hle, ih]

/-- A call that considers the buffered points. -/
structure DevicePublisher.Considers (s : DevicePublisher) : Prop where
  recent : s.getRecentTimeStamp ≠ 0
  base : s.getLidarBaseTime ≠ 0
  le : s.getLidarBaseTime ≤ s.getRecentTimeStamp

/-- What `CheckTimer` can do: nothing, keep the publish time, or publish what is buffered. -/
theorem checkTimer_cases (h : s.checkTimer interval = some s') :
    s' = s ∨
    (s.Considers ∧ s' = { s with nextPublishTime := s.publishTime interval }) ∨
    (s.Considers ∧ s.publishTime interval ≤ s.getRecentTimeStamp ∧ ∃ later,
      catchUp interval s.getRecentTimeStamp (s.publishTime interval) = some later ∧
      s' = { pointsClouds := []
             nextPublishTime := later
             published := s.published ++ [⟨s.getLidarBaseTime, s.pointsClouds⟩] }) := by
  rw [DevicePublisher.checkTimer] at h
  dsimp only at h
  split at h
  · exact .inl (Option.some.inj h).symm
  · rename_i hguard
    rw [not_or, not_or, UInt64.not_lt] at hguard
    have hconsiders : s.Considers := ⟨hguard.1, hguard.2.1, hguard.2.2⟩
    split at h
    · exact .inr (.inl ⟨hconsiders, (Option.some.inj h).symm⟩)
    · rename_i hlate
      obtain ⟨later, hlater, rfl⟩ := Option.map_eq_some_iff.mp h
      exact .inr (.inr ⟨hconsiders, UInt64.not_lt.mp hlate, later, hlater, rfl⟩)

/-- A call that finds the publish time reached. -/
theorem checkTimer_of_late (hconsiders : s.Considers)
    (hlate : s.publishTime interval ≤ s.getRecentTimeStamp) :
    s.checkTimer interval =
      (catchUp interval s.getRecentTimeStamp (s.publishTime interval)).map fun next =>
        { pointsClouds := []
          nextPublishTime := next
          published := s.published ++ [⟨s.getLidarBaseTime, s.pointsClouds⟩] } := by
  have hguard : ¬(s.getRecentTimeStamp = 0 ∨ s.getLidarBaseTime = 0 ∨
      s.getRecentTimeStamp < s.getLidarBaseTime) := by
    rw [not_or, not_or, UInt64.not_lt]
    exact ⟨hconsiders.recent, hconsiders.base, hconsiders.le⟩
  rw [DevicePublisher.checkTimer]
  dsimp only
  rw [if_neg hguard, if_neg (UInt64.not_lt.mpr hlate)]

end Step

/-! ## Runs -/

section Grid

variable {sdk : LivoxSdk} {decoder : PointDecoder} {interval : UInt64} {s s' : DevicePublisher}
  {log : PubLog}

/-- The times of a packet leave room for an interval behind them. -/
def TimesFit (sdk : LivoxSdk) (decoder : PointDecoder) (interval : UInt64) (_ : DevicePublisher) :
    PubEvent → Prop
  | .packet pkt => ∀ ps, pointCloudProcess sdk decoder pkt = some ps → ∀ q ∈ ps,
      q.offsetTime.toNat + interval.toNat < 18446744073709551616
  | .checkTimer => True

/-- The frames that were published and the publish time that is left, on the grid of the first
base time. -/
structure FramesOnGrid (interval : UInt64) (s : DevicePublisher) (log : PubLog) : Prop where
  /-- The frames and what is buffered are the points received, in their order. -/
  partition : (s.published.map DeviceFrame.points).flatten ++ s.pointsClouds = log.received
  /-- A frame for each trigger. -/
  count : log.triggers.length = s.published.length
  /-- The publish time, once set, is a grid time. -/
  grid : s.nextPublishTime ≠ 0 →
    ∃ k, s.nextPublishTime.toNat = log.firstBase.toNat + k * interval.toNat
  /-- The publish time is later than every point that triggered a frame. -/
  later : ∀ t ∈ log.triggers, t.toNat < s.nextPublishTime.toNat
  /-- Between two triggers lies a grid time. -/
  periods : log.triggers.Pairwise fun t u => ∃ k,
    t.toNat < log.firstBase.toNat + k * interval.toNat ∧
      log.firstBase.toNat + k * interval.toNat ≤ u.toNat

/-- Every buffered point leaves room for an interval behind it. -/
def BufferFits (interval : UInt64) (s : DevicePublisher) : Prop :=
  ∀ q ∈ s.pointsClouds, q.offsetTime.toNat + interval.toNat < 18446744073709551616

theorem exists_base (h : s.Considers) : ∃ q ∈ s.pointsClouds, q.offsetTime = s.getLidarBaseTime := by
  have hbase := h.base
  rw [DevicePublisher.getLidarBaseTime] at hbase ⊢
  cases hhead : s.pointsClouds.head? with
  | none =>
    rw [hhead] at hbase
    exact absurd rfl hbase
  | some q => exact ⟨q, List.mem_of_mem_head? hhead, rfl⟩

theorem exists_recent (h : s.Considers) :
    ∃ q ∈ s.pointsClouds, q.offsetTime = s.getRecentTimeStamp := by
  have hrecent := h.recent
  rw [DevicePublisher.getRecentTimeStamp] at hrecent ⊢
  cases hlast : s.pointsClouds.getLast? with
  | none =>
    rw [hlast] at hrecent
    exact absurd rfl hrecent
  | some q => exact ⟨q, List.mem_of_getLast? hlast, rfl⟩

theorem recent_fits (hbuffer : BufferFits interval s) (h : s.Considers) :
    s.getRecentTimeStamp.toNat + interval.toNat < 18446744073709551616 := by
  obtain ⟨q, hq, htime⟩ := exists_recent h
  exact htime ▸ hbuffer q hq

/-- The publish time of a call lies on the grid, on the one that it sets if there was none. -/
theorem publishTime_on_grid (hbuffer : BufferFits interval s) (h : s.Considers)
    (hgrid : s.nextPublishTime ≠ 0 →
      ∃ k, s.nextPublishTime.toNat = log.firstBase.toNat + k * interval.toNat) :
    ∃ k, (s.publishTime interval).toNat =
      (if s.nextPublishTime = 0 then s.getLidarBaseTime else log.firstBase).toNat +
        k * interval.toNat := by
  rw [DevicePublisher.publishTime]
  by_cases hzero : s.nextPublishTime = 0
  · obtain ⟨q, hq, htime⟩ := exists_base h
    have hfit := hbuffer q hq
    rw [htime] at hfit
    rw [if_pos hzero, if_pos hzero, UInt64.toNat_add]
    exact ⟨1, by omega⟩
  · rw [if_neg hzero, if_neg hzero]
    exact hgrid hzero

theorem publishTime_pos (hbuffer : BufferFits interval s) (h : s.Considers) :
    0 < (s.publishTime interval).toNat := by
  rw [DevicePublisher.publishTime]
  by_cases hzero : s.nextPublishTime = 0
  · obtain ⟨q, hq, htime⟩ := exists_base h
    have hfit := hbuffer q hq
    have hpos : s.getLidarBaseTime.toNat ≠ 0 := fun h0 => h.base (UInt64.toNat_inj.mp h0)
    rw [htime] at hfit
    rw [if_pos hzero, UInt64.toNat_add]
    omega
  · rw [if_neg hzero]
    exact Nat.pos_of_ne_zero fun h0 => hzero (UInt64.toNat_inj.mp h0)

/-- A call that publishes moves on to a grid time behind the newest point. -/
theorem catchUp_on_grid (hinterval : 0 < interval.toNat) (hbuffer : BufferFits interval s)
    (h : s.Considers) (hlate : s.publishTime interval ≤ s.getRecentTimeStamp) :
    ∃ r k, catchUp interval s.getRecentTimeStamp (s.publishTime interval) = some r ∧
      r.toNat = (s.publishTime interval).toNat + k * interval.toNat ∧
      s.getRecentTimeStamp.toNat < r.toNat := by
  have hrecent := s.getRecentTimeStamp.toNat_lt
  exact catchUpWithin_eq_some hinterval (recent_fits hbuffer h)
    (UInt64.le_iff_toNat_le.mp hlate) (by omega)

/-- A packet is appended to what is buffered. -/
theorem framesOnGrid_packet (h : FramesOnGrid interval s log) (ps : List PointXyzlt) :
    FramesOnGrid interval { s with pointsClouds := s.pointsClouds ++ ps }
      { log with received := log.received ++ ps } where
  partition := by
    rw [← h.partition, List.append_assoc]
  count := h.count
  grid := h.grid
  later := h.later
  periods := h.periods

/-- The grid is set, or stays as it is. -/
theorem framesOnGrid_wait (hbuffer : BufferFits interval s) (h : FramesOnGrid interval s log)
    (hconsiders : s.Considers) :
    FramesOnGrid interval { s with nextPublishTime := s.publishTime interval }
      { log with
        firstBase := if s.nextPublishTime = 0 then s.getLidarBaseTime else log.firstBase } where
  partition := h.partition
  count := h.count
  grid _ := publishTime_on_grid hbuffer hconsiders h.grid
  later t ht := by
    by_cases hzero : s.nextPublishTime = 0
    · have hlt := h.later t ht
      rw [hzero] at hlt
      exact absurd hlt (Nat.not_lt_zero _)
    · show _ < (s.publishTime interval).toNat
      rw [DevicePublisher.publishTime, if_neg hzero]
      exact h.later t ht
  periods := by
    by_cases hzero : s.nextPublishTime = 0
    · have hnone : log.triggers = [] := by
        refine List.eq_nil_iff_forall_not_mem.mpr fun t ht => ?_
        have hlt := h.later t ht
        rw [hzero] at hlt
        exact absurd hlt (Nat.not_lt_zero _)
      show log.triggers.Pairwise _
      rw [hnone]
      exact List.Pairwise.nil
    · rw [if_neg hzero]
      exact h.periods

/-- What is buffered is published, and the publish time moves on. -/
theorem framesOnGrid_publish (h : FramesOnGrid interval s log) {later : UInt64} {k : ℕ}
    (hnext : s.nextPublishTime.toNat ≤ s.getRecentTimeStamp.toNat)
    (hgrid : ∃ k, s.nextPublishTime.toNat = log.firstBase.toNat + k * interval.toNat)
    (hlater : later.toNat = s.nextPublishTime.toNat + k * interval.toNat)
    (hrecent : s.getRecentTimeStamp.toNat < later.toNat) :
    FramesOnGrid interval
      { pointsClouds := []
        nextPublishTime := later
        published := s.published ++ [⟨s.getLidarBaseTime, s.pointsClouds⟩] }
      { log with triggers := log.triggers ++ [s.getRecentTimeStamp] } where
  partition := by
    rw [← h.partition, List.map_append, List.flatten_append, List.append_nil]
    simp
  count := by
    rw [List.length_append, List.length_append, h.count]
    rfl
  grid _ := by
    obtain ⟨j, hj⟩ := hgrid
    exact ⟨j + k, by rw [hlater, hj, Nat.add_mul, Nat.add_assoc]⟩
  later t ht := by
    rcases List.mem_append.mp ht with ht | ht
    · exact (h.later t ht).trans (hnext.trans_lt hrecent)
    · rwa [List.mem_singleton.mp ht]
  periods := by
    refine List.pairwise_append.mpr ⟨h.periods, List.pairwise_singleton _ _, fun t ht u hu => ?_⟩
    obtain ⟨j, hj⟩ := hgrid
    rw [List.mem_singleton.mp hu]
    exact ⟨j, hj ▸ h.later t ht, hj ▸ hnext⟩

/-- Every call returns. -/
theorem isSome_checkTimer (hinterval : 0 < interval.toNat) (hbuffer : BufferFits interval s) :
    (s.checkTimer interval).isSome := by
  rw [DevicePublisher.checkTimer]
  dsimp only
  split
  · rfl
  · rename_i hguard
    rw [not_or, not_or, UInt64.not_lt] at hguard
    split
    · rfl
    · rename_i hlate
      obtain ⟨r, k, hrun, -⟩ := catchUp_on_grid hinterval hbuffer
        ⟨hguard.1, hguard.2.1, hguard.2.2⟩ (UInt64.not_lt.mp hlate)
      rw [hrun, Option.isSome_map]
      rfl

/-- A step keeps the frames on the grid. -/
theorem framesOnGrid_step (hinterval : 0 < interval.toNat) {e : PubEvent}
    (hfit : TimesFit sdk decoder interval s e) (hbuffer : BufferFits interval s)
    (h : FramesOnGrid interval s log) (hstep : pubStep sdk decoder interval s e = some s') :
    BufferFits interval s' ∧ FramesOnGrid interval s' (logPub sdk decoder s e s' log) := by
  cases e with
  | packet pkt =>
    obtain ⟨ps, hps, rfl⟩ := Option.map_eq_some_iff.mp hstep
    refine ⟨fun q hq => ?_, ?_⟩
    · rcases List.mem_append.mp hq with hq | hq
      · exact hbuffer q hq
      · exact hfit ps hps q hq
    · rw [logPub, hps]
      exact framesOnGrid_packet h ps
  | checkTimer =>
    rcases checkTimer_cases hstep with rfl | ⟨hconsiders, rfl⟩ | ⟨hconsiders, hlate, later, hrun, rfl⟩
    · refine ⟨hbuffer, ?_⟩
      rw [logPub, if_neg fun hset => hset.2 hset.1, if_neg (lt_irrefl _)]
      exact h
    · refine ⟨hbuffer, ?_⟩
      have hset : (s.nextPublishTime = 0 ∧ s.publishTime interval ≠ 0) ↔ s.nextPublishTime = 0 :=
        and_iff_left fun hzero =>
          (publishTime_pos hbuffer hconsiders).ne' (UInt64.toNat_inj.mpr hzero)
      rw [logPub, if_congr hset rfl rfl, if_neg (lt_irrefl _)]
      exact framesOnGrid_wait hbuffer h hconsiders
    · obtain ⟨r, k, hcatch, hgrid, hrecent⟩ := catchUp_on_grid hinterval hbuffer hconsiders hlate
      obtain rfl := Option.some.inj (hrun.symm.trans hcatch)
      have hset : (s.nextPublishTime = 0 ∧ later ≠ 0) ↔ s.nextPublishTime = 0 :=
        and_iff_left fun hzero => by
          rw [hzero] at hrecent
          exact absurd hrecent (Nat.not_lt_zero _)
      have hlonger : s.published.length <
          (s.published ++ [(⟨s.getLidarBaseTime, s.pointsClouds⟩ : DeviceFrame)]).length := by
        rw [List.length_append]
        exact Nat.lt_succ_self _
      refine ⟨fun q hq => absurd hq List.not_mem_nil, ?_⟩
      rw [logPub, if_congr hset rfl rfl, if_pos hlonger]
      exact framesOnGrid_publish (framesOnGrid_wait hbuffer h hconsiders)
        (UInt64.le_iff_toNat_le.mp hlate) (publishTime_on_grid hbuffer hconsiders h.grid)
        hgrid hrecent

theorem framesOnGrid_init : FramesOnGrid interval {} {} where
  partition := rfl
  count := rfl
  grid h := absurd rfl h
  later _ ht := absurd ht List.not_mem_nil
  periods := List.Pairwise.nil

end Grid

/-- In every run whose times leave room for an interval, every call returns and the frames lie on
the grid of the first base time. -/
theorem frames_on_grid (sdk : LivoxSdk) (decoder : PointDecoder) {interval : UInt64}
    (hinterval : 0 < interval.toNat) {p : DevicePublisher × PubLog}
    (h : PubRun sdk decoder interval (TimesFit sdk decoder interval) p) :
    FramesOnGrid interval p.1 p.2 ∧ (p.1.checkTimer interval).isSome := by
  have hinv : BufferFits interval p.1 ∧ FramesOnGrid interval p.1 p.2 := by
    refine Reach.invariant (I := fun p : DevicePublisher × PubLog =>
      BufferFits interval p.1 ∧ FramesOnGrid interval p.1 p.2)
      ⟨fun q hq => absurd hq List.not_mem_nil, framesOnGrid_init⟩ (fun e _ hI hok hst => ?_) h
    obtain ⟨hstep, hlog⟩ := withGhost_cases hst
    rw [hlog]
    exact framesOnGrid_step hinterval hok hI.1 hI.2 hstep
  exact ⟨hinv.2, isSome_checkTimer hinterval hinv.1⟩

/-! ## Packets of one point -/

/-- A packet of one point in the high format. -/
def pointPacket (timeStamp : UInt64) : RawPacket where
  lidarType := kLivoxLidarType
  handle := 1
  extrinsicEnable := false
  pointNum := 1
  dataType := 1
  lineNum := 4
  timeStamp := timeStamp
  pointInterval := 5208
  rawData := List.replicate 14 0

/-- The point of such a packet. -/
def pointOf (timeStamp : UInt64) : PointXyzlt := ⟨0, 0, 0, 0, 0, 0, timeStamp⟩

theorem pointCloudProcess_pointPacket (timeStamp : UInt64) :
    pointCloudProcess livoxSdk2 zeroDecoder (pointPacket timeStamp) = some [pointOf timeStamp] := by
  have htime : timeStamp + UInt64.ofNat 0 * 5208 = timeStamp := by
    have hzero : UInt64.ofNat 0 = 0 := rfl
    rw [hzero, UInt64.zero_mul, UInt64.add_zero]
  show some [(⟨0, 0, 0, 0, 0, 0, timeStamp + UInt64.ofNat 0 * 5208⟩ : PointXyzlt)] = _
  rw [htime, pointOf]

/-- Two packets a tenth of a second apart: the second one completes a frame. -/
theorem twoPackets_run (ok : DevicePublisher → PubEvent → Prop)
    (hfirst : ok {} (.packet (pointPacket 1000)))
    (hset : ok ⟨[pointOf 1000], 0, []⟩ .checkTimer)
    (hsecond : ok ⟨[pointOf 1000], 100001000, []⟩ (.packet (pointPacket 100001000)))
    (hpublish : ok ⟨[pointOf 1000, pointOf 100001000], 100001000, []⟩ .checkTimer) :
    PubRun livoxSdk2 zeroDecoder 100000000 ok
      (⟨[], 200001000, [⟨1000, [pointOf 1000, pointOf 100001000]⟩]⟩,
        ⟨[pointOf 1000, pointOf 100001000], 1000, [100001000]⟩) := by
  have hone : PubRun livoxSdk2 zeroDecoder 100000000 ok
      (⟨[pointOf 1000], 0, []⟩, ⟨[pointOf 1000], 0, []⟩) :=
    .next (.packet (pointPacket 1000)) .start hfirst rfl
  have hgrid : PubRun livoxSdk2 zeroDecoder 100000000 ok
      (⟨[pointOf 1000], 100001000, []⟩, ⟨[pointOf 1000], 1000, []⟩) :=
    .next .checkTimer hone hset rfl
  have htwo : PubRun livoxSdk2 zeroDecoder 100000000 ok
      (⟨[pointOf 1000, pointOf 100001000], 100001000, []⟩,
        ⟨[pointOf 1000, pointOf 100001000], 1000, []⟩) :=
    .next (.packet (pointPacket 100001000)) hgrid hsecond rfl
  refine .next .checkTimer htwo hpublish ?_
  have hcatch : catchUp 100000000 100001000 100001000 = some 200001000 := by
    rw [catchUp, catchUpWithin]
    rfl
  rw [withGhost, pubStep, checkTimer_of_late ⟨by decide, by decide, by decide⟩ (by decide)]
  show ((catchUp 100000000 100001000 100001000).map _).map _ = _
  rw [hcatch]
  rfl

theorem frames_on_grid_twoPackets :
    FramesOnGrid 100000000 ⟨[], 200001000, [⟨1000, [pointOf 1000, pointOf 100001000]⟩]⟩
        ⟨[pointOf 1000, pointOf 100001000], 1000, [100001000]⟩ ∧
      (DevicePublisher.checkTimer 100000000
        ⟨[], 200001000, [⟨1000, [pointOf 1000, pointOf 100001000]⟩]⟩).isSome := by
  have hfit (timeStamp : UInt64) (hlt : timeStamp.toNat < 18446744073000000000)
      (s : DevicePublisher) :
      TimesFit livoxSdk2 zeroDecoder 100000000 s (.packet (pointPacket timeStamp)) := by
    intro ps hps q hq
    rw [pointCloudProcess_pointPacket] at hps
    obtain rfl := Option.some.inj hps
    rw [List.mem_singleton.mp hq]
    show timeStamp.toNat + 100000000 < _
    omega
  exact frames_on_grid livoxSdk2 zeroDecoder (by decide)
    (twoPackets_run _ (hfit 1000 (by decide) _) trivial (hfit 100001000 (by decide) _) trivial)

/-- A point at the last of all times: its frame is published, and the call never returns. -/
theorem publish_never_returns :
    ∃ s, pubStep livoxSdk2 zeroDecoder 100000000 {} (.packet (pointPacket 18446744073709551615)) =
        some s ∧
      s.publishTime 100000000 ≤ s.getRecentTimeStamp ∧ s.checkTimer 100000000 = none := by
  refine ⟨{ pointsClouds := [pointOf 18446744073709551615] }, ?_, by decide, ?_⟩
  · rw [pubStep, pointCloudProcess_pointPacket]
    rfl
  · rw [checkTimer_of_late ⟨by decide, by decide, by decide⟩ (by decide)]
    show (catchUpWithin 100000000 18446744073709551615 _ _).map _ = none
    rw [catchUpWithin_last, Option.map_none]

end FastLivo.Livox
