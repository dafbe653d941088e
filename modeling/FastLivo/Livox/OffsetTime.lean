import FastLivo.Livox.FormatAgreement
import FastLivo.Livox.PublishGrid

/-!
# The offset times of a frame

`FillPointsToCustomMsg` cuts the difference of a point's time and the base time of its frame to
32 bits. A frame is not closed before a packet arrives behind its end, so that a gap in the packets
can make it longer than the 4.29 s that fit.
-/

namespace FastLivo.Livox

open Lib

/-- The packet that a frame is stored as. -/
def DeviceFrame.storagePacket (f : DeviceFrame) : StoragePacket where
  baseTime := f.baseTime
  pointsNum := UInt32.ofNat f.points.length
  points := f.points

/-- The times whose distance from a base time fits 32 bits. -/
def InWindow (base : UInt64) (q : PointXyzlt) : Prop :=
  base.toNat ≤ q.offsetTime.toNat ∧ q.offsetTime.toNat < base.toNat + 4294967296

instance (base : UInt64) (q : PointXyzlt) : Decidable (InWindow base q) :=
  inferInstanceAs (Decidable (_ ∧ _))

/-- The offset of a point is its distance from the base time if and only if that fits. -/
theorem offset_exact_iff (base : UInt64) (q : PointXyzlt) :
    ((q.offsetTime - base).toUInt32.toNat : ℤ) = q.offsetTime.toNat - base.toNat ↔
      InWindow base q := by
  have ht := q.offsetTime.toNat_lt
  have hb := base.toNat_lt
  rw [toNat_toUInt32_sub, InWindow]
  omega

theorem offsetTime_toCustomPoint {base : UInt64} {q : PointXyzlt} {c : CustomPoint}
    (h : q.toCustomPoint base = some c) : c.offsetTime = (q.offsetTime - base).toUInt32 := by
  rw [PointXyzlt.toCustomPoint] at h
  obtain ⟨reflectivity, -, h⟩ := Option.bind_eq_some_iff.mp h
  obtain rfl := Option.some.inj h
  rfl

section Run

variable (sdk : LivoxSdk) (decoder : PointDecoder)

/-- The points of a packet lie less than 2 ^ 32 ns behind the first point that is buffered then. -/
def WithinWindow (s : DevicePublisher) : PubEvent → Prop
  | .packet pkt => ∀ ps, pointCloudProcess sdk decoder pkt = some ps →
      ∀ first ∈ (s.pointsClouds ++ ps).head?, ∀ q ∈ ps, InWindow first.offsetTime q
  | .checkTimer => True

/-- The frames, published and buffered, whose points fit. -/
structure FramesFit (s : DevicePublisher) : Prop where
  buffered : ∀ first ∈ s.pointsClouds.head?, ∀ q ∈ s.pointsClouds, InWindow first.offsetTime q
  published : ∀ f ∈ s.published, ∀ q ∈ f.points, InWindow f.baseTime q

variable {sdk decoder} {interval : UInt64} {s s' : DevicePublisher}

theorem framesFit_packet (h : FramesFit s) {ps : List PointXyzlt}
    (hfit : ∀ first ∈ (s.pointsClouds ++ ps).head?, ∀ q ∈ ps, InWindow first.offsetTime q) :
    FramesFit { s with pointsClouds := s.pointsClouds ++ ps } where
  buffered first hfirst q hq := by
    rcases List.mem_append.mp hq with hold | hnew
    · refine h.buffered first ?_ q hold
      cases hbuffer : s.pointsClouds with
      | nil =>
        rw [hbuffer] at hold
        cases hold
      | cons q' rest =>
        rw [hbuffer] at hfirst
        exact hfirst
    · exact hfit first hfirst q hnew
  published := h.published

theorem framesFit_publish (h : FramesFit s) (hconsiders : s.Considers) (later : UInt64) :
    FramesFit
      { pointsClouds := []
        nextPublishTime := later
        published := s.published ++ [⟨s.getLidarBaseTime, s.pointsClouds⟩] } where
  buffered _ _ q hq := absurd hq List.not_mem_nil
  published f hf q hq := by
    rcases List.mem_append.mp hf with hf | hf
    · exact h.published f hf q hq
    · rw [List.mem_singleton.mp hf] at hq ⊢
      have hbase := hconsiders.base
      show InWindow s.getLidarBaseTime q
      rw [DevicePublisher.getLidarBaseTime] at hbase ⊢
      cases hhead : s.pointsClouds.head? with
      | none =>
        rw [hhead] at hbase
        exact absurd rfl hbase
      | some first => exact h.buffered first hhead q hq

theorem framesFit_step {e : PubEvent} (hfit : WithinWindow sdk decoder s e) (h : FramesFit s)
    (hstep : pubStep sdk decoder interval s e = some s') : FramesFit s' := by
  cases e with
  | packet pkt =>
    obtain ⟨ps, hps, rfl⟩ := Option.map_eq_some_iff.mp hstep
    exact framesFit_packet h (hfit ps hps)
  | checkTimer =>
    rcases checkTimer_cases hstep with rfl | ⟨-, rfl⟩ | ⟨hconsiders, -, later, -, rfl⟩
    · exact h
    · exact ⟨h.buffered, h.published⟩
    · exact framesFit_publish h hconsiders later

/-- The frames of a run whose packets stay within the window. -/
theorem framesFit_run {p : DevicePublisher × PubLog}
    (h : PubRun sdk decoder interval (WithinWindow sdk decoder) p) : FramesFit p.1 := by
  refine Reach.invariant (I := fun p : DevicePublisher × PubLog => FramesFit p.1) ?_
    (fun e _ hI hok hst => framesFit_step hok hI (withGhost_cases hst).1) h
  exact ⟨fun _ _ q hq => absurd hq List.not_mem_nil, fun f hf => absurd hf List.not_mem_nil⟩

end Run

/-- In every run whose packets stay within the window, the offset of every point of every message
is its time minus the base time. -/
theorem offsets_exact {Stamp : Type} (time : RosTime Stamp) (frameId : String) (lidar : LidarDevice)
    {sdk : LivoxSdk} {decoder : PointDecoder} {interval : UInt64} {p : DevicePublisher × PubLog}
    (h : PubRun sdk decoder interval (WithinWindow sdk decoder) p) :
    ∀ f ∈ p.1.published, ∀ msg, customMsg time frameId f.storagePacket lidar = some msg →
      List.Forall₂ (fun (q : PointXyzlt) (c : CustomPoint) =>
        (c.offsetTime.toNat : ℤ) = q.offsetTime.toNat - f.baseTime.toNat)
        (f.points.take f.storagePacket.pointsNum.toNat) msg.points := by
  intro f hf msg hmsg
  have hcount := count_of_customMsg time frameId lidar hmsg
  rw [customMsg_eq time frameId lidar hcount] at hmsg
  obtain ⟨points, hpoints, rfl⟩ := Option.map_eq_some_iff.mp hmsg
  have hpairs := forall₂_of_mapM hpoints
  have hfit := (framesFit_run h).published f hf
  have hboth := (List.forall₂_and_left _ _).mpr ⟨fun q hq => hfit q (List.mem_of_mem_take hq), hpairs⟩
  refine hboth.imp fun q c hqc => ?_
  rw [offsetTime_toCustomPoint hqc.2]
  exact (offset_exact_iff f.baseTime q).mpr hqc.1

/-- The message of a frame of two points. -/
theorem customMsg_twoPoints (base later : UInt64) :
    customMsg secondsTime "livox_frame" (DeviceFrame.storagePacket
      ⟨base, [pointOf base, pointOf later]⟩) ⟨kLivoxLidarType, 7⟩ = some
      { header := { stamp := secondsTime.stamp base, frameId := "livox_frame" }
        timebase := base
        pointNum := 2
        lidarId := 7
        points := [⟨(base - base).toUInt32, 0, 0, 0, 0, 0, 0⟩,
          ⟨(later - base).toUInt32, 0, 0, 0, 0, 0, 0⟩] } := by
  have hintensity : floatToUInt8 0 = some 0 := by decide +kernel
  have hpoint (t : UInt64) : (pointOf t).toCustomPoint base =
      some ⟨(t - base).toUInt32, 0, 0, 0, 0, 0, 0⟩ := by
    rw [PointXyzlt.toCustomPoint, pointOf, hintensity]
    rfl
  have hcount : (DeviceFrame.storagePacket ⟨base, [pointOf base, pointOf later]⟩).pointsNum.toNat ≤
      (DeviceFrame.storagePacket ⟨base, [pointOf base, pointOf later]⟩).points.length := le_refl 2
  have hpoints : [pointOf base, pointOf later].mapM (PointXyzlt.toCustomPoint base) =
      some [⟨(base - base).toUInt32, 0, 0, 0, 0, 0, 0⟩,
        ⟨(later - base).toUInt32, 0, 0, 0, 0, 0, 0⟩] := by
    rw [List.mapM_cons, List.mapM_cons, hpoint, hpoint]
    rfl
  rw [customMsg_eq secondsTime "livox_frame" _ hcount]
  refine (congrArg (Option.map _) hpoints).trans ?_
  rfl

/-- Two points a tenth of a second apart. -/
theorem offsets_exact_twoPackets : ∃ msg : CustomMsg (ℤ × ℕ),
    customMsg secondsTime "livox_frame"
      (DeviceFrame.storagePacket ⟨1000, [pointOf 1000, pointOf 100001000]⟩) ⟨kLivoxLidarType, 7⟩ =
        some msg ∧
      List.Forall₂ (fun (q : PointXyzlt) (c : CustomPoint) =>
        (c.offsetTime.toNat : ℤ) = q.offsetTime.toNat - (1000 : UInt64).toNat)
        [pointOf 1000, pointOf 100001000] msg.points := by
  have hwindow (timeStamp : UInt64) (s : DevicePublisher)
      (hin : ∀ first ∈ (s.pointsClouds ++ [pointOf timeStamp]).head?,
        InWindow first.offsetTime (pointOf timeStamp)) :
      WithinWindow livoxSdk2 zeroDecoder s (.packet (pointPacket timeStamp)) := by
    intro ps hps first hfirst q hq
    rw [pointCloudProcess_pointPacket] at hps
    obtain rfl := Option.some.inj hps
    rw [List.mem_singleton.mp hq]
    exact hin first hfirst
  have hrun := twoPackets_run (WithinWindow livoxSdk2 zeroDecoder)
    (hwindow 1000 {} fun first hfirst => by
      obtain rfl := Option.some.inj hfirst
      decide) trivial
    (hwindow 100001000 ⟨[pointOf 1000], 100001000, []⟩ fun first hfirst => by
      obtain rfl := Option.some.inj hfirst
      decide) trivial
  have hmsg := customMsg_twoPoints 1000 100001000
  exact ⟨_, hmsg, offsets_exact secondsTime "livox_frame" ⟨kLivoxLidarType, 7⟩ hrun _
    (List.mem_singleton.mpr rfl) _ hmsg⟩

/-- A gap of five and a half seconds: the second point of the frame has an offset of 1.2 s. -/
theorem offset_wraps : ∃ (s : DevicePublisher) (f : DeviceFrame) (msg : CustomMsg (ℤ × ℕ)),
    exec (pubStep livoxSdk2 zeroDecoder 2000000000) {}
      [.packet (pointPacket 1000000000), .checkTimer, .packet (pointPacket 6500000000),
        .checkTimer] = some s ∧
      f ∈ s.published ∧
      customMsg secondsTime "livox_frame" f.storagePacket ⟨kLivoxLidarType, 7⟩ = some msg ∧
      ¬List.Forall₂ (fun (q : PointXyzlt) (c : CustomPoint) =>
        (c.offsetTime.toNat : ℤ) = q.offsetTime.toNat - f.baseTime.toNat)
        (f.points.take f.storagePacket.pointsNum.toNat) msg.points := by
  have hcatch : catchUp 2000000000 6500000000 3000000000 = some 7000000000 := by
    rw [catchUp, catchUpWithin, if_pos (by decide), catchUpWithin]
    rfl
  have hone : pubStep livoxSdk2 zeroDecoder 2000000000 {} (.packet (pointPacket 1000000000)) =
      some ⟨[pointOf 1000000000], 0, []⟩ := rfl
  have hgrid : pubStep livoxSdk2 zeroDecoder 2000000000 ⟨[pointOf 1000000000], 0, []⟩ .checkTimer =
      some ⟨[pointOf 1000000000], 3000000000, []⟩ := rfl
  have htwo : pubStep livoxSdk2 zeroDecoder 2000000000 ⟨[pointOf 1000000000], 3000000000, []⟩
      (.packet (pointPacket 6500000000)) =
        some ⟨[pointOf 1000000000, pointOf 6500000000], 3000000000, []⟩ := rfl
  have hpublish : pubStep livoxSdk2 zeroDecoder 2000000000
      ⟨[pointOf 1000000000, pointOf 6500000000], 3000000000, []⟩ .checkTimer =
        some ⟨[], 7000000000, [⟨1000000000, [pointOf 1000000000, pointOf 6500000000]⟩]⟩ := by
    rw [pubStep, checkTimer_of_late ⟨by decide, by decide, by decide⟩ (by decide)]
    show (catchUp 2000000000 6500000000 3000000000).map _ = _
    rw [hcatch]
    rfl
  refine ⟨⟨[], 7000000000, [⟨1000000000, [pointOf 1000000000, pointOf 6500000000]⟩]⟩,
    ⟨1000000000, [pointOf 1000000000, pointOf 6500000000]⟩, _, ?_, List.mem_singleton.mpr rfl,
    customMsg_twoPoints 1000000000 6500000000, ?_⟩
  · rw [exec_cons, hone, Option.bind_some, exec_cons, hgrid, Option.bind_some, exec_cons, htwo,
      Option.bind_some, exec_cons, hpublish]
    rfl
  · intro hall
    cases hall with
    | cons _ hrest =>
      cases hrest with
      | cons hsecond _ => exact absurd hsecond (by decide)

end FastLivo.Livox
