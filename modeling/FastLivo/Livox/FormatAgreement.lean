import FastLivo.Livox.Conversion

/-!
# Where the two formats agree

The driver narrows the reflectivity and the offset time of a point where the converter
rounds and clamps them. For one point the results are compared number by number; a packet
has the same `CustomMsg` on both paths exactly when all its points do and its base time fits
a stamp.
-/

namespace FastLivo.Livox

open Lib

/-! ## Reflectivity -/

/-- Both formats make the same of this intensity. -/
def SameReflectivity (intensity : UInt32) : Prop :=
  ∃ v, decode32 intensity = some v ∧ -1 < v ∧ v < 256 ∧ (v < 0 ∨ 255 ≤ v ∨ v - ⌊v⌋ < 1 / 2)

theorem truncate_of_neg {v : ℚ} (hneg : v < 0) (hlow : -1 < v) : truncate v = 0 := by
  unfold truncate
  rw [if_neg (not_le.mpr hneg), Int.ceil_eq_iff]
  constructor
  · simpa using hlow
  · simpa using hneg.le

theorem truncate_of_nonneg {v : ℚ} (h : 0 ≤ v) : truncate v = ⌊v⌋ := if_pos h

theorem roundAway_of_nonneg {v : ℚ} (h : 0 ≤ v) :
    roundAway v = if v - ⌊v⌋ < 1 / 2 then ⌊v⌋ else ⌊v⌋ + 1 := by
  have hle := Int.floor_le v
  have hlt := Int.lt_floor_add_one v
  unfold roundAway
  rw [if_pos h]
  split
  · rw [Int.floor_eq_iff]
    constructor <;> linarith
  · rw [Int.floor_eq_iff]
    push_cast
    constructor <;> linarith

theorem roundAway_natCast (n : ℕ) : roundAway n = n := by
  rw [roundAway_of_nonneg (Nat.cast_nonneg n), Int.floor_natCast, if_pos]
  simp

theorem roundAway_of_neg {v : ℚ} (hneg : v < 0) : roundAway v ≤ 0 := by
  unfold roundAway
  rw [if_neg (not_le.mpr hneg), Int.ceil_le]
  push_cast
  linarith

theorem truncate_byte_iff (v : ℚ) : (0 ≤ truncate v ∧ truncate v < 256) ↔ -1 < v ∧ v < 256 := by
  rcases lt_or_ge v 0 with hneg | hpos
  · have htruncate : truncate v = ⌈v⌉ := if_neg (not_le.mpr hneg)
    have hceil : ⌈v⌉ ≤ 0 := Int.ceil_le.mpr (by simpa using hneg.le)
    rw [htruncate]
    constructor
    · rintro ⟨h, -⟩
      have hlow : (-1 : ℤ) < ⌈v⌉ := by omega
      rw [Int.lt_ceil] at hlow
      exact ⟨by exact_mod_cast hlow, by linarith⟩
    · rintro ⟨h, -⟩
      have hlow : (-1 : ℤ) < ⌈v⌉ := Int.lt_ceil.mpr (by exact_mod_cast h)
      omega
  · have hfloor : 0 ≤ ⌊v⌋ := Int.floor_nonneg.mpr hpos
    rw [truncate_of_nonneg hpos]
    constructor
    · rintro ⟨-, h⟩
      have hhigh : v < (256 : ℤ) := Int.floor_lt.mp h
      exact ⟨by linarith, by exact_mod_cast hhigh⟩
    · rintro ⟨-, h⟩
      exact ⟨hfloor, Int.floor_lt.mpr (by exact_mod_cast h)⟩

/-- The integer part is the clamped nearest integer below zero, from the last byte on and below
the middle between two integers. -/
theorem truncate_eq_clamp_iff {v : ℚ} (hlow : -1 < v) (hhigh : v < 256) :
    truncate v = max 0 (min (roundAway v) 255) ↔ v < 0 ∨ 255 ≤ v ∨ v - ⌊v⌋ < 1 / 2 := by
  rcases lt_or_ge v 0 with hneg | hpos
  · have hround := roundAway_of_neg hneg
    rw [truncate_of_neg hneg hlow]
    constructor
    · intro _
      exact Or.inl hneg
    · intro _
      omega
  · have hfloor : 0 ≤ ⌊v⌋ := Int.floor_nonneg.mpr hpos
    have hbyte : ⌊v⌋ < 256 := Int.floor_lt.mpr (by exact_mod_cast hhigh)
    have hlast : 255 ≤ v ↔ 255 ≤ ⌊v⌋ := by
      rw [Int.le_floor]
      norm_num
    rw [truncate_of_nonneg hpos, roundAway_of_nonneg hpos, hlast]
    have hnonneg : ¬v < 0 := not_lt.mpr hpos
    split
    · rename_i hhalf
      constructor
      · intro _
        exact Or.inr (Or.inr hhalf)
      · intro _
        omega
    · rename_i hhalf
      constructor
      · intro h
        right
        left
        omega
      · rintro (h | h | h)
        · exact absurd h hnonneg
        · omega
        · exact absurd h hhalf

theorem lround_eq {v : ℚ} (hlow : -1 < v) (hhigh : v < 256) : lround v = some (roundAway v) := by
  have hbounds : -9223372036854775808 ≤ roundAway v ∧ roundAway v < 9223372036854775808 := by
    rcases lt_or_ge v 0 with hneg | hpos
    · have hle := roundAway_of_neg hneg
      have hge : (-2 : ℤ) < roundAway v := by
        unfold roundAway
        rw [if_neg (not_le.mpr hneg), Int.lt_ceil]
        push_cast
        linarith
      omega
    · have hfloor : 0 ≤ ⌊v⌋ := Int.floor_nonneg.mpr hpos
      have hbyte : ⌊v⌋ < 256 := Int.floor_lt.mpr (by exact_mod_cast hhigh)
      rw [roundAway_of_nonneg hpos]
      split <;> omega
  unfold lround
  exact if_pos hbounds

theorem ofNat_toNat_inj {a b : ℤ} (ha : 0 ≤ a ∧ a < 256) (hb : 0 ≤ b ∧ b < 256) :
    UInt8.ofNat a.toNat = UInt8.ofNat b.toNat ↔ a = b := by
  constructor
  · intro h
    have hasize : a.toNat < UInt8.size := by
      change a.toNat < 256
      omega
    have hbsize : b.toNat < UInt8.size := by
      change b.toNat < 256
      omega
    have h' := congrArg UInt8.toNat h
    rw [UInt8.toNat_ofNat_of_lt' hasize, UInt8.toNat_ofNat_of_lt' hbsize] at h'
    omega
  · intro h
    rw [h]

/-- The narrowing of the driver and the rounding of the converter, compared. -/
theorem sameReflectivity_iff (intensity : UInt32) :
    (∃ r, floatToUInt8 intensity = some r ∧ toReflectivity intensity = some r) ↔
      SameReflectivity intensity := by
  unfold floatToUInt8 toReflectivity SameReflectivity
  cases decode32 intensity with
  | none => simp
  | some v =>
    by_cases hbyte : -1 < v ∧ v < 256
    · have hclamp : 0 ≤ max 0 (min (roundAway v) 255) ∧ max 0 (min (roundAway v) 255) < 256 := by
        omega
      have htruncate := (truncate_byte_iff v).mpr hbyte
      have hsame : (∃ r, some (UInt8.ofNat (truncate v).toNat) = some r ∧
          some (UInt8.ofNat (max 0 (min (roundAway v) 255)).toNat) = some r) ↔
          v < 0 ∨ 255 ≤ v ∨ v - ⌊v⌋ < 1 / 2 := by
        rw [← truncate_eq_clamp_iff hbyte.1 hbyte.2, ← ofNat_toNat_inj htruncate hclamp]
        simp [eq_comm]
      simpa [htruncate, lround_eq hbyte.1 hbyte.2, hbyte.1, hbyte.2] using hsame
    · have htruncate := mt (truncate_byte_iff v).mp hbyte
      constructor
      · rintro ⟨r, hr, -⟩
        simp [htruncate] at hr
      · rintro ⟨w, hw, hlow, hhigh, -⟩
        obtain rfl := Option.some.inj hw
        exact absurd ⟨hlow, hhigh⟩ hbyte

/-! ## Offset time -/

/-- Both formats make the same of this time of a point: it is not before the base time by
anything but a multiple of the range of the offset, and not behind it by more than the range
unless the offset wraps to the last. -/
def SameOffset (baseTime offsetTime : UInt64) : Prop :=
  (offsetTime ≤ baseTime ∧ 4294967296 ∣ baseTime.toNat - offsetTime.toNat) ∨
    (baseTime < offsetTime ∧ (offsetTime.toNat - baseTime.toNat < 4294967296 ∨
      (offsetTime.toNat - baseTime.toNat) % 4294967296 = 4294967295))

instance (baseTime offsetTime : UInt64) : Decidable (SameOffset baseTime offsetTime) :=
  inferInstanceAs (Decidable (_ ∨ _))

theorem toOffsetTime_of_le {t b : ℕ} (h : t ≤ b) : toOffsetTime (some t) (some b) = 0 := by
  have hle : (t : ℚ) - b ≤ 0 := by
    rw [sub_nonpos]
    exact_mod_cast h
  exact if_pos hle

theorem toOffsetTime_of_lt {t b : ℕ} (h : b < t) :
    toOffsetTime (some t) (some b) = UInt32.ofNat (min (t - b) 4294967295) := by
  have hpos : ¬(t : ℚ) - b ≤ 0 := by
    rw [sub_nonpos, not_le]
    exact_mod_cast h
  have hsub : (t : ℚ) - b = (t - b : ℕ) := by
    rw [Nat.cast_sub h.le]
  refine (if_neg hpos).trans ?_
  rw [hsub, roundAway_natCast]
  congr 1
  omega

/-- The offset of the driver as a number. -/
theorem toNat_toUInt32_sub (t b : UInt64) :
    (t - b).toUInt32.toNat = (18446744073709551616 - b.toNat + t.toNat) % 4294967296 := by
  rw [UInt64.toNat_toUInt32, UInt64.toNat_sub]
  omega

/-- The wrapping of the driver and the clamping of the converter, compared. -/
theorem sameOffset_iff (t b : UInt64) :
    (t - b).toUInt32 = toOffsetTime (some t.toNat) (some b.toNat) ↔ SameOffset b t := by
  have ht := t.toNat_lt
  have hb := b.toNat_lt
  unfold SameOffset
  rw [← UInt32.toNat_inj, toNat_toUInt32_sub, UInt64.le_iff_toNat_le, UInt64.lt_iff_toNat_lt]
  rcases Nat.lt_or_ge b.toNat t.toNat with hlt | hle
  · have hsize : min (t.toNat - b.toNat) 4294967295 < UInt32.size := by
      change _ < 4294967296
      omega
    rw [toOffsetTime_of_lt hlt, UInt32.toNat_ofNat_of_lt' hsize]
    omega
  · rw [toOffsetTime_of_le hle]
    have hzero : (0 : UInt32).toNat = 0 := rfl
    rw [hzero]
    omega

/-! ## Points and packets -/

/-- Both formats make the same of this point. -/
structure SamePoint (baseTime : UInt64) (p : PointXyzlt) : Prop where
  reflectivity : SameReflectivity p.intensity
  offset : SameOffset baseTime p.offsetTime

theorem samePoint_iff (baseTime : UInt64) (p : PointXyzlt) :
    (∃ c, p.converted baseTime = some c ∧ p.toCustomPoint baseTime = some c) ↔
      SamePoint baseTime p := by
  constructor
  · rintro ⟨c, hconverted, hcustom⟩
    obtain ⟨r, hr, hrc⟩ := Option.bind_eq_some_iff.mp hconverted
    obtain ⟨r', hr', hrc'⟩ := Option.bind_eq_some_iff.mp hcustom
    obtain rfl := Option.some.inj hrc
    have hsame := Option.some.inj hrc'
    rw [CustomPoint.mk.injEq] at hsame
    obtain ⟨hoffset, -, -, -, rfl, -, -⟩ := hsame
    exact
      { reflectivity := (sameReflectivity_iff p.intensity).mp ⟨r', hr', hr⟩
        offset := (sameOffset_iff p.offsetTime baseTime).mp hoffset }
  · intro h
    obtain ⟨r, hcustom, hconverted⟩ := (sameReflectivity_iff p.intensity).mpr h.reflectivity
    have hoffset := (sameOffset_iff p.offsetTime baseTime).mpr h.offset
    refine ⟨_, by unfold PointXyzlt.converted; rw [hconverted]; rfl, ?_⟩
    unfold PointXyzlt.toCustomPoint
    rw [hcustom, hoffset]
    rfl

/-- The same time base, the same number of points and the same points. -/
structure CustomMsg.SameData {Stamp : Type} (a b : CustomMsg Stamp) : Prop where
  timebase : a.timebase = b.timebase
  pointNum : a.pointNum = b.pointNum
  points : a.points = b.points

section Packet

variable {Stamp : Type} (time : RosTime Stamp) (frameId : String) (lidar : LidarDevice)
  (lidarId : UInt8) (cloud : PointCloud2 Stamp) (timestamp : UInt64)

/-- The `PointCloud2` of the packet, converted. -/
def convertedMsg (pkg : StoragePacket) : Option (CustomMsg Stamp) :=
  (initPointcloud2Msg time frameId pkg cloud timestamp).bind fun out => convert time lidarId out.1

/-- The packet gives the same `CustomMsg` on both paths. -/
def FormatsAgree (pkg : StoragePacket) : Prop :=
  ∃ out msg, convertedMsg time frameId lidarId cloud timestamp pkg = some out ∧
    customMsg time frameId pkg lidar = some msg ∧ out.SameData msg

/-- The points are there, the base time fits a stamp and no point is converted differently. -/
structure Convertible (pkg : StoragePacket) : Prop where
  count : pkg.pointsNum.toNat ≤ pkg.points.length
  baseTime : pkg.baseTime.toNat < 2147483648000000000
  points : ∀ p ∈ pkg.points.take pkg.pointsNum.toNat, SamePoint pkg.baseTime p

theorem customMsg_eq {pkg : StoragePacket}
    (hnum : pkg.pointsNum.toNat ≤ pkg.points.length) :
    customMsg time frameId pkg lidar =
      ((pkg.points.take pkg.pointsNum.toNat).mapM (PointXyzlt.toCustomPoint pkg.baseTime)).map
        fun points => { initCustomMsg time frameId pkg lidar with points := points } := by
  unfold customMsg fillPointsToCustomMsg
  rw [mapM_range hnum, Option.map_eq_bind]
  rfl

theorem count_of_customMsg {pkg : StoragePacket} {msg : CustomMsg Stamp}
    (h : customMsg time frameId pkg lidar = some msg) :
    pkg.pointsNum.toNat ≤ pkg.points.length := by
  by_contra hnum
  unfold customMsg fillPointsToCustomMsg at h
  rw [mapM_range_eq_none (by omega)] at h
  cases h

/-- The converted message of a packet whose points are there. -/
theorem convertedMsg_eq {pkg : StoragePacket} (hne : pkg.points ≠ [])
    (hnum : pkg.pointsNum.toNat ≤ pkg.points.length) :
    convertedMsg time frameId lidarId cloud timestamp pkg =
      convert time lidarId (driverCloud time frameId pkg pkg.baseTime) := by
  unfold convertedMsg
  rw [initPointcloud2Msg_eq time frameId hnum hne]
  rfl

theorem timebase_initCustomMsg {pkg : StoragePacket} (hne : pkg.points ≠ []) :
    (initCustomMsg time frameId pkg lidar).timebase = pkg.baseTime := by
  have hempty : pkg.points.isEmpty = false := by simpa using hne
  unfold initCustomMsg
  rw [hempty]
  rfl

/-- A packet with the same message on both paths is convertible. -/
theorem FormatsAgree.convertible {pkg : StoragePacket} (hne : pkg.points ≠ [])
    (h : FormatsAgree time frameId lidar lidarId cloud timestamp pkg) : Convertible pkg := by
  obtain ⟨out, msg, hout, hmsg, hsame⟩ := h
  have hnum := count_of_customMsg time frameId lidar hmsg
  rw [customMsg_eq time frameId lidar hnum] at hmsg
  obtain ⟨points, hpoints, rfl⟩ := Option.map_eq_some_iff.mp hmsg
  rw [convertedMsg_eq time frameId lidarId cloud timestamp hne hnum,
    convert_driverCloud time frameId hnum] at hout
  obtain ⟨n, hn, hout⟩ := Option.bind_eq_some_iff.mp hout
  obtain ⟨points', hpoints', hout⟩ := Option.bind_eq_some_iff.mp hout
  obtain rfl := Option.some.inj hout
  have hlt := time.nanoseconds_lt _ _ hn
  have htimebase : UInt64.ofNat n = pkg.baseTime :=
    hsame.timebase.trans (timebase_initCustomMsg time frameId lidar hne)
  have hbase : pkg.baseTime.toNat = n := by
    rw [← htimebase, UInt64.toNat_ofNat_of_lt' (hlt.trans (by decide))]
  have hsamePoints : points' = points := hsame.points
  rw [htimebase, hsamePoints] at hpoints'
  exact
    { count := hnum
      baseTime := hbase ▸ hlt
      points := fun p hp =>
        (samePoint_iff pkg.baseTime p).mp (mapM_agree_iff.mp ⟨points, hpoints', hpoints⟩ p hp) }

/-- A convertible packet has the same message on both paths. -/
theorem Convertible.formatsAgree {pkg : StoragePacket} (hne : pkg.points ≠ [])
    (h : Convertible pkg) : FormatsAgree time frameId lidar lidarId cloud timestamp pkg := by
  obtain ⟨points, hconverted, hcustom⟩ := mapM_agree_iff.mpr fun p hp =>
    (samePoint_iff pkg.baseTime p).mpr (h.points p hp)
  have hlength : points.length = pkg.pointsNum.toNat := by
    rw [length_of_mapM hcustom, List.length_take, Nat.min_eq_left h.count]
  have htimebase : UInt64.ofNat pkg.baseTime.toNat = pkg.baseTime := UInt64.ofNat_toNat
  have hout : convertedMsg time frameId lidarId cloud timestamp pkg = some
      { header := (driverCloud time frameId pkg pkg.baseTime).header
        timebase := pkg.baseTime
        pointNum := UInt32.ofNat points.length
        lidarId := lidarId
        points := points } := by
    rw [convertedMsg_eq time frameId lidarId cloud timestamp hne h.count,
      convert_driverCloud time frameId h.count, time.nanoseconds_stamp _ h.baseTime]
    simp only [Option.bind_eq_bind, Option.bind_some, htimebase, hconverted]
    rfl
  have hmsg : customMsg time frameId pkg lidar =
      some { initCustomMsg time frameId pkg lidar with points := points } := by
    rw [customMsg_eq time frameId lidar h.count, hcustom]
    rfl
  refine ⟨_, _, hout, hmsg, ?_⟩
  constructor
  · exact (timebase_initCustomMsg time frameId lidar hne).symm
  · change UInt32.ofNat points.length = pkg.pointsNum
    rw [hlength, UInt32.ofNat_toNat]
  · rfl

/-- Exactly the convertible packets have the same message on both paths. -/
theorem formats_agree_iff {pkg : StoragePacket} (hne : pkg.points ≠ []) :
    FormatsAgree time frameId lidar lidarId cloud timestamp pkg ↔ Convertible pkg := by
  constructor
  · exact FormatsAgree.convertible time frameId lidar lidarId cloud timestamp hne
  · exact Convertible.formatsAgree time frameId lidar lidarId cloud timestamp hne

end Packet

/-! ## A clock and two packets -/

/-- `rclcpp::Time` with seconds and nanoseconds; the seconds wrap to 32 bits. -/
def secondsTime : RosTime (ℤ × ℕ) where
  stamp t :=
    ((t.toNat / 1000000000 + 2147483648 : ℤ) % 4294967296 - 2147483648, t.toNat % 1000000000)
  nanoseconds stamp :=
    if stamp.1 < 0 then none else some (stamp.1.toNat * 1000000000 + stamp.2)
  nanoseconds_stamp t ht := by
    have hseconds : ((t.toNat / 1000000000 + 2147483648 : ℤ) % 4294967296 - 2147483648) =
        (t.toNat / 1000000000 : ℕ) := by
      omega
    dsimp only
    rw [hseconds, if_neg (by omega), Int.toNat_natCast, Nat.div_add_mod']
  nanoseconds_lt t n h := by
    dsimp only at h
    split at h
    · cases h
    · obtain rfl := Option.some.inj h
      omega

/-- A message before it is filled. -/
def blankCloud : PointCloud2 (ℤ × ℕ) where
  header := { stamp := (0, 0), frameId := "" }
  height := 0
  width := 0
  fields := []
  isBigendian := false
  pointStep := 0
  rowStep := 0
  data := []
  isDense := false

/-- A point at this time, with an intensity of 40. -/
def pointAt (offsetTime : UInt64) : PointXyzlt where
  x := 0x3f800000
  y := 0x40000000
  z := 0
  intensity := 0x42200000
  tag := 16
  line := 3
  offsetTime := offsetTime

theorem sameReflectivity_pointAt (offsetTime : UInt64) :
    SameReflectivity (pointAt offsetTime).intensity := by
  have hforty : decode32 0x42200000 = some 40 := by decide +kernel
  exact ⟨40, hforty, by norm_num, by norm_num, Or.inr (Or.inr (by norm_num))⟩

/-- Two points, the second at the end of the range of the offset. -/
theorem formats_agree_range :
    FormatsAgree secondsTime "livox_frame" ⟨kLivoxLidarType, 7⟩ 0 blankCloud 0
      ⟨1000000000000, 2, [pointAt 1000000000000, pointAt 1004294967295]⟩ := by
  apply (formats_agree_iff secondsTime "livox_frame" ⟨kLivoxLidarType, 7⟩ 0 blankCloud 0
    (by simp)).mpr
  constructor
  · decide
  · decide
  · intro p hp
    have hp' : p ∈ [pointAt 1000000000000, pointAt 1004294967295] := hp
    rw [List.mem_pair] at hp'
    rcases hp' with rfl | rfl
    · exact ⟨sameReflectivity_pointAt _, by decide⟩
    · exact ⟨sameReflectivity_pointAt _, by decide⟩

/-- A point one nanosecond before the base time: the offset is 4294967295 in the message of the
driver and 0 in the converted one. -/
theorem formats_differ :
    ¬FormatsAgree secondsTime "livox_frame" ⟨kLivoxLidarType, 7⟩ 0 blankCloud 0
      ⟨1000000000000, 1, [pointAt 999999999999]⟩ := by
  intro h
  have hconvertible := h.convertible secondsTime "livox_frame" ⟨kLivoxLidarType, 7⟩ 0 blankCloud 0
    (by simp)
  have hoffset := (hconvertible.points (pointAt 999999999999) (by decide)).offset
  exact absurd hoffset (by decide)

end FastLivo.Livox
