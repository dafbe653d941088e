import FastLivo.Lib.CheckedAccess
import FastLivo.Lib.Outcome
import FastLivo.Livox.FormatAgreement

/-!
# Where the converters read and write

Both converters check a `PointCloud2` before they loop over its points. The checks add in 32 and in
64 bits and the loops do not, so a message passes whose sums wrap around and whose points lie
behind its data. The row step of the output wraps around as well. Before the loop both make room for
the output, which throws where a vector cannot be that long.
-/

namespace FastLivo.Livox

open Lib

/-- A byte of a message. -/
abbrev Byte : Type := Memory.Fragment Scalar

/-- Whether a vector gets so many bytes. It throws `std::length_error` above `PTRDIFF_MAX` and
`std::bad_alloc` where there is no room. -/
def allocates (room : ℕ → Bool) (bytes : ℕ) : Bool :=
  bytes = 0 ∨ bytes ≤ 9223372036854775807 ∧ room bytes

/-! ## The node `pointcloud2_to_custom` -/

/-- `sizeof` of a generated `CustomPoint`: four members of four bytes and three of one. -/
def CustomPoint.sizeof : ℕ := 20

/-- The fields of `validate` with their sizes. -/
def PointFields.sized (fields : PointFields) : List (PointField × UInt32) :=
  [(fields.x, 4), (fields.y, 4), (fields.z, 4), (fields.intensity, 4), (fields.tag, 1),
    (fields.line, 1), (fields.timestamp, 8)]

/-- The bytes that `convert` reads of the point at this address. -/
def PointFields.fetchPoint (fields : PointFields) (data : List Byte) (point : ℕ) :
    Option (List (List Byte)) :=
  fields.sized.mapM fun f => loadBytes data (point + f.1.offset.toNat) f.2.toNat

section Cloud

variable {Stamp : Type}

/-- The bytes that the loop of `convert` reads. -/
def PointFields.fetchCloud (fields : PointFields) (cloud : PointCloud2 Stamp) :
    Option (List (List (List (List Byte)))) :=
  (List.range cloud.height.toNat).mapM fun row =>
    (List.range cloud.width.toNat).mapM fun col =>
      fields.fetchPoint cloud.data (row * cloud.rowStep.toNat + col * cloud.pointStep.toNat)

/-- `output.points.reserve` does not throw. -/
def PointCloud2.reserves (room : ℕ → Bool) (cloud : PointCloud2 Stamp) : Bool :=
  allocates room (cloud.width.toNat * cloud.height.toNat * CustomPoint.sizeof)

/-- The bytes that `convert` reads, which are none if it rejects the cloud, its time is negative or
there is no room for the points. -/
def convertFetch (time : RosTime Stamp) (room : ℕ → Bool) (cloud : PointCloud2 Stamp) :
    Option (List (List (List (List Byte)))) :=
  match validate cloud, time.nanoseconds cloud.header.stamp with
  | .ok fields, some _ => if cloud.reserves room then fields.fetchCloud cloud else some []
  | _, _ => some []

end Cloud

/-! ## The node `livox_pointcloud_converter` -/

/-- `kOutputPointStep`. -/
def kOutputPointStep : UInt32 := 24

/-- The fields that `validate_input` finds. -/
structure InputFields where
  x : PointField
  y : PointField
  z : PointField
  intensity : PointField
  timestamp : PointField
  deriving DecidableEq, Repr

/-- The fields of `validate_input` with their sizes. -/
def InputFields.sized (fields : InputFields) : List (PointField × UInt32) :=
  [(fields.x, 4), (fields.y, 4), (fields.z, 4), (fields.intensity, 4), (fields.timestamp, 8)]

/-- The bytes of the relative time of a point, from the nanoseconds of its message and the bytes of
its `timestamp`: a `double` that is zero where the difference is not finite. -/
structure RelativeTime where
  bytes : ℕ → List Byte → List Byte
  length_bytes : ∀ nanoseconds timestamp, (bytes nanoseconds timestamp).length = 8

/-- A `write_value` of a `read_value`. -/
structure Member where
  field : PointField
  size : UInt32
  offset : ℕ
  value : List Byte → List Byte

section Cloud

variable {Stamp : Type}

/-- `LivoxPointcloudConverter::validate_input`. -/
def validateInput (cloud : PointCloud2 Stamp) : Except String InputFields :=
  match findField cloud "x", findField cloud "y", findField cloud "z",
    findField cloud "intensity", findField cloud "timestamp" with
  | some x, some y, some z, some intensity, some timestamp => do
    let fields : InputFields := ⟨x, y, z, intensity, timestamp⟩
    if [x, y, z, intensity].any (·.datatype ≠ PointField.FLOAT32) ∨
        timestamp.datatype ≠ PointField.FLOAT64 then
      throw ("Unexpected Livox field types: x/y/z/intensity must be FLOAT32 and " ++
        "timestamp FLOAT64")
    if fields.sized.any fun f => f.1.count ≠ 1 ∨ cloud.pointStep < f.1.offset + f.2 then
      throw ("Invalid input PointCloud2 field layout (point_step=" ++ toString cloud.pointStep ++
        ")")
    if cloud.data.length < cloud.requiredSize.toNat then
      throw ("Input PointCloud2 data is truncated: need " ++ toString cloud.requiredSize ++
        " bytes, got " ++ toString cloud.data.length)
    if cloud.isBigendian then throw "Big-endian PointCloud2 input is not supported"
    return fields
  | _, _, _, _, _ =>
    throw "Input cloud must contain x, y, z, intensity and timestamp fields"

/-- What `convert` copies of a point, in order. -/
def InputFields.members (relative : RelativeTime) (frameStamp : ℕ) (fields : InputFields) :
    List Member :=
  [⟨fields.x, 4, 0, id⟩, ⟨fields.y, 4, 4, id⟩, ⟨fields.z, 4, 8, id⟩, ⟨fields.intensity, 4, 12, id⟩,
    ⟨fields.timestamp, 8, 16, relative.bytes frameStamp⟩]

/-- `write_value(output_point, offset, read_value(input_point, field->offset))`. -/
def Member.copy (m : Member) (input : List Byte) (inputPoint outputPoint : ℕ)
    (output : List Byte) : Option (List Byte) := do
  let bytes ← loadBytes input (inputPoint + m.field.offset.toNat) m.size.toNat
  storeBytes output (outputPoint + m.offset) (m.value bytes)

/-- The message that `convert` loops over, of which `data` is zero. -/
def outputMessage (cloud : PointCloud2 Stamp) : PointCloud2 Stamp :=
  let rowStep := cloud.width * kOutputPointStep
  { header := cloud.header
    height := cloud.height
    width := cloud.width
    fields :=
      [ ⟨"x", 0, PointField.FLOAT32, 1⟩, ⟨"y", 4, PointField.FLOAT32, 1⟩,
        ⟨"z", 8, PointField.FLOAT32, 1⟩, ⟨"intensity", 12, PointField.FLOAT32, 1⟩,
        ⟨"time", 16, PointField.FLOAT64, 1⟩ ]
    isBigendian := false
    pointStep := kOutputPointStep
    rowStep := rowStep
    data := List.replicate (rowStep.toNat * cloud.height.toNat) ⟨.uint8 0, 0⟩
    isDense := cloud.isDense }

/-- The message before the loop of `convert`, unless `output.data.resize` throws. -/
def resizedOutput (room : ℕ → Bool) (cloud : PointCloud2 Stamp) : Option (PointCloud2 Stamp) :=
  if allocates room (outputMessage cloud).data.length then some (outputMessage cloud) else none

/-- The data of the output after the loop of `convert`. -/
def InputFields.copyCloud (relative : RelativeTime) (frameStamp : ℕ) (fields : InputFields)
    (cloud output : PointCloud2 Stamp) : Option (List Byte) :=
  (List.range cloud.height.toNat).foldlM (fun data row =>
    (List.range cloud.width.toNat).foldlM (fun data col =>
      (fields.members relative frameStamp).foldlM (fun data m =>
        m.copy cloud.data (row * cloud.rowStep.toNat + col * cloud.pointStep.toNat)
          (row * output.rowStep.toNat + col * output.pointStep.toNat) data) data) data) output.data

/-- `LivoxPointcloudConverter::convert`: the message it publishes, unless it rejects the cloud, there
is no room for the data or its time is negative. `none` when it reads or writes outside of the
data. -/
def convertInput (time : RosTime Stamp) (room : ℕ → Bool) (relative : RelativeTime)
    (cloud : PointCloud2 Stamp) : Option (Option (PointCloud2 Stamp)) :=
  match validateInput cloud, resizedOutput room cloud, time.nanoseconds cloud.header.stamp with
  | .ok fields, some output, some frameStamp =>
    (fields.copyCloud relative frameStamp cloud output).map fun data =>
      some { output with data := data }
  | _, _, _ => some none

end Cloud

/-! ## The last point -/

section Bounds

variable {Stamp : Type} {cloud : PointCloud2 Stamp}

/-- The field of the last point ends inside the data. -/
def PointCloud2.Reaches (cloud : PointCloud2 Stamp) (f : PointField × UInt32) : Prop :=
  (cloud.height.toNat - 1) * cloud.rowStep.toNat + (cloud.width.toNat - 1) * cloud.pointStep.toNat +
    (f.1.offset.toNat + f.2.toNat) ≤ cloud.data.length

/-- The two sums that the validators compare do not wrap around. -/
structure PointCloud2.NoWrap (cloud : PointCloud2 Stamp) (f : PointField × UInt32) : Prop where
  field : f.1.offset.toNat + f.2.toNat < 4294967296
  total : (cloud.height.toNat - 1) * cloud.rowStep.toNat +
    cloud.width.toNat * cloud.pointStep.toNat < 18446744073709551616

/-- What both validators check of the layout. -/
structure PointCloud2.Validated (cloud : PointCloud2 Stamp) (fs : List (PointField × UInt32)) :
    Prop where
  fields : ∀ f ∈ fs, (f.1.offset + f.2).toNat ≤ cloud.pointStep.toNat
  total : cloud.requiredSize.toNat ≤ cloud.data.length

theorem validateField_ensures (name : String) (type : UInt8) (size : UInt32) :
    Ensures (fun _ => True) (fun field => (field.offset + size).toNat ≤ cloud.pointStep.toNat)
      (validateField cloud name type size) := by
  rw [validateField]
  cases findField cloud name with
  | none => exact trivial
  | some field =>
    simp only
    split
    · exact trivial
    · rename_i hbad
      exact Nat.le_of_not_lt fun hlt => hbad (.inr (.inr (UInt32.lt_iff_toNat_lt.mpr hlt)))

theorem validate_ok {fields : PointFields} (h : validate cloud = .ok fields) :
    cloud.Validated fields.sized := by
  refine Ensures.of_ok (E := fun _ => True) (P := fun fields => cloud.Validated fields.sized) ?_ h
  rw [validate]
  refine Ensures.bind (validateField_ensures "x" _ _) fun x hx => ?_
  refine Ensures.bind (validateField_ensures "y" _ _) fun y hy => ?_
  refine Ensures.bind (validateField_ensures "z" _ _) fun z hz => ?_
  refine Ensures.bind (validateField_ensures "intensity" _ _) fun intensity hintensity => ?_
  refine Ensures.bind (validateField_ensures "tag" _ _) fun tag htag => ?_
  refine Ensures.bind (validateField_ensures "line" _ _) fun line hline => ?_
  refine Ensures.bind (validateField_ensures "timestamp" _ _) fun timestamp htimestamp => ?_
  dsimp only
  by_cases hendian : cloud.isBigendian = true
  · rw [if_pos hendian]
    exact trivial
  by_cases hsize : cloud.data.length < cloud.requiredSize.toNat
  · rw [if_neg hendian, if_pos hsize]
    exact trivial
  rw [if_neg hendian, if_neg hsize]
  refine ⟨?_, not_lt.mp hsize⟩
  simp only [PointFields.sized, List.forall_mem_cons]
  exact ⟨hx, hy, hz, hintensity, htag, hline, htimestamp, by simp⟩

theorem validateInput_ok {fields : InputFields} (h : validateInput cloud = .ok fields) :
    cloud.Validated fields.sized := by
  refine Ensures.of_ok (E := fun _ => True) (P := fun fields => cloud.Validated fields.sized) ?_ h
  rw [validateInput]
  split
  · dsimp only
    split
    · exact trivial
    split
    · exact trivial
    split
    · exact trivial
    split
    · exact trivial
    · rename_i hlayout hsize _
      refine ⟨fun f hf => ?_, not_lt.mp hsize⟩
      have hbad := mt (List.any_eq_true.mpr ⟨f, hf, ·⟩) hlayout
      exact Nat.le_of_not_lt fun hlt =>
        hbad (decide_eq_true (.inr (UInt32.lt_iff_toNat_lt.mpr hlt)))
  · exact trivial

/-- Every point of the cloud reaches its fields if and only if the last one does. -/
theorem fields_fit_iff (cloud : PointCloud2 Stamp) (fs : List (PointField × UInt32)) :
    (∀ row < cloud.height.toNat, ∀ col < cloud.width.toNat, ∀ f ∈ fs,
      row * cloud.rowStep.toNat + col * cloud.pointStep.toNat + (f.1.offset.toNat + f.2.toNat) ≤
        cloud.data.length) ↔
      cloud.height = 0 ∨ cloud.width = 0 ∨ ∀ f ∈ fs, cloud.Reaches f := by
  have hzero (n : UInt32) : n = 0 ↔ n.toNat = 0 := UInt32.toNat_inj.symm
  have hfield (f : PointField × UInt32) := raster_fits_iff cloud.height.toNat cloud.width.toNat
    cloud.rowStep.toNat cloud.pointStep.toNat (f.1.offset.toNat + f.2.toNat) cloud.data.length
  rw [hzero, hzero]
  constructor
  · intro h
    by_cases hheight : cloud.height.toNat = 0
    · exact .inl hheight
    by_cases hwidth : cloud.width.toNat = 0
    · exact .inr (.inl hwidth)
    · refine .inr (.inr fun f hf => ?_)
      rcases (hfield f).mp fun row hrow col hcol => h row hrow col hcol f hf with h0 | h0 | hlast
      · exact absurd h0 hheight
      · exact absurd h0 hwidth
      · exact hlast
  · rintro (h0 | h0 | hlast) row hrow col hcol f hf
    · exact (hfield f).mpr (.inl h0) row hrow col hcol
    · exact (hfield f).mpr (.inr (.inl h0)) row hrow col hcol
    · exact (hfield f).mpr (.inr (.inr (hlast f hf))) row hrow col hcol

theorem isSome_fetchCloud_iff (fields : PointFields) :
    (fields.fetchCloud cloud).isSome ↔
      cloud.height = 0 ∨ cloud.width = 0 ∨ ∀ f ∈ fields.sized, cloud.Reaches f := by
  rw [← fields_fit_iff]
  simp only [PointFields.fetchCloud, PointFields.fetchPoint, isSome_mapM_iff,
    isSome_loadBytes_iff, List.mem_range, Nat.add_assoc]

/-- A copy of a member succeeds where both its bytes lie inside, and keeps the size. -/
theorem isSome_copy_iff (m : Member)
    (hvalue : ∀ bytes, bytes.length = m.size.toNat → (m.value bytes).length = m.size.toNat)
    (input output : List Byte) (inputPoint outputPoint : ℕ) :
    (m.copy input inputPoint outputPoint output).isSome ↔
      inputPoint + m.field.offset.toNat + m.size.toNat ≤ input.length ∧
        outputPoint + m.offset + m.size.toNat ≤ output.length := by
  rw [Member.copy]
  cases hload : loadBytes input (inputPoint + m.field.offset.toNat) m.size.toNat with
  | none =>
    have hout := mt isSome_loadBytes_iff.mpr (by rw [hload]; exact Bool.false_ne_true)
    exact iff_of_false Bool.false_ne_true fun h => hout h.1
  | some bytes =>
    have hin := isSome_loadBytes_iff.mp (Option.isSome_of_eq_some hload)
    show (storeBytes output (outputPoint + m.offset) (m.value bytes)).isSome ↔ _
    rw [isSome_storeBytes_iff, hvalue bytes (length_of_loadBytes hload)]
    exact (and_iff_right hin).symm

theorem length_copy {m : Member} {input output output' : List Byte} {inputPoint outputPoint : ℕ}
    (h : m.copy input inputPoint outputPoint output = some output') :
    output'.length = output.length := by
  rw [Member.copy] at h
  obtain ⟨bytes, -, h⟩ := Option.bind_eq_some_iff.mp h
  exact length_of_storeBytes h

theorem length_value {relative : RelativeTime} {frameStamp : ℕ} {fields : InputFields} {m : Member}
    (hm : m ∈ fields.members relative frameStamp) :
    ∀ bytes, bytes.length = m.size.toNat → (m.value bytes).length = m.size.toNat := by
  intro bytes hbytes
  simp only [InputFields.members, List.mem_cons, List.not_mem_nil, or_false] at hm
  rcases hm with rfl | rfl | rfl | rfl | rfl
  · exact hbytes
  · exact hbytes
  · exact hbytes
  · exact hbytes
  · exact relative.length_bytes frameStamp bytes

/-- All members of a point are copied where the point lies inside on both sides. -/
theorem isSome_members_iff (relative : RelativeTime) (frameStamp : ℕ) (fields : InputFields)
    (input output : List Byte) (inputPoint outputPoint : ℕ) :
    ((fields.members relative frameStamp).foldlM
        (fun data (m : Member) => m.copy input inputPoint outputPoint data) output).isSome ↔
      outputPoint + 24 ≤ output.length ∧
        ∀ f ∈ fields.sized, inputPoint + (f.1.offset.toNat + f.2.toNat) ≤ input.length := by
  rw [isSome_foldlM_iff (fun data => data.length = output.length)
    (fun m => inputPoint + m.field.offset.toNat + m.size.toNat ≤ input.length ∧
      outputPoint + m.offset + m.size.toNat ≤ output.length)
    (fun m hm data hdata => hdata ▸ isSome_copy_iff m (length_value hm) input data _ _)
    (fun m _ data data' hdata hcopy => (length_copy hcopy).trans hdata) rfl]
  have hfour : (4 : UInt32).toNat = 4 := rfl
  have height : (8 : UInt32).toNat = 8 := rfl
  simp only [InputFields.members, InputFields.sized, List.forall_mem_cons, List.not_mem_nil,
    false_implies, implies_true, and_true, hfour, height]
  omega

theorem length_members {relative : RelativeTime} {frameStamp : ℕ} {fields : InputFields}
    {input output output' : List Byte} {inputPoint outputPoint : ℕ}
    (h : (fields.members relative frameStamp).foldlM
      (fun data (m : Member) => m.copy input inputPoint outputPoint data) output = some output') :
    output'.length = output.length :=
  foldlM_keeps (fun data => data.length = output.length)
    (fun _ _ _ _ hdata hcopy => (length_copy hcopy).trans hdata) rfl h

theorem toNat_rowStep_outputMessage (cloud : PointCloud2 Stamp) :
    (outputMessage cloud).rowStep.toNat = cloud.width.toNat * 24 % 4294967296 :=
  UInt32.toNat_mul cloud.width kOutputPointStep

/-- The output holds every point if and only if its row step does not wrap around. -/
theorem output_fits_iff (cloud : PointCloud2 Stamp) :
    (∀ row < cloud.height.toNat, ∀ col < cloud.width.toNat,
      row * (outputMessage cloud).rowStep.toNat + col * 24 + 24 ≤
        (outputMessage cloud).data.length) ↔
      cloud.height = 0 ∨ cloud.width = 0 ∨ cloud.width.toNat * 24 < 4294967296 := by
  have hzero (n : UInt32) : n = 0 ↔ n.toNat = 0 := UInt32.toNat_inj.symm
  have hlength : (outputMessage cloud).data.length =
      (outputMessage cloud).rowStep.toNat * cloud.height.toNat := List.length_replicate
  rw [raster_fits_iff, hzero, hzero, hlength, toNat_rowStep_outputMessage]
  by_cases hheight : cloud.height.toNat = 0
  · exact iff_of_true (.inl hheight) (.inl hheight)
  by_cases hwidth : cloud.width.toNat = 0
  · exact iff_of_true (.inr (.inl hwidth)) (.inr (.inl hwidth))
  rw [or_iff_right hheight, or_iff_right hwidth, or_iff_right hheight, or_iff_right hwidth]
  have hrows : cloud.width.toNat * 24 % 4294967296 * cloud.height.toNat =
      (cloud.height.toNat - 1) * (cloud.width.toNat * 24 % 4294967296) +
        cloud.width.toNat * 24 % 4294967296 := by
    rw [Nat.mul_comm, ← Nat.succ_mul, Nat.succ_eq_add_one,
      Nat.sub_add_cancel (Nat.one_le_iff_ne_zero.mpr hheight)]
  rw [hrows]
  omega

theorem isSome_copyCloud_iff (relative : RelativeTime) (frameStamp : ℕ) (fields : InputFields) :
    (fields.copyCloud relative frameStamp cloud (outputMessage cloud)).isSome ↔
      cloud.height = 0 ∨ cloud.width = 0 ∨ (cloud.width.toNat * 24 < 4294967296 ∧ ∀ f ∈ fields.sized, cloud.Reaches f) := by
  let size := (outputMessage cloud).data.length
  have hstep : (outputMessage cloud).pointStep.toNat = 24 := rfl
  have hcols (row : ℕ) (data : List Byte) (hdata : data.length = size) :
      ((List.range cloud.width.toNat).foldlM (fun data col =>
        (fields.members relative frameStamp).foldlM (fun data (m : Member) =>
          m.copy cloud.data (row * cloud.rowStep.toNat + col * cloud.pointStep.toNat)
            (row * (outputMessage cloud).rowStep.toNat +
              col * (outputMessage cloud).pointStep.toNat) data) data) data).isSome ↔
        ∀ col ∈ List.range cloud.width.toNat,
          row * (outputMessage cloud).rowStep.toNat + col * 24 + 24 ≤ size ∧
            ∀ f ∈ fields.sized, row * cloud.rowStep.toNat + col * cloud.pointStep.toNat +
              (f.1.offset.toNat + f.2.toNat) ≤ cloud.data.length :=
    isSome_foldlM_iff (fun data => data.length = size) _
      (fun col _ data hdata => hdata ▸ isSome_members_iff relative _ fields cloud.data data _ _)
      (fun col _ data data' hdata hcopy => (length_members hcopy).trans hdata) hdata
  have hrows : (fields.copyCloud relative frameStamp cloud (outputMessage cloud)).isSome ↔
      ∀ row ∈ List.range cloud.height.toNat, ∀ col ∈ List.range cloud.width.toNat,
        row * (outputMessage cloud).rowStep.toNat + col * 24 + 24 ≤ size ∧
          ∀ f ∈ fields.sized, row * cloud.rowStep.toNat + col * cloud.pointStep.toNat +
            (f.1.offset.toNat + f.2.toNat) ≤ cloud.data.length :=
    isSome_foldlM_iff (fun data => data.length = size) _ (fun row _ => hcols row)
      (fun row _ data data' hdata hcopy => foldlM_keeps (fun data => data.length = size)
        (fun col _ data data' hdata hcopy => (length_members hcopy).trans hdata) hdata hcopy) rfl
  have hwrites := output_fits_iff cloud
  have hreads := fields_fit_iff cloud fields.sized
  simp only [List.mem_range] at hrows
  rw [hrows]
  constructor
  · intro h
    have hwrite := hwrites.mp fun row hrow col hcol => (h row hrow col hcol).1
    have hread := hreads.mp fun row hrow col hcol => (h row hrow col hcol).2
    rcases hwrite with h0 | h0 | hwrite
    · exact .inl h0
    · exact .inr (.inl h0)
    · exact hread.imp_right (Or.imp_right fun hread => ⟨hwrite, hread⟩)
  · intro h row hrow col hcol
    exact ⟨hwrites.mpr (h.imp_right (Or.imp_right And.left)) row hrow col hcol,
      hreads.mpr (h.imp_right (Or.imp_right And.right)) row hrow col hcol⟩

/-- The size that `output.data` is given. -/
theorem length_data_outputMessage (cloud : PointCloud2 Stamp) :
    (outputMessage cloud).data.length =
      cloud.width.toNat * 24 % 4294967296 * cloud.height.toNat := by
  rw [← toNat_rowStep_outputMessage]
  exact List.length_replicate

theorem toNat_requiredSize (hheight : cloud.height ≠ 0) : cloud.requiredSize.toNat =
    ((cloud.height.toNat - 1) * cloud.rowStep.toNat +
      cloud.width.toNat * cloud.pointStep.toNat) % 18446744073709551616 := by
  have hpos : 1 ≤ cloud.height.toNat := by
    refine Nat.one_le_iff_ne_zero.mpr fun h => hheight (UInt32.toNat_inj.mp h)
  have hsub : (cloud.height - 1).toNat = cloud.height.toNat - 1 :=
    UInt32.toNat_sub_of_le _ _ (UInt32.le_iff_toNat_le.mpr hpos)
  rw [PointCloud2.requiredSize, if_neg hheight, UInt64.toNat_add, UInt64.toNat_mul,
    UInt64.toNat_mul, UInt32.toNat_toUInt64, UInt32.toNat_toUInt64, UInt32.toNat_toUInt64,
    UInt32.toNat_toUInt64, hsub, ← Nat.add_mod]

/-- For an accepted cloud the last point reaches its fields unless a sum wraps around, or the data
are long enough all the same. -/
theorem reaches_iff {fs : List (PointField × UInt32)} (hvalid : cloud.Validated fs)
    (hheight : cloud.height ≠ 0) (hwidth : cloud.width ≠ 0) {f : PointField × UInt32}
    (hf : f ∈ fs) :
    cloud.Reaches f ↔ cloud.NoWrap f ∨ (4294967296 ≤ cloud.data.length ∧ cloud.Reaches f) := by
  have hstep := cloud.pointStep.toNat_lt
  have hlast : cloud.width.toNat * cloud.pointStep.toNat =
      (cloud.width.toNat - 1) * cloud.pointStep.toNat + cloud.pointStep.toNat := by
    have hpos : cloud.width.toNat ≠ 0 := fun h => hwidth (UInt32.toNat_inj.mp h)
    rw [← Nat.succ_mul, Nat.succ_eq_add_one, Nat.sub_add_cancel (Nat.one_le_iff_ne_zero.mpr hpos)]
  constructor
  · intro hreach
    rcases Nat.lt_or_ge cloud.data.length 4294967296 with hshort | hlong
    · refine .inl ⟨?_, ?_⟩
      · rw [PointCloud2.Reaches] at hreach
        omega
      · rw [PointCloud2.Reaches] at hreach
        omega
    · exact .inr ⟨hlong, hreach⟩
  · rintro (⟨hfield, htotal⟩ | ⟨-, hreach⟩)
    · have hoffset := hvalid.fields f hf
      have hsize := hvalid.total
      rw [UInt32.toNat_add, Nat.mod_eq_of_lt hfield] at hoffset
      rw [toNat_requiredSize hheight, Nat.mod_eq_of_lt htotal] at hsize
      rw [PointCloud2.Reaches]
      omega
    · exact hreach

/-- Inside an accepted cloud, the reads of every point in terms of the sums of the validators. -/
theorem reads_iff {fs : List (PointField × UInt32)} (hvalid : cloud.Validated fs) :
    (cloud.height = 0 ∨ cloud.width = 0 ∨ ∀ f ∈ fs, cloud.Reaches f) ↔
      cloud.height = 0 ∨ cloud.width = 0 ∨ ∀ f ∈ fs, cloud.NoWrap f ∨
        (4294967296 ≤ cloud.data.length ∧ cloud.Reaches f) := by
  by_cases hheight : cloud.height = 0
  · exact iff_of_true (.inl hheight) (.inl hheight)
  by_cases hwidth : cloud.width = 0
  · exact iff_of_true (.inr (.inl hwidth)) (.inr (.inl hwidth))
  rw [or_iff_right hheight, or_iff_right hwidth, or_iff_right hheight, or_iff_right hwidth]
  exact forall₂_congr fun f hf => reaches_iff hvalid hheight hwidth hf

/-- The converters stay inside the data of the clouds they accept as long as no sum of the
validators wraps around, and with it the row step of the output. -/
theorem converters_in_bounds_iff (time : RosTime Stamp) (room : ℕ → Bool) (relative : RelativeTime)
    (cloud : PointCloud2 Stamp) :
    (∀ fields, validate cloud = .ok fields → ((convertFetch time room cloud).isSome ↔
      time.nanoseconds cloud.header.stamp = none ∨
      allocates room (cloud.width.toNat * cloud.height.toNat * 20) = false ∨
      cloud.height = 0 ∨ cloud.width = 0 ∨
        ∀ f ∈ fields.sized, cloud.NoWrap f ∨
          (4294967296 ≤ cloud.data.length ∧ cloud.Reaches f))) ∧
    (∀ fields, validateInput cloud = .ok fields → ((convertInput time room relative cloud).isSome ↔
      time.nanoseconds cloud.header.stamp = none ∨
      allocates room (cloud.width.toNat * 24 % 4294967296 * cloud.height.toNat) = false ∨
      cloud.height = 0 ∨ cloud.width = 0 ∨
        (cloud.width.toNat * 24 < 4294967296 ∧ ∀ f ∈ fields.sized, cloud.NoWrap f ∨
          (4294967296 ≤ cloud.data.length ∧ cloud.Reaches f)))) := by
  constructor
  · intro fields hfields
    cases htime : time.nanoseconds cloud.header.stamp with
    | none => simp [convertFetch, htime]
    | some frameStamp =>
      rw [or_iff_right (Option.some_ne_none frameStamp)]
      cases hroom : cloud.reserves room with
      | false =>
        have hnone : convertFetch time room cloud = some [] := by
          simp [convertFetch, hfields, htime, hroom]
        rw [hnone]
        exact iff_of_true rfl (.inl hroom)
      | true =>
        have hloop : convertFetch time room cloud = fields.fetchCloud cloud := by
          simp [convertFetch, hfields, htime, hroom]
        rw [hloop, isSome_fetchCloud_iff, reads_iff (validate_ok hfields)]
        exact (or_iff_right (show ¬cloud.reserves room = false by simp [hroom])).symm
  · intro fields hfields
    cases htime : time.nanoseconds cloud.header.stamp with
    | none => simp [convertInput, htime]
    | some frameStamp =>
      rw [or_iff_right (Option.some_ne_none frameStamp), ← length_data_outputMessage]
      cases hroom : allocates room (outputMessage cloud).data.length with
      | false => simp [convertInput, resizedOutput, hroom]
      | true =>
        have hloop : (convertInput time room relative cloud).isSome ↔
            (fields.copyCloud relative frameStamp cloud (outputMessage cloud)).isSome := by
          simp [convertInput, hfields, htime, resizedOutput, hroom]
        have hreads := reads_iff (validateInput_ok hfields)
        rw [hloop, isSome_copyCloud_iff, or_iff_right (Bool.false_ne_true.symm)]
        by_cases hheight : cloud.height = 0
        · exact iff_of_true (.inl hheight) (.inl hheight)
        by_cases hwidth : cloud.width = 0
        · exact iff_of_true (.inr (.inl hwidth)) (.inr (.inl hwidth))
        rw [or_iff_right hheight, or_iff_right hwidth, or_iff_right hheight, or_iff_right hwidth]
          at hreads ⊢
        rw [hreads]

end Bounds

/-! ## One point -/

/-- A cloud of one point in the layout of the driver, but for the offset of its time. -/
def onePoint (timestampOffset : UInt32) : PointCloud2 (ℤ × ℕ) where
  header := { stamp := (0, 0), frameId := "livox_frame" }
  height := 1
  width := 1
  fields :=
    [ ⟨"x", 0, PointField.FLOAT32, 1⟩, ⟨"y", 4, PointField.FLOAT32, 1⟩,
      ⟨"z", 8, PointField.FLOAT32, 1⟩, ⟨"intensity", 12, PointField.FLOAT32, 1⟩,
      ⟨"tag", 16, PointField.UINT8, 1⟩, ⟨"line", 17, PointField.UINT8, 1⟩,
      ⟨"timestamp", timestampOffset, PointField.FLOAT64, 1⟩ ]
  isBigendian := false
  pointStep := 26
  rowStep := 26
  data := List.replicate 26 ⟨.uint8 0, 0⟩
  isDense := true

/-- The times of a cloud whose times are all its stamp. -/
def zeroTime : RelativeTime where
  bytes _ _ := Memory.bytesOf Scalar.size (.float64 (some 0))
  length_bytes _ _ := Memory.length_bytesOf Scalar.size (.float64 (some 0))

/-- The fields of `onePoint`, as `validate_input` finds them. -/
def onePointFields (timestampOffset : UInt32) : InputFields where
  x := ⟨"x", 0, PointField.FLOAT32, 1⟩
  y := ⟨"y", 4, PointField.FLOAT32, 1⟩
  z := ⟨"z", 8, PointField.FLOAT32, 1⟩
  intensity := ⟨"intensity", 12, PointField.FLOAT32, 1⟩
  timestamp := ⟨"timestamp", timestampOffset, PointField.FLOAT64, 1⟩

/-- A cloud without data whose points have no size: a vector cannot hold that many of them. -/
def hugeCloud : PointCloud2 (ℤ × ℕ) where
  header := { stamp := (0, 0), frameId := "livox_frame" }
  height := 2147483648
  width := 2147483648
  fields :=
    [ ⟨"x", 4294967292, PointField.FLOAT32, 1⟩, ⟨"y", 4294967292, PointField.FLOAT32, 1⟩,
      ⟨"z", 4294967292, PointField.FLOAT32, 1⟩, ⟨"intensity", 4294967292, PointField.FLOAT32, 1⟩,
      ⟨"tag", 4294967295, PointField.UINT8, 1⟩, ⟨"line", 4294967295, PointField.UINT8, 1⟩,
      ⟨"timestamp", 4294967288, PointField.FLOAT64, 1⟩ ]
  isBigendian := false
  pointStep := 0
  rowStep := 0
  data := []
  isDense := true

/-- The fields of `hugeCloud`, as `validate` finds them. -/
def hugeFields : PointFields where
  x := ⟨"x", 4294967292, PointField.FLOAT32, 1⟩
  y := ⟨"y", 4294967292, PointField.FLOAT32, 1⟩
  z := ⟨"z", 4294967292, PointField.FLOAT32, 1⟩
  intensity := ⟨"intensity", 4294967292, PointField.FLOAT32, 1⟩
  tag := ⟨"tag", 4294967295, PointField.UINT8, 1⟩
  line := ⟨"line", 4294967295, PointField.UINT8, 1⟩
  timestamp := ⟨"timestamp", 4294967288, PointField.FLOAT64, 1⟩

/-- The cloud of one point is read and copied, and the huge one not at all. -/
theorem converters_in_bounds_iff_onePoint :
    (convertFetch secondsTime (fun _ => true) (onePoint 18)).isSome ∧
      (convertInput secondsTime (fun _ => true) zeroTime (onePoint 18)).isSome ∧
      (convertFetch secondsTime (fun _ => true) hugeCloud).isSome := by
  have hvalidate : validate (onePoint 18) = .ok driverFields := rfl
  have hinput : validateInput (onePoint 18) = .ok (onePointFields 18) := rfl
  have hhuge : validate hugeCloud = .ok hugeFields := rfl
  obtain ⟨hreads, hcopies⟩ :=
    converters_in_bounds_iff secondsTime (fun _ => true) zeroTime (onePoint 18)
  obtain ⟨hnone, -⟩ := converters_in_bounds_iff secondsTime (fun _ => true) zeroTime hugeCloud
  refine ⟨(hreads driverFields hvalidate).mpr (.inr (.inr (.inr (.inr fun f hf => .inl ?_)))),
    (hcopies (onePointFields 18) hinput).mpr
      (.inr (.inr (.inr (.inr ⟨by decide, fun f hf => .inl ?_⟩)))),
    (hnone hugeFields hhuge).mpr (.inr (.inl rfl))⟩
  · have hall : ∀ f ∈ driverFields.sized, f.1.offset.toNat + f.2.toNat < 4294967296 := by decide
    exact ⟨hall f hf, by decide⟩
  · have hall : ∀ f ∈ (onePointFields 18).sized, f.1.offset.toNat + f.2.toNat < 4294967296 := by
      decide
    exact ⟨hall f hf, by decide⟩

/-- The offset of the time and its size add up to zero: both converters accept the cloud and read
four gigabytes behind its 26 bytes. -/
theorem converters_out_of_bounds :
    ∃ fields input, validate (onePoint 4294967288) = .ok fields ∧
      convertFetch secondsTime (fun _ => true) (onePoint 4294967288) = none ∧
      validateInput (onePoint 4294967288) = .ok input ∧
      convertInput secondsTime (fun _ => true) zeroTime (onePoint 4294967288) = none :=
  ⟨{ driverFields with timestamp := ⟨"timestamp", 4294967288, PointField.FLOAT64, 1⟩ },
    onePointFields 4294967288, rfl, rfl, rfl, rfl⟩

end FastLivo.Livox
