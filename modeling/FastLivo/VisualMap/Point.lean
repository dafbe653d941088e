import FastLivo.Lib.Outcome
import Mathlib.Algebra.Order.BigOperators.Group.List
import Mathlib.Algebra.Order.Field.Basic
import Mathlib.Algebra.Order.Ring.Rat
import Mathlib.Data.List.Nodup
import Mathlib.Tactic.GCongr
import Mathlib.Tactic.Linarith
import Mathlib.Tactic.NormNum
import Mathlib.Tactic.Positivity

/-!
# Visual map points

A point owns the observations in its list; the reference patch is a pointer to one of them.
A pointer is an address, and reading through one is an error unless an observation of the
point has that address.
-/

namespace FastLivo.VisualMap

open Lib

/-! ## Data -/

/-- A patch of an 8-bit image, interpolated between its pixels. -/
structure Patch where
  values : List ℚ
  bounds : ∀ v ∈ values, 0 ≤ v ∧ v ≤ 255
  size : values.length ≤ 2147483647

/-- The members of `Feature` that the map points use. A score that is not a number is `none`. -/
structure Feature where
  address : ℕ
  id : ℕ
  patch : Patch
  score : Option ℚ := some 0

/-- The members of `VisualPoint` that decide about its observations. -/
structure VisualPoint where
  obs : List Feature
  isConverged : Bool := false
  isNormalInitialized : Bool := false
  hasRefPatch : Bool := false
  refPatch : Option ℕ

/-- What a run can stop with. -/
inductive Fault where
  /-- An observation of a point without one is read. -/
  | emptyObs
  /-- `ref_patch` is read through and is none of the observations. -/
  | danglingRef
  /-- `ref_ftr` is used and was not assigned. -/
  | unassignedRef
  /-- `retrieve_voxel_points` holds a null pointer. -/
  | nullPoint
  /-- `frame_counter_` overflows. -/
  | overflow
  deriving DecidableEq, Repr

/-- The faults of the observations and of the reference. -/
def Fault.OfObservation (e : Fault) : Prop := e = .emptyObs ∨ e = .danglingRef ∨ e = .unassignedRef

/-- `std::numeric_limits<float>::max()`. -/
def floatMax : ℚ := 340282346638528859811704183484516925440

namespace VisualPoint

/-- `ref_patch` is an element of `obs_`. -/
def RefValid (p : VisualPoint) : Prop := ∃ f ∈ p.obs, p.refPatch = some f.address

instance (p : VisualPoint) : Decidable p.RefValid := inferInstanceAs (Decidable (∃ f ∈ p.obs, _))

/-! ## `VisualPoint` -/

/-- `VisualPoint::addFrameRef`. -/
def addFrameRef (p : VisualPoint) (f : Feature) : VisualPoint := { p with obs := f :: p.obs }

/-- `VisualPoint::deleteFeatureRef`. -/
def deleteFeatureRef (p : VisualPoint) (ftr : ℕ) : VisualPoint :=
  let q := if p.refPatch = some ftr then { p with refPatch := none, hasRefPatch := false } else p
  { q with obs := q.obs.eraseP fun f => f.address == ftr }

/-- `VisualPoint::findMinScoreFeature`. -/
def findMinScoreFeature (p : VisualPoint) : Option Feature :=
  p.obs.head?.map fun first => (p.obs.foldl lower (first, floatMax)).1
where
  lower (best : Feature × ℚ) (f : Feature) : Feature × ℚ :=
    match f.score with
    | some score => if score < best.2 then (f, score) else best
    | none => best

/-- `VisualPoint::deleteNonRefPatchFeatures`. -/
def deleteNonRefPatchFeatures (p : VisualPoint) : VisualPoint :=
  { p with obs := p.obs.filter fun f => some f.address == p.refPatch }

end VisualPoint

/-! ## Photometric error -/

/-- The squared differences of two patches. -/
def squaredError (a b : Patch) : ℚ :=
  (List.zipWith (fun x y => (x - y) * (x - y)) a.values b.values).sum

/-- `phtometric_errors`: the mean over the observations of other frames, if there are any. -/
def photometricError (obs : List Feature) (f : Feature) : Option ℚ :=
  let others := obs.filter fun g => g.id ≠ f.id
  if others = [] then none
  else some ((others.map fun g => squaredError f.patch g.patch).sum / others.length)

/-- A turn of the loop that looks for the least error. -/
def closer (obs : List Feature) (best : Option Feature × ℚ) (f : Feature) : Option Feature × ℚ :=
  match photometricError obs f with
  | some error => if error < best.2 then (some f, error) else best
  | none => best

/-- The observation that the loop over `obs_` leaves in `ref_ftr`. -/
def closestObservation (obs : List Feature) : Option Feature :=
  (obs.foldl (closer obs) (none, floatMax)).1

/-- The reference that `retrieveFromVisualSparseMap` chooses where `normal_en` is set. -/
def VisualPoint.chooseReference (p : VisualPoint) : Except Fault VisualPoint :=
  match p.obs with
  | [f] => .ok { p with refPatch := some f.address, hasRefPatch := true }
  | _ =>
    if p.hasRefPatch = false then
      match closestObservation p.obs with
      | some f => .ok { p with refPatch := some f.address, hasRefPatch := true }
      | none => .error .unassignedRef
    else if p.RefValid then .ok p
    else .error .danglingRef

/-! ## Score -/

/-- A turn of the loop of `updateReferencePatch`. -/
def better (score : ℕ → Option ℚ) (best : Option Feature × ℚ) (f : Feature) :
    Option Feature × ℚ :=
  match score f.address with
  | some s => if best.2 < s then (some f, s) else best
  | none => best

/-- The observation with the greatest score above -1000. -/
def bestObservation (score : ℕ → Option ℚ) (obs : List Feature) : Option Feature :=
  (obs.foldl (better score) (none, -1000)).1

/-- What `updateReferencePatch` does with a point whose observations changed: `settled` says that
its plane gave it nearly the normal it had, `score` what the correlation with the other patches and
the angle of view give. The mean of a patch that was computed before is not assigned there, so that
any score is possible. -/
def VisualPoint.updateReference (p : VisualPoint) (settled : Bool) (score : ℕ → Option ℚ) :
    VisualPoint :=
  let scored := { p with
    isConverged := if settled = true ∧ 10 < p.obs.length then true else p.isConverged
    obs := p.obs.map fun f => { f with score := score f.address } }
  match bestObservation score p.obs with
  | some f => { scored with refPatch := some f.address, hasRefPatch := true }
  | none => scored

/-! ## The invariant of a point -/

/-- What holds of every point between any two operations. -/
structure PointInv (p : VisualPoint) : Prop where
  ref : p.hasRefPatch = true → p.RefValid
  ids : (p.obs.map Feature.id).Nodup
  count : p.obs.length ≤ 30

/-! ### Deletion -/

theorem VisualPoint.deleteFeatureRef_obs (p : VisualPoint) (ftr : ℕ) :
    (p.deleteFeatureRef ftr).obs = p.obs.eraseP fun f => f.address == ftr := by
  unfold VisualPoint.deleteFeatureRef
  split <;> rfl

/-- A reference that is kept is not the observation that is deleted. -/
theorem PointInv.deleteFeatureRef {p : VisualPoint} (h : PointInv p) (ftr : ℕ) :
    PointInv (p.deleteFeatureRef ftr) := by
  have hsub : List.Sublist (p.deleteFeatureRef ftr).obs p.obs := by
    rw [VisualPoint.deleteFeatureRef_obs]
    exact List.eraseP_sublist
  constructor
  · intro href
    unfold VisualPoint.deleteFeatureRef at href ⊢
    split at href
    · cases href
    · rename_i hne
      rw [if_neg hne]
      obtain ⟨f, hf, haddress⟩ := h.ref href
      have hkept : ¬(f.address == ftr) = true := by
        intro heq
        rw [beq_iff_eq] at heq
        exact hne (heq ▸ haddress)
      have hmem : f ∈ p.obs.eraseP fun g => g.address == ftr :=
        (List.mem_eraseP_of_neg (p := fun g => g.address == ftr) hkept).mpr hf
      exact ⟨f, hmem, haddress⟩
  · exact h.ids.sublist (hsub.map _)
  · exact hsub.length_le.trans h.count

/-- The reference survives the deletion of the others. -/
theorem PointInv.deleteNonRefPatchFeatures {p : VisualPoint} (h : PointInv p) :
    PointInv p.deleteNonRefPatchFeatures := by
  have hsub : List.Sublist p.deleteNonRefPatchFeatures.obs p.obs := List.filter_sublist
  constructor
  · intro href
    obtain ⟨f, hf, haddress⟩ := h.ref href
    refine ⟨f, List.mem_filter.mpr ⟨hf, ?_⟩, haddress⟩
    rw [haddress]
    exact beq_self_eq_true _
  · exact h.ids.sublist (hsub.map _)
  · exact hsub.length_le.trans h.count

/-- An observation by a frame that the point has none of. -/
theorem PointInv.addFrameRef {p : VisualPoint} (h : PointInv p) {f : Feature}
    (hnew : f.id ∉ p.obs.map Feature.id) (hcount : p.obs.length < 30) :
    PointInv (p.addFrameRef f) := by
  constructor
  · intro href
    obtain ⟨g, hg, haddress⟩ := h.ref href
    exact ⟨g, List.mem_cons_of_mem _ hg, haddress⟩
  · exact List.nodup_cons.mpr ⟨hnew, h.ids⟩
  · exact hcount

theorem PointInv.deleteFeatureRef_length {p : VisualPoint} {f : Feature} (hf : f ∈ p.obs) :
    (p.deleteFeatureRef f.address).obs.length < p.obs.length := by
  rw [VisualPoint.deleteFeatureRef_obs]
  have hlength := List.length_eraseP_of_mem (p := fun g => g.address == f.address) hf
    (beq_self_eq_true _)
  have hpos := List.length_pos_of_mem hf
  omega

/-! ### Choice of an observation -/

/-- What a loop that keeps the best element chooses is an element. -/
theorem foldl_choice_mem {step : Option Feature × ℚ → Feature → Option Feature × ℚ}
    (hstep : ∀ best f, (step best f).1 = best.1 ∨ (step best f).1 = some f) {obs l : List Feature}
    (hl : ∀ f ∈ l, f ∈ obs) {best : Option Feature × ℚ} (hbest : ∀ f, best.1 = some f → f ∈ obs)
    {f : Feature} (h : (l.foldl step best).1 = some f) : f ∈ obs := by
  induction l generalizing best with
  | nil => exact hbest f h
  | cons g l ih =>
    obtain ⟨hg, hl⟩ := List.forall_mem_cons.mp hl
    apply ih hl _ h
    intro f' hf'
    rcases hstep best g with hkeep | htake
    · exact hbest f' (hkeep ▸ hf')
    · rw [htake] at hf'
      exact Option.some.inj hf' ▸ hg

theorem closer_fst (obs : List Feature) (best : Option Feature × ℚ) (f : Feature) :
    (closer obs best f).1 = best.1 ∨ (closer obs best f).1 = some f := by
  unfold closer
  split
  · split
    · exact Or.inr rfl
    · exact Or.inl rfl
  · exact Or.inl rfl

theorem better_fst (score : ℕ → Option ℚ) (best : Option Feature × ℚ) (f : Feature) :
    (better score best f).1 = best.1 ∨ (better score best f).1 = some f := by
  unfold better
  split
  · split
    · exact Or.inr rfl
    · exact Or.inl rfl
  · exact Or.inl rfl

theorem closestObservation_mem {obs : List Feature} {f : Feature}
    (h : closestObservation obs = some f) : f ∈ obs :=
  foldl_choice_mem (closer_fst obs) (fun _ hf => hf) (fun _ hf => by cases hf) h

theorem bestObservation_mem {score : ℕ → Option ℚ} {obs : List Feature} {f : Feature}
    (h : bestObservation score obs = some f) : f ∈ obs :=
  foldl_choice_mem (better_fst score) (fun _ hf => hf) (fun _ hf => by cases hf) h

/-- Some observation of a point with observations has the least score. -/
theorem VisualPoint.findMinScoreFeature_mem {p : VisualPoint} (hobs : p.obs ≠ []) :
    ∃ f ∈ p.obs, p.findMinScoreFeature = some f := by
  have hfold : ∀ (l : List Feature) (best : Feature × ℚ), (∀ f ∈ l, f ∈ p.obs) → best.1 ∈ p.obs →
      (l.foldl findMinScoreFeature.lower best).1 ∈ p.obs := by
    intro l
    induction l with
    | nil => exact fun best _ hbest => hbest
    | cons f l ih =>
      intro best hl hbest
      obtain ⟨hf, hl⟩ := List.forall_mem_cons.mp hl
      apply ih _ hl
      unfold findMinScoreFeature.lower
      split
      · split
        · exact hf
        · exact hbest
      · exact hbest
  obtain ⟨first, rest, hp⟩ := List.exists_cons_of_ne_nil hobs
  have hfirst : first ∈ p.obs := by
    rw [hp]
    exact List.mem_cons_self
  have hhead : p.obs.head? = some first := by
    rw [hp]
    rfl
  refine ⟨_, hfold p.obs (first, floatMax) (fun _ hf => hf) hfirst, ?_⟩
  unfold VisualPoint.findMinScoreFeature
  rw [hhead]
  rfl

/-! ### The photometric error is below the greatest `float` -/

theorem mul_self_sub_le {x y : ℚ} (hx : 0 ≤ x ∧ x ≤ 255) (hy : 0 ≤ y ∧ y ≤ 255) :
    (x - y) * (x - y) ≤ 65025 := by
  nlinarith [hx.1, hx.2, hy.1, hy.2]

theorem sum_zipWith_le {a b : List ℚ} (ha : ∀ v ∈ a, 0 ≤ v ∧ v ≤ 255)
    (hb : ∀ v ∈ b, 0 ≤ v ∧ v ≤ 255) :
    (List.zipWith (fun x y => (x - y) * (x - y)) a b).sum ≤ a.length * 65025 := by
  induction a generalizing b with
  | nil => simp
  | cons x a ih =>
    cases b with
    | nil =>
      simp
      positivity
    | cons y b =>
      obtain ⟨hx, ha⟩ := List.forall_mem_cons.mp ha
      obtain ⟨hy, hb⟩ := List.forall_mem_cons.mp hb
      have hhead := mul_self_sub_le hx hy
      have htail := ih ha hb
      rw [List.zipWith_cons_cons, List.sum_cons, List.length_cons]
      push_cast
      linarith

theorem squaredError_le (a b : Patch) : squaredError a b ≤ 2147483647 * 65025 := by
  have hsum : squaredError a b ≤ a.values.length * 65025 := sum_zipWith_le a.bounds b.bounds
  have hsize : (a.values.length : ℚ) ≤ 2147483647 := by exact_mod_cast a.size
  linarith

/-- Where another frame observed the point, the error is a number below the first minimum. -/
theorem photometricError_lt {obs : List Feature} {f g : Feature} (hg : g ∈ obs)
    (hne : g.id ≠ f.id) : ∃ error, photometricError obs f = some error ∧ error < floatMax := by
  have hother : g ∈ obs.filter fun g => g.id ≠ f.id := List.mem_filter.mpr ⟨hg, by simpa using hne⟩
  have hnil : (obs.filter fun g => g.id ≠ f.id) ≠ [] := List.ne_nil_of_mem hother
  have hlength : (0 : ℚ) < (obs.filter fun g => g.id ≠ f.id).length := by
    exact_mod_cast List.length_pos_of_mem hother
  refine ⟨_, if_neg hnil, ?_⟩
  rw [div_lt_iff₀ hlength]
  have hsum : (((obs.filter fun g => g.id ≠ f.id).map fun g =>
      squaredError f.patch g.patch).sum : ℚ) ≤
      (obs.filter fun g => g.id ≠ f.id).length * (2147483647 * 65025) := by
    have hle := List.sum_le_card_nsmul ((obs.filter fun g => g.id ≠ f.id).map fun g =>
      squaredError f.patch g.patch) (2147483647 * 65025) (by
        intro e he
        obtain ⟨g, -, rfl⟩ := List.mem_map.mp he
        exact squaredError_le f.patch g.patch)
    rwa [List.length_map, nsmul_eq_mul] at hle
  have hmax : (2147483647 * 65025 : ℚ) < floatMax := by
    unfold floatMax
    norm_num
  calc _ ≤ ((obs.filter fun g => g.id ≠ f.id).length : ℚ) * (2147483647 * 65025) := hsum
    _ < ((obs.filter fun g => g.id ≠ f.id).length : ℚ) * floatMax := by gcongr
    _ = floatMax * ((obs.filter fun g => g.id ≠ f.id).length : ℚ) := mul_comm _ _

/-- As long as nothing is chosen the minimum is the first one, so that an element below it is
chosen. -/
theorem foldl_closer_isSome {obs l : List Feature} {best : Option Feature × ℚ}
    (hbest : best.1 = none → best.2 = floatMax)
    (h : best.1 ≠ none ∨ ∃ f ∈ l, ∃ error, photometricError obs f = some error ∧
      error < floatMax) : (l.foldl (closer obs) best).1 ≠ none := by
  induction l generalizing best with
  | nil =>
    rcases h with h | ⟨f, hf, -⟩
    · exact h
    · cases hf
  | cons g l ih =>
    apply ih
    · intro hnone
      unfold closer at hnone ⊢
      split at hnone
      · split at hnone
        · cases hnone
        · rename_i hlt
          rw [if_neg hlt]
          exact hbest hnone
      · exact hbest hnone
    · by_cases hchosen : best.1 = none
      · rcases h with h | ⟨f, hf, herror⟩
        · exact absurd hchosen h
        · rcases List.mem_cons.mp hf with rfl | hf
          · obtain ⟨error, herror, hlt⟩ := herror
            left
            unfold closer
            rw [herror, hbest hchosen]
            simp [hlt]
          · exact Or.inr ⟨f, hf, herror⟩
      · left
        rcases closer_fst obs best g with hkeep | htake
        · rw [hkeep]
          exact hchosen
        · rw [htake]
          simp

/-- Two observations of different frames suffice to choose one. -/
theorem closestObservation_isSome {obs : List Feature} (hids : (obs.map Feature.id).Nodup)
    (hlength : 2 ≤ obs.length) : ∃ f, closestObservation obs = some f := by
  match obs, hids, hlength with
  | f :: g :: obs, hids, _ =>
    have hne : g.id ≠ f.id := by
      rw [List.map_cons, List.map_cons, List.nodup_cons] at hids
      intro heq
      exact hids.1 (heq ▸ List.mem_cons_self)
    have herror : ∃ error, photometricError (f :: g :: obs) f = some error ∧ error < floatMax :=
      photometricError_lt (List.mem_cons_of_mem _ List.mem_cons_self) hne
    have hsome : closestObservation (f :: g :: obs) ≠ none :=
      foldl_closer_isSome (fun _ => rfl) (Or.inr ⟨f, List.mem_cons_self, herror⟩)
    exact Option.ne_none_iff_exists'.mp hsome

/-! ### Choice of the reference -/

theorem PointInv.of_obs {p q : VisualPoint} (h : PointInv p) (hobs : q.obs = p.obs)
    (href : q.hasRefPatch = true → q.RefValid) : PointInv q :=
  ⟨href, hobs ▸ h.ids, hobs ▸ h.count⟩

/-- A point with observations gets a reference, and keeps its observations. -/
theorem PointInv.chooseReference {p : VisualPoint} (h : PointInv p) (hobs : p.obs ≠ []) :
    ∃ q, p.chooseReference = .ok q ∧ PointInv q ∧ q.hasRefPatch = true ∧ q.obs = p.obs := by
  unfold VisualPoint.chooseReference
  split
  · rename_i f hsingle
    refine ⟨_, rfl, h.of_obs rfl fun _ => ⟨f, ?_, rfl⟩, rfl, rfl⟩
    rw [hsingle]
    exact List.mem_singleton_self f
  · rename_i hmany
    have hlength : 2 ≤ p.obs.length := by
      match hp : p.obs, hobs, hmany with
      | [f], _, hmany => exact absurd rfl (hmany f)
      | f :: g :: obs, _, _ => simp
    by_cases href : p.hasRefPatch = false
    · obtain ⟨f, hf⟩ := closestObservation_isSome h.ids hlength
      rw [if_pos href, hf]
      exact ⟨_, rfl, h.of_obs rfl fun _ => ⟨f, closestObservation_mem hf, rfl⟩, rfl, rfl⟩
    · have href' : p.hasRefPatch = true := by simpa using href
      rw [if_neg href, if_pos (h.ref href')]
      exact ⟨p, rfl, h, href', rfl⟩

theorem VisualPoint.updateReference_obs (p : VisualPoint) (settled : Bool)
    (score : ℕ → Option ℚ) : (p.updateReference settled score).obs =
      p.obs.map fun f => { f with score := score f.address } := by
  unfold VisualPoint.updateReference
  dsimp only
  split <;> rfl

/-- The score of every observation changes, and the reference with it. -/
theorem PointInv.updateReference {p : VisualPoint} (h : PointInv p) (settled : Bool)
    (score : ℕ → Option ℚ) : PointInv (p.updateReference settled score) := by
  constructor
  · intro href
    unfold VisualPoint.RefValid
    rw [VisualPoint.updateReference_obs]
    unfold VisualPoint.updateReference at href ⊢
    dsimp only at href ⊢
    split at href
    · rename_i f hf
      exact ⟨_, List.mem_map_of_mem (bestObservation_mem hf), rfl⟩
    · obtain ⟨f, hf, haddress⟩ := h.ref href
      exact ⟨_, List.mem_map_of_mem hf, haddress⟩
  · rw [VisualPoint.updateReference_obs, List.map_map]
    exact h.ids
  · rw [VisualPoint.updateReference_obs, List.length_map]
    exact h.count

end FastLivo.VisualMap
