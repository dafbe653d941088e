import Mathlib.Analysis.Normed.Operator.Asymptotics
import Mathlib.Analysis.Normed.Module.Basic
import Mathlib.Analysis.Asymptotics.Lemmas

/-!
# Jacobians of an error state

A filter keeps a nominal state and a linear model of its error; errors are injected into
the nominal state. The model is right to first order when a step carries an injected
error to its linear image, up to what vanishes faster than the error.
-/

namespace FastLivo.Lib

open Asymptotics Filter Topology

variable {σ ν E : Type*} [NormedAddCommGroup E] [NormedSpace ℝ E]

/-- `F` is the jacobian of `step` at `x`, in errors injected by `inject` and for the part
of the state that `nominal` shows. -/
def IsErrorJacobian (inject : E → σ → σ) (nominal : σ → ν) (step : σ → σ) (x : σ)
    (F : E →ₗ[ℝ] E) : Prop :=
  ∃ r : E → E, r =o[𝓝 0] (fun e => e) ∧
    ∀ᶠ e in 𝓝 0, nominal (step (inject e x)) = nominal (inject (F e + r e) (step x))

/-- A coordinate of the result that ignores an error in some direction has a zero entry in
the jacobian. -/
theorem IsErrorJacobian.eq_zero_of_ignored {inject : E → σ → σ} {nominal : σ → ν} {step : σ → σ}
    {x : σ} {F : E →ₗ[ℝ] E} (h : IsErrorJacobian inject nominal step x F) (coord : ν → ℝ)
    (ℓ : E →L[ℝ] ℝ) (hcoord : ∀ y e, coord (nominal (inject e y)) = coord (nominal y) + ℓ e) {e : E}
    (hignored : ∀ s : ℝ, coord (nominal (step (inject (s • e) x))) = coord (nominal (step x))) :
    ℓ (F e) = 0 := by
  obtain ⟨r, hr, hstep⟩ := h
  have hline : Tendsto (fun s : ℝ => s • e) (𝓝 0) (𝓝 0) := by
    have hcont : Continuous fun s : ℝ => s • e := by fun_prop
    simpa using hcont.tendsto 0
  -- Along the line the remainder has to make up for the whole entry.
  have hentry : ∀ᶠ s in 𝓝 (0 : ℝ), ℓ (F e) * s = -ℓ (r (s • e)) := by
    filter_upwards [hline.eventually hstep] with s hs
    have hs' := congrArg coord hs
    rw [hignored, hcoord, map_add, F.map_smul, ℓ.map_smul, smul_eq_mul] at hs'
    linarith
  have hsmall : (fun s : ℝ => -ℓ (r (s • e))) =o[𝓝 0] fun s : ℝ => s := by
    have hbound : (fun s : ℝ => s • e) =O[𝓝 0] fun s : ℝ => s :=
      IsBigO.of_bound ‖e‖ (Eventually.of_forall fun s => by rw [norm_smul, mul_comm])
    exact ((ℓ.isBigO_comp _ _).trans_isLittleO
      ((hr.comp_tendsto hline).trans_isBigO hbound)).neg_left
  have hconst : (fun s : ℝ => ℓ (F e) * s) =o[𝓝 0] fun s : ℝ => s := hsmall.congr' (hentry.mono
    fun s hs => hs.symm) EventuallyEq.rfl
  by_contra hne
  have hself : (fun s : ℝ => s) =o[𝓝 0] fun s : ℝ => s :=
    (isLittleO_const_mul_left_iff hne).mp hconst
  have hpunctured : ∀ᶠ s : ℝ in 𝓝[≠] 0, s ≠ 0 := self_mem_nhdsWithin
  exact isLittleO_irrefl (hpunctured.frequently.filter_mono nhdsWithin_le_nhds) hself

end FastLivo.Lib
