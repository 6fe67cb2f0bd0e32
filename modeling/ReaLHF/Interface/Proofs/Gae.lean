/-
Generalised advantage estimation: `get_advantages_and_returns`
(`impl/model/interface/wps_actor_critic.py`, lines 231-246).

# The advantages

With `delta t = rewards[:, t] + gamma * values[:, t + 1] - values[:, t]`, the advantage at
`t` of a response of length `L` is `Σ_{l < L - t} (gamma * lam)^l * delta (t + l)`. It obeys
`A t = delta t + gamma * lam * A (t + 1)` from `A L = 0` (`gaeAdvantage_succ`), which is
the loop's update, so the loop appends the advantages at `L - 1` down to `0`
(`gaeLoop_eq`), and the reversed list is the advantages in order.

# The returns

`returns = advantages + values` adds `L` columns to `L + 1`. Torch broadcasts two widths only
when they agree or one is `1`: for `L = 1` the returns are two columns `A 0 + values[:, t]`,
and for every longer response the addition raises.
-/
import ReaLHF.Interface.WpsActorCritic

namespace ReaLHF.Interface

variable {bs : Nat} (gamma lam : ℚ) (values rewards : List (Fin bs → ℚ))

/-- `delta[:, t] = rewards[:, t] + gamma * values[:, t + 1] - values[:, t]`. -/
def gaeDelta (t : Nat) : Fin bs → ℚ :=
  rewards.getD t 0 + gamma • values.getD (t + 1) 0 - values.getD t 0

/-- The advantage at `t` in closed form, `Σ_{l < L - t} (gamma * lam)^l * delta[:, t + l]`. -/
def gaeAdvantage (t : Nat) : Fin bs → ℚ :=
  ∑ l ∈ Finset.range (rewards.length - t),
    (gamma * lam) ^ l • gaeDelta gamma values rewards (t + l)

/-- The advantages at every position, in order. -/
def gaeAdvantages : List (Fin bs → ℚ) :=
  (List.range rewards.length).map (gaeAdvantage gamma lam values rewards)

theorem gaeAdvantage_length : gaeAdvantage gamma lam values rewards rewards.length = 0 := by
  simp [gaeAdvantage]

/-- The backward recursion of generalised advantage estimation. -/
theorem gaeAdvantage_succ {t : Nat} (ht : t < rewards.length) :
    gaeAdvantage gamma lam values rewards t =
      gaeDelta gamma values rewards t +
        (gamma * lam) • gaeAdvantage gamma lam values rewards (t + 1) := by
  rw [gaeAdvantage, gaeAdvantage, show rewards.length - t = rewards.length - (t + 1) + 1 by omega,
    Finset.sum_range_succ', Finset.smul_sum, add_comm]
  simp only [pow_zero, one_smul, add_zero]
  congr 1
  refine Finset.sum_congr rfl fun l _ => ?_
  rw [show t + (l + 1) = t + 1 + l by omega, pow_succ', smul_smul]

/-- From the advantage at `t`, the loop's last `t` turns append the advantages at `t - 1`
down to `0`. -/
theorem gaeLoop_eq : ∀ t ≤ rewards.length, ∀ advantagesReversed : List (Fin bs → ℚ),
    gaeLoop gamma lam values rewards t (gaeAdvantage gamma lam values rewards t)
        advantagesReversed =
      advantagesReversed ++ ((List.range t).map (gaeAdvantage gamma lam values rewards)).reverse
  | 0, _, _ => by simp [gaeLoop]
  | t + 1, ht, advantagesReversed => by
    have hA := gaeAdvantage_succ gamma lam values rewards (t := t) (by omega)
    rw [gaeLoop, ← gaeDelta, ← hA, gaeLoop_eq t (by omega), List.range_succ, List.map_append,
      List.reverse_append, List.append_assoc]
    rfl

/-- The loop from `lastgaelam = 0` computes the closed-form advantages. -/
theorem gaeLoop_reverse :
    (gaeLoop gamma lam values rewards rewards.length 0 []).reverse =
      gaeAdvantages gamma lam values rewards := by
  rw [← gaeAdvantage_length gamma lam values rewards,
    gaeLoop_eq gamma lam values rewards _ le_rfl, List.nil_append, List.reverse_reverse,
    gaeAdvantages]

/-- The loop computes the closed-form advantages for every length, but the function returns
only when the response has length one: `advantages + values` broadcasts `L` columns against
`L + 1`, which torch allows for `L = 1` alone, and then the returns are two columns
`A 0 + values[:, t]`. -/
theorem getAdvantagesAndReturns_eq :
    (gaeLoop gamma lam values rewards rewards.length 0 []).reverse =
        gaeAdvantages gamma lam values rewards ∧
      getAdvantagesAndReturns gamma lam values rewards =
        if values.length = rewards.length + 1 ∧ rewards.length = 1 then
          some (gaeAdvantages gamma lam values rewards,
            values.map (gaeAdvantage gamma lam values rewards 0 + ·))
        else none := by
  refine ⟨gaeLoop_reverse gamma lam values rewards, ?_⟩
  by_cases hv : values.length = rewards.length + 1
  · simp only [getAdvantagesAndReturns, hv, ne_eq, not_true_eq_false, if_false,
      gaeLoop_reverse, stackColumns, addColumns, true_and, gaeAdvantages, List.length_map,
      List.length_range, List.map_eq_nil_iff, List.range_eq_nil]
    match rewards.length with
    | 0 => rfl
    | 1 => simp [List.range_succ]
    | _ + 2 => simp
  · simp [getAdvantagesAndReturns, hv]

end ReaLHF.Interface
