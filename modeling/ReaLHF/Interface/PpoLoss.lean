/-
The PPO losses of the WPS interfaces: `actor_loss_fn` and `critic_loss_fn`
(`impl/model/interface/wps_actor_critic.py`, lines 186-214).

`actor_loss_fn` is PPO's clipped surrogate: each token's importance ratio
`exp(logprobs - old_logprobs)`, clamped to `[1 - eps_clip, 1 + eps_clip]`, and the larger of
the two losses `-advantages * ratio`, averaged over the loss mask; with it come the fraction of
tokens where the clamp decided and the mean ratio. `critic_loss_fn` returns half the masked mean
of the Huber loss (`delta = 10`) of the values against their targets. It computes the loss of
the clipped values too, but only to report how often that one is larger: the `max` of the two
is commented out, and the loss is that of the unclipped values.

# What is modelled

`_ppo_actor_step` and `_ppo_critic_step` pass tensors of one shape, so a call is the list of its
tokens, each with its entry of every tensor, in the same order; elementwise operations are
`map` and `zipWith`. Floats are rationals and `exp` is a parameter. A mask of zero sum divides
by zero, NaN in torch, where Lean's division gives `0`; the theorems keep that case out. The
gradients are not modelled.
-/
import Mathlib

namespace ReaLHF.Interface

/-- `torch.clamp(x, lo, hi)`. -/
def clamp (x lo hi : ℚ) : ℚ :=
  min (max x lo) hi

/-- One token of an `actor_loss_fn` call: its entries of `logprobs`, `old_logprobs`,
`advantages` and `loss_mask`. -/
structure ActorToken where
  logprob : ℚ
  oldLogprob : ℚ
  advantage : ℚ
  lossMask : ℚ

/-- `actor_loss_fn(logprobs, old_logprobs, advantages, loss_mask, eps_clip)`: the loss, the
proportion clipped and the mean importance weight. -/
def actorLossFn (exp : ℚ → ℚ) (tokens : List ActorToken) (epsClip : ℚ) : ℚ × ℚ × ℚ :=
  let lossMask := tokens.map (·.lossMask)
  let ratio := tokens.map fun t => exp ((t.logprob - t.oldLogprob) * t.lossMask)
  let clippedRatio := ratio.map fun r => clamp r (1 - epsClip) (1 + epsClip)
  let pgLoss1 := List.zipWith (fun t r => -t.advantage * r) tokens ratio
  let pgLoss2 := List.zipWith (fun t r => -t.advantage * r) tokens clippedRatio
  let pgLoss := (List.zipWith (· * ·) (List.zipWith max pgLoss1 pgLoss2) lossMask).sum /
    lossMask.sum
  let proportionClipped := List.zipWith (fun a b => if a < b then (1 : ℚ) else 0) pgLoss1 pgLoss2
  let proportionClipped := (List.zipWith (· * ·) proportionClipped lossMask).sum / lossMask.sum
  (pgLoss, proportionClipped, (List.zipWith (· * ·) ratio lossMask).sum / lossMask.sum)

/-- `torch.nn.functional.huber_loss(x, y, reduction='none', delta=delta)` at one element. -/
def huberLoss (delta x y : ℚ) : ℚ :=
  if |x - y| < delta then (x - y) ^ 2 / 2 else delta * (|x - y| - delta / 2)

/-- One token of a `critic_loss_fn` call: its entries of `value`, `old_value`, `target_value`
and `loss_mask`. -/
structure CriticToken where
  value : ℚ
  oldValue : ℚ
  targetValue : ℚ
  lossMask : ℚ

/-- `critic_loss_fn(value, old_value, target_value, loss_mask, value_eps_clip)`: the loss and
the proportion clipped. -/
def criticLossFn (tokens : List CriticToken) (valueEpsClip : ℚ) : ℚ × ℚ :=
  let lossMask := tokens.map (·.lossMask)
  let valueLossOriginal := tokens.map fun t => huberLoss 10 t.value t.targetValue
  let valueClipped := tokens.map fun t =>
    t.oldValue + clamp (t.value - t.oldValue) (-valueEpsClip) valueEpsClip
  let valueLossClipped := List.zipWith (fun t v => huberLoss 10 v t.targetValue) tokens
    valueClipped
  let valueLoss := valueLossOriginal
  let proportionClipped :=
    List.zipWith (fun a b => if a > b then (1 : ℚ) else 0) valueLossClipped valueLossOriginal
  let proportionClipped := (List.zipWith (· * ·) proportionClipped lossMask).sum / lossMask.sum
  ((1 / 2 : ℚ) * (List.zipWith (· * ·) valueLoss lossMask).sum / lossMask.sum,
    proportionClipped)

end ReaLHF.Interface
