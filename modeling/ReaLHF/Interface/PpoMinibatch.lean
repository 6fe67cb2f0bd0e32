/-
The minibatch loop of the WPS PPO interfaces: `WPSActorInterface.train_step` and
`WPSCriticInterface.train_step` (`impl/model/interface/wps_actor_critic.py`, lines 373-402 and
492-519).

Both run one loop around their own step, `_ppo_actor_step` or `_ppo_critic_step`. They assert
that the batch splits into minibatches of `mini_batch_size`; then, for each of `ppo_epochs`
epochs, they draw a random permutation of the batch, cut it into consecutive minibatches and
take one step on each. Every step returns a dictionary of statistics; the loop adds them up key
by key in a `defaultdict(lambda: 0)` and reports each sum divided by `ppo_epochs` and by the
number of minibatches, averaged over the data-parallel ranks.

# What is modelled

The step is a parameter: from the module's state, the epoch and the rows of its minibatch it
returns the next state and its statistics, `none` where it raises; the two interfaces differ
only in it. `torch.randperm` is the argument `shuffles`, the permutation each epoch draws, so
that the calls can be listed before they run (`ppoSchedule`). `sample[indices]` reads the rows
with Python's indexing. A dictionary is its list of items in insertion order, and statistics
are rationals. `get_all_reduce_mean` (in `api/utils`, missing from `src/`) is the parameter
`allReduceMean`: the group's mean of this rank's value. The `assert`, and the `%` of a zero
`mini_batch_size` before it, raise: `none`. The model's version and the timer never reach the
result and are not modelled.
-/
import ReaLHF.Torch

namespace ReaLHF.Interface

/-- `range(0, stop, step)` for a positive `step`. -/
def rangeStep (stop step : Nat) : List Nat :=
  (List.range ((stop + step - 1) / step)).map (· * step)

/-- The minibatches of one epoch: `shuffle_indices[mini_bs_i:mini_bs_i + mini_batch_size]` for
every `mini_bs_i` in `range(0, bs, mini_batch_size)`. -/
def epochMinibatches (shuffleIndices : List Int) (bs miniBatchSize : Nat) : List (List Int) :=
  (rangeStep bs miniBatchSize).map fun i : Nat => pySlice shuffleIndices i (i + miniBatchSize)

/-- The calls of the loop in order: each epoch `ppo_i` with each of its minibatches. -/
def ppoSchedule (shuffles : Nat → List Int) (bs miniBatchSize ppoEpochs : Nat) :
    List (Nat × List Int) :=
  (List.range ppoEpochs).flatMap fun ppoI =>
    (epochMinibatches (shuffles ppoI) bs miniBatchSize).map (ppoI, ·)

variable {K : Type} [DecidableEq K]

/-- `train_stats[k] += v` on a `defaultdict(lambda: 0)`: a key not yet present enters last,
with `0 + v`. -/
def addStat (k : K) (v : ℚ) : List (K × ℚ) → List (K × ℚ)
  | [] => [(k, 0 + v)]
  | (k', w) :: trainStats =>
    if k' = k then (k', w + v) :: trainStats else (k', w) :: addStat k v trainStats

/-- `for k, v in stats.items(): train_stats[k] += v`. -/
def addStats (trainStats stats : List (K × ℚ)) : List (K × ℚ) :=
  stats.foldl (fun acc kv => addStat kv.1 kv.2 acc) trainStats

variable {M ρ : Type}

/-- The loop over its calls: read each minibatch's rows, take one step, add its statistics. -/
def ppoRun (step : M → Nat → List ρ → Option (M × List (K × ℚ))) (sample : List ρ) :
    M → List (K × ℚ) → List (Nat × List Int) → Option (M × List (K × ℚ))
  | module, trainStats, [] => some (module, trainStats)
  | module, trainStats, (ppoI, indices) :: calls => do
    let rows ← indices.mapM (pyIndex sample)
    let (module, stats) ← step module ppoI rows
    ppoRun step sample module (addStats trainStats stats) calls

/-- `train_step(model, sample)` of the WPS actor or critic, whose step is `step`: the module's
state after training, and the statistics returned. -/
def ppoTrainStep (step : M → Nat → List ρ → Option (M × List (K × ℚ)))
    (allReduceMean : ℚ → ℚ) (miniBatchSize ppoEpochs : Nat) (shuffles : Nat → List Int)
    (module : M) (sample : List ρ) : Option (M × List (K × ℚ)) := do
  if miniBatchSize = 0 ∨ sample.length % miniBatchSize ≠ 0 then none
  let nMinibatch := sample.length / miniBatchSize
  let (module, trainStats) ← ppoRun step sample module []
    (ppoSchedule shuffles sample.length miniBatchSize ppoEpochs)
  pure (module, trainStats.map fun kv =>
    (kv.1, allReduceMean (kv.2 / ppoEpochs / nMinibatch)))

end ReaLHF.Interface
