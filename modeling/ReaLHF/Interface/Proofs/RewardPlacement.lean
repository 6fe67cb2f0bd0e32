/-
The rewards of the WPS PPO steps: `compute_rewards` (`impl/model/interface/wps_actor_critic.py`,
lines 216-228), and the lines of `_ppo_actor_step` (326-335) and of `_ppo_critic_step`
(455-464) that feed it.

Both steps find where each answer ends with `get_eos_indices` on the columns past the
prompt, shift the indices back by the prompt's width, and call `compute_rewards` on the
stored log-probs, whose column `t` is the log-prob of token `t + 1`. The KL reward
`-kl_ctl * (log_probs - ref_log_probs)` is zeroed from each row's EOS index on; the clipped
score is scattered one column before the EOS index, "the token before EOS, which rewards the
output of the EOS token", and kept only for rows with an EOS.

# What is modelled

2-d tensors are lists of columns, each a vector `Fin bs → ℚ`, as in the model of
`get_advantages_and_returns`. `log_probs - ref_log_probs` broadcasts as `log_probs +
(-ref_log_probs)` does (`addColumns`); the slice `kl_rewards[i, e:]` follows Python's rules
for a start past either end (`sliceStart`); `torch.clamp` is `min (max x lo) hi`.
`scatter_` raises on an index outside the row, and that is `none`, like a failed broadcast and
the exceptions of `get_eos_indices`. Of the steps only the rewards are modelled: the forward
passes, the losses and the statistics they return are not.

# Result

Where the WPS PPO steps credit their rewards. `compute_rewards` is told each row's EOS index
`e` and keeps the KL reward before it and the clipped score one column before it; the steps
take `e` from `get_eos_indices` on the answers, shifted back by the prompt's width. Since
column `t` of the log-probs is the log-prob of token `t + 1`, the two together say what the
comment in `compute_rewards` intends: the score rewards the output of the answer's first EOS
and nothing when the answer has none, and the KL reward covers every token up to and
including that EOS.

`computeRewards_eq` states `compute_rewards` for indices inside the row, where `scatter_`
cannot raise; `ppoStepRewards_eq` composes it with `getEosIndices_eq` and states the rewards
in terms of `answerEnd`, the first EOS of each answer.
-/
import ReaLHF.Interface.WpsActorCritic
import ReaLHF.Model.Proofs.FirstEos

namespace ReaLHF.Interface

variable {bs : Nat}

/-- Where the slice `[e:]` of a row of `n` entries starts: a negative `e` counts from the end,
and the start is clipped to the row. -/
def sliceStart (n : Nat) (e : Int) : Nat :=
  min (if e < 0 then e + n else e).toNat n

/-- `compute_rewards(kl_ctl, clip_reward_value, log_probs, ref_log_probs, reward_score,
eos_indices, seq_no_eos_mask)`: the KL rewards, and the KL rewards plus the score
rewards. -/
def computeRewards (klCtl clipRewardValue : ℚ) (logProbs refLogProbs : List (Fin bs → ℚ))
    (rewardScore : Fin bs → ℚ) (eosIndices : Fin bs → Int) (seqNoEosMask : Fin bs → ℚ) :
    Option (List (Fin bs → ℚ) × List (Fin bs → ℚ)) := do
  let diff ← addColumns logProbs (refLogProbs.map (-·))
  let klRewards := diff.map fun col i => -klCtl * col i
  let n := klRewards.length
  let klRewards := klRewards.mapIdx fun t col i =>
    if sliceStart n (eosIndices i) ≤ t then 0 else col i
  let rewardClip := fun i => min (max (rewardScore i) (-clipRewardValue)) clipRewardValue
  if ∃ i, eosIndices i - 1 < 0 ∨ n ≤ eosIndices i - 1 then none
  let scoreRewards := (List.range n).map fun (t : Nat) i =>
    if t = eosIndices i - 1 then rewardClip i else 0
  let scoreRewards := scoreRewards.map fun col i => col i * (1 - seqNoEosMask i)
  let rewards ← addColumns klRewards scoreRewards
  pure (klRewards, rewards)

/-- The rewards of `_ppo_actor_step` and `_ppo_critic_step` for a sample whose prompts are
`promptLen` columns wide, with the step's `kl_ctl` and `max_reward_clip`: `old_logp` and
`ref_logp` are the stored log-probs, `rewards` the scores of the reward model. -/
def ppoStepRewards (eosTokenId : Int) (klCtl maxRewardClip : ℚ) (promptLen : Nat)
    (inputIds : List (Fin bs → Int)) (oldLogp refLogp : List (Fin bs → ℚ))
    (rewards : Fin bs → ℚ) : Option (List (Fin bs → ℚ) × List (Fin bs → ℚ)) := do
  let (eosIndices, seqNoEosMask) ← Model.getEosIndices eosTokenId (inputIds.drop promptLen)
  let eosIndices := fun i => eosIndices i + promptLen
  computeRewards klCtl maxRewardClip oldLogp refLogp rewards eosIndices seqNoEosMask

/-- Two tensors of one width add column by column. -/
theorem addColumns_of_length_eq {a b : List (Fin bs → ℚ)} (h : a.length = b.length) :
    addColumns a b = some (List.zipWith (· + ·) a b) :=
  if_pos h

/-- A slice starting inside the row starts where it says. -/
theorem sliceStart_le_iff {n t : Nat} {e : Int} (h0 : 0 ≤ e) (hn : e ≤ n) :
    sliceStart n e ≤ t ↔ e ≤ t := by
  simp only [sliceStart, not_lt.2 h0, if_false]
  omega

section ComputeRewards

variable {klCtl clip : ℚ} {logProbs refLogProbs : List (Fin bs → ℚ)} {rewardScore : Fin bs → ℚ}
  {eosIndices : Fin bs → Int} {seqNoEosMask : Fin bs → ℚ} {n : Nat}

/-- With every EOS index inside the row, `compute_rewards` keeps each row's KL reward before
its index and adds the clipped score, times one less the no-EOS flag, one column before it. -/
theorem computeRewards_eq (hlog : logProbs.length = n) (href : refLogProbs.length = n)
    (heos : ∀ i, 0 < eosIndices i ∧ eosIndices i ≤ n) :
    let klAt := fun (t : Nat) i => if eosIndices i ≤ t then 0
      else -klCtl * (logProbs.getD t 0 i - refLogProbs.getD t 0 i)
    computeRewards klCtl clip logProbs refLogProbs rewardScore eosIndices seqNoEosMask =
      some ((List.range n).map klAt, (List.range n).map fun t i => klAt t i +
        (if (t : Int) + 1 = eosIndices i then min (max (rewardScore i) (-clip)) clip else 0) *
          (1 - seqNoEosMask i)) := by
  intro klAt
  have hcheck : ¬ ∃ i, eosIndices i - 1 < 0 ∨ (n : Int) ≤ eosIndices i - 1 := by
    rintro ⟨i, h⟩
    have := heos i
    omega
  have hneg : logProbs.length = (refLogProbs.map (-·)).length := by simp [hlog, href]
  have hlen : (List.zipWith (· + ·) logProbs (refLogProbs.map (-·))).length = n := by
    simp [hlog, href]
  simp only [computeRewards, addColumns_of_length_eq hneg, Option.bind_eq_bind, Option.some_bind,
    List.length_map, hlen, if_neg hcheck]
  rw [addColumns_of_length_eq (by simp [hlen])]
  have hkl : (List.map (fun col i => -klCtl * col i)
      (List.zipWith (· + ·) logProbs (refLogProbs.map (-·)))).mapIdx
        (fun t col i => if sliceStart n (eosIndices i) ≤ t then 0 else col i) =
      (List.range n).map klAt := by
    apply List.ext_getElem (by simp [hlog, href])
    intro t h₁ h₂
    funext i
    have ht : t < n := by simpa using h₂
    simp [klAt, sliceStart_le_iff (heos i).1.le (heos i).2, List.getD_eq_getElem, hlog, href, ht,
      sub_eq_add_neg]
  have hscore : ∀ (t : Nat) i, (t : Int) = eosIndices i - 1 ↔ (t : Int) + 1 = eosIndices i := by
    intros; omega
  simp only [Option.pure_def, Option.bind_eq_bind, Option.some_bind, hkl, List.map_map,
    List.zipWith_map, List.zipWith_same, Function.comp_def, hscore]
  rfl

end ComputeRewards

/-- Where the answer of row `i` ends: the position of its first EOS past the prompt, or the
row's width when it has none. -/
def answerEnd (eosTokenId : Int) (promptLen : Nat) (inputIds : List (Fin bs → Int))
    (i : Fin bs) : Nat :=
  promptLen + ((Model.rowAt inputIds i).drop promptLen).indexOf eosTokenId

section Step

variable {eosTokenId : Int} {klCtl maxRewardClip : ℚ} {promptLen : Nat}
  {inputIds : List (Fin bs → Int)} {oldLogp refLogp : List (Fin bs → ℚ)} {rewards : Fin bs → ℚ}

/-- The rewards of a PPO step: the KL reward at every log-prob up to and including that of the
answer's first EOS and none past it, plus the clipped score at exactly the log-prob of that
EOS, for answers that have one. The step needs an answer of at least one column that does
not start with EOS, a sample of two columns or more, and log-probs one column narrower. -/
theorem ppoStepRewards_eq (hP : promptLen < inputIds.length) (hL : 2 ≤ inputIds.length)
    (hstart : ∀ i, (Model.rowAt inputIds i)[promptLen]? ≠ some eosTokenId)
    (hold : oldLogp.length = inputIds.length - 1) (href : refLogp.length = inputIds.length - 1) :
    let e := answerEnd eosTokenId promptLen inputIds
    let klAt := fun (t : Nat) i =>
      if t < e i then -klCtl * (oldLogp.getD t 0 i - refLogp.getD t 0 i) else 0
    ppoStepRewards eosTokenId klCtl maxRewardClip promptLen inputIds oldLogp refLogp rewards =
      some ((List.range (inputIds.length - 1)).map klAt,
        (List.range (inputIds.length - 1)).map fun t i => klAt t i +
          if t + 1 = e i then min (max (rewards i) (-maxRewardClip)) maxRewardClip else 0) := by
  dsimp only
  have hget := Model.getEosIndices_eq eosTokenId (inputIds.drop promptLen)
  simp only [Model.rowAt_drop, List.head?_drop, List.length_drop] at hget
  rw [if_pos ⟨by omega, hstart⟩] at hget
  simp only [ppoStepRewards, hget, Option.bind_eq_bind, Option.some_bind]
  have hlen : ∀ i, ((Model.rowAt inputIds i).drop promptLen).length =
      inputIds.length - promptLen := by simp
  -- an answer with EOS has it past its first token
  have hidx : ∀ i, eosTokenId ∈ (Model.rowAt inputIds i).drop promptLen →
      1 ≤ ((Model.rowAt inputIds i).drop promptLen).indexOf eosTokenId ∧
        ((Model.rowAt inputIds i).drop promptLen).indexOf eosTokenId <
          inputIds.length - promptLen := by
    intro i h
    refine ⟨Nat.one_le_iff_ne_zero.2 fun h0 => hstart i ?_, hlen i ▸ List.indexOf_lt_length.2 h⟩
    have hlt := List.indexOf_lt_length.2 h
    rw [← List.getElem_indexOf hlt, List.getElem_drop]
    simp only [h0, add_zero,
      List.getElem?_eq_getElem (show promptLen < (Model.rowAt inputIds i).length by simp [hP])]
  have hnone : ∀ i, eosTokenId ∉ (Model.rowAt inputIds i).drop promptLen →
      ((Model.rowAt inputIds i).drop promptLen).indexOf eosTokenId = inputIds.length - promptLen :=
    fun i h => hlen i ▸ List.indexOf_eq_length.2 h
  refine (computeRewards_eq hold href fun i => ?_).trans ?_
  · split_ifs with h
    · have := hidx i h
      omega
    · omega
  simp only [Option.some.injEq, Prod.mk.injEq, answerEnd]
  refine ⟨List.map_congr_left fun t ht => funext fun i => ?_,
    List.map_congr_left fun t ht => funext fun i => ?_⟩ <;>
  have ht := List.mem_range.1 ht <;>
  by_cases h : eosTokenId ∈ (Model.rowAt inputIds i).drop promptLen
  · -- with EOS, the KL reward stops at its index
    have := hidx i h
    simp only [h, if_true]
    split_ifs <;> first | rfl | omega
  · -- without, the index is the last column, past every log-prob
    have := hnone i h
    simp only [h, if_false, Nat.cast_sub hP.le]
    split_ifs <;> first | rfl | omega
  · -- with EOS, the score sits one column before its index
    have := hidx i h
    simp only [h, if_true, sub_zero, mul_one]
    split_ifs <;> first | rfl | omega
  · -- without, the score is masked out
    have := hnone i h
    simp only [h, if_false, Nat.cast_sub hP.le, sub_self, mul_zero, add_zero]
    split_ifs <;> first | rfl | omega | simp

/-- Two answers after a one-token prompt, EOS `2`: the first ends at column 2, the second has
no EOS. -/
def twoAnswers : List (Fin 2 → Int) :=
  [![5, 5], ![7, 7], ![2, 8], ![0, 9]]

theorem ppoStepRewards_eq_twoAnswers :
    1 < twoAnswers.length ∧ 2 ≤ twoAnswers.length ∧
      (∀ i, (Model.rowAt twoAnswers i)[1]? ≠ some 2) ∧
      [![-1, -2], ![-1, -1], ![-3, -1]].length = twoAnswers.length - 1 ∧
      [![-2, -2], ![-1, -3], ![-1, -1]].length = twoAnswers.length - 1 ∧
      let e := answerEnd 2 1 twoAnswers
      let klAt := fun (t : Nat) i => if t < e i then
        -(1 / 10) * ((([![-1, -2], ![-1, -1], ![-3, -1]] : List (Fin 2 → ℚ))).getD t 0 i -
          (([![-2, -2], ![-1, -3], ![-1, -1]] : List (Fin 2 → ℚ))).getD t 0 i) else 0
      ppoStepRewards 2 (1 / 10) 5 1 twoAnswers [![-1, -2], ![-1, -1], ![-3, -1]]
          [![-2, -2], ![-1, -3], ![-1, -1]] ![3, -7] =
        some ((List.range (twoAnswers.length - 1)).map klAt,
          (List.range (twoAnswers.length - 1)).map fun t i => klAt t i +
            if t + 1 = e i then min (max (![3, -7] i) (-5)) 5 else 0) :=
  ⟨by decide, by decide, by decide, rfl, rfl,
    ppoStepRewards_eq (by decide) (by decide) (by decide) rfl rfl⟩

end Step

end ReaLHF.Interface
