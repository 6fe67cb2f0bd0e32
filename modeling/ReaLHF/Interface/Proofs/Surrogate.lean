/-
What the WPS PPO losses compute (`impl/model/interface/wps_actor_critic.py`, lines 186-214).

# Results

* `actorLossFn_onPolicy`: where no unmasked token's log-prob has moved, as at the first step
  after the log-probs were stored, every ratio is one: the loss is the masked mean of
  `-advantages`, no token counts as clipped and the importance weight is one.
* `actorLossFn_filter_lossMask`: tokens whose mask is zero never reach the actor's three
  results.
* `criticLossFn_eq_zero_iff`: the value loss is nonnegative and zero exactly when every unmasked
  value equals its target, whatever the old values: the value clipping is not applied.

# Shape of the argument

`actorLossFn_eq` and `criticLossFn_fst` turn the source's elementwise pipeline, a `map` and
`zipWith`s over one list of tokens, into sums of per-token terms; every property is then a fact
about one token, carried through the sums.
-/
import ReaLHF.Interface.PpoLoss

namespace ReaLHF.Interface

/-- The importance ratio `actor_loss_fn` computes at one token. -/
def ActorToken.ratio (exp : ℚ → ℚ) (t : ActorToken) : ℚ :=
  exp ((t.logprob - t.oldLogprob) * t.lossMask)

/-- `actor_loss_fn` as three masked sums of per-token terms. -/
theorem actorLossFn_eq (exp : ℚ → ℚ) (tokens : List ActorToken) (epsClip : ℚ) :
    actorLossFn exp tokens epsClip =
      ((tokens.map fun t => max (-t.advantage * t.ratio exp)
          (-t.advantage * clamp (t.ratio exp) (1 - epsClip) (1 + epsClip)) * t.lossMask).sum /
          (tokens.map (·.lossMask)).sum,
        (tokens.map fun t => (if -t.advantage * t.ratio exp <
          -t.advantage * clamp (t.ratio exp) (1 - epsClip) (1 + epsClip) then (1 : ℚ) else 0) *
            t.lossMask).sum / (tokens.map (·.lossMask)).sum,
        (tokens.map fun t => t.ratio exp * t.lossMask).sum / (tokens.map (·.lossMask)).sum) := by
  simp only [actorLossFn, ActorToken.ratio, List.zipWith_map_left, List.zipWith_map_right,
    List.zipWith_same, List.map_map, Function.comp_apply]

/-- A sum over the tokens is the sum over those a filter keeps, when the others add nothing. -/
theorem sum_map_filter_of_zero {α : Type} (p : α → Bool) (f : α → ℚ) :
    ∀ {l : List α}, (∀ a ∈ l, p a = false → f a = 0) → ((l.filter p).map f).sum = (l.map f).sum
  | [], _ => rfl
  | a :: l, h => by
    have ih := sum_map_filter_of_zero p f fun b hb => h b (List.mem_cons_of_mem _ hb)
    by_cases hp : p a
    · simp [List.filter_cons, hp, ih]
    · simp [List.filter_cons, hp, ih, h a (List.mem_cons_self _ _) (by simpa using hp)]

/-- A clamp around one, of any nonnegative width, leaves one. -/
theorem clamp_one {epsClip : ℚ} (h : 0 ≤ epsClip) : clamp 1 (1 - epsClip) (1 + epsClip) = 1 := by
  rw [clamp, max_eq_left (by linarith), min_eq_left (by linarith)]

/-- Before the policy moves, at the first step of each PPO round: where every unmasked token's
new log-prob is its old one, every ratio is one and the clamp never decides, so the loss is the
masked mean of `-advantages`, nothing is clipped and the importance weight is one. -/
theorem actorLossFn_onPolicy {exp : ℚ → ℚ} (hexp : exp 0 = 1) {epsClip : ℚ} (heps : 0 ≤ epsClip)
    {tokens : List ActorToken}
    (hsame : ∀ t ∈ tokens, t.lossMask = 0 ∨ t.logprob = t.oldLogprob)
    (hmask : (tokens.map (·.lossMask)).sum ≠ 0) :
    actorLossFn exp tokens epsClip =
      (-(tokens.map fun t => t.advantage * t.lossMask).sum / (tokens.map (·.lossMask)).sum,
        0, 1) := by
  have hratio : ∀ t ∈ tokens, t.ratio exp = 1 := fun t ht => by
    rcases hsame t ht with h | h <;> simp [ActorToken.ratio, h, hexp]
  rw [actorLossFn_eq]
  refine Prod.ext ?_ (Prod.ext ?_ ?_)
  · simp only
    rw [List.sum_neg, List.map_map]
    congr 2
    exact List.map_congr_left fun t ht => by simp [hratio t ht, clamp_one heps]
  · simp only
    rw [List.map_congr_left fun t ht => by
      rw [hratio t ht, clamp_one heps, if_neg (lt_irrefl _), zero_mul]]
    simp
  · simp only
    rw [List.map_congr_left fun t ht => by rw [hratio t ht, one_mul]]
    exact div_self hmask

/-- Two tokens: one unmasked whose log-prob has not moved, and one masked whose has. -/
def onPolicyTokens : List ActorToken :=
  [⟨-1, -1, 2, 1⟩, ⟨-3, -2, 5, 0⟩]

/-- The two tokens with `exp` replaced by `1 + x`, which is one at zero. -/
theorem actorLossFn_onPolicy_twoTokens :
    (fun x : ℚ => 1 + x) 0 = 1 ∧ (0 : ℚ) ≤ 1 / 5 ∧
      (∀ t ∈ onPolicyTokens, t.lossMask = 0 ∨ t.logprob = t.oldLogprob) ∧
      (onPolicyTokens.map (·.lossMask)).sum ≠ 0 ∧
      actorLossFn (fun x => 1 + x) onPolicyTokens (1 / 5) =
        (-(onPolicyTokens.map fun t => t.advantage * t.lossMask).sum /
          (onPolicyTokens.map (·.lossMask)).sum, 0, 1) := by
  have hexp : (fun x : ℚ => 1 + x) 0 = 1 := by norm_num
  have heps : (0 : ℚ) ≤ 1 / 5 := by norm_num
  have hsame : ∀ t ∈ onPolicyTokens, t.lossMask = 0 ∨ t.logprob = t.oldLogprob := by
    simp [onPolicyTokens]
  have hmask : (onPolicyTokens.map (·.lossMask)).sum ≠ 0 := by norm_num [onPolicyTokens]
  exact ⟨hexp, heps, hsame, hmask, actorLossFn_onPolicy hexp heps hsame hmask⟩

/-- Masked tokens never reach the actor's loss or its statistics: dropping every token whose
mask is zero changes none of the three results, whatever those tokens hold. -/
theorem actorLossFn_filter_lossMask (exp : ℚ → ℚ) (tokens : List ActorToken) (epsClip : ℚ) :
    actorLossFn exp (tokens.filter fun t => t.lossMask ≠ 0) epsClip =
      actorLossFn exp tokens epsClip := by
  have hmasked : ∀ g : ActorToken → ℚ,
      ((tokens.filter fun t => t.lossMask ≠ 0).map fun t => g t * t.lossMask).sum =
        (tokens.map fun t => g t * t.lossMask).sum :=
    fun g => sum_map_filter_of_zero _ _ fun t _ ht => by simp_all
  have hmask : ((tokens.filter fun t => t.lossMask ≠ 0).map (·.lossMask)).sum =
      (tokens.map (·.lossMask)).sum :=
    sum_map_filter_of_zero _ _ fun t _ ht => by simpa using ht
  simp only [actorLossFn_eq, hmasked, hmask]

-- ================================================================ the critic

section Huber

variable {delta : ℚ} (hdelta : 0 < delta)
include hdelta

/-- The Huber loss is nonnegative. -/
theorem huberLoss_nonneg (x y : ℚ) : 0 ≤ huberLoss delta x y := by
  unfold huberLoss
  split_ifs with h
  · positivity
  · nlinarith [not_lt.1 h]

/-- The Huber loss is zero only on equal arguments. -/
theorem huberLoss_eq_zero_iff {x y : ℚ} : huberLoss delta x y = 0 ↔ x = y := by
  unfold huberLoss
  split_ifs with h
  · simp [sub_eq_zero]
  · have := not_lt.1 h
    constructor
    · intro h0
      nlinarith
    · rintro rfl
      simp at this
      linarith

end Huber

/-- A sum of nonnegative terms is zero exactly when every term is. -/
theorem sum_eq_zero_iff_of_nonneg {l : List ℚ} (h : ∀ x ∈ l, 0 ≤ x) :
    l.sum = 0 ↔ ∀ x ∈ l, x = 0 := by
  induction l with
  | nil => simp
  | cons a l ih =>
    have hl : ∀ x ∈ l, 0 ≤ x := fun x hx => h x (List.mem_cons_of_mem _ hx)
    rw [List.sum_cons, add_eq_zero_iff_of_nonneg (h a (List.mem_cons_self _ _))
      (List.sum_nonneg hl), ih hl, List.forall_mem_cons]

/-- The critic's loss is half the masked mean Huber loss of the values against their targets:
the old values and `value_eps_clip` reach only the proportion clipped. -/
theorem criticLossFn_fst (tokens : List CriticToken) (valueEpsClip : ℚ) :
    (criticLossFn tokens valueEpsClip).1 =
      (1 / 2 : ℚ) * (tokens.map fun t => huberLoss 10 t.value t.targetValue * t.lossMask).sum /
        (tokens.map (·.lossMask)).sum := by
  simp [criticLossFn, List.zipWith_map_left, List.zipWith_map_right, List.zipWith_same]

/-- The value loss never clips: with a nonnegative mask of positive sum it is nonnegative, and
zero exactly when every unmasked value equals its target, whatever the old values and
`value_eps_clip`. -/
theorem criticLossFn_eq_zero_iff {tokens : List CriticToken} (valueEpsClip : ℚ)
    (hmask : ∀ t ∈ tokens, 0 ≤ t.lossMask) (hpos : 0 < (tokens.map (·.lossMask)).sum) :
    0 ≤ (criticLossFn tokens valueEpsClip).1 ∧
      ((criticLossFn tokens valueEpsClip).1 = 0 ↔
        ∀ t ∈ tokens, t.lossMask ≠ 0 → t.value = t.targetValue) := by
  have hterm : ∀ x ∈ tokens.map fun t => huberLoss 10 t.value t.targetValue * t.lossMask,
      0 ≤ x := by
    simp only [List.mem_map]
    rintro _ ⟨t, ht, rfl⟩
    exact mul_nonneg (huberLoss_nonneg (by norm_num) _ _) (hmask t ht)
  rw [criticLossFn_fst]
  refine ⟨div_nonneg (mul_nonneg (by norm_num) (List.sum_nonneg hterm)) hpos.le, ?_⟩
  rw [div_eq_zero_iff, or_iff_left hpos.ne', mul_eq_zero, or_iff_right (by norm_num),
    sum_eq_zero_iff_of_nonneg hterm, List.forall_mem_map]
  refine forall₂_congr fun t _ => ?_
  rw [mul_eq_zero, huberLoss_eq_zero_iff (by norm_num)]
  tauto

/-- A matched unmasked token and a masked one whose old value is far off. -/
def valueTokens : List CriticToken :=
  [⟨2, 0, 2, 1⟩, ⟨5, 4, 1, 0⟩]

/-- The two tokens: the loss is zero, the masked token's value and old value notwithstanding. -/
theorem criticLossFn_eq_zero_iff_twoTokens :
    (∀ t ∈ valueTokens, 0 ≤ t.lossMask) ∧ 0 < (valueTokens.map (·.lossMask)).sum ∧
      0 ≤ (criticLossFn valueTokens (1 / 5)).1 ∧
      ((criticLossFn valueTokens (1 / 5)).1 = 0 ↔
        ∀ t ∈ valueTokens, t.lossMask ≠ 0 → t.value = t.targetValue) := by
  have hmask : ∀ t ∈ valueTokens, 0 ≤ t.lossMask := by simp [valueTokens]
  have hpos : 0 < (valueTokens.map (·.lossMask)).sum := by norm_num [valueTokens]
  exact ⟨hmask, hpos, criticLossFn_eq_zero_iff (1 / 5) hmask hpos⟩

end ReaLHF.Interface
