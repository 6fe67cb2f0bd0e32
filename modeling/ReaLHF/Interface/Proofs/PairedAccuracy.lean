/-
What `PairedRewardInterface.train_step` counts and what it compares.

The counters. One call adds the batch's pairs, at least one since `max` raises on an empty
batch, and the pairs it ranks right, at most one per pair since the loss function takes the
scores two by two (`trainStep_counters`); a new epoch clears both. So from the dataclass
defaults, along every run, no more pairs are counted right than seen (`Reachable.correct_le`),
and every `acc` reported is a fraction in `[0, 1]` with a nonzero denominator
(`trainStep_acc_mem`).

The layout. The answers are packed positive then negative, so `cu_seqlens[1:] - 1` lists, pair
after pair, the last token of the positive answer and the last token of the pair
(`tail_scanl_pairs`, `pairEnds`), and `.view(-1, 2)` groups them back into pairs
(`viewPairs_flatMap`): the loss and the counts rank each pair by exactly these two scores
(`trainStep_pairs`).
-/
import ReaLHF.Interface.PairedReward
import ReaLHF.Lists

namespace ReaLHF.Interface

/-- `.view(-1, 2)` halves the length. -/
theorem length_of_viewPairs {α : Type} : ∀ {l : List α} {ps : List (α × α)},
    viewPairs l = some ps → l.length = 2 * ps.length
  | [], _, h => by cases h; rfl
  | [_], _, h => by cases h
  | a :: b :: l, ps, h => by
    obtain ⟨ps', h', rfl⟩ : ∃ ps', viewPairs l = some ps' ∧ (a, b) :: ps' = ps := by
      simpa [viewPairs] using h
    simp [length_of_viewPairs h']
    omega

/-- The loss function ranks one pair per two sequences, so it counts at most that many
right. -/
theorem correctPredictions_le {logsigmoid : ℚ → ℚ} {scores : List ℚ} {cuSeqlens : List Int}
    {groupFactor : List ℚ} {st : PairedRwStats}
    (h : pairedRwLossFromModelOutputs logsigmoid scores cuSeqlens groupFactor = some st) :
    2 * st.correctPredictions ≤ cuSeqlens.length - 1 := by
  simp only [pairedRwLossFromModelOutputs, Option.bind_eq_bind, Option.bind_eq_some,
    Option.pure_def, Option.some.injEq] at h
  obtain ⟨ends, hends, pairs, hpairs, w, -, rfl⟩ := h
  have h1 := (forall₂_of_mapM_eq_some hends).length_eq
  have h2 := length_of_viewPairs hpairs
  have h3 := List.countP_le_length (fun p : ℚ × ℚ => decide (p.2 < p.1)) (l := pairs)
  simp only [List.length_map, List.length_tail] at h1
  simp only
  omega


section Counters

variable {logsigmoid : ℚ → ℚ} {s s' : PairedRewardInterface} {posInputLens seqlens : List Int}
  {groupFactor scores : List ℚ} {epochAdvances : Bool} {out : PairedTrainStats}

/-- One step of the counters: the batch's pairs, at least one, and the right ones among them
are added, and a new epoch clears both. -/
theorem trainStep_counters
    (h : s.trainStep logsigmoid posInputLens seqlens groupFactor scores epochAdvances =
      some (s', out)) :
    ∃ n c, 0 < n ∧ c ≤ n ∧
      out.acc =
        ((s.trainTotalCorrectPredictions + c : Nat) : ℚ) / (s.trainTotalPredictions + n : Nat) ∧
      s' = if epochAdvances then {}
        else ⟨s.trainTotalPredictions + n, s.trainTotalCorrectPredictions + c⟩ := by
  simp only [PairedRewardInterface.trainStep, Option.bind_eq_bind, Option.bind_eq_some,
    Option.pure_def, Option.none_bind, Option.some_bind] at h
  obtain ⟨neg, -, h⟩ := h
  split_ifs at h with hlen hnil hodd hep
  · simp at h
  all_goals
    obtain ⟨st, hst, h⟩ := Option.bind_eq_some.1 h
    obtain ⟨rfl, rfl⟩ := Prod.mk.inj (Option.some.inj h).symm
    have hc := correctPredictions_le hst
    have hpos := List.length_pos.2 hnil
    rw [List.length_scanl] at hc
    refine ⟨_, st.correctPredictions, by omega, by omega, rfl, by simp [*]⟩

/-- The counters a run of `train_step` calls can leave, from the dataclass defaults: each call
on any batch, any scores, whether or not the epoch moves on. -/
inductive Reachable : PairedRewardInterface → Prop
  | init : Reachable {}
  | step {s s' : PairedRewardInterface} {out : PairedTrainStats} (logsigmoid : ℚ → ℚ)
      (posInputLens seqlens : List Int) (groupFactor scores : List ℚ) (epochAdvances : Bool) :
      Reachable s →
      s.trainStep logsigmoid posInputLens seqlens groupFactor scores epochAdvances =
        some (s', out) → Reachable s'

/-- No run counts more pairs ranked right than pairs. -/
theorem Reachable.correct_le (hs : Reachable s) :
    s.trainTotalCorrectPredictions ≤ s.trainTotalPredictions := by
  induction hs with
  | init => exact le_rfl
  | step _ _ _ _ _ _ _ hstep ih =>
    obtain ⟨n, c, -, hc, -, rfl⟩ := trainStep_counters hstep
    split <;> simp only <;> omega

/-- On every run from the defaults, each `acc` that `train_step` reports is a fraction in
`[0, 1]`, and the counters it leaves never rank more pairs right than they have seen. -/
theorem trainStep_acc_mem (hs : Reachable s)
    (h : s.trainStep logsigmoid posInputLens seqlens groupFactor scores epochAdvances =
      some (s', out)) :
    0 ≤ out.acc ∧ out.acc ≤ 1 ∧ s'.trainTotalCorrectPredictions ≤ s'.trainTotalPredictions := by
  obtain ⟨n, c, hn, hc, hacc, -⟩ := trainStep_counters h
  have hle := hs.correct_le
  refine ⟨hacc ▸ by positivity,
    hacc ▸ (div_le_one (by positivity)).2 (by exact_mod_cast (by omega)),
    (Reachable.step _ _ _ _ _ _ hs h).correct_le⟩

/-- Two calls: one pair ranked right from the defaults, then, from the counters it leaves, a
batch of two pairs of which one is ranked right. -/
theorem trainStep_acc_mem_afterStep :
    Reachable ⟨1, 1⟩ ∧
      (⟨1, 1⟩ : PairedRewardInterface).trainStep (fun x => -x) [1, 1] [2, 2] [1, 1] [3, 1, 0, 2]
        false = some (⟨3, 2⟩, ⟨⟨0, 1, 3 / 2, 3 / 2⟩, 2 / 3⟩) ∧
      0 ≤ (2 / 3 : ℚ) ∧ (2 / 3 : ℚ) ≤ 1 ∧ 2 ≤ 3 :=
  have h₁ : ({} : PairedRewardInterface).trainStep (fun x => -x) [1] [2] [1] [3, 1] false =
      some (⟨1, 1⟩, ⟨⟨2, 1, 3, 1⟩, 1⟩) := by
    norm_num [PairedRewardInterface.trainStep, broadcast, pairedRwLossFromModelOutputs, viewPairs,
      pyIndex, mean, List.mapM.loop, List.cons_ne_nil]
  have h₂ : (⟨1, 1⟩ : PairedRewardInterface).trainStep (fun x => -x) [1, 1] [2, 2] [1, 1]
      [3, 1, 0, 2] false = some (⟨3, 2⟩, ⟨⟨0, 1, 3 / 2, 3 / 2⟩, 2 / 3⟩) := by
    norm_num [PairedRewardInterface.trainStep, broadcast, pairedRwLossFromModelOutputs, viewPairs,
      pyIndex, mean, List.mapM.loop, List.cons_ne_nil, show Int.toNat 2 = 2 from rfl,
      show Int.toNat 3 = 3 from rfl]
  have hs : Reachable ⟨1, 1⟩ := .step _ _ _ _ _ _ .init h₁
  ⟨hs, h₂, trainStep_acc_mem hs h₂⟩

end Counters

/-- Where the pairs of a batch end: for pairs of lengths `(pos, pair)` packed from `a` on, the
positions of the last token of the positive answer and of the pair's last token. -/
def pairEnds : Int → List (Int × Int) → List (Int × Int)
  | _, [] => []
  | a, (pos, pair) :: ps => (a + pos - 1, a + pair - 1) :: pairEnds (a + pair) ps

/-- Two tensors of one length combine entry by entry. -/
theorem broadcast_of_length_eq {α β γ : Type} {f : α → β → γ} {a : List α} {b : List β}
    (h : a.length = b.length) : broadcast f a b = some (List.zipWith f a b) :=
  if_pos h

/-- `cu_seqlens[1:] - 1` of the answers' lengths, positive then negative, lists each pair's
two ends. -/
theorem tail_scanl_pairs (a : Int) : ∀ (pos pair : List Int), pos.length = pair.length →
    (((pos.zip (List.zipWith (· - ·) pair pos)).flatMap fun p => [p.1, p.2]).scanl (· + ·)
        a).tail.map (· - 1) = (pairEnds a (pos.zip pair)).flatMap fun e => [e.1, e.2]
  | [], [], _ => rfl
  | x :: pos, y :: pair, h => by
    have ih := tail_scanl_pairs (a + y) pos pair (by simpa using h)
    have hs : ∀ R : List Int, R.scanl (· + ·) (a + y) = (a + y) :: (R.scanl (· + ·) (a + y)).tail :=
      fun R => by cases R <;> rfl
    simp only [List.zip_eq_zipWith, List.zipWith_cons_cons, List.flatMap_cons, List.cons_append,
      List.nil_append, List.scanl_cons, List.tail_cons, List.map_cons, pairEnds] at ih ⊢
    rw [show a + x + (y - x) = a + y by ring, hs, List.map_cons, ih]
  | [], _ :: _, h => by simp at h
  | _ :: _, [], h => by simp at h

/-- `.view(-1, 2)` of a list of pairs laid flat gives them back. -/
theorem viewPairs_flatMap {α ε : Type} (f g : ε → α) :
    ∀ l : List ε, viewPairs (l.flatMap fun e => [f e, g e]) = some (l.map fun e => (f e, g e))
  | [] => rfl
  | e :: l => by
    rw [List.flatMap_cons, List.cons_append, List.cons_append, List.nil_append, viewPairs,
      viewPairs_flatMap f g l]
    rfl

/-- Every end lies past the start and before the end of the pairs. -/
theorem pairEnds_bounds : ∀ (a : Int) (ps : List (Int × Int)), (∀ p ∈ ps, 0 < p.1 ∧ p.1 < p.2) →
    ∀ e ∈ pairEnds a ps, a ≤ e.1 ∧ a ≤ e.2 ∧ e.1 < a + (ps.map (·.2)).sum ∧
      e.2 < a + (ps.map (·.2)).sum
  | _, [], _, _, he => by simp [pairEnds] at he
  | a, (x, y) :: ps, h, e, he => by
    have hxy := h (x, y) (List.mem_cons_self _ _)
    have hps : 0 ≤ (ps.map (·.2)).sum := List.sum_nonneg fun z hz => by
      obtain ⟨p, hp, rfl⟩ := List.mem_map.1 hz
      have := h p (List.mem_cons_of_mem _ hp)
      omega
    simp only [pairEnds, List.mem_cons, List.map_cons, List.sum_cons] at he ⊢
    rcases he with rfl | he
    · simp only at hxy ⊢
      omega
    · have := pairEnds_bounds (a + y) ps (fun p hp => h p (List.mem_cons_of_mem _ hp)) e he
      omega

/-- Laying out two entries per element doubles the length. -/
theorem length_flatMap_pair {α ε : Type} (f g : ε → α) :
    ∀ l : List ε, (l.flatMap fun e => [f e, g e]).length = 2 * l.length
  | [] => rfl
  | e :: l => by
    rw [List.flatMap_cons, List.length_append, length_flatMap_pair f g l]
    simp only [List.length_cons, List.length_nil]
    omega

@[simp] theorem length_pairEnds :
    ∀ (a : Int) (ps : List (Int × Int)), (pairEnds a ps).length = ps.length
  | _, [] => rfl
  | a, (_, y) :: ps => by simp [pairEnds, length_pairEnds (a + y) ps]

/-- An index inside the list reads its entry. -/
theorem pyIndex_eq_getD {α : Type} {l : List α} {i : Int} (d : α) (h0 : 0 ≤ i) (hi : i < l.length) :
    pyIndex l i = some (l.getD i.toNat d) := by
  simp only [pyIndex, if_pos h0, List.getD_eq_getElem _ _ (by omega : i.toNat < l.length)]
  exact List.getElem?_eq_getElem _

/-- The scores a batch's pairs are ranked by: at the last token of each positive answer and at
the last token of its pair. -/
def pairScores (scores : List ℚ) (posInputLens seqlens : List Int) : List (ℚ × ℚ) :=
  (pairEnds 0 (posInputLens.zip seqlens)).map fun e =>
    (scores.getD e.1.toNat 0, scores.getD e.2.toNat 0)

section Pairs

variable {logsigmoid : ℚ → ℚ} {s : PairedRewardInterface} {posInputLens seqlens : List Int}
  {groupFactor scores : List ℚ} {epochAdvances : Bool}

/-- On a batch of pairs whose positive answers are nonempty and shorter than their pairs, with
one score per packed token and one factor per pair, the layout `train_step` and `evaluate` pack,
each pair's positive answer and then its negative one, holds two lengths per pair, and the loss
function ranks every pair by the scores at the last token of its positive answer and at the
last token of the pair. -/
theorem pairedRwLoss_pairLayout (logsigmoid : ℚ → ℚ) (hlen : posInputLens.length = seqlens.length)
    (hpos : ∀ p ∈ posInputLens.zip seqlens, 0 < p.1 ∧ p.1 < p.2)
    (hscores : (scores.length : Int) = seqlens.sum) (hgf : groupFactor.length = seqlens.length) :
    ((posInputLens.zip (List.zipWith (· - ·) seqlens posInputLens)).flatMap
        fun p => [p.1, p.2]).length = 2 * seqlens.length ∧
      pairedRwLossFromModelOutputs logsigmoid scores
        (((posInputLens.zip (List.zipWith (· - ·) seqlens posInputLens)).flatMap
          fun p => [p.1, p.2]).scanl (· + ·) 0) groupFactor =
        some ⟨-(List.zipWith (fun p g => logsigmoid (p.1 - p.2) * g)
            (pairScores scores posInputLens seqlens) groupFactor).sum,
          (pairScores scores posInputLens seqlens).countP (fun p => p.2 < p.1),
          mean ((pairScores scores posInputLens seqlens).map (·.1)),
          mean ((pairScores scores posInputLens seqlens).map (·.2))⟩ := by
  have hzip : (posInputLens.zip seqlens).length = seqlens.length := by simp [hlen]
  have hsum : ((posInputLens.zip seqlens).map (·.2)).sum = seqlens.sum := by
    rw [List.map_snd_zip _ _ hlen.symm.le]
  have hread : ((pairEnds 0 (posInputLens.zip seqlens)).flatMap fun e => [e.1, e.2]).mapM
      (pyIndex scores) = some ((pairEnds 0 (posInputLens.zip seqlens)).flatMap fun e =>
        [scores.getD e.1.toNat 0, scores.getD e.2.toNat 0]) := by
    rw [mapM_eq_some_map (g := fun i : Int => scores.getD i.toNat 0) fun i hi => ?_,
      List.map_flatMap]
    · rfl
    · obtain ⟨e, he, hi⟩ := List.mem_flatMap.1 hi
      have := pairEnds_bounds 0 _ hpos e he
      rw [hsum] at this
      simp only [List.mem_cons, List.mem_singleton, List.not_mem_nil, or_false] at hi
      rcases hi with rfl | rfl <;> exact pyIndex_eq_getD 0 (by omega) (by omega)
  have hgf' : ((pairEnds 0 (posInputLens.zip seqlens)).map fun e =>
      logsigmoid (scores.getD e.1.toNat 0 - scores.getD e.2.toNat 0)).length =
      groupFactor.length := by simp [length_pairEnds, hzip, hgf]
  refine ⟨by rw [length_flatMap_pair]; simp [hlen], ?_⟩
  simp only [pairedRwLossFromModelOutputs, tail_scanl_pairs 0 posInputLens seqlens hlen, hread,
    viewPairs_flatMap, List.map_map, Function.comp_def, broadcast_of_length_eq hgf',
    Option.bind_eq_bind, Option.some_bind, Option.pure_def, List.zipWith_map_left, pairScores]

end Pairs

end ReaLHF.Interface
