/-
What `generate_logits_ignoring_mask` masks (`impl/model/interface/wps_actor_critic.py`,
lines 158-183).

# The specification

Row by row, token `v` is masked exactly when
* top-p: the tokens the sort lists after `v` carry at least `top_p` of the softmax
  probability (`massAfter`), or
* top-k: at least `top_k` tokens have a larger logit than `v` (`countAbove`).

`nucleusMask` is that mask. Its top-p part is the nucleus: in ascending order, the masked
tokens come first and the kept ones are the fewest largest whose mass reaches `top_p`. Which
of several equal logits falls on which side depends on the order `torch.sort` returns, and
the results hold for every such order.

# Shape of the argument

* The prefix sum of the sorted probabilities at `j` is one less the mass after position `j`,
  so comparing it with `1 - top_p` compares that mass with `top_p`
  (`cumsum_softmax_le_iff`).
* `scatter` over the sort's indices, a permutation, writes each sorted flag back at its own
  token (`scatter_perm`).
* A sorted descending list's elements above `x` are a prefix, so its `k`-th is above `x`
  exactly when `k` of its elements are (`lt_getElem_iff_countP`), and `topk`'s last value is
  that element (`topkLast_spec`).
-/
import ReaLHF.Interface.SamplingMask
import ReaLHF.Lists

namespace ReaLHF.Interface

-- ==================================================================== the spec

/-- The softmax probability of the tokens `order` lists after token `v`. -/
def massAfter (exp : ℚ → ℚ) (logits : List ℚ) (order : List Nat) (v : Nat) : ℚ :=
  ((order.drop (order.indexOf v + 1)).map fun w => exp (logits.getD w 0)).sum /
    (logits.map exp).sum

/-- How many tokens have a larger logit than token `v`. -/
def countAbove (logits : List ℚ) (v : Nat) : Nat :=
  logits.countP fun l => logits.getD v 0 < l

/-- The tokens sampling with `top_p` and `top_k` cannot draw, when `order` lists the
vocabulary by ascending logit. -/
def nucleusMask (exp : ℚ → ℚ) (topP : ℚ) (topK : Nat) (logits : List ℚ) (order : List Nat) :
    List Bool :=
  (List.range logits.length).map fun v =>
    decide (topP ≤ massAfter exp logits order v) || decide (topK ≤ countAbove logits v)

-- ========================================================== prefix sums of softmax

theorem length_cumsum (x : List ℚ) : (cumsum x).length = x.length := by
  simp [cumsum, List.length_scanl]

theorem getElem?_cumsum {x : List ℚ} {j : Nat} (hj : j < x.length) :
    (cumsum x)[j]? = some (x.take (j + 1)).sum := by
  rw [cumsum, List.getElem?_tail, getElem?_scanl_sum _ _ hj, zero_add]

theorem sum_map_div (l : List ℚ) (c : ℚ) : (l.map (· / c)).sum = l.sum / c := by
  induction l with
  | nil => simp
  | cons a l ih => simp [ih, add_div]

/-- The prefix sum of the softmax at `j` is at most `1 - p` exactly when the entries past
`j` carry at least `p` of the mass. -/
theorem cumsum_softmax_le_iff {exp : ℚ → ℚ} {x : List ℚ} (hS : 0 < (x.map exp).sum)
    {j : Nat} (hj : j < x.length) (p : ℚ) :
    (cumsum (softmax exp x))[j]? = some ((((x.map exp).take (j + 1)).sum) / (x.map exp).sum) ∧
      ((((x.map exp).take (j + 1)).sum) / (x.map exp).sum ≤ 1 - p ↔
        p ≤ ((x.map exp).drop (j + 1)).sum / (x.map exp).sum) := by
  have hsoft : softmax exp x = (x.map exp).map (· / (x.map exp).sum) := by
    simp [softmax, Function.comp_def]
  refine ⟨by rw [hsoft, getElem?_cumsum (by simpa using hj), ← List.map_take, sum_map_div], ?_⟩
  have hsplit : ((x.map exp).take (j + 1)).sum / (x.map exp).sum +
      ((x.map exp).drop (j + 1)).sum / (x.map exp).sum = 1 := by
    rw [← add_div, List.sum_take_add_sum_drop, div_self hS.ne']
  constructor <;> intro <;> linarith

-- ======================================================================= scatter

section Scatter

variable {α : Type}

/-- Writing at other indices leaves entry `i` alone. -/
theorem foldl_set_of_not_mem :
    ∀ (pairs : List (Nat × α)) (out : List α) {i : Nat}, i ∉ pairs.map Prod.fst →
      (pairs.foldl (fun out p => out.set p.1 p.2) out)[i]? = out[i]?
  | [], _, _, _ => rfl
  | p :: ps, out, i, hi => by
    rw [List.foldl_cons, foldl_set_of_not_mem ps _ fun h => hi (List.mem_cons_of_mem _ h),
      List.getElem?_set, if_neg fun h : p.1 = i => hi (h ▸ List.mem_cons_self _ _)]

theorem length_foldl_set :
    ∀ (pairs : List (Nat × α)) (out : List α),
      (pairs.foldl (fun out p => out.set p.1 p.2) out).length = out.length
  | [], _ => rfl
  | p :: ps, out => by rw [List.foldl_cons, length_foldl_set ps, List.length_set]

/-- Over indices without repeats, entry `index[j]` ends as `src[j]`. -/
theorem foldl_set_zip :
    ∀ (index : List Nat) (src out : List α) (j : Nat) (hj : j < index.length), index.Nodup →
      (∀ i ∈ index, i < out.length) → j < src.length →
      ((index.zip src).foldl (fun out p => out.set p.1 p.2) out)[index[j]]? = src[j]?
  | [], _, _, _, hj, _, _, _ => absurd hj (Nat.not_lt_zero _)
  | _ :: _, [], _, _, _, _, _, hs => absurd hs (Nat.not_lt_zero _)
  | i :: is, s :: ss, out, 0, _, hnd, hlt, _ => by
    have hi : i ∉ (is.zip ss).map Prod.fst := fun h => by
      obtain ⟨⟨a, b⟩, hab, rfl⟩ := List.mem_map.1 h
      exact (List.nodup_cons.1 hnd).1 (List.of_mem_zip hab).1
    rw [List.zip_cons_cons, List.foldl_cons, List.getElem_cons_zero, foldl_set_of_not_mem _ _ hi,
      List.getElem?_set_self (hlt i (List.mem_cons_self _ _)), List.getElem?_cons_zero]
  | i :: is, s :: ss, out, j + 1, hj, hnd, hlt, hs => by
    rw [List.zip_cons_cons, List.foldl_cons, List.getElem_cons_succ, List.getElem?_cons_succ]
    exact foldl_set_zip is ss _ j (by simpa using hj) (List.nodup_cons.1 hnd).2
      (fun i' hi' => by rw [List.length_set]; exact hlt i' (List.mem_cons_of_mem _ hi'))
      (by simpa using hs)

/-- `src.scatter(-1, order, src)` over a permutation `order` of the row's positions writes
each entry of `src` back at the position `order` names for it. -/
theorem scatter_perm {order : List Nat} {src : List α}
    (hperm : order.Perm (List.range src.length)) :
    ∃ r, scatter src order src = some r ∧ r.length = src.length ∧
      ∀ v < src.length, r[v]? = src[order.indexOf v]? := by
  have hlen : order.length = src.length := by simpa using hperm.length_eq
  have hlt : ∀ i ∈ order, i < src.length := fun i hi => List.mem_range.1 (hperm.subset hi)
  have hnd : order.Nodup := hperm.nodup_iff.2 (List.nodup_range _)
  refine ⟨_, if_pos ⟨hlen.le, hlt⟩, length_foldl_set _ _, fun v hv => ?_⟩
  have hmem : v ∈ order := hperm.mem_iff.2 (List.mem_range.2 hv)
  have hidx := List.indexOf_lt_length.2 hmem
  conv_lhs => rw [← List.getElem_indexOf hidx]
  exact foldl_set_zip order src src _ hidx hnd hlt (hlen ▸ hidx)

end Scatter

-- ========================================================================= top-k

/-- In a list sorted descending, the entry at `k` is above `x` exactly when more than `k`
entries are. -/
theorem lt_getElem_iff_countP :
    ∀ (s : List ℚ), s.Pairwise (· ≥ ·) → ∀ (k : Nat) (hk : k < s.length) (x : ℚ),
      x < s[k] ↔ k + 1 ≤ s.countP (x < ·)
  | [], _, _, hk, _ => absurd hk (Nat.not_lt_zero _)
  | a :: s, hs, 0, _, x => by
    rw [List.getElem_cons_zero, List.countP_cons]
    constructor
    · intro hx
      simp [hx]
    · intro hc
      by_contra hx
      rw [if_neg (by simpa using hx), Nat.add_zero] at hc
      obtain ⟨y, hy, hxy⟩ := List.countP_pos_iff.1 hc
      exact hx (lt_of_lt_of_le (by simpa using hxy) (List.rel_of_pairwise_cons hs hy))
  | a :: s, hs, k + 1, hk, x => by
    have hk' : k < s.length := by simpa using hk
    have ih := lt_getElem_iff_countP s hs.of_cons k hk' x
    have hle : s[k] ≤ a := List.rel_of_pairwise_cons hs (List.getElem_mem _)
    rw [List.getElem_cons_succ, List.countP_cons, ih]
    constructor
    · intro hc
      rw [if_pos (by simpa using lt_of_lt_of_le (ih.2 hc) hle)]
      omega
    · intro hc
      split_ifs at hc <;> omega

/-- `topk`'s last value for `1 ≤ k ≤ len`: a logit above which lie exactly the logits that at
least `k` logits exceed... stated as: `x` is below it exactly when `k` logits are above `x`. -/
theorem topkLast_spec {logits : List ℚ} {k : Nat} (hk1 : 1 ≤ k) (hk : k ≤ logits.length) :
    ∃ t, topkLast logits k = some t ∧ ∀ x, x < t ↔ k ≤ logits.countP (x < ·) := by
  set desc := logits.mergeSort fun a b => decide (b ≤ a) with hdesc
  have hperm : desc.Perm logits := List.mergeSort_perm _ _
  have hsorted : desc.Pairwise (· ≥ ·) :=
    (@List.sorted_mergeSort _ (fun a b => decide (b ≤ a))
      (fun a b c hab hbc => by simp only [decide_eq_true_eq] at *; exact le_trans hbc hab)
      (fun a b => by simpa using le_total b a) logits).imp fun h => by simpa using h
  have hlen : k - 1 < desc.length := by rw [hperm.length_eq]; omega
  refine ⟨desc[k - 1], ?_, fun x => ?_⟩
  · rw [topkLast, if_neg (by omega), ← hdesc, List.getLast?_take, if_neg (by omega),
      List.getElem?_eq_getElem hlen]
    rfl
  · rw [lt_getElem_iff_countP desc hsorted _ hlen x, hperm.countP_eq, Nat.sub_add_cancel hk1]

theorem topkLast_zero (logits : List ℚ) : topkLast logits 0 = none := by
  simp [topkLast]

-- ======================================================================= one row

section Row

variable {exp : ℚ → ℚ} {topP : ℚ} {topK : Nat} {logits : List ℚ} {order : List Nat}

/-- Listing the logits in another order keeps the softmax denominator. -/
theorem sum_map_exp_sorted (exp : ℚ → ℚ) (hperm : order.Perm (List.range logits.length)) :
    ((order.map (logits.getD · 0)).map exp).sum = (logits.map exp).sum := by
  rw [List.map_map, (hperm.map _).sum_eq, ← List.map_map, map_getD_range]

theorem sum_map_exp_pos (hexp : ∀ x, 0 < exp x) (hV : 0 < logits.length) :
    0 < (logits.map exp).sum :=
  List.sum_pos _ (fun x hx => by obtain ⟨a, -, rfl⟩ := List.mem_map.1 hx; exact hexp a)
    (by simpa [← List.length_pos] using hV)

/-- The top-p flag that lands on token `v` is the test of the mass the sort lists after it. -/
theorem topP_flag (hexp : ∀ x, 0 < exp x) (horder : IsAscendingOrder logits order) {v : Nat}
    (hv : v < logits.length) :
    ((cumsum (softmax exp (order.map (logits.getD · 0)))).map
        fun c => decide (c ≤ 1 - topP))[order.indexOf v]? =
      some (decide (topP ≤ massAfter exp logits order v)) := by
  have hlen : order.length = logits.length := by simpa using horder.1.length_eq
  have hidx : order.indexOf v < order.length :=
    List.indexOf_lt_length.2 (horder.1.mem_iff.2 (List.mem_range.2 hv))
  have hS := sum_map_exp_sorted exp horder.1
  have hpos : 0 < (logits.map exp).sum := sum_map_exp_pos hexp (by omega)
  obtain ⟨hcum, hiff⟩ := cumsum_softmax_le_iff (x := order.map (logits.getD · 0))
    (by rw [hS]; exact hpos) (j := order.indexOf v) (by simpa using hidx) topP
  rw [List.getElem?_map, hcum, Option.map_some', Option.some.injEq, decide_eq_decide, hiff,
    massAfter]
  simp only [List.map_map, Function.comp_def] at hS
  simp only [hS, ← List.map_drop, List.map_map, Function.comp_def]

/-- The top-k flag of token `v` is the test of how many logits exceed it. -/
theorem topK_flag {t : ℚ} (ht : ∀ x, x < t ↔ topK ≤ logits.countP (x < ·)) {v : Nat}
    (hv : v < logits.length) :
    (logits.map fun l => decide (l < t))[v]? = some (decide (topK ≤ countAbove logits v)) := by
  rw [List.getElem?_map, List.getElem?_eq_getElem hv, Option.map_some', countAbove,
    List.getD_eq_getElem _ _ hv, decide_eq_decide.2 (ht _)]

/-- One row of the mask is the specification's, for every order `torch.sort` may return. -/
theorem ignoringMaskRow_eq (hexp : ∀ x, 0 < exp x) (horder : IsAscendingOrder logits order)
    (hk1 : 1 ≤ topK) (hk : topK ≤ logits.length) :
    ignoringMaskRow exp topP topK logits order = some (nucleusMask exp topP topK logits order) := by
  set src := (cumsum (softmax exp (order.map (logits.getD · 0)))).map
    fun c => decide (c ≤ 1 - topP) with hsrc
  have hsrcLen : src.length = logits.length := by
    simp [src, length_cumsum, softmax, horder.1.length_eq]
  obtain ⟨r, hr, hrLen, hrAt⟩ := scatter_perm
    (show order.Perm (List.range src.length) by rw [hsrcLen]; exact horder.1)
  obtain ⟨t, ht, htAt⟩ := topkLast_spec hk1 hk
  simp only [ignoringMaskRow, ← hsrc, hr, ht, Option.bind_eq_bind, Option.some_bind,
    Option.pure_def, Option.some.injEq]
  apply List.ext_getElem?
  intro v
  rcases Nat.lt_or_ge v logits.length with hv | hv
  · rw [List.getElem?_zipWith, hrAt v (hsrcLen ▸ hv), hsrc, topP_flag hexp horder hv,
      topK_flag htAt hv, nucleusMask, List.getElem?_map, List.getElem?_range hv, Option.map_some']
  · rw [List.getElem?_eq_none (by simp [List.length_zipWith]; omega),
      List.getElem?_eq_none (by simpa [nucleusMask] using hv)]

/-- Token `v` is not listed after itself, so the mass after it is below one. -/
theorem massAfter_lt_one (hexp : ∀ x, 0 < exp x) (horder : IsAscendingOrder logits order)
    {v : Nat} (hv : v < logits.length) : massAfter exp logits order v < 1 := by
  set ws := order.map fun w => exp (logits.getD w 0)
  have hS : ws.sum = (logits.map exp).sum := by
    simpa [ws, List.map_map, Function.comp_def] using sum_map_exp_sorted exp horder.1
  have hidx : order.indexOf v < order.length :=
    List.indexOf_lt_length.2 (horder.1.mem_iff.2 (List.mem_range.2 hv))
  have htake : 0 < (ws.take (order.indexOf v + 1)).sum := by
    refine List.sum_pos _ (fun x hx => ?_) (List.ne_nil_of_length_pos (by simp [ws]; omega))
    obtain ⟨w, -, rfl⟩ := List.mem_map.1 (List.mem_of_mem_take hx)
    exact hexp _
  rw [massAfter, div_lt_one (sum_map_exp_pos hexp (by omega)), ← hS,
    ← List.sum_take_add_sum_drop ws (order.indexOf v + 1), List.map_drop]
  linarith

/-- Token `v`'s own logit does not exceed it, so fewer than all tokens do. -/
theorem countAbove_lt_length {v : Nat} (hv : v < logits.length) :
    countAbove logits v < logits.length := by
  rw [countAbove, List.countP_eq_length_filter]
  exact List.length_filter_lt_length_iff_exists.2
    ⟨logits[v], List.getElem_mem _, by rw [List.getD_eq_getElem _ _ hv]; simp⟩

/-- With `top_p = 1` and `top_k` the vocabulary's size, the mask masks nothing. -/
theorem nucleusMask_one_length (hexp : ∀ x, 0 < exp x) (horder : IsAscendingOrder logits order) :
    nucleusMask exp 1 logits.length logits order = logits.map fun _ => false := by
  apply List.ext_getElem (by simp [nucleusMask])
  intro v h₁ _
  have hv : v < logits.length := by simpa [nucleusMask] using h₁
  simp [nucleusMask, not_le.2 (massAfter_lt_one hexp horder hv),
    not_le.2 (countAbove_lt_length hv)]

/-- The early return: with `top_p = 1` and `top_k` the vocabulary's size, the rest of the
function computes the all-false mask that `torch.zeros_like` returns. -/
theorem ignoringMaskRow_fastPath (hexp : ∀ x, 0 < exp x) (horder : IsAscendingOrder logits order)
    (hV : 0 < logits.length) :
    ignoringMaskRow exp 1 logits.length logits order = some (logits.map fun _ => false) := by
  rw [ignoringMaskRow_eq hexp horder hV le_rfl, nucleusMask_one_length hexp horder]

/-- A positive stand-in for `exp`. -/
def squarePlusOne (x : ℚ) : ℚ :=
  x * x + 1

theorem squarePlusOne_pos (x : ℚ) : 0 < squarePlusOne x := by
  unfold squarePlusOne
  nlinarith [mul_self_nonneg x]

theorem ignoringMaskRow_fastPath_threeTokens :
    (∀ x, 0 < squarePlusOne x) ∧ IsAscendingOrder [1, 3, 2] [0, 2, 1] ∧
      0 < [(1 : ℚ), 3, 2].length ∧
      ignoringMaskRow squarePlusOne 1 [(1 : ℚ), 3, 2].length [1, 3, 2] [0, 2, 1] =
        some ([(1 : ℚ), 3, 2].map fun _ => false) :=
  ⟨squarePlusOne_pos, by decide, by decide,
    ignoringMaskRow_fastPath squarePlusOne_pos (by decide) (by decide)⟩

variable (exp) in
/-- The token the sort lists last has nothing after it, and no logit is above its own. -/
theorem exists_last_of_ascendingOrder (horder : IsAscendingOrder logits order)
    (hV : 0 < logits.length) :
    ∃ v < logits.length, massAfter exp logits order v = 0 ∧ ∀ l ∈ logits, l ≤ logits.getD v 0 := by
  have hlen : order.length = logits.length := by simpa using horder.1.length_eq
  have hnd : order.Nodup := horder.1.nodup_iff.2 (List.nodup_range _)
  have hlast : order.length - 1 < order.length := by omega
  set v := order[order.length - 1] with hv
  refine ⟨v, List.mem_range.1 (horder.1.subset (List.getElem_mem _)), ?_, fun l hl => ?_⟩
  · rw [massAfter, hv, List.indexOf_getElem hnd, Nat.sub_add_cancel (by omega), List.drop_length]
    simp
  · obtain ⟨w, hw, rfl⟩ := List.getElem_of_mem hl
    have hwo : order.indexOf w < order.length :=
      List.indexOf_lt_length.2 (horder.1.mem_iff.2 (List.mem_range.2 hw))
    rw [← List.getD_eq_getElem _ 0 hw]
    rcases Nat.lt_or_ge (order.indexOf w) (order.length - 1) with hlt | hge
    · have := List.pairwise_iff_getElem.1 horder.2 _ _ (by simpa using hwo) (by simpa using hlast) hlt
      simpa [List.getElem_indexOf hwo, hv] using this
    · have hwv : order[order.indexOf w] = v := by simp only [show order.indexOf w = order.length - 1 by omega, hv]
      rw [List.getElem_indexOf hwo] at hwv
      rw [hwv]

/-- A token with nothing listed after it and no larger logit is kept whenever `top_p > 0` and
`top_k ≥ 1`. -/
theorem nucleusMask_getElem?_last (hp : 0 < topP) (hk : 1 ≤ topK) {v : Nat}
    (hv : v < logits.length) (hmass : massAfter exp logits order v = 0)
    (hmax : ∀ l ∈ logits, l ≤ logits.getD v 0) :
    (nucleusMask exp topP topK logits order)[v]? = some false := by
  have hcount : countAbove logits v = 0 := List.countP_eq_zero.2 fun l hl => by simpa using hmax l hl
  rw [nucleusMask, List.getElem?_map, List.getElem?_range hv, Option.map_some', hmass, hcount]
  simp [not_le.2 hp, Nat.one_le_iff_ne_zero.1 hk]

end Row

-- =================================================================== every row

section Rows

variable {exp : ℚ → ℚ} {sort : List ℚ → List Nat} {logits : Rows ℚ} {topP : Option ℚ}
  {topK : Option Int}

/-- `generate_logits_ignoring_mask` masks, in every row and for every order `torch.sort` may
return, exactly the tokens `nucleusMask` names: those after which the sort lists at least
`top_p` of the probability, and those that at least `top_k` logits exceed, with `top_k`
defaulted and clamped to the vocabulary as the code does. -/
theorem generateLogitsIgnoringMask_eq (hexp : ∀ x, 0 < exp x)
    (hsort : ∀ row ∈ logits.rows, IsAscendingOrder row (sort row)) (hV : 0 < logits.width)
    (hp : 0 < topP.getD 1 ∧ topP.getD 1 ≤ 1) (hk : topK.getD (-1) ≠ 0) :
    generateLogitsIgnoringMask exp sort logits topP topK =
      some (logits.rows.map fun row => nucleusMask exp (topP.getD 1)
        (if topK.getD (-1) < 0 ∨ (logits.width : Int) < topK.getD (-1) then logits.width
          else (topK.getD (-1)).toNat) row (sort row)) := by
  set k := if topK.getD (-1) < 0 ∨ (logits.width : Int) < topK.getD (-1) then logits.width
    else (topK.getD (-1)).toNat with hkdef
  have hk' : 1 ≤ k ∧ k ≤ logits.width := by
    rw [hkdef]
    split_ifs <;> omega
  simp only [generateLogitsIgnoringMask, if_neg (not_not.2 hp), ← hkdef]
  by_cases hfast : topP.getD 1 = 1 ∧ k = logits.width
  · rw [if_pos hfast]
    congr 1
    refine List.map_congr_left fun row hrow => ?_
    rw [hfast.1, hfast.2, ← logits.rows_width row hrow,
      nucleusMask_one_length hexp (hsort row hrow)]
  · rw [if_neg hfast]
    exact mapM_eq_some_map fun row hrow => ignoringMaskRow_eq hexp (hsort row hrow) hk'.1
      (logits.rows_width row hrow ▸ hk'.2)

/-- Ascending order of a row's positions, equal logits by position. -/
def stableOrder (row : List ℚ) : List Nat :=
  (List.range row.length).insertionSort fun a b => row.getD a 0 ≤ row.getD b 0

/-- Two positions of a three-token vocabulary, the second with a tie. -/
def twoRows : Rows ℚ :=
  ⟨3, [[1, 3, 2], [0, 0, 5]], by decide⟩

theorem generateLogitsIgnoringMask_eq_twoRows :
    (∀ x, 0 < squarePlusOne x) ∧ (∀ row ∈ twoRows.rows, IsAscendingOrder row (stableOrder row)) ∧
      0 < twoRows.width ∧ (0 < (some (1 / 2 : ℚ)).getD 1 ∧ (some (1 / 2 : ℚ)).getD 1 ≤ 1) ∧
      (some (2 : Int)).getD (-1) ≠ 0 ∧
      generateLogitsIgnoringMask squarePlusOne stableOrder twoRows (some (1 / 2)) (some 2) =
        some (twoRows.rows.map fun row => nucleusMask squarePlusOne ((some (1 / 2 : ℚ)).getD 1)
          (if (some (2 : Int)).getD (-1) < 0 ∨ (twoRows.width : Int) < (some (2 : Int)).getD (-1)
            then twoRows.width else ((some (2 : Int)).getD (-1)).toNat) row (stableOrder row)) :=
  ⟨squarePlusOne_pos, by decide, by decide, by norm_num, by decide,
    generateLogitsIgnoringMask_eq squarePlusOne_pos (by decide) (by decide) (by norm_num)
      (by decide)⟩

/-- Whenever `generate_logits_ignoring_mask` returns, each row's mask spans the row and, in a
non-empty row, leaves unmasked a token of largest logit: sampling can always draw the most
likely token. -/
theorem generateLogitsIgnoringMask_keeps (hexp : ∀ x, 0 < exp x)
    (hsort : ∀ row ∈ logits.rows, IsAscendingOrder row (sort row)) {masks : List (List Bool)}
    (h : generateLogitsIgnoringMask exp sort logits topP topK = some masks) :
    List.Forall₂ (fun row m => m.length = row.length ∧
      (0 < row.length → ∃ v, m[v]? = some false ∧ ∀ l ∈ row, l ≤ row.getD v 0))
      logits.rows masks := by
  simp only [generateLogitsIgnoringMask] at h
  generalize hkdef : (if topK.getD (-1) < 0 ∨ (logits.width : Int) < topK.getD (-1) then
    logits.width else (topK.getD (-1)).toNat) = k at h
  have hk2 : k ≤ logits.width := by
    rw [← hkdef]
    split_ifs <;> omega
  split_ifs at h with hp hfast
  case pos =>
    obtain rfl := Option.some.inj h
    refine List.forall₂_map_right_iff.2 (List.forall₂_same.2 fun row hrow =>
      ⟨List.length_map _ _, fun hV => ?_⟩)
    obtain ⟨v, hv, -, hmax⟩ := exists_last_of_ascendingOrder exp (hsort row hrow) hV
    exact ⟨v, by simp [hv], hmax⟩
  case neg =>
    refine ((List.forall₂_and_left _ _).2 ⟨fun _ h => h, forall₂_of_mapM_eq_some h⟩).imp
      fun row m ⟨hrow, hm⟩ => ?_
    have hk1 : 1 ≤ k := Nat.one_le_iff_ne_zero.2 fun h0 => by
      simp [ignoringMaskRow, h0, topkLast_zero] at hm
    rw [ignoringMaskRow_eq hexp (hsort row hrow) hk1 (logits.rows_width row hrow ▸ hk2)] at hm
    obtain rfl := Option.some.inj hm
    refine ⟨by simp [nucleusMask], fun hV => ?_⟩
    obtain ⟨v, hv, hmass, hmax⟩ := exists_last_of_ascendingOrder exp (hsort row hrow) hV
    exact ⟨v, nucleusMask_getElem?_last hp.1 hk1 hv hmass hmax, hmax⟩

/-- Both filters on the two rows: `top_p = 1/2` masks the tokens whose cumulative probability
stays at most one half, `top_k = 2` the smallest logit of the first row. -/
theorem generateLogitsIgnoringMask_twoRows_half_two :
    generateLogitsIgnoringMask squarePlusOne stableOrder twoRows (some (1 / 2)) (some 2) =
      some [[true, false, true], [true, true, false]] := by
  have hsort : ∀ row ∈ twoRows.rows, IsAscendingOrder row (stableOrder row) := by decide
  have hk : (if (2 : Int) < 0 ∨ (twoRows.width : Int) < 2 then twoRows.width
      else Int.toNat 2) = 2 := by decide
  have hmasks : twoRows.rows.map (fun row => nucleusMask squarePlusOne (1 / 2) 2 row
      (stableOrder row)) = [[true, false, true], [true, true, false]] := by
    have h1 : stableOrder [1, 3, 2] = [0, 2, 1] := by decide
    have h2 : stableOrder [0, 0, 5] = [0, 1, 2] := by decide
    simp only [twoRows, List.map_cons, List.map_nil, h1, h2]
    norm_num [nucleusMask, massAfter, countAbove, squarePlusOne, List.range_succ]
  simp only [generateLogitsIgnoringMask, Option.getD_some]
  rw [if_neg (by norm_num), hk, if_neg (by norm_num), ← hmasks]
  exact mapM_eq_some_map fun row hrow => ignoringMaskRow_eq squarePlusOne_pos (hsort row hrow)
    (by decide) (by rw [twoRows.rows_width row hrow]; decide)

theorem generateLogitsIgnoringMask_keeps_twoRows :
    (∀ x, 0 < squarePlusOne x) ∧ (∀ row ∈ twoRows.rows, IsAscendingOrder row (stableOrder row)) ∧
      generateLogitsIgnoringMask squarePlusOne stableOrder twoRows (some (1 / 2)) (some 2) =
        some [[true, false, true], [true, true, false]] ∧
      List.Forall₂ (fun row m => m.length = row.length ∧
        (0 < row.length → ∃ v, m[v]? = some false ∧ ∀ l ∈ row, l ≤ row.getD v 0))
        twoRows.rows [[true, false, true], [true, true, false]] :=
  ⟨squarePlusOne_pos, by decide, generateLogitsIgnoringMask_twoRows_half_two,
    generateLogitsIgnoringMask_keeps squarePlusOne_pos (by decide)
      generateLogitsIgnoringMask_twoRows_half_two⟩

end Rows

end ReaLHF.Interface
