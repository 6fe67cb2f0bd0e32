/-
Log-probabilities of packed sequences: `gather_packed_shifted_log_probs`
(`impl/model/utils/data.py`, lines 336-370).

Sequences are packed end to end; `cu_seqlens` holds where each one starts, then the total
length. Within each sequence the logits at every position but the last predict the token one
position on, so the function builds two index lists, `leave_one_indices` (each sequence's
positions but its last) and `shift_one_indices` (each sequence's positions but its first),
reads the logits at the first and the labels at the second, and gathers each row's
log-probability of its label.

# What is modelled

`cu_seqlens` and the labels are lists of integers and a row of logits is of any type `α`:
the log-softmax of a row read at a label is the parameter `logProbAt`, `none` for a label
outside the vocabulary. `torch.arange` raises on an end below its start and `torch.cat` on an
empty list; an index past either end of `logits_` or `labels_` raises and a negative one
counts from the end; `gather` raises on an index with more rows than its input. These
exceptions and the final `assert` are `none`.

# Shape of the argument

* `shift_one_indices` is `leave_one_indices` plus one, on any `cu_seqlens`: moving both ends
  of every range up by one moves every element (`seqRanges_add_one`).
* On a `cu_seqlens` of sequences packed end to end, every range is well formed, so
  `leave_one_indices` is the concatenation of the blocks `seqBlock` of every sequence but
  its last position (`leaveOneIndices_eq`), of total length the packed length less one per
  sequence (`length_flatten_seqBlock`), and a position lies in it iff it and the next one lie
  in one sequence (`mem_flatten_seqBlock`).
* So every index reads inside `logits_` and `labels_`, `gather` receives as many labels as
  rows, and the final `assert` holds.

With a single entry, `cu_seqlens = [0]`, there is no sequence: the comprehension is empty
and `torch.cat` raises before the index lists exist.
-/
import ReaLHF.Torch
import ReaLHF.Lists

namespace ReaLHF.Model

/-- `torch.arange(start, end)`: the integers from `start` up to `end`, raising when `end` is
below `start`. -/
def arange (start stop : Int) : Option (List Int) :=
  if stop < start then none
  else some ((List.range (stop - start).toNat).map fun k : Nat => start + k)

/-- `torch.cat(tensors)` of 1-d tensors, raising on an empty list. -/
def cat (tensors : List (List Int)) : Option (List Int) :=
  if tensors = [] then none else some tensors.flatten

/-- `torch.cat([torch.arange(cu_seqlens[i] + a, cu_seqlens[i + 1] + b) for i in
range(cu_seqlens.shape[0] - 1)])`, the shape of both index lists. -/
def seqRanges (a b : Int) (cuSeqlens : List Int) : Option (List Int) := do
  cat (← (List.range (cuSeqlens.length - 1)).mapM fun i =>
    arange (cuSeqlens.getD i 0 + a) (cuSeqlens.getD (i + 1) 0 + b))

/-- `leave_one_indices`: `torch.arange(cu_seqlens[i], cu_seqlens[i + 1] - 1)` per sequence. -/
def leaveOneIndices (cuSeqlens : List Int) : Option (List Int) :=
  seqRanges 0 (-1) cuSeqlens

/-- `shift_one_indices`: `torch.arange(cu_seqlens[i] + 1, cu_seqlens[i + 1])` per sequence. -/
def shiftOneIndices (cuSeqlens : List Int) : Option (List Int) :=
  seqRanges 1 0 cuSeqlens

variable {α β : Type}

/-- `log_probs.gather(dim=-1, index=labels.unsqueeze(-1)).squeeze(-1)`: row `k`'s
log-probability of label `k`; the index may not have more rows than the input. -/
def gatherLogProbs (logProbAt : α → Int → Option β) (rows : List α) (labels : List Int) :
    Option (List β) :=
  if labels.length ≤ rows.length then (rows.zip labels).mapM fun q => logProbAt q.1 q.2
  else none

/-- `gather_packed_shifted_log_probs(logits_, cu_seqlens, labels_)`. -/
def gatherPackedShiftedLogProbs (logProbAt : α → Int → Option β) (logits : List α)
    (cuSeqlens labels : List Int) : Option (List β) := do
  let leave ← leaveOneIndices cuSeqlens
  let shift ← shiftOneIndices cuSeqlens
  let rows ← leave.mapM (pyIndex logits)
  let shiftedLabels ← shift.mapM (pyIndex labels)
  let logProbsLabels ← gatherLogProbs logProbAt rows shiftedLabels
  if (logProbsLabels.length : Int) = logits.length - cuSeqlens.length + 1 then
    some logProbsLabels
  else none

-- =============================================================== ranges

theorem arange_of_le {start stop : Int} (h : start ≤ stop) :
    arange start stop = some ((List.range (stop - start).toNat).map fun k : Nat => start + k) :=
  if_neg (not_lt.2 h)

theorem mem_range_map {start p : Int} {k : Nat} :
    p ∈ (List.range k).map (fun m : Nat => start + m) ↔ start ≤ p ∧ p < start + k := by
  simp only [List.mem_map, List.mem_range]
  constructor
  · rintro ⟨m, hm, rfl⟩
    omega
  · intro h
    exact ⟨(p - start).toNat, by omega, by omega⟩

/-- Moving both ends of a range up by one moves every element up by one. -/
theorem arange_add_one (start stop : Int) :
    arange (start + 1) (stop + 1) = (arange start stop).map (List.map (· + 1)) := by
  unfold arange
  split_ifs <;> try omega
  · rfl
  · simp only [Option.map_some', List.map_map, show stop + 1 - (start + 1) = stop - start by ring]
    congr 2
    funext k
    simp only [Function.comp_apply]
    ring

theorem cat_map (g : Int → Int) (tensors : List (List Int)) :
    cat (tensors.map (List.map g)) = (cat tensors).map (List.map g) := by
  unfold cat
  split_ifs with h h' h' <;> simp_all [List.map_flatten]

/-- Moving both ends of every sequence's range up by one moves every index up by one. -/
theorem seqRanges_add_one (a b : Int) (cuSeqlens : List Int) :
    seqRanges (a + 1) (b + 1) cuSeqlens = (seqRanges a b cuSeqlens).map (List.map (· + 1)) := by
  simp only [seqRanges, ← add_assoc, arange_add_one, mapM_map_option, Option.bind_eq_bind,
    Option.bind_map, Option.map_bind, Function.comp_def, cat_map]

/-- `shift_one_indices` is `leave_one_indices` plus one, whatever `cu_seqlens` is. -/
theorem shiftOneIndices_eq (cuSeqlens : List Int) :
    shiftOneIndices cuSeqlens = (leaveOneIndices cuSeqlens).map (List.map (· + 1)) := by
  simpa using seqRanges_add_one 0 (-1) cuSeqlens

-- ===================================================== packed sequences

/-- `cu_seqlens` of sequences packed end to end into `total` positions: it starts at `0`,
increases strictly, and ends at `total`. -/
structure PackedCuSeqlens (cuSeqlens : List Int) (total : Nat) : Prop where
  head : cuSeqlens.head? = some 0
  increasing : cuSeqlens.Pairwise (· < ·)
  last : cuSeqlens.getLast? = some (total : Int)

instance (cuSeqlens : List Int) (total : Nat) : Decidable (PackedCuSeqlens cuSeqlens total) :=
  decidable_of_iff (cuSeqlens.head? = some 0 ∧ cuSeqlens.Pairwise (· < ·) ∧
      cuSeqlens.getLast? = some (total : Int))
    ⟨fun ⟨a, b, c⟩ => ⟨a, b, c⟩, fun ⟨a, b, c⟩ => ⟨a, b, c⟩⟩

namespace PackedCuSeqlens

variable {cuSeqlens : List Int} {total : Nat} (h : PackedCuSeqlens cuSeqlens total)
include h

theorem getD_zero : cuSeqlens.getD 0 0 = 0 := by
  rw [List.getD_eq_getElem?_getD, ← List.head?_eq_getElem?, h.head, Option.getD_some]

theorem getD_last : cuSeqlens.getD (cuSeqlens.length - 1) 0 = total := by
  rw [List.getD_eq_getElem?_getD, ← List.getLast?_eq_getElem?, h.last, Option.getD_some]

theorem getD_lt {i : Nat} (hi : i + 1 < cuSeqlens.length) :
    cuSeqlens.getD i 0 < cuSeqlens.getD (i + 1) 0 := by
  rw [List.getD_eq_getElem _ _ (by omega : i < cuSeqlens.length), List.getD_eq_getElem _ _ hi]
  exact List.pairwise_iff_getElem.1 h.increasing i (i + 1) _ _ (Nat.lt_succ_self i)

/-- Entries `j - i` places apart are at least `j - i` apart. -/
theorem getD_add_le {i : Nat} : ∀ {k : Nat}, i + k < cuSeqlens.length →
    cuSeqlens.getD i 0 + k ≤ cuSeqlens.getD (i + k) 0
  | 0, _ => by simp
  | k + 1, hk => by
    have := h.getD_lt (i := i + k) (by omega)
    have := getD_add_le (i := i) (k := k) (by omega)
    rw [← add_assoc]
    push_cast
    omega

/-- Every boundary lies between `0` and the total. -/
theorem getD_bounds {i : Nat} (hi : i < cuSeqlens.length) :
    0 ≤ cuSeqlens.getD i 0 ∧ cuSeqlens.getD i 0 ≤ total := by
  have h0 := h.getD_add_le (i := 0) (k := i) (by omega)
  have h1 := h.getD_add_le (i := i) (k := cuSeqlens.length - 1 - i) (by omega)
  rw [zero_add, h.getD_zero] at h0
  rw [show i + (cuSeqlens.length - 1 - i) = cuSeqlens.length - 1 by omega, h.getD_last] at h1
  omega

end PackedCuSeqlens

/-- Sequence `i`'s range `[cu_seqlens[i] + a, cu_seqlens[i + 1] + b)`. -/
def seqBlock (a b : Int) (cuSeqlens : List Int) (i : Nat) : List Int :=
  (List.range (cuSeqlens.getD (i + 1) 0 + b - (cuSeqlens.getD i 0 + a)).toNat).map
    fun k : Nat => cuSeqlens.getD i 0 + a + k

/-- With at least one sequence and every range well formed, the index list is the blocks of
the sequences, in order. -/
theorem seqRanges_eq {a b : Int} {cuSeqlens : List Int} (hn : 2 ≤ cuSeqlens.length)
    (hle : ∀ i, i + 1 < cuSeqlens.length →
      cuSeqlens.getD i 0 + a ≤ cuSeqlens.getD (i + 1) 0 + b) :
    seqRanges a b cuSeqlens =
      some ((List.range (cuSeqlens.length - 1)).map (seqBlock a b cuSeqlens)).flatten := by
  rw [seqRanges, mapM_eq_some_map (g := seqBlock a b cuSeqlens)
    fun i hi => arange_of_le (hle i (by rw [List.mem_range] at hi; omega))]
  simp only [Option.bind_eq_bind, Option.some_bind, cat]
  rw [if_neg (by simpa using (by omega : cuSeqlens.length - 1 ≠ 0))]

theorem mem_flatten_seqBlock {a b p : Int} {cuSeqlens : List Int} {n : Nat} :
    p ∈ ((List.range n).map (seqBlock a b cuSeqlens)).flatten ↔
      ∃ i < n, cuSeqlens.getD i 0 + a ≤ p ∧ p < cuSeqlens.getD (i + 1) 0 + b := by
  simp only [List.mem_flatten, List.mem_map, List.mem_range]
  constructor
  · rintro ⟨_, ⟨i, hi, rfl⟩, hp⟩
    exact ⟨i, hi, by rw [seqBlock, mem_range_map] at hp; omega⟩
  · rintro ⟨i, hi, hp⟩
    exact ⟨_, ⟨i, hi, rfl⟩, by rw [seqBlock, mem_range_map]; omega⟩

/-- The first `k` sequences' positions but their last: the packed length up to sequence `k`,
less one per sequence. -/
theorem length_flatten_seqBlock {cuSeqlens : List Int} {total : Nat}
    (h : PackedCuSeqlens cuSeqlens total) :
    ∀ k, k < cuSeqlens.length →
      (((List.range k).map (seqBlock 0 (-1) cuSeqlens)).flatten.length : Int) =
        cuSeqlens.getD k 0 - k
  | 0, _ => by rw [h.getD_zero]; rfl
  | k + 1, hk => by
    have := h.getD_lt (i := k) hk
    rw [List.range_succ, List.map_append, List.flatten_append, List.length_append,
      Nat.cast_add, length_flatten_seqBlock h k (by omega)]
    simp only [List.map_cons, List.map_nil, List.flatten_cons, List.flatten_nil,
      List.append_nil, seqBlock, List.length_map, List.length_range]
    omega

-- ============================================================ the function

/-- An index inside the list reads an element. -/
theorem pyIndex_of_lt {γ : Type} {l : List γ} {p : Int} (h0 : 0 ≤ p) (hp : p < l.length) :
    ∃ x, pyIndex l p = some x :=
  ⟨_, by simp only [pyIndex, if_pos h0]; exact List.getElem?_eq_getElem (by omega)⟩

/-- Once both index lists exist and every index reads, `gather` receives as many labels as
rows, and the `assert` holds when the lists are as long as the packed length less one per
sequence. -/
theorem gatherPackedShiftedLogProbs_eq {logProbAt : α → Int → Option β} {logits : List α}
    {cuSeqlens labels leave : List Int} {rows : List α} {shiftedLabels : List Int}
    (hleave : leaveOneIndices cuSeqlens = some leave)
    (hrows : leave.mapM (pyIndex logits) = some rows)
    (hlabels : (leave.map (· + 1)).mapM (pyIndex labels) = some shiftedLabels)
    (hlen : (leave.length : Int) = logits.length - cuSeqlens.length + 1) :
    gatherPackedShiftedLogProbs logProbAt logits cuSeqlens labels =
      (rows.zip shiftedLabels).mapM fun q => logProbAt q.1 q.2 := by
  have hrl := (forall₂_of_mapM_eq_some hrows).length_eq
  have hll := (forall₂_of_mapM_eq_some hlabels).length_eq
  rw [List.length_map] at hll
  simp only [gatherPackedShiftedLogProbs, hleave, shiftOneIndices_eq, Option.map_some', hrows,
    hlabels, gatherLogProbs, if_pos (show shiftedLabels.length ≤ rows.length by omega),
    Option.bind_eq_bind, Option.some_bind]
  cases hout : (rows.zip shiftedLabels).mapM fun q => logProbAt q.1 q.2 with
  | none => rfl
  | some out =>
    have := (forall₂_of_mapM_eq_some hout).length_eq
    rw [List.length_zip] at this
    rw [Option.some_bind, if_pos (by omega)]

/-- On `cu_seqlens` of at least one sequence packed end to end, with as many labels as
logits: `leave_one_indices` holds every position of every sequence but its last,
`shift_one_indices` the position after each, both are as long as the packed length less one
per sequence, every index reads inside the logits and the labels, and the function returns
each row's log-probability of the next label: the final `assert` never fails. -/
theorem gatherPackedShiftedLogProbs_indices (logProbAt : α → Int → Option β)
    (logits : List α) (cuSeqlens labels : List Int)
    (hcu : PackedCuSeqlens cuSeqlens logits.length) (hlabels : labels.length = logits.length)
    (hseq : 2 ≤ cuSeqlens.length) :
    ∃ leave, leaveOneIndices cuSeqlens = some leave ∧
      shiftOneIndices cuSeqlens = some (leave.map (· + 1)) ∧
      leave.length + (cuSeqlens.length - 1) = logits.length ∧
      (∀ p, p ∈ leave ↔ ∃ i, i + 1 < cuSeqlens.length ∧
        cuSeqlens.getD i 0 ≤ p ∧ p + 1 < cuSeqlens.getD (i + 1) 0) ∧
      ∃ rows shiftedLabels, leave.mapM (pyIndex logits) = some rows ∧
        (leave.map (· + 1)).mapM (pyIndex labels) = some shiftedLabels ∧
        gatherPackedShiftedLogProbs logProbAt logits cuSeqlens labels =
          (rows.zip shiftedLabels).mapM fun q => logProbAt q.1 q.2 := by
  have hleave : leaveOneIndices cuSeqlens = _ :=
    seqRanges_eq hseq fun i hi => by have := hcu.getD_lt hi; omega
  have hlen := length_flatten_seqBlock hcu (cuSeqlens.length - 1) (by omega)
  rw [hcu.getD_last] at hlen
  generalize hL : ((List.range (cuSeqlens.length - 1)).map (seqBlock 0 (-1) cuSeqlens)).flatten
    = leave at hleave hlen
  have hmem : ∀ p, p ∈ leave ↔ ∃ i, i + 1 < cuSeqlens.length ∧
      cuSeqlens.getD i 0 ≤ p ∧ p + 1 < cuSeqlens.getD (i + 1) 0 := fun p => by
    rw [← hL, mem_flatten_seqBlock]
    constructor <;> rintro ⟨i, hi, hp⟩ <;> exact ⟨i, by omega, by omega⟩
  have hin : ∀ p ∈ leave, 0 ≤ p ∧ p + 1 < logits.length := fun p hp => by
    obtain ⟨i, hi, hp⟩ := (hmem p).1 hp
    have := hcu.getD_bounds (i := i) (by omega)
    have := hcu.getD_bounds hi
    omega
  obtain ⟨rows, hrows⟩ := exists_mapM_eq_some fun p hp =>
    pyIndex_of_lt (l := logits) (hin p hp).1 (by have := (hin p hp).2; omega)
  obtain ⟨shiftedLabels, hlabels'⟩ := exists_mapM_eq_some (l := leave.map (· + 1)) fun p hp => by
    obtain ⟨q, hq, rfl⟩ := List.mem_map.1 hp
    exact pyIndex_of_lt (l := labels) (by have := (hin q hq).1; omega)
      (by have := (hin q hq).2; omega)
  refine ⟨leave, hleave, by rw [shiftOneIndices_eq, hleave]; rfl, by omega, hmem, rows,
    shiftedLabels, hrows, hlabels', gatherPackedShiftedLogProbs_eq hleave hrows hlabels' ?_⟩
  omega

/-- Two sequences of lengths two and three. -/
theorem gatherPackedShiftedLogProbs_indices_twoSeqs :
    PackedCuSeqlens [0, 2, 5] [10, 11, 12, 13, 14].length ∧
      [0, 1, 2, 3, 4].length = [10, 11, 12, 13, 14].length ∧ 2 ≤ [0, 2, 5].length ∧
      ∃ leave, leaveOneIndices [0, 2, 5] = some leave ∧
        shiftOneIndices [0, 2, 5] = some (leave.map (· + 1)) ∧
        leave.length + ([0, 2, 5].length - 1) = [10, 11, 12, 13, 14].length ∧
        (∀ p, p ∈ leave ↔ ∃ i, i + 1 < [0, 2, 5].length ∧
          [0, 2, 5].getD i 0 ≤ p ∧ p + 1 < [0, 2, 5].getD (i + 1) 0) ∧
        ∃ rows shiftedLabels, leave.mapM (pyIndex ([10, 11, 12, 13, 14] : List Int)) = some rows ∧
          (leave.map (· + 1)).mapM (pyIndex [0, 1, 2, 3, 4]) = some shiftedLabels ∧
          gatherPackedShiftedLogProbs (fun r l : Int => some (r + l)) [10, 11, 12, 13, 14]
              [0, 2, 5] [0, 1, 2, 3, 4] =
            (rows.zip shiftedLabels).mapM fun q => some (q.1 + q.2) :=
  ⟨by decide, rfl, by decide,
    gatherPackedShiftedLogProbs_indices (fun r l : Int => some (r + l)) [10, 11, 12, 13, 14]
      [0, 2, 5] [0, 1, 2, 3, 4] (by decide) rfl (by decide)⟩

/-- `cu_seqlens = [0]` packs no sequence: the comprehension is empty, `torch.cat` raises, and
neither index list exists. -/
theorem singleEntry_noIndices :
    PackedCuSeqlens [0] 0 ∧ leaveOneIndices [0] = none ∧ shiftOneIndices [0] = none ∧
      gatherPackedShiftedLogProbs (fun r l : Int => some (r + l)) [] [0] [] = none :=
  ⟨by decide, rfl, rfl, rfl⟩

end ReaLHF.Model
