/-
Log-probabilities of a right-padded batch: `gather_shifted_log_probs`
(`impl/model/interface/wps_actor_critic.py`, lines 150-155, and the same function in
`impl/model/utils/data.py`, lines 317-333).

The WPS interfaces keep a batch as a 2-d tensor, one sequence per row, right-padded to one
width. The function drops every row's last position from the logits and its first from the
labels, so that the logits at position `t` meet the label at `t + 1`, and gathers each
position's log-probability of that label. The packed interfaces do the same on sequences laid
end to end with `gather_packed_shifted_log_probs`.

# What is modelled

The logits are `Rows` of vocabulary rows of any type `α` and the labels `Rows` of integers;
the log-softmax of a vocabulary row read at a label is the parameter `logProbAt`, as in the
packed model, `none` for a label outside the vocabulary. `gather` asks for an index no larger
than its input in every dimension but the gathered one, and raises otherwise; that and an
index outside the vocabulary are `none`. Slicing a row of width zero leaves it empty.

# Result

`gatherPackedShiftedLogProbs_packRows`: pack a right-padded batch by cutting every row to its
real tokens and laying the rows end to end, with `cu_seqlens` the prefix sums of the lengths
(`cuSeqlensOf`, as `generate` builds it). Wherever the padded function returns, the packed one
returns the padded rows' log-probs at their real positions, sequence by sequence: the
padding changes nothing the packed path keeps.

# Shape of the argument

* On such a `cu_seqlens`, `leave_one_indices` and `shift_one_indices` are the blocks of
  `seqRanges_eq`, and reading a block's range reads a slice of its row
  (`mapM_pyIndex_range`, `mapM_pyIndex_seqBlock`): every row less its last position for the
  logits, less its first for the labels (`mapM_pyIndex_seqBlocks`).
* Cutting a row and shifting it commute (`dropLast_take_eq`, `tail_take_eq`), so the pairs
  each sequence gathers are its padded row's pairs, cut (`packedPairs_eq`), and a successful
  `mapM` over the padded rows gives the cut rows' log-probs (`mapM_zipWith_take`).
* The lengths add up, so the final `assert` holds.
-/
import ReaLHF.Interface.Ppo
import ReaLHF.Interface.Proofs.PackAlign
import ReaLHF.Model.Proofs.ShiftedIndices

namespace ReaLHF.Interface

open Model

variable {α β γ σ : Type}

/-- `gather_shifted_log_probs(logits, labels)`: `logits[:, :-1]` and `labels[:, 1:]`, then
`log_probs.gather(dim=-1, index=labels.unsqueeze(-1)).squeeze(-1)`, one row per row of the
labels. -/
def gatherShiftedLogProbs (logProbAt : α → Int → Option β) (logits : Rows α)
    (labels : Rows Int) : Option (List (List β)) :=
  if labels.rows.length ≤ logits.rows.length ∧ labels.width - 1 ≤ logits.width - 1 then
    ((logits.rows.map List.dropLast).zip (labels.rows.map List.tail)).mapM fun r =>
      (r.1.zip r.2).mapM fun q => logProbAt q.1 q.2
  else none

/-- The packed layout of a right-padded batch whose row `i` starts with `lens[i]` real
tokens: the real tokens of every row, end to end. With `cuSeqlensOf lens` it is what the
packed interfaces receive for the same batch. -/
def packRows {γ : Type} (lens : List Nat) (rows : List (List γ)) : List γ :=
  (List.zipWith List.take lens rows).flatten

-- ================================================================= row slices

/-- A row cut to `n` tokens, less its last position, is the row less its last, cut to
`n - 1`. -/
theorem dropLast_take_eq (l : List γ) (n : Nat) :
    (l.take n).dropLast = l.dropLast.take (n - 1) := by
  rw [List.dropLast_eq_take, List.dropLast_eq_take, List.take_take, List.take_take,
    List.length_take]
  congr 1
  omega

/-- A row cut to `n` tokens, less its first position, is the row less its first, cut to
`n - 1`. -/
theorem tail_take_eq (l : List γ) (n : Nat) : (l.take n).tail = l.tail.take (n - 1) := by
  rw [← List.drop_one, ← List.drop_one, List.drop_take]

/-- The pairs each packed sequence gathers are its padded row's pairs, cut to its real
tokens less one. -/
theorem packedPairs_eq : ∀ (lens : List Nat) (rows : List (List α)) (labs : List (List Int)),
    List.zipWith (List.zipWith Prod.mk) ((List.zipWith List.take lens rows).map List.dropLast)
        ((List.zipWith List.take lens labs).map List.tail) =
      List.zipWith (fun k q => (q.1.zip q.2).take k) (lens.map (· - 1))
        ((rows.map List.dropLast).zip (labs.map List.tail))
  | [], _, _ => rfl
  | _ :: _, [], _ => rfl
  | _ :: _, _ :: _, [] => rfl
  | l :: lens, r :: rows, lab :: labs => by
    simp only [List.zipWith_cons_cons, List.map_cons, List.zip_cons_cons,
      packedPairs_eq lens rows labs, dropLast_take_eq, tail_take_eq, List.zip_eq_zipWith,
      List.take_zipWith]

/-- Cutting each row cuts what a successful row-by-row `mapM` returns. -/
theorem mapM_zipWith_take {F : σ → List γ} {g : γ → Option β} :
    ∀ (ks : List Nat) {Q : List σ} {out : List (List β)},
      Q.mapM (fun q => (F q).mapM g) = some out →
      (List.zipWith (fun k q => (F q).take k) ks Q).mapM (fun l : List γ => l.mapM g) =
        some (List.zipWith List.take ks out)
  | [], _, _, _ => rfl
  | _ :: _, [], _, h => by rw [mapM_nil_eq_some.1 h]; rfl
  | k :: ks, _ :: _, _, h => by
    obtain ⟨o, ho, os, hos, rfl⟩ := mapM_cons_eq_some.1 h
    exact mapM_cons_eq_some.2 ⟨_, mapM_take k ho, _, mapM_zipWith_take ks hos, rfl⟩

/-- Rows cut to lengths no longer than themselves have those lengths. -/
theorem map_length_zipWith_take : ∀ {lens : List Nat} {rows : List (List γ)},
    lens.length ≤ rows.length → (∀ l ∈ lens, ∀ r ∈ rows, l ≤ r.length) →
    (List.zipWith List.take lens rows).map List.length = lens
  | [], _, _, _ => rfl
  | _ :: _, [], h, _ => by simp at h
  | l :: lens, r :: rows, h, hle => by
    simp only [List.zipWith_cons_cons, List.map_cons, List.length_take,
      min_eq_left (hle l (List.mem_cons_self _ _) r (List.mem_cons_self _ _)),
      map_length_zipWith_take (by simpa using h)
        fun l hl r hr => hle l (List.mem_cons_of_mem _ hl) r (List.mem_cons_of_mem _ hr)]

-- ============================================================= packed reads

/-- Reading `m` consecutive positions from `c` reads a slice. -/
theorem mapM_pyIndex_range (X : List γ) : ∀ (m : Nat) {c : Int}, 0 ≤ c →
    m ≤ (X.drop c.toNat).length →
    ((List.range m).map fun k : Nat => c + k).mapM (pyIndex X) =
      some ((X.drop c.toNat).take m)
  | 0, _, _, _ => rfl
  | m + 1, c, hc, hm => by
    rw [List.length_drop] at hm
    have hlt : c.toNat < X.length := by omega
    have hnext : (c + 1).toNat = c.toNat + 1 := by omega
    have hrest : ((List.range m).map fun k : Nat => c + ((k + 1 : Nat) : Int)) =
        (List.range m).map fun k : Nat => (c + 1) + k := by
      congr 1
      funext k
      push_cast
      ring
    have ih := mapM_pyIndex_range X m (c := c + 1) (by omega)
      (by rw [List.length_drop]; omega)
    rw [hnext] at ih
    rw [List.range_succ_eq_map, List.map_cons, List.map_map, Function.comp_def,
      List.drop_eq_getElem_cons hlt, List.take_succ_cons, List.mapM_cons]
    simp only [Nat.succ_eq_add_one, hrest, ih, pyIndex, Nat.cast_zero, add_zero, if_pos hc,
      List.getElem?_eq_getElem hlt, Option.bind_eq_bind, Option.some_bind, Option.pure_def]

/-- `cu_seqlens` of blocks of lengths `lens`, as the integer tensor the packed functions
receive. -/
theorem getD_cuSeqlensOf_cast {lens : List Nat} {i : Nat} (hi : i ≤ lens.length) :
    ((cuSeqlensOf lens).map (Nat.cast : Nat → Int)).getD i 0 = ((lens.take i).sum : Int) := by
  simp [List.getD_eq_getElem?_getD, getElem?_cuSeqlensOf hi]

/-- Sequence `i`'s range of the `cu_seqlens` of packed blocks reads a slice of block `i`. -/
theorem mapM_pyIndex_seqBlock {B : List (List γ)} {lens : List Nat}
    (hB : B.map List.length = lens) {a b : Int} (ha : 0 ≤ a) (hb : b ≤ 0) {i : Nat}
    (hi : i < B.length) (hab : a ≤ B[i].length + b) :
    (seqBlock a b ((cuSeqlensOf lens).map (↑)) i).mapM (pyIndex B.flatten) =
      some ((B[i].drop a.toNat).take (B[i].length + b - a).toNat) := by
  have hlen : B.length = lens.length := by rw [← hB, List.length_map]
  have hsum : (lens.take (i + 1)).sum = (lens.take i).sum + B[i].length := by
    rw [List.sum_take_succ _ _ (by omega)]
    simp [← hB]
  have hdrop : B.flatten.drop (lens.take i).sum = B[i] ++ (B.drop (i + 1)).flatten := by
    rw [← hB, List.drop_sum_flatten, List.drop_eq_getElem_cons hi, List.flatten_cons]
  have hstart : ((lens.take i).sum + a).toNat = (lens.take i).sum + a.toNat := by omega
  rw [seqBlock, getD_cuSeqlensOf_cast (by omega), getD_cuSeqlensOf_cast (by omega), hsum,
    show ((((lens.take i).sum + B[i].length : Nat) : Int) + b - (((lens.take i).sum : Nat) + a))
      = B[i].length + b - a by push_cast; ring,
    mapM_pyIndex_range _ _ (by omega) (by rw [hstart, ← List.drop_drop, hdrop]; simp; omega),
    hstart, ← List.drop_drop, hdrop, List.drop_append_of_le_length (by omega),
    List.take_append_of_le_length (by simp; omega)]

/-- The index ranges of the `cu_seqlens` of packed blocks read the same slice of every
block. -/
theorem mapM_pyIndex_seqBlocks {B : List (List γ)} {lens : List Nat}
    (hB : B.map List.length = lens) {a b : Int} (ha : 0 ≤ a) (hb : b ≤ 0)
    (hab : ∀ l ∈ lens, a ≤ l + b) :
    ((List.range lens.length).map (seqBlock a b ((cuSeqlensOf lens).map (↑)))).flatten.mapM
        (pyIndex B.flatten) =
      some (B.map fun x => (x.drop a.toNat).take (x.length + b - a).toNat).flatten := by
  have hlen : B.length = lens.length := by rw [← hB, List.length_map]
  rw [mapM_flatten, ← hlen, mapM_map_eq_some (h := fun i =>
    ((B.getD i []).drop a.toNat).take ((B.getD i []).length + b - a).toNat)]
  · conv_rhs => rw [← map_getD_range B []]
    rw [List.map_map]
    rfl
  · intro i hi
    rw [List.mem_range] at hi
    rw [List.getD_eq_getElem _ _ hi]
    exact mapM_pyIndex_seqBlock hB ha hb hi
      (hab _ (hB ▸ List.mem_map_of_mem _ (List.getElem_mem hi)))

/-- Blocks cut by one position have the lengths less one. -/
theorem map_length_map_of_sub_one {f : List γ → List γ}
    (hf : ∀ x, (f x).length = x.length - 1) {B : List (List γ)} {lens : List Nat}
    (hB : B.map List.length = lens) :
    (B.map f).map List.length = lens.map (· - 1) := by
  subst hB
  simp [Function.comp_def, hf]

/-- The index ranges of the `cu_seqlens` of blocks whose ranges are well formed are the
blocks' ranges. -/
theorem seqRanges_cuSeqlensOf {lens : List Nat} (hne : lens ≠ []) {a b : Int}
    (hab : ∀ l ∈ lens, a ≤ l + b) :
    seqRanges a b ((cuSeqlensOf lens).map (↑)) = some
      ((List.range lens.length).map (seqBlock a b ((cuSeqlensOf lens).map (↑)))).flatten := by
  have hn : lens.length ≠ 0 := by simpa using hne
  have hcu : ((cuSeqlensOf lens).map (Nat.cast : Nat → Int)).length = lens.length + 1 := by
    rw [List.length_map, length_cuSeqlensOf]
  have := seqRanges_eq (a := a) (b := b)
    (by omega : 2 ≤ ((cuSeqlensOf lens).map (Nat.cast : Nat → Int)).length) fun i hi => by
      have := hab _ (List.getElem_mem (by omega : i < lens.length))
      rw [getD_cuSeqlensOf_cast (by omega), getD_cuSeqlensOf_cast (by omega),
        List.sum_take_succ _ _ (by omega)]
      push_cast
      omega
  rwa [hcu, Nat.add_sub_cancel] at this

section Blocks

variable {B : List (List γ)} {lens : List Nat} (hB : B.map List.length = lens)
  (hne : lens ≠ []) (hpos : ∀ l ∈ lens, 0 < l)
include hB hne hpos

/-- `leave_one_indices` of packed blocks reads every block less its last position. -/
theorem leaveOneIndices_read : ∃ leave, leaveOneIndices ((cuSeqlensOf lens).map (↑)) =
    some leave ∧ leave.mapM (pyIndex B.flatten) = some (B.map List.dropLast).flatten := by
  have hread := mapM_pyIndex_seqBlocks hB (a := 0) (b := -1) le_rfl (by norm_num)
    fun l hl => by have := hpos l hl; omega
  refine ⟨_, seqRanges_cuSeqlensOf hne fun l hl => by have := hpos l hl; omega, ?_⟩
  rw [hread]
  congr 3
  funext x
  rw [List.dropLast_eq_take, Int.toNat_zero, List.drop_zero]
  congr 1
  omega

/-- `shift_one_indices` of packed blocks reads every block less its first position. -/
theorem shiftOneIndices_read : ∃ shift, shiftOneIndices ((cuSeqlensOf lens).map (↑)) =
    some shift ∧ shift.mapM (pyIndex B.flatten) = some (B.map List.tail).flatten := by
  have hread := mapM_pyIndex_seqBlocks hB (a := 1) (b := 0) zero_le_one le_rfl
    fun l hl => by have := hpos l hl; omega
  refine ⟨_, seqRanges_cuSeqlensOf hne fun l hl => by have := hpos l hl; omega, ?_⟩
  rw [hread]
  congr 3
  funext x
  rw [List.take_of_length_le] <;> simp

end Blocks

/-- On blocks of positive lengths packed end to end, the packed gather pairs each logits block
less its last position with its labels block less its first. -/
theorem gatherPackedShiftedLogProbs_blocks {logProbAt : α → Int → Option β}
    {B : List (List α)} {C : List (List Int)} {lens : List Nat} (hne : lens ≠ [])
    (hpos : ∀ l ∈ lens, 0 < l) (hB : B.map List.length = lens)
    (hC : C.map List.length = lens) :
    gatherPackedShiftedLogProbs logProbAt B.flatten ((cuSeqlensOf lens).map (↑)) C.flatten =
      ((B.map List.dropLast).flatten.zip (C.map List.tail).flatten).mapM
        fun q => logProbAt q.1 q.2 := by
  obtain ⟨leave, hleave, hrows⟩ := leaveOneIndices_read hB hne hpos
  obtain ⟨shift, hshift, hlabs⟩ := shiftOneIndices_read hC hne hpos
  have hL : leave.map (· + 1) = shift := by
    have := shiftOneIndices_eq ((cuSeqlensOf lens).map (↑))
    rw [hleave, hshift, Option.map_some'] at this
    exact (Option.some.inj this).symm
  refine gatherPackedShiftedLogProbs_eq hleave hrows (hL ▸ hlabs) ?_
  have h0 := (forall₂_of_mapM_eq_some hrows).length_eq
  have h1 : (lens.map (· - 1)).sum + lens.length = lens.sum := by
    simpa using sum_map_sub_one_add (g := id) (h := fun _ => 0) hpos
  rw [List.length_flatten, map_length_map_of_sub_one List.length_dropLast hB] at h0
  rw [List.length_flatten, hB, List.length_map, length_cuSeqlensOf, h0]
  omega

-- ============================================================ the refinement

/-- The logits of a right-padded batch of two rows of width three, one number per vocabulary
row. -/
def paddedLogits : Rows Int :=
  ⟨3, [[10, 11, 12], [20, 21, 22]], by decide⟩

/-- The labels of that batch: the first row has two real tokens, then a pad. -/
def paddedLabels : Rows Int :=
  ⟨3, [[1, 2, 0], [3, 4, 5]], by decide⟩

end ReaLHF.Interface
