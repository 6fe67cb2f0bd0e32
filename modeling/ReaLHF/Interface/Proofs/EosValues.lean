/-
The values at the EOS token: the loop that opens `PPOActorInterface.train_step` and
`PPOCriticInterface.train_step` (`reallm/impl/model/interface/ppo_interface.py`, lines 369-373
and 725-729).

The critic's values of a packed batch are bootstrapped by the advantage estimate after the last
token of every sequence. A sequence that ended with EOS has nothing after it, so both steps set
its value at its last token, `cu_seqlens[i + 1] - 1`, to zero; a sequence cut at the length
limit (`seq_no_eos_mask[i]`) keeps it.

# What is modelled

The loop on one tensor: both steps run it on `values` and on `denormalized_values`, which are
one tensor when `value_norm` is off, so zeroing twice changes nothing. Values are rationals.
Python's item assignment counts a negative index from the end, and an index outside the tensor
raises: `none`, as does a `cu_seqlens` too short for the mask.

# Result

`zeroEosValues_spec`: on a packed batch of sequences of positive lengths, with one mask entry
per sequence and one value per token, the loop succeeds; it sets to zero the value at the last
token of every sequence that ended with EOS, and keeps every other value, those of the
sequences cut at the length limit included.

# Shape of the argument

The last token of sequence `i` is `cu_seqlens[i + 1] - 1`, a prefix sum of positive lengths
less one, so it lies inside the values (`prefix_sum_bounds`) and no index wraps around or
raises. One turn sets that entry (`zeroEosValues_step`); the loop sets every entry of
`eosEnds`, read through `zeroAt`, which sets a list of positions at once (`zeroAt_set`,
`foldlM_zeroEosValues`).
-/
import ReaLHF.Torch
import ReaLHF.Interface.Proofs.PackAlign

namespace ReaLHF.Interface

/-- Python's `x[i] = v` on a 1-d tensor: a negative index counts from the end; `none` is the
`IndexError`. -/
def pySetIndex {α : Type} (l : List α) (i : Int) (v : α) : Option (List α) :=
  let j := if 0 ≤ i then i else l.length + i
  if 0 ≤ j ∧ j < l.length then some (l.set j.toNat v) else none

/-- One turn of the loop, on sequence `p.1` whose entry of `seq_no_eos_mask` is `p.2`:
`if not seq_no_eos_mask[i]: values[cu_seqlens[i + 1] - 1] = 0.0`. -/
def zeroEosValue (cuSeqlens : List Int) (values : List ℚ) (p : Nat × Bool) :
    Option (List ℚ) :=
  if p.2 then pure values
  else do
    let e ← pyIndex cuSeqlens (p.1 + 1)
    pySetIndex values (e - 1) 0

/-- The loop `for i in range(seq_no_eos_mask.shape[0])`. -/
def zeroEosValues (seqNoEosMask : List Bool) (cuSeqlens : List Int) (values : List ℚ) :
    Option (List ℚ) :=
  seqNoEosMask.enum.foldlM (zeroEosValue cuSeqlens) values

/-- The entries at the positions `S` set to zero, the others kept. -/
def zeroAt (S : List Nat) (values : List ℚ) : List ℚ :=
  values.mapIdx fun j v => if j ∈ S then 0 else v

/-- The last token of every sequence of `ps` that ended with EOS, for sequences of lengths
`lens`: `ps` pairs each sequence with its entry of `seq_no_eos_mask`. -/
def eosEnds (lens : List Nat) (ps : List (Nat × Bool)) : List Nat :=
  ps.filterMap fun p => if p.2 then none else some ((lens.take (p.1 + 1)).sum - 1)

-- ============================================================ zeroing entries

theorem eosEnds_cons (lens : List Nat) (p : Nat × Bool) (ps : List (Nat × Bool)) :
    eosEnds lens (p :: ps) =
      if p.2 then eosEnds lens ps else ((lens.take (p.1 + 1)).sum - 1) :: eosEnds lens ps := by
  cases h : p.2 <;> simp [eosEnds, h]

@[simp] theorem length_zeroAt (S : List Nat) (values : List ℚ) :
    (zeroAt S values).length = values.length :=
  List.length_mapIdx

theorem getElem?_zeroAt (S : List Nat) (values : List ℚ) (j : Nat) :
    (zeroAt S values)[j]? = values[j]?.map fun v => if j ∈ S then 0 else v :=
  List.getElem?_mapIdx

theorem zeroAt_nil (values : List ℚ) : zeroAt [] values = values :=
  List.ext_getElem? fun j => by simp [getElem?_zeroAt]

/-- Setting one entry to zero and then the entries `S` sets the entries `e :: S`. -/
theorem zeroAt_set (e : Nat) (S : List Nat) (values : List ℚ) :
    zeroAt S (values.set e 0) = zeroAt (e :: S) values := by
  refine List.ext_getElem? fun j => ?_
  rw [getElem?_zeroAt, getElem?_zeroAt, List.getElem?_set]
  by_cases hj : e = j
  · subst hj
    rcases Nat.lt_or_ge e values.length with h | h
    · simp [h, List.getElem?_eq_getElem h]
    · simp [h, List.getElem?_eq_none h]
  · simp [hj, Ne.symm hj]

-- ============================================================ the loop

/-- Python's item assignment inside the tensor sets the entry. -/
theorem pySetIndex_of_lt {α : Type} {l : List α} {i : Int} (v : α) (h0 : 0 ≤ i)
    (hi : i < l.length) : pySetIndex l i v = some (l.set i.toNat v) := by
  simp only [pySetIndex, if_pos h0]
  exact if_pos ⟨h0, hi⟩

section Loop

variable {seqNoEosMask : List Bool} {lens : List Nat}

/-- One turn of the loop: sequence `i`, if it ended with EOS, has its last value set to zero. -/
theorem zeroEosValues_step (hpos : ∀ l ∈ lens, 0 < l) {values : List ℚ}
    (hvalues : values.length = lens.sum) {i : Nat} (hi : i < lens.length) (noEos : Bool) :
    zeroEosValue ((cuSeqlensOf lens).map (Nat.cast : Nat → Int)) values (i, noEos) =
      some (if noEos then values else values.set ((lens.take (i + 1)).sum - 1) 0) := by
  cases noEos
  · obtain ⟨h1, h2⟩ := prefix_sum_bounds hpos hi
    have hread : pyIndex ((cuSeqlensOf lens).map (Nat.cast : Nat → Int)) (i + 1) =
        some ((lens.take (i + 1)).sum : Int) := by
      simp only [pyIndex, show (0 : Int) ≤ i + 1 by omega, if_true,
        show ((i : Int) + 1).toNat = i + 1 by omega, List.getElem?_map,
        getElem?_cuSeqlensOf (show i + 1 ≤ lens.length by omega), Option.map_some']
    simp only [zeroEosValue, hread, Option.bind_eq_bind, Option.some_bind, Bool.false_eq_true,
      if_false]
    rw [pySetIndex_of_lt 0 (by omega) (by omega)]
    congr 2
    omega
  · rfl

/-- The loop over the mask's entries `ps`, from any values of the batch's length, sets to zero
the last value of every sequence of `ps` that ended with EOS. -/
theorem foldlM_zeroEosValues (hpos : ∀ l ∈ lens, 0 < l) :
    ∀ (ps : List (Nat × Bool)) {values : List ℚ}, (∀ p ∈ ps, p.1 < lens.length) →
      values.length = lens.sum →
      ps.foldlM (zeroEosValue ((cuSeqlensOf lens).map (Nat.cast : Nat → Int))) values =
        some (zeroAt (eosEnds lens ps) values)
  | [], values, _, _ => by rw [List.foldlM_nil, eosEnds, List.filterMap_nil, zeroAt_nil]; rfl
  | (i, noEos) :: ps, values, hps, hvalues => by
    have hrest : ∀ p ∈ ps, p.1 < lens.length := fun p hp => hps p (List.mem_cons_of_mem _ hp)
    rw [List.foldlM_cons, zeroEosValues_step hpos hvalues (hps _ (List.mem_cons_self _ _)),
      Option.bind_eq_bind, Option.some_bind]
    cases noEos
    · simp only [Bool.false_eq_true, if_false, eosEnds_cons]
      rw [foldlM_zeroEosValues hpos ps hrest (by simpa using hvalues), zeroAt_set]
    · simpa only [if_true, eosEnds_cons] using
        foldlM_zeroEosValues hpos ps hrest hvalues

/-- On a packed batch of sequences of positive lengths, with one mask entry per sequence and one
value per token, the loop succeeds: it sets to zero the value at the last token of every
sequence that ended with EOS and keeps every other value. -/
theorem zeroEosValues_spec (hlen : seqNoEosMask.length = lens.length) (hpos : ∀ l ∈ lens, 0 < l)
    {values : List ℚ} (hvalues : values.length = lens.sum) :
    ∃ out, zeroEosValues seqNoEosMask ((cuSeqlensOf lens).map (↑)) values = some out ∧
      out.length = values.length ∧
      (∀ i, seqNoEosMask[i]? = some false → out[(lens.take (i + 1)).sum - 1]? = some 0) ∧
      ∀ j, (∀ i, seqNoEosMask[i]? = some false → j + 1 ≠ (lens.take (i + 1)).sum) →
        out[j]? = values[j]? := by
  have hlt : ∀ {i} {b : Bool}, seqNoEosMask[i]? = some b → i < lens.length := fun h =>
    hlen ▸ (List.getElem?_eq_some_iff.1 h).1
  refine ⟨_, foldlM_zeroEosValues hpos _ (fun p hp => hlt (List.mem_enum_iff_getElem?.1 hp))
    hvalues, length_zeroAt _ _, fun i hi => ?_, fun j hj => ?_⟩
  · obtain ⟨h1, h2⟩ := prefix_sum_bounds hpos (hlt hi)
    rw [getElem?_zeroAt, List.getElem?_eq_getElem (by omega), Option.map_some', if_pos]
    exact List.mem_filterMap.2 ⟨(i, false), List.mem_enum_iff_getElem?.2 hi, rfl⟩
  · have hkept : j ∉ eosEnds lens seqNoEosMask.enum := fun hmem => by
      obtain ⟨⟨i, b⟩, hp, he⟩ := List.mem_filterMap.1 hmem
      have hi : seqNoEosMask[i]? = some b := List.mem_enum_iff_getElem?.1 hp
      cases b
      · have := (prefix_sum_bounds hpos (hlt hi)).1
        exact hj i hi (by simp only [Bool.false_eq_true, if_false, Option.some.injEq] at he; omega)
      · simp at he
    rw [getElem?_zeroAt]
    simp [hkept]

end Loop

/-- Two sequences of lengths two and three; the first ended with EOS. -/
theorem zeroEosValues_spec_twoSeqs :
    [false, true].length = [2, 3].length ∧ (∀ l ∈ [2, 3], 0 < l) ∧
      ([1, 2, 3, 4, 5] : List ℚ).length = [2, 3].sum ∧
      ∃ out, zeroEosValues [false, true] ((cuSeqlensOf [2, 3]).map (↑)) [1, 2, 3, 4, 5] =
          some out ∧
        out.length = ([1, 2, 3, 4, 5] : List ℚ).length ∧
        (∀ i, [false, true][i]? = some false → out[([2, 3].take (i + 1)).sum - 1]? = some 0) ∧
        ∀ j, (∀ i, [false, true][i]? = some false → j + 1 ≠ ([2, 3].take (i + 1)).sum) →
          out[j]? = ([1, 2, 3, 4, 5] : List ℚ)[j]? :=
  ⟨rfl, by decide, rfl, zeroEosValues_spec rfl (by decide) rfl⟩

end ReaLHF.Interface
