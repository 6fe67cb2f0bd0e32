/-
The end of each generated answer: `get_eos_indices` (`impl/model/utils/data.py`, lines
75-91).

Every row of `input_ids` is one answer of a batch. The function raises when an answer starts
with EOS; otherwise it returns, for each row, the position of its first EOS, or its last
position when it has none, with a float flag that is one for the rows without EOS. It finds
the first EOS as the `argmax` of the row's 0/1 EOS mask. The WPS interfaces call it on the
answers, the columns of `input_ids` past the prompt, and add the prompt's width back.

# What is modelled

A 2-d tensor of `bs` rows is its list of columns, each a vector `Fin bs → _`, as in the model
of `get_advantages_and_returns`; `rowAt` reads a row back. Floats are rationals, and
`.long()` truncates toward zero as Python's `int` does (`pyInt`). Reading `input_ids[:, 0]`
of a tensor without columns raises, and so does the `RuntimeError` on an answer that starts
with EOS: both are `none`. Of the tokenizer only `eos_token_id` is read; the error's text,
the offending answers decoded by `batch_decode`, is not modelled.

# Result

`get_eos_indices` finds the first EOS of each row: the `argmax` of the row's 0/1 EOS mask is
the first position holding a one, which is the first EOS, and the mask sums to zero exactly on
the rows without one, where the index falls back to the last position.

`getEosIndices_eq` states the whole function in those terms, raising included: a reader of
the callers never needs the mask, the `argmax` or the float arithmetic of `.long()`.
-/
import ReaLHF.Profiler.Enumerate

namespace ReaLHF.Model

variable {bs : Nat}

/-- Row `i` of a 2-d tensor kept as its columns. -/
def rowAt {β : Type} (cols : List (Fin bs → β)) (i : Fin bs) : List β :=
  cols.map (· i)

/-- `x.argmax()` of one row: the position of the first of its largest entries. Torch raises
on an empty row, which `get_eos_indices` never reaches: it has read the first column. -/
def argmax (x : List ℚ) : Nat :=
  x.indexOf (x.max?.getD 0)

/-- `get_eos_indices(input_ids, tokenizer)` for a tokenizer whose `eos_token_id` is
`eosTokenId`: each row's EOS index and the float mask `seq_no_eos_mask`. -/
def getEosIndices (eosTokenId : Int) (inputIds : List (Fin bs → Int)) :
    Option ((Fin bs → Int) × (Fin bs → ℚ)) :=
  match inputIds.head? with
  | none => none
  | some first =>
    if ∃ i, first i = eosTokenId then none
    else
      let seqLen := inputIds.length
      let eosMask := inputIds.map fun col i => if col i = eosTokenId then (1 : ℚ) else 0
      let seqNoEosMask := fun i => if (rowAt eosMask i).sum = 0 then (1 : ℚ) else 0
      let eosIndices := fun i => argmax (rowAt eosMask i)
      some (fun i => Profiler.pyInt
          (eosIndices i * (1 - seqNoEosMask i) + seqNoEosMask i * ((seqLen : ℚ) - 1)),
        seqNoEosMask)

/-- `int()` of an integral float is that integer. -/
@[simp] theorem pyInt_intCast (n : Int) : Profiler.pyInt n = n := by
  unfold Profiler.pyInt
  split_ifs <;> simp

/-- `int()` of a whole float is that integer. -/
@[simp] theorem pyInt_natCast (n : Nat) : Profiler.pyInt n = n := by
  simpa using pyInt_intCast n

/-- A row of the EOS mask is the row's own mask. -/
theorem rowAt_eosMask (e : Int) (cols : List (Fin bs → Int)) (i : Fin bs) :
    rowAt (cols.map fun col i => if col i = e then (1 : ℚ) else 0) i =
      (rowAt cols i).map fun t => if t = e then 1 else 0 := by
  simp [rowAt, Function.comp_def]

@[simp] theorem length_rowAt {β : Type} (cols : List (Fin bs → β)) (i : Fin bs) :
    (rowAt cols i).length = cols.length := by
  simp [rowAt]

/-- The columns past `k` hold each row past `k`. -/
theorem rowAt_drop {β : Type} (cols : List (Fin bs → β)) (k : Nat) (i : Fin bs) :
    rowAt (cols.drop k) i = (rowAt cols i).drop k := by
  simp [rowAt, List.map_drop]

/-- `List.max?` over a linear order: the member that bounds every entry. -/
theorem max?_eq_some_iff_of_linearOrder {α : Type} [LinearOrder α] {a : α} {xs : List α} :
    xs.max? = some a ↔ a ∈ xs ∧ ∀ b ∈ xs, b ≤ a :=
  @List.max?_eq_some_iff α a _ _ ⟨le_antisymm⟩ le_refl max_choice (fun _ _ _ => max_le_iff) xs

section Indicator

variable (e : Int)

/-- The EOS mask of one row, summed, counts the row's EOS tokens. -/
theorem sum_indicator (l : List Int) :
    (l.map fun t => if t = e then (1 : ℚ) else 0).sum = l.count e := by
  induction l with
  | nil => simp
  | cons a l ih =>
    by_cases h : a = e <;> simp [h, ih, List.count_cons]; ring

/-- The first `1` of the EOS mask is at the first EOS. -/
theorem indexOf_one_indicator (l : List Int) :
    (l.map fun t => if t = e then (1 : ℚ) else 0).indexOf 1 = l.indexOf e := by
  induction l with
  | nil => rfl
  | cons a l ih => by_cases h : a = e <;> simp [List.indexOf_cons, h, ih]

/-- `argmax` of a row's EOS mask: its first EOS, or the first position when it has none. -/
theorem argmax_indicator {l : List Int} (hl : l ≠ []) :
    argmax (l.map fun t => if t = e then (1 : ℚ) else 0) = if e ∈ l then l.indexOf e else 0 := by
  split_ifs with he
  · have : (l.map fun t => if t = e then (1 : ℚ) else 0).max? = some 1 := by
      refine max?_eq_some_iff_of_linearOrder.2 ⟨List.mem_map.2 ⟨e, he, if_pos rfl⟩,
        List.forall_mem_map.2 fun t _ => ?_⟩
      split_ifs <;> norm_num
    rw [argmax, this, Option.getD_some, indexOf_one_indicator]
  · obtain ⟨a, l, rfl⟩ := List.exists_cons_of_ne_nil hl
    have hne : ∀ t ∈ a :: l, t ≠ e := fun t ht h => he (h ▸ ht)
    have : ((a :: l).map fun t => if t = e then (1 : ℚ) else 0).max? = some 0 := by
      refine max?_eq_some_iff_of_linearOrder.2 ⟨?_, ?_⟩
      · simp [hne a (List.mem_cons_self _ _)]
      · exact List.forall_mem_map.2 fun t ht => (if_neg (hne t ht)).le
    rw [argmax, this, Option.getD_some, List.map_cons, if_neg (hne a (List.mem_cons_self _ _)),
      List.indexOf_cons_self]

end Indicator

/-- `get_eos_indices` raises exactly when there is no column or an answer starts with EOS;
otherwise each row's index is its first EOS, or its last position when it has none, and
`seq_no_eos_mask` flags the rows without EOS. -/
theorem getEosIndices_eq (eosTokenId : Int) (inputIds : List (Fin bs → Int)) :
    getEosIndices eosTokenId inputIds =
      if 0 < inputIds.length ∧ ∀ i, (rowAt inputIds i).head? ≠ some eosTokenId then
        some (fun i => if eosTokenId ∈ rowAt inputIds i then
            ((rowAt inputIds i).indexOf eosTokenId : Int) else inputIds.length - 1,
          fun i => if eosTokenId ∈ rowAt inputIds i then 0 else 1)
      else none := by
  cases hfirst : inputIds.head? with
  | none => simp [getEosIndices, hfirst, List.head?_eq_none_iff.1 hfirst]
  | some first =>
    have hpos : 0 < inputIds.length := List.length_pos.2 (by rintro rfl; cases hfirst)
    have hhead : ∀ i, (rowAt inputIds i).head? = some (first i) := by
      simp [rowAt, List.head?_map, hfirst]
    simp only [getEosIndices, hfirst, hpos, true_and, hhead, ne_eq, Option.some.injEq,
      ← not_exists]
    split_ifs with h
    · rfl
    refine congrArg some (Prod.ext (funext fun i => ?_) (funext fun i => ?_)) <;>
    have hrow : rowAt inputIds i ≠ [] := List.ne_nil_of_length_pos (by simpa using hpos) <;>
    simp only [rowAt_eosMask, sum_indicator, argmax_indicator _ hrow, Nat.cast_eq_zero,
      List.count_eq_zero] <;>
    by_cases he : eosTokenId ∈ rowAt inputIds i
    · simp [he]
    · simpa [he] using pyInt_intCast (inputIds.length - 1)
    · simp [he]
    · simp [he]

end ReaLHF.Model
