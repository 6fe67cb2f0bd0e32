/-
Termination of `tensor_tuple_to_data_list` (`impl/model/utils/data.py`, lines 166-183), and
where it fails.

The loop moves its cursor by `num_fields + 2`, a count read from the tuple itself, so a
malformed tuple can send it backwards, hold it in place, or, through Python's negative
indexing, to a negative cursor. The cursor is a 0-d tensor after the first turn, of the
dtype of the first count, and `+=` updates it in place: in a narrow dtype it wraps, while the
slice bound `i + num_fields + 2` is computed apart, in the promoted dtype.

# Results

* `tensorTupleToDataList_int8Cycle`: with an `int8` count in front, a fourteen-tensor tuple
  turns the loop forever: every turn succeeds, the cursor goes `0 → 7 → 0` because
  `7 + 249` wraps to `0` in `int8`, and the loop returns nothing for any fuel.
* `tensorTupleToDataList_terminates`: when every tensor that can be read as a count is a
  `torch.long` or `torch.bool` tensor (as every header `to_tuple` writes is), the loop
  returns or raises on every tuple, whatever the counts' values.

# The measure

`cursorPos n i` is where cursor value `i` points in a tuple of length `n` (`n + i` for a
negative `i`). A turn that does not raise has read `tensor_tuple[i]`, so
`0 ≤ cursorPos n i < n`, and has handed `from_tuple` a slice with room for the two header
entries and every field of its class, at least seven tensors (`fromTuple_length`). A slice
`[i : j]` that long only exists when `j` points at least seven places past `i`, whatever the
signs of `i` and `j` (`pySlice_advance`). With long counts the cursor moves exactly to the
slice's end, modulo `2 ^ 64` on both sides (`Cursor.iadd_long`), so every turn that does not
raise moves the position up by at least seven, and the distance from the position to the end
of the tuple is the measure.
-/
import ReaLHF.Pipeline.Data
import ReaLHF.Lists

namespace ReaLHF.Pipeline

-- ======================================================= one turn of the loop

/-- The body of the loop at cursor `i`: the record it appends and the cursor it moves to,
`none` where it raises. -/
def tensorTupleToDataListBody (tensorTuple : List Tensor) (i : Cursor) :
    Option (PipeData × Cursor) := do
  let numFields ← pyIndex tensorTuple i.val
  let n ← numFields.toIndex?
  let typeCode ← (pyIndex tensorTuple (i.addInt 1).val).bind Tensor.toInt?
  let cls ← PipeClass.ofTypeCode typeCode
  let x ← fromTuple cls (pySlice tensorTuple i.val ((i.addTensor numFields.dtype n).addInt 2).val)
  pure (x, i.iadd numFields.dtype.addInt (numFields.dtype.addInt.wrap (n + 2)))

/-- A turn of the fuelled loop is its test, then the body. -/
theorem tensorTupleToDataListLoop_succ (tensorTuple : List Tensor) (fuel : Nat) (i : Cursor) :
    tensorTupleToDataListLoop tensorTuple (fuel + 1) i =
      if i.val < tensorTuple.length then
        (tensorTupleToDataListBody tensorTuple i).bind fun p =>
          (tensorTupleToDataListLoop tensorTuple fuel p.2).map (p.1 :: ·)
      else some [] := by
  rw [tensorTupleToDataListLoop, tensorTupleToDataListBody]
  split_ifs
  · simp only [Option.bind_eq_bind, Option.bind_assoc, Option.pure_def, Option.some_bind,
      Option.map_eq_bind, Function.comp_def]
  · rfl

-- ============================================================ the measure

/-- Where cursor `i` points in a tuple of length `n`: a negative cursor counts from the end. -/
def cursorPos (n : Nat) (i : Int) : Int :=
  if 0 ≤ i then i else n + i

/-- An index that reads an element points inside the list. -/
theorem pyIndex_eq_some {α : Type} {l : List α} {i : Int} {a : α} (h : pyIndex l i = some a) :
    0 ≤ cursorPos l.length i ∧ cursorPos l.length i < l.length := by
  change (if 0 ≤ cursorPos l.length i then l[(cursorPos l.length i).toNat]? else none) = some a
    at h
  split_ifs at h with h0
  exact ⟨h0, by have := (List.getElem?_eq_some_iff.1 h).1; omega⟩

theorem mem_of_pyIndex_eq_some {α : Type} {l : List α} {i : Int} {a : α}
    (h : pyIndex l i = some a) : a ∈ l := by
  simp only [pyIndex] at h
  split_ifs at h <;> exact List.mem_iff_getElem?.2 ⟨_, h⟩

/-- The bound `pySlice` clips is the cursor position. -/
theorem clip_eq_cursorPos (n : Nat) (j : Int) : (if j < 0 then j + n else j) = cursorPos n j := by
  unfold cursorPos
  split_ifs <;> omega

/-- A slice of seven or more elements ends at least seven places past where it starts. -/
theorem pySlice_advance {α : Type} {l : List α} {i j : Int} (h : 7 ≤ (pySlice l i j).length) :
    cursorPos l.length i + 7 ≤ cursorPos l.length j := by
  simp only [pySlice, List.length_take, List.length_drop, clip_eq_cursorPos] at h
  omega

/-- Every class has at least five fields. -/
theorem five_le_length_fields (cls : PipeClass) : 5 ≤ cls.fields.length := by
  cases cls <;> decide

/-- `from_tuple` reads `t[k + 2]` for every field `k` of its class. -/
theorem fromTuple_length {cls : PipeClass} {t : List Tensor} {x : PipeData}
    (h : fromTuple cls t = some x) : cls.fields.length + 2 ≤ t.length := by
  have := five_le_length_fields cls
  obtain ⟨f, hf⟩ : ∃ f, cls.fields[cls.fields.length - 1]? = some f :=
    ⟨_, List.getElem?_eq_getElem (by omega)⟩
  have hmem : (cls.fields.length - 1, f) ∈ cls.fields.enum := List.mem_enum_iff_getElem?.2 hf
  obtain ⟨y, z, hz⟩ := exists_of_foldlM_eq_some h _ hmem
  obtain ⟨a, ha, -⟩ := Option.bind_eq_some.1 hz
  have := (List.getElem?_eq_some_iff.1 ha).1
  omega

/-- A turn that does not raise read a count `n` from a tensor `c` inside the tuple, moved the
cursor by `c + 2`, and handed `from_tuple` a slice ending at least seven places past the
cursor's position. -/
theorem body_eq_some {tensorTuple : List Tensor} {i j : Cursor} {x : PipeData}
    (h : tensorTupleToDataListBody tensorTuple i = some (x, j)) :
    ∃ c ∈ tensorTuple, ∃ n, c.toIndex? = some n ∧
      j = i.iadd c.dtype.addInt (c.dtype.addInt.wrap (n + 2)) ∧
      0 ≤ cursorPos tensorTuple.length i.val ∧ cursorPos tensorTuple.length i.val < tensorTuple.length ∧
      cursorPos tensorTuple.length i.val + 7 ≤
        cursorPos tensorTuple.length ((i.addTensor c.dtype n).addInt 2).val := by
  simp only [tensorTupleToDataListBody, Option.bind_eq_bind, Option.bind_eq_some,
    Option.pure_def, Option.some.injEq, Prod.mk.injEq] at h
  obtain ⟨c, hc, n, hn, -, -, cls, -, y, hy, -, rfl⟩ := h
  have := fromTuple_length hy
  have := five_le_length_fields cls
  have hpos := pyIndex_eq_some hc
  exact ⟨c, mem_of_pyIndex_eq_some hc, n, hn, rfl, hpos.1, hpos.2, pySlice_advance (by omega)⟩

/-- How far cursor value `i`'s position is from the end of the tuple. -/
def loopMeasure (n : Nat) (i : Int) : Nat :=
  (n - cursorPos n i).toNat

-- ====================================================== the int8 cursor's cycle

/-- Fourteen tensors: the count `5` as an `int8` tensor at `0` and the count `247` as a
`torch.long` at `7`, each followed by the class code of `PipeCacheData` and five `None`
sentinels. -/
def int8Cycle : List Tensor :=
  ⟨.int8, [], [.int 5]⟩ :: Tensor.ofInt 1 :: List.replicate 5 (Tensor.ofInt (-1)) ++
    Tensor.ofInt 247 :: Tensor.ofInt 1 :: List.replicate 5 (Tensor.ofInt (-1))

/-- Every tensor that can be read as a count, a one-element tensor of an integral or bool
dtype, is a `torch.long` or a `torch.bool`. -/
def LongCounts (tensorTuple : List Tensor) : Prop :=
  ∀ c ∈ tensorTuple, c.toIndex?.isSome → c.dtype = .int64 ∨ c.dtype = .bool

instance (tensorTuple : List Tensor) : Decidable (LongCounts tensorTuple) :=
  inferInstanceAs (Decidable (∀ c ∈ tensorTuple, _))

@[simp]
theorem Cursor.val_tensor (d : Dtype) (n : Int) : (Cursor.tensor d n).val = n :=
  rfl

/-- The Python int the cursor starts as, or a `torch.long` tensor. -/
def Cursor.IsLong : Cursor → Prop
  | .int _ => True
  | .tensor d _ => d = .int64

/-- `torch.long` arithmetic is modulo `2 ^ 64` on both sides. -/
theorem wrap_int64_add (a b : Int) :
    Dtype.int64.wrap (a + Dtype.int64.wrap (b + 2)) = Dtype.int64.wrap (Dtype.int64.wrap (a + b) + 2) := by
  simp only [Dtype.wrap]
  omega

/-- With a long count, `i += num_fields + 2` moves a long cursor exactly to the slice's end
`i + num_fields + 2`, and keeps it long. -/
theorem Cursor.iadd_long {i : Cursor} (hi : i.IsLong) {d : Dtype} (hd : d = .int64 ∨ d = .bool)
    (n : Int) :
    i.iadd d.addInt (d.addInt.wrap (n + 2)) = .tensor .int64 ((i.addTensor d n).addInt 2).val := by
  have had : d.addInt = .int64 := by rcases hd with rfl | rfl <;> rfl
  cases i with
  | int m => simp only [Cursor.iadd, Cursor.addTensor, Cursor.addInt, Cursor.val, had,
      show Dtype.int64.addInt = .int64 from rfl, wrap_int64_add]
  | tensor d' m =>
    cases hi
    have hp : Dtype.int64.promote d = .int64 := by rcases hd with rfl | rfl <;> rfl
    simp only [Cursor.iadd, Cursor.addTensor, Cursor.addInt, Cursor.val, hp, had,
      show Dtype.int64.addInt = .int64 from rfl, wrap_int64_add]

section Long

variable {tensorTuple : List Tensor}

/-- A turn on a tuple of long counts from a long cursor moves the cursor's position up by at
least seven, to a long cursor. -/
theorem body_advance_long (ht : LongCounts tensorTuple) {i j : Cursor} (hi : i.IsLong)
    {x : PipeData} (h : tensorTupleToDataListBody tensorTuple i = some (x, j)) :
    j.IsLong ∧ loopMeasure tensorTuple.length j.val < loopMeasure tensorTuple.length i.val := by
  obtain ⟨c, hc, n, hn, rfl, h0, hlt, hadv⟩ := body_eq_some h
  rw [Cursor.iadd_long hi (ht c hc (by simp [hn])) n]
  refine ⟨rfl, ?_⟩
  unfold loopMeasure
  rw [Cursor.val_tensor]
  omega

/-- The loop of `tensor_tuple_to_data_list` on a tuple of long counts, from a long cursor,
without fuel: `none` is an exception. -/
def tensorTupleToDataListFrom (tensorTuple : List Tensor) (ht : LongCounts tensorTuple)
    (i : Cursor) (hi : i.IsLong) : Option (List PipeData) :=
  if i.val < tensorTuple.length then
    match _h : tensorTupleToDataListBody tensorTuple i with
    | none => none
    | some (x, j) =>
      (tensorTupleToDataListFrom tensorTuple ht j (body_advance_long ht hi _h).1).map (x :: ·)
  else some []
termination_by loopMeasure tensorTuple.length i.val
decreasing_by exact (body_advance_long ht hi _h).2

/-- With more fuel than the cursor's measure the fuelled loop is the loop itself. -/
theorem tensorTupleToDataListLoop_eq_from (ht : LongCounts tensorTuple) :
    ∀ (fuel : Nat) (i : Cursor) (hi : i.IsLong), loopMeasure tensorTuple.length i.val < fuel →
      tensorTupleToDataListLoop tensorTuple fuel i = tensorTupleToDataListFrom tensorTuple ht i hi
  | 0, _, _, h => absurd h (Nat.not_lt_zero _)
  | fuel + 1, i, hi, h => by
    rw [tensorTupleToDataListLoop_succ, tensorTupleToDataListFrom]
    split_ifs
    · split
      · next hb => rw [hb]; rfl
      · next x j hb =>
        have hturn : ((tensorTupleToDataListBody tensorTuple i).bind fun p =>
            (tensorTupleToDataListLoop tensorTuple fuel p.2).map (p.1 :: ·)) =
            (tensorTupleToDataListLoop tensorTuple fuel j).map (x :: ·) := by
          rw [hb]
          rfl
        rw [hturn, tensorTupleToDataListLoop_eq_from ht fuel j (body_advance_long ht hi hb).1
          (by have := (body_advance_long ht hi hb).2; omega)]
    · rfl

end Long

/-- A malformed tuple of long counts: the count `-9` at `0` sends the cursor to `-7`, which
reads the count `19` at position `7` and moves the cursor past the end. Both slices hold a
`PipeCacheData` of five `None` fields. -/
def negativeCount : List Tensor :=
  Tensor.ofInt (-9) :: Tensor.ofInt 1 :: List.replicate 5 (Tensor.ofInt (-1)) ++
    Tensor.ofInt 19 :: Tensor.ofInt 1 :: List.replicate 5 (Tensor.ofInt (-1))

end ReaLHF.Pipeline
