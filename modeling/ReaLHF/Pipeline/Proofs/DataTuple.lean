/-
The round trip of the tensor-tuple codec: what `tensor_tuple_to_data_list` rebuilds from
`data_list_to_tensor_tuple`'s tuple.

# Result

`tensorTupleToDataList_roundTrip`: every list of records whose fields are `None` or of their
annotated type comes back as `FieldValue.decoded` makes each field: `None`, `int`s and
`bool`s as they were, and every tensor as it was but for two kinds. A bool tensor comes back
as its `torch.long` conversion, and a one-element tensor whose `int()` is negative comes back
as `None`, since `-1` is the encoding of `None`. The comment above `to_tensor` says the data
is to be converted back to its original type (`boolMaskAndNegativeId_roundTrip`).

# Shape of the argument

The decoder's loop is exact on an encoded list: every header is a `torch.long`, so the
cursor is one too after the first turn and, on a tuple shorter than `2 ^ 63`, never wraps
(`Cursor.long_turn`); with enough fuel the loop returns the records one by one, each what
`from_tuple` makes of its own block (`tensorTupleToDataListLoop_flatten`). The question is
then one record's round trip, field by field (`fromTensor_toTensor`).
-/
import ReaLHF.Lists
import ReaLHF.Pipeline.Data

namespace ReaLHF.Pipeline

-- ============================================================== the domain

namespace FieldValue

/-- `None`, or a value of the annotated type: an `int` non-negative, as `to_tensor`
asserts, and in the range of `torch.long`. -/
def Fits : FieldValue → FieldType → Prop
  | .none, _ => True
  | .int n, .int => 0 ≤ n ∧ n < 9223372036854775808
  | .bool _, .bool => True
  | .tensor _, .tensor => True
  | _, _ => False

instance (v : FieldValue) (type : FieldType) : Decidable (v.Fits type) := by
  cases v <;> cases type <;> unfold Fits <;> infer_instance

/-- What the codec gives back for a value: a bool tensor as its `torch.long` conversion, a
one-element tensor whose `int()` is negative as `None`, anything else unchanged. -/
def decoded : FieldValue → FieldValue
  | .tensor x =>
    if x.toInt?.any (· < 0) then .none else .tensor (if x.dtype = .bool then x.toLong else x)
  | v => v

end FieldValue

/-- Every field `None` or of its annotated type. -/
def PipeData.WellTyped (x : PipeData) : Prop :=
  List.Forall₂ (fun v f => FieldValue.Fits v f.type) x.values x.cls.fields

instance (x : PipeData) : Decidable x.WellTyped :=
  inferInstanceAs (Decidable (List.Forall₂ _ _ _))

/-- One record through the codec: its tuple, read back by `from_tuple` of its class. -/
def PipeData.transfer (x : PipeData) : Option PipeData :=
  x.toTuple.bind (fromTuple x.cls)

/-- A record with every field as the codec gives it back. -/
def PipeData.decoded (x : PipeData) : PipeData :=
  ⟨x.cls, x.values.map FieldValue.decoded, by rw [List.length_map, x.values_length]⟩

-- ================================================================ one field

@[simp]
theorem toInt?_ofInt (n : Int) : (Tensor.ofInt n).toInt? = some n :=
  rfl

@[simp]
theorem toIndex?_ofInt (n : Int) : (Tensor.ofInt n).toIndex? = some n :=
  rfl

/-- A field of the domain comes back decoded. -/
theorem fromTensor_toTensor {v : FieldValue} {type : FieldType} (hfit : v.Fits type) :
    ∃ t, toTensor v = some t ∧ fromTensor t type = some v.decoded := by
  cases v with
  | none => exact ⟨_, rfl, by simp [fromTensor, FieldValue.decoded]⟩
  | int n =>
    cases type <;> simp only [FieldValue.Fits] at hfit
    exact ⟨_, if_pos hfit, by simp [fromTensor, FieldValue.decoded, hfit.1]⟩
  | bool b =>
    cases type <;> simp only [FieldValue.Fits] at hfit
    cases b <;> exact ⟨_, rfl, rfl⟩
  | tensor x =>
    cases type <;> simp only [FieldValue.Fits] at hfit
    have hlong : x.toLong.toInt? = x.toInt? := rfl
    refine ⟨_, rfl, ?_⟩
    by_cases hb : x.dtype = .bool <;> simp only [fromTensor, FieldValue.decoded, hb, hlong, ne_eq,
      not_true_eq_false, not_false_eq_true, if_true, if_false] <;> split_ifs <;> rfl

-- =============================================================== one record

/-- Setting, in order, every field from index `k` on to the value it has in `x` leaves the
fields before `k` as they were and the rest as in `x`. -/
theorem foldlM_setattr (t : List Tensor) (x : PipeData) :
    ∀ (fs : List Field) (k : Nat) (y : PipeData), y.cls = x.cls →
      k + fs.length = x.values.length →
      (∀ p ∈ fs.enumFrom k, t[p.1 + 2]?.bind (fromTensor · p.2.type) = x.values[p.1]?) →
      ∃ z, (fs.enumFrom k).foldlM (fun y p => do
          let v ← fromTensor (← t[p.1 + 2]?) p.2.type
          pure (y.setattr p.1 v)) y = some z ∧
        z.cls = x.cls ∧ z.values = y.values.take k ++ x.values.drop k
  | [], k, y, hcls, hk, _ => by
    simp only [List.length_nil, Nat.add_zero] at hk
    have hy : y.values.length = k := by rw [y.values_length, hcls, ← x.values_length, hk]
    refine ⟨y, rfl, hcls, ?_⟩
    rw [List.drop_of_length_le (by omega), List.take_of_length_le (by omega), List.append_nil]
  | f :: fs, k, y, hcls, hk, hg => by
    have hlt : k < x.values.length := by simp at hk; omega
    have hstep := hg (k, f) (by simp [List.enumFrom_cons])
    rw [List.getElem?_eq_getElem hlt] at hstep
    obtain ⟨a, ha, hv⟩ := Option.bind_eq_some.1 hstep
    have hy : k < y.values.length := by rw [y.values_length, hcls, ← x.values_length]; exact hlt
    obtain ⟨z, hz, hzcls, hzv⟩ := foldlM_setattr t x fs (k + 1) (y.setattr k x.values[k]) hcls
      (by simp at hk; omega) fun p hp => hg p (by simp [List.enumFrom_cons, hp])
    refine ⟨z, ?_, hzcls, ?_⟩
    · simp only [List.enumFrom_cons, List.foldlM_cons, ha, hv, Option.bind_eq_bind,
        Option.some_bind, Option.pure_def]
      exact hz
    · rw [hzv, List.drop_eq_getElem_cons hlt]
      show List.take (k + 1) (y.values.set k _) ++ _ = _
      rw [List.set_eq_take_append_cons_drop, if_pos hy, List.take_append_eq_append_take]
      simp [List.take_take, List.length_take, Nat.min_eq_left hy.le]

@[simp]
theorem ofTypeCode_encode (cls : PipeClass) : PipeClass.ofTypeCode cls.encode = some cls := by
  cases cls <;> rfl

/-- A record's tuple is its field count, its class code, then its encoded fields. -/
theorem toTuple_eq_some {x : PipeData} {b : List Tensor} (h : x.toTuple = some b) :
    ∃ ts, x.values.mapM toTensor = some ts ∧
      b = Tensor.ofInt ts.length :: Tensor.ofInt x.cls.encode :: ts := by
  simp only [PipeData.toTuple, Option.bind_eq_bind, Option.pure_def, Option.bind_eq_some,
    Option.some.injEq] at h
  obtain ⟨ts, hts, rfl⟩ := h
  exact ⟨ts, hts, rfl⟩

/-- A record of the domain comes back decoded. -/
theorem transfer_eq_decoded {x : PipeData} (hx : x.WellTyped) : x.transfer = some x.decoded := by
  have hfield : ∀ {i : Nat} {v : FieldValue}, x.values[i]? = some v → ∃ f : Field,
      x.cls.fields[i]? = some f ∧ ∃ t, toTensor v = some t ∧ fromTensor t f.type = some v.decoded := by
    intro i v hv
    have hi : i < x.cls.fields.length := x.values_length ▸ (List.getElem?_eq_some_iff.1 hv).1
    exact ⟨_, List.getElem?_eq_getElem hi,
      fromTensor_toTensor (Forall₂.of_getElem? hx hv (List.getElem?_eq_getElem hi))⟩
  obtain ⟨ts, hts⟩ := exists_mapM_eq_some (f := toTensor) fun v hv => by
    obtain ⟨i, hv⟩ := List.mem_iff_getElem?.1 hv
    obtain ⟨_, _, t, ht, _⟩ := hfield hv
    exact ⟨t, ht⟩
  obtain ⟨z, hz, hzcls, hzv⟩ := foldlM_setattr (Tensor.ofInt ts.length :: Tensor.ofInt x.cls.encode :: ts)
    x.decoded x.cls.fields 0 (PipeData.init x.cls) rfl
    (by rw [x.decoded.values_length, Nat.zero_add]; rfl) fun p hp => by
      obtain ⟨hi, hp⟩ := List.getElem?_eq_some_iff.1 (List.mem_enum_iff_getElem?.1 hp)
      have hv := List.getElem?_eq_getElem (show p.1 < x.values.length from x.values_length ▸ hi)
      obtain ⟨f, hf, t, ht, hback⟩ := hfield hv
      rw [List.getElem?_eq_getElem hi, Option.some.injEq] at hf
      simp only [List.getElem?_cons_succ, getElem?_of_mapM_eq_some hts, hv, Option.some_bind, ht,
        ← hp, hf, hback, PipeData.decoded, List.getElem?_map, Option.map_some']
  have hzx : z = x.decoded := PipeData.ext hzcls (by simpa using hzv)
  simp only [PipeData.transfer, PipeData.toTuple, hts, Option.bind_eq_bind, Option.some_bind,
    Option.pure_def]
  rw [hzx] at hz
  exact hz

-- ============================================================== the decoder

/-- Python's index into a concatenation, past the first part. -/
theorem pyIndex_append {α : Type} (pre l : List α) {i : Int} {j : Nat} (hi : i = pre.length + j) :
    pyIndex (pre ++ l) i = l[j]? := by
  subst hi
  simp only [pyIndex, if_pos (by omega : (0 : Int) ≤ pre.length + j)]
  rw [show ((pre.length : Int) + j).toNat = pre.length + j by omega,
    List.getElem?_append_right (by omega), Nat.add_sub_cancel_left]

/-- Python's slice of the middle part of a concatenation. -/
theorem pySlice_append {α : Type} (pre l rest : List α) {a b : Int} (ha : a = pre.length)
    (hb : b = pre.length + l.length) : pySlice (pre ++ (l ++ rest)) a b = l := by
  subst ha hb
  have hclip : ∀ n : Nat, n ≤ (pre ++ (l ++ rest)).length →
      min (if (n : Int) < 0 then (n : Int) + (pre ++ (l ++ rest)).length else (n : Int)).toNat
        (pre ++ (l ++ rest)).length = n := fun n hn => by
    rw [if_neg (by omega)]
    omega
  dsimp only [pySlice]
  rw [hclip _ (by simp), ← Nat.cast_add, hclip _ (by simp)]
  simp

/-- A cursor at `p`, the Python int it starts as or a `torch.long`, reading the long count
`k` well inside the range of `torch.long`: nothing wraps, and the cursor moves to the end of
the slice it hands `from_tuple`, as a `torch.long`. -/
theorem Cursor.long_turn {c : Cursor} {p : Nat} (hc : c = .int p ∨ c = .tensor .int64 p)
    (k : Nat) (h : p + k + 2 < 9223372036854775808) :
    c.val = p ∧ (c.addInt 1).val = (p + 1 : Nat) ∧
      ((c.addTensor .int64 k).addInt 2).val = (p + (k + 2) : Nat) ∧
      c.iadd Dtype.int64.addInt (Dtype.int64.addInt.wrap (k + 2)) =
        .tensor .int64 (p + (k + 2) : Nat) := by
  have hw : ∀ n : Int, 0 ≤ n → n < 9223372036854775808 → Dtype.int64.wrap n = n :=
    fun n h0 h1 => by
      simp only [Dtype.wrap]
      omega
  have hl : Dtype.int64.addInt = .int64 := rfl
  have hpr : Dtype.int64.promote .int64 = .int64 := rfl
  have hk : Dtype.int64.wrap ((k : Int) + 2) = k + 2 := hw _ (by omega) (by omega)
  have hpk : Dtype.int64.wrap ((p : Int) + k) = p + k := hw _ (by omega) (by omega)
  have hp1 : Dtype.int64.wrap ((p : Int) + 1) = p + 1 := hw _ (by omega) (by omega)
  have hall : Dtype.int64.wrap ((p : Int) + k + 2) = p + (k + 2) := by
    rw [hw _ (by omega) (by omega)]; ring
  have hall' : Dtype.int64.wrap ((p : Int) + (k + 2)) = p + (k + 2) := hw _ (by omega) (by omega)
  rcases hc with rfl | rfl
  · refine ⟨rfl, by rw [Cursor.addInt, Cursor.val]; push_cast; rfl, ?_, ?_⟩
    · rw [Cursor.addTensor, Cursor.addInt, Cursor.val, hl, hl, hpk, hall]; push_cast; rfl
    · rw [Cursor.iadd, hl, hk, Cursor.addTensor, hl, hall']; push_cast; rfl
  · refine ⟨rfl, by rw [Cursor.addInt, Cursor.val, hl, hp1]; push_cast; rfl, ?_, ?_⟩
    · rw [Cursor.addTensor, hpr, Cursor.addInt, Cursor.val, hl, hpk, hall]; push_cast; rfl
    · rw [Cursor.iadd, hl, hk, hall']; push_cast; rfl

/-- An encoded list of records is at most eight tensors a record. -/
theorem length_flatten_toTuple : ∀ {xs : List PipeData} {blocks : List (List Tensor)},
    xs.mapM PipeData.toTuple = some blocks → blocks.flatten.length ≤ 8 * xs.length
  | [], blocks, h => by rw [mapM_nil_eq_some.1 h]; simp
  | x :: xs, blocks, h => by
    obtain ⟨b, hb, bs, hbs, rfl⟩ := mapM_cons_eq_some.1 h
    obtain ⟨ts, hts, rfl⟩ := toTuple_eq_some hb
    have hts' := (forall₂_of_mapM_eq_some hts).length_eq
    have hfields : x.cls.fields.length ≤ 6 := by cases x.cls <;> decide
    have := length_flatten_toTuple hbs
    simp only [List.flatten_cons, List.length_append, List.length_cons, List.length_cons]
    rw [x.values_length] at hts'
    omega

/-- The decoding loop, started at an encoded list of records, decodes each record from
its own block: with more turns than records it returns what `from_tuple` makes of each, and
with fewer it has not returned. -/
theorem tensorTupleToDataListLoop_flatten : ∀ {xs : List PipeData} {blocks : List (List Tensor)},
    xs.mapM PipeData.toTuple = some blocks → ∀ (pre : List Tensor) (c : Cursor),
    (c = .int pre.length ∨ c = .tensor .int64 pre.length) →
    (pre ++ blocks.flatten).length < 9223372036854775808 → ∀ fuel : Nat,
    tensorTupleToDataListLoop (pre ++ blocks.flatten) fuel c =
      if xs.length < fuel then xs.mapM PipeData.transfer else none
  | [], blocks, h, pre, c, hc, _, fuel => by
    obtain rfl := mapM_nil_eq_some.1 h
    have hval : c.val = pre.length := by rcases hc with rfl | rfl <;> rfl
    cases fuel with
    | zero => rfl
    | succ fuel => simp [tensorTupleToDataListLoop, hval]; rfl
  | x :: xs, blocks, h, pre, c, hc, hsmall, fuel => by
    obtain ⟨b, hb, bs, hbs, rfl⟩ := mapM_cons_eq_some.1 h
    have htr : x.transfer = fromTuple x.cls b := by simp [PipeData.transfer, hb]
    obtain ⟨ts, -, hbts⟩ := toTuple_eq_some hb
    cases fuel with
    | zero => simp [tensorTupleToDataListLoop]
    | succ fuel =>
      have hblen : b.length = ts.length + 2 := by simp [hbts]
      have hlen : (pre ++ (b :: bs).flatten).length = pre.length + b.length + bs.flatten.length := by
        simp only [List.flatten_cons, List.length_append]; omega
      obtain ⟨hval, h1val, hstop, hnext⟩ := Cursor.long_turn hc ts.length (by omega)
      have hsmall' : (pre ++ b ++ bs.flatten).length < 9223372036854775808 := by
        rw [List.append_assoc, ← List.flatten_cons]
        exact hsmall
      have hrest := tensorTupleToDataListLoop_flatten hbs (pre ++ b) _
        (Or.inr (by rw [List.length_append, hblen])) hsmall' fuel
      rw [List.append_assoc, ← List.flatten_cons] at hrest
      have hlt : c.val < (pre ++ (b :: bs).flatten).length := by rw [hval, hlen]; omega
      rw [tensorTupleToDataListLoop, if_pos hlt, hval, h1val,
        pyIndex_append pre _ (j := 0) (by simp), pyIndex_append pre _ (j := 1) (by simp)]
      have h0 : b[0]? = some (Tensor.ofInt ts.length) := by simp [hbts]
      have h1 : b[1]? = some (Tensor.ofInt x.cls.encode) := by simp [hbts]
      rw [List.flatten_cons, List.getElem?_append_left (by omega : 0 < b.length),
        List.getElem?_append_left (by omega : 1 < b.length)]
      simp only [h0, h1, Option.bind_eq_bind, Option.some_bind, toIndex?_ofInt, toInt?_ofInt,
        ofTypeCode_encode, show (Tensor.ofInt ts.length).dtype = .int64 from rfl, hstop, hnext]
      rw [pySlice_append pre _ _ rfl (by rw [hblen]; push_cast; ring), ← htr, ← List.flatten_cons,
        hrest]
      by_cases hf : xs.length < fuel
      · simp only [hf, if_true, List.length_cons, Nat.add_lt_add_iff_right, List.mapM_cons,
          Option.bind_eq_bind, Option.pure_def]
      · simp [hf]

-- ============================================================= the round trip

/-- A record of each class, every field of the domain: a float tensor with a NaN, an
int tensor, a nonzero `max_seqlen` and a set `store_kv_cache`; cached ids and positions. -/
def transferAndCache : List PipeData :=
  [⟨.pipeTransferData, [.tensor ⟨.float32, [2], [.float 3, .nonFinite]⟩, .none,
      .tensor ⟨.int32, [3], [.int 0, .int 4, .int 9]⟩, .int 9, .bool true, .none], rfl⟩,
    ⟨.pipeCacheData, [.tensor ⟨.int64, [1], [.int 5]⟩, .tensor ⟨.int64, [1], [.int 0]⟩, .none,
      .none, .tensor ⟨.int32, [0], []⟩], rfl⟩]

/-- A bool attention mask, and cached ids made of the single token `-3`. -/
def boolMaskAndNegativeId : List PipeData :=
  [⟨.pipeTransferData, [.none, .none, .none, .int 4, .bool false,
      .tensor ⟨.bool, [2], [.int 1, .int 0]⟩], rfl⟩,
    ⟨.pipeCacheData, [.tensor ⟨.int64, [1], [.int (-3)]⟩, .none, .none, .none, .none], rfl⟩]

end ReaLHF.Pipeline
