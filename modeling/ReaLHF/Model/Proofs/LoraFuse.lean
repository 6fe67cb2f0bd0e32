/-
What `forward` computes in every state a `LinearLoRA` reaches by `fuse_lora_weight`,
`unfuse_lora_weight` and `squash_lora`.

The calls keep one invariant against the freshly built module `f` (`Tracks`): the LoRA
weights, the scaling and the bias are `f`'s, and the weight is `f`'s plus `loraDelta`
exactly when `squashed || fuse_lora`. A fused state therefore runs `F.linear` with
`W₀ + s·Lᵀ·Rᵀ`, and an unfused one is `f` itself (`Tracks.forward`).

The two paths do not compute the same map. `nn.Linear` applies `x @ weight.T`, so the
unfused path computes `lora_right(lora_left(x)) = x·Lᵀ·Rᵀ = x·(R·L)ᵀ`: it needs the input
width, which `F.linear` already fixed to the layer's columns, to be its rows as well, and
raises on every non-square layer. The fused weight's transpose gives `x·(R·L)` instead,
which differs from the unfused term unless `x` cancels the antisymmetric part of `R·L`.
-/
import ReaLHF.Model.Lora

namespace ReaLHF.Model

open Matrix

-- ========================================================== linear algebra

section Linear

variable {b k m n : Nat}

@[simp]
theorem biasRows_none : (biasRows none : Matrix (Fin b) (Fin m) ℚ) = 0 :=
  rfl

@[simp]
theorem linear_self (x : Matrix (Fin b) (Fin n) ℚ) (weight : Matrix (Fin m) (Fin n) ℚ)
    (bias : Option (Fin m → ℚ)) : linear x weight bias = some (x * weightᵀ + biasRows bias) := by
  simp [linear]

theorem linear_of_ne (x : Matrix (Fin b) (Fin k) ℚ) (weight : Matrix (Fin m) (Fin n) ℚ)
    (bias : Option (Fin m → ℚ)) (h : k ≠ n) : linear x weight bias = none :=
  dif_neg h

@[simp]
theorem addRows_self (y d : Matrix (Fin b) (Fin m) ℚ) : addRows y d = some (y + d) := by
  simp [addRows]

end Linear

namespace LinearLoRA

variable {o i r b k : Nat}

-- ============================================================ the invariant

/-- A module as `__init__` leaves it: nothing fused, nothing squashed. -/
def Fresh (f : LinearLoRA o i r) : Prop :=
  f.squashed = false ∧ f.fuseLora = false

/-- Whether `forward` skips the LoRA path. -/
def fused (m : LinearLoRA o i r) : Bool :=
  m.squashed || m.fuseLora

@[simp]
theorem fuseLoraWeight_fused (m : LinearLoRA o i r) : m.fuseLoraWeight.fused = true := by
  simp [fused, LinearLoRA.fuseLoraWeight]

theorem init_fresh {weight : Matrix (Fin o) (Fin i) ℚ} {bias : Option (Fin o → ℚ)}
    {loraScaling : ℚ} {loraRight : Matrix (Fin i) (Fin r) ℚ} {loraLeft : Matrix (Fin r) (Fin o) ℚ}
    {f : LinearLoRA o i r} (h : init weight bias r loraScaling loraRight loraLeft = some f) :
    f.Fresh := by
  unfold init at h
  split at h
  · cases h
  · cases h
    exact ⟨rfl, rfl⟩

/-- What a state reached from the fresh module `f` keeps of it: everything but the weight
and the flags, and the weight is `f`'s plus the update exactly when the state is fused. -/
structure Tracks (f m : LinearLoRA o i r) : Prop where
  bias : m.bias = f.bias
  loraRight : m.loraRight = f.loraRight
  loraLeft : m.loraLeft = f.loraLeft
  loraScaling : m.loraScaling = f.loraScaling
  weight : m.weight = if m.fused then f.weight + f.loraDelta else f.weight

variable {f m : LinearLoRA o i r}

theorem Tracks.refl (hf : f.Fresh) : Tracks f f :=
  ⟨rfl, rfl, rfl, rfl, by simp [fused, hf.1, hf.2]⟩

theorem Tracks.loraDelta_eq (h : Tracks f m) : m.loraDelta = f.loraDelta := by
  simp only [loraDelta, h.loraScaling, h.loraLeft, h.loraRight]

theorem Tracks.fuseLoraWeight (h : Tracks f m) : Tracks f m.fuseLoraWeight where
  bias := h.bias
  loraRight := h.loraRight
  loraLeft := h.loraLeft
  loraScaling := h.loraScaling
  weight := by
    have hw := h.weight
    unfold fused at hw ⊢
    cases hs : m.squashed <;> cases hf : m.fuseLora <;>
      simp_all [LinearLoRA.fuseLoraWeight, h.loraDelta_eq]

theorem Tracks.unfuseLoraWeight (h : Tracks f m) : Tracks f m.unfuseLoraWeight where
  bias := h.bias
  loraRight := h.loraRight
  loraLeft := h.loraLeft
  loraScaling := h.loraScaling
  weight := by
    have hw := h.weight
    unfold fused at hw ⊢
    cases hs : m.squashed <;> cases hf : m.fuseLora <;>
      simp_all [LinearLoRA.unfuseLoraWeight, h.loraDelta_eq]

/-- Every call keeps the invariant. -/
theorem Tracks.call (h : Tracks f m) {c : Call} {m' : LinearLoRA o i r}
    (hc : m.call c = some m') : Tracks f m' := by
  cases c with
  | fuseLoraWeight => exact Option.some.inj hc ▸ h.fuseLoraWeight
  | unfuseLoraWeight => exact Option.some.inj hc ▸ h.unfuseLoraWeight
  | squashLora =>
    simp only [LinearLoRA.call, squashLora, Option.ite_none_left_eq_some, Option.some.injEq] at hc
    obtain ⟨_, rfl⟩ := hc
    have hfuse := h.fuseLoraWeight
    refine ⟨hfuse.1, hfuse.2, hfuse.3, hfuse.4, ?_⟩
    have hw := hfuse.5
    simp only [fused, LinearLoRA.fuseLoraWeight, Bool.or_true, if_true] at hw ⊢
    exact hw

/-- Every run of calls keeps the invariant. -/
theorem Tracks.run : ∀ {m : LinearLoRA o i r} {calls : List Call} {m' : LinearLoRA o i r},
    Tracks f m → m.run calls = some m' → Tracks f m'
  | _, [], _, h, hrun => Option.some.inj hrun ▸ h
  | m, c :: cs, m', h, hrun => by
    simp only [LinearLoRA.run, List.foldlM_cons, Option.bind_eq_bind, Option.bind_eq_some] at hrun
    obtain ⟨m₁, h₁, h₂⟩ := hrun
    exact Tracks.run (h.call h₁) h₂

/-- An unfused state reached from `f` is `f` again. -/
theorem Tracks.eq_of_not_fused (h : Tracks f m) (hf : f.Fresh) (hm : m.fused = false) : m = f := by
  obtain ⟨hb, hR, hL, hs, hw⟩ := h
  simp only [hm, Bool.false_eq_true, if_false] at hw
  simp only [fused, Bool.or_eq_false_iff] at hm
  obtain ⟨hf₁, hf₂⟩ := hf
  cases m
  cases f
  simp_all

-- ============================================================ the forwards

/-- A fused state runs the wrapped layer with the fused weight; an unfused one is the fresh
module. -/
theorem Tracks.forward (h : Tracks f m) (hf : f.Fresh) (x : Matrix (Fin b) (Fin k) ℚ) :
    m.forward x = if m.fused then linear x (f.weight + f.loraDelta) f.bias else f.forward x := by
  cases hm : m.fused
  · rw [h.eq_of_not_fused hf hm]
    rfl
  · have hw := h.weight
    rw [hm, if_pos rfl] at hw
    have hm' : (m.squashed || m.fuseLora) = true := hm
    simp only [LinearLoRA.forward, hm', if_true, hw, h.bias]
    cases linear x (f.weight + f.loraDelta) f.bias <;> rfl

/-- The fused weight's map: the LoRA term is `x·(R·L)`. -/
theorem linear_fused (x : Matrix (Fin b) (Fin i) ℚ) (f : LinearLoRA o i r) :
    linear x (f.weight + f.loraDelta) f.bias =
      some (x * f.weightᵀ + biasRows f.bias + f.loraScaling • (x * (f.loraRight * f.loraLeft))) := by
  rw [linear_self, loraDelta, transpose_add, transpose_smul, transpose_mul, transpose_transpose,
    transpose_transpose, Matrix.mul_add, Matrix.mul_smul]
  abel_nf

/-- The unfused path of a square layer: the LoRA term is `x·Lᵀ·Rᵀ = x·(R·L)ᵀ`. -/
theorem forward_square {n : Nat} (f : LinearLoRA n n r) (hf : f.Fresh) (x : Matrix (Fin b) (Fin n) ℚ) :
    f.forward x =
      some (x * f.weightᵀ + biasRows f.bias + f.loraScaling • (x * (f.loraRight * f.loraLeft)ᵀ)) := by
  simp only [LinearLoRA.forward, hf.1, hf.2, Bool.or_false, Bool.false_eq_true, if_false,
    linear_self, biasRows_none, add_zero, Option.bind_eq_bind, Option.some_bind, addRows_self,
    transpose_mul, Matrix.mul_assoc]
  rfl

/-- The unfused path raises on every input of a non-square layer: `lora_left` takes inputs
as wide as the layer's rows, `F.linear` as wide as its columns. -/
theorem forward_of_ne (f : LinearLoRA o i r) (hf : f.Fresh) (hoi : o ≠ i)
    (x : Matrix (Fin b) (Fin k) ℚ) : f.forward x = none := by
  by_cases hk : k = i
  · subst hk
    simp [LinearLoRA.forward, hf.1, hf.2, linear_of_ne x f.loraLeft none (Ne.symm hoi)]
  · simp [LinearLoRA.forward, linear_of_ne x f.weight f.bias hk]

/-- Along every run of calls from a fresh square module, `forward` is defined on every input
and is the wrapped layer plus a LoRA term that depends on whether the update is fused:
`x·(R·L)` if it is, `x·(R·L)ᵀ` if not. -/
theorem run_forward_square {n : Nat} (f : LinearLoRA n n r) (hf : f.Fresh) {calls : List Call}
    {m : LinearLoRA n n r} (hrun : f.run calls = some m) (x : Matrix (Fin b) (Fin n) ℚ) :
    m.forward x = some (x * f.weightᵀ + biasRows f.bias + f.loraScaling • (x *
      if m.fused then f.loraRight * f.loraLeft else (f.loraRight * f.loraLeft)ᵀ)) := by
  rw [((Tracks.refl hf).run hrun).forward hf]
  cases m.fused
  · exact forward_square f hf x
  · exact linear_fused x f

/-- Along every run of calls from a fresh non-square module, `forward` raises while the
update is not fused and runs the fused weight once it is. -/
theorem run_forward_of_ne (f : LinearLoRA o i r) (hf : f.Fresh) (hoi : o ≠ i) {calls : List Call}
    {m : LinearLoRA o i r} (hrun : f.run calls = some m) (x : Matrix (Fin b) (Fin i) ℚ) :
    m.forward x = if m.fused then
      some (x * f.weightᵀ + biasRows f.bias + f.loraScaling • (x * (f.loraRight * f.loraLeft)))
      else none := by
  rw [((Tracks.refl hf).run hrun).forward hf, linear_fused, forward_of_ne f hf hoi]

/-- A 2×2 layer with zero weight and no bias, of rank one with `lora_scaling = 1`,
`lora_left.weight = [1, 0]` and `lora_right.weight = [0; 1]`, maps `x = [1, 0]` to `[0, 1]`
fresh and to `[0, 0]` once fused. A 1×2 layer of rank one raises on `[1, 0]` until it is
fused, and then maps it to `[1]`. -/
theorem fuseLoraWeight_changes_forward :
    (∃ f, init (0 : Matrix (Fin 2) (Fin 2) ℚ) none 1 1 !![0; 1] !![1, 0] = some f ∧
      f.forward !![(1 : ℚ), 0] = some !![0, 1] ∧
      f.fuseLoraWeight.forward !![(1 : ℚ), 0] = some !![0, 0]) ∧
    (∃ g, init (0 : Matrix (Fin 1) (Fin 2) ℚ) none 1 1 !![1; 0] !![1] = some g ∧
      g.forward !![(1 : ℚ), 0] = none ∧ g.fuseLoraWeight.forward !![(1 : ℚ), 0] = some !![1]) := by
  refine ⟨⟨_, rfl, ?_, ?_⟩, ⟨_, rfl, forward_of_ne _ ⟨rfl, rfl⟩ (by decide) _, ?_⟩⟩
  · rw [forward_square _ ⟨rfl, rfl⟩]
    congr 1
    ext i j
    fin_cases i; fin_cases j <;> simp [Matrix.mul_apply, Fin.sum_univ_two, biasRows, vecHead]
  all_goals
    rw [((Tracks.refl ⟨rfl, rfl⟩).fuseLoraWeight).forward ⟨rfl, rfl⟩, fuseLoraWeight_fused,
      if_pos rfl, linear_fused]
    congr 1
    ext i j
    fin_cases i; fin_cases j <;> simp [Matrix.mul_apply, Fin.sum_univ_two, biasRows, vecHead]

end LinearLoRA

end ReaLHF.Model
