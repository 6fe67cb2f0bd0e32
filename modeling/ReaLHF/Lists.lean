/-
Facts about lists that several models share: `Option`-valued `mapM` (Python's loops that
may raise), blocks of a flattened list (packed sequences), and prefix sums (`cu_seqlens`).
-/
import Mathlib

namespace ReaLHF

-- ================================================================ Option.mapM

section MapM

variable {α β γ : Type} {f : α → Option β}

theorem mapM_cons_eq_some {a : α} {l : List α} {l' : List β} :
    (a :: l).mapM f = some l' ↔ ∃ b, f a = some b ∧ ∃ bs, l.mapM f = some bs ∧ b :: bs = l' := by
  simp only [List.mapM_cons, Option.bind_eq_bind, Option.bind_eq_some, Option.pure_def,
    Option.some.injEq]

theorem mapM_nil_eq_some {l' : List β} : ([] : List α).mapM f = some l' ↔ l' = [] := by
  simp only [List.mapM_nil, Option.pure_def, Option.some.injEq, eq_comm]

/-- A successful `mapM` relates the inputs and the outputs pointwise. -/
theorem forall₂_of_mapM_eq_some : ∀ {l : List α} {l' : List β}, l.mapM f = some l' →
    List.Forall₂ (fun a b => f a = some b) l l'
  | [], _, h => by
    rw [mapM_nil_eq_some.1 h]
    exact .nil
  | _ :: _, _, h => by
    obtain ⟨b, hb, bs, hbs, rfl⟩ := mapM_cons_eq_some.1 h
    exact .cons hb (forall₂_of_mapM_eq_some hbs)

/-- A successful `mapM` relates every input to an output and back. -/
theorem mem_of_mapM_eq_some {l : List α} {l' : List β} (h : l.mapM f = some l') :
    (∀ b ∈ l', ∃ a ∈ l, f a = some b) ∧ (∀ a ∈ l, ∃ b ∈ l', f a = some b) := by
  have hl := forall₂_of_mapM_eq_some h
  clear h
  induction hl with
  | nil => simp
  | @cons a b _ _ hab _ ih =>
    refine ⟨?_, ?_⟩
    · rintro _ (_ | ⟨_, hmem⟩)
      · exact ⟨a, List.mem_cons_self _ _, hab⟩
      · obtain ⟨a', ha', h'⟩ := ih.1 _ hmem
        exact ⟨a', List.mem_cons_of_mem _ ha', h'⟩
    · rintro _ (_ | ⟨_, hmem⟩)
      · exact ⟨b, List.mem_cons_self _ _, hab⟩
      · obtain ⟨b', hb', h'⟩ := ih.2 _ hmem
        exact ⟨b', List.mem_cons_of_mem _ hb', h'⟩

/-- Related lists map to equal lists under functions that agree on related pairs. -/
theorem map_eq_of_forall₂ {R : α → β → Prop} {g : β → γ} {h : α → γ}
    (hfg : ∀ a b, R a b → g b = h a) {l : List α} {l' : List β} (hl : List.Forall₂ R l l') :
    l'.map g = l.map h := by
  induction hl with
  | nil => rfl
  | cons hab _ ih => simp [hfg _ _ hab, ih]

/-- A successful `mapM` maps `h` on the inputs to `g` on the outputs. -/
theorem map_eq_of_mapM_eq_some {g : β → γ} {h : α → γ} (hfg : ∀ a b, f a = some b → g b = h a)
    {l : List α} {l' : List β} (hl : l.mapM f = some l') : l'.map g = l.map h :=
  map_eq_of_forall₂ hfg (forall₂_of_mapM_eq_some hl)

/-- Related lists: `filterMap` on one side, `map` on the other, when every related pair
keeps its element. -/
theorem filterMap_eq_of_forall₂ {R : α → β → Prop} {g : β → Option γ} {h : α → γ}
    (hgh : ∀ a b, R a b → g b = some (h a)) {l : List α} {l' : List β}
    (hl : List.Forall₂ R l l') : l'.filterMap g = l.map h := by
  induction hl with
  | nil => rfl
  | cons hab _ ih => simp [List.filterMap_cons, hgh _ _ hab, ih]

theorem getElem?_of_mapM_eq_some {l : List α} {l' : List β} (h : l.mapM f = some l') (k : Nat) :
    l'[k]? = l[k]?.bind f := by
  have hl := forall₂_of_mapM_eq_some h
  clear h
  induction hl generalizing k with
  | nil => rfl
  | cons hab _ ih => cases k <;> simp [hab, ih]

/-- `mapM` succeeds when every element does. -/
theorem exists_mapM_eq_some : ∀ {l : List α}, (∀ a ∈ l, ∃ b, f a = some b) →
    ∃ l', l.mapM f = some l'
  | [], _ => ⟨[], rfl⟩
  | a :: l, h => by
    obtain ⟨b, hb⟩ := h a (List.mem_cons_self _ _)
    obtain ⟨bs, hbs⟩ := exists_mapM_eq_some fun a' ha' => h a' (List.mem_cons_of_mem _ ha')
    exact ⟨b :: bs, mapM_cons_eq_some.2 ⟨b, hb, bs, hbs, rfl⟩⟩

/-- `mapM` of a step that succeeds everywhere with `g` is `map g`. -/
theorem mapM_eq_some_map {g : α → β} : ∀ {l : List α}, (∀ a ∈ l, f a = some (g a)) →
    l.mapM f = some (l.map g)
  | [], _ => rfl
  | a :: l, h => mapM_cons_eq_some.2 ⟨g a, h a (List.mem_cons_self _ _), l.map g,
      mapM_eq_some_map fun a' ha' => h a' (List.mem_cons_of_mem _ ha'), rfl⟩

/-- Mapping every step's result maps the list `mapM` returns. -/
theorem mapM_map_option (g : β → γ) :
    ∀ l : List α, l.mapM (fun a => (f a).map g) = (l.mapM f).map (List.map g)
  | [] => rfl
  | a :: l => by
    simp only [List.mapM_cons, mapM_map_option g l, Option.bind_eq_bind, Option.pure_def]
    cases f a <;> cases l.mapM f <;> rfl

/-- `mapM` of a mapped list whose every step succeeds. -/
theorem mapM_map_eq_some {ι : Type} {g : ι → α} {h : ι → β} : ∀ {l : List ι},
    (∀ i ∈ l, f (g i) = some (h i)) → (l.map g).mapM f = some (l.map h)
  | [], _ => rfl
  | i :: l, hl => mapM_cons_eq_some.2 ⟨h i, hl i (List.mem_cons_self _ _), l.map h,
      mapM_map_eq_some fun j hj => hl j (List.mem_cons_of_mem _ hj), rfl⟩

/-- `mapM` of a flattened list is `mapM` block by block. -/
theorem mapM_flatten : ∀ L : List (List α),
    L.flatten.mapM f = (L.mapM fun l : List α => l.mapM f).map List.flatten
  | [] => rfl
  | l :: L => by
    simp only [List.flatten_cons, List.mapM_append, List.mapM_cons, mapM_flatten L,
      Option.bind_eq_bind, Option.pure_def]
    cases l.mapM f <;> cases L.mapM (fun l : List α => l.mapM f) <;> rfl

/-- A prefix of a list maps to the prefix of what a successful `mapM` returns. -/
theorem mapM_take : ∀ {l : List α} {l' : List β} (k : Nat), l.mapM f = some l' →
    (l.take k).mapM f = some (l'.take k)
  | [], _, k, h => by rw [mapM_nil_eq_some.1 h, List.take_nil, List.take_nil]; rfl
  | _ :: _, _, 0, _ => rfl
  | _ :: _, _, k + 1, h => by
    obtain ⟨b, hb, bs, hbs, rfl⟩ := mapM_cons_eq_some.1 h
    exact mapM_cons_eq_some.2 ⟨b, hb, _, mapM_take k hbs, rfl⟩

/-- A `foldlM` that succeeds took a successful step at every element. -/
theorem exists_of_foldlM_eq_some {g : γ → α → Option γ} :
    ∀ {l : List α} {c d : γ}, l.foldlM g c = some d → ∀ a ∈ l, ∃ y z, g y a = some z
  | [], _, _, _, _, ha => absurd ha (List.not_mem_nil _)
  | a' :: l, c, _, h, a, ha => by
    obtain ⟨z, hz, hl⟩ := Option.bind_eq_some.1 h
    rcases List.mem_cons.1 ha with rfl | ha
    · exact ⟨c, z, hz⟩
    · exact exists_of_foldlM_eq_some hl a ha

end MapM

/-- Two lists related pointwise are related at every index they share. -/
theorem Forall₂.of_getElem? {α β : Type} {R : α → β → Prop} {l₁ : List α} {l₂ : List β}
    (h : List.Forall₂ R l₁ l₂) {i : Nat} {a : α} {b : β} (ha : l₁[i]? = some a)
    (hb : l₂[i]? = some b) : R a b := by
  obtain ⟨hi₁, rfl⟩ := List.getElem?_eq_some_iff.1 ha
  obtain ⟨hi₂, rfl⟩ := List.getElem?_eq_some_iff.1 hb
  exact h.get hi₁ hi₂

-- ==================================================================== blocks

section Blocks

variable {α ι β : Type}

/-- Position `j` of block `i` of a flattened list sits after the lengths of the blocks
before it. -/
theorem getElem?_flatten_block {B : List (List α)} {i j : Nat} {b : List α} (hb : B[i]? = some b)
    (hj : j < b.length) : B.flatten[((B.map List.length).take i).sum + j]? = b[j]? := by
  obtain ⟨hi, rfl⟩ := List.getElem?_eq_some_iff.1 hb
  rw [← List.getElem?_drop, List.drop_sum_flatten, List.drop_eq_getElem_cons hi, List.flatten_cons,
    List.getElem?_append_left hj]

/-- Pointwise `≤` with equal sums is equality. -/
theorem map_eq_of_le_of_sum_eq {l : List ι} {g h : ι → Nat} (hle : ∀ i ∈ l, g i ≤ h i)
    (hsum : (l.map g).sum = (l.map h).sum) : l.map g = l.map h := by
  induction l with
  | nil => rfl
  | cons a l ih =>
    have hrest : (l.map g).sum ≤ (l.map h).sum :=
      List.sum_le_sum fun i hi => hle i (List.mem_cons_of_mem _ hi)
    have ha := hle a (List.mem_cons_self _ _)
    simp only [List.map_cons, List.sum_cons, List.cons.injEq] at hsum ⊢
    exact ⟨by omega, ih (fun i hi => hle i (List.mem_cons_of_mem _ hi)) (by omega)⟩

/-- Over a list of positive lengths, the lengths less one sum to the total less the count. -/
theorem sum_map_sub_one_add {l : List ι} {g h : ι → Nat} (hpos : ∀ i ∈ l, 1 ≤ g i) :
    (l.map fun i => g i - 1 + h i).sum + l.length = (l.map fun i => g i + h i).sum := by
  induction l with
  | nil => rfl
  | cons a l ih =>
    have ha := hpos a (List.mem_cons_self _ _)
    have := ih fun i hi => hpos i (List.mem_cons_of_mem _ hi)
    simp only [List.map_cons, List.sum_cons, List.length_cons]
    omega

/-- A list read back at every index, with any default. -/
theorem map_getD_range (l : List α) (d : α) : (List.range l.length).map (l.getD · d) = l := by
  apply List.ext_getElem (by simp)
  intro i h₁ h₂
  simp [List.getD_eq_getElem?_getD, List.getElem?_eq_getElem h₂]

/-- Blockwise `zipWith` of blocks of equal lengths is `zipWith` of the flattened lists. -/
theorem zipWith_flatten {α β γ : Type} (f : α → β → γ) :
    ∀ {A : List (List α)} {B : List (List β)}, A.map List.length = B.map List.length →
      List.zipWith f A.flatten B.flatten = (List.zipWith (List.zipWith f) A B).flatten
  | [], [], _ => rfl
  | a :: A, b :: B, h => by
    simp only [List.map_cons, List.cons.injEq] at h
    simp only [List.flatten_cons, List.zipWith_cons_cons,
      List.zipWith_append f _ _ _ _ h.1, zipWith_flatten f h.2]
  | [], _ :: _, h => by simp at h
  | _ :: _, [], h => by simp at h

end Blocks

-- ============================================================== prefix sums

/-- `scanl (+)` lists the prefix sums, in any additive monoid. -/
theorem getElem?_scanl_sum {M : Type} [AddMonoid M] (l : List M) (a : M) {i : Nat}
    (hi : i ≤ l.length) : (l.scanl (· + ·) a)[i]? = some (a + (l.take i).sum) := by
  induction l generalizing a i with
  | nil => simp_all
  | cons x xs ih =>
    cases i with
    | zero => simp
    | succ i =>
      simp only [List.scanl_cons, List.singleton_append, List.getElem?_cons_succ,
        List.take_succ_cons, List.sum_cons]
      rw [ih (a + x) (by simpa using hi), add_assoc]

/-- The prefix sums after the first, of lengths of at least one, lie between one and the
total. -/
theorem prefix_sum_bounds {M : Type} [OrderedSemiring M] {l : List M} (hpos : ∀ x ∈ l, 1 ≤ x)
    {i : Nat} (hi : i < l.length) : 1 ≤ (l.take (i + 1)).sum ∧ (l.take (i + 1)).sum ≤ l.sum := by
  have hnn : ∀ x ∈ l, 0 ≤ x := fun x hx => zero_le_one.trans (hpos x hx)
  constructor
  · rw [List.sum_take_succ _ _ hi]
    exact le_add_of_nonneg_of_le (List.sum_nonneg fun x hx => hnn x (List.mem_of_mem_take hx))
      (hpos _ (List.getElem_mem hi))
  · conv_rhs => rw [← List.sum_take_add_sum_drop l (i + 1)]
    exact le_add_of_nonneg_right (List.sum_nonneg fun x hx => hnn x (List.mem_of_mem_drop hx))

end ReaLHF
