/-
The arithmetic of the search's cursor vectors: the mixed-radix `rank` of an index vector,
its inverse `unrank`, and what `carry` and `resetAfter` do to the rank.

# Ranks

An index vector `v` with `v[i] < lens[i]` sits at position
`rank lens v = Σ v[i] · Π_{j > i} lens[j]` of the lexicographic product (`indexVectors`),
and `unrank` inverts it on `[0, Π lens)`. Writing `S k` for the product of the lengths
from position `k` on, the first `k` cursors of `v` are the base-`S k` quotient of its
rank (`rank_div_prod_drop`), so two vectors share a prefix exactly when their ranks
share a quotient.

# The carry

Started at cursor `bi`, `carry` followed by `resetAfter` moves the rank of an in-range
vector from `r` to `(r / S (bi+1) + 1) · S (bi+1)`: the next multiple of `S (bi+1)` — the
first vector whose prefix through `bi` differs. When that multiple is `Π lens` there is
no such vector and the carry runs out (`carry_none`). Every vector skipped on the way
shares `v`'s prefix through `bi`; that is what lets the search prune.
-/
import ReaLHF.Profiler.Search

namespace ReaLHF.Profiler

-- ============================================================ statement vocabulary

/-- The mixed-radix rank of index vector `v` against candidate-list lengths `lens`. -/
def rank : List Nat → List Nat → Nat
  | _ :: ls, i :: v => i * ls.prod + rank ls v
  | _, _ => 0

/-- The index vector of rank `r`. -/
def unrank : List Nat → Nat → List Nat
  | [], _ => []
  | _ :: ls, r => r / ls.prod :: unrank ls (r % ls.prod)

/-- Every index vector of the product `[0, lens[0]) × … × [0, lens[n-1])`, in
lexicographic order. -/
def indexVectors : List Nat → List (List Nat)
  | [] => [[]]
  | l :: ls => (List.range l).flatMap fun i => (indexVectors ls).map (i :: ·)

@[simp] theorem rank_cons (l : Nat) (ls : List Nat) (i : Nat) (v : List Nat) :
    rank (l :: ls) (i :: v) = i * ls.prod + rank ls v := rfl

@[simp] theorem rank_nil (v : List Nat) : rank [] v = 0 := by cases v <;> rfl

theorem unrank_cons (l : Nat) (ls : List Nat) (r : Nat) :
    unrank (l :: ls) r = r / ls.prod :: unrank ls (r % ls.prod) := rfl

/-- Base-`S` digit arithmetic: `a · S + b` with `b < S` has quotient `a`, remainder `b`. -/
theorem mul_add_div_mod {a b S : Nat} (hb : b < S) :
    (a * S + b) / S = a ∧ (a * S + b) % S = b := by
  have hS : 0 < S := by omega
  rw [Nat.add_comm, Nat.add_mul_div_right _ _ hS, Nat.add_mul_mod_self_right,
    Nat.div_eq_of_lt hb, Nat.mod_eq_of_lt hb, Nat.zero_add]
  exact ⟨rfl, rfl⟩

-- ====================================================================== ranks

theorem rank_lt {lens v : List Nat} (h : List.Forall₂ (· < ·) v lens) :
    rank lens v < lens.prod := by
  induction h with
  | nil => simp
  | @cons i l v ls hi _ ih =>
    have hle : (i + 1) * ls.prod ≤ l * ls.prod := Nat.mul_le_mul_right _ hi
    rw [Nat.succ_mul] at hle
    simp only [rank_cons, List.prod_cons]
    omega

theorem rank_append {ls₁ v₁ : List Nat} (ls₂ v₂ : List Nat) (hlen : v₁.length = ls₁.length) :
    rank (ls₁ ++ ls₂) (v₁ ++ v₂) = rank ls₁ v₁ * ls₂.prod + rank ls₂ v₂ := by
  induction ls₁ generalizing v₁ with
  | nil => simp_all
  | cons l ls ih =>
    obtain ⟨i, v, rfl⟩ := List.exists_cons_of_length_eq_add_one hlen
    simp only [List.cons_append, rank_cons, List.prod_append,
      ih (by simpa using hlen)]
    ring

theorem rank_replicate_zero (ls : List Nat) : rank ls (List.replicate ls.length 0) = 0 := by
  induction ls with
  | nil => rfl
  | cons l ls ih => simp [List.replicate_succ, ih]

/-- A vector's rank splits at any `k` into its prefix rank and its suffix rank. -/
theorem rank_take_drop {lens v : List Nat} (hlen : v.length = lens.length) (k : Nat) :
    rank lens v =
      rank (lens.take k) (v.take k) * (lens.drop k).prod + rank (lens.drop k) (v.drop k) := by
  conv_lhs => rw [← List.take_append_drop k lens, ← List.take_append_drop k v]
  exact rank_append _ _ (by simp [hlen])

/-- The first `k` cursors are the quotient of the rank by `S k`. -/
theorem rank_div_prod_drop {lens v : List Nat} (h : List.Forall₂ (· < ·) v lens) (k : Nat) :
    rank lens v / (lens.drop k).prod = rank (lens.take k) (v.take k) := by
  rw [rank_take_drop h.length_eq k]
  exact (mul_add_div_mod (rank_lt (List.forall₂_drop k h))).1

/-- The prefix rank through `j` extends the one before `j` by digit `v[j]`. -/
theorem rank_take_succ {lens v : List Nat} (hlen : v.length = lens.length) {j : Nat}
    (hj : j < lens.length) :
    rank (lens.take (j + 1)) (v.take (j + 1)) =
      rank (lens.take j) (v.take j) * lens[j] + v[j] := by
  rw [List.take_succ, List.take_succ, List.getElem?_eq_getElem hj,
    List.getElem?_eq_getElem (hlen ▸ hj)]
  simp only [Option.toList_some]
  rw [rank_append _ _ (by simp [hlen])]
  simp

-- ================================================================== unranking

theorem unrank_rank {lens v : List Nat} (h : List.Forall₂ (· < ·) v lens) :
    unrank lens (rank lens v) = v := by
  induction h with
  | nil => rfl
  | @cons i l v ls _ hv ih =>
    obtain ⟨hdiv, hmod⟩ := mul_add_div_mod (a := i) (rank_lt hv)
    rw [rank_cons, unrank_cons, hdiv, hmod, ih]

theorem rank_unrank {lens : List Nat} {r : Nat} (hr : r < lens.prod) :
    rank lens (unrank lens r) = r := by
  induction lens generalizing r with
  | nil => simp_all
  | cons l ls ih =>
    have hP : 0 < ls.prod := Nat.pos_of_ne_zero fun h => by simp_all
    rw [unrank_cons, rank_cons, ih (Nat.mod_lt _ hP), Nat.div_add_mod']

theorem unrank_forall₂ {lens : List Nat} {r : Nat} (hr : r < lens.prod) :
    List.Forall₂ (· < ·) (unrank lens r) lens := by
  induction lens generalizing r with
  | nil => exact .nil
  | cons l ls ih =>
    have hP : 0 < ls.prod := Nat.pos_of_ne_zero fun h => by simp_all
    rw [unrank_cons]
    refine .cons ?_ (ih (Nat.mod_lt _ hP))
    rw [Nat.div_lt_iff_lt_mul hP]
    simpa using hr

/-- The first `k` cursors of the vector of rank `r` are the vector of rank `r / S k`. -/
theorem take_unrank (lens : List Nat) (r k : Nat) :
    (unrank lens r).take k = unrank (lens.take k) (r / (lens.drop k).prod) := by
  induction lens generalizing r k with
  | nil => simp [unrank]
  | cons l ls ih =>
    cases k with
    | zero => simp [unrank]
    | succ k =>
      have hP := List.prod_take_mul_prod_drop ls k
      simp only [unrank_cons, List.take_succ_cons, List.drop_succ_cons,
        ih, Nat.div_div_eq_div_mul]
      rw [← hP, Nat.mul_comm, Nat.mod_mul_right_div_self]

/-- The product enumerated in order is `unrank` over `[0, Π lens)`. -/
theorem indexVectors_eq_map_unrank (lens : List Nat) :
    indexVectors lens = (List.range lens.prod).map (unrank lens) := by
  induction lens with
  | nil => rfl
  | cons l ls ih =>
    simp only [indexVectors, ih, List.prod_cons, List.map_map]
    induction l with
    | zero => simp
    | succ m ihm =>
      rw [List.range_succ, List.flatMap_append, ihm, Nat.succ_mul, List.range_add,
        List.map_append, List.flatMap_singleton, List.map_map]
      congr 1
      refine List.map_congr_left fun k hk => ?_
      obtain ⟨hdiv, hmod⟩ := mul_add_div_mod (a := m) (List.mem_range.1 hk)
      simp [unrank_cons, Nat.mul_comm ls.prod m, hdiv, hmod]

-- ===================================================================== carry

theorem forall₂_replicate_zero {lens v : List Nat} (h : List.Forall₂ (· < ·) v lens) :
    List.Forall₂ (· < ·) (List.replicate lens.length 0) lens := by
  induction h with
  | nil => exact .nil
  | cons hi _ ih => exact .cons (by omega) ih

/-- One more cursor divides the quotient by one more length: `S j = lens[j] · S (j+1)`
and the quotient by `S (j+1)` gains digit `v[j]`. -/
theorem rank_div_prod_drop_succ {lens v : List Nat} (h : List.Forall₂ (· < ·) v lens)
    {j : Nat} (hj : j < lens.length) (hjv : j < v.length) :
    (lens.drop j).prod = lens[j] * (lens.drop (j + 1)).prod ∧
      rank lens v / (lens.drop (j + 1)).prod =
        rank lens v / (lens.drop j).prod * lens[j] + v[j] := by
  refine ⟨by rw [List.drop_eq_getElem_cons hj, List.prod_cons], ?_⟩
  rw [rank_div_prod_drop h, rank_div_prod_drop h, rank_take_succ h.length_eq hj]

/-- A carry that stops at `bi` leaves the rank's next multiple of `S (bi+1)`, in range. -/
theorem resetAfter_set_spec {lens v : List Nat} (h : List.Forall₂ (· < ·) v lens) {bi : Nat}
    (hbi : bi < lens.length) (hlt : v.getD bi 0 + 1 < lens.getD bi 0) :
    List.Forall₂ (· < ·) (resetAfter (v.set bi (v.getD bi 0 + 1)) (bi + 1)) lens ∧
      rank lens (resetAfter (v.set bi (v.getD bi 0 + 1)) (bi + 1)) =
        (rank lens v / (lens.drop (bi + 1)).prod + 1) * (lens.drop (bi + 1)).prod := by
  have hlen := h.length_eq
  have hbv : bi < v.length := hlen ▸ hbi
  simp only [List.getD_eq_getElem _ _ hbv, List.getD_eq_getElem _ _ hbi] at hlt ⊢
  set w := v.set bi (v[bi] + 1)
  have hwlen : w.length = lens.length := by simp [w, hlen]
  have htake : w.take (bi + 1) = v.take bi ++ [v[bi] + 1] := by
    rw [List.take_succ, List.getElem?_eq_getElem (by simpa [w] using hbv)]
    simp [w, List.set_take, List.set_eq_of_length_le]
  have hreset : resetAfter w (bi + 1) = w.take (bi + 1) ++
      List.replicate (lens.drop (bi + 1)).length 0 := by
    simp [resetAfter, hwlen]
  have hsplit := List.take_append_drop (bi + 1) lens
  rw [List.take_succ, List.getElem?_eq_getElem hbi, Option.toList_some] at hsplit
  rw [hreset, htake]
  constructor
  · have hrel : List.Forall₂ (· < ·)
        (v.take bi ++ [v[bi] + 1] ++ List.replicate (lens.drop (bi + 1)).length 0)
        (lens.take bi ++ [lens[bi]] ++ lens.drop (bi + 1)) :=
      List.rel_append (List.rel_append (List.forall₂_take bi h) (.cons hlt .nil))
        (forall₂_replicate_zero (List.forall₂_drop (bi + 1) h))
    rwa [hsplit] at hrel
  · have hr := @rank_append (lens.take (bi + 1)) (v.take bi ++ [v[bi] + 1]) (lens.drop (bi + 1))
      (List.replicate (lens.drop (bi + 1)).length 0) (by simp; omega)
    rw [List.take_append_drop, rank_replicate_zero] at hr
    rw [hr, (rank_div_prod_drop_succ h hbi hbv).2, rank_div_prod_drop h, List.take_succ,
      List.getElem?_eq_getElem hbi, Option.toList_some, rank_append _ _ (by simp; omega)]
    simp [Nat.add_assoc]

/-- A carry that moves left past a full cursor `b+1` keeps the target: the next multiple
of `S (b+2)` is the next multiple of `S (b+1)`. -/
theorem next_multiple_carry_left {lens v : List Nat} (h : List.Forall₂ (· < ·) v lens)
    {b : Nat} (hb : b + 1 < lens.length) (hfull : ¬v.getD (b + 1) 0 + 1 < lens.getD (b + 1) 0) :
    (rank lens v / (lens.drop (b + 2)).prod + 1) * (lens.drop (b + 2)).prod =
      (rank lens v / (lens.drop (b + 1)).prod + 1) * (lens.drop (b + 1)).prod := by
  have hbv : b + 1 < v.length := h.length_eq ▸ hb
  have hlt : v[b + 1] < lens[b + 1] := (List.forall₂_iff_get.1 h).2 _ hbv hb
  rw [List.getD_eq_getElem _ _ hbv, List.getD_eq_getElem _ _ hb] at hfull
  obtain ⟨hS, hq⟩ := rank_div_prod_drop_succ h hb hbv
  have hL : lens[b + 1] = v[b + 1] + 1 := by omega
  rw [hq, hS, hL]
  ring

/-- The last candidate of the first cursor: its prefix quotient is `lens[0] - 1`. -/
theorem next_multiple_first {lens v : List Nat} (h : List.Forall₂ (· < ·) v lens)
    (h0 : 0 < lens.length) (hfull : ¬v.getD 0 0 + 1 < lens.getD 0 0) :
    (rank lens v / (lens.drop 1).prod + 1) * (lens.drop 1).prod = lens.prod := by
  have hv0 : 0 < v.length := h.length_eq ▸ h0
  have hlt : v[0] < lens[0] := (List.forall₂_iff_get.1 h).2 _ hv0 h0
  rw [List.getD_eq_getElem _ _ hv0, List.getD_eq_getElem _ _ h0] at hfull
  obtain ⟨hS, hq⟩ := rank_div_prod_drop_succ h h0 hv0
  rw [List.drop_zero] at hS hq
  rw [hq, Nat.div_eq_of_lt (rank_lt h), hS]
  have hL : lens[0] = v[0] + 1 := by omega
  rw [hL]
  ring

/-- A carry from `bi` that stops leaves in-range cursors at the next multiple of
`S (bi+1)`. -/
theorem carry_some {lens v v' : List Nat} (h : List.Forall₂ (· < ·) v lens) {bi b : Nat}
    (hbi : bi < lens.length) (hc : carry lens v bi = some (b, v')) :
    List.Forall₂ (· < ·) (resetAfter v' (b + 1)) lens ∧
      rank lens (resetAfter v' (b + 1)) =
        (rank lens v / (lens.drop (bi + 1)).prod + 1) * (lens.drop (bi + 1)).prod := by
  induction bi with
  | zero =>
    unfold carry at hc
    split at hc
    · cases hc
      exact resetAfter_set_spec h hbi ‹_›
    · cases hc
  | succ c ih =>
    unfold carry at hc
    split at hc
    · cases hc
      exact resetAfter_set_spec h hbi ‹_›
    · rw [next_multiple_carry_left h hbi ‹_›]
      exact ih (by omega) hc

/-- A carry from `bi` runs past the first RPC exactly when the next multiple of
`S (bi+1)` is the whole product. -/
theorem carry_none {lens v : List Nat} (h : List.Forall₂ (· < ·) v lens) {bi : Nat}
    (hbi : bi < lens.length) (hc : carry lens v bi = none) :
    (rank lens v / (lens.drop (bi + 1)).prod + 1) * (lens.drop (bi + 1)).prod = lens.prod := by
  induction bi with
  | zero =>
    unfold carry at hc
    split at hc
    · cases hc
    · exact next_multiple_first h hbi ‹_›
  | succ c ih =>
    unfold carry at hc
    split at hc
    · cases hc
    · rw [next_multiple_carry_left h hbi ‹_›]
      exact ih (by omega) hc

theorem prod_drop_pos {lens v : List Nat} (h : List.Forall₂ (· < ·) v lens) (k : Nat) :
    0 < (lens.drop k).prod :=
  Nat.lt_of_le_of_lt (Nat.zero_le _) (rank_lt (List.forall₂_drop k h))

theorem lt_next_multiple (r : Nat) {S : Nat} (hS : 0 < S) : r < (r / S + 1) * S := by
  rw [Nat.succ_mul]
  exact Nat.lt_div_mul_add hS

/-- The next multiple of `S (bi+1)` never passes the product. -/
theorem next_multiple_le_prod {lens v : List Nat} (h : List.Forall₂ (· < ·) v lens) {bi : Nat}
    (hbi : bi < lens.length) :
    (rank lens v / (lens.drop (bi + 1)).prod + 1) * (lens.drop (bi + 1)).prod ≤ lens.prod := by
  cases hc : carry lens v bi with
  | none => exact (carry_none h hbi hc).le
  | some p =>
    obtain ⟨hbox, hr⟩ := carry_some h hbi hc
    rw [← hr]
    exact (rank_lt hbox).le

-- ========================================================= lexicographic order

theorem lex_cons_iff {a b : Nat} {as bs : List Nat} :
    List.Lex (· < ·) (a :: as) (b :: bs) ↔ a < b ∨ a = b ∧ List.Lex (· < ·) as bs := by
  constructor
  · intro h
    cases h with
    | cons h => exact .inr ⟨rfl, h⟩
    | rel hab => exact .inl hab
  · rintro (hab | ⟨rfl, h⟩)
    · exact .rel hab
    · exact .cons h

theorem mul_add_lt_mul_add_iff {i j P a b : Nat} (ha : a < P) (hb : b < P) :
    i * P + a < j * P + b ↔ i < j ∨ i = j ∧ a < b := by
  have key : ∀ {x y : Nat}, x < y → x * P + P ≤ y * P := fun hxy => by
    simpa [Nat.succ_mul] using Nat.mul_le_mul_right P (Nat.succ_le_of_lt hxy)
  constructor
  · intro h
    rcases Nat.lt_trichotomy i j with hij | rfl | hij
    · exact .inl hij
    · exact .inr ⟨rfl, by omega⟩
    · have := key hij
      omega
  · rintro (hij | ⟨rfl, hab⟩)
    · have := key hij
      omega
    · omega

/-- On in-range vectors the lexicographic order is the order of ranks. -/
theorem lex_iff_rank_lt {lens v w : List Nat} (hv : List.Forall₂ (· < ·) v lens)
    (hw : List.Forall₂ (· < ·) w lens) : List.Lex (· < ·) v w ↔ rank lens v < rank lens w := by
  induction hv generalizing w with
  | nil =>
    cases hw
    exact ⟨fun h => (by cases h), fun h => (by simp at h)⟩
  | @cons i l v ls _ hv ih =>
    cases hw with
    | cons _ hw' =>
      rw [lex_cons_iff, rank_cons, rank_cons,
        mul_add_lt_mul_add_iff (rank_lt hv) (rank_lt hw'), ih hw']

end ReaLHF.Profiler
