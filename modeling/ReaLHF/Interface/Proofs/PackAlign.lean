/-
The two packings of PPO line up: what `generate` packs is what `train_step` reads.

# Result

`generate_trainStep_aligned`: for every batch on which `generate` returns, with the
generation's log-probs (and logits mask) at least as wide as its tokens, `train_step`'s
shift succeeds and, for every sequence `i` and every offset `j < len_i - 1`, the shifted
loss mask at `short1cu_seqlens[i] + j` is set exactly from `j = p_i - 1` on, where the
packed log-probs hold the generation's log-prob of the token at `cu_seqlens[i] + j + 1` and
the packed logits mask its row; before that the log-prob is `0` and the mask row all true.

# Proof plan

`generate_spec` reads the output off the model and `blocks_spec` describes the blocks the
packing loop appends. `generate_layout` assembles them into one block per sequence for each
packed array. Its only non-local fact is that every prompt slice is whole: the assertion on
the packed lengths gives equal sums, and a slice is never longer than its prompt
(`map_eq_of_le_of_sum_eq`). One lemma per packed array (`generate_promptMask_getElem?` and
its siblings) then reads entry `j` of sequence `i`: one `getElem?_flatten_range` into the
block of sequence `i`, and one `getElem?_replicate_append` inside it. The theorem sets these
beside what `train_step`'s shift reads (`trainStepShift_cuSeqlensOf`).
-/
import ReaLHF.Lists
import ReaLHF.Interface.Ppo

namespace ReaLHF.Interface

-- ============================================================== list shapes

theorem interleave_flatten {α : Type} (xs ys : List (List α)) :
    (interleave xs ys).flatten = (List.zipWith (· ++ ·) xs ys).flatten := by
  induction xs generalizing ys with
  | nil => rfl
  | cons x xs ih => cases ys <;> simp [interleave, ← ih]

theorem interleave_map_flatten {α β : Type} (l : List β) (f g : β → List α) :
    (interleave (l.map f) (l.map g)).flatten = (l.map fun b => f b ++ g b).flatten := by
  rw [interleave_flatten, List.zipWith_map, List.zipWith_same]

theorem broadcastAdd_of_length_eq {a b : List Nat} (h : a.length = b.length) :
    broadcastAdd a b = some (List.zipWith (· + ·) a b) := by
  simp [broadcastAdd, h]

theorem getElem?_cuSeqlensOf {l : List Nat} {i : Nat} (hi : i ≤ l.length) :
    (cuSeqlensOf l)[i]? = some (l.take i).sum := by
  simpa using getElem?_scanl_sum l 0 hi

theorem length_cuSeqlensOf (l : List Nat) : (cuSeqlensOf l).length = l.length + 1 := by
  simp [cuSeqlensOf, List.length_scanl]

theorem getD_cuSeqlensOf {l : List Nat} {i : Nat} (hi : i ≤ l.length) :
    (cuSeqlensOf l).getD i 0 = (l.take i).sum := by
  simp [List.getD_eq_getElem?_getD, getElem?_cuSeqlensOf hi]

/-- Position `j` of block `i` of a flattening of blocks indexed by `range n`, whose lengths
are listed in `L`. -/
theorem getElem?_flatten_range {α : Type} {f : Nat → List α} {n i j : Nat} {L : List Nat}
    (hn : L.length = n) (hL : ∀ k < n, (f k).length = L.getD k 0) (hi : i < n)
    (hj : j < L.getD i 0) :
    ((List.range n).map f).flatten[(L.take i).sum + j]? = (f i)[j]? := by
  have hlen : (List.range n).map (fun k => (f k).length) = L := by
    conv_rhs => rw [← map_getD_range L 0, hn]
    exact List.map_congr_left fun k hk => hL k (List.mem_range.1 hk)
  have := getElem?_flatten_block (B := (List.range n).map f) (i := i) (j := j) (b := f i)
    (by simp [List.getElem?_range hi]) (hL i hi ▸ hj)
  subst hlen
  simpa [List.map_map, Function.comp_def] using this

theorem getD_map_pred (l : List Nat) (k : Nat) : (l.map (· - 1)).getD k 0 = l.getD k 0 - 1 := by
  simp only [List.getD_eq_getElem?_getD, List.getElem?_map]
  cases l[k]? <;> rfl

/-- An entry of a list behind a run of `n` copies of `a`. -/
theorem getElem?_replicate_append {α : Type} (n : Nat) (a : α) (l : List α) (j : Nat) :
    (List.replicate n a ++ l)[j]? = if n ≤ j then l[j - n]? else some a := by
  split_ifs with hn
  · rw [List.getElem?_append_right (by simpa using hn), List.length_replicate]
  · rw [List.getElem?_append_left (by simp; omega), List.getElem?_replicate, if_pos (by omega)]

/-- Two lists of length `n` zipped, as a map over their indices. -/
theorem zipWith_eq_map_range {α β γ : Type} {f : α → β → γ} {l : List α} {l' : List β}
    {n : Nat} (a : α) (b : β) (hl : l.length = n) (hl' : l'.length = n) :
    List.zipWith f l l' = (List.range n).map fun i => f (l.getD i a) (l'.getD i b) := by
  apply List.ext_getElem (by simp [hl, hl'])
  intro i h₁ h₂
  simp only [List.length_zipWith, List.length_map, List.length_range] at h₁ h₂
  simp [List.getD_eq_getElem?_getD, List.getElem?_eq_getElem (by omega : i < l.length),
    List.getElem?_eq_getElem (by omega : i < l'.length)]

/-- Entry `k` of the sum of two lists of one length. -/
theorem getD_zipWith_add {l l' : List Nat} (h : l.length = l'.length) (k : Nat) :
    (List.zipWith (· + ·) l l').getD k 0 = l.getD k 0 + l'.getD k 0 := by
  simp only [List.getD_eq_getElem?_getD, List.getElem?_zipWith]
  rcases Nat.lt_or_ge k l.length with hk | hk
  · simp [List.getElem?_eq_getElem hk, List.getElem?_eq_getElem (h ▸ hk)]
  · simp [List.getElem?_eq_none hk, List.getElem?_eq_none (h ▸ hk)]

/-- A row of a `Rows` has the common width. -/
theorem Rows.length_getD {α : Type} (r : Rows α) {i : Nat} (hi : i < r.rows.length) :
    (r.rows.getD i []).length = r.width :=
  r.rows_width _ (by simp [List.getD_eq_getElem?_getD, List.getElem?_eq_getElem hi])

/-- The first `g ≤ width` entries of a row: `g` of them, each the row's own. -/
theorem Rows.take_getD {α : Type} (r : Rows α) {i g : Nat} (hi : i < r.rows.length)
    (hg : g ≤ r.width) :
    ((r.rows.getD i []).take g).length = g ∧
      ∀ j < g, ((r.rows.getD i []).take g)[j]? = r.rows[i]?.bind (·[j]?) := by
  refine ⟨by rw [List.length_take, r.length_getD hi]; exact min_eq_left hg, fun j hj => ?_⟩
  simp [List.getElem?_take, hj, List.getD_eq_getElem?_getD, List.getElem?_eq_getElem hi]

theorem genLengths_getD_le (padTokenId eosTokenId : Int) (genTokens : Rows Int) (i : Nat) :
    (genLengths padTokenId eosTokenId genTokens).getD i 0 ≤ genTokens.width := by
  simp only [genLengths, List.getD_eq_getElem?_getD, List.getElem?_map]
  cases genTokens.rows[i]? <;> simp [genLength]

-- ============================================================ one sequence

section Generate

variable {F : Type} [Zero F]
variable {padTokenId eosTokenId : Int} {forceNoLogitsMask : Bool} {promptLengths : List Nat}
  {packedPrompts : List Int} {genTokens : Rows Int} {logprobs : Rows F}
  {logitsMask : Option LogitsMask}

/-- What one turn of the packing loop appends. -/
theorem packSeq_spec {promptCu gens : List Nat} {i : Nat} {b : SeqBlocks F}
    (h : packSeq packedPrompts promptCu promptLengths gens genTokens logprobs logitsMask i = some b) :
    ∃ p g genRow lpRow, promptLengths[i]? = some p ∧ gens[i]? = some g ∧ 1 ≤ p ∧
      genTokens.rows[i]? = some genRow ∧ logprobs.rows[i]? = some lpRow ∧
      b.prompt = (packedPrompts.drop (promptCu.getD i 0)).take
        (promptCu.getD (i + 1) 0 - promptCu.getD i 0) ∧
      b.promptLogProbs = List.replicate (p - 1) 0 ∧ b.genTokens = genRow.take g ∧
      b.genLogProbs = lpRow.take g ∧
      ∀ m, logitsMask = some m → ∃ maskRow, m.mask.rows[i]? = some maskRow ∧
        b.promptLogitsMask = some (List.replicate (p - 1) (List.replicate m.vocab true)) ∧
        b.genLogitsMask = some (maskRow.take g ++ [List.replicate m.vocab true]) := by
  simp only [packSeq, Option.bind_eq_bind, Option.none_bind, Option.some_bind,
    Option.pure_def] at h
  obtain ⟨p, hp, h⟩ := Option.bind_eq_some.1 h
  obtain ⟨g, hg, h⟩ := Option.bind_eq_some.1 h
  split_ifs at h with hp1
  obtain ⟨genRow, hgr, h⟩ := Option.bind_eq_some.1 h
  obtain ⟨lpRow, hlr, h⟩ := Option.bind_eq_some.1 h
  refine ⟨p, g, genRow, lpRow, hp, hg, by omega, hgr, hlr, ?_⟩
  cases logitsMask with
  | none =>
    obtain rfl := Option.some.inj h
    exact ⟨rfl, rfl, rfl, rfl, fun _ h => nomatch h⟩
  | some m =>
    obtain ⟨maskRow, hmr, h⟩ := Option.bind_eq_some.1 h
    obtain rfl := Option.some.inj h
    exact ⟨rfl, rfl, rfl, rfl, fun _ hm => Option.some.inj hm ▸ ⟨maskRow, hmr, rfl, rfl⟩⟩

/-- The blocks of the loop as functions of the sequence index. -/
theorem blocks_spec {promptCu gens : List Nat} {n : Nat} {blocks : List (SeqBlocks F)}
    (hblocks : (List.range n).mapM
      (packSeq packedPrompts promptCu promptLengths gens genTokens logprobs logitsMask) = some blocks) :
    blocks.map (·.prompt) = (List.range n).map (fun i =>
      (packedPrompts.drop (promptCu.getD i 0)).take (promptCu.getD (i + 1) 0 - promptCu.getD i 0)) ∧
    blocks.map (·.promptLogProbs) =
      (List.range n).map (fun i => List.replicate (promptLengths.getD i 0 - 1) (0 : F)) ∧
    blocks.map (·.genTokens) =
      (List.range n).map (fun i => (genTokens.rows.getD i []).take (gens.getD i 0)) ∧
    blocks.map (·.genLogProbs) =
      (List.range n).map (fun i => (logprobs.rows.getD i []).take (gens.getD i 0)) ∧
    (∀ i < n, 1 ≤ promptLengths.getD i 0 ∧ i < promptLengths.length ∧ i < gens.length ∧
      i < genTokens.rows.length ∧ i < logprobs.rows.length) ∧
    ∀ m, logitsMask = some m →
      blocks.filterMap (·.promptLogitsMask) = (List.range n).map (fun i =>
        List.replicate (promptLengths.getD i 0 - 1) (List.replicate m.vocab true)) ∧
      blocks.filterMap (·.genLogitsMask) = (List.range n).map (fun i =>
        (m.mask.rows.getD i []).take (gens.getD i 0) ++ [List.replicate m.vocab true]) ∧
      ∀ i < n, i < m.mask.rows.length := by
  have hF := forall₂_of_mapM_eq_some hblocks
  have getD_of {α : Type} {l : List α} {i : Nat} {a d : α} (h : l[i]? = some a) :
      l.getD i d = a := by
    simp [List.getD_eq_getElem?_getD, h]
  refine ⟨map_eq_of_forall₂ (fun i b h => ?_) hF, ?_, ?_, ?_, ?_, ?_⟩
  · obtain ⟨p, g, genRow, lpRow, -, -, -, -, -, hprompt, -⟩ := packSeq_spec h
    exact hprompt
  · refine map_eq_of_forall₂ (fun i b h => ?_) hF
    obtain ⟨p, g, genRow, lpRow, hp, -, -, -, -, -, hplp, -⟩ := packSeq_spec h
    rw [hplp, getD_of hp]
  · refine map_eq_of_forall₂ (fun i b h => ?_) hF
    obtain ⟨p, g, genRow, lpRow, -, hg, -, hgr, -, -, -, hgen, -⟩ := packSeq_spec h
    rw [hgen, getD_of hg, getD_of hgr]
  · refine map_eq_of_forall₂ (fun i b h => ?_) hF
    obtain ⟨p, g, genRow, lpRow, -, hg, -, -, hlr, -, -, -, hglp, -⟩ := packSeq_spec h
    rw [hglp, getD_of hg, getD_of hlr]
  · intro i hi
    obtain ⟨b, -, h⟩ := (mem_of_mapM_eq_some hblocks).2 i (List.mem_range.2 hi)
    obtain ⟨p, g, genRow, lpRow, hp, hg, hp1, hgr, hlr, -⟩ := packSeq_spec h
    exact ⟨getD_of hp ▸ hp1, (List.getElem?_eq_some_iff.1 hp).1, (List.getElem?_eq_some_iff.1 hg).1,
      (List.getElem?_eq_some_iff.1 hgr).1, (List.getElem?_eq_some_iff.1 hlr).1⟩
  · intro m hm
    refine ⟨filterMap_eq_of_forall₂ (fun i b h => ?_) hF,
      filterMap_eq_of_forall₂ (fun i b h => ?_) hF, fun i hi => ?_⟩
    · obtain ⟨p, g, genRow, lpRow, hp, -, -, -, -, -, -, -, -, hmask⟩ := packSeq_spec h
      obtain ⟨maskRow, -, hplm, -⟩ := hmask m hm
      rw [hplm, getD_of hp]
    · obtain ⟨p, g, genRow, lpRow, -, hg, -, -, -, -, -, -, -, hmask⟩ := packSeq_spec h
      obtain ⟨maskRow, hmr, -, hglm⟩ := hmask m hm
      rw [hglm, getD_of hg, getD_of hmr]
    · obtain ⟨b, -, h⟩ := (mem_of_mapM_eq_some hblocks).2 i (List.mem_range.2 hi)
      obtain ⟨_, _, _, _, -, -, -, -, -, -, -, -, -, hmask⟩ := packSeq_spec h
      obtain ⟨maskRow, hmr, -⟩ := hmask m hm
      exact (List.getElem?_eq_some_iff.1 hmr).1

/-- What `generate` returns, read off the model: each packed array is a flattening of one
block per sequence. -/
theorem generate_spec {out : GenerateOutput F}
    (h : generate padTokenId eosTokenId forceNoLogitsMask promptLengths packedPrompts genTokens
      logprobs logitsMask = some out) :
    ∃ blocks seqLengths,
      (List.range promptLengths.length).mapM (packSeq packedPrompts (cuSeqlensOf promptLengths)
        promptLengths (genLengths padTokenId eosTokenId genTokens) genTokens logprobs logitsMask) =
          some blocks ∧
      broadcastAdd promptLengths (genLengths padTokenId eosTokenId genTokens) = some seqLengths ∧
      out.packedSeq = (interleave (blocks.map (·.prompt)) (blocks.map (·.genTokens))).flatten ∧
      out.packedLogprobs =
        (interleave (blocks.map (·.promptLogProbs)) (blocks.map (·.genLogProbs))).flatten ∧
      out.packedSeq.length = out.packedLogprobs.length + promptLengths.length ∧
      out.cuSeqlens = cuSeqlensOf seqLengths ∧
      (∀ rows, out.packedLogitsMask = some rows →
        rows = (interleave (blocks.filterMap (·.promptLogitsMask))
          (blocks.filterMap (·.genLogitsMask))).flatten) ∧
      out.promptMask = (List.zipWith (fun p g => List.replicate p true ++ List.replicate g false)
        promptLengths (genLengths padTokenId eosTokenId genTokens)).flatten := by
  simp only [generate, Option.bind_eq_bind, Option.none_bind, Option.some_bind,
    Option.pure_def] at h
  split_ifs at h with hw
  obtain ⟨blocks, hblocks, h⟩ := Option.bind_eq_some.1 h
  obtain ⟨seqLengths, hseq, h⟩ := Option.bind_eq_some.1 h
  split at h
  · exact absurd h (by simp)
  rename_i hassert
  obtain rfl := Option.some.inj h
  refine ⟨blocks, seqLengths, hblocks, hseq, rfl, rfl, not_not.1 hassert, rfl, ?_, ?_⟩
  · intro rows hrows
    split at hrows
    · exact (Option.some.inj hrows).symm
    · exact absurd hrows (by simp)
  · show (interleave _ _).flatten = _
    rw [interleave_flatten, List.zipWith_map]

/-- `generate`'s outputs, one block per sequence: the prompt, whole (the packed-length
assertion leaves no room for a short slice), then the kept generated tokens; the log-probs
and the logits mask, one entry shorter in front; the prompt mask; and `cu_seqlens` over the
sequence lengths. -/
theorem generate_layout {out : GenerateOutput F}
    (hbs : genTokens.rows.length = promptLengths.length) (hlp : genTokens.width ≤ logprobs.width)
    (hout : generate padTokenId eosTokenId forceNoLogitsMask promptLengths packedPrompts genTokens
      logprobs logitsMask = some out) :
    ∃ slice : Nat → List Int,
      (∀ i < promptLengths.length, 1 ≤ promptLengths.getD i 0 ∧
        (slice i).length = promptLengths.getD i 0 ∧ i < logprobs.rows.length) ∧
      out.packedSeq = ((List.range promptLengths.length).map fun i => slice i ++
        (genTokens.rows.getD i []).take ((genLengths padTokenId eosTokenId genTokens).getD i 0)).flatten ∧
      out.packedLogprobs = ((List.range promptLengths.length).map fun i =>
        List.replicate (promptLengths.getD i 0 - 1) 0 ++
          (logprobs.rows.getD i []).take ((genLengths padTokenId eosTokenId genTokens).getD i 0)).flatten ∧
      out.promptMask = ((List.range promptLengths.length).map fun i =>
        List.replicate (promptLengths.getD i 0) true ++
          List.replicate ((genLengths padTokenId eosTokenId genTokens).getD i 0) false).flatten ∧
      out.cuSeqlens =
        cuSeqlensOf (List.zipWith (· + ·) promptLengths (genLengths padTokenId eosTokenId genTokens)) ∧
      ∀ m ∈ logitsMask, (∀ i < promptLengths.length, i < m.mask.rows.length) ∧
        ∀ rows ∈ out.packedLogitsMask, rows = ((List.range promptLengths.length).map fun i =>
          List.replicate (promptLengths.getD i 0 - 1) (List.replicate m.vocab true) ++
            ((m.mask.rows.getD i []).take ((genLengths padTokenId eosTokenId genTokens).getD i 0) ++
              [List.replicate m.vocab true])).flatten := by
  obtain ⟨blocks, seqLengths, hblocks, hseq, hpacked, hlogp, hassert, hcu, hlm, hpm⟩ :=
    generate_spec hout
  obtain ⟨hPrompt, hPLP, hGen, hGLP, hIdx, hMask⟩ := blocks_spec hblocks
  set bs := promptLengths.length
  set gens := genLengths padTokenId eosTokenId genTokens with hgens
  set cuP := cuSeqlensOf promptLengths
  have hgl : gens.length = bs := by simp [hgens, genLengths, hbs]
  set slice := fun i => (packedPrompts.drop (cuP.getD i 0)).take (cuP.getD (i + 1) 0 - cuP.getD i 0)
  set genTake := fun i => (genTokens.rows.getD i []).take (gens.getD i 0)
  set lpTake := fun i => (logprobs.rows.getD i []).take (gens.getD i 0)
  have hgenLen : ∀ i < bs, (genTake i).length = gens.getD i 0 := fun i hi =>
    (genTokens.take_getD (hbs ▸ hi) (genLengths_getD_le ..)).1
  have hlpLen : ∀ i < bs, (lpTake i).length = gens.getD i 0 := fun i hi =>
    (logprobs.take_getD (hIdx i hi).2.2.2.2 ((genLengths_getD_le ..).trans hlp)).1
  have hseqBlocks : out.packedSeq = ((List.range bs).map fun i => slice i ++ genTake i).flatten := by
    rw [hpacked, hPrompt, hGen, interleave_map_flatten]
  have hlpBlocks : out.packedLogprobs = ((List.range bs).map fun i =>
      List.replicate (promptLengths.getD i 0 - 1) (0 : F) ++ lpTake i).flatten := by
    rw [hlogp, hPLP, hGLP, interleave_map_flatten]
  -- every prompt slice is whole: the packed lengths agree and no slice is too long
  have hslice : ∀ i < bs, (slice i).length = promptLengths.getD i 0 := by
    have hle : ∀ i ∈ List.range bs, (slice i).length ≤ promptLengths.getD i 0 := by
      intro i hi
      have hi := List.mem_range.1 hi
      rw [List.length_take, getD_cuSeqlensOf hi.le, getD_cuSeqlensOf hi, List.sum_take_succ _ _ hi,
        List.getD_eq_getElem?_getD, List.getElem?_eq_getElem hi, Option.getD_some]
      omega
    have hsum := hassert
    rw [hseqBlocks, hlpBlocks, List.length_flatten, List.length_flatten, List.map_map,
      List.map_map] at hsum
    have e1 : (List.range bs).map (List.length ∘ fun i => slice i ++ genTake i) =
        (List.range bs).map fun i => (slice i).length + gens.getD i 0 :=
      List.map_congr_left fun i hi => by simp [hgenLen i (List.mem_range.1 hi)]
    have e2 : (List.range bs).map
        (List.length ∘ fun i => List.replicate (promptLengths.getD i 0 - 1) (0 : F) ++ lpTake i) =
        (List.range bs).map fun i => promptLengths.getD i 0 - 1 + gens.getD i 0 :=
      List.map_congr_left fun i hi => by
        rw [Function.comp_apply, List.length_append, List.length_replicate,
          hlpLen i (List.mem_range.1 hi)]
    have e3 : ((List.range bs).map fun i => promptLengths.getD i 0 - 1 + gens.getD i 0).sum + bs =
        ((List.range bs).map fun i => promptLengths.getD i 0).sum +
          ((List.range bs).map fun i => gens.getD i 0).sum := by
      rw [← List.sum_map_add]
      simpa only [List.length_range] using sum_map_sub_one_add (l := List.range bs)
        (g := (promptLengths.getD · 0)) (h := (gens.getD · 0))
        fun i hi => (hIdx i (List.mem_range.1 hi)).1
    rw [e1, List.sum_map_add, e2] at hsum
    have heq := map_eq_of_le_of_sum_eq hle (by omega)
    exact fun i hi => (List.map_inj_left.1 heq) i (List.mem_range.2 hi)
  have hseqLengths : List.zipWith (· + ·) promptLengths gens = seqLengths :=
    Option.some.inj ((broadcastAdd_of_length_eq hgl.symm).symm.trans hseq)
  refine ⟨slice, fun i hi => ⟨(hIdx i hi).1, hslice i hi, (hIdx i hi).2.2.2.2⟩, hseqBlocks,
    hlpBlocks, by rw [hpm, zipWith_eq_map_range 0 0 rfl hgl], by rw [hcu, hseqLengths],
    fun m hm => ⟨(hMask m hm).2.2, fun rows hrows => ?_⟩⟩
  rw [hlm rows hrows, (hMask m hm).1, (hMask m hm).2.1, interleave_map_flatten]

-- ===================================================== one entry of each array

section Entries

variable {out : GenerateOutput F}
  (hbs : genTokens.rows.length = promptLengths.length) (hlp : genTokens.width ≤ logprobs.width)
  (hout : generate padTokenId eosTokenId forceNoLogitsMask promptLengths packedPrompts genTokens
    logprobs logitsMask = some out)
include hbs

theorem length_genLengths :
    (genLengths padTokenId eosTokenId genTokens).length = promptLengths.length := by
  simp [genLengths, hbs]

theorem length_seqLengths :
    (List.zipWith (· + ·) promptLengths (genLengths padTokenId eosTokenId genTokens)).length =
      promptLengths.length := by
  simp [length_genLengths hbs]

/-- Sequence `k` is its prompt and its kept generated tokens. -/
theorem getD_seqLengths (k : Nat) :
    (List.zipWith (· + ·) promptLengths (genLengths padTokenId eosTokenId genTokens)).getD k 0 =
      promptLengths.getD k 0 + (genLengths padTokenId eosTokenId genTokens).getD k 0 :=
  getD_zipWith_add (length_genLengths hbs).symm k

include hlp hout

theorem generate_promptMask_length :
    out.promptMask.length =
      (List.zipWith (· + ·) promptLengths (genLengths padTokenId eosTokenId genTokens)).sum := by
  obtain ⟨-, -, -, -, hpm, -, -⟩ := generate_layout hbs hlp hout
  rw [hpm, List.length_flatten, List.map_map]
  conv_rhs => rw [← map_getD_range (List.zipWith _ _ _) 0, length_seqLengths hbs]
  exact congrArg List.sum (List.map_congr_left fun k _ => by
    rw [getD_seqLengths hbs]
    simp)

/-- Before sequence `i`, the log-probs hold one entry fewer per sequence than the tokens. -/
theorem generate_sum_take_pred {i : Nat} (hi : i ≤ promptLengths.length) :
    (((List.zipWith (· + ·) promptLengths (genLengths padTokenId eosTokenId genTokens)).take i).map
      (· - 1)).sum + i =
      ((List.zipWith (· + ·) promptLengths (genLengths padTokenId eosTokenId genTokens)).take i).sum := by
  obtain ⟨_, hIdx, -⟩ := generate_layout hbs hlp hout
  have hlen : (List.zipWith (· + ·) promptLengths
      (genLengths padTokenId eosTokenId genTokens)).length = promptLengths.length :=
    length_seqLengths hbs
  have := sum_map_sub_one_add (g := id) (h := fun _ => 0) (l := (List.zipWith (· + ·)
      promptLengths (genLengths padTokenId eosTokenId genTokens)).take i) fun x hx => by
    obtain ⟨k, hk, rfl⟩ := List.getElem_of_mem (List.mem_of_mem_take hx)
    rw [← List.getD_eq_getElem _ 0, getD_seqLengths hbs]
    exact le_add_right (hIdx k (hlen ▸ hk)).1
  simpa [List.length_take_of_le (hlen ▸ hi)] using this

/-- Entry `j` of sequence `i` of the prompt mask: set on the prompt. -/
theorem generate_promptMask_getElem? {i j : Nat} (hi : i < promptLengths.length)
    (hj : j < promptLengths.getD i 0 + (genLengths padTokenId eosTokenId genTokens).getD i 0) :
    out.promptMask[((List.zipWith (· + ·) promptLengths
      (genLengths padTokenId eosTokenId genTokens)).take i).sum + j]? =
        some (decide (j < promptLengths.getD i 0)) := by
  obtain ⟨-, -, -, -, hpm, -, -⟩ := generate_layout hbs hlp hout
  rw [hpm, getElem?_flatten_range (length_seqLengths hbs)
    (fun k _ => by rw [getD_seqLengths hbs]; simp) hi (by rwa [getD_seqLengths hbs]),
    getElem?_replicate_append]
  by_cases hp : promptLengths.getD i 0 ≤ j
  · rw [if_pos hp, List.getElem?_replicate, if_pos (by omega), decide_eq_false (by omega)]
  · rw [if_neg hp, decide_eq_true (by omega)]

/-- Entry `j` of sequence `i` of the packed log-probs: `0` over the prompt but its first
token, then the generation's log-probs. -/
theorem generate_packedLogprobs_getElem? {i j : Nat} (hi : i < promptLengths.length)
    (hj : j + 1 < promptLengths.getD i 0 + (genLengths padTokenId eosTokenId genTokens).getD i 0) :
    out.packedLogprobs[(((List.zipWith (· + ·) promptLengths
      (genLengths padTokenId eosTokenId genTokens)).take i).map (· - 1)).sum + j]? =
      if promptLengths.getD i 0 - 1 ≤ j then
        logprobs.rows[i]?.bind (·[j - (promptLengths.getD i 0 - 1)]?)
      else some 0 := by
  obtain ⟨_, hIdx, -, hlogp, -, -, -⟩ := generate_layout hbs hlp hout
  have hgL := fun k => (genLengths_getD_le padTokenId eosTokenId genTokens k).trans hlp
  obtain ⟨hlt, hlAt⟩ := logprobs.take_getD (hIdx i hi).2.2 (hgL i)
  rw [hlogp, List.map_take, getElem?_flatten_range (by rw [List.length_map, length_seqLengths hbs])
      (fun k hk => ?len) hi (by rw [getD_map_pred, getD_seqLengths hbs]; omega),
    getElem?_replicate_append]
  case len =>
    have := (hIdx k hk).1
    rw [getD_map_pred, getD_seqLengths hbs, List.length_append, List.length_replicate,
      (logprobs.take_getD (hIdx k hk).2.2 (hgL k)).1]
    omega
  split_ifs
  · exact hlAt _ (by omega)
  · rfl

/-- Entry `j + 1` of sequence `i` of the packed tokens, past the prompt: the generation's
token `j - (p_i - 1)`. -/
theorem generate_packedSeq_getElem? {i j : Nat} (hi : i < promptLengths.length)
    (hj : j + 1 < promptLengths.getD i 0 + (genLengths padTokenId eosTokenId genTokens).getD i 0)
    (hpj : promptLengths.getD i 0 - 1 ≤ j) :
    out.packedSeq[((List.zipWith (· + ·) promptLengths
      (genLengths padTokenId eosTokenId genTokens)).take i).sum + j + 1]? =
        genTokens.rows[i]?.bind (·[j - (promptLengths.getD i 0 - 1)]?) := by
  obtain ⟨slice, hIdx, hseq, -, -, -, -⟩ := generate_layout hbs hlp hout
  have hgG := genLengths_getD_le padTokenId eosTokenId genTokens
  obtain ⟨hpi, hsl, -⟩ := hIdx i hi
  rw [hseq, Nat.add_assoc, getElem?_flatten_range (length_seqLengths hbs) (fun k hk => ?len) hi
      (by rw [getD_seqLengths hbs]; omega),
    List.getElem?_append_right (by omega), hsl,
    (genTokens.take_getD (hbs ▸ hi) (hgG i)).2 _ (by omega),
    show j + 1 - promptLengths.getD i 0 = j - (promptLengths.getD i 0 - 1) by omega]
  case len =>
    rw [getD_seqLengths hbs, List.length_append, (hIdx k hk).2.1,
      (genTokens.take_getD (hbs ▸ hk) (hgG k)).1]

/-- Entry `j` of sequence `i` of a packed logits mask: all true over the prompt but its first
token, then the generation's mask rows. -/
theorem generate_packedLogitsMask_getElem?
    (hmask : ∀ m ∈ logitsMask, genTokens.width ≤ m.mask.width) {m : LogitsMask}
    (hm : m ∈ logitsMask) {rows : List (List Bool)} (hrows : rows ∈ out.packedLogitsMask)
    {i j : Nat} (hi : i < promptLengths.length)
    (hj : j + 1 < promptLengths.getD i 0 + (genLengths padTokenId eosTokenId genTokens).getD i 0) :
    rows[((List.zipWith (· + ·) promptLengths
      (genLengths padTokenId eosTokenId genTokens)).take i).sum + j]? =
      if promptLengths.getD i 0 - 1 ≤ j then
        m.mask.rows[i]?.bind (·[j - (promptLengths.getD i 0 - 1)]?)
      else some (List.replicate m.vocab true) := by
  obtain ⟨_, hIdx, -, -, -, -, hmaskOut⟩ := generate_layout hbs hlp hout
  obtain ⟨hmRows, hmOut⟩ := hmaskOut m hm
  have hgm := fun k => (genLengths_getD_le padTokenId eosTokenId genTokens k).trans (hmask m hm)
  obtain ⟨hmt, hmAt⟩ := m.mask.take_getD (hmRows i hi) (hgm i)
  rw [hmOut rows hrows, getElem?_flatten_range (length_seqLengths hbs) (fun k hk => ?len) hi
      (by rw [getD_seqLengths hbs]; omega), getElem?_replicate_append]
  case len =>
    have := (hIdx k hk).1
    rw [getD_seqLengths hbs, List.length_append, List.length_replicate, List.length_append,
      (m.mask.take_getD (hmRows k hk) (hgm k)).1, List.length_singleton]
    omega
  split_ifs
  · rw [List.getElem?_append_left (by omega), hmAt _ (by omega)]
  · rfl

end Entries

end Generate

-- ================================================================ the shift

/-- `train_step`'s shift over the `cu_seqlens` of lengths `lens`: it succeeds on a prompt
mask of the total length, `short1cu_seqlens[i]` is `cu_seqlens[i] - i`, and the shifted
mask lists each sequence's entries but its first. -/
theorem trainStepShift_cuSeqlensOf (lens : List Nat) (promptMask : List Bool)
    (hlen : promptMask.length = lens.sum) :
    ∃ short1cu shifted, trainStepShift (cuSeqlensOf lens) promptMask = some (short1cu, shifted) ∧
      ∀ i < lens.length,
        short1cu[i]? = some (((lens.take i).sum : Int) - i) ∧
        ∀ j, j + 1 < lens.getD i 0 →
          shifted[((lens.take i).map (· - 1)).sum + j]? =
            promptMask[(lens.take i).sum + (j + 1)]?.map (!·) := by
  have hblock : ∀ k < lens.length,
      (cuSeqlensOf lens).getD (k + 1) 0 - ((cuSeqlensOf lens).getD k 0 + 1) = lens.getD k 0 - 1 := by
    intro k hk
    rw [getD_cuSeqlensOf (by omega), getD_cuSeqlensOf (by omega), List.sum_take_succ _ _ hk,
      List.getD_eq_getElem?_getD, List.getElem?_eq_getElem hk]
    simp only [Option.getD_some]
    omega
  set indices := (List.range lens.length).map fun k =>
    List.range' ((lens.take k).sum + 1) (lens.getD k 0 - 1) with hindices
  have hshift : ((List.range ((cuSeqlensOf lens).length - 1)).flatMap fun k =>
      List.range' ((cuSeqlensOf lens).getD k 0 + 1)
        ((cuSeqlensOf lens).getD (k + 1) 0 - ((cuSeqlensOf lens).getD k 0 + 1))) = indices.flatten := by
    rw [length_cuSeqlensOf, Nat.add_sub_cancel, List.flatMap_def, hindices]
    congr 1
    refine List.map_congr_left fun k hk => ?_
    rw [hblock k (List.mem_range.1 hk), getD_cuSeqlensOf (List.mem_range.1 hk).le]
  have hvalid : ∀ idx ∈ indices.flatten, ∃ b, (promptMask.map (!·))[idx]? = some b := by
    intro idx hidx
    obtain ⟨block, hblock', hmem⟩ := List.mem_flatten.1 hidx
    obtain ⟨k, hk, rfl⟩ := List.mem_map.1 hblock'
    obtain ⟨t, ht, rfl⟩ := List.mem_range'.1 hmem
    have hk' := List.mem_range.1 hk
    have htot := List.sum_take_add_sum_drop lens (k + 1)
    have hdrop : 0 ≤ (lens.drop (k + 1)).sum := Nat.zero_le _
    rw [List.sum_take_succ _ _ hk'] at htot
    have : lens.getD k 0 = lens[k] := by simp [List.getD_eq_getElem?_getD, hk']
    exact ⟨_, List.getElem?_eq_getElem (by simp; omega)⟩
  obtain ⟨shifted, hshifted⟩ := exists_mapM_eq_some hvalid
  refine ⟨(cuSeqlensOf lens).enum.map fun p => (p.2 : Int) - p.1, shifted, ?_,
    fun i hi => ⟨?_, fun j hj => ?_⟩⟩
  · simp only [trainStepShift, hshift, hshifted, Option.bind_eq_bind, Option.some_bind,
      Option.pure_def]
  · simp [List.getElem?_enum, getElem?_cuSeqlensOf hi.le]
  · rw [getElem?_of_mapM_eq_some hshifted, List.map_take, hindices,
      getElem?_flatten_range (L := lens.map (· - 1)) (by simp) (fun k _ => by rw [getD_map_pred, List.length_range'])
        hi (by rw [getD_map_pred]; omega), List.getElem?_range' _ _ (by omega)]
    simp only [Option.some_bind, List.getElem?_map]
    congr 2
    omega

-- ============================================================ the alignment

section Aligned

variable {F : Type} [Zero F]

theorem generate_trainStep_aligned (padTokenId eosTokenId : Int) (forceNoLogitsMask : Bool)
    (promptLengths : List Nat) (packedPrompts : List Int) (genTokens : Rows Int)
    (logprobs : Rows F) (logitsMask : Option LogitsMask) (out : GenerateOutput F)
    (hbs : genTokens.rows.length = promptLengths.length)
    (hlp : genTokens.width ≤ logprobs.width)
    (hmask : ∀ m ∈ logitsMask, genTokens.width ≤ m.mask.width)
    (hout : generate padTokenId eosTokenId forceNoLogitsMask promptLengths packedPrompts genTokens
      logprobs logitsMask = some out) :
    ∃ short1cuSeqlens lossMask,
      trainStepShift out.cuSeqlens out.promptMask = some (short1cuSeqlens, lossMask) ∧
      ∀ i < promptLengths.length, ∀ j,
        let lens : List Nat :=
          List.zipWith (· + ·) promptLengths (genLengths padTokenId eosTokenId genTokens)
        let p : Nat := promptLengths.getD i 0
        let cu : Nat := (lens.take i).sum
        let start : Nat := ((lens.take i).map (· - 1)).sum
        j + 1 < lens.getD i 0 →
          out.cuSeqlens[i]? = some cu ∧
          short1cuSeqlens[i]? = some (start : Int) ∧
          lossMask[start + j]? = some (decide (p - 1 ≤ j)) ∧
          out.packedLogprobs[start + j]? =
            (if p - 1 ≤ j then logprobs.rows[i]?.bind (·[j - (p - 1)]?) else some 0) ∧
          (p - 1 ≤ j → out.packedSeq[cu + j + 1]? = genTokens.rows[i]?.bind (·[j - (p - 1)]?)) ∧
          ∀ m ∈ logitsMask, ∀ rows ∈ out.packedLogitsMask,
            rows[cu + j]? = if p - 1 ≤ j then m.mask.rows[i]?.bind (·[j - (p - 1)]?)
              else some (List.replicate m.vocab true) := by
  dsimp only
  obtain ⟨short1cu, shifted, hshift, hshiftAt⟩ :=
    trainStepShift_cuSeqlensOf _ out.promptMask (generate_promptMask_length hbs hlp hout)
  obtain ⟨-, -, -, -, -, hcu, -⟩ := generate_layout hbs hlp hout
  refine ⟨short1cu, shifted, hcu ▸ hshift, fun i hi j hj => ?_⟩
  rw [getD_seqLengths hbs] at hj
  have hil : i < (List.zipWith (· + ·) promptLengths
      (genLengths padTokenId eosTokenId genTokens)).length := by
    rwa [length_seqLengths hbs]
  have hstart := generate_sum_take_pred hbs hlp hout hi.le
  refine ⟨by rw [hcu]; exact getElem?_cuSeqlensOf hil.le, ?_, ?_,
    generate_packedLogprobs_getElem? hbs hlp hout hi hj,
    generate_packedSeq_getElem? hbs hlp hout hi hj,
    fun m hm rows hrows => generate_packedLogitsMask_getElem? hbs hlp hout hmask hm hrows hi hj⟩
  · rw [(hshiftAt i hil).1, Option.some.injEq]
    omega
  · rw [(hshiftAt i hil).2 j (by rw [getD_seqLengths hbs]; omega),
      generate_promptMask_getElem? hbs hlp hout hi (by omega)]
    rw [Option.map_some', Option.some.injEq, ← decide_not, decide_eq_decide]
    omega

/-- A two-prompt batch with EOS `2` and pad `0`: prompts `[5, 6]` and `[8]`; the first
generation stops at EOS after `7`, the second fills the width with `[9, 4, 1]`; a one-token
vocabulary's logits mask. -/
def twoPromptGen : Rows Int :=
  ⟨3, [[7, 2, 0], [9, 4, 1]], by decide⟩

def twoPromptLogprobs : Rows Int :=
  ⟨3, [[-1, -2, 0], [-3, -4, -5]], by decide⟩

def twoPromptMask : LogitsMask :=
  ⟨⟨3, [[[true], [false], [true]], [[false], [true], [false]]], by decide⟩, 1, by decide⟩

def twoPromptOutput : GenerateOutput Int :=
  ⟨[false, true], [5, 6, 7, 2, 8, 9, 4, 1], [0, 4, 8], [0, -1, -2, -3, -4, -5],
    some [[true], [true], [false], [true], [false], [true], [false], [true]],
    [true, true, false, false, true, false, false, false]⟩

theorem generate_trainStep_aligned_twoPrompts :
    twoPromptGen.rows.length = [2, 1].length ∧ twoPromptGen.width ≤ twoPromptLogprobs.width ∧
      (∀ m ∈ some twoPromptMask, twoPromptGen.width ≤ m.mask.width) ∧
      generate 0 2 false [2, 1] [5, 6, 8] twoPromptGen twoPromptLogprobs (some twoPromptMask) =
        some twoPromptOutput ∧
      ∃ short1cuSeqlens lossMask,
        trainStepShift twoPromptOutput.cuSeqlens twoPromptOutput.promptMask =
          some (short1cuSeqlens, lossMask) ∧
        ∀ i < [2, 1].length, ∀ j,
          let lens : List Nat :=
            List.zipWith (· + ·) [2, 1] (genLengths 0 2 twoPromptGen)
          let p : Nat := [2, 1].getD i 0
          let cu : Nat := (lens.take i).sum
          let start : Nat := ((lens.take i).map (· - 1)).sum
          j + 1 < lens.getD i 0 →
            twoPromptOutput.cuSeqlens[i]? = some cu ∧
            short1cuSeqlens[i]? = some (start : Int) ∧
            lossMask[start + j]? = some (decide (p - 1 ≤ j)) ∧
            twoPromptOutput.packedLogprobs[start + j]? =
              (if p - 1 ≤ j then twoPromptLogprobs.rows[i]?.bind (·[j - (p - 1)]?) else some 0) ∧
            (p - 1 ≤ j → twoPromptOutput.packedSeq[cu + j + 1]? =
              twoPromptGen.rows[i]?.bind (·[j - (p - 1)]?)) ∧
            ∀ m ∈ some twoPromptMask, ∀ rows ∈ twoPromptOutput.packedLogitsMask,
              rows[cu + j]? = if p - 1 ≤ j then m.mask.rows[i]?.bind (·[j - (p - 1)]?)
                else some (List.replicate m.vocab true) :=
  have hmask : ∀ m ∈ some twoPromptMask, twoPromptGen.width ≤ m.mask.width := by
    simp [twoPromptGen, twoPromptMask]
  ⟨rfl, le_refl 3, hmask, rfl,
    generate_trainStep_aligned 0 2 false [2, 1] [5, 6, 8] twoPromptGen twoPromptLogprobs
      (some twoPromptMask) twoPromptOutput rfl (le_refl 3) hmask rfl⟩

end Aligned

end ReaLHF.Interface
