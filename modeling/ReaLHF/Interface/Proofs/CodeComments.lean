/-
What `remove_code_comments` returns (`impl/model/interface/wps_actor_critic.py`,
lines 25-40).

# Shape of the argument

* Popping the marked lines last first removes exactly those lines
  (`foldl_eraseIdx_filter`), so the later lines of the result are those `keptLine` keeps.
* No kept line has a `//`: a cut line is a prefix of the text before the first `//`
  (`not_infix_beforeComment`), and an uncut one had none, at most losing leading blanks.
* A `//` in a joined text lies within one piece, the separator being a newline
  (`not_infix_intercalate`).

So the `assert` fails exactly when the prompt line, which no step touches, has a `//`.
-/
import ReaLHF.Interface.WpsActorCritic

namespace ReaLHF.Interface

-- ============================================================ `//` in a text

theorem head?_beforeComment {x : Char} :
    ∀ {line : List Char}, (beforeComment line).head? = some x → line.head? = some x
  | [], h => h
  | c :: cs, h => by
    rw [beforeComment] at h
    split_ifs at h
    · cases h
    · exact h

/-- The text before the first `//` has none. -/
theorem not_infix_beforeComment : ∀ line : List Char, ¬ ['/', '/'] <:+: beforeComment line
  | [] => by simp [beforeComment]
  | c :: cs => by
    rw [beforeComment]
    split_ifs with h
    · simp
    · rw [List.infix_cons_iff]
      rintro (⟨t, ht⟩ | hi)
      · simp only [List.cons_append, List.nil_append, List.cons.injEq] at ht
        exact h ⟨ht.1.symm, head?_beforeComment (by rw [← ht.2]; rfl)⟩
      · exact not_infix_beforeComment cs hi

/-- A `//` in `a ++ c :: b`, for `c` not a slash, lies in `a` or in `b`. -/
theorem infix_append_cons {b : List Char} {c : Char} (hc : c ≠ '/') :
    ∀ {a : List Char}, ['/', '/'] <:+: a ++ c :: b → ['/', '/'] <:+: a ∨ ['/', '/'] <:+: b
  | [], h => by
    rcases List.infix_cons_iff.1 h with ⟨t, ht⟩ | hi
    · exact absurd (List.cons.inj ht).1.symm hc
    · exact .inr hi
  | x :: a, h => by
    rcases List.infix_cons_iff.1 h with ⟨t, ht⟩ | hi
    · cases a with
      | nil => exact absurd (List.cons.inj (List.cons.inj ht).2).1.symm hc
      | cons y a =>
        obtain ⟨hx, ht⟩ := List.cons.inj ht
        obtain ⟨hy, -⟩ := List.cons.inj ht
        exact .inl ⟨[], a, by rw [← hx, ← hy]; rfl⟩
    · exact (infix_append_cons hc hi).imp_left List.infix_cons

/-- Lines without `//`, joined by newlines, have none. -/
theorem not_infix_intercalate :
    ∀ ls : List (List Char), (∀ l ∈ ls, ¬ ['/', '/'] <:+: l) →
      ¬ ['/', '/'] <:+: ['\n'].intercalate ls
  | [], _ => by simp [List.intercalate]
  | [l], h => by simpa [List.intercalate] using h l (List.mem_singleton_self l)
  | l :: l' :: ls, h => by
    simp only [List.intercalate, List.intersperse_cons_cons, List.flatten_cons,
      List.singleton_append, ← List.append_assoc] at h ⊢
    intro hi
    rcases infix_append_cons (by decide) hi with hi | hi
    · exact h l (List.mem_cons_self _ _) hi
    · exact not_infix_intercalate (l' :: ls) (fun m hm => h m (List.mem_cons_of_mem _ hm)) hi

/-- The first piece is a prefix of the joined text. -/
theorem prefix_intercalate (l : List Char) (ls : List (List Char)) :
    l <+: ['\n'].intercalate (l :: ls) := by
  cases ls with
  | nil => simp [List.intercalate]
  | cons l' ls =>
    simp only [List.intercalate, List.intersperse_cons_cons, List.flatten_cons]
    exact List.prefix_append _ _

-- ============================================================= popping lines

/-- Popping the marked entries, last first, leaves the unmarked ones in order. -/
theorem foldl_eraseIdx_filter {γ : Type} : ∀ (ps : List (γ × Bool)) (pre : List γ),
    (((ps.enumFrom pre.length).filter fun p => p.2.2).map Prod.fst).reverse.foldl
        List.eraseIdx (pre ++ ps.map Prod.fst) =
      pre ++ ps.filterMap fun p => if p.2 then none else some p.1
  | [], pre => by simp
  | (x, b) :: ps, pre => by
    have ih := foldl_eraseIdx_filter ps (pre ++ [x])
    simp only [List.length_append, List.length_singleton, List.append_assoc,
      List.singleton_append] at ih
    cases b
    · simpa using ih
    · simp [List.foldl_append, ih, List.eraseIdx_append_of_length_le]

-- ================================================================ the result

/-- What survives of a later line, read per case off `stripCommentLine`: a line with `//`
cut before it and right-stripped, kept if a letter, digit or `@` remains; a line without,
kept whole, left-stripped when it is the first after the prompt. -/
def keptLine (i : Nat) (line : List Char) : Option (List Char) :=
  if ['/', '/'] <:+: line then
    let cut := (beforeComment line).rdropWhile isSpace
    if hasWordChar cut then some cut else none
  else some (if i = 0 then line.dropWhile isSpace else line)

/-- The prompt, `code.split('\n')[0]`. -/
def promptLine (code : List Char) : List Char :=
  (code.splitOn '\n').headD []

/-- The later lines that survive, in order. -/
def keptLines (code : List Char) : List (List Char) :=
  (code.splitOn '\n').tail.enum.filterMap fun p => keptLine p.1 p.2

theorem keptLine_eq_stripCommentLine (i : Nat) (line : List Char) :
    keptLine i line = if (stripCommentLine i line).2 then none
      else some (stripCommentLine i line).1 := by
  unfold keptLine stripCommentLine
  split_ifs <;> simp_all

/-- No kept line has a `//`. -/
theorem not_infix_keptLine {i : Nat} {line out : List Char} (h : keptLine i line = some out) :
    ¬ ['/', '/'] <:+: out := by
  unfold keptLine at h
  dsimp only at h
  split_ifs at h with hc hw hi <;> obtain rfl := Option.some.inj h
  · exact fun ho => not_infix_beforeComment line
      (ho.trans (List.rdropWhile_prefix _ _).isInfix)
  · exact fun ho => hc (ho.trans (List.dropWhile_suffix _).isInfix)
  · exact hc

theorem not_infix_keptLines {code l : List Char} (hl : l ∈ keptLines code) :
    ¬ ['/', '/'] <:+: l := by
  obtain ⟨q, -, hq⟩ := List.mem_filterMap.1 hl
  exact not_infix_keptLine hq

/-- `remove_code_comments` fails its `assert` exactly when the prompt has a `//`, and
otherwise returns the prompt and the kept lines, joined by newlines. -/
theorem removeCodeComments_eq (code : List Char) :
    removeCodeComments code =
      if ['/', '/'] <:+: promptLine code then none
      else some (['\n'].intercalate (promptLine code :: keptLines code)) := by
  obtain ⟨p, rest, hsplit⟩ := List.exists_cons_of_ne_nil (List.splitOnP_ne_nil _ code)
  have hsplit' : code.splitOn '\n' = p :: rest := hsplit
  have hkept : keptLines code = rest.enum.filterMap fun q => keptLine q.1 q.2 := by
    rw [keptLines, hsplit', List.tail_cons]
  have hkeep : ((fun p : List Char × Bool => if p.2 then none else some p.1) ∘
      fun q : Nat × List Char => stripCommentLine q.1 q.2) = fun q => keptLine q.1 q.2 :=
    funext fun q => (keptLine_eq_stripCommentLine q.1 q.2).symm
  have hpop := foldl_eraseIdx_filter (rest.enum.map fun q => stripCommentLine q.1 q.2) []
  rw [List.filterMap_map, hkeep] at hpop
  rw [removeCodeComments, promptLine, hsplit', List.headD_cons, hkept]
  dsimp only
  erw [hpop, List.nil_append]
  by_cases hp : ['/', '/'] <:+: p
  · rw [if_pos (hp.trans (prefix_intercalate _ _).isInfix), if_pos hp]
  · rw [if_neg hp, if_neg]
    exact not_infix_intercalate _
      (List.forall_mem_cons.2 ⟨hp, fun l hl => not_infix_keptLines (by rwa [hkept])⟩)

/-- On every input the function fails its `assert` exactly when the prompt has a `//`; what
it returns otherwise is the prompt, then every kept line, joined by newlines, with no `//`. -/
theorem removeCodeComments_spec (code : List Char) :
    (removeCodeComments code = none ↔ ['/', '/'] <:+: promptLine code) ∧
      ∀ r, removeCodeComments code = some r →
        r = ['\n'].intercalate (promptLine code :: keptLines code) ∧ ¬ ['/', '/'] <:+: r := by
  rw [removeCodeComments_eq]
  by_cases hp : ['/', '/'] <:+: promptLine code
  · rw [if_pos hp]
    exact ⟨iff_of_true rfl hp, fun r h => nomatch h⟩
  · rw [if_neg hp]
    refine ⟨iff_of_false (Option.some_ne_none _) hp, ?_⟩
    rintro r ⟨⟩
    exact ⟨rfl, not_infix_intercalate _
      (List.forall_mem_cons.2 ⟨hp, fun _ hl => not_infix_keptLines hl⟩)⟩

/-- A prompt holding a URL: the `assert` fails. -/
theorem urlPrompt_assertionFails :
    removeCodeComments "see http://a.b\nint x; // c".toList = none := by
  decide

end ReaLHF.Interface
