/-
Two helpers of the WPS actor-critic interfaces (`impl/model/interface/wps_actor_critic.py`).

`remove_code_comments` (lines 25-40) strips `//` comments from a decoded sequence before the
reward model scores it (`WPSRewardUnpairedInterface.train_step`, lines 76-91): the first
line, the prompt, is left alone; every later line loses its `//` comment and its trailing
blanks, and is dropped if nothing word-like remains; the second line also loses its leading
blanks when it has no comment. A closing `assert` checks that no `//` is left.

`get_advantages_and_returns` (lines 231-246) is generalised advantage estimation, the
backward recursion `lastgaelam = delta + gamma * lam * lastgaelam` over the response, then
`returns = advantages + values`; `_ppo_actor_step` calls it (lines 334-341) on values one
column wider than the rewards, as its `assert` demands.

# What is modelled

A Python string is its list of code points. `str.split('\n')` is `List.splitOn`,
`'\n'.join` is `List.intercalate`, `"//" in s` is the infix test, `strip` removes the
characters of `str.isspace`, and `re.match(r".*[0-9a-zA-Z@].*", s)` asks for one such
character before the first newline.

A 2-d float tensor of `bs` rows is its list of columns, each a vector `Fin bs → ℚ`: every
operation of the loop acts column by column, and the column count is the width torch
broadcasts. Floats are rationals. The two tensors share their batch dimension, as the caller
slices both from one sample. The failing `assert`, `torch.stack` of no column, and a
broadcast of two widths that differ and are both other than one, are `none`.
-/
import Mathlib

namespace ReaLHF.Interface

-- ====================================================== remove_code_comments

/-- `c.isspace()`: the characters Python's `strip` removes (Unicode white space, and the
separators `\x1c`-`\x1f`). -/
def isSpace (c : Char) : Bool :=
  let n := c.toNat
  (9 ≤ n && n ≤ 13) || (28 ≤ n && n ≤ 32) || n == 133 || n == 160 || n == 5760 ||
    (8192 ≤ n && n ≤ 8202) || n == 8232 || n == 8233 || n == 8239 || n == 8287 || n == 12288

/-- `line[:line.index("//")]`: the text before the first `//` (the whole line when it has
none, a case the caller never reaches). -/
def beforeComment : List Char → List Char
  | [] => []
  | c :: cs => if c = '/' ∧ cs.head? = some '/' then [] else c :: beforeComment cs

/-- `re.match(r".*[0-9a-zA-Z@].*", line)`: `.` stops at a newline, so the line up to its
first newline has an ASCII letter or digit, or an `@`. -/
def hasWordChar (line : List Char) : Bool :=
  (line.takeWhile (· ≠ '\n')).any fun c => c.isAlphanum || c == '@'

/-- The first loop's work on `code_lines[i]`: its new text, and whether `i` goes on
`lines_to_pop`. -/
def stripCommentLine (i : Nat) (line : List Char) : List Char × Bool :=
  if ['/', '/'] <:+: line then
    let cut := (beforeComment line).rdropWhile isSpace
    (cut, !hasWordChar cut)
  else (if i = 0 then line.dropWhile isSpace else line, false)

/-- `remove_code_comments(code)`: `none` where `prompt_line, *code_lines = ...` has nothing to
unpack (never: `split` returns at least one piece) or the final `assert` fails. -/
def removeCodeComments (code : List Char) : Option (List Char) :=
  match code.splitOn '\n' with
  | [] => none
  | promptLine :: codeLines =>
    let stripped := codeLines.enum.map fun p => stripCommentLine p.1 p.2
    let linesToPop := (stripped.enum.filter fun p => p.2.2).map Prod.fst
    let codeLines := linesToPop.reverse.foldl List.eraseIdx (stripped.map Prod.fst)
    let code := ['\n'].intercalate (promptLine :: codeLines)
    if ['/', '/'] <:+: code then none else some code

-- ================================================ get_advantages_and_returns

variable {bs : Nat}

/-- The loop `for t in reversed(range(length))` with `t + 1` turns left: each turn sets
`lastgaelam = delta + gamma * lam * lastgaelam` and appends it to `advantages_reversed`. -/
def gaeLoop (gamma lam : ℚ) (values rewards : List (Fin bs → ℚ)) :
    Nat → (Fin bs → ℚ) → List (Fin bs → ℚ) → List (Fin bs → ℚ)
  | 0, _, advantagesReversed => advantagesReversed
  | t + 1, lastgaelam, advantagesReversed =>
    let nextvalues := values.getD (t + 1) 0
    let delta := rewards.getD t 0 + gamma • nextvalues - values.getD t 0
    let lastgaelam := delta + (gamma * lam) • lastgaelam
    gaeLoop gamma lam values rewards t lastgaelam (advantagesReversed ++ [lastgaelam])

/-- `torch.stack(columns, dim=1)`, raising on an empty list. -/
def stackColumns (columns : List (Fin bs → ℚ)) : Option (List (Fin bs → ℚ)) :=
  if columns = [] then none else some columns

/-- `a + b` of two 2-d tensors of one batch, broadcasting the last dimension: equal widths,
or one of width one. -/
def addColumns (a b : List (Fin bs → ℚ)) : Option (List (Fin bs → ℚ)) :=
  if a.length = b.length then some (List.zipWith (· + ·) a b)
  else if a.length = 1 then some (b.map (a.headD 0 + ·))
  else if b.length = 1 then some (a.map (· + b.headD 0))
  else none

/-- `get_advantages_and_returns(gamma, lam, values, rewards)`: the advantages and the
returns. -/
def getAdvantagesAndReturns (gamma lam : ℚ) (values rewards : List (Fin bs → ℚ)) :
    Option (List (Fin bs → ℚ) × List (Fin bs → ℚ)) := do
  if values.length ≠ rewards.length + 1 then none
  let advantagesReversed := gaeLoop gamma lam values rewards rewards.length 0 []
  let advantages ← stackColumns advantagesReversed.reverse
  let returns ← addColumns advantages values
  pure (advantages, returns)

end ReaLHF.Interface
