import AgenticPlatform.Lines
import AgenticPlatform.Masking

/-!
# Masking part by part

What a rewriting looks for may be unable to reach over some of the elements. Then it rewrites
the parts between these gaps each by itself, and leaves the gaps as they are.
-/

namespace AgenticPlatform.Masking

open Lines

variable {α : Type} {mark text out part rest : List α} {a : α} {before : Option α}
  {find : Option α → List α → Option Find} {gap : α → Bool} {skip : Nat}

theorem Masked.mem_or_mem (h : Masked mark text out) (ha : a ∈ out) : a ∈ text ∨ a ∈ mark := by
  induction h with
  | nil => exact .inl ha
  | keep b _ ih =>
    rcases List.mem_cons.mp ha with rfl | ha
    · exact .inl List.mem_cons_self
    · exact (ih ha).imp_left (List.mem_cons_of_mem b)
  | mask masked _ ih =>
    rcases List.mem_append.mp ha with ha | ha
    · exact .inr ha
    · exact (ih ha).imp_left (List.mem_append_right masked)

theorem Masked.eq_nil (h : Masked mark text out) (hmark : mark ≠ []) (hout : out = []) :
    text = [] := by
  rcases h with - | ⟨b, -⟩ | ⟨masked, -⟩
  · rfl
  · cases hout
  · exact absurd (List.append_eq_nil_iff.mp hout).1 hmark

theorem passFrom_of_le (h : text.length ≤ skip) : passFrom find mark before skip text = [] := by
  induction text generalizing before skip with
  | nil => rw [passFrom]
  | cons b text ih =>
    rcases skip with - | skip
    · exact absurd h (Nat.not_succ_le_zero _)
    · rw [passFrom]
      exact ih (Nat.le_of_succ_le_succ h)

/-- What is found takes the whole rest of the text. -/
theorem passFrom_whole {found : Find} (h : find before text = some found) (hne : text ≠ [])
    (hlength : text.length ≤ found.length) :
    passFrom find mark before 0 text = text.take found.kept ++ mark := by
  rcases text with - | ⟨b, text⟩
  · exact absurd rfl hne
  · rw [passFrom, h]
    rw [List.length_cons] at hlength
    dsimp only
    rw [passFrom_of_le (by omega), List.append_nil]

/-- Where what stands before makes no difference, it makes none to the pass. -/
theorem passFrom_before (h : ∀ before text, find before text = find none text)
    (before : Option α) (skip : Nat) (text : List α) :
    passFrom find mark before skip text = passFrom find mark none skip text := by
  rcases text with - | ⟨b, text⟩
  · rw [passFrom, passFrom]
  · rcases skip with - | skip
    · rw [passFrom, passFrom, h before]
    · rw [passFrom, passFrom]

theorem passFrom_skip (h : ∀ before text, find before text = find none text)
    (before : Option α) (part rest : List α) :
    passFrom find mark before part.length (part ++ rest) = pass find mark rest := by
  induction part generalizing before with
  | nil => exact passFrom_before h before 0 rest
  | cons b part ih => exact ih (some b)

/-- What is looked for neither begins at a gap nor reaches over one, and does not tell a gap
    before it from the beginning of the text. -/
structure Local (gap : α → Bool) (find : Option α → List α → Option Find) : Prop where
  at_gap {a : α} {before : Option α} {rest : List α} :
    gap a = true → find before (a :: rest) = none
  append {a : α} {before : Option α} {part rest : List α} :
    gap a = true → Plain gap part → part ≠ [] → find before (part ++ a :: rest) = find before part
  length_le {before : Option α} {part : List α} {found : Find} :
    find before part = some found → found.length ≤ part.length
  after_gap {a : α} {text : List α} : gap a = true → find (some a) text = find none text

namespace Local

theorem passFrom_append (h : Local gap find) (ha : gap a = true) (hpart : Plain gap part)
    (hskip : skip ≤ part.length) :
    passFrom find mark before skip (part ++ a :: rest) =
      passFrom find mark before skip part ++ a :: passFrom find mark (some a) 0 rest := by
  induction part generalizing before skip with
  | nil =>
    rw [Nat.le_zero.mp hskip, List.nil_append, passFrom, passFrom, h.at_gap ha]
    rfl
  | cons b part ih =>
    rcases hpart.cons with ⟨-, hrest⟩
    rcases skip with - | skip
    · have hfind : find before (b :: part ++ a :: rest) = find before (b :: part) :=
        h.append ha hpart (List.cons_ne_nil b part)
      rw [List.cons_append] at hfind
      rw [List.cons_append, passFrom, passFrom, hfind]
      rcases hfound : find before (b :: part) with - | found
      · exact congrArg (b :: ·) (ih hrest (Nat.zero_le _))
      · have hlength : found.length ≤ part.length + 1 := h.length_le hfound
        have hkept := found.kept_lt
        have htake : (b :: (part ++ a :: rest)).take found.kept = (b :: part).take found.kept := by
          rw [← List.cons_append, List.take_append_of_le_length]
          rw [List.length_cons]
          omega
        dsimp only
        rw [htake, ih hrest (by omega)]
        simp only [List.append_assoc]
    · rw [List.cons_append, passFrom, passFrom]
      exact ih hrest (Nat.le_of_succ_le_succ hskip)

theorem passFrom_gap (h : Local gap find) (ha : gap a = true) (rest : List α) :
    passFrom find mark (some a) 0 rest = pass find mark rest := by
  rcases rest with - | ⟨b, rest⟩
  · rfl
  · rw [pass, passFrom, passFrom, h.after_gap ha]

theorem pass_append_plain (h : Local gap find) (ha : gap a = true) (hpart : Plain gap part)
    (rest : List α) :
    pass find mark (part ++ a :: rest) = pass find mark part ++ a :: pass find mark rest := by
  rw [pass, h.passFrom_append ha hpart (Nat.zero_le _), h.passFrom_gap ha, ← pass]

/-- Both sides of a gap are rewritten by themselves. -/
theorem pass_append (h : Local gap find) (ha : gap a = true) (part rest : List α) :
    pass find mark (part ++ a :: rest) = pass find mark part ++ a :: pass find mark rest := by
  induction part using line_induction gap with
  | plain part hpart => exact h.pass_append_plain ha hpart rest
  | split line e more hline he ih =>
    rw [List.append_assoc, List.cons_append, h.pass_append_plain he hline, ih,
      h.pass_append_plain he hline, List.append_assoc, List.cons_append]

/-- The parts of the outcome are the rewritten parts, also between fewer gaps. -/
theorem splitOnP_pass {some' : α → Bool} (h : Local gap find)
    (hsome : ∀ a, some' a = true → gap a = true) (hmark : Plain some' mark) (text : List α) :
    (pass find mark text).splitOnP some' = (text.splitOnP some').map (pass find mark) := by
  induction text using line_induction some' with
  | plain part hpart =>
    have hpass : Plain some' (pass find mark part) := fun b hb =>
      ((pass_masked part).mem_or_mem hb).elim (hpart b) (hmark b)
    rw [List.splitOnP_eq_singleton hpart, List.splitOnP_eq_singleton hpass, List.map_singleton]
  | split line e rest hline he ih =>
    rw [h.pass_append (hsome e he), List.splitOnP_append_cons _ _ he,
      List.splitOnP_append_cons _ _ he, ih, List.map_append]
    congr 1
    have hpass : Plain some' (pass find mark line) := fun b hb =>
      ((pass_masked line).mem_or_mem hb).elim (hline b) (hmark b)
    rw [List.splitOnP_eq_singleton hline, List.splitOnP_eq_singleton hpass, List.map_singleton]

/-- Where the outcome has a gap, the text had it. -/
theorem exists_of_pass_eq {before after : List α} (h : Local gap find) (ha : gap a = true)
    (hmark : a ∉ mark) (heq : pass find mark text = before ++ a :: after) :
    ∃ left right, text = left ++ a :: right ∧ before = pass find mark left ∧
      after = pass find mark right := by
  induction text using line_induction gap generalizing before with
  | plain part hpart =>
    have hmem : a ∈ pass find mark part := by
      rw [heq]
      exact List.mem_append_right before List.mem_cons_self
    rcases (pass_masked part).mem_or_mem hmem with hmem | hmem
    · rw [hpart a hmem] at ha
      cases ha
    · exact absurd hmem hmark
  | split line e rest hline he ih =>
    have hpass : a ∉ pass find mark line := by
      intro hmem
      rcases (pass_masked line).mem_or_mem hmem with hmem | hmem
      · rw [hline a hmem] at ha
        cases ha
      · exact hmark hmem
    rw [h.pass_append he] at heq
    rcases append_cons_cases hpass heq with ⟨rfl, rfl, rfl⟩ | ⟨more, rfl, hrest⟩
    · exact ⟨line, rest, rfl, rfl, rfl⟩
    · rcases ih hrest with ⟨left, right, rfl, rfl, rfl⟩
      refine ⟨line ++ e :: left, right, ?_, (h.pass_append he line left).symm, rfl⟩
      rw [List.append_assoc, List.cons_append]

end Local

/-! ### The last part -/

/-- What stands after the last gap. -/
def lastPart (gap : α → Bool) (text : List α) : List α := ((text.splitOnP gap).getLast?).getD []

theorem lastPart_of_plain (h : Plain gap text) : lastPart gap text = text := by
  rw [lastPart, List.splitOnP_eq_singleton h]
  rfl

theorem lastPart_append_cons (ha : gap a = true) (part rest : List α) :
    lastPart gap (part ++ a :: rest) = lastPart gap rest := by
  have hne := List.splitOnP_ne_nil gap rest
  rw [lastPart, List.splitOnP_append_cons _ _ ha, List.getLast?_append_of_ne_nil _ hne, ← lastPart]

end AgenticPlatform.Masking
