import Mathlib.Data.List.Infix

/-!
# Masking parts of a text

A rewriting that goes through a text once and replaces what it finds by a mark. Whatever it
finds, a text that shares nothing with the mark and stands in the outcome stood in the
original: it cannot touch a mark, so it lies in a piece that was kept. What the rewriting
looks for itself does not stand in the outcome.
-/

namespace AgenticPlatform.Masking

variable {α : Type} {mark text out secret : List α}

/-- The outcome is the text with some of its parts replaced by the mark. -/
inductive Masked (mark : List α) : List α → List α → Prop where
  | nil : Masked mark [] []
  | keep (a : α) {text out : List α} : Masked mark text out → Masked mark (a :: text) (a :: out)
  | mask {text out : List α} (part : List α) :
      Masked mark text out → Masked mark (part ++ text) (mark ++ out)

theorem Masked.refl (text : List α) : Masked mark text text := by
  induction text with
  | nil => exact .nil
  | cons a text ih => exact .keep a ih

theorem Masked.keep_all (kept : List α) (h : Masked mark text out) :
    Masked mark (kept ++ text) (kept ++ out) := by
  induction kept with
  | nil => exact h
  | cons a kept ih => exact .keep a ih

/-- A text that shares nothing with the mark. -/
def Apart (mark secret : List α) : Prop := ∀ a ∈ secret, a ∉ mark

/-- Nothing apart from the mark begins with it. -/
theorem Apart.not_prefix (h : Apart mark secret) (hmark : mark ≠ []) (hsecret : secret ≠ []) :
    ¬ secret <+: mark ++ out := by
  rcases mark with - | ⟨m, mark⟩
  · exact absurd rfl hmark
  · rcases secret with - | ⟨a, secret⟩
    · exact absurd rfl hsecret
    · intro hbegin
      rw [List.cons_append, List.cons_prefix_cons] at hbegin
      exact h a (List.mem_cons_self ..) (hbegin.1 ▸ List.mem_cons_self ..)

/-- What begins after a mark or in it, and is apart from it, begins after it. -/
theorem Apart.infix_of_mark (h : Apart mark secret) (hsecret : secret ≠ [])
    (hinside : secret <:+: mark ++ out) : secret <:+: out := by
  induction mark with
  | nil => exact hinside
  | cons m mark ih =>
    have hrest : Apart mark secret := fun a ha hmem => h a ha (List.mem_cons_of_mem m hmem)
    rw [List.cons_append, List.infix_cons_iff] at hinside
    rcases hinside with hbegin | hinside
    · exact absurd hbegin (h.not_prefix (List.cons_ne_nil m mark) hsecret)
    · exact ih hrest hinside

/-- What begins an outcome began the text. -/
theorem Masked.prefix_of (h : Masked mark text out) (hmark : mark ≠ []) (hapart : Apart mark secret)
    (hbegin : secret <+: out) : secret <+: text := by
  induction h generalizing secret with
  | nil => exact hbegin
  | keep a _ ih =>
    rcases secret with - | ⟨b, secret⟩
    · exact List.nil_prefix
    · rw [List.cons_prefix_cons] at hbegin ⊢
      refine ⟨hbegin.1, ih ?_ hbegin.2⟩
      exact fun c hc => hapart c (List.mem_cons_of_mem b hc)
  | mask part _ ih =>
    by_cases hsecret : secret = []
    · rw [hsecret]
      exact List.nil_prefix
    · exact absurd hbegin (hapart.not_prefix hmark hsecret)

/-- What stands in an outcome stood in the text. -/
theorem Masked.infix_of (h : Masked mark text out) (hmark : mark ≠ []) (hapart : Apart mark secret)
    (hinside : secret <:+: out) : secret <:+: text := by
  by_cases hsecret : secret = []
  · rw [hsecret]
    exact List.nil_infix
  induction h with
  | nil => exact hinside
  | keep a hrest ih =>
    rw [List.infix_cons_iff] at hinside ⊢
    rcases hinside with hbegin | hinside
    · exact List.infix_cons_iff.mp ((Masked.keep a hrest).prefix_of hmark hapart hbegin).isInfix
    · exact Or.inr (ih hinside)
  | mask part _ ih =>
    have hlater := ih (hapart.infix_of_mark hsecret hinside)
    exact hlater.trans (List.suffix_append part _).isInfix

/-! ### One pass -/

/-- What is found at a place: its length, and how much of it stays before the mark. -/
structure Find where
  kept : Nat
  length : Nat
  kept_lt : kept < length
deriving DecidableEq

variable (find : Option α → List α → Option Find)

/-- The pass from some place on, with the element before it; `skip` elements are left of what
    was found last. -/
def passFrom (mark : List α) : Option α → (skip : Nat) → List α → List α
  | _, _, [] => []
  | _, skip + 1, a :: rest => passFrom mark (some a) skip rest
  | before, 0, a :: rest =>
    match find before (a :: rest) with
    | none => a :: passFrom mark (some a) 0 rest
    | some found =>
      (a :: rest).take found.kept ++ (mark ++ passFrom mark (some a) (found.length - 1) rest)

/-- What is found from left to right gives way to the mark, but for what is kept of it. -/
def pass (mark text : List α) : List α := passFrom find mark none 0 text

variable {find} {before : Option α}

theorem passFrom_masked (skip : Nat) (text : List α) :
    Masked mark (text.drop skip) (passFrom find mark before skip text) := by
  induction text generalizing skip before with
  | nil =>
    rw [List.drop_nil]
    exact .nil
  | cons a rest ih =>
    rcases skip with - | skip
    · rw [List.drop_zero, passFrom]
      rcases hfound : find before (a :: rest) with - | found
      · exact .keep a (ih 0)
      · -- the text is what is kept, the part that is masked, and the rest
        have hlength : 0 < found.length := Nat.zero_lt_of_lt found.kept_lt
        have hrest : rest.drop (found.length - 1) = (a :: rest).drop found.length := by
          rw [← List.drop_succ_cons (a := a), Nat.sub_add_cancel hlength]
        have htext : a :: rest = (a :: rest).take found.kept ++
            (((a :: rest).drop found.kept).take (found.length - found.kept) ++
              rest.drop (found.length - 1)) := by
          rw [hrest, ← Nat.sub_add_cancel (Nat.le_of_lt found.kept_lt), Nat.add_comm,
            ← List.drop_drop, Nat.add_sub_cancel_left, List.take_append_drop,
            List.take_append_drop]
        have hlater : Masked mark (rest.drop (found.length - 1))
            (passFrom find mark (some a) (found.length - 1) rest) := ih (found.length - 1)
        have hmasked := (hlater.mask
          (((a :: rest).drop found.kept).take (found.length - found.kept))).keep_all
          ((a :: rest).take found.kept)
        rw [← htext] at hmasked
        exact hmasked
    · exact ih skip

/-- A pass masks parts of the text. -/
theorem pass_masked (text : List α) : Masked mark text (pass find mark text) :=
  passFrom_masked 0 text

/-! ### A pass that looks for one text -/

variable [DecidableEq α] (secret)

/-- The secret itself, wherever it begins. -/
def occurrence (hsecret : secret ≠ []) (_ : Option α) (text : List α) : Option Find :=
  if secret <+: text then some ⟨0, secret.length, List.length_pos_iff.mpr hsecret⟩ else none

variable {secret} {hsecret : secret ≠ []}

theorem passFrom_occurrence (hmark : mark ≠ []) (hapart : Apart mark secret) (skip : Nat)
    (text : List α) :
    ¬ secret <:+: passFrom (occurrence secret hsecret) mark before skip text := by
  induction text generalizing skip before with
  | nil =>
    intro hinside
    exact hsecret (List.infix_nil.mp hinside)
  | cons a rest ih =>
    rcases skip with - | skip
    · intro hinside
      have hmasked : Masked mark (a :: rest)
          (passFrom (occurrence secret hsecret) mark before 0 (a :: rest)) := passFrom_masked 0 _
      rw [passFrom] at hinside hmasked
      by_cases hfound : secret <+: a :: rest
      · rw [occurrence, if_pos hfound] at hinside
        exact ih _ (hapart.infix_of_mark hsecret hinside)
      · rw [occurrence, if_neg hfound] at hinside hmasked
        rcases List.infix_cons_iff.mp hinside with hbegin | hinside
        · exact hfound (hmasked.prefix_of hmark hapart hbegin)
        · exact ih 0 hinside
    · exact ih skip

/-- A text apart from the mark does not stand where it was looked for. -/
theorem pass_occurrence (hmark : mark ≠ []) (hapart : Apart mark secret) (text : List α) :
    ¬ secret <:+: pass (occurrence secret hsecret) mark text :=
  passFrom_occurrence hmark hapart 0 text

end AgenticPlatform.Masking
