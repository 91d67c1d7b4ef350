import Mathlib.Data.List.Infix

/-!
# Tokens in a text

A text is read from left to right; where a token begins it is taken whole, and reading goes on
behind it. A cut is what stands between the tokens. If no token begins inside another one, a text
has one cut whose gaps hold no token, and reading finds it.
-/

namespace TokenScanning

variable {α τ : Type}

/-- The tokens of a text, each with the gap before it, and what follows the last. -/
structure Cut (α τ : Type) where
  parts : List (List α × τ)
  rest : List α
deriving DecidableEq

namespace Cut

/-- The text of a cut, where `shape` is what a token is written as. -/
def written (shape : τ → List α) (cut : Cut α τ) : List α :=
  cut.parts.flatMap (fun part => part.1 ++ shape part.2) ++ cut.rest

def tokens (cut : Cut α τ) : List τ := cut.parts.map Prod.snd

/-- A token in front. -/
def after (token : τ) (cut : Cut α τ) : Cut α τ := ⟨([], token) :: cut.parts, cut.rest⟩

/-- An element in front, in the first gap. -/
def keep (a : α) (cut : Cut α τ) : Cut α τ :=
  match cut.parts with
  | [] => ⟨[], a :: cut.rest⟩
  | (gap, token) :: parts => ⟨(a :: gap, token) :: parts, cut.rest⟩

/-- What stands before the first token. -/
def head (cut : Cut α τ) : List α := (cut.parts.head?.map Prod.fst).getD cut.rest

/-- Every gap satisfies `P`, the last one too. -/
def Gaps (P : List α → Prop) (cut : Cut α τ) : Prop :=
  (∀ part ∈ cut.parts, P part.1) ∧ P cut.rest

variable {shape : τ → List α} {cut : Cut α τ} {token : τ} {a : α} {P : List α → Prop}

@[simp] theorem written_after : (cut.after token).written shape = shape token ++ cut.written shape := by
  simp [after, written]

@[simp] theorem written_keep : (cut.keep a).written shape = a :: cut.written shape := by
  rcases cut with ⟨- | ⟨⟨gap, token⟩, parts⟩, rest⟩ <;> rfl

theorem written_begins : cut.head <+: cut.written shape := by
  rcases cut with ⟨- | ⟨⟨gap, token⟩, parts⟩, rest⟩
  · exact List.prefix_rfl
  · rw [written, List.flatMap_cons, List.append_assoc, List.append_assoc]
    exact List.prefix_append ..

theorem Gaps.after (h : cut.Gaps P) (hnil : P []) (token : τ) : (cut.after token).Gaps P :=
  ⟨List.forall_mem_cons.mpr ⟨hnil, h.1⟩, h.2⟩

theorem Gaps.head (h : cut.Gaps P) : P cut.head := by
  rcases cut with ⟨- | ⟨⟨gap, token⟩, parts⟩, rest⟩
  · exact h.2
  · exact (List.forall_mem_cons.mp h.1).1

theorem Gaps.keep (h : cut.Gaps P) (hhead : P (a :: cut.head)) : (cut.keep a).Gaps P := by
  rcases cut with ⟨- | ⟨⟨gap, token⟩, parts⟩, rest⟩
  · exact ⟨h.1, hhead⟩
  · exact ⟨List.forall_mem_cons.mpr ⟨hhead, (List.forall_mem_cons.mp h.1).2⟩, h.2⟩

end Cut

/-! ### Reading -/

variable (shape : τ → List α) (find : List α → Option τ)

/-- Reading; `skip` elements are left of the token that was found last. -/
def scanFrom : (skip : Nat) → List α → Cut α τ
  | _, [] => ⟨[], []⟩
  | skip + 1, _ :: text => scanFrom skip text
  | 0, a :: text =>
    match find (a :: text) with
    | none => (scanFrom 0 text).keep a
    | some token => (scanFrom ((shape token).length - 1) text).after token

def scan (text : List α) : Cut α τ := scanFrom shape find 0 text

/-- No token is in the gap. -/
def Free (gap : List α) : Prop := ∀ token, ¬ shape token <:+: gap

/-- `find` finds the token a text begins with, and tokens do not overlap. -/
structure Tokens : Prop where
  found : ∀ text token, find text = some token ↔ shape token <+: text
  shape_ne : ∀ token, shape token ≠ []
  /-- The end of a token is neither the beginning of a token nor begins with one. -/
  apart : ∀ token other before after, shape token = before ++ after → before ≠ [] → after ≠ [] →
    ¬ shape other <+: after ∧ ¬ after <+: shape other

variable {shape find} {text gap : List α} {token other : τ} {a : α} {skip : Nat}

theorem scanFrom_eq_drop : scanFrom shape find skip text = scan shape find (text.drop skip) := by
  induction text generalizing skip with
  | nil =>
    rw [List.drop_nil, scan, scanFrom, scanFrom]
  | cons a text ih =>
    rcases skip with - | skip
    · rfl
    · rw [scanFrom, ih, List.drop_succ_cons]

theorem scan_keep (h : find (a :: text) = none) :
    scan shape find (a :: text) = (scan shape find text).keep a := by
  rw [scan, scanFrom, h]
  rfl

theorem Free.tail (hfree : Free shape (a :: gap)) : Free shape gap :=
  fun token hinside => hfree token (hinside.trans (List.suffix_cons a gap).isInfix)

namespace Tokens

variable (laws : Tokens shape find)

include laws

theorem find_none : find text = none ↔ ∀ token, ¬ shape token <+: text := by
  rw [Option.eq_none_iff_forall_not_mem]
  exact forall_congr' fun token => not_congr (laws.found text token)

theorem scan_token (token : τ) (text : List α) :
    scan shape find (shape token ++ text) = (scan shape find text).after token := by
  have hfound : find (shape token ++ text) = some token :=
    (laws.found ..).mpr (List.prefix_append ..)
  rcases hshape : shape token with - | ⟨a, later⟩
  · exact absurd hshape (laws.shape_ne token)
  · rw [hshape, List.cons_append] at hfound
    rw [List.cons_append, scan, scanFrom, hfound]
    dsimp only
    rw [scanFrom_eq_drop, hshape, List.length_cons, Nat.add_sub_cancel, List.drop_left]

/-- A text begins with a token, or its first element is kept. -/
theorem cases_cons (a : α) (text : List α) :
    (∃ token later, a :: text = shape token ++ later ∧ later.length ≤ text.length) ∨
      find (a :: text) = none := by
  rcases hfind : find (a :: text) with - | token
  · exact .inr rfl
  · rcases (laws.found ..).mp hfind with ⟨later, hlater⟩
    refine .inl ⟨token, later, hlater.symm, ?_⟩
    have hpos : 0 < (shape token).length := List.length_pos_iff.mpr (laws.shape_ne token)
    have hsum := congrArg List.length hlater
    rw [List.length_append, List.length_cons] at hsum
    omega

/-- A property of every text, by what reading does first. -/
theorem text_induction {P : List α → Prop} (nil : P [])
    (token : ∀ token text, P text → P (shape token ++ text))
    (keep : ∀ a text, find (a :: text) = none → P text → P (a :: text)) (text : List α) : P text := by
  induction hlength : text.length using Nat.strong_induction_on generalizing text with
  | _ length ih =>
    rcases text with - | ⟨a, text⟩
    · exact nil
    · rw [List.length_cons] at hlength
      rcases laws.cases_cons a text with ⟨found, later, htext, hle⟩ | hnone
      · rw [htext]
        exact token found later (ih later.length (by omega) later rfl)
      · exact keep a text hnone (ih text.length (by omega) text rfl)

/-- Nothing is lost. -/
theorem written_scan (text : List α) : (scan shape find text).written shape = text := by
  induction text using laws.text_induction with
  | nil => rfl
  | token token text ih => rw [laws.scan_token, Cut.written_after, ih]
  | keep a text hnone ih => rw [scan_keep hnone, Cut.written_keep, ih]

theorem free_nil : Free shape [] := by
  intro token hinside
  exact laws.shape_ne token (List.infix_nil.mp hinside)

/-- No token is overlooked. -/
theorem gaps_scan (text : List α) : (scan shape find text).Gaps (Free shape) := by
  induction text using laws.text_induction with
  | nil => exact ⟨nofun, laws.free_nil⟩
  | token token text ih =>
    rw [laws.scan_token]
    exact ih.after laws.free_nil token
  | keep a text hnone ih =>
    rw [scan_keep hnone]
    apply ih.keep
    intro token hinside
    rcases List.infix_cons_iff.mp hinside with hfirst | hlater
    · -- what stands before the first token is the beginning of the text
      have hprefix : (scan shape find text).head <+: text := by
        have h : _ <+: (scan shape find text).written shape := Cut.written_begins
        rwa [laws.written_scan] at h
      exact laws.find_none.mp hnone token (hfirst.trans (List.cons_prefix_cons.mpr ⟨rfl, hprefix⟩))
    · exact ih.head token hlater

/-- A token that begins in a gap ends in it. -/
theorem not_prefix_of_free (hfree : Free shape (a :: gap)) (token other : τ) (later : List α) :
    ¬ shape token <+: a :: gap ++ (shape other ++ later) := by
  rintro ⟨behind, htext⟩
  rcases List.append_eq_append_iff.mp htext with ⟨left, hgap, -⟩ | ⟨after, hshape, hafter⟩
  · exact hfree token ⟨[], left, hgap.symm⟩
  · by_cases hnil : after = []
    · rw [hnil, List.append_nil] at hshape
      exact hfree token (hshape ▸ List.infix_rfl)
    · rcases laws.apart token other (a :: gap) after hshape (List.cons_ne_nil _ _) hnil with
        ⟨hlong, hshort⟩
      have hprefix : after <+: shape other ++ later := ⟨behind, hafter.symm⟩
      rcases List.prefix_or_prefix_of_prefix hprefix (List.prefix_append ..) with h | h
      · exact hshort h
      · exact hlong h

theorem scan_gap (hfree : Free shape gap) (token : τ) (later : List α) :
    scan shape find (gap ++ (shape token ++ later)) =
      ⟨(gap, token) :: (scan shape find later).parts, (scan shape find later).rest⟩ := by
  induction gap with
  | nil => exact laws.scan_token token later
  | cons a gap ih =>
    have hnone : find (a :: (gap ++ (shape token ++ later))) = none :=
      laws.find_none.mpr fun other => laws.not_prefix_of_free hfree other token later
    rw [List.cons_append, scan_keep hnone, ih hfree.tail]
    rfl

theorem scan_free (hfree : Free shape gap) : scan shape find gap = ⟨[], gap⟩ := by
  induction gap with
  | nil => rfl
  | cons a gap ih =>
    have hnone : find (a :: gap) = none :=
      laws.find_none.mpr fun token hprefix => hfree token hprefix.isInfix
    rw [scan_keep hnone, ih hfree.tail]
    rfl

/-- A cut whose gaps are free of tokens is what its text is read as. -/
theorem scan_written {cut : Cut α τ} (hgaps : cut.Gaps (Free shape)) :
    scan shape find (cut.written shape) = cut := by
  rcases cut with ⟨parts, rest⟩
  rcases hgaps with ⟨hparts, hrest⟩
  induction parts with
  | nil => exact laws.scan_free hrest
  | cons part parts ih =>
    rcases List.forall_mem_cons.mp hparts with ⟨hpart, hlater⟩
    have htext : (Cut.mk (part :: parts) rest).written shape =
        part.1 ++ (shape part.2 ++ (Cut.mk parts rest).written shape) := by
      simp only [Cut.written, List.flatMap_cons, List.append_assoc]
    rw [htext, laws.scan_gap hpart, ih hlater hrest]

end Tokens

end TokenScanning
