import Mathlib.Data.List.Basic

/-!
# Lines

A text cut into lines at the characters that end one. Nothing stands after the last end, so no
empty line does. A carriage return right before a line feed may be taken for a part of the
line's end.
-/

namespace AgenticPlatform.Lines

variable {α : Type}

/-- One more character at the beginning of the first line. -/
def grow (a : α) : List (List α) → List (List α)
  | [] => [[a]]
  | line :: rest => (a :: line) :: rest

/-- The lines of a text. -/
def lines (ends : α → Bool) : List α → List (List α)
  | [] => []
  | a :: text => if ends a then [] :: lines ends text else grow a (lines ends text)

/-- The text without the carriage returns that stand right before a line feed. -/
def dropReturns [DecidableEq α] (cr lf : α) : List α → List α
  | [] => []
  | a :: text =>
    if a = cr ∧ text.head? = some lf then dropReturns cr lf text
    else a :: dropReturns cr lf text

/-- The characters of which none ends a line. -/
def Plain (ends : α → Bool) (line : List α) : Prop := ∀ a ∈ line, ends a = false

variable {ends other : α → Bool} {line text rest : List α} {e : α}

theorem Plain.cons {a : α} (h : Plain ends (a :: line)) : ends a = false ∧ Plain ends line :=
  List.forall_mem_cons.mp h

theorem lines_append_end (h : Plain ends line) (he : ends e = true) (rest : List α) :
    lines ends (line ++ e :: rest) = line :: lines ends rest := by
  induction line with
  | nil => rw [List.nil_append, lines, if_pos he]
  | cons a line ih =>
    rcases h.cons with ⟨ha, hline⟩
    rw [List.cons_append, lines, if_neg (by rw [ha]; exact Bool.false_ne_true), ih hline, grow]

/-- A text either has no end of a line, or it is a line with its end and the rest. -/
theorem plain_or_split (ends : α → Bool) (text : List α) : Plain ends text ∨
    ∃ line e rest, text = line ++ e :: rest ∧ Plain ends line ∧ ends e = true := by
  induction text with
  | nil => exact .inl nofun
  | cons a text ih =>
    rcases ha : ends a with - | -
    · rcases ih with hplain | ⟨line, e, rest, rfl, hline, he⟩
      · exact .inl (List.forall_mem_cons.mpr ⟨ha, hplain⟩)
      · exact .inr ⟨a :: line, e, rest, rfl, List.forall_mem_cons.mpr ⟨ha, hline⟩, he⟩
    · exact .inr ⟨[], a, text, rfl, nofun, ha⟩

theorem plain_of_mem_lines (h : line ∈ lines ends text) : Plain ends line := by
  induction text generalizing line with
  | nil => cases h
  | cons a text ih =>
    rw [lines] at h
    split at h
    · rcases List.mem_cons.mp h with rfl | hmem
      · exact List.forall_mem_nil _
      · exact ih hmem
    · rename_i ha
      rw [Bool.not_eq_true] at ha
      rcases hlines : lines ends text with - | ⟨first, rest⟩
      · rw [hlines, grow, List.mem_singleton] at h
        rw [h]
        exact List.forall_mem_singleton.mpr ha
      · rw [hlines, grow] at h
        rw [hlines] at ih
        rcases List.mem_cons.mp h with rfl | hmem
        · exact List.forall_mem_cons.mpr ⟨ha, ih List.mem_cons_self⟩
        · exact ih (List.mem_cons_of_mem first hmem)

theorem lines_eq_nil : lines ends text = [] ↔ text = [] := by
  rcases text with - | ⟨a, text⟩
  · exact iff_of_true rfl rfl
  · refine iff_of_false ?_ (List.cons_ne_nil a text)
    rw [lines]
    split
    · exact List.cons_ne_nil _ _
    · rcases lines ends text with - | ⟨first, rest⟩
      · exact List.cons_ne_nil _ _
      · exact List.cons_ne_nil _ _

theorem grow_ne_empty {a : α} {rest : List (List α)} : [] :: rest ≠ grow a (lines ends text) := by
  intro heq
  rcases hlines : lines ends text with - | ⟨first, rest⟩
  · rw [hlines, grow, List.cons.injEq] at heq
    cases heq.1
  · rw [hlines, grow, List.cons.injEq] at heq
    cases heq.1

/-- More ends cut a text into the same lines only if none of them stands in it. -/
theorem lines_eq_lines_iff (h : ∀ a, other a = true → ends a = true) :
    lines ends text = lines other text ↔ ∀ a ∈ text, ends a = true → other a = true := by
  induction text with
  | nil => exact iff_of_true rfl (List.forall_mem_nil _)
  | cons a text ih =>
    rw [List.forall_mem_cons, lines, lines, ← ih]
    by_cases hother : other a = true
    · rw [if_pos hother, if_pos (h a hother), List.cons.injEq, and_iff_right rfl,
        and_iff_right fun _ => hother]
    by_cases hends : ends a = true
    · rw [if_pos hends, if_neg hother]
      exact iff_of_false grow_ne_empty fun hboth => hother (hboth.1 hends)
    · rw [if_neg hends, if_neg hother, and_iff_right fun hyes => absurd hyes hends]
      refine ⟨fun heq => ?_, congrArg (grow a)⟩
      rcases eq_or_ne text [] with rfl | hne
      · rfl
      · rcases hleft : lines ends text with - | ⟨first, rest⟩
        · exact absurd (lines_eq_nil.mp hleft) hne
        rcases hright : lines other text with - | ⟨second, later⟩
        · exact absurd (lines_eq_nil.mp hright) hne
        rw [hleft, hright, grow, grow, List.cons.injEq, List.cons.injEq] at heq
        rw [heq.1.2, heq.2]

/-- Induction line by line. -/
theorem line_induction {motive : List α → Prop} (ends : α → Bool)
    (plain : ∀ line, Plain ends line → motive line)
    (split : ∀ line e rest, Plain ends line → ends e = true → motive rest →
      motive (line ++ e :: rest)) (text : List α) : motive text := by
  induction hlength : text.length using Nat.strongRecOn generalizing text with
  | ind length ih =>
    rcases plain_or_split ends text with hplain | ⟨line, e, rest, rfl, hline, he⟩
    · exact plain text hplain
    · have hshort : rest.length < length := by
        rw [← hlength, List.length_append, List.length_cons]
        omega
      exact split line e rest hline he (ih _ hshort rest rfl)

/-- Where a text that begins with a line may be taken apart at an element that is not in it. -/
theorem append_cons_cases {before after : List α} {d : α} (he : e ∉ line)
    (heq : line ++ d :: rest = before ++ e :: after) :
    (before = line ∧ e = d ∧ after = rest) ∨
      ∃ more, before = line ++ d :: more ∧ rest = more ++ e :: after := by
  rcases List.append_eq_append_iff.mp heq with ⟨more, hbefore, hrest⟩ | ⟨more, hline, hafter⟩
  · rcases more with - | ⟨b, more⟩
    · rw [List.nil_append, List.cons.injEq] at hrest
      rw [List.append_nil] at hbefore
      exact .inl ⟨hbefore, hrest.1.symm, hrest.2.symm⟩
    · rw [List.cons_append, List.cons.injEq] at hrest
      rw [← hrest.1] at hbefore
      exact .inr ⟨more, hbefore, hrest.2⟩
  · rcases more with - | ⟨b, more⟩
    · rw [List.nil_append, List.cons.injEq] at hafter
      rw [List.append_nil] at hline
      exact .inl ⟨hline.symm, hafter.1, hafter.2⟩
    · rw [List.cons_append, List.cons.injEq] at hafter
      rw [hline, hafter.1] at he
      exact absurd (List.mem_append_right before List.mem_cons_self) he

/-- Two texts with an end of a line between them. -/
theorem lines_append (he : ends e = true) (text rest : List α) :
    lines ends (text ++ e :: rest) = lines ends (text ++ [e]) ++ lines ends rest := by
  induction text with
  | nil => rw [List.nil_append, List.nil_append, lines, lines, if_pos he, if_pos he]; rfl
  | cons a text ih =>
    rw [List.cons_append, List.cons_append, lines, lines, ih]
    split
    · rfl
    · rcases hlines : lines ends (text ++ [e]) with - | ⟨first, later⟩
      · have hnil : text ++ [e] = [] := lines_eq_nil.mp hlines
        exact absurd hnil (List.append_ne_nil_of_right_ne_nil text (List.cons_ne_nil e []))
      · rfl

variable [DecidableEq α] {cr lf : α}

theorem dropReturns_append (h : cr ∉ line) (rest : List α) :
    dropReturns cr lf (line ++ rest) = line ++ dropReturns cr lf rest := by
  induction line with
  | nil => rfl
  | cons a line ih =>
    have ha : ¬(a = cr ∧ (line ++ rest).head? = some lf) := fun hreturn =>
      h (hreturn.1 ▸ List.mem_cons_self)
    rw [List.cons_append, dropReturns, if_neg ha, ih fun hmem => h (List.mem_cons_of_mem a hmem),
      List.cons_append]

theorem mem_of_mem_dropReturns {a : α} (h : a ∈ dropReturns cr lf text) : a ∈ text := by
  induction text with
  | nil => exact h
  | cons b text ih =>
    rw [dropReturns] at h
    split at h
    · exact List.mem_cons_of_mem b (ih h)
    · rcases List.mem_cons.mp h with rfl | hmem
      · exact List.mem_cons_self
      · exact List.mem_cons_of_mem b (ih hmem)

theorem dropReturns_cons_of_ne {a : α} (h : a ≠ cr) (rest : List α) :
    dropReturns cr lf (a :: rest) = a :: dropReturns cr lf rest :=
  if_neg fun hreturn => h hreturn.1

/-- A line with its end comes first, whether or not the end loses a carriage return. -/
theorem lines_dropReturns_split (h : Plain ends line) (he : ends e = true)
    (hcr : ends cr = true) (hlf : ends lf = true) (hne : lf ≠ cr) (rest : List α) :
    ∃ later, lines ends (dropReturns cr lf (line ++ e :: rest)) = line :: later := by
  have hmem : cr ∉ line := fun hcr' => by
    rw [h cr hcr'] at hcr
    cases hcr
  rw [dropReturns_append hmem, dropReturns]
  split
  · rename_i hpair
    rcases rest with - | ⟨next, rest⟩
    · cases hpair.2
    · cases hpair.2
      rw [dropReturns_cons_of_ne hne]
      exact ⟨_, lines_append_end h hlf _⟩
  · exact ⟨_, lines_append_end h he _⟩

/-- No carriage return is dropped across a line feed. -/
theorem exists_dropReturns (hne : lf ≠ cr) (text : List α) :
    ∃ kept, ∀ rest, dropReturns cr lf (text ++ lf :: rest) = kept ++ lf :: dropReturns cr lf rest := by
  induction text with
  | nil => exact ⟨[], fun rest => dropReturns_cons_of_ne hne rest⟩
  | cons a text ih =>
    rcases ih with ⟨kept, hkept⟩
    have hhead : ∀ rest, (text ++ lf :: rest).head? = (text ++ [lf]).head? := by
      intro rest
      rcases text with - | ⟨b, text⟩
      · rfl
      · rfl
    by_cases hpair : a = cr ∧ (text ++ [lf]).head? = some lf
    · refine ⟨kept, fun rest => ?_⟩
      rw [List.cons_append, dropReturns, hhead, if_pos hpair, hkept]
    · refine ⟨a :: kept, fun rest => ?_⟩
      rw [List.cons_append, dropReturns, hhead, if_neg hpair, hkept, List.cons_append]

/-- The lines of two texts with a line feed between them. -/
theorem lines_dropReturns_append (hlf : ends lf = true) (hne : lf ≠ cr) (text rest : List α) :
    lines ends (dropReturns cr lf (text ++ lf :: rest)) =
      lines ends (dropReturns cr lf (text ++ [lf])) ++ lines ends (dropReturns cr lf rest) := by
  rcases exists_dropReturns hne text with ⟨kept, hkept⟩
  have hlast : dropReturns cr lf (text ++ [lf]) = kept ++ [lf] := hkept []
  rw [hkept, hlast, lines_append hlf]

end AgenticPlatform.Lines
