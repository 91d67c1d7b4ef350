import AgenticPlatform.Basics
import Mathlib.Data.List.Forall2

/-!
# UTF-8 with replacement

A text is a list of code points; a surrogate has no encoding. Decoding takes one code point
after the other: where a sequence breaks off, what there is of it is taken for U+FFFD.
-/

namespace AgenticPlatform.Utf8

abbrev CodePoint := Fin 0x110000

def replacement : CodePoint := 0xFFFD

def carriageReturn : CodePoint := 0x0D

def lineFeed : CodePoint := 0x0A

/-- The code points of a text without surrogates. -/
def codePoints (text : String) : List CodePoint :=
  text.toList.map fun c => Fin.ofNat 0x110000 c.toNat

/-! ### Encoding -/

def isSurrogate (c : CodePoint) : Bool := 0xD800 ≤ c.val && c.val ≤ 0xDFFF

/-- The bytes of a code point. -/
def bytesOf (c : CodePoint) : List UInt8 :=
  if c.val < 0x80 then [.ofNat c.val]
  else if c.val < 0x800 then [.ofNat (0xC0 + c.val / 64), .ofNat (0x80 + c.val % 64)]
  else if c.val < 0x10000 then
    [.ofNat (0xE0 + c.val / 4096), .ofNat (0x80 + c.val / 64 % 64), .ofNat (0x80 + c.val % 64)]
  else
    [.ofNat (0xF0 + c.val / 262144), .ofNat (0x80 + c.val / 4096 % 64),
      .ofNat (0x80 + c.val / 64 % 64), .ofNat (0x80 + c.val % 64)]

def HasEncoding (text : List CodePoint) : Prop := ∀ c ∈ text, isSurrogate c = false

instance (text : List CodePoint) : Decidable (HasEncoding text) :=
  List.decidableBAll (fun c => isSurrogate c = false) text

/-- `text.encode()`. -/
def encode (text : List CodePoint) : Option (List UInt8) :=
  if HasEncoding text then some (text.flatMap bytesOf) else none

theorem toNat_lt (c : Char) : c.toNat < 0x110000 := by
  have hvalid := c.valid
  rw [Char.toNat]
  rcases hvalid with hlow | ⟨-, hhigh⟩
  · exact Nat.lt_trans hlow (by decide)
  · exact hhigh

theorem val_ofNat_toNat (c : Char) : (Fin.ofNat 0x110000 c.toNat).val = c.toNat :=
  Nat.mod_eq_of_lt (toNat_lt c)

theorem isSurrogate_ofNat_toNat (c : Char) : isSurrogate (Fin.ofNat 0x110000 c.toNat) = false := by
  have hvalid := c.valid
  rw [isSurrogate, val_ofNat_toNat, Bool.and_eq_false_iff]
  rcases hvalid with hlow | ⟨hlow, -⟩
  · have hsmall : c.toNat < 0xD800 := hlow
    exact .inl (decide_eq_false (by omega))
  · have hlarge : 0xDFFF < c.toNat := hlow
    exact .inr (decide_eq_false (by omega))

/-- A text without surrogates has an encoding. -/
theorem hasEncoding_codePoints (text : String) : HasEncoding (codePoints text) := by
  intro c hc
  obtain ⟨char, -, rfl⟩ := List.mem_map.mp hc
  exact isSurrogate_ofNat_toNat char

/-! ### Decoding -/

/-- A code point, and the bytes that it was decoded from. -/
structure Piece where
  char : CodePoint
  bytes : List UInt8
deriving DecidableEq, Repr

/-- The least and the greatest value of each byte that follows a lead byte. -/
def tails (lead : UInt8) : Option (List (Nat × Nat)) :=
  let n := lead.toNat
  if n < 0x80 then some []
  else if n < 0xC2 then none
  else if n < 0xE0 then some [(0x80, 0xBF)]
  else if n < 0xF0 then
    some [(if n = 0xE0 then 0xA0 else 0x80, if n = 0xED then 0x9F else 0xBF), (0x80, 0xBF)]
  else if n < 0xF5 then
    some [(if n = 0xF0 then 0x90 else 0x80, if n = 0xF4 then 0x8F else 0xBF), (0x80, 0xBF), (0x80, 0xBF)]
  else none

def Fits (range : Nat × Nat) (byte : UInt8) : Prop := range.1 ≤ byte.toNat ∧ byte.toNat ≤ range.2

instance (range : Nat × Nat) (byte : UInt8) : Decidable (Fits range byte) :=
  inferInstanceAs (Decidable (_ ∧ _))

/-- The bytes that follow, as far as they are what the lead byte asks for. -/
def follow : List (Nat × Nat) → List UInt8 → List UInt8
  | range :: ranges, byte :: rest => if Fits range byte then byte :: follow ranges rest else []
  | _, _ => []

/-- What a lead byte adds to the value. -/
def payload (lead : UInt8) : Nat :=
  if lead.toNat < 0x80 then lead.toNat
  else if lead.toNat < 0xE0 then lead.toNat % 32
  else if lead.toNat < 0xF0 then lead.toNat % 16
  else lead.toNat % 8

def value (lead : UInt8) (rest : List UInt8) : Nat :=
  rest.foldl (fun value byte => value * 64 + byte.toNat % 64) (payload lead)

/-- The piece that a byte begins. -/
def first (lead : UInt8) (rest : List UInt8) : Piece :=
  match tails lead with
  | none => ⟨replacement, [lead]⟩
  | some ranges =>
    if (follow ranges rest).length = ranges.length then
      ⟨Fin.ofNat 0x110000 (value lead (follow ranges rest)), lead :: follow ranges rest⟩
    else ⟨replacement, lead :: follow ranges rest⟩

variable {c : CodePoint} {lead byte : UInt8} {rest tail : List UInt8} {ranges : List (Nat × Nat)}

/-! ### The bytes after a lead byte -/

theorem follow_prefix : follow ranges rest <+: rest := by
  induction ranges generalizing rest with
  | nil => exact List.nil_prefix
  | cons range ranges ih =>
    rcases rest with - | ⟨byte, rest⟩
    · exact List.nil_prefix
    · rw [follow]
      split
      · exact List.cons_prefix_cons.mpr ⟨rfl, ih⟩
      · exact List.nil_prefix

theorem follow_length_le : (follow ranges rest).length ≤ ranges.length := by
  induction ranges generalizing rest with
  | nil => exact Nat.le_refl 0
  | cons range ranges ih =>
    rcases rest with - | ⟨byte, rest⟩
    · exact Nat.zero_le _
    · rw [follow]
      split
      · exact Nat.succ_le_succ ih
      · exact Nat.zero_le _

theorem follow_append (h : List.Forall₂ Fits ranges tail) : follow ranges (tail ++ rest) = tail := by
  induction h with
  | nil => rfl
  | cons hfits _ ih =>
    rw [List.cons_append, follow, if_pos hfits, ih]

theorem follow_fits (h : (follow ranges rest).length = ranges.length) :
    List.Forall₂ Fits ranges (follow ranges rest) := by
  induction ranges generalizing rest with
  | nil => exact .nil
  | cons range ranges ih =>
    rcases rest with - | ⟨byte, rest⟩
    · cases h
    · rw [follow] at h ⊢
      split
      · rename_i hfits
        rw [if_pos hfits] at h
        exact .cons hfits (ih (Nat.succ.inj h))
      · rename_i hfits
        rw [if_neg hfits] at h
        cases h

/-! ### A code point and its bytes -/

theorem toNat_ofNat {n : Nat} (h : n < 256) : (UInt8.ofNat n).toNat = n :=
  UInt8.toNat_ofNat_of_lt' h

theorem tails_one (h : lead.toNat < 0x80) : tails lead = some [] ∧ payload lead = lead.toNat := by
  constructor
  · simp only [tails]
    rw [if_pos h]
  · rw [payload, if_pos h]

theorem tails_two (hleast : 0xC2 ≤ lead.toNat) (h : lead.toNat < 0xE0) :
    tails lead = some [(0x80, 0xBF)] ∧ payload lead = lead.toNat % 32 := by
  constructor
  · simp only [tails]
    rw [if_neg (by omega), if_neg (by omega), if_pos h]
  · rw [payload, if_neg (by omega), if_pos h]

theorem tails_three (hleast : 0xE0 ≤ lead.toNat) (h : lead.toNat < 0xF0) :
    tails lead = some [(if lead.toNat = 0xE0 then 0xA0 else 0x80,
      if lead.toNat = 0xED then 0x9F else 0xBF), (0x80, 0xBF)] ∧ payload lead = lead.toNat % 16 := by
  constructor
  · simp only [tails]
    rw [if_neg (by omega), if_neg (by omega), if_neg (by omega), if_pos h]
  · rw [payload, if_neg (by omega), if_neg (by omega), if_pos h]

theorem tails_four (hleast : 0xF0 ≤ lead.toNat) (h : lead.toNat < 0xF5) :
    tails lead = some [(if lead.toNat = 0xF0 then 0x90 else 0x80,
      if lead.toNat = 0xF4 then 0x8F else 0xBF), (0x80, 0xBF), (0x80, 0xBF)] ∧
        payload lead = lead.toNat % 8 := by
  constructor
  · simp only [tails]
    rw [if_neg (by omega), if_neg (by omega), if_neg (by omega), if_neg (by omega), if_pos h]
  · rw [payload, if_neg (by omega), if_neg (by omega), if_neg (by omega)]

theorem tails_none (h : 0x80 ≤ lead.toNat) (hlead : lead.toNat < 0xC2 ∨ 0xF5 ≤ lead.toNat) :
    tails lead = none := by
  simp only [tails]
  rw [if_neg (by omega)]
  split
  · rfl
  · rw [if_neg (by omega), if_neg (by omega), if_neg (by omega)]

theorem not_surrogate_iff : isSurrogate c = false ↔ c.val < 0xD800 ∨ 0xDFFF < c.val := by
  simp only [isSurrogate, Bool.and_eq_false_iff, decide_eq_false_iff_not]
  omega

/-- The bytes of a code point are a lead byte and the bytes that it asks for. -/
theorem bytesOf_fits (h : isSurrogate c = false) : ∃ lead tail ranges, bytesOf c = lead :: tail ∧
    tails lead = some ranges ∧ List.Forall₂ Fits ranges tail ∧ value lead tail = c.val := by
  have hbound := c.isLt
  have hplain := not_surrogate_iff.mp h
  have hlast : (UInt8.ofNat (0x80 + c.val % 64)).toNat = 0x80 + c.val % 64 := toNat_ofNat (by omega)
  have hsecond : (UInt8.ofNat (0x80 + c.val / 64 % 64)).toNat = 0x80 + c.val / 64 % 64 :=
    toNat_ofNat (by omega)
  have hthird : (UInt8.ofNat (0x80 + c.val / 4096 % 64)).toNat = 0x80 + c.val / 4096 % 64 :=
    toNat_ofNat (by omega)
  rw [bytesOf]
  split
  · have hlead : (UInt8.ofNat c.val).toNat = c.val := toNat_ofNat (by omega)
    rcases @tails_one (.ofNat c.val) (by omega) with ⟨htails, hpayload⟩
    refine ⟨_, _, _, rfl, htails, .nil, ?_⟩
    rw [value, List.foldl_nil, hpayload, hlead]
  · split
    · have hlead : (UInt8.ofNat (0xC0 + c.val / 64)).toNat = 0xC0 + c.val / 64 := toNat_ofNat (by omega)
      rcases @tails_two (.ofNat (0xC0 + c.val / 64)) (by omega) (by omega) with ⟨htails, hpayload⟩
      refine ⟨_, _, _, rfl, htails, .cons ?_ .nil, ?_⟩
      · simp only [Fits, hlast]
        omega
      · simp only [value, List.foldl_cons, List.foldl_nil, hpayload, hlead, hlast]
        omega
    · split
      · have hlead : (UInt8.ofNat (0xE0 + c.val / 4096)).toNat = 0xE0 + c.val / 4096 :=
          toNat_ofNat (by omega)
        rcases @tails_three (.ofNat (0xE0 + c.val / 4096)) (by omega) (by omega) with
          ⟨htails, hpayload⟩
        refine ⟨_, _, _, rfl, htails, .cons ?_ (.cons ?_ .nil), ?_⟩
        · simp only [Fits, hlead, hsecond]
          constructor
          · split <;> omega
          · split <;> omega
        · simp only [Fits, hlast]
          omega
        · simp only [value, List.foldl_cons, List.foldl_nil, hpayload, hlead, hsecond, hlast]
          omega
      · have hlead : (UInt8.ofNat (0xF0 + c.val / 262144)).toNat = 0xF0 + c.val / 262144 :=
          toNat_ofNat (by omega)
        rcases @tails_four (.ofNat (0xF0 + c.val / 262144)) (by omega) (by omega) with
          ⟨htails, hpayload⟩
        refine ⟨_, _, _, rfl, htails, .cons ?_ (.cons ?_ (.cons ?_ .nil)), ?_⟩
        · simp only [Fits, hlead, hthird]
          constructor
          · split <;> omega
          · split <;> omega
        · simp only [Fits, hsecond]
          omega
        · simp only [Fits, hlast]
          omega
        · simp only [value, List.foldl_cons, List.foldl_nil, hpayload, hlead, hthird, hsecond, hlast]
          omega

theorem ofNat_eq {n : Nat} (h : n = byte.toNat) : UInt8.ofNat n = byte := by
  rw [h, UInt8.ofNat_toNat]

theorem bytesOf_two {second : UInt8} (hlead : 0xC2 ≤ lead.toNat ∧ lead.toNat < 0xE0)
    (hsecond : 0x80 ≤ second.toNat ∧ second.toNat ≤ 0xBF)
    (hc : c.val = (lead.toNat - 0xC0) * 64 + (second.toNat - 0x80)) :
    isSurrogate c = false ∧ bytesOf c = [lead, second] := by
  refine ⟨not_surrogate_iff.mpr (by omega), ?_⟩
  rw [bytesOf, if_neg (by omega), if_pos (by omega), @ofNat_eq lead _ (by omega),
    @ofNat_eq second _ (by omega)]

theorem bytesOf_three {second third : UInt8} (hlead : 0xE0 ≤ lead.toNat ∧ lead.toNat < 0xF0)
    (hsecond : 0x80 ≤ second.toNat ∧ second.toNat ≤ 0xBF) (hthird : 0x80 ≤ third.toNat ∧ third.toNat ≤ 0xBF)
    (hleast : lead.toNat = 0xE0 → 0xA0 ≤ second.toNat) (hgreatest : lead.toNat = 0xED → second.toNat ≤ 0x9F)
    (hc : c.val = ((lead.toNat - 0xE0) * 64 + (second.toNat - 0x80)) * 64 + (third.toNat - 0x80)) :
    isSurrogate c = false ∧ bytesOf c = [lead, second, third] := by
  refine ⟨not_surrogate_iff.mpr (by omega), ?_⟩
  rw [bytesOf, if_neg (by omega), if_neg (by omega), if_pos (by omega),
    @ofNat_eq lead _ (by omega), @ofNat_eq second _ (by omega),
    @ofNat_eq third _ (by omega)]

theorem bytesOf_four {second third fourth : UInt8} (hlead : 0xF0 ≤ lead.toNat ∧ lead.toNat < 0xF5)
    (hsecond : 0x80 ≤ second.toNat ∧ second.toNat ≤ 0xBF) (hthird : 0x80 ≤ third.toNat ∧ third.toNat ≤ 0xBF)
    (hfourth : 0x80 ≤ fourth.toNat ∧ fourth.toNat ≤ 0xBF)
    (hleast : lead.toNat = 0xF0 → 0x90 ≤ second.toNat)
    (hc : c.val = (((lead.toNat - 0xF0) * 64 + (second.toNat - 0x80)) * 64 + (third.toNat - 0x80)) * 64 +
      (fourth.toNat - 0x80)) : isSurrogate c = false ∧ bytesOf c = [lead, second, third, fourth] := by
  refine ⟨not_surrogate_iff.mpr (by omega), ?_⟩
  rw [bytesOf, if_neg (by omega), if_neg (by omega), if_neg (by omega),
    @ofNat_eq lead _ (by omega), @ofNat_eq second _ (by omega),
    @ofNat_eq third _ (by omega), @ofNat_eq fourth _ (by omega)]

theorem mod_of_tail (h : 0x80 ≤ byte.toNat ∧ byte.toNat ≤ 0xBF) : byte.toNat % 64 = byte.toNat - 0x80 := by
  omega

/-- A lead byte and the bytes that it asks for are the bytes of a code point. -/
theorem bytesOf_value (htails : tails lead = some ranges) (hfits : List.Forall₂ Fits ranges tail)
    (hc : c = Fin.ofNat 0x110000 (value lead tail)) :
    isSurrogate c = false ∧ bytesOf c = lead :: tail := by
  have hval : c.val = value lead tail % 0x110000 := by
    rw [hc]
    rfl
  rcases Nat.lt_or_ge lead.toNat 0x80 with hone | hone
  · rcases tails_one hone with ⟨hranges, hpayload⟩
    cases htails.symm.trans hranges
    cases hfits
    rw [value, List.foldl_nil, hpayload] at hval
    refine ⟨not_surrogate_iff.mpr (by omega), ?_⟩
    rw [bytesOf, if_pos (by omega), @ofNat_eq lead _ (by omega)]
  · have hlead : 0xC2 ≤ lead.toNat ∧ lead.toNat < 0xF5 := by
      by_contra hnone
      rw [tails_none hone (by omega)] at htails
      cases htails
    rcases Nat.lt_or_ge lead.toNat 0xE0 with htwo | htwo
    · rcases tails_two hlead.1 htwo with ⟨hranges, hpayload⟩
      cases htails.symm.trans hranges
      rcases List.forall₂_cons_left_iff.mp hfits with ⟨second, rest, hsecond, hrest, rfl⟩
      cases hrest
      simp only [Fits] at hsecond
      simp only [value, List.foldl_cons, List.foldl_nil, hpayload, mod_of_tail hsecond] at hval
      exact bytesOf_two ⟨hlead.1, htwo⟩ hsecond (by omega)
    · rcases Nat.lt_or_ge lead.toNat 0xF0 with hthree | hthree
      · rcases tails_three htwo hthree with ⟨hranges, hpayload⟩
        cases htails.symm.trans hranges
        rcases List.forall₂_cons_left_iff.mp hfits with ⟨second, tail, hsecond, htail, rfl⟩
        rcases List.forall₂_cons_left_iff.mp htail with ⟨third, rest, hthird, hrest, rfl⟩
        cases hrest
        simp only [Fits] at hsecond hthird
        have hbounds : 0x80 ≤ second.toNat ∧ second.toNat ≤ 0xBF := by
          constructor
          · split at hsecond <;> omega
          · split at hsecond <;> split at hsecond <;> omega
        simp only [value, List.foldl_cons, List.foldl_nil, hpayload, mod_of_tail hbounds,
          mod_of_tail hthird] at hval
        refine bytesOf_three ⟨htwo, hthree⟩ hbounds hthird ?_ ?_ (by omega)
        · intro hE0
          rw [if_pos hE0] at hsecond
          exact hsecond.1
        · intro hED
          rw [if_pos hED] at hsecond
          exact hsecond.2
      · rcases tails_four hthree hlead.2 with ⟨hranges, hpayload⟩
        cases htails.symm.trans hranges
        rcases List.forall₂_cons_left_iff.mp hfits with ⟨second, tail, hsecond, htail, rfl⟩
        rcases List.forall₂_cons_left_iff.mp htail with ⟨third, later, hthird, hlater, rfl⟩
        rcases List.forall₂_cons_left_iff.mp hlater with ⟨fourth, rest, hfourth, hrest, rfl⟩
        cases hrest
        simp only [Fits] at hsecond hthird hfourth
        have hbounds : 0x80 ≤ second.toNat ∧ second.toNat ≤ 0xBF := by
          constructor
          · split at hsecond <;> omega
          · split at hsecond <;> split at hsecond <;> omega
        have hgreatest : lead.toNat = 0xF4 → second.toNat ≤ 0x8F := by
          intro hF4
          rw [if_pos hF4] at hsecond
          exact hsecond.2
        simp only [value, List.foldl_cons, List.foldl_nil, hpayload, mod_of_tail hbounds,
          mod_of_tail hthird, mod_of_tail hfourth] at hval
        have hsmall : lead.toNat % 8 = lead.toNat - 0xF0 := by omega
        rw [hsmall, Nat.mod_eq_of_lt (by omega)] at hval
        refine bytesOf_four ⟨hthree, hlead.2⟩ hbounds hthird hfourth ?_ hval
        intro hF0
        rw [if_pos hF0] at hsecond
        exact hsecond.1

/-! ### The first code point of a byte string -/

/-- A code point that stands for its own bytes. -/
structure Whole (piece : Piece) : Prop where
  plain : isSurrogate piece.char = false
  bytes_eq : piece.bytes = bytesOf piece.char

/-- What there is of a sequence that breaks off, or a byte that begins none. -/
structure Broken (lead : UInt8) (piece : Piece) : Prop where
  char_eq : piece.char = replacement
  bytes_eq : ∃ tail, piece.bytes = lead :: tail ∧ (tails lead = none → tail = []) ∧
    ∀ ranges, tails lead = some ranges → tail.length < ranges.length

theorem first_encoded (h : isSurrogate c = false) (htail : bytesOf c = lead :: tail) :
    first lead (tail ++ rest) = ⟨c, bytesOf c⟩ := by
  rcases bytesOf_fits h with ⟨lead', tail', ranges, hbytes, htails, hfits, hvalue⟩
  rw [htail] at hbytes
  cases hbytes
  have hfollow : follow ranges (tail ++ rest) = tail := follow_append hfits
  simp only [first, htails, hfollow]
  rw [if_pos hfits.length_eq.symm, hvalue, htail, Fin.ofNat_val_eq_self]

theorem first_bytes : ∃ tail, tail <+: rest ∧ (first lead rest).bytes = lead :: tail := by
  rw [first]
  split
  · exact ⟨[], List.nil_prefix, rfl⟩
  · split
    · exact ⟨_, follow_prefix, rfl⟩
    · exact ⟨_, follow_prefix, rfl⟩

theorem first_whole_or_broken : Whole (first lead rest) ∨ Broken lead (first lead rest) := by
  rw [first]
  split
  · rename_i htails
    refine .inr ⟨rfl, [], rfl, fun _ => rfl, ?_⟩
    intro ranges hranges
    rw [htails] at hranges
    cases hranges
  · rename_i ranges htails
    split
    · rename_i hlength
      rcases bytesOf_value htails (follow_fits hlength) rfl with ⟨hplain, hbytes⟩
      exact .inl ⟨hplain, hbytes.symm⟩
    · rename_i hlength
      refine .inr ⟨rfl, _, rfl, ?_, ?_⟩
      · intro hnone
        rw [htails] at hnone
        cases hnone
      · intro ranges' hranges
        rw [htails] at hranges
        cases hranges
        exact Nat.lt_of_le_of_ne follow_length_le hlength

end AgenticPlatform.Utf8
