import AgenticPlatform.JsonWeights

/-!
# Where the strings of a document stand

The text that `json.dumps` writes, and what is left of it when parts between angle brackets are
taken away, is read as strings from any quotation mark on without an escape for a quotation mark or
an angle bracket but `\"`. So whatever is read from it weighs no more than it has of the character.
-/

namespace AgenticPlatform.Json

open Utf8 (CodePoint)

/-! ### Where the strings of a text stand -/

inductive Place where
  | outside
  | inside

/-- A text as `json.dumps` puts it together, from a place outside or inside a string to another.
    Outside there are no quotation marks but those of strings, and no angle brackets. -/
inductive Lexes : Place → List Char → Place → Prop
  | nil (place : Place) : Lexes place [] place
  | plain {c : Char} {text : List Char} {place : Place} (hc : c ∉ ['"', '\\', '<', '>'])
      (rest : Lexes .outside text place) : Lexes .outside (c :: text) place
  | opening {text : List Char} {place : Place} (rest : Lexes .inside text place) :
      Lexes .outside ('"' :: text) place
  | escaped (c : CodePoint) {text : List Char} {place : Place} (rest : Lexes .inside text place) :
      Lexes .inside (escape c ++ text) place
  | closing {text : List Char} {place : Place} (rest : Lexes .outside text place) :
      Lexes .inside ('"' :: text) place

section Lexing

variable {place middle last : Place} {front back text rest : List Char} {c : Char} {d : CodePoint} {sign : Char}

theorem Lexes.append (hfront : Lexes place front middle) (hback : Lexes middle back last) :
    Lexes place (front ++ back) last := by
  induction hfront with
  | nil => exact hback
  | plain hc _ ih => exact .plain hc (ih hback)
  | opening _ ih => exact .opening (ih hback)
  | escaped c _ ih =>
    rw [List.append_assoc]
    exact .escaped c (ih hback)
  | closing _ ih => exact .closing (ih hback)

theorem lexes_plain (h : ∀ c ∈ text, c ∉ ['"', '\\', '<', '>']) : Lexes .outside text .outside := by
  induction text with
  | nil => exact .nil _
  | cons c text ih =>
    rw [List.forall_mem_cons] at h
    exact .plain h.1 (ih h.2)

theorem lexes_escapes (text : List CodePoint) : Lexes .inside (text.flatMap escape) .inside := by
  induction text with
  | nil => exact .nil _
  | cons c text ih =>
    rw [List.flatMap_cons]
    exact .escaped c ih

theorem lexes_writeText (text : List CodePoint) : Lexes .outside (writeText text) .outside :=
  .opening ((lexes_escapes text).append (.closing (.nil _)))

/-! A code point is a character, a backslash and a letter, or the escape of a number. -/

theorem unicodeEscape_notMem {n : Nat} (hn : n < 0x10000) (hc : c ∈ ['"', '<', '>']) : c ∉ unicodeEscape n := by
  have hmem : c ∈ marks := by
    simp only [marks, List.mem_cons, List.not_mem_nil, or_false] at hc ⊢
    rcases hc with rfl | rfl | rfl <;> simp
  have hdigit : ∀ m < 16, c ≠ Nat.digitChar m := by
    rintro m hm rfl
    exact digitChar_notMem hm hmem
  have hletters : c ≠ '\\' ∧ c ≠ 'u' := by
    simp only [List.mem_cons, List.not_mem_nil, or_false] at hc
    rcases hc with rfl | rfl | rfl <;> decide
  simp only [unicodeEscape, List.mem_cons, List.not_mem_nil, or_false, not_or]
  exact ⟨hletters.1, hletters.2, hdigit _ (by omega), hdigit _ (by omega), hdigit _ (by omega), hdigit _ (by omega)⟩

/-- The quotation mark and the angle brackets are written only for themselves. -/
theorem escape_notMem (hc : c ∈ ['"', '<', '>']) (hd : d.val ≠ c.toNat) : c ∉ escape d := by
  have hnamed : ∀ letter : Char, letter ∉ ['"', '<', '>'] → c ∉ ['\\', letter] := by
    intro letter hletter hmem
    simp only [List.mem_cons, List.not_mem_nil, or_false] at hmem
    rcases hmem with rfl | rfl
    · revert hc
      decide
    · exact hletter hc
  rw [escape]
  split_ifs with hquote hbackslash hfeed hreturn htab hform hbell hplain hbasic
  · intro hmem
    simp only [List.mem_cons, List.not_mem_nil, or_false] at hmem
    rcases hmem with rfl | rfl
    · revert hc
      decide
    · exact hd hquote
  · exact hnamed '\\' (by decide)
  · exact hnamed 'n' (by decide)
  · exact hnamed 'r' (by decide)
  · exact hnamed 't' (by decide)
  · exact hnamed 'f' (by decide)
  · exact hnamed 'b' (by decide)
  · rw [List.mem_singleton]
    rintro rfl
    exact hd (toNat_ofNat hplain.2).symm
  · exact unicodeEscape_notMem hbasic hc
  · have hhigh := highOf_lt (Nat.le_of_not_lt hbasic)
    have hlow := @lowOf_lt d
    rw [List.mem_append, not_or]
    exact ⟨unicodeEscape_notMem (by omega) hc, unicodeEscape_notMem (by omega) hc⟩

theorem escape_quote (h : '"' ∈ escape d) : d.val = 34 ∧ escape d = ['\\', '"'] := by
  have hd : d.val = 34 := by
    by_contra hne
    exact escape_notMem (by decide) hne h
  exact ⟨hd, by rw [escape, if_pos hd]⟩

theorem escape_bracket (hc : c ∈ ['<', '>']) (h : c ∈ escape d) : d.val = c.toNat ∧ escape d = [c] := by
  have hd : d.val = c.toNat := by
    by_contra hne
    refine escape_notMem ?_ hne h
    exact List.mem_cons_of_mem _ hc
  refine ⟨hd, ?_⟩
  simp only [List.mem_cons, List.not_mem_nil, or_false] at hc
  rw [escape, hd]
  rcases hc with rfl | rfl <;> rfl

/-- After a quotation mark, wherever it stands, the text goes on as it would after another. -/
theorem Lexes.after_quote (h : Lexes place text last) (htext : text = front ++ '"' :: back) :
    ∃ middle, Lexes middle back last := by
  induction h generalizing front with
  | nil => simp at htext
  | plain hc rest ih =>
    rcases front with - | ⟨first, front⟩
    · rw [List.nil_append, List.cons.injEq] at htext
      rw [htext.1] at hc
      exact absurd List.mem_cons_self hc
    · rw [List.cons_append, List.cons.injEq] at htext
      exact ih htext.2
  | opening rest ih | closing rest ih =>
    rcases front with - | ⟨first, front⟩
    · rw [List.nil_append, List.cons.injEq] at htext
      rw [← htext.2]
      exact ⟨_, rest⟩
    · rw [List.cons_append, List.cons.injEq] at htext
      exact ih htext.2
  | @escaped d text _ rest ih =>
    rcases List.append_eq_append_iff.mp htext with ⟨more, -, hmore⟩ | ⟨more, hescape, hmore⟩
    · exact ih hmore
    · rcases more with - | ⟨first, more⟩
      · exact @ih [] hmore.symm
      · rw [List.cons_append, List.cons.injEq] at hmore
        rw [← hmore.1] at hescape
        have hquote : '"' ∈ escape d := by
          rw [hescape]
          exact List.mem_append_right front List.mem_cons_self
        rw [(escape_quote hquote).2] at hescape
        -- The quotation mark is the second of the two characters.
        have hlast : more = [] := by
          rcases front with - | ⟨backslash, front⟩
          · cases hescape
          · rw [List.cons_append, List.cons.injEq] at hescape
            exact (List.append_eq_singleton_iff.mp hescape.2.symm).elim
              (fun hsecond => (List.cons.inj hsecond.2).2) (fun hnone => nomatch hnone.2)
        rw [hmore.2, hlast, List.nil_append]
        exact ⟨_, rest⟩

/-- Angle brackets stand in strings only. -/
theorem Lexes.split_bracket (h : Lexes place text last) (hc : c ∈ ['<', '>']) (htext : text = front ++ c :: back) :
    Lexes place front .inside ∧ Lexes .inside back last := by
  have hquote : c ≠ '"' := by
    rintro rfl
    revert hc
    decide
  induction h generalizing front with
  | nil => simp at htext
  | plain hplain rest ih =>
    rcases front with - | ⟨first, front⟩
    · rw [List.nil_append, List.cons.injEq] at htext
      rw [htext.1] at hplain
      exact absurd (List.mem_cons_of_mem _ (List.mem_cons_of_mem _ hc)) hplain
    · rw [List.cons_append, List.cons.injEq] at htext
      obtain ⟨hfront, hback⟩ := ih htext.2
      rw [← htext.1]
      exact ⟨.plain hplain hfront, hback⟩
  | opening rest ih =>
    rcases front with - | ⟨first, front⟩
    · rw [List.nil_append, List.cons.injEq] at htext
      exact absurd htext.1.symm hquote
    · rw [List.cons_append, List.cons.injEq] at htext
      obtain ⟨hfront, hback⟩ := ih htext.2
      rw [← htext.1]
      exact ⟨.opening hfront, hback⟩
  | closing rest ih =>
    rcases front with - | ⟨first, front⟩
    · rw [List.nil_append, List.cons.injEq] at htext
      exact absurd htext.1.symm hquote
    · rw [List.cons_append, List.cons.injEq] at htext
      obtain ⟨hfront, hback⟩ := ih htext.2
      rw [← htext.1]
      exact ⟨.closing hfront, hback⟩
  | @escaped d text _ rest ih =>
    rcases List.append_eq_append_iff.mp htext with ⟨more, hfront, hmore⟩ | ⟨more, hescape, hmore⟩
    · obtain ⟨hinside, hback⟩ := ih hmore
      rw [hfront]
      exact ⟨.escaped d hinside, hback⟩
    · rcases more with - | ⟨first, more⟩
      · rw [List.append_nil] at hescape
        obtain ⟨hinside, hback⟩ := @ih [] hmore.symm
        rw [← hescape]
        have hfront := Lexes.escaped d hinside
        rw [List.append_nil] at hfront
        exact ⟨hfront, hback⟩
      · rw [List.cons_append, List.cons.injEq] at hmore
        rw [← hmore.1] at hescape
        have hbracket : c ∈ escape d := by
          rw [hescape]
          exact List.mem_append_right front List.mem_cons_self
        rw [(escape_bracket hc hbracket).2] at hescape
        rcases List.append_eq_singleton_iff.mp hescape.symm with ⟨hfront, hlast⟩ | ⟨-, hnone⟩
        · rw [hmore.2, hfront, (List.cons.inj hlast).2]
          exact ⟨.nil _, rest⟩
        · cases hnone

/-! Each code point counts as it is written. -/

theorem toNat_sign (hsign : sign ∈ ['"', '<', '>']) : sign.toNat < 0xD800 := by
  simp only [List.mem_cons, List.not_mem_nil, or_false] at hsign
  rcases hsign with rfl | rfl | rfl <;> decide

theorem count_escape (hsign : sign ∈ ['"', '<', '>']) (d : CodePoint) :
    (escape d).count sign = countOf sign [d] := by
  rw [countOf, List.countP_singleton]
  by_cases hd : d.val = sign.toNat
  · rw [if_pos (beq_iff_eq.mpr hd), escape, hd]
    simp only [List.mem_cons, List.not_mem_nil, or_false] at hsign
    rcases hsign with rfl | rfl | rfl <;> rfl
  · rw [if_neg (fun heq => hd (beq_iff_eq.mp heq))]
    exact List.count_eq_zero_of_not_mem (escape_notMem hsign hd)

theorem countOf_units (hsign : sign ∈ ['"', '<', '>']) (d : CodePoint) :
    countOf sign (units d) = countOf sign [d] := by
  have hbasic := toNat_sign hsign
  rw [units]
  split
  · rfl
  · rename_i hastral
    have hhigh := @highOf_lt d (by omega)
    have hlow := @lowOf_lt d
    have hleast : 0xD800 ≤ highOf d := Nat.le_add_right ..
    have hleast' : 0xDC00 ≤ lowOf d := Nat.le_add_right ..
    rw [countOf, countOf, List.countP_eq_zero.mpr, List.countP_eq_zero.mpr]
    · rw [List.forall_mem_singleton, beq_iff_eq]
      omega
    · rw [List.forall_mem_cons, List.forall_mem_singleton, beq_iff_eq, beq_iff_eq, val_codePoint (by omega),
        val_codePoint (by omega)]
      omega

theorem countOf_append (front back : List CodePoint) :
    countOf sign (front ++ back) = countOf sign front + countOf sign back :=
  List.countP_append

theorem countOf_cons (d : CodePoint) (text : List CodePoint) :
    countOf sign (d :: text) = countOf sign [d] + countOf sign text :=
  countOf_append [d] text

theorem count_escapes (hsign : sign ∈ ['"', '<', '>']) (text : List CodePoint) :
    (text.flatMap escape).count sign = countOf sign text := by
  induction text with
  | nil => rfl
  | cons d text ih => rw [List.flatMap_cons, List.count_append, count_escape hsign, ih, countOf_cons d text]

theorem count_writeText (hsign : sign ∈ ['"', '<', '>']) (text : List CodePoint) :
    (writeText text).count sign = countOf sign text + quotes sign := by
  rw [writeText, List.count_append, List.count_cons, count_escapes hsign, List.count_singleton, quotes]
  by_cases hquote : sign = '"'
  · rw [hquote]
    simp
  · simp [hquote, Ne.symm hquote]

/-- A string read from a lexed text costs what it weighs. -/
theorem Lexes.cost (hsign : sign ∈ ['"', '<', '>']) (h : Lexes place text last) {chars : List CodePoint}
    (hread : scanText text = .ok (chars, rest)) :
    countOf sign chars + quotes sign + rest.count sign ≤ ('"' :: text).count sign := by
  have hquotes : ∀ text : List Char, 0 + quotes sign + text.count sign ≤ ('"' :: '"' :: text).count sign := by
    intro text
    rw [List.count_cons, List.count_cons, quotes]
    by_cases hquote : sign = '"'
    · rw [hquote]
      simp only [if_true, beq_self_eq_true]
      omega
    · simp [hquote, Ne.symm hquote]
  induction h generalizing chars rest with
  | nil => cases hread
  | opening _ | closing _ =>
    rw [scanText.eq_def] at hread
    cases hread
    exact hquotes _
  | @plain c text _ hc _ ih =>
    simp only [List.mem_cons, List.not_mem_nil, or_false, not_or] at hc
    rw [scanText.eq_def] at hread
    dsimp only at hread
    rw [if_neg hc.1, if_neg hc.2.1] at hread
    split at hread
    · cases hread
    · obtain ⟨⟨before, after⟩, hbefore, hresult⟩ := map_eq_ok hread
      rw [prepend, Prod.mk.injEq] at hresult
      obtain ⟨rfl, rfl⟩ := hresult
      have hcost := ih hbefore
      have hone : countOf sign [codePoint c.toNat] ≤ [c].count sign := by
        rw [countOf, List.countP_singleton, val_codePoint (Utf8.toNat_lt c)]
        split
        · rename_i heq
          rw [Char.toNat_inj.mp (beq_iff_eq.mp heq), List.count_singleton_self]
        · exact Nat.zero_le _
      rw [countOf_cons]
      simp only [List.count_cons, List.count_nil] at hcost hone ⊢
      omega
  | @escaped d text _ _ ih =>
    rw [scanText_escape] at hread
    obtain ⟨⟨before, after⟩, hbefore, hresult⟩ := map_eq_ok hread
    rw [prependAll, Prod.mk.injEq] at hresult
    obtain ⟨rfl, rfl⟩ := hresult
    have hcost := ih hbefore
    rw [countOf_append, countOf_units hsign, ← count_escape hsign]
    simp only [List.count_cons, List.count_append] at hcost ⊢
    omega

theorem Lexes.pays (hsign : sign ∈ ['"', '<', '>']) (h : Lexes place text last) : Pays sign text := by
  intro front back chars rest htext hread
  obtain ⟨middle, hback⟩ := h.after_quote htext
  exact hback.cost hsign hread

end Lexing

/-! ### What is written weighs as much as its text -/

section Written

variable {layout : Layout} {repr : Binary64 → List Char} {sign : Char} {text : List Char} {c : Char}

theorem lexes_bare (h : ∀ c ∈ text, c ∉ marks) : Lexes .outside text .outside := by
  apply lexes_plain
  intro c hc hmem
  apply h c hc
  simp only [marks, List.mem_cons, List.not_mem_nil, or_false] at hmem ⊢
  rcases hmem with rfl | rfl | rfl | rfl <;> simp

theorem lexes_pieces (hrepr : Numeral repr) : Pieces layout repr (Lexes .outside · .outside) where
  append := Lexes.append
  sign := by
    intro c hc
    refine lexes_plain (List.forall_mem_singleton.mpr ?_)
    simp only [List.mem_cons, List.not_mem_nil, or_false] at hc
    rcases hc with rfl | rfl | rfl | rfl | rfl | rfl <;> decide
  opening level := lexes_bare (blank_notMem (layout.opening_blank level))
  between level := lexes_bare (blank_notMem (layout.between_blank level))
  closing level := lexes_bare (blank_notMem (layout.closing_blank level))
  colon := lexes_bare (blank_notMem layout.colon_blank)
  word _ hword := lexes_bare (word_notMem hword)
  int n := lexes_bare (writeInt_notMem n)
  float x := lexes_bare (hrepr.notMem x)
  text := lexes_writeText

theorem lexes_write (hrepr : Numeral repr) (value : Json) (level : Nat) :
    Lexes .outside (write layout repr level value) .outside :=
  (lexes_pieces hrepr).write value level

theorem count_bare (hsign : sign ∈ ['"', '<', '>']) (h : ∀ c ∈ text, c ∉ marks) : text.count sign = 0 := by
  rw [List.count_eq_zero]
  intro hmem
  apply h sign hmem
  simp only [marks, List.mem_cons, List.not_mem_nil, or_false] at hsign ⊢
  rcases hsign with rfl | rfl | rfl <;> simp

theorem count_structure (hsign : sign ∈ ['"', '<', '>']) (hc : c ∈ ['[', ']', '{', '}', ',', ':']) :
    [c].count sign = 0 := by
  rw [List.count_eq_zero, List.mem_singleton]
  rintro rfl
  revert hc
  simp only [List.mem_cons, List.not_mem_nil, or_false] at hsign
  rcases hsign with rfl | rfl | rfl <;> decide

mutual

/-- **The text of a value has the character as often as the value weighs.** -/
theorem count_write (hrepr : Numeral repr) (hsign : sign ∈ ['"', '<', '>']) : ∀ (value : Json) (level : Nat),
    (write layout repr level value).count sign = weight sign value
  | .null, _ => count_bare hsign (@word_notMem ("null", .null) (by simp [words]))
  | .bool true, _ => count_bare hsign (@word_notMem ("true", .bool true) (by simp [words]))
  | .bool false, _ => count_bare hsign (@word_notMem ("false", .bool false) (by simp [words]))
  | .int n, _ => count_bare hsign (writeInt_notMem n)
  | .float x, _ => count_bare hsign (hrepr.notMem x)
  | .str text, _ => count_writeText hsign text
  | .arr [], _ => by
    have hsigns : "[]".toList.count sign = 0 := by
      simp only [List.mem_cons, List.not_mem_nil, or_false] at hsign
      rcases hsign with rfl | rfl | rfl <;> decide
    exact hsigns
  | .arr (item :: items), level => by
    have hopening := count_bare hsign (blank_notMem (layout.opening_blank level))
    have hbracket := @count_structure sign '[' hsign (by decide)
    have hitem := count_write hrepr hsign item (level + 1)
    have hitems := count_writeItems hrepr hsign items level
    rw [write, weight, weightItems]
    simp only [List.count_append, List.count_cons, List.count_nil] at hbracket ⊢
    omega
  | .obj [], _ => by
    have hsigns : ['{', '}'].count sign = 0 := by
      simp only [List.mem_cons, List.not_mem_nil, or_false] at hsign
      rcases hsign with rfl | rfl | rfl <;> decide
    exact hsigns
  | .obj ((name, value) :: entries), level => by
    have hopening := count_bare hsign (blank_notMem (layout.opening_blank level))
    have hcolon := count_bare hsign (blank_notMem layout.colon_blank)
    have hbrace := @count_structure sign '{' hsign (by decide)
    have hsep := @count_structure sign ':' hsign (by decide)
    have hname := @count_writeText sign hsign name
    have hvalue := count_write hrepr hsign value (level + 1)
    have hentries := count_writeEntries hrepr hsign entries level
    rw [write, weight, weightEntries]
    simp only [List.count_append, List.count_cons, List.count_nil] at hbrace hsep ⊢
    omega

theorem count_writeItems (hrepr : Numeral repr) (hsign : sign ∈ ['"', '<', '>']) :
    ∀ (items : List Json) (level : Nat), (writeItems layout repr level items).count sign = weightItems sign items
  | [], level => by
    have hclosing := count_bare hsign (blank_notMem (layout.closing_blank level))
    have hbracket := @count_structure sign ']' hsign (by decide)
    rw [writeItems, weightItems, List.count_append]
    omega
  | item :: items, level => by
    have hbetween := count_bare hsign (blank_notMem (layout.between_blank level))
    have hcomma := @count_structure sign ',' hsign (by decide)
    have hitem := count_write hrepr hsign item (level + 1)
    have hitems := count_writeItems hrepr hsign items level
    rw [writeItems, weightItems]
    simp only [List.count_append, List.count_cons, List.count_nil] at hcomma ⊢
    omega

theorem count_writeEntries (hrepr : Numeral repr) (hsign : sign ∈ ['"', '<', '>']) :
    ∀ (entries : List (List CodePoint × Json)) (level : Nat),
      (writeEntries layout repr level entries).count sign = weightEntries sign entries
  | [], level => by
    have hclosing := count_bare hsign (blank_notMem (layout.closing_blank level))
    have hbrace := @count_structure sign '}' hsign (by decide)
    rw [writeEntries, weightEntries, List.count_append]
    omega
  | (name, value) :: entries, level => by
    have hbetween := count_bare hsign (blank_notMem (layout.between_blank level))
    have hcolon := count_bare hsign (blank_notMem layout.colon_blank)
    have hcomma := @count_structure sign ',' hsign (by decide)
    have hsep := @count_structure sign ':' hsign (by decide)
    have hname := @count_writeText sign hsign name
    have hvalue := count_write hrepr hsign value (level + 1)
    have hentries := count_writeEntries hrepr hsign entries level
    rw [writeEntries, weightEntries]
    simp only [List.count_append, List.count_cons, List.count_nil] at hcomma hsep ⊢
    omega

end

end Written

end AgenticPlatform.Json
