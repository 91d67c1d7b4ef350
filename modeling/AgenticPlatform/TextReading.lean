import AgenticPlatform.Utf8

/-!
# Reading a text

A byte string is cut into pieces, one code point each, and every line end becomes a line feed.
What was read comes back as the same bytes exactly if it was the encoding of a text without
carriage returns.
-/

namespace AgenticPlatform.Utf8

/-- The pieces of a byte string; the bytes of a piece that has begun are skipped. -/
def piecesFrom : (skip : Nat) → List UInt8 → List Piece
  | _, [] => []
  | skip + 1, _ :: rest => piecesFrom skip rest
  | 0, lead :: rest => first lead rest :: piecesFrom ((first lead rest).bytes.length - 1) rest

/-- `bytes.decode("utf-8", "replace")`, with the bytes of each code point. -/
def pieces (bytes : List UInt8) : List Piece := piecesFrom 0 bytes

/-- A carriage return alone. -/
def Piece.ended (piece : Piece) : Piece :=
  if piece.char = carriageReturn then { piece with char := lineFeed } else piece

/-- Universal newlines. -/
def newlines : List Piece → List Piece
  | [] => []
  | [piece] => [piece.ended]
  | piece :: next :: rest =>
    if piece.char = carriageReturn ∧ next.char = lineFeed then
      ⟨lineFeed, piece.bytes ++ next.bytes⟩ :: newlines rest
    else piece.ended :: newlines (next :: rest)

/-- What a text is read from, piece by piece. -/
def textPieces (bytes : List UInt8) : List Piece := newlines (pieces bytes)

/-- `path.read_text("utf-8", "replace")`. -/
def readText (bytes : List UInt8) : List CodePoint := (textPieces bytes).map Piece.char

def joined (parts : List Piece) : List UInt8 := parts.flatMap Piece.bytes

variable {c : CodePoint} {text : List CodePoint} {lead : UInt8} {bytes rest tail : List UInt8}
  {piece : Piece} {parts before after : List Piece} {skip : Nat}

/-! ### Pieces -/

theorem piecesFrom_eq_drop : piecesFrom skip bytes = pieces (bytes.drop skip) := by
  rw [pieces]
  induction bytes generalizing skip with
  | nil =>
    rw [List.drop_nil]
    rcases skip with - | skip
    · rfl
    · rfl
  | cons byte rest ih =>
    rcases skip with - | skip
    · rfl
    · rw [piecesFrom, ih, List.drop_succ_cons]

/-- The first piece, and the pieces of the bytes after it. -/
theorem pieces_cons (lead : UInt8) (rest : List UInt8) : ∃ later, lead :: rest = (first lead rest).bytes ++ later ∧
    pieces (lead :: rest) = first lead rest :: pieces later := by
  rcases @first_bytes lead rest with ⟨tail, ⟨later, hlater⟩, hbytes⟩
  refine ⟨later, ?_, ?_⟩
  · rw [hbytes, List.cons_append, hlater]
  · rw [pieces, piecesFrom, piecesFrom_eq_drop, hbytes, List.length_cons, Nat.add_sub_cancel, ← hlater,
      List.drop_left]

theorem joined_pieces : joined (pieces bytes) = bytes := by
  induction hlength : bytes.length using Nat.strong_induction_on generalizing bytes with
  | _ length ih =>
    rcases bytes with - | ⟨lead, rest⟩
    · rfl
    · rcases pieces_cons lead rest with ⟨later, hbytes, hpieces⟩
      rcases @first_bytes lead rest with ⟨tail, -, htail⟩
      have hshorter : later.length < length := by
        have hsum := congrArg List.length hbytes
        rw [htail] at hsum
        simp only [List.length_append, List.length_cons] at hsum hlength
        omega
      rw [hpieces, joined, List.flatMap_cons]
      exact (congrArg _ (ih _ hshorter rfl)).trans hbytes.symm

/-- The piece of a code point that is read as it is written. -/
def pieceOf (c : CodePoint) : Piece := ⟨c, bytesOf c⟩

theorem pieces_encoded (h : HasEncoding text) :
    pieces (text.flatMap bytesOf ++ rest) = text.map pieceOf ++ pieces rest := by
  induction text with
  | nil => rfl
  | cons c text ih =>
    rcases List.forall_mem_cons.mp h with ⟨hplain, htext⟩
    rcases bytesOf_fits hplain with ⟨lead, tail, -, hbytes, -⟩
    have hfirst : first lead (tail ++ (text.flatMap bytesOf ++ rest)) = pieceOf c :=
      first_encoded hplain hbytes
    rcases pieces_cons lead (tail ++ (text.flatMap bytesOf ++ rest)) with ⟨later, hlater, hpieces⟩
    rw [hfirst, pieceOf, hbytes, ← List.cons_append] at hlater
    rw [List.flatMap_cons, hbytes, List.append_assoc, List.cons_append, hpieces, hfirst,
      ← List.append_cancel_left hlater, ih htext, List.map_cons, List.cons_append]

/-- The first text that pieces are read as is not changed by what is read after it. -/
theorem newlines_encoded (h : carriageReturn ∉ text) :
    newlines (text.map pieceOf ++ parts) = text.map pieceOf ++ newlines parts := by
  induction text with
  | nil => rfl
  | cons c text ih =>
    have hc : (pieceOf c).char ≠ carriageReturn := fun hc => h (hc ▸ List.mem_cons_self)
    have hended : (pieceOf c).ended = pieceOf c := by
      rw [Piece.ended, if_neg hc]
    have htext := ih fun hmem => h (List.mem_cons_of_mem c hmem)
    rw [List.map_cons, List.cons_append, List.cons_append]
    rcases hrest : text.map pieceOf ++ parts with - | ⟨next, rest⟩
    · rw [hrest] at htext
      rw [← htext, newlines, newlines, hended]
    · rw [newlines, if_neg fun hline => hc hline.1, hended, ← htext, hrest]

theorem joined_newlines : joined (newlines parts) = joined parts := by
  induction parts using newlines.induct with
  | case1 => rfl
  | case2 piece =>
    rw [newlines, Piece.ended]
    split <;> rfl
  | case3 piece next rest hline ih =>
    rw [newlines, if_pos hline, joined, joined, List.flatMap_cons, List.flatMap_cons, List.flatMap_cons,
      List.append_assoc]
    exact congrArg _ (congrArg _ ih)
  | case4 piece next rest hline ih =>
    have hended : piece.ended.bytes = piece.bytes := by
      rw [Piece.ended]
      split <;> rfl
    rw [newlines, if_neg hline, joined, joined, List.flatMap_cons, hended, List.flatMap_cons]
    exact congrArg _ ih

theorem joined_textPieces : joined (textPieces bytes) = bytes :=
  joined_newlines.trans joined_pieces

theorem joined_append : joined (before ++ after) = joined before ++ joined after :=
  List.flatMap_append

theorem joined_map_pieceOf : joined (text.map pieceOf) = text.flatMap bytesOf := by
  rw [joined, List.flatMap_map]
  rfl

/-- A text without carriage returns is read as it is written, whatever follows it. -/
theorem textPieces_encoded (h : HasEncoding text) (hreturn : carriageReturn ∉ text)
    (rest : List UInt8) :
    textPieces (text.flatMap bytesOf ++ rest) = text.map pieceOf ++ textPieces rest := by
  rw [textPieces, pieces_encoded h, newlines_encoded hreturn]
  rfl

/-- What follows a piece is read from the bytes after it. -/
theorem textPieces_tail (h : textPieces bytes = piece :: parts) : ∃ later, textPieces later = parts := by
  rcases bytes with - | ⟨lead, rest⟩
  · cases h
  · rcases pieces_cons lead rest with ⟨later, -, hpieces⟩
    rw [textPieces, hpieces] at h
    rcases later with - | ⟨lead', rest'⟩
    · refine ⟨[], ?_⟩
      cases h
      rfl
    · rcases pieces_cons lead' rest' with ⟨later', -, hpieces'⟩
      rw [hpieces', newlines] at h
      split at h
      · cases h
        exact ⟨later', rfl⟩
      · cases h
        refine ⟨lead' :: rest', ?_⟩
        rw [textPieces, hpieces']

/-- The pieces at the end of a text are what their own bytes are read as. -/
theorem textPieces_joined (h : textPieces bytes = before ++ after) : textPieces (joined after) = after := by
  have hlater : ∃ later, textPieces later = after := by
    induction before generalizing bytes with
    | nil => exact ⟨bytes, h⟩
    | cons piece before ih =>
      rcases textPieces_tail h with ⟨later, hlater⟩
      exact ih hlater
  rcases hlater with ⟨later, rfl⟩
  rw [joined_textPieces]

/-! ### What comes back as the same bytes -/

/-- The bytes encode a text without carriage returns. -/
def Clean (bytes : List UInt8) : Prop :=
  ∃ text, carriageReturn ∉ text ∧ encode text = some bytes

theorem encode_eq_some : encode text = some bytes ↔ HasEncoding text ∧ text.flatMap bytesOf = bytes := by
  rw [encode]
  split
  · rename_i h
    rw [Option.some_inj, and_iff_right h]
  · rename_i h
    exact iff_of_false (fun h => by cases h) fun hboth => h hboth.1

theorem whole_pieceOf (h : HasEncoding text) : ∀ piece ∈ text.map pieceOf, Whole piece := by
  intro piece hpiece
  rcases List.mem_map.mp hpiece with ⟨c, hc, rfl⟩
  exact ⟨h c hc, rfl⟩

theorem lineFeed_ne : lineFeed ≠ carriageReturn := by decide

/-- No carriage return is read. -/
theorem newlines_no_return : ∀ piece ∈ newlines parts, piece.char ≠ carriageReturn := by
  have hended : ∀ piece : Piece, piece.ended.char ≠ carriageReturn := by
    intro piece
    rw [Piece.ended]
    split
    · exact lineFeed_ne
    · assumption
  induction parts using newlines.induct with
  | case1 =>
    intro piece hpiece
    cases hpiece
  | case2 piece =>
    rw [newlines, List.forall_mem_singleton]
    exact hended piece
  | case3 piece next rest hline ih =>
    rw [newlines, if_pos hline, List.forall_mem_cons]
    exact ⟨lineFeed_ne, ih⟩
  | case4 piece next rest hline ih =>
    rw [newlines, if_neg hline, List.forall_mem_cons]
    exact ⟨hended piece, ih⟩

theorem clean_of_whole (hsub : ∀ piece ∈ parts, piece ∈ textPieces bytes)
    (h : ∀ piece ∈ parts, Whole piece) : Clean (joined parts) := by
  refine ⟨parts.map Piece.char, ?_, encode_eq_some.mpr ⟨?_, ?_⟩⟩
  · intro hreturn
    rcases List.mem_map.mp hreturn with ⟨piece, hpiece, hsame⟩
    exact newlines_no_return piece (hsub piece hpiece) hsame
  · intro c hc
    rcases List.mem_map.mp hc with ⟨piece, hpiece, rfl⟩
    exact (h piece hpiece).plain
  · rw [List.flatMap_map]
    exact List.flatMap_congr fun piece hpiece => (h piece hpiece).bytes_eq.symm

theorem clean_before_iff (h : textPieces bytes = before ++ after) :
    Clean (joined before) ↔ ∀ piece ∈ before, Whole piece := by
  constructor
  · rintro ⟨text, hreturn, hencode⟩
    rcases encode_eq_some.mp hencode with ⟨hplain, hbytes⟩
    have hread := textPieces_encoded hplain hreturn (joined after)
    rw [hbytes, ← joined_append, ← h, joined_textPieces, h, textPieces_joined h] at hread
    rw [List.append_cancel_right hread]
    exact whole_pieceOf hplain
  · exact clean_of_whole fun piece hpiece => h ▸ List.mem_append_left after hpiece

theorem clean_after_iff (h : textPieces bytes = before ++ after) :
    Clean (joined after) ↔ ∀ piece ∈ after, Whole piece := by
  have hafter := textPieces_joined h
  rw [← List.append_nil after] at hafter
  rw [← clean_before_iff hafter]

/-! ### What does not come back -/

/-- A line end with a carriage return. -/
structure Ended (piece : Piece) : Prop where
  char_eq : piece.char = lineFeed
  bytes_eq : ∃ tail, piece.bytes = 0x0D :: tail

def Read (piece : Piece) : Prop := Whole piece ∨ Ended piece ∨ ∃ lead, Broken lead piece

theorem pieces_whole_or_broken (h : piece ∈ pieces bytes) : Whole piece ∨ ∃ lead, Broken lead piece := by
  induction hlength : bytes.length using Nat.strong_induction_on generalizing bytes with
  | _ length ih =>
    rcases bytes with - | ⟨lead, rest⟩
    · cases h
    · rcases pieces_cons lead rest with ⟨later, hbytes, hpieces⟩
      rcases @first_bytes lead rest with ⟨tail, -, htail⟩
      have hshorter : later.length < length := by
        have hsum := congrArg List.length hbytes
        rw [htail] at hsum
        simp only [List.length_append, List.length_cons] at hsum hlength
        omega
      rw [hpieces] at h
      rcases List.mem_cons.mp h with rfl | hlater
      · exact first_whole_or_broken.imp_right fun hbroken => ⟨lead, hbroken⟩
      · exact ih _ hshorter hlater rfl

theorem read_ended (h : Whole piece ∨ ∃ lead, Broken lead piece) : Read piece.ended := by
  rw [Piece.ended]
  split
  · rename_i hreturn
    rcases h with hwhole | ⟨lead, hbroken⟩
    · refine .inr (.inl ⟨rfl, [], ?_⟩)
      rw [hwhole.bytes_eq, hreturn]
      rfl
    · rw [hbroken.char_eq] at hreturn
      cases hreturn
  · rename_i hreturn
    exact h.imp_right .inr

theorem read_newlines (h : ∀ piece ∈ parts, Whole piece ∨ ∃ lead, Broken lead piece) :
    ∀ piece ∈ newlines parts, Read piece := by
  induction parts using newlines.induct with
  | case1 =>
    intro piece hpiece
    cases hpiece
  | case2 piece =>
    rw [newlines, List.forall_mem_singleton]
    exact read_ended (h piece List.mem_cons_self)
  | case3 piece next rest hline ih =>
    rw [newlines, if_pos hline, List.forall_mem_cons]
    rw [List.forall_mem_cons, List.forall_mem_cons] at h
    refine ⟨.inr (.inl ⟨rfl, ?_⟩), ih h.2.2⟩
    rcases h.1 with hwhole | ⟨lead, hbroken⟩
    · refine ⟨next.bytes, ?_⟩
      rw [hwhole.bytes_eq, hline.1]
      rfl
    · have hreturn := hline.1
      rw [hbroken.char_eq] at hreturn
      cases hreturn
  | case4 piece next rest hline ih =>
    rw [newlines, if_neg hline, List.forall_mem_cons]
    rw [List.forall_mem_cons] at h
    exact ⟨read_ended h.1, ih h.2⟩

theorem read_textPieces (bytes : List UInt8) : ∀ piece ∈ textPieces bytes, Read piece :=
  read_newlines fun _ hpiece => pieces_whole_or_broken hpiece

theorem hasEncoding_append {other : List CodePoint} :
    HasEncoding (text ++ other) ↔ HasEncoding text ∧ HasEncoding other := by
  rw [HasEncoding, HasEncoding, HasEncoding, List.forall_mem_append]

/-- What is read can be written. -/
theorem hasEncoding_readText : HasEncoding (readText bytes) := by
  intro c hc
  rcases List.mem_map.mp hc with ⟨piece, hpiece, rfl⟩
  rcases read_textPieces _ piece hpiece with hwhole | hended | ⟨lead, hbroken⟩
  · exact hwhole.plain
  · rw [hended.char_eq]
    rfl
  · rw [hbroken.char_eq]
    rfl

/-- The bytes that the code points of the pieces are written as. -/
def written (parts : List Piece) : List UInt8 := parts.flatMap fun piece => bytesOf piece.char

/-- The first byte of a piece tells how it may go on. -/
theorem Read.shape (h : Read piece) : ∃ lead tail, piece.bytes = lead :: tail ∧
    (tails lead = none → piece.char = replacement ∧ tail = []) ∧
      (lead = 0xEF → piece.char = replacement ∧ tail.length < 2 ∨
        bytesOf piece.char = lead :: tail ∧ tail.length = 2) := by
  rcases h with hwhole | ⟨hchar, tail, hbytes⟩ | ⟨lead, hchar, tail, hbytes, hnone, hsome⟩
  · rcases bytesOf_fits hwhole.plain with ⟨lead, tail, ranges, hbytes, htails, hfits, -⟩
    refine ⟨lead, tail, hwhole.bytes_eq.trans hbytes, ?_, ?_⟩
    · intro hnone
      rw [htails] at hnone
      cases hnone
    · rintro rfl
      cases htails
      exact .inr ⟨hbytes, hfits.length_eq.symm⟩
  · refine ⟨0x0D, tail, hbytes, ?_, ?_⟩
    · intro hnone
      cases hnone
    · intro hlead
      cases hlead
  · refine ⟨lead, tail, hbytes, fun htails => ⟨hchar, hnone htails⟩, ?_⟩
    rintro rfl
    exact .inl ⟨hchar, hsome _ rfl⟩

/-- The bytes of U+FFFD, so many times. -/
def owed (count : Nat) : List UInt8 := (List.replicate count (bytesOf replacement)).flatten

theorem bytesOf_replacement : bytesOf replacement = [0xEF, 0xBF, 0xBD] := rfl

theorem owed_succ {count : Nat} : owed (count + 1) = bytesOf replacement ++ owed count := rfl

theorem owed_append {count : Nat} : owed count ++ bytesOf replacement = owed (count + 1) := by
  rw [owed, owed, List.replicate_succ', List.flatten_append, List.flatten_singleton]

theorem written_cons : written (piece :: parts) = bytesOf piece.char ++ written parts := List.flatMap_cons

theorem joined_cons : joined (piece :: parts) = piece.bytes ++ joined parts := List.flatMap_cons

/-- A byte that leads nothing is a piece alone, and what was owed before it is owed once more. -/
theorem owed_of_stray {count : Nat} {byte : UInt8} (later : List UInt8) (hread : Read piece)
    (hbyte : tails byte = none)
    (h : byte :: (later ++ owed count ++ written (piece :: parts)) = joined (piece :: parts)) :
    later ++ owed (count + 1) ++ written parts = joined parts := by
  rcases hread.shape with ⟨lead, tail, hbytes, hstray, -⟩
  rw [joined_cons, written_cons, hbytes, List.cons_append] at h
  rcases List.cons.inj h with ⟨rfl, hrest⟩
  rcases hstray hbyte with ⟨hchar, rfl⟩
  rw [hchar, List.nil_append] at hrest
  rw [← hrest, ← owed_append, List.append_assoc, List.append_assoc, List.append_assoc]

/-- What is written cannot run ahead by the end of a U+FFFD and then some, and meet what was
    read again: every piece that it catches up with is owed a whole one. -/
theorem written_ne_joined (h : ∀ piece ∈ parts, Read piece) (count : Nat) :
    owed (count + 1) ++ written parts ≠ joined parts ∧
      [0xBF, 0xBD] ++ owed count ++ written parts ≠ joined parts ∧
        [0xBD] ++ owed count ++ written parts ≠ joined parts := by
  induction parts generalizing count with
  | nil =>
    refine ⟨?_, ?_, ?_⟩
    · intro hsame
      cases hsame
    · intro hsame
      cases hsame
    · intro hsame
      cases hsame
  | cons piece parts ih =>
    rcases List.forall_mem_cons.mp h with ⟨hread, hparts⟩
    refine ⟨?_, ?_, ?_⟩
    · intro hsame
      rcases hread.shape with ⟨lead, tail, hbytes, -, hshape⟩
      rw [owed_succ, bytesOf_replacement, joined_cons, written_cons, hbytes] at hsame
      simp only [List.cons_append, List.nil_append] at hsame
      rcases List.cons.inj hsame with ⟨rfl, hrest⟩
      rcases hshape rfl with ⟨hchar, hshort⟩ | ⟨hwhole, hlong⟩
      · rw [hchar, ← List.append_assoc, owed_append] at hrest
        rcases tail with - | ⟨second, tail⟩
        · exact (ih hparts (count + 1)).2.1 hrest
        · rcases tail with - | ⟨third, tail⟩
          · exact (ih hparts (count + 1)).2.2 (List.cons.inj hrest).2
          · simp only [List.length_cons] at hshort
            omega
      · rcases tail with - | ⟨second, tail⟩
        · cases hlong
        · rcases tail with - | ⟨third, tail⟩
          · cases hlong
          · have hnil : tail = [] := by
              simp only [List.length_cons] at hlong
              exact List.length_eq_zero_iff.mp (by omega)
            subst hnil
            simp only [List.cons_append, List.nil_append] at hrest
            rcases List.cons.inj hrest with ⟨rfl, hsecond⟩
            rcases List.cons.inj hsecond with ⟨rfl, hthird⟩
            rw [hwhole, ← bytesOf_replacement, ← List.append_assoc, owed_append] at hthird
            exact (ih hparts count).1 hthird
    · intro hsame
      exact (ih hparts (count + 1)).2.2 (owed_of_stray _ hread rfl hsame)
    · intro hsame
      exact (ih hparts count).1 (owed_of_stray [] hread rfl hsame)

/-- What is read comes back as the same bytes exactly if every piece of it does. -/
theorem written_eq_joined_iff (h : ∀ piece ∈ parts, Read piece) :
    written parts = joined parts ↔ ∀ piece ∈ parts, Whole piece := by
  induction parts with
  | nil => exact iff_of_true rfl fun piece hpiece => by cases hpiece
  | cons piece parts ih =>
    rcases List.forall_mem_cons.mp h with ⟨hread, hparts⟩
    rw [written_cons, joined_cons, List.forall_mem_cons, ← ih hparts]
    rcases hread with hwhole | ⟨hchar, tail, hbytes⟩ | ⟨lead, hchar, tail, hbytes, -, hshort⟩
    · rw [hwhole.bytes_eq, List.append_cancel_left_eq, and_iff_right hwhole]
    · -- A line feed is written where a carriage return was.
      refine iff_of_false ?_ ?_
      · intro hsame
        rw [hchar, hbytes] at hsame
        cases hsame
      · rintro ⟨hwhole, -⟩
        rw [hwhole.bytes_eq, hchar] at hbytes
        cases hbytes
    · refine iff_of_false ?_ ?_
      · intro hsame
        rw [hchar, hbytes, bytesOf_replacement] at hsame
        rcases List.cons.inj hsame with ⟨rfl, hrest⟩
        have htail : tail.length < 2 := hshort _ rfl
        rcases tail with - | ⟨second, tail⟩
        · exact (written_ne_joined hparts 0).2.1 hrest
        · rcases tail with - | ⟨third, tail⟩
          · exact (written_ne_joined hparts 0).2.2 (List.cons.inj hrest).2
          · simp only [List.length_cons] at htail
            omega
      · rintro ⟨hwhole, -⟩
        have hown := hwhole.bytes_eq
        rw [hbytes, hchar, bytesOf_replacement] at hown
        rcases List.cons.inj hown with ⟨rfl, rfl⟩
        exact Nat.lt_irrefl 2 (hshort _ rfl)

end AgenticPlatform.Utf8
