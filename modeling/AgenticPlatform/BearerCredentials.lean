import AgenticPlatform.MaskedWords

/-!
# Echoed bearer credentials

None of the patterns reaches over white space with what it masks, so a text and what is shown
of it have the same words in the same places. The `Bearer` pattern masks the word after one that
ends in `Bearer`, but it runs last: a `Bearer` that was masked before, as the end of a key or of
the value of a parameter, is not seen any more, and neither is one that is a credential itself.
-/

namespace AgenticPlatform.Redaction

open Masking Lines

variable {foreign : Char → Bool} {c s : Char} {word blanks rest : List Char}

/-! ### The pattern -/

theorem bearer_avoids_space : Avoids isSpace "bearer".toList := avoids_space (by decide)

theorem bearerPattern_before (before : Option Char) (text : List Char) :
    bearerPattern before text = bearerPattern none text := rfl

theorem bearerPattern_of_not {before : Option Char} {text : List Char}
    (h : begins "bearer".toList text = true → (text.drop 6).takeWhile isSpace = [] ∨
      (text.drop (6 + ((text.drop 6).takeWhile isSpace).length)).takeWhile
        (fun c => !isSpace c) = []) : bearerPattern before text = none := by
  refine dif_neg fun hfound => ?_
  rcases hfound with ⟨hbegins, hblanks, hrun⟩
  rcases h hbegins with hnone | hnone
  · rw [hnone] at hblanks
    exact lt_irrefl 0 hblanks
  · rw [hnone] at hrun
    exact lt_irrefl 0 hrun

theorem takeWhile_space_of_plain (h : Plain isSpace word) (hne : word ≠ []) (rest : List Char) :
    (word ++ rest).takeWhile isSpace = [] := by
  rcases word with - | ⟨a, word⟩
  · exact absurd rfl hne
  · rw [List.cons_append, List.takeWhile_cons_of_neg (by rw [h.cons.1]; exact Bool.false_ne_true)]

/-- Only the whole of a word is found to be a `Bearer`. -/
theorem bearerPattern_word (before : Option Char) (hword : Plain isSpace word)
    (hs : isSpace s = true) (h : ¬(word.length = 6 ∧ begins "bearer".toList word = true)) :
    bearerPattern before (word ++ s :: rest) = none := by
  apply bearerPattern_of_not
  intro hbegins
  rw [begins_append bearer_avoids_space hs] at hbegins
  have hlength : 6 ≤ word.length := begins_length hbegins
  have hmore : word.drop 6 ≠ [] := by
    intro hnil
    exact h ⟨Nat.le_antisymm (List.drop_eq_nil_iff.mp hnil) hlength, hbegins⟩
  rw [List.drop_append_of_le_length hlength]
  exact .inl (takeWhile_space_of_plain (fun a ha => hword a (List.mem_of_mem_drop ha)) hmore _)

/-- After a word that does not end in `Bearer` nothing is masked. -/
theorem pass_bearer_word (hword : Plain isSpace word) (hs : isSpace s = true)
    (h : ¬EndsIn "bearer".toList word) (rest : List Char) :
    pass bearerPattern REDACTED (word ++ s :: rest) =
      word ++ s :: pass bearerPattern REDACTED rest := by
  have hpass (before : Option Char) : passFrom bearerPattern REDACTED before 0 (word ++ s :: rest) =
      word ++ s :: pass bearerPattern REDACTED rest := by
    induction word generalizing before with
    | nil =>
      have hnone : bearerPattern before (s :: rest) = none :=
        bearerPattern_word before (List.forall_mem_nil _) hs (by simp)
      rw [List.nil_append, passFrom, hnone]
      exact congrArg (s :: ·) (passFrom_before bearerPattern_before _ _ _)
    | cons a word ih =>
      have hnone : bearerPattern before (a :: word ++ s :: rest) = none := by
        refine bearerPattern_word before hword hs fun hbegins => h ?_
        exact ⟨[], a :: word, rfl, hbegins.1, hbegins.2⟩
      rw [List.cons_append] at hnone
      rw [List.cons_append, passFrom, hnone]
      exact congrArg (a :: ·) (ih hword.cons.2 (fun hends => h (hends.cons a)) _)
  exact hpass none

theorem takeWhile_space_of_blanks (h : ∀ c ∈ blanks, isSpace c = true) :
    blanks.takeWhile isSpace = blanks :=
  List.takeWhile_eq_self_iff.mpr h

/-- Without a word after it a `Bearer` is not found. -/
theorem bearerPattern_blank (before : Option Char) (hword : Plain isSpace word)
    (hblanks : ∀ c ∈ blanks, isSpace c = true) : bearerPattern before (word ++ blanks) = none := by
  apply bearerPattern_of_not
  intro hbegins
  have hlength : 6 ≤ word.length := by
    rcases blanks with - | ⟨s, blanks⟩
    · rw [List.append_nil] at hbegins
      exact begins_length hbegins
    · rw [begins_append bearer_avoids_space (hblanks s List.mem_cons_self)] at hbegins
      exact begins_length hbegins
  rw [List.drop_append_of_le_length hlength]
  rcases eq_or_ne (word.drop 6) [] with hnil | hmore
  · refine .inr ?_
    have hsix := List.drop_eq_nil_iff.mp hnil
    rw [hnil, List.nil_append, takeWhile_space_of_blanks hblanks, List.drop_of_length_le,
      List.takeWhile_nil]
    rw [List.length_append]
    exact Nat.add_le_add_right hsix _
  · exact .inl (takeWhile_space_of_plain (fun a ha => hword a (List.mem_of_mem_drop ha)) hmore _)

/-- Then it is left as it is. -/
theorem pass_bearer_blank (hword : Plain isSpace word) (hblanks : ∀ c ∈ blanks, isSpace c = true) :
    pass bearerPattern REDACTED (word ++ blanks) = word ++ blanks := by
  have hpass (before : Option Char) :
      passFrom bearerPattern REDACTED before 0 (word ++ blanks) = word ++ blanks := by
    induction word generalizing before with
    | nil =>
      rw [List.nil_append]
      induction blanks generalizing before with
      | nil => rw [passFrom]
      | cons s blanks ih =>
        rcases List.forall_mem_cons.mp hblanks with ⟨-, hmore⟩
        have hnone : bearerPattern before (s :: blanks) = none :=
          bearerPattern_blank before (List.forall_mem_nil _) hblanks
        rw [passFrom, hnone]
        exact congrArg (s :: ·) (ih hmore _)
    | cons a word ih =>
      have hnone := bearerPattern_blank before hword hblanks
      rw [List.cons_append] at hnone
      rw [List.cons_append, passFrom, hnone]
      exact congrArg (a :: ·) (ih hword.cons.2 _)
  exact hpass none

/-- A `Bearer` with a word after it is found. -/
theorem bearerPattern_credential (before : Option Char) {credential : List Char}
    (hlength : word.length = 6) (hbegins : begins "bearer".toList word = true)
    (hblanks : ∀ c ∈ blanks, isSpace c = true) (hne : blanks ≠ [])
    (hcredential : Plain isSpace credential) (hsome : credential ≠ [])
    (hrest : ∀ c ∈ rest.head?, isSpace c = true) :
    ∃ found, bearerPattern before (word ++ (blanks ++ (credential ++ rest))) = some found ∧
      found.kept = (word ++ blanks).length ∧
      found.length = (word ++ blanks ++ credential).length := by
  have hdrop : (word ++ (blanks ++ (credential ++ rest))).drop 6 =
      blanks ++ (credential ++ rest) := by rw [← hlength, List.drop_left]
  have htake : (blanks ++ (credential ++ rest)).takeWhile isSpace = blanks := by
    rw [List.takeWhile_append_of_pos hblanks, takeWhile_space_of_plain hcredential hsome,
      List.append_nil]
  have hrun : (credential ++ rest).takeWhile (fun c => !isSpace c) = credential := by
    have hall : credential.takeWhile (fun c => !isSpace c) = credential := by
      rw [List.takeWhile_eq_self_iff]
      intro c hc
      rw [hcredential c hc]
      rfl
    rcases rest with - | ⟨s, rest⟩
    · rw [List.append_nil, hall]
    · have hs : (!isSpace s) = false := by
        rw [hrest s rfl]
        rfl
      exact (@takeWhile_append_cons s (fun c => !isSpace c) hs credential rest).trans hall
  have htest : begins "bearer".toList (word ++ (blanks ++ (credential ++ rest))) = true ∧
      0 < (((word ++ (blanks ++ (credential ++ rest))).drop 6).takeWhile isSpace).length ∧
      0 < (((word ++ (blanks ++ (credential ++ rest))).drop
        (6 + (((word ++ (blanks ++ (credential ++ rest))).drop 6).takeWhile
          isSpace).length)).takeWhile fun c => !isSpace c).length := by
    rw [← List.drop_drop, hdrop, htake, List.drop_left, hrun]
    exact ⟨begins_append_right hbegins _, List.length_pos_iff.mpr hne,
      List.length_pos_iff.mpr hsome⟩
  refine ⟨_, dif_pos htest, ?_, ?_⟩
  · dsimp only
    rw [hdrop, htake, List.length_append, hlength]
  · dsimp only
    rw [← List.drop_drop, hdrop, htake, List.drop_left, hrun, List.length_append,
      List.length_append, hlength]

/-- The word after a `Bearer` is masked. -/
theorem pass_bearer_credential {credential : List Char} (hword : Plain isSpace word)
    (h : EndsIn "bearer".toList word) (hblanks : ∀ c ∈ blanks, isSpace c = true)
    (hne : blanks ≠ []) (hcredential : Plain isSpace credential) (hsome : credential ≠ [])
    (hrest : ∀ c ∈ rest.head?, isSpace c = true) :
    pass bearerPattern REDACTED (word ++ (blanks ++ (credential ++ rest))) =
      word ++ (blanks ++ (REDACTED ++ pass bearerPattern REDACTED rest)) := by
  rcases h with ⟨pre, bearer, rfl, hlength, hbegins⟩
  have hpass (before : Option Char) : passFrom bearerPattern REDACTED before 0
      (pre ++ bearer ++ (blanks ++ (credential ++ rest))) =
        pre ++ bearer ++ (blanks ++ (REDACTED ++ pass bearerPattern REDACTED rest)) := by
    induction pre generalizing before with
    | nil =>
      rcases bearerPattern_credential before hlength hbegins hblanks hne hcredential
        hsome hrest with ⟨found, hfound, hkept, hall⟩
      rcases bearer with - | ⟨b, bearer⟩
      · cases hlength
      have htake : (b :: bearer ++ (blanks ++ (credential ++ rest))).take found.kept =
          b :: bearer ++ blanks := by
        rw [hkept, ← List.append_assoc, List.take_left]
      have hskip : found.length - 1 = (bearer ++ (blanks ++ credential)).length := by
        rw [hall, ← List.append_assoc]
        rfl
      rw [List.cons_append] at hfound htake
      rw [List.nil_append, List.cons_append, passFrom, hfound]
      dsimp only
      have htext : bearer ++ (blanks ++ (credential ++ rest)) =
          bearer ++ (blanks ++ credential) ++ rest := by simp only [List.append_assoc]
      rw [htake, hskip, htext, passFrom_skip bearerPattern_before, List.append_assoc]
    | cons a pre ih =>
      rcases blanks with - | ⟨s, blanks⟩
      · exact absurd rfl hne
      have hnone : bearerPattern before (a :: pre ++ bearer ++ (s :: blanks ++
          (credential ++ rest))) = none := by
        refine bearerPattern_word before hword (hblanks s List.mem_cons_self) fun hsix => ?_
        have hlong := hsix.1
        rw [List.length_append, hlength, List.length_cons] at hlong
        exact absurd (Nat.add_eq_right.mp hlong) (Nat.succ_ne_zero _)
      rw [List.cons_append, List.cons_append] at hnone
      rw [List.cons_append, List.cons_append, passFrom, hnone]
      exact congrArg (a :: ·) (ih hword.cons.2 _)
  exact hpass none

/-! ### Word by word -/

/-- What becomes of the words: `waiting` says that the next one is a credential. -/
inductive Hidden : (waiting : Bool) → List (List Char) → List (List Char) → Prop where
  | nil (waiting : Bool) : Hidden waiting [] []
  | empty {waiting : Bool} {words out : List (List Char)} :
      Hidden waiting words out → Hidden waiting ([] :: words) ([] :: out)
  | bearer {word : List Char} {words out : List (List Char)} :
      EndsIn "bearer".toList word → Hidden true words out → Hidden false (word :: words) (word :: out)
  | other {word : List Char} {words out : List (List Char)} :
      ¬EndsIn "bearer".toList word → Hidden false words out →
      Hidden false (word :: words) (word :: out)
  | credential {word : List Char} {words out : List (List Char)} :
      word ≠ [] → Hidden false words out → Hidden true (word :: words) (REDACTED :: out)

theorem hidden_blanks {waiting : Bool} {words out : List (List Char)} (n : Nat)
    (h : Hidden waiting words out) :
    Hidden waiting (List.replicate n [] ++ words) (List.replicate n [] ++ out) := by
  induction n with
  | zero => exact h
  | succ n ih => exact .empty ih

theorem splitOnP_blanks (hblanks : ∀ c ∈ blanks, isSpace c = true) (rest : List Char) :
    (blanks ++ rest).splitOnP isSpace =
      List.replicate blanks.length [] ++ rest.splitOnP isSpace := by
  induction blanks with
  | nil => rfl
  | cons s blanks ih =>
    rcases List.forall_mem_cons.mp hblanks with ⟨hs, hmore⟩
    rw [List.cons_append, ← List.nil_append (s :: _),
      List.splitOnP_append_cons_of_forall_mem (List.forall_mem_nil _) s hs, ih hmore]
    rfl

/-- A text is blank, or there is a first word in it. -/
theorem blanks_or_word (text : List Char) : (∀ c ∈ text, isSpace c = true) ∨
    ∃ blanks credential later, text = blanks ++ (credential ++ later) ∧
      (∀ c ∈ blanks, isSpace c = true) ∧ Plain isSpace credential ∧ credential ≠ [] ∧
      ∀ c ∈ later.head?, isSpace c = true := by
  induction text with
  | nil => exact .inl (List.forall_mem_nil _)
  | cons a text ih =>
    rcases ha : isSpace a with - | -
    · refine .inr ⟨[], ?_⟩
      rcases plain_or_split isSpace text with hplain | ⟨line, s, rest, rfl, hline, hs⟩
      · refine ⟨a :: text, [], by rw [List.append_nil, List.nil_append], List.forall_mem_nil _,
          List.forall_mem_cons.mpr ⟨ha, hplain⟩, List.cons_ne_nil a text, nofun⟩
      · refine ⟨a :: line, s :: rest, rfl, List.forall_mem_nil _,
          List.forall_mem_cons.mpr ⟨ha, hline⟩, List.cons_ne_nil a line, ?_⟩
        intro c hc
        rw [← Option.some.inj hc]
        exact hs
    · rcases ih with hall | ⟨blanks, credential, later, rfl, hblanks, hrest⟩
      · exact .inl (List.forall_mem_cons.mpr ⟨ha, hall⟩)
      · exact .inr ⟨a :: blanks, credential, later, rfl,
          List.forall_mem_cons.mpr ⟨ha, hblanks⟩, hrest⟩

theorem mark_unspaced : Plain isSpace REDACTED := by
  intro a ha
  have hstar : a = '*' := by simpa [REDACTED] using ha
  rw [hstar]
  rfl

/-- The pass hides the words that come after a `Bearer`. -/
theorem hidden_pass_bearer (text : List Char) :
    Hidden false (text.splitOnP isSpace)
      ((pass bearerPattern REDACTED text).splitOnP isSpace) := by
  induction hlength : text.length using Nat.strongRecOn generalizing text with
  | ind length ih =>
    rcases plain_or_split isSpace text with hplain | ⟨word, s, rest, rfl, hword, hs⟩
    · have hpass := pass_bearer_blank hplain (List.forall_mem_nil _)
      rw [List.append_nil] at hpass
      rw [hpass, List.splitOnP_eq_singleton hplain]
      by_cases hbearer : EndsIn "bearer".toList text
      · exact .bearer hbearer (.nil true)
      · exact .other hbearer (.nil false)
    have hshort : rest.length < length := by
      rw [← hlength, List.length_append, List.length_cons]
      omega
    by_cases hbearer : EndsIn "bearer".toList word
    · rcases blanks_or_word rest with hblanks | ⟨blanks, credential, later, rfl, hblanks,
        hcredential, hsome, hlater⟩
      · have hpass := pass_bearer_blank hword (List.forall_mem_cons.mpr ⟨hs, hblanks⟩)
        rw [hpass, List.splitOnP_append_cons_of_forall_mem hword s hs]
        refine .bearer hbearer ?_
        rw [← List.append_nil rest, splitOnP_blanks hblanks]
        exact hidden_blanks _ (.empty (.nil true))
      · have hpass := pass_bearer_credential hword hbearer
          (List.forall_mem_cons.mpr ⟨hs, hblanks⟩) (List.cons_ne_nil s blanks) hcredential hsome
          hlater
        rw [List.cons_append] at hpass
        rw [hpass, List.cons_append, List.splitOnP_append_cons_of_forall_mem hword s hs,
          List.splitOnP_append_cons_of_forall_mem hword s hs, splitOnP_blanks hblanks,
          splitOnP_blanks hblanks]
        refine .bearer hbearer (hidden_blanks _ ?_)
        rcases later with - | ⟨t, later⟩
        · rw [List.append_nil, List.splitOnP_eq_singleton hcredential]
          rw [show pass bearerPattern REDACTED [] = [] from rfl, List.append_nil,
            List.splitOnP_eq_singleton mark_unspaced]
          exact .credential hsome (.nil false)
        · have ht : isSpace t = true := hlater t rfl
          have hnot : ¬EndsIn "bearer".toList [] := not_endsIn_nil (List.cons_ne_nil _ _)
          have hrest := pass_bearer_word (List.forall_mem_nil _) ht hnot later
          rw [List.nil_append, List.nil_append] at hrest
          rw [hrest, List.splitOnP_append_cons_of_forall_mem hcredential t ht,
            List.splitOnP_append_cons_of_forall_mem mark_unspaced t ht]
          refine .credential hsome (ih _ ?_ later rfl)
          rw [List.length_append, List.length_append, List.length_cons] at hshort
          omega
    · rw [pass_bearer_word hword hs hbearer, List.splitOnP_append_cons_of_forall_mem hword s hs,
        List.splitOnP_append_cons_of_forall_mem hword s hs]
      exact .other hbearer (ih _ hshort rest rfl)

/-- Whether a credential is awaited after one more word. -/
def awaits (heralds : List Char → Prop) (waiting : Prop) (word : List Char) : Prop :=
  (word = [] ∧ waiting) ∨ (word ≠ [] ∧ heralds word ∧ ¬waiting)

theorem awaits_empty (heralds : List Char → Prop) (waiting : Prop) :
    awaits heralds waiting [] ↔ waiting := by
  constructor
  · rintro (⟨-, hwaiting⟩ | ⟨hne, -⟩)
    · exact hwaiting
    · exact absurd rfl hne
  · intro hwaiting
    exact .inl ⟨rfl, hwaiting⟩

/-- What stands after some words. -/
theorem Hidden.at {waiting : Bool} {before after out : List (List Char)} (hword : word ≠ [])
    (h : Hidden waiting (before ++ word :: after) out) :
    (before.foldl (awaits (EndsIn "bearer".toList)) (waiting = true) ∧
      out[before.length]? = some REDACTED) ∨
    (¬before.foldl (awaits (EndsIn "bearer".toList)) (waiting = true) ∧
      out[before.length]? = some word) := by
  induction before generalizing waiting out with
  | nil =>
    rw [List.nil_append] at h
    rcases h with - | - | - | - | -
    · exact absurd rfl hword
    · exact .inr ⟨Bool.false_ne_true, rfl⟩
    · exact .inr ⟨Bool.false_ne_true, rfl⟩
    · exact .inl ⟨rfl, rfl⟩
  | cons first before ih =>
    have hfold (next : Bool) (heq : awaits (EndsIn "bearer".toList) (waiting = true) first ↔
        next = true) : (first :: before).foldl (awaits (EndsIn "bearer".toList)) (waiting = true) =
        before.foldl (awaits (EndsIn "bearer".toList)) (next = true) := by
      rw [List.foldl_cons, propext heq]
    rw [List.cons_append] at h
    rcases h with - | h | ⟨hbearer, h⟩ | ⟨hother, h⟩ | ⟨hsome, h⟩
    · rw [hfold waiting (awaits_empty _ _)]
      exact ih h
    · have hsome : first ≠ [] := by
        rintro rfl
        exact not_endsIn_nil (List.cons_ne_nil _ _) hbearer
      rw [hfold true (iff_of_true (.inr ⟨hsome, hbearer, Bool.false_ne_true⟩) rfl)]
      exact ih h
    · rw [hfold false (iff_of_false ?_ Bool.false_ne_true)]
      · exact ih h
      · rintro (⟨-, hwaiting⟩ | ⟨-, hbearer, -⟩)
        · exact Bool.false_ne_true hwaiting
        · exact hother hbearer
    · rw [hfold false (iff_of_false ?_ Bool.false_ne_true)]
      · exact ih h
      · rintro (⟨hnil, -⟩ | ⟨-, -, hnot⟩)
        · exact hsome hnil
        · exact hnot rfl

/-! ### The text that is shown -/

/-- A word that is seen as a `Bearer`: it ends in the letters, and they belong neither to a key
    nor to the value of a parameter. -/
def Heralds (foreign : Char → Bool) (word : List Char) : Prop :=
  EndsIn "bearer".toList word ∧ ¬EndsInKey foreign word ∧ ¬EndsInClearValue foreign word

/-- The next word after these is a credential: the last of them is seen as a `Bearer`, and is not
    itself a credential. -/
def Awaited (foreign : Char → Bool) (words : List (List Char)) : Prop :=
  words.foldl (awaits (Heralds foreign)) False

/-- A word that ends in `Bearer`, white space and a credential. -/
structure Echoed (words before : List (List Char)) (name : List Char) (blanks : Nat)
    (credential : List Char) (after : List (List Char)) : Prop where
  parts : words = before ++ name :: List.replicate blanks [] ++ credential :: after
  bearer : EndsIn "bearer".toList name
  credential_ne_nil : credential ≠ []

/-- No credential is where it was. -/
def MasksBearers (foreign : Char → Bool) (text : String) : Prop :=
  ∀ before name blanks credential after,
    Echoed (text.toList.splitOnP isSpace) before name blanks credential after →
    ((redact foreign text []).toList.splitOnP isSpace)[before.length + 1 + blanks]? ≠
      some credential

theorem awaits_clean (hforeign : Letters foreign) (waiting : Prop) (word : List Char) :
    awaits (EndsIn "bearer".toList) waiting (clean foreign word) ↔
      awaits (Heralds foreign) waiting word := by
  have hnil : clean foreign word = [] ↔ word = [] := by
    refine ⟨clean_eq_nil, ?_⟩
    rintro rfl
    rfl
  have hends : EndsIn "bearer".toList (clean foreign word) ↔ Heralds foreign word :=
    endsIn_clean hforeign (by decide) (avoids_endsValue (by decide))
      (avoids_char (by decide) (by decide)) (List.cons_ne_nil _ _) word
  rw [awaits, awaits, ne_eq, ne_eq, hnil, hends]

theorem awaited_map_clean (hforeign : Letters foreign) (words : List (List Char)) :
    (words.map (clean foreign)).foldl (awaits (EndsIn "bearer".toList)) (false = true) ↔
      Awaited foreign words := by
  have hfold (waiting : Prop) : (words.map (clean foreign)).foldl
      (awaits (EndsIn "bearer".toList)) waiting =
      words.foldl (awaits (Heralds foreign)) waiting := by
    rw [List.foldl_map]
    congr 1
    funext waiting word
    exact propext (awaits_clean hforeign waiting word)
  rw [hfold, Awaited, Bool.false_eq_true]

/-- What is shown in the place of a word. -/
theorem words_redact {text : String} {before after : List (List Char)} (hforeign : Letters foreign)
    (hwords : text.toList.splitOnP isSpace = before ++ word :: after) (hword : word ≠ []) :
    (Awaited foreign before ∧
      ((redact foreign text []).toList.splitOnP isSpace)[before.length]? = some REDACTED) ∨
    (¬Awaited foreign before ∧
      ((redact foreign text []).toList.splitOnP isSpace)[before.length]? =
        some (clean foreign word)) := by
  have hhidden := hidden_pass_bearer (clean foreign text.toList)
  rw [splitOnP_clean hforeign, hwords, List.map_append, List.map_cons] at hhidden
  have hat := hhidden.at (fun hnil => hword (clean_eq_nil hnil))
  rw [awaited_map_clean hforeign, List.length_map] at hat
  rw [redact, String.toList_ofList]
  exact hat

/-- White space changes nothing about what is awaited. -/
theorem awaited_append (before : List (List Char)) {name : List Char} (hname : name ≠ [])
    (blanks : Nat) : Awaited foreign (before ++ name :: List.replicate blanks []) ↔
      Heralds foreign name ∧ ¬Awaited foreign before := by
  have hblanks (waiting : Prop) :
      ((List.replicate blanks []).foldl (awaits (Heralds foreign)) waiting) ↔ waiting := by
    induction blanks generalizing waiting with
    | zero => exact Iff.rfl
    | succ blanks ih =>
      rw [List.replicate_succ, List.foldl_cons, ih]
      exact awaits_empty _ waiting
  rw [Awaited, List.foldl_append, List.foldl_cons, hblanks, awaits, ← Awaited]
  constructor
  · rintro (⟨hnil, -⟩ | ⟨-, hheralds⟩)
    · exact absurd hnil hname
    · exact hheralds
  · intro hheralds
    exact .inr ⟨hname, hheralds⟩

/-- Each credential comes after a `Bearer` that is seen, or has a key or a parameter in it. -/
def SeesBearers (foreign : Char → Bool) (text : String) : Prop :=
  ∀ before name blanks credential after,
    Echoed (text.toList.splitOnP isSpace) before name blanks credential after →
    (Heralds foreign name ∧ ¬Awaited foreign before ∧ credential ≠ REDACTED) ∨
    (¬(Heralds foreign name ∧ ¬Awaited foreign before) ∧
      (HoldsKey foreign credential ∨ HoldsValue credential))

/-- The credentials after a `Bearer` are masked if and only if each one comes after a `Bearer`
    that is seen, or has a key or a parameter in it. -/
theorem masksBearers_iff (hforeign : Letters foreign) (text : String) :
    MasksBearers foreign text ↔ SeesBearers foreign text := by
  rw [MasksBearers]
  refine forall_congr' fun before => forall_congr' fun name => forall_congr' fun blanks =>
    forall_congr' fun credential => forall_congr' fun after => forall_congr' fun hechoed => ?_
  have hname : name ≠ [] := by
    rintro rfl
    exact not_endsIn_nil (List.cons_ne_nil _ _) hechoed.bearer
  have hlength : (before ++ name :: List.replicate blanks []).length =
      before.length + 1 + blanks := by
    rw [List.length_append, List.length_cons, List.length_replicate]
    omega
  have hwords := words_redact hforeign hechoed.parts hechoed.credential_ne_nil
  rw [awaited_append before hname, hlength] at hwords
  rcases hwords with ⟨hawaited, hword⟩ | ⟨hnot, hword⟩
  · rw [hword]
    constructor
    · intro hne
      exact .inl ⟨hawaited.1, hawaited.2, fun heq => hne (heq ▸ rfl)⟩
    · rintro (⟨-, -, hne⟩ | ⟨hnot, -⟩)
      · exact fun heq => hne (Option.some.inj heq).symm
      · exact absurd hawaited hnot
  · rw [hword]
    have hsame : some (clean foreign credential) = some credential ↔
        ¬HoldsKey foreign credential ∧ ¬HoldsValue credential := by
      rw [Option.some.injEq, clean_eq_self]
    rw [ne_eq, hsame, ← not_or, not_not]
    constructor
    · intro hholds
      exact .inr ⟨hnot, hholds⟩
    · rintro (⟨hheralds, hnone, -⟩ | ⟨-, hholds⟩)
      · exact absurd ⟨hheralds, hnone⟩ hnot
      · exact hholds

/-- The sign of the kelvin is the one letter outside ASCII. -/
def kelvin (c : Char) : Bool := c.toNat == 8490

theorem letters_kelvin : Letters kelvin where
  space := by
    intro c hspace
    refine beq_eq_false_iff_ne.mpr fun hkelvin => ?_
    rw [isSpace_of_foreign_letter (.inr (.inr hkelvin))] at hspace
    cases hspace
  kelvin := by
    intro c hkelvin
    exact beq_iff_eq.mpr hkelvin

theorem heralds_bearer : Heralds kelvin "Bearer".toList := by
  have hpart : lastPart (isBoundary kelvin) "Bearer".toList = "Bearer".toList := by
    decide +kernel
  refine ⟨⟨[], "Bearer".toList, rfl, rfl, by decide +kernel⟩, ?_, ?_⟩
  · rw [EndsInKey, hpart]
    rintro ⟨run, hparts, -, -⟩
    have hhead : 'B' = 'r' := Option.some.inj (congrArg List.head? hparts)
    revert hhead
    decide
  · rintro ⟨name, value, hvalued, -⟩
    have hmem : '=' ∈ lastPart endsValue "Bearer".toList := by
      rw [hvalued.parts]
      exact List.mem_append_right name List.mem_cons_self
    revert hmem
    decide +kernel

/-- The credential of a header is masked. -/
theorem masksBearers_header : MasksBearers kelvin "Bearer sk-live" := by
  refine (masksBearers_iff letters_kelvin "Bearer sk-live").mpr ?_
  intro before name blanks credential after hechoed
  have hparts : ["Bearer".toList, "sk-live".toList] =
      before ++ name :: List.replicate blanks [] ++ credential :: after := hechoed.parts
  rcases before with - | ⟨first, before⟩
  · rcases blanks with - | blanks
    · rw [List.nil_append, List.replicate_zero, List.singleton_append, List.cons.injEq,
        List.cons.injEq] at hparts
      refine .inl ⟨hparts.1 ▸ heralds_bearer, not_false, ?_⟩
      rw [← hparts.2.1]
      decide
    · rw [List.nil_append, List.replicate_succ, List.cons_append, List.cons_append,
        List.cons.injEq, List.cons.injEq] at hparts
      cases hparts.2.1
  · have hlength := congrArg List.length hparts
    simp only [List.length_append, List.length_cons, List.length_replicate, List.length_nil]
      at hlength
    omega

/-- The value of a parameter takes the `Bearer` with it, and the credential is shown. -/
theorem not_masksBearers_value : redact kelvin "key=Bearer sk-live" [] = "key=*** sk-live" ∧
    ¬MasksBearers kelvin "key=Bearer sk-live" := by
  refine ⟨by decide +kernel, fun hmasks => ?_⟩
  refine hmasks [] "key=Bearer".toList 0 "sk-live".toList [] ⟨by decide +kernel, ?_, ?_⟩ ?_
  · exact ⟨"key=".toList, "Bearer".toList, rfl, rfl, by decide +kernel⟩
  · decide
  · decide +kernel

end AgenticPlatform.Redaction
