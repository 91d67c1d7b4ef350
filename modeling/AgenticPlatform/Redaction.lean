import AgenticPlatform.Masking
import AgenticPlatform.RunPodClient

/-!
# Redaction

`redact` runs four rewritings over a text that is about to be shown: the secrets we hold,
anything shaped like a RunPod key, anything in a `key=` query parameter, and any `Bearer`
header. Each puts a mark in the place of what it finds, so none of them can put together what
an earlier one took apart. Which foreign characters are letters for `\w` is left open.
-/

namespace AgenticPlatform.Redaction

open Masking

/-! ### The mark -/

def MIN_REDACTABLE_LENGTH : Nat := 4

/-- `_REDACTED`. -/
def REDACTED : List Char := "***".toList

/-! ### The patterns -/

/-- `\w`. -/
def isWord (foreign : Char → Bool) (c : Char) : Bool :=
  c.isAlphanum || c == '_' || (127 < c.toNat && foreign c)

theorem run_pos (run : Nat) : 0 < 4 + run := Nat.add_pos_left (Nat.succ_pos 3) run

/-- `_KEY_PATTERN`: letters and digits are taken as far as they go, since no boundary lies
    between two of them. -/
def keyPattern (foreign : Char → Bool) (before : Option Char) (text : List Char) : Option Find :=
  let run := ((text.drop 4).takeWhile Char.isAlphanum).length
  let follower := (text.drop (4 + run)).head?
  if !before.any (isWord foreign) && "rpa_".toList.isPrefixOf text && 8 ≤ run &&
      !follower.any (isWord foreign) then
    some ⟨0, 4 + run, run_pos run⟩
  else none

/-- What a small letter of a pattern stands for with `re.IGNORECASE`: `i` also for the dotted
    capital and the dotless small letter, `k` also for the sign of the kelvin. -/
def sameLetter (letter c : Char) : Bool :=
  c == letter || c == letter.toUpper || (letter == 'i' && (c.toNat == 304 || c.toNat == 305)) ||
    (letter == 'k' && c.toNat == 8490)

/-- The text begins with the word, in whatever case. -/
def begins : (word text : List Char) → Bool
  | [], _ => true
  | _ :: _, [] => false
  | letter :: word, c :: text => sameLetter letter c && begins word text

/-- `[^&\s"']`. -/
def isQueryChar (c : Char) : Bool := !(isSpace c || "&\"'".toList.contains c)

/-- One name of a query parameter with its value. -/
def queryParameter (text name : List Char) : Option Find :=
  let run := ((text.drop name.length).takeWhile isQueryChar).length
  if h : begins name text ∧ 0 < run then
    some ⟨name.length, name.length + run, Nat.lt_add_of_pos_right h.2⟩
  else none

/-- `_QUERY_PATTERN`: the alternatives in their order. -/
def queryPattern (_ : Option Char) (text : List Char) : Option Find :=
  ["api_key=", "apikey=", "token=", "key="].findSome? fun name => queryParameter text name.toList

/-- `_BEARER_PATTERN`: with fewer blanks the header's value would begin with one. -/
def bearerPattern (_ : Option Char) (text : List Char) : Option Find :=
  let blanks := ((text.drop 6).takeWhile isSpace).length
  let run := ((text.drop (6 + blanks)).takeWhile fun c => !isSpace c).length
  if h : begins "bearer".toList text ∧ 0 < blanks ∧ 0 < run then
    some ⟨6 + blanks, 6 + blanks + run, Nat.lt_add_of_pos_right h.2.2⟩
  else none

/-! ### The four rewritings -/

theorem redactable_ne_nil {secret : String} (h : MIN_REDACTABLE_LENGTH ≤ secret.length) :
    secret.toList ≠ [] := by
  intro hempty
  rw [← String.length_toList, hempty] at h
  exact absurd h (Nat.not_succ_le_zero 3)

/-- `cleaned.replace(secret, _REDACTED)`, for a secret that is long enough. -/
def replaceSecret (cleaned : List Char) (secret : String) : List Char :=
  if h : MIN_REDACTABLE_LENGTH ≤ secret.length then
    pass (occurrence secret.toList (redactable_ne_nil h)) REDACTED cleaned
  else cleaned

/-- The patterns' rewritings, one after the other. -/
def replacePatterns (foreign : Char → Bool) (cleaned : List Char) : List Char :=
  pass bearerPattern REDACTED (pass queryPattern REDACTED
    (pass (keyPattern foreign) REDACTED cleaned))

def redact (foreign : Char → Bool) (text : String) (secrets : List String) : String :=
  String.ofList (replacePatterns foreign (secrets.foldl replaceSecret text.toList))

/-! ### What the rewritings keep out -/

variable {foreign : Char → Bool} {text secret : String} {secrets : List String}

theorem REDACTED_ne_nil : REDACTED ≠ [] := List.cons_ne_nil '*' _

theorem apart_of_not_mem {part : List Char} (h : '*' ∉ part) : Apart REDACTED part := by
  intro c hc hmark
  have hstar : c = '*' := by simpa [REDACTED] using hmark
  exact h (hstar ▸ hc)

theorem replaceSecret_masked (cleaned : List Char) (secret : String) :
    Masked REDACTED cleaned (replaceSecret cleaned secret) := by
  rw [replaceSecret]
  split
  · exact pass_masked cleaned
  · exact Masked.refl cleaned

/-- A text without the mark that is missing stays missing, whatever is replaced. -/
theorem foldl_replaceSecret_unstarred {part : List Char} (hpart : '*' ∉ part) (cleaned : List Char)
    (hinside : part <:+: secrets.foldl replaceSecret cleaned) : part <:+: cleaned := by
  induction secrets generalizing cleaned with
  | nil => exact hinside
  | cons other secrets ih =>
    rw [List.foldl_cons] at hinside
    exact (replaceSecret_masked cleaned other).infix_of REDACTED_ne_nil (apart_of_not_mem hpart)
      (ih _ hinside)

theorem foldl_replaceSecret_hides (hsecret : secret ∈ secrets)
    (hlength : MIN_REDACTABLE_LENGTH ≤ secret.length) (hstar : '*' ∉ secret.toList)
    (cleaned : List Char) : ¬ secret.toList <:+: secrets.foldl replaceSecret cleaned := by
  rcases List.append_of_mem hsecret with ⟨earlier, later, rfl⟩
  rw [List.foldl_append, List.foldl_cons]
  intro hinside
  have hreplaced := foldl_replaceSecret_unstarred hstar _ hinside
  rw [replaceSecret, dif_pos hlength] at hreplaced
  exact pass_occurrence REDACTED_ne_nil (apart_of_not_mem hstar) _ hreplaced

theorem replacePatterns_unstarred {part : List Char} (hpart : '*' ∉ part) (cleaned : List Char)
    (hinside : part <:+: replacePatterns foreign cleaned) : part <:+: cleaned := by
  have hapart := apart_of_not_mem hpart
  have hquery := (pass_masked _).infix_of REDACTED_ne_nil hapart hinside
  have hkey := (pass_masked _).infix_of REDACTED_ne_nil hapart hquery
  exact (pass_masked cleaned).infix_of REDACTED_ne_nil hapart hkey

theorem redact_omits (hsecret : secret ∈ secrets) (hlength : MIN_REDACTABLE_LENGTH ≤ secret.length)
    (hstar : '*' ∉ secret.toList) : ¬ secret.toList <:+: (redact foreign text secrets).toList := by
  rw [redact, String.toList_ofList]
  intro hinside
  exact foldl_replaceSecret_hides hsecret hlength hstar _ (replacePatterns_unstarred hstar _ hinside)

/-- What is redacted shows no secret that was held, in whatever order they are listed and
    whatever else is listed with it. -/
theorem redact_hides (hsecret : secret ∈ secrets) (hlength : MIN_REDACTABLE_LENGTH ≤ secret.length)
    (hstar : '*' ∉ secret.toList) :
    RunPodClient.mentions (redact foreign text secrets) secret = false :=
  decide_eq_false (redact_omits hsecret hlength hstar)

/-- Two secrets that overlap: the second one is taken apart with the first. -/
theorem redact_hides_overlapping : RunPodClient.mentions (redact (fun _ => false)
    "key=hunter-2022; Bearer ter-2022-x" ["hunter-2", "ter-2022"]) "ter-2022" = false :=
  redact_hides (List.mem_cons_of_mem _ (List.mem_singleton_self _)) (by decide) (by decide)

/-! ### What the client shows -/

/-- An error of a client that redacts its own key does not show it. -/
theorem clean_hides {client : RunPodClient} {key : String}
    (hredact : ∀ text, client.redact text = redact foreign text [key])
    (hlength : MIN_REDACTABLE_LENGTH ≤ key.length) (hstar : '*' ∉ key.toList) (text : String) :
    RunPodClient.mentions (client.clean text) key = false := by
  rw [RunPodClient.clean, hredact, RunPodClient.shortened]
  apply decide_eq_false
  rw [String.toList_ofList]
  intro hinside
  exact redact_omits (List.mem_singleton_self key) hlength hstar
    (hinside.trans (List.take_prefix 400 _).isInfix)

end AgenticPlatform.Redaction
