import AgenticPlatform.Candidate
import Mathlib.Data.List.Lex
import Mathlib.Data.List.Sort

/-!
# Choosing between competing candidates

`DeterministicCandidateSelectionPolicy`: rank on tool evidence, break ties on the
smaller change, then on the lower index. `sorted(..., reverse=True)` keeps the order
of equal elements, so the ranking is an insertion sort by the reversed key order.
-/

namespace AgenticPlatform.CandidateSelection

structure Selection where
  winner : Option Candidate
  rationale : String
  rejected : List Candidate

def bit (b : Bool) : Int := if b then 1 else 0

/-- `_tier`: comparable evidence, most significant first; higher is better. -/
def tier (candidate : Candidate) : List Int :=
  [bit (decide (candidate.reviewVerdict = some .pass)),
   bit (decide (candidate.validation.testsPassed = some true)),
   bit (decide (candidate.validation.buildPassed = some true)),
   bit candidate.hasPatch]

def churn (candidate : Candidate) : Nat :=
  match candidate.patch with
  | some patch => patch.totalChurn
  | none => 0

/-- The sort key `(_tier(c), -churn, -index)`, compared lexicographically. -/
def key (candidate : Candidate) : List Int :=
  tier candidate ++ [-(churn candidate : Int), -(candidate.index : Int)]

/-- `usable`: still in play, or finished but viable. -/
def usable (candidates : List Candidate) : List Candidate :=
  candidates.filter fun candidate => !candidate.status.isTerminal || candidate.isViable

def ranked (candidates : List Candidate) : List Candidate :=
  (usable candidates).insertionSort fun left right => key right ≤ key left

def select (candidates : List Candidate) : Selection :=
  match ranked candidates with
  | [] => ⟨none, "no candidate produced a usable patch", []⟩
  | winner :: rest =>
      if winner.hasPatch = false then
        ⟨none, "no candidate produced a non-empty patch", winner :: rest⟩
      else if winner.isViable = false then
        ⟨none, "no candidate survived deterministic validation: " ++ winner.validation.summary,
          winner :: rest⟩
      else
        ⟨some winner, "candidate " ++ toString winner.index ++ " selected on " ++
          winner.validation.summary, rest⟩

/-- Candidates worth sending to the reviewer at all. -/
def viable (candidates : List Candidate) : List Candidate :=
  candidates.filter Candidate.isViable

theorem mem_viable {candidates : List Candidate} {candidate : Candidate} :
    candidate ∈ viable candidates ↔ candidate ∈ candidates ∧ candidate.isViable = true := by
  simp [viable]

/-- A winner is one of the given candidates and is viable. -/
theorem select_winner {candidates : List Candidate} {winner : Candidate}
    (h : (select candidates).winner = some winner) :
    winner ∈ candidates ∧ winner.isViable = true := by
  unfold select at h
  split at h
  · cases h
  · rename_i first rest hranked
    split at h
    · cases h
    · split at h
      · cases h
      · rename_i hviable
        obtain rfl : first = winner := by simpa using h
        have hmem : first ∈ usable candidates := by
          have hfirst : first ∈ ranked candidates := by rw [hranked]; exact List.mem_cons_self
          exact (List.perm_insertionSort _ _).mem_iff.mp hfirst
        exact ⟨(List.mem_filter.mp hmem).1, by simpa using hviable⟩

/-! ### The ranking -/

variable {candidates : List Candidate} {winner c d : Candidate} {rest : List Candidate}

theorem mem_usable : c ∈ usable candidates ↔
    c ∈ candidates ∧ (c.status.isTerminal = false ∨ c.isViable = true) := by
  simp [usable]

theorem mem_usable_of_viable (hc : c ∈ candidates) (hviable : c.isViable = true) :
    c ∈ usable candidates :=
  mem_usable.mpr ⟨hc, .inr hviable⟩

theorem ranked_perm : (ranked candidates).Perm (usable candidates) :=
  List.perm_insertionSort _ _

theorem ranked_sorted (candidates : List Candidate) :
    (ranked candidates).Pairwise fun left right => key right ≤ key left := by
  have : Std.Total fun left right : Candidate => key right ≤ key left :=
    ⟨fun left right => le_total (key right) (key left)⟩
  have : IsTrans Candidate fun left right => key right ≤ key left :=
    ⟨fun _ _ _ hleft hright => le_trans hright hleft⟩
  exact List.pairwise_insertionSort _ _

/-- Nothing usable is ranked above the first. -/
theorem key_le_first (h : ranked candidates = winner :: rest) (hc : c ∈ usable candidates) :
    key c ≤ key winner := by
  have hmem : c ∈ ranked candidates := ranked_perm.mem_iff.mpr hc
  have hsorted := ranked_sorted candidates
  rw [h] at hmem hsorted
  rcases List.mem_cons.mp hmem with rfl | hrest
  · exact le_rfl
  · exact List.rel_of_pairwise_cons hsorted hrest

theorem first_mem (h : ranked candidates = winner :: rest) : winner ∈ usable candidates :=
  ranked_perm.mem_iff.mp (h ▸ List.mem_cons_self)

/-- The key ends with the index, so it tells candidates of one list apart. -/
theorem eq_of_key_eq (hdistinct : (candidates.map Candidate.index).Nodup) (hc : c ∈ candidates)
    (hd : d ∈ candidates) (h : key c = key d) : c = d := by
  have hindex : c.index = d.index := by
    simp only [key, tier, List.cons_append, List.nil_append, List.cons.injEq] at h
    omega
  exact List.inj_on_of_nodup_map hdistinct hc hd hindex

theorem ranked_congr (hdistinct : (candidates.map Candidate.index).Nodup)
    {permuted : List Candidate} (hperm : permuted.Perm candidates) :
    ranked permuted = ranked candidates := by
  have husable : (usable permuted).Perm (usable candidates) := hperm.filter _
  refine List.Perm.eq_of_pairwise ?_ (ranked_sorted permuted) (ranked_sorted candidates)
    ((ranked_perm.trans husable).trans ranked_perm.symm)
  intro a b ha hb hle hge
  have hafirst := (mem_usable.mp (husable.mem_iff.mp (ranked_perm.mem_iff.mp ha))).1
  have hbfirst := (mem_usable.mp (ranked_perm.mem_iff.mp hb)).1
  exact eq_of_key_eq hdistinct hafirst hbfirst (le_antisymm hge hle)

theorem hasPatch_of_isViable (h : c.isViable = true) : c.hasPatch = true := by
  simp only [Candidate.isViable, Bool.and_eq_true] at h
  exact h.1

/-- The first of the ranking wins if it is viable, and nobody else does. -/
theorem select_winner_iff : (select candidates).winner = some winner ↔
    winner.isViable = true ∧ ∃ rest, ranked candidates = winner :: rest := by
  rcases hranked : ranked candidates with - | ⟨first, rest⟩
  · simp [select, hranked]
  · rcases hviable : first.isViable with - | -
    · have hnone : (select candidates).winner = none := by
        simp only [select, hranked, hviable]
        split <;> rfl
      rw [hnone]
      refine iff_of_false (by simp) ?_
      rintro ⟨hwins, rest', hsame⟩
      cases hsame
      rw [hviable] at hwins
      cases hwins
    · have hfirst : (select candidates).winner = some first := by
        simp [select, hranked, hviable, hasPatch_of_isViable hviable]
      rw [hfirst]
      constructor
      · intro hsame
        cases hsame
        exact ⟨hviable, rest, rfl⟩
      · rintro ⟨-, rest', hsame⟩
        cases hsame
        rfl

/-! ### The best of the viable candidates -/

/-- What a choice among candidates is for: there is a winner whenever somebody is viable,
    it is the best of the viable ones, and the order they are listed in does not matter. -/
structure Optimal (candidates : List Candidate) : Prop where
  found : (select candidates).winner.isSome = true ↔ ∃ c ∈ candidates, c.isViable = true
  best : ∀ winner, (select candidates).winner = some winner →
    winner ∈ candidates ∧ winner.isViable = true ∧
      ∀ c ∈ candidates, c.isViable = true → key c ≤ key winner
  unordered : ∀ permuted, List.Perm permuted candidates → select permuted = select candidates

/-- Nobody is viable, or every other candidate still in play is ranked below one that is. -/
def Outranked (candidates : List Candidate) : Prop :=
  (∃ c ∈ candidates, c.isViable = true) →
    ∀ d ∈ candidates, d.status.isTerminal = false → d.isViable = false →
      ∃ c ∈ candidates, c.isViable = true ∧ key d < key c

theorem outranked_of_found (hdistinct : (candidates.map Candidate.index).Nodup)
    (hfound : (∃ c ∈ candidates, c.isViable = true) → (select candidates).winner.isSome = true) :
    Outranked candidates := by
  intro hsome d hd hplay hbroken
  rcases Option.isSome_iff_exists.mp (hfound hsome) with ⟨winner, hwinner⟩
  rcases select_winner_iff.mp hwinner with ⟨hviable, rest, hranked⟩
  have hwins : winner ∈ candidates := (mem_usable.mp (first_mem hranked)).1
  have hle : key d ≤ key winner := key_le_first hranked (mem_usable.mpr ⟨hd, .inl hplay⟩)
  rcases hle.lt_or_eq with hlt | hsame
  · exact ⟨winner, hwins, hviable, hlt⟩
  · rw [eq_of_key_eq hdistinct hd hwins hsame, hviable] at hbroken
    cases hbroken

theorem Outranked.found (h : Outranked candidates) (hc : c ∈ candidates)
    (hviable : c.isViable = true) : (select candidates).winner.isSome = true := by
  have hmem : c ∈ ranked candidates := ranked_perm.mem_iff.mpr (mem_usable_of_viable hc hviable)
  rcases hranked : ranked candidates with - | ⟨first, rest⟩
  · rw [hranked] at hmem
    cases hmem
  · have hfirst : first.isViable = true := by
      by_contra hbroken
      have hbroken' : first.isViable = false := Bool.eq_false_iff.mpr hbroken
      rcases mem_usable.mp (first_mem hranked) with ⟨hgiven, hplay | hsound⟩
      · rcases h ⟨c, hc, hviable⟩ first hgiven hplay hbroken' with ⟨best, hbest, hsound, hlt⟩
        exact absurd hlt (key_le_first hranked (mem_usable_of_viable hbest hsound)).not_gt
      · exact hbroken hsound
    rw [select_winner_iff.mpr ⟨hfirst, rest, hranked⟩]
    rfl

/-- The choice is the best viable candidate exactly if no broken one that is still in play
    ranks above all viable ones. -/
theorem select_optimal_iff (candidates : List Candidate)
    (hdistinct : (candidates.map Candidate.index).Nodup) :
    Optimal candidates ↔ Outranked candidates := by
  constructor
  · intro h
    exact outranked_of_found hdistinct h.found.mpr
  · intro h
    refine ⟨⟨?_, ?_⟩, ?_, ?_⟩
    · intro hsome
      rcases Option.isSome_iff_exists.mp hsome with ⟨winner, hwinner⟩
      exact ⟨winner, select_winner hwinner⟩
    · rintro ⟨c, hc, hviable⟩
      exact h.found hc hviable
    · intro winner hwinner
      rcases select_winner_iff.mp hwinner with ⟨hviable, rest, hranked⟩
      refine ⟨(mem_usable.mp (first_mem hranked)).1, hviable, ?_⟩
      intro c hc hsound
      exact key_le_first hranked (mem_usable_of_viable hc hsound)
    · intro permuted hperm
      simp only [select, ranked_congr hdistinct hperm]

/-- A validated candidate that changes `lines` lines, builds, and has its static analysis
    count. -/
def validated (index lines : Nat) (analysis : Int) : Candidate :=
  { Candidate.create ⟨index⟩ ⟨1⟩ index 0 with
    status := .validated
    patch := some ⟨"+x", none, [⟨"a.py", lines, 0⟩]⟩
    validation :=
      { results :=
          [⟨"make", .build, "make", 0, "", "", 1, false, [], []⟩,
            ⟨"ruff", .staticAnalysis, "ruff", analysis, "", "", 1, false, [], []⟩]
        staticAnalysisIsBlocking := true } }

/-- The smaller change fails its static analysis; the larger one is viable, and is not chosen. -/
theorem smaller_change_hides_viable : ¬ Optimal [validated 0 1 1, validated 1 2 0] := by
  intro h
  have hnone : (select [validated 0 1 1, validated 1 2 0]).winner.isSome = false := by decide
  rw [h.found.mpr ⟨validated 1 2 0, by simp, by decide⟩] at hnone
  cases hnone

theorem select_optimal_sample : Optimal [validated 0 3 1, validated 1 2 0] :=
  (select_optimal_iff _ (by decide)).mpr (by
    unfold Outranked
    decide)

end AgenticPlatform.CandidateSelection
