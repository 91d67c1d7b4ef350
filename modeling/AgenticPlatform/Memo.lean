import AgenticPlatform.Dict
import AgenticPlatform.Runs
import Mathlib.Data.List.Induction
import Mathlib.Data.List.Pairwise

/-!
# Answers that are kept by a key

What is built for a call is kept under the key of the call, and any later call with that key is
given it; what raises is not kept. Every answer of a run is as good as a new one exactly if no two
calls of the run that have one key would be answered differently.
-/

namespace AgenticPlatform.Memo

variable {C K R E : Type} [DecidableEq K] (key : C → K) (build : C → Except E R)

/-- The answer to a call, and the cache after it. -/
def fetch (cache : Dict K R) (call : C) : Except E R × Dict K R :=
  match cache.lookup (key call) with
  | some kept => (.ok kept, cache)
  | none =>
    match build call with
    | .ok built => (.ok built, cache.insert (key call) built)
    | .error error => (.error error, cache)

/-- The cache after a call. -/
def next (cache : Dict K R) (call : C) : Dict K R := (fetch key build cache call).2

/-- Every call of the run is answered as if nothing were kept. -/
def Transparent (same : Except E R → Except E R → Prop) (calls : List C) : Prop :=
  Runs.Along (next key build) (fun cache call => same (fetch key build cache call).1 (build call)) ∅
    calls

/-- Calls with one key are answered alike. -/
def Agree (same : Except E R → Except E R → Prop) (call other : C) : Prop :=
  key call = key other → same (build call) (build other)

variable {key build} {same : Except E R → Except E R → Prop} {calls : List C} {call : C} {k : K}
  {kept built : R} {cache : Dict K R}

/-! ### What the cache holds -/

theorem fetch_of_kept (h : cache.lookup (key call) = some kept) :
    fetch key build cache call = (.ok kept, cache) := by
  rw [fetch, h]

/-- Without an answer that is kept, the call is answered anew. -/
theorem fetch_of_new (h : cache.lookup (key call) = none) :
    (fetch key build cache call).1 = build call := by
  rw [fetch, h]
  rcases build call with error | built <;> rfl

theorem lookup_next : (next key build cache call).lookup k =
    if k = key call ∧ cache.lookup k = none then (build call).toOption else cache.lookup k := by
  rw [next, fetch]
  rcases hkept : cache.lookup (key call) with - | kept
  · rcases hbuild : build call with error | built
    · by_cases hk : k = key call
      · rw [if_pos ⟨hk, hk ▸ hkept⟩, hk]
        exact hkept
      · exact (if_neg fun h => hk h.1).symm
    · dsimp only
      rw [Dict.lookup_insert_ite]
      by_cases hk : k = key call
      · rw [if_pos hk, if_pos ⟨hk, hk ▸ hkept⟩]
        rfl
      · rw [if_neg hk, if_neg fun h => hk h.1]
  · rw [if_neg]
    rintro ⟨rfl, hnone⟩
    rw [hkept] at hnone
    cases hnone

/-- What is kept was built for a call with that key. -/
theorem exists_built (h : (Runs.after (next key build) ∅ calls).lookup k = some kept) :
    ∃ call ∈ calls, key call = k ∧ build call = .ok kept := by
  induction calls using List.reverseRecOn with
  | nil => cases h
  | append_singleton calls call ih =>
    rw [Runs.after_append, Runs.after_cons, Runs.after_nil, lookup_next] at h
    split at h
    · rename_i hnew
      refine ⟨call, List.mem_append_right calls List.mem_cons_self, hnew.1.symm, ?_⟩
      rcases hbuild : build call with error | built
      · rw [hbuild] at h
        cases h
      · rw [hbuild] at h
        cases h
        rfl
    · rcases ih h with ⟨earlier, hmem, hearlier⟩
      exact ⟨earlier, List.mem_append_left _ hmem, hearlier⟩

/-- What has been built for a call is kept, or something for its key was before. -/
theorem exists_kept (hcall : call ∈ calls) (h : build call = .ok built) :
    ∃ kept, (Runs.after (next key build) ∅ calls).lookup (key call) = some kept := by
  induction calls using List.reverseRecOn with
  | nil => cases hcall
  | append_singleton calls last ih =>
    rw [Runs.after_append, Runs.after_cons, Runs.after_nil, lookup_next]
    rcases hkept : (Runs.after (next key build) ∅ calls).lookup (key call) with - | kept
    · rcases List.mem_append.mp hcall with hearlier | hlast
      · rcases ih hearlier with ⟨kept, hearlier⟩
        rw [hearlier] at hkept
        cases hkept
      · rw [List.mem_singleton.mp hlast] at h ⊢
        rw [if_pos ⟨rfl, rfl⟩, h]
        exact ⟨built, rfl⟩
    · rw [if_neg fun hnew => Option.some_ne_none kept hnew.2]
      exact ⟨kept, rfl⟩

/-! ### Transparency -/

/-- Where calls with one key raise alike, a call is answered as anew exactly if every call before
    it agrees with it. -/
theorem answered_iff (hsame : Equivalence same)
    (hraises : ∀ call other error, key call = key other → build call = .error error →
      build other = .error error)
    (hagree : ∀ earlier ∈ calls, ∀ other ∈ calls, Agree key build same earlier other) :
    same (fetch key build (Runs.after (next key build) ∅ calls) call).1 (build call) ↔
      ∀ earlier ∈ calls, Agree key build same earlier call := by
  rcases hkept : (Runs.after (next key build) ∅ calls).lookup (key call) with - | kept
  · rw [fetch_of_new hkept]
    refine iff_of_true (hsame.refl _) fun earlier hearlier hkey => ?_
    rcases hbuild : build earlier with error | built
    · rw [hraises earlier call error hkey hbuild]
      exact hsame.refl _
    · rcases @exists_kept _ _ _ _ _ key _ _ _ _ hearlier hbuild with ⟨kept, hfound⟩
      rw [hkey, hkept] at hfound
      cases hfound
  · rw [fetch_of_kept hkept]
    rcases exists_built hkept with ⟨first, hfirst, hkey, hbuild⟩
    rw [← hbuild]
    constructor
    · intro hanswer earlier hearlier hearlierKey
      exact hsame.trans (hagree earlier hearlier first hfirst (hearlierKey.trans hkey.symm)) hanswer
    · intro hall
      exact hall first hfirst hkey

omit [DecidableEq K] in
theorem Agree.symm (hsame : Equivalence same) {other : C} (h : Agree key build same call other) :
    Agree key build same other call :=
  fun hkey => hsame.symm (h hkey.symm)

/-- A run is answered as if nothing were kept exactly if any two calls of it agree. -/
theorem transparent_iff_pairwise (hsame : Equivalence same)
    (hraises : ∀ call other error, key call = key other → build call = .error error →
      build other = .error error) (calls : List C) :
    Transparent key build same calls ↔ calls.Pairwise (Agree key build same) := by
  induction calls using List.reverseRecOn with
  | nil => exact iff_of_true trivial List.Pairwise.nil
  | append_singleton calls call ih =>
    rw [Transparent, Runs.along_append, List.pairwise_append, ← Transparent, ih]
    refine and_congr_right fun hcalls => ?_
    have hagree : ∀ earlier ∈ calls, ∀ other ∈ calls, Agree key build same earlier other := by
      intro earlier hearlier other hother
      exact hcalls.forall_of_forall_of_flip (fun _ _ _ => hsame.refl _)
        (hcalls.imp (Agree.symm hsame)) hearlier hother
    rw [and_iff_right (List.pairwise_singleton _ call)]
    refine (and_iff_left trivial).trans ((answered_iff hsame hraises hagree).trans ?_)
    exact forall₂_congr fun earlier _ => List.forall_mem_singleton.symm

end AgenticPlatform.Memo
