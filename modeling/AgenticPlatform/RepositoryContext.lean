import AgenticPlatform.Documents
import AgenticPlatform.Excerpts
import AgenticPlatform.Packing
import AgenticPlatform.Ranking
import Mathlib.Data.List.Dedup
import Mathlib.Data.Prod.Lex

/-!
# The context of a prompt

A model is shown a selection of the repository: the files it asks for, then the files that its
queries match, the most matches first. They are cut to excerpts and taken while the budgets of files
and tokens last. Nothing is shown twice on behalf of a query, and nothing that would still fit is
left out.
-/

namespace AgenticPlatform.Excerpts

open Utf8

structure ContextRequest where
  queries : List String
  paths : List String
  maxFiles : Int := 40
  maxTokens : Int := 24000
  includeTree : Bool := true

/-- What the agent is allowed to see, plus how it was chosen. -/
structure RepositoryContext where
  excerpts : List FileExcerpt
  fileTree : List String
  notes : List String
  estimatedTokens : Nat

/-- A file to show, with the line it is shown around. -/
structure Candidate where
  path : String
  line : Nat
  reason : String
deriving DecidableEq, Repr

def charsPerToken : Nat := 4

/-- `estimate_tokens`, of a text of that length. -/
def estimateTokens (length : Nat) : Nat := (length + charsPerToken - 1) / charsPerToken

/-! ### Ranking -/

/-- What a search gives back: its exit code and its output. -/
structure SearchRun where
  exitCode : Int
  stdout : List Char

/-- `_safe_matches`: a malformed query degrades the context. -/
def safeMatches (run : SearchRun) : Except PyError (List SearchMatch) :=
  if run.exitCode ≠ 0 ∧ run.exitCode ≠ 1 then .ok [] else parseMatches run.stdout 200

def matchedFile (found : SearchMatch) : String := String.ofList found.path

/-- The matches in one file. -/
def hits (found : List SearchMatch) (path : String) : List SearchMatch :=
  found.filter fun one => matchedFile one = path

/-- The files with matches, each once, in the order in which they were found. -/
def files (found : List SearchMatch) : List String :=
  ((found.map matchedFile).reverse.dedup).reverse

/-- `(-len(item[1]), item[0])`. -/
def matchKey (found : List SearchMatch) (path : String) : Int ×ₗ String :=
  toLex (-((hits found path).length : Int), path)

section Rank

-- `fnmatch` with the excluded patterns, `repr` of a query, and what the search engine finds
variable (excluded : String → Bool) (repr : String → String) (search : String → SearchRun)

def candidateOf (query : String) (found : List SearchMatch) (path : String) : Candidate where
  path := path
  line := ((hits found path).head?.map SearchMatch.lineNumber).getD 0
  reason := toString (hits found path).length ++ " match(es) for " ++ repr query

structure Ranked where
  seen : List String
  ordered : List Candidate

/-- One file of a query. -/
def rankFile (query : String) (found : List SearchMatch) (ranked : Ranked) (path : String) : Ranked :=
  if path ∈ ranked.seen ∨ excluded path = true then ranked
  else ⟨path :: ranked.seen, ranked.ordered ++ [candidateOf repr query found path]⟩

def rankQuery (ranked : Ranked) (query : String) : Except PyError Ranked :=
  match safeMatches (search query) with
  | .error error => .error error
  | .ok found =>
    .ok ((Ranking.ranked (matchKey found) (files found)).foldl (rankFile excluded repr query found) ranked)

/-- The queries one after the other, up to the first that raises. -/
def rankQueries : Ranked → List String → Except PyError Ranked
  | ranked, [] => .ok ranked
  | ranked, query :: rest =>
    match rankQuery excluded repr search ranked query with
    | .error error => .error error
    | .ok next => rankQueries next rest

/-- `_rank`. -/
def rank (request : ContextRequest) : Except PyError (List Candidate) :=
  let explicit := request.paths.map fun path => ⟨path, 1, "requested explicitly"⟩
  match rankQueries excluded repr search ⟨request.paths, explicit⟩ request.queries with
  | .error error => .error error
  | .ok ranked => .ok ranked.ordered

end Rank

/-! ### What the ranking is -/

section RankSpec

variable {excluded : String → Bool} {repr : String → String} {search : String → SearchRun}
  {ranked next last : Ranked} {query : String} {found : List SearchMatch} {path : String}
  {queries rest : List String} {blocks later : List (List Candidate)}

theorem mem_files : path ∈ files found ↔ ∃ one ∈ found, matchedFile one = path := by
  rw [files, List.mem_reverse, List.mem_dedup, List.mem_reverse, List.mem_map]

theorem nodup_files (found : List SearchMatch) : (files found).Nodup :=
  List.nodup_reverse.mpr (List.nodup_dedup _)

theorem nodup_ranked (found : List SearchMatch) :
    (Ranking.ranked (matchKey found) (files found)).Nodup :=
  (Ranking.ranked_perm _ _).nodup_iff.mpr (nodup_files found)

/-- The files of a query that were not seen before, nor are excluded. -/
def fresh (excluded : String → Bool) (seen paths : List String) : List String :=
  paths.filter fun path => path ∉ seen ∧ excluded path = false

theorem foldl_rankFile (paths : List String) (hnodup : paths.Nodup) (ranked : Ranked) :
    paths.foldl (rankFile excluded repr query found) ranked =
      ⟨(fresh excluded ranked.seen paths).reverse ++ ranked.seen,
        ranked.ordered ++ (fresh excluded ranked.seen paths).map (candidateOf repr query found)⟩ := by
  induction paths generalizing ranked with
  | nil =>
    rw [fresh, List.filter_nil, List.map_nil, List.append_nil]
    rfl
  | cons path rest ih =>
    rcases List.nodup_cons.mp hnodup with ⟨hfresh, hrest⟩
    rw [List.foldl_cons, ih hrest, rankFile]
    split
    · rename_i hskip
      have hsame : fresh excluded ranked.seen (path :: rest) = fresh excluded ranked.seen rest := by
        apply List.filter_cons_of_neg
        rw [decide_eq_true_eq]
        rintro ⟨hnew, hallowed⟩
        rcases hskip with hseen | hexcluded
        · exact hnew hseen
        · rw [hallowed] at hexcluded
          cases hexcluded
      rw [hsame]
    · rename_i hkeep
      rw [not_or] at hkeep
      have hcons : fresh excluded ranked.seen (path :: rest) =
          path :: fresh excluded ranked.seen rest := by
        apply List.filter_cons_of_pos
        rw [decide_eq_true_eq]
        exact ⟨hkeep.1, Bool.eq_false_of_not_eq_true hkeep.2⟩
      -- the file itself does not come again
      have hrestfresh : fresh excluded (path :: ranked.seen) rest = fresh excluded ranked.seen rest := by
        apply List.filter_congr
        intro other hother
        have hne : other ≠ path := fun heq => hfresh (heq ▸ hother)
        rw [decide_eq_decide, List.mem_cons, not_or, and_iff_right hne]
      dsimp only
      rw [hcons, hrestfresh, List.reverse_cons, List.map_cons, List.append_assoc, List.append_assoc]
      rfl

/-- What a query adds: the files in which it matches, the most matches first. -/
def BlockOf (excluded : String → Bool) (repr : String → String) (search : String → SearchRun)
    (query : String) (block : List Candidate) : Prop :=
  ∃ found, safeMatches (search query) = .ok found ∧
    block.Pairwise (fun left right => matchKey found left.path < matchKey found right.path) ∧
    ∀ candidate ∈ block, candidate = candidateOf repr query found candidate.path ∧
      (∃ one ∈ found, matchedFile one = candidate.path) ∧ excluded candidate.path = false

/-- What some queries add to a ranking, query by query. -/
structure Extends (excluded : String → Bool) (repr : String → String) (search : String → SearchRun)
    (queries : List String) (ranked next : Ranked) (blocks : List (List Candidate)) : Prop where
  ordered_eq : next.ordered = ranked.ordered ++ blocks.flatten
  seen_iff : ∀ path, path ∈ next.seen ↔
    path ∈ ranked.seen ∨ path ∈ blocks.flatten.map Candidate.path
  nodup : (blocks.flatten.map Candidate.path).Nodup
  new : ∀ candidate ∈ blocks.flatten, candidate.path ∉ ranked.seen
  blocks_of : List.Forall₂ (BlockOf excluded repr search) queries blocks
  complete : ∀ query ∈ queries, ∀ found, safeMatches (search query) = .ok found → ∀ one ∈ found,
    excluded (matchedFile one) = false → matchedFile one ∈ next.seen

theorem matchKey_injective (found : List SearchMatch) : Function.Injective (matchKey found) := by
  intro left right heq
  exact congrArg (fun key => (ofLex key).2) heq

/-- The files of a query are sorted strictly: no two have one key. -/
theorem ranked_strictly (found : List SearchMatch) :
    (Ranking.ranked (matchKey found) (files found)).Pairwise
      fun left right => matchKey found left < matchKey found right := by
  refine List.Pairwise.imp₂ (fun left right hle hne => ?_)
    (Ranking.ranked_pairwise (matchKey found) (files found)) (nodup_ranked found)
  exact lt_of_le_of_ne hle fun heq => hne (matchKey_injective found heq)

theorem extends_query (h : rankQuery excluded repr search ranked query = .ok next) :
    ∃ block, Extends excluded repr search [query] ranked next [block] := by
  rw [rankQuery] at h
  split at h
  · cases h
  · rename_i found hfound
    rw [foldl_rankFile _ (nodup_ranked found)] at h
    have hpaths : ∀ paths : List String,
        (paths.map (candidateOf repr query found)).map Candidate.path = paths := by
      intro paths
      rw [List.map_map]
      exact List.map_id _
    have hmem : ∀ path, path ∈ fresh excluded ranked.seen (Ranking.ranked (matchKey found) (files found)) ↔
        (∃ one ∈ found, matchedFile one = path) ∧ path ∉ ranked.seen ∧ excluded path = false := by
      intro path
      rw [fresh, List.mem_filter, decide_eq_true_eq, (Ranking.ranked_perm _ _).mem_iff, mem_files]
    cases h
    refine ⟨(fresh excluded ranked.seen (Ranking.ranked (matchKey found) (files found))).map
      (candidateOf repr query found), ?_, ?_, ?_, ?_, ?_, ?_⟩
    · rw [List.flatten_singleton]
    · intro path
      rw [List.flatten_singleton, hpaths, List.mem_append, List.mem_reverse, or_comm]
    · rw [List.flatten_singleton, hpaths]
      exact (nodup_ranked found).filter _
    · intro candidate hcandidate
      rw [List.flatten_singleton] at hcandidate
      rcases List.mem_map.mp hcandidate with ⟨path, hpath, rfl⟩
      exact ((hmem path).mp hpath).2.1
    · refine List.Forall₂.cons ⟨found, hfound, ?_, ?_⟩ .nil
      · exact List.pairwise_map.mpr ((ranked_strictly found).filter _)
      · intro candidate hcandidate
        rcases List.mem_map.mp hcandidate with ⟨path, hpath, rfl⟩
        exact ⟨rfl, ((hmem path).mp hpath).1, ((hmem path).mp hpath).2.2⟩
    · intro other hother found' hfound' one hone hallowed
      rw [List.mem_singleton.mp hother, hfound] at hfound'
      cases hfound'
      rw [List.mem_append, List.mem_reverse, hmem]
      by_cases hseen : matchedFile one ∈ ranked.seen
      · exact .inr hseen
      · exact .inl ⟨⟨one, hone, rfl⟩, hseen, hallowed⟩

theorem Extends.cons {block : List Candidate}
    (h : Extends excluded repr search [query] ranked next [block])
    (h' : Extends excluded repr search rest next last later) :
    Extends excluded repr search (query :: rest) ranked last (block :: later) := by
  have hseen : ∀ path, path ∈ next.seen ↔ path ∈ ranked.seen ∨ path ∈ block.map Candidate.path := by
    intro path
    have hiff := h.seen_iff path
    rwa [List.flatten_singleton] at hiff
  have hblock : (block.map Candidate.path).Nodup := by
    have hnodup := h.nodup
    rwa [List.flatten_singleton] at hnodup
  refine ⟨?_, ?_, ?_, ?_, ?_, ?_⟩
  · rw [h'.ordered_eq, h.ordered_eq, List.flatten_singleton, List.flatten_cons, List.append_assoc]
  · intro path
    rw [h'.seen_iff, hseen, List.flatten_cons, List.map_append, List.mem_append, or_assoc]
  · rw [List.flatten_cons, List.map_append]
    refine List.nodup_append'.mpr ⟨hblock, h'.nodup, ?_⟩
    intro path hfirst hsecond
    rcases List.mem_map.mp hsecond with ⟨candidate, hcandidate, rfl⟩
    exact h'.new candidate hcandidate ((hseen _).mpr (.inr hfirst))
  · intro candidate hcandidate hold
    rw [List.flatten_cons] at hcandidate
    rcases List.mem_append.mp hcandidate with hfirst | hsecond
    · exact h.new candidate (by rwa [List.flatten_singleton]) hold
    · exact h'.new candidate hsecond ((hseen _).mpr (.inl hold))
  · rcases h.blocks_of with - | ⟨hfirst, -⟩
    exact .cons hfirst h'.blocks_of
  · intro other hother found hfound one hone hallowed
    rcases List.mem_cons.mp hother with rfl | hrest
    · have hnext := h.complete other List.mem_cons_self found hfound one hone hallowed
      exact (h'.seen_iff _).mpr (.inl hnext)
    · exact h'.complete other hrest found hfound one hone hallowed

theorem extends_queries (queries : List String) (ranked : Ranked)
    (h : rankQueries excluded repr search ranked queries = .ok last) :
    ∃ blocks, Extends excluded repr search queries ranked last blocks := by
  induction queries generalizing ranked with
  | nil =>
    cases h
    refine ⟨[], (List.append_nil _).symm, fun path => ?_, List.nodup_nil, nofun, .nil, nofun⟩
    exact (or_iff_left List.not_mem_nil).symm
  | cons query rest ih =>
    rw [rankQueries] at h
    split at h
    · cases h
    · rename_i next hnext
      rcases extends_query hnext with ⟨block, hblock⟩
      rcases ih next h with ⟨later, hlater⟩
      exact ⟨block :: later, hblock.cons hlater⟩

/-- `a.py` is asked for, and the query matches in it and twice in `b.py`. -/
def retryRequest : ContextRequest where
  queries := ["retry"]
  paths := ["a.py"]

def retrySearch (_ : String) : SearchRun :=
  ⟨0, "a.py:3:retry\nb.py:1:retry\nb.py:9:retry\n".toList⟩

end RankSpec

/-! ### Building -/

/-- The settings of the provider. -/
structure Provider where
  window : Window
  maxTreeEntries : Nat := 400
  engine : String

def excerptCost (shown : FileExcerpt) : Nat := estimateTokens shown.content.length

/-- `_list_files`, of what git or the file system lists. -/
def listFiles (excluded : String → Bool) (listed : List String) : List String :=
  sortedTexts (listed.filter fun path => excluded path = false)

def omittedNote (request : ContextRequest) (skipped : Nat) : String :=
  toString skipped ++ " relevant file(s) omitted: max_files=" ++ toString request.maxFiles ++
    ", max_tokens=" ++ toString request.maxTokens

variable (provider : Provider) (request : ContextRequest)

/-- The tree that is shown, with the note on what is cut off. -/
def shownTree (files : List String) : List String × List String :=
  if request.includeTree = true then
    let tree := files.take provider.maxTreeEntries
    (tree, if tree.length < files.length then
      ["file tree truncated to " ++ toString tree.length ++ " of " ++ toString files.length ++ " files"]
    else [])
  else ([], [])

def shownExcerpt (file : String → Option (List UInt8)) (candidate : Candidate) : Option FileExcerpt :=
  excerpt provider.window (file candidate.path) candidate.path candidate.line candidate.reason

/-- The loop of `build`. -/
def selection (file : String → Option (List UInt8)) (ranked : List Candidate) :
    Packing.Packed FileExcerpt :=
  Packing.pack (shownExcerpt provider file) excerptCost request.maxFiles request.maxTokens ranked

/-- `build`, of what is listed and the ranked candidates. -/
def build (excluded : String → Bool) (file : String → Option (List UInt8)) (listed : List String)
    (ranked : List Candidate) : RepositoryContext :=
  let tree := shownTree provider request (listFiles excluded listed)
  let chosen := selection provider request file ranked
  { excerpts := chosen.taken
    fileTree := tree.1
    notes := ["token counts are estimated at 4 characters per token and are approximate",
      "search engine: " ++ provider.engine] ++ tree.2 ++
      (if chosen.skipped ≠ 0 then [omittedNote request chosen.skipped] else []) ++
      (if chosen.taken = [] then ["no file matched the request; only the tree is provided"] else [])
    estimatedTokens := chosen.used + estimateTokens ("\n".intercalate tree.1).length }

end AgenticPlatform.Excerpts
