import Mathlib.Data.Finset.Card
import Mathlib.Data.Nat.Find

/-!
# Paths through a tree with links

A place of a tree is the list of names that lead to it, the innermost first. A path is
followed from a place, one step after the other; where it comes to a link it goes on from
where the link leads. Links may lead through other links, and round in circles: following
a path is a partial function, which is computed here with a bound on how deep the links
may be nested, and a tree with finitely many links has a bound that is never missed.
-/

namespace LinkedTree

variable {N : Type}

/-- A step of a path: to the parent, or to a child. -/
inductive Step (N : Type) where
  | up
  | down (name : N)
deriving DecidableEq, Repr

/-- What a link says: a path, from the root or from the place the link is in. -/
structure Target (N : Type) where
  fromRoot : Bool
  steps : List (Step N)
deriving DecidableEq, Repr

/-- Where the path of a link starts. -/
def Target.start (target : Target N) (place : List N) : List N :=
  if target.fromRoot then [] else place

/-- The path leads from one place to the other. Names that no link bears are taken as they
    are, and the parent of the root is the root. -/
inductive Leads (links : List N → Option (Target N)) : List N → List (Step N) → List N → Prop where
  | here (place : List N) : Leads links place [] place
  | up {place : List N} {rest : List (Step N)} {final : List N}
      (hrest : Leads links place.tail rest final) : Leads links place (.up :: rest) final
  | down {place : List N} {name : N} {rest : List (Step N)} {final : List N}
      (hplain : links (name :: place) = none) (hrest : Leads links (name :: place) rest final) :
      Leads links place (.down name :: rest) final
  | link {place : List N} {name : N} {rest : List (Step N)} {target : Target N} {mid final : List N}
      (hlink : links (name :: place) = some target)
      (htarget : Leads links (target.start place) target.steps mid)
      (hrest : Leads links mid rest final) : Leads links place (.down name :: rest) final

/-- The path, with links followed as `follow` says. -/
def walkWith (links : List N → Option (Target N)) (follow : List N → Target N → Option (List N)) :
    List N → List (Step N) → Option (List N)
  | place, [] => some place
  | place, .up :: rest => walkWith links follow place.tail rest
  | place, .down name :: rest =>
    match links (name :: place) with
    | none => walkWith links follow (name :: place) rest
    | some target => (follow place target).bind fun mid => walkWith links follow mid rest

/-- The path, with links nested at most so deep. -/
def walk (links : List N → Option (Target N)) : Nat → List N → List (Step N) → Option (List N)
  | 0 => walkWith links fun _ _ => none
  | depth + 1 => walkWith links fun place target => walk links depth (target.start place) target.steps

variable {links : List N → Option (Target N)} {place mid final other : List N}
  {steps before rest : List (Step N)} {depth : Nat} {name : N} {target : Target N}

/-! ### One step -/

@[simp] theorem walk_nil : walk links depth place [] = some place := by
  cases depth <;> rfl

@[simp] theorem walk_up : walk links depth place (.up :: rest) = walk links depth place.tail rest := by
  cases depth <;> rfl

theorem walk_down (h : links (name :: place) = none) :
    walk links depth place (.down name :: rest) = walk links depth (name :: place) rest := by
  cases depth <;> simp only [walk, walkWith, h]

theorem walk_link (h : links (name :: place) = some target) :
    walk links (depth + 1) place (.down name :: rest) =
      (walk links depth (target.start place) target.steps).bind fun mid =>
        walk links (depth + 1) mid rest := by
  simp only [walk, walkWith, h]

theorem walk_link_zero (h : links (name :: place) = some target) :
    walk links 0 place (.down name :: rest) = none := by
  simp only [walk, walkWith, h, Option.bind_none]

/-! ### The walk follows the path -/

theorem Leads.unique (h : Leads links place steps final) (hother : Leads links place steps other) :
    final = other := by
  induction h generalizing other with
  | here => cases hother; rfl
  | up _ ih =>
    cases hother with
    | up hrest => exact ih hrest
  | down hplain _ ih =>
    cases hother with
    | down _ hrest => exact ih hrest
    | link hlink _ _ => rw [hplain] at hlink; cases hlink
  | link hlink _ _ ihtarget ihrest =>
    cases hother with
    | down hplain _ => rw [hplain] at hlink; cases hlink
    | link hlink' htarget hrest =>
      rw [hlink] at hlink'
      cases hlink'
      cases ihtarget htarget
      exact ihrest hrest

/-- Paths are followed one after the other. -/
theorem Leads.append (h : Leads links place before mid) (hrest : Leads links mid rest final) :
    Leads links place (before ++ rest) final := by
  induction h with
  | here => exact hrest
  | up _ ih => exact .up (ih hrest)
  | down hplain _ ih => exact .down hplain (ih hrest)
  | link hlink htarget _ _ ih => exact .link hlink htarget (ih hrest)

theorem leads_of_walk (h : walk links depth place steps = some final) :
    Leads links place steps final := by
  induction depth using Nat.strong_induction_on generalizing place steps final with
  | _ depth ihdepth =>
    induction steps generalizing place with
    | nil =>
      rw [walk_nil] at h
      cases h
      exact .here _
    | cons step rest ih =>
      rcases step with - | name
      · rw [walk_up] at h
        exact .up (ih h)
      · rcases hlink : links (name :: place) with - | target
        · rw [walk_down hlink] at h
          exact .down hlink (ih h)
        · rcases depth with - | depth
          · rw [walk_link_zero hlink] at h
            cases h
          · rw [walk_link hlink] at h
            rcases Option.bind_eq_some_iff.mp h with ⟨mid, htarget, hrest⟩
            exact .link hlink (ihdepth depth (Nat.lt_succ_self depth) htarget) (ih hrest)

/-- A deeper nesting allowed changes no walk that ends. -/
theorem walk_mono {deeper : Nat} (h : walk links depth place steps = some final)
    (hle : depth ≤ deeper) : walk links deeper place steps = some final := by
  induction depth using Nat.strong_induction_on generalizing deeper place steps final with
  | _ depth ihdepth =>
    induction steps generalizing place with
    | nil => simpa using h
    | cons step rest ih =>
      rcases step with - | name
      · rw [walk_up] at h ⊢
        exact ih h
      · rcases hlink : links (name :: place) with - | target
        · rw [walk_down hlink] at h ⊢
          exact ih h
        · rcases depth with - | depth
          · rw [walk_link_zero hlink] at h
            cases h
          · rcases deeper with - | deeper
            · omega
            · rw [walk_link hlink] at h ⊢
              rcases Option.bind_eq_some_iff.mp h with ⟨mid, htarget, hrest⟩
              rw [ihdepth depth (Nat.lt_succ_self depth) htarget (by omega), Option.bind_some]
              exact ih hrest

theorem Leads.walked (h : Leads links place steps final) :
    ∃ depth, walk links depth place steps = some final := by
  induction h with
  | here place => exact ⟨0, walk_nil⟩
  | up _ ih => simpa using ih
  | down hplain _ ih =>
    rcases ih with ⟨depth, hrest⟩
    exact ⟨depth, (walk_down hplain).trans hrest⟩
  | link hlink _ _ ihtarget ihrest =>
    rcases ihtarget with ⟨depth, htarget⟩
    rcases ihrest with ⟨depth', hrest⟩
    refine ⟨max depth depth' + 1, ?_⟩
    rw [walk_link hlink, walk_mono htarget (le_max_left ..), Option.bind_some]
    exact walk_mono hrest (by omega)

/-! ### A bound on the nesting

A link that is met again while it is being followed is never followed to an end. So the
links nested in a walk that ends are different ones. -/

/-- Following a link that sits at `location`. -/
def follow (links : List N → Option (Target N)) (depth : Nat) (location : List N) : Option (List N) :=
  (links location).bind fun target => walk links depth (target.start location.tail) target.steps

theorem least_depth (h : walk links depth place steps = some final) : ∃ less ≤ depth,
    walk links less place steps = some final ∧ ∀ below < less, walk links below place steps = none := by
  have hends : ∃ less, walk links less place steps = some final := ⟨depth, h⟩
  classical
  refine ⟨Nat.find hends, Nat.find_min' hends h, Nat.find_spec hends, ?_⟩
  intro below hbelow
  rcases hwalk : walk links below place steps with - | other
  · rfl
  · have hsame := walk_mono hwalk hbelow.le
    rw [Nat.find_spec hends, ← hwalk] at hsame
    exact absurd hsame.symm (Nat.find_min hends hbelow)

/-- The links in `opened` cannot be followed within the depth that the walk needs, so the
    walk meets none of them. -/
theorem walk_spare [DecidableEq N] {domain opened : Finset (List N)}
    (hdomain : ∀ location, links location ≠ none → location ∈ domain) (hopened : opened ⊆ domain)
    (hdeep : ∀ location ∈ opened, ∀ less < depth, follow links less location = none)
    (h : walk links depth place steps = some final) :
    walk links (domain.card - opened.card) place steps = some final := by
  induction depth using Nat.strong_induction_on generalizing opened place steps final with
  | _ depth ihdepth =>
    induction steps generalizing place with
    | nil => simpa using h
    | cons step rest ih =>
      rcases step with - | name
      · rw [walk_up] at h ⊢
        exact ih h
      · rcases hlink : links (name :: place) with - | target
        · rw [walk_down hlink] at h ⊢
          exact ih h
        · rcases depth with - | depth
          · rw [walk_link_zero hlink] at h
            cases h
          · rw [walk_link hlink] at h
            rcases Option.bind_eq_some_iff.mp h with ⟨mid, htarget, hrest⟩
            have hfollow : ∀ less, follow links less (name :: place) =
                walk links less (target.start place) target.steps := by
              intro less
              rw [follow, hlink, Option.bind_some, List.tail_cons]
            rcases least_depth htarget with ⟨less, hle, hless, hleast⟩
            have hfresh : name :: place ∉ opened := by
              intro hmem
              have hnone := hdeep _ hmem less (by omega)
              rw [hfollow, hless] at hnone
              cases hnone
            have hinsert : insert (name :: place) opened ⊆ domain := by
              refine Finset.insert_subset (hdomain _ ?_) hopened
              rw [hlink]
              exact Option.some_ne_none target
            have hcard := Finset.card_le_card hinsert
            rw [Finset.card_insert_of_notMem hfresh] at hcard
            have hspare : domain.card - opened.card =
                domain.card - (insert (name :: place) opened).card + 1 := by
              rw [Finset.card_insert_of_notMem hfresh]
              omega
            have hnested : walk links (domain.card - (insert (name :: place) opened).card)
                (target.start place) target.steps = some mid := by
              refine ihdepth less (by omega) hinsert ?_ hless
              intro location hmem below hbelow
              rcases Finset.mem_insert.mp hmem with rfl | hmem
              · rw [hfollow]
                exact hleast below hbelow
              · exact hdeep location hmem below (by omega)
            have hafter := ih hrest
            rw [hspare] at hafter ⊢
            rw [walk_link hlink, hnested, Option.bind_some]
            exact hafter

/-- With as many levels as there are links, the walk ends wherever the path leads. -/
theorem walk_iff_leads [DecidableEq N] {domain : Finset (List N)}
    (hdomain : ∀ location, links location ≠ none → location ∈ domain) :
    walk links domain.card place steps = some final ↔ Leads links place steps final := by
  constructor
  · exact leads_of_walk
  · intro h
    rcases h.walked with ⟨depth, hwalk⟩
    have hspare := walk_spare hdomain (Finset.empty_subset domain)
      (fun location hmem => absurd hmem (Finset.notMem_empty location)) hwalk
    rwa [Finset.card_empty, Nat.sub_zero] at hspare

/-! ### Places without links -/

/-- No link is on the way to the place, or at it. -/
def Plain (links : List N → Option (Target N)) : List N → Prop
  | [] => True
  | name :: place => links (name :: place) = none ∧ Plain links place

theorem Plain.tail (h : Plain links place) : Plain links place.tail := by
  rcases place with - | ⟨name, place⟩
  · exact h
  · exact h.2

/-- A path leads from plain places to plain places. -/
theorem Leads.plain (h : Leads links place steps final) (hplace : Plain links place) :
    Plain links final := by
  induction h with
  | here => exact hplace
  | up _ ih => exact ih hplace.tail
  | down hplain _ ih => exact ih ⟨hplain, hplace⟩
  | @link place name rest target mid final hlink _ _ ihtarget ihrest =>
    refine ihrest (ihtarget ?_)
    rw [Target.start]
    split
    · exact trivial
    · exact hplace

/-- The path to a plain place leads to it. -/
theorem Plain.leads (h : Plain links place) : Leads links [] (place.reverse.map .down) place := by
  induction place with
  | nil => exact .here []
  | cons name place ih =>
    rw [List.reverse_cons, List.map_append]
    exact (ih h.2).append (.down h.1 (.here _))

end LinkedTree
