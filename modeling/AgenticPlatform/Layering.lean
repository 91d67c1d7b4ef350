import Mathlib.Data.Fintype.Card
import Mathlib.Data.Set.Finite.List
import Mathlib.Logic.Relation
import Mathlib.Order.Bounds.Defs

/-!
# Layers of a dependency graph

Items have keys and depend on keys. A graph is peeled in rounds: each takes out all the
items whose dependencies are satisfied. Peeling succeeds exactly on the acyclic graphs,
and then an item is in the layer whose number is the length of its longest chain of
dependencies.
-/

namespace Layering

open Relation

/-! ### Chains -/

section Chains

variable {κ : Type} {R : κ → κ → Prop} {a b : κ} {m n : Nat}

/-- A chain of `n` steps starts at a key. -/
inductive Chain (R : κ → κ → Prop) : Nat → κ → Prop where
  | here (a : κ) : Chain R 0 a
  | step {n : Nat} {a b : κ} : R a b → Chain R n b → Chain R (n + 1) a

def Acyclic (R : κ → κ → Prop) : Prop := ∀ a, ¬ TransGen R a a

theorem Chain.of_le (h : Chain R n a) (hle : m ≤ n) : Chain R m a := by
  induction h generalizing m with
  | here a =>
    obtain rfl : m = 0 := Nat.le_zero.mp hle
    exact .here a
  | step hab _ ih =>
    cases m with
    | zero => exact .here _
    | succ m => exact .step hab (ih (Nat.le_of_succ_le_succ hle))

theorem Chain.before (hab : TransGen R a b) (h : Chain R n b) : Chain R (n + 1) a := by
  induction hab using TransGen.head_induction_on with
  | single hab => exact .step hab h
  | head hab _ ih => exact (Chain.step hab ih).of_le (Nat.le_succ _)

/-- Chains from a cycle never end. -/
theorem Chain.of_cycle (h : TransGen R a a) (n : Nat) : Chain R n a := by
  induction n with
  | zero => exact .here a
  | succ n ih => exact ih.before h

/-- Among finitely many keys of an acyclic graph, one depends on none of them. -/
theorem Acyclic.exists_last (h : Acyclic R) (keys : List κ) (hne : keys ≠ []) :
    ∃ a ∈ keys, ∀ b ∈ keys, ¬ R a b := by
  let below : {k // k ∈ keys} → {k // k ∈ keys} → Prop := fun x y => TransGen R y.1 x.1
  have : Finite {k // k ∈ keys} := (List.finite_toSet keys).to_subtype
  have : IsTrans _ below := ⟨fun _ _ _ hxy hyz => TransGen.trans hyz hxy⟩
  have : Std.Irrefl below := ⟨fun x hx => h x.1 hx⟩
  obtain ⟨first, hfirst⟩ := List.exists_mem_of_ne_nil keys hne
  obtain ⟨last, -, hlast⟩ := (Finite.wellFounded_of_trans_of_irrefl below).has_min Set.univ
    ⟨⟨first, hfirst⟩, trivial⟩
  exact ⟨last.1, last.2, fun b hb hneeds => hlast ⟨b, hb⟩ trivial (.single hneeds)⟩

end Chains

/-! ### Peeling -/

variable {ι κ : Type} (key : ι → κ) (deps : ι → List κ)

/-- One key needs another. -/
def Needs (items : List ι) (a b : κ) : Prop := ∃ item ∈ items, key item = a ∧ b ∈ deps item

/-- Distinct keys, and dependencies on these only. -/
structure Closed (items : List ι) : Prop where
  nodup : (items.map key).Nodup
  closed : ∀ item ∈ items, ∀ dep ∈ deps item, dep ∈ items.map key

/-- Where peeling stands after a number of rounds: what is satisfied has shorter chains
    only, what remains has one of that length. -/
structure Stage (items remaining : List ι) (satisfied : List κ) (rounds : Nat) : Prop where
  subset : ∀ item ∈ remaining, item ∈ items
  covered : ∀ item ∈ items, key item ∈ satisfied ∨ item ∈ remaining
  short : ∀ a ∈ satisfied, ∀ n, Chain (Needs key deps items) n a → n < rounds
  long : ∀ item ∈ remaining, Chain (Needs key deps items) rounds (key item)

/-- Items with the same key are one. -/
theorem Closed.inj {key : ι → κ} {deps : ι → List κ} {items : List ι} (h : Closed key deps items)
    {left right : ι} (hleft : left ∈ items) (hright : right ∈ items)
    (hkey : key left = key right) : left = right :=
  List.inj_on_of_nodup_map h.nodup hleft hright hkey

theorem Stage.start {key : ι → κ} {deps : ι → List κ} (items : List ι) :
    Stage key deps items items [] 0 where
  subset := fun _ h => h
  covered := fun _ h => .inr h
  short := fun _ h => absurd h List.not_mem_nil
  long := fun item _ => .here (key item)

variable [DecidableEq κ]

/-- All dependencies of an item are satisfied. -/
def isReady (satisfied : List κ) (item : ι) : Bool :=
  (deps item).all fun dep => decide (dep ∈ satisfied)

/-- Rounds of peeling, with the layers they take out. A round that takes nothing out of
    what remains is none. -/
inductive Peels : List ι → List κ → List (List ι) → Prop where
  | done (satisfied : List κ) : Peels [] satisfied []
  | round {remaining : List ι} {satisfied : List κ} {layers : List (List ι)} :
      remaining.filter (isReady deps satisfied) ≠ [] →
      Peels (remaining.filter fun item => !isReady deps satisfied item)
        (satisfied ++ (remaining.filter (isReady deps satisfied)).map key) layers →
      Peels remaining satisfied (remaining.filter (isReady deps satisfied) :: layers)

variable {key deps} {items remaining : List ι} {satisfied : List κ} {layers : List (List ι)}
  {rounds : Nat} {item : ι}

theorem isReady_iff : isReady deps satisfied item = true ↔ ∀ dep ∈ deps item, dep ∈ satisfied := by
  simp [isReady]

/-- An item that is ready has a longest chain: one step more than was satisfied. -/
theorem Stage.greatest (h : Stage key deps items remaining satisfied rounds)
    (hclosed : Closed key deps items) (hitem : item ∈ remaining)
    (hready : isReady deps satisfied item = true) :
    IsGreatest {n | Chain (Needs key deps items) n (key item)} rounds := by
  refine ⟨h.long item hitem, ?_⟩
  rintro n hchain
  cases hchain with
  | here => exact Nat.zero_le _
  | @step n _ b hneeds hrest =>
    obtain ⟨other, hother, hkey, hdep⟩ := hneeds
    obtain rfl := hclosed.inj hother (h.subset item hitem) hkey
    exact h.short b (isReady_iff.mp hready b hdep) n hrest

/-- A round leads to the next stage. -/
theorem Stage.next (h : Stage key deps items remaining satisfied rounds)
    (hclosed : Closed key deps items) :
    Stage key deps items (remaining.filter fun item => !isReady deps satisfied item)
      (satisfied ++ (remaining.filter (isReady deps satisfied)).map key) (rounds + 1) where
  subset := fun item hitem => h.subset item (List.mem_of_mem_filter hitem)
  covered := by
    intro item hitem
    cases h.covered item hitem with
    | inl hsatisfied => exact .inl (List.mem_append_left _ hsatisfied)
    | inr hremains =>
      cases hready : isReady deps satisfied item with
      | true =>
        have hkey := List.mem_map_of_mem (f := key) (List.mem_filter.mpr ⟨hremains, hready⟩)
        exact .inl (List.mem_append_right _ hkey)
      | false => exact .inr (List.mem_filter.mpr ⟨hremains, by simp [hready]⟩)
  short := by
    intro a ha n hchain
    rcases List.mem_append.mp ha with hold | hnew
    · exact Nat.lt_succ_of_lt (h.short a hold n hchain)
    · obtain ⟨item, hitem, rfl⟩ := List.mem_map.mp hnew
      obtain ⟨hremains, hready⟩ := List.mem_filter.mp hitem
      exact Nat.lt_succ_of_le ((h.greatest hclosed hremains hready).2 hchain)
  long := by
    intro item hitem
    obtain ⟨hremains, hblocked⟩ := List.mem_filter.mp hitem
    -- something the item needs is not satisfied, so it remains as well
    have hdep : ∃ dep ∈ deps item, dep ∉ satisfied := by simpa [isReady] using hblocked
    obtain ⟨dep, hdep, hmissing⟩ := hdep
    obtain ⟨other, hother, rfl⟩ := List.mem_map.mp (hclosed.closed item (h.subset item hremains) dep hdep)
    have hwaits : other ∈ remaining := (h.covered other hother).resolve_left hmissing
    exact .step ⟨item, h.subset item hremains, rfl, hdep⟩ (h.long other hwaits)

/-- **Layers are longest chains.** -/
theorem Peels.layer_greatest (h : Peels key deps remaining satisfied layers)
    (hclosed : Closed key deps items) (hstage : Stage key deps items remaining satisfied rounds)
    {i : Nat} {layer : List ι} (hlayer : layers[i]? = some layer) (hitem : item ∈ layer) :
    IsGreatest {n | Chain (Needs key deps items) n (key item)} (rounds + i) := by
  induction h generalizing rounds i with
  | done satisfied => simp at hlayer
  | @round remaining satisfied layers _ _ ih =>
    cases i with
    | zero =>
      obtain rfl : remaining.filter (isReady deps satisfied) = layer := by simpa using hlayer
      obtain ⟨hremains, hready⟩ := List.mem_filter.mp hitem
      exact hstage.greatest hclosed hremains hready
    | succ i =>
      have hlater := ih (hstage.next hclosed) (by simpa using hlayer)
      rwa [show rounds + (i + 1) = rounds + 1 + i by omega]

/-- The layers share out what was to be peeled. -/
theorem Peels.perm (h : Peels key deps remaining satisfied layers) : layers.flatten.Perm remaining := by
  induction h with
  | done satisfied => exact .refl _
  | @round remaining satisfied layers _ _ ih =>
    rw [List.flatten_cons]
    exact (ih.append_left _).trans (List.filter_append_perm _ _)

theorem Peels.nonempty (h : Peels key deps remaining satisfied layers) : ∀ layer ∈ layers, layer ≠ [] := by
  induction h with
  | done satisfied => simp
  | round hready _ ih =>
    intro layer hlayer
    rcases List.mem_cons.mp hlayer with rfl | hlater
    · exact hready
    · exact ih layer hlater

/-- There are no more layers than items. -/
theorem Peels.length_le (h : Peels key deps remaining satisfied layers) :
    layers.length ≤ remaining.length := by
  have hpos : ∀ count ∈ layers.map List.length, 1 ≤ count := by
    intro count hcount
    obtain ⟨layer, hlayer, rfl⟩ := List.mem_map.mp hcount
    exact List.length_pos_of_ne_nil (h.nonempty layer hlayer)
  rw [← h.perm.length_eq, List.length_flatten]
  simpa using List.length_le_sum_of_one_le _ hpos

/-- A graph that can be peeled has no cycle. -/
theorem Peels.acyclic (h : Peels key deps items [] layers) (hclosed : Closed key deps items) :
    Acyclic (Needs key deps items) := by
  intro a hcycle
  obtain ⟨b, ⟨item, hitem, rfl, -⟩, -⟩ := TransGen.head'_iff.mp hcycle
  obtain ⟨layer, hlayer, hmem⟩ := List.mem_flatten.mp (h.perm.mem_iff.mpr hitem)
  obtain ⟨i, hi⟩ := List.mem_iff_getElem?.mp hlayer
  have hgreatest := h.layer_greatest hclosed (.start items) hi hmem
  exact absurd (hgreatest.2 (Chain.of_cycle hcycle (0 + i + 1))) (by omega)

/-- What an item needs is in an earlier layer. -/
theorem Peels.dependency_earlier (h : Peels key deps items [] layers)
    (hclosed : Closed key deps items) {i : Nat} {layer : List ι} (hlayer : layers[i]? = some layer)
    (hitem : item ∈ layer) {dep : κ} (hdep : dep ∈ deps item) :
    ∃ j < i, ∃ earlier other, layers[j]? = some earlier ∧ other ∈ earlier ∧ key other = dep := by
  have hmem : item ∈ items :=
    h.perm.mem_iff.mp (List.mem_flatten.mpr ⟨layer, List.mem_of_getElem? hlayer, hitem⟩)
  obtain ⟨other, hother, rfl⟩ := List.mem_map.mp (hclosed.closed item hmem dep hdep)
  obtain ⟨earlier, hearlier, hin⟩ := List.mem_flatten.mp (h.perm.mem_iff.mpr hother)
  obtain ⟨j, hj⟩ := List.mem_iff_getElem?.mp hearlier
  have hlong := (h.layer_greatest hclosed (.start items) hj hin).1
  have hbound := (h.layer_greatest hclosed (.start items) hlayer hitem).2
    (Chain.step ⟨item, hmem, rfl, hdep⟩ hlong)
  exact ⟨j, by omega, earlier, other, hj, hin, rfl⟩

/-- A round on an acyclic graph takes something out. -/
theorem Stage.exists_ready (h : Stage key deps items remaining satisfied rounds)
    (hclosed : Closed key deps items) (hacyclic : Acyclic (Needs key deps items))
    (hne : remaining ≠ []) : remaining.filter (isReady deps satisfied) ≠ [] := by
  obtain ⟨a, ha, hlast⟩ := hacyclic.exists_last (remaining.map key) (by simpa using hne)
  obtain ⟨item, hitem, rfl⟩ := List.mem_map.mp ha
  apply List.ne_nil_of_mem (a := item)
  refine List.mem_filter.mpr ⟨hitem, isReady_iff.mpr fun dep hdep => ?_⟩
  obtain ⟨other, hother, rfl⟩ := List.mem_map.mp (hclosed.closed item (h.subset item hitem) dep hdep)
  rcases h.covered other hother with hsatisfied | hwaits
  · exact hsatisfied
  · exact absurd ⟨item, h.subset item hitem, rfl, hdep⟩ (hlast _ (List.mem_map_of_mem hwaits))

theorem Stage.peels (h : Stage key deps items remaining satisfied rounds)
    (hclosed : Closed key deps items) (hacyclic : Acyclic (Needs key deps items)) :
    ∃ layers, Peels key deps remaining satisfied layers := by
  induction hlength : remaining.length using Nat.strong_induction_on
    generalizing remaining satisfied rounds with
  | _ length ih =>
    by_cases hne : remaining = []
    · exact ⟨[], hne ▸ .done satisfied⟩
    · have hready := h.exists_ready hclosed hacyclic hne
      have hless : (remaining.filter fun item => !isReady deps satisfied item).length < length := by
        have hsplit := (List.filter_append_perm (isReady deps satisfied) remaining).length_eq
        have hpos := List.length_pos_of_ne_nil hready
        rw [List.length_append] at hsplit
        omega
      obtain ⟨layers, hpeels⟩ := ih _ hless (h.next hclosed) rfl
      exact ⟨_, .round hready hpeels⟩

/-- **Exactly the acyclic graphs can be peeled.** -/
theorem peels_iff_acyclic (hclosed : Closed key deps items) :
    (∃ layers, Peels key deps items [] layers) ↔ Acyclic (Needs key deps items) :=
  ⟨fun ⟨_, h⟩ => h.acyclic hclosed, (Stage.start items).peels hclosed⟩

/-! ### One graph under two types -/

/-- What peeling looks at. -/
def node (key : ι → κ) (deps : ι → List κ) (item : ι) : κ × List κ := (key item, deps item)

section Transport

variable {ι' : Type} {key' : ι' → κ} {deps' : ι' → List κ} {items' remaining' : List ι'}

omit [DecidableEq κ] in
theorem keys_of_nodes (h : items.map (node key deps) = items'.map (node key' deps')) :
    items.map key = items'.map key' := by
  simpa [node, Function.comp_def] using congrArg (List.map Prod.fst) h

omit [DecidableEq κ] in
theorem Closed.transport (h : Closed key deps items)
    (hsame : items.map (node key deps) = items'.map (node key' deps')) :
    Closed key' deps' items' where
  nodup := keys_of_nodes hsame ▸ h.nodup
  closed := by
    intro item' hitem' dep hdep
    have hnode := List.mem_map_of_mem (f := node key' deps') hitem'
    rw [← hsame] at hnode
    obtain ⟨item, hitem, heq⟩ := List.mem_map.mp hnode
    rw [← keys_of_nodes hsame]
    apply h.closed item hitem
    rw [show deps item = deps' item' from congrArg Prod.snd heq]
    exact hdep

omit [DecidableEq κ] in
theorem filter_nodes (ready : List κ → Bool) (remaining : List ι) :
    (remaining.filter fun item => ready (deps item)).map (node key deps) =
      (remaining.map (node key deps)).filter fun pair => ready pair.2 := by
  rw [List.filter_map]
  rfl

/-- Peeling the same graph yields the same layers of keys. -/
theorem Peels.transport (h : Peels key deps remaining satisfied layers)
    (hsame : remaining.map (node key deps) = remaining'.map (node key' deps')) :
    ∃ layers', Peels key' deps' remaining' satisfied layers' ∧
      layers'.map (List.map key') = layers.map (List.map key) := by
  induction h generalizing remaining' with
  | done satisfied =>
    obtain rfl : remaining' = [] := List.map_eq_nil_iff.mp hsame.symm
    exact ⟨[], .done satisfied, rfl⟩
  | @round remaining satisfied layers hready _ ih =>
    have hnodes : ∀ ready : List κ → Bool,
        (remaining.filter fun item => ready (deps item)).map (node key deps) =
          (remaining'.filter fun item => ready (deps' item)).map (node key' deps') := by
      intro ready
      rw [filter_nodes, filter_nodes, hsame]
    have hlayer := hnodes fun deps => deps.all fun dep => decide (dep ∈ satisfied)
    obtain ⟨layers', hpeels, hkeys⟩ := ih
      (hnodes fun deps => !deps.all fun dep => decide (dep ∈ satisfied))
    have hfirst : (remaining.filter (isReady deps satisfied)).map key =
        (remaining'.filter (isReady deps' satisfied)).map key' := keys_of_nodes hlayer
    rw [hfirst] at hpeels
    refine ⟨_, .round ?_ hpeels, ?_⟩
    · intro hempty
      rw [hempty] at hfirst
      exact hready (List.map_eq_nil_iff.mp hfirst)
    · rw [List.map_cons, List.map_cons, hfirst, hkeys]

end Transport

/-- Peeling is deterministic. -/
theorem Peels.unique {layers' : List (List ι)} (h : Peels key deps remaining satisfied layers)
    (h' : Peels key deps remaining satisfied layers') : layers = layers' := by
  induction h generalizing layers' with
  | done satisfied =>
    cases h' with
    | done => rfl
    | round hready => simp at hready
  | round hready _ ih =>
    cases h' with
    | done => simp at hready
    | round _ hlater => rw [ih hlater]

end Layering
