import AgenticPlatform.WorktreeManager

/-!
# Two workspaces never share a path

A path is reserved by the workspace that lives there, or by the one call that makes or
undoes a workspace there. That holds whatever ids `uuid4` gives out. That the directory of a
living workspace stays where it is needs more: a release gives its path up before it removes
what is there, so that a second workspace with the same path could move in too early. The
path has only the first twelve digits of the id, so this rests on those digits.
-/

namespace AgenticPlatform

open Dict Ownership

namespace WorkspaceTask

/-- The path that a call keeps reserved. -/
def reserves : WorkspaceTask → Option String
  | .preparing checkout => some checkout.path
  | .addingWorktree checkout => some checkout.path
  | .clearing checkout => some checkout.path
  | .cloning checkout => some checkout.path
  | .checkingOut checkout => some checkout.path
  | .registering checkout _ => some checkout.path
  | .forgetting checkout => some checkout.path
  | .stranded checkout => some checkout.path
  | _ => none

/-- The workspace that a call makes. -/
def makes : WorkspaceTask → Option Checkout
  | .allocating checkout => some checkout
  | .preparing checkout => some checkout
  | .addingWorktree checkout => some checkout
  | .clearing checkout => some checkout
  | .cloning checkout => some checkout
  | .checkingOut checkout => some checkout
  | .registering checkout _ => some checkout
  | _ => none

/-- The workspace that a call undoes. -/
def undoes : WorkspaceTask → Option Checkout
  | .forgetting checkout => some checkout
  | .sweeping checkout => some checkout
  | .removingWorktree record => some record.checkout
  | .removingTree record => some record.checkout
  | .pruning record => some record.checkout
  | _ => none

/-- The workspace that a call has put into place. -/
def stands : WorkspaceTask → Option Checkout
  | .checkingOut checkout => some checkout
  | .registering checkout _ => some checkout
  | _ => none

end WorkspaceTask

theorem CheckoutRecord.removing_undoes (record : CheckoutRecord) :
    record.removing.reserves = none ∧ record.removing.makes = none ∧
      record.removing.undoes = some record.checkout := by
  obtain ⟨checkout, kind⟩ := record
  cases kind <;> exact ⟨rfl, rfl, rfl⟩

theorem CheckoutRecord.removing_stands (record : CheckoutRecord) : record.removing.stands = none := by
  obtain ⟨checkout, kind⟩ := record
  cases kind <;> rfl

/-- A workspace that `create` has returned, or a call under way. -/
inductive WorkspaceOwner where
  | live (id : WorkspaceId)
  | call (task : Nat)
deriving DecidableEq

namespace WorktreeManager

/-- What the owner has of the checkouts, by its record or by its task. -/
def has {P : Type} (ofRecord : CheckoutRecord → Option P) (ofTask : WorkspaceTask → Option P)
    (self : WorktreeManager) : WorkspaceOwner → Option P
  | .live id => (self.records.lookup id).bind ofRecord
  | .call task => (self.tasks task).bind ofTask

def holds : WorktreeManager → WorkspaceOwner → Option String :=
  has (fun record => some record.checkout.path) WorkspaceTask.reserves

def makes : WorktreeManager → WorkspaceOwner → Option Checkout :=
  has (fun record => some record.checkout) WorkspaceTask.makes

def stands : WorktreeManager → WorkspaceOwner → Option Checkout :=
  has (fun record => some record.checkout) WorkspaceTask.stands

/-- What every piece of every call keeps. -/
structure Sound (manager : WorktreeManager) : Prop where
  exclusive : Exclusive manager.holds
  reserved : ∀ path, path ∈ manager.paths ↔ Held manager.holds path
  single : Exclusive manager.makes
  named : ∀ id record, manager.records.lookup id = some record → record.checkout.id = id
  unused : ∀ task, manager.started ≤ task → manager.tasks task = none
  distinct : ∀ checkout ∈ manager.created, ∀ other ∈ manager.created, checkout.id = other.id → checkout = other
  made : ∀ owner checkout, manager.makes owner = some checkout →
    checkout ∈ manager.created ∧ checkout ∉ manager.doomed
  undone : ∀ task standing checkout, manager.tasks task = some standing →
    standing.undoes = some checkout → checkout ∈ manager.doomed
  doomed : ∀ checkout ∈ manager.doomed, checkout ∈ manager.created

variable {self self' : WorktreeManager} {task : Nat} {standing : WorkspaceTask}
  {next : Option WorkspaceTask}

section Has

variable {P : Type} {ofRecord : CheckoutRecord → Option P} {ofTask : WorkspaceTask → Option P}

theorem has_live (self : WorktreeManager) (id : WorkspaceId) :
    has ofRecord ofTask self (.live id) = (self.records.lookup id).bind ofRecord := rfl

theorem has_task (self : WorktreeManager) (task : Nat) :
    has ofRecord ofTask self (.call task) = (self.tasks task).bind ofTask := rfl

/-- A call takes another stand. -/
theorem has_call (hrecords : self'.records = self.records)
    (htasks : self'.tasks = Function.update self.tasks task next) :
    has ofRecord ofTask self' =
      Function.update (has ofRecord ofTask self) (.call task) (next.bind ofTask) := by
  funext owner
  cases owner with
  | live id => rw [Function.update_of_ne (by exact nofun), has_live, has_live, hrecords]
  | call other =>
    rw [has_task, htasks]
    by_cases heq : other = task
    · subst heq
      rw [Function.update_self, Function.update_self]
    · rw [Function.update_of_ne heq, Function.update_of_ne (by simpa using heq), has_task]

/-- A record goes. -/
theorem has_erase {id : WorkspaceId} (hrecords : self'.records = self.records.erase id)
    (htasks : self'.tasks = Function.update self.tasks task next) :
    has ofRecord ofTask self' =
      Function.update (Function.update (has ofRecord ofTask self) (.live id) none) (.call task)
        (next.bind ofTask) := by
  funext owner
  cases owner with
  | live other =>
    rw [Function.update_of_ne (by exact nofun), has_live, hrecords, lookup_erase_ite]
    by_cases heq : other = id
    · subst heq
      rw [Function.update_self, if_pos rfl]
      rfl
    · rw [Function.update_of_ne (by simpa using heq), if_neg heq, has_live]
  | call other =>
    rw [has_task, htasks]
    by_cases heq : other = task
    · subst heq
      rw [Function.update_self, Function.update_self]
    · rw [Function.update_of_ne heq, Function.update_of_ne (by simpa using heq),
        Function.update_of_ne (by exact nofun), has_task]

/-- A record comes. -/
theorem has_insert {id : WorkspaceId} {record : CheckoutRecord}
    (hrecords : self'.records = self.records.insert id record)
    (htasks : self'.tasks = Function.update self.tasks task none) :
    has ofRecord ofTask self' =
      Function.update (Function.update (has ofRecord ofTask self) (.call task) none) (.live id)
        (ofRecord record) := by
  funext owner
  cases owner with
  | live other =>
    rw [has_live, hrecords, lookup_insert_ite]
    by_cases heq : other = id
    · subst heq
      rw [Function.update_self, if_pos rfl]
      rfl
    · rw [Function.update_of_ne (by simpa using heq), if_neg heq,
        Function.update_of_ne (by exact nofun), has_live]
  | call other =>
    rw [Function.update_of_ne (by exact nofun), has_task, htasks]
    by_cases heq : other = task
    · subst heq
      rw [Function.update_self, Function.update_self]
      rfl
    · rw [Function.update_of_ne heq, Function.update_of_ne (by simpa using heq), has_task]

theorem has_of_task (hstanding : self.tasks task = some standing) :
    has ofRecord ofTask self (.call task) = ofTask standing := by
  rw [has_task, hstanding]
  rfl

theorem has_of_record {id : WorkspaceId} {record : CheckoutRecord}
    (hrecord : self.records.lookup id = some record) :
    has ofRecord ofTask self (.live id) = ofRecord record := by
  rw [has_live, hrecord]
  rfl

end Has

/-! ### One piece of a call -/

theorem Sound.unused_update (h : self.Sound) (hstanding : self.tasks task = some standing)
    (next : Option WorkspaceTask) (other : Nat) (hother : self.started ≤ other) :
    Function.update self.tasks task next other = none := by
  have hne : other ≠ task := by
    rintro rfl
    rw [h.unused other hother] at hstanding
    cases hstanding
  rw [Function.update_of_ne hne]
  exact h.unused other hother

theorem Sound.undone_update (h : self.Sound) {doomed : List Checkout}
    (hdoomed : ∀ checkout ∈ self.doomed, checkout ∈ doomed)
    (hundoes : ∀ checkout, next.bind WorkspaceTask.undoes = some checkout → checkout ∈ doomed)
    (other : Nat) (standing : WorkspaceTask) (checkout : Checkout)
    (hother : Function.update self.tasks task next other = some standing)
    (hundone : standing.undoes = some checkout) : checkout ∈ doomed := by
  by_cases heq : other = task
  · subst heq
    rw [Function.update_self] at hother
    refine hundoes checkout ?_
    rw [hother]
    exact hundone
  · rw [Function.update_of_ne heq] at hother
    exact hdoomed checkout (h.undone other standing checkout hother hundone)

/-- A living workspace has a record under its own id only. -/
theorem Sound.lookup_none (h : self.Sound) {checkout : Checkout} (hcreated : checkout ∈ self.created)
    (hother : self.makes (.live checkout.id) ≠ some checkout) :
    self.records.lookup checkout.id = none := by
  cases hrecord : self.records.lookup checkout.id with
  | none => rfl
  | some record =>
    have hlive : self.makes (.live checkout.id) = some record.checkout := has_of_record hrecord
    obtain ⟨hmade, -⟩ := h.made _ _ hlive
    have hsame := h.distinct _ hmade _ hcreated (h.named _ _ hrecord)
    rw [hsame] at hlive
    exact absurd hlive hother

/-- A piece that neither reserves nor frees a path, and makes no record. -/
theorem Sound.keeps (h : self.Sound) (hstanding : self.tasks task = some standing)
    (hrecords : self'.records = self.records) (hpaths : self'.paths = self.paths)
    (hcreated : self'.created = self.created) (hstarted : self'.started = self.started)
    (htasks : self'.tasks = Function.update self.tasks task next)
    (hreserves : next.bind WorkspaceTask.reserves = standing.reserves)
    (hmakes : next.bind WorkspaceTask.makes = standing.makes ∧ self'.doomed = self.doomed ∨
      next.bind WorkspaceTask.makes = none ∧ (self'.doomed = self.doomed ∨
        ∃ checkout, standing.makes = some checkout ∧ self'.doomed = checkout :: self.doomed))
    (hundoes : ∀ checkout, next.bind WorkspaceTask.undoes = some checkout → checkout ∈ self'.doomed) :
    self'.Sound := by
  have hholds : self'.holds = self.holds := by
    have hcall : self.holds (.call task) = standing.reserves := has_of_task hstanding
    rw [holds, has_call hrecords htasks, hreserves, ← hcall]
    exact Function.update_eq_self ..
  have hmade : self'.makes =
      Function.update self.makes (.call task) (next.bind WorkspaceTask.makes) := has_call hrecords htasks
  have hcall : self.makes (.call task) = standing.makes := has_of_task hstanding
  have hdoomed : ∀ checkout ∈ self.doomed, checkout ∈ self'.doomed := by
    intro checkout hmem
    rcases hmakes with ⟨-, hsame⟩ | ⟨-, hsame | ⟨given, -, hmore⟩⟩
    · rw [hsame]
      exact hmem
    · rw [hsame]
      exact hmem
    · rw [hmore]
      exact List.mem_cons_of_mem _ hmem
  constructor
  · rw [hholds]
    exact h.exclusive
  · rw [hpaths, hholds]
    exact h.reserved
  · rw [hmade]
    rcases hmakes with ⟨hsame, -⟩ | ⟨hnone, -⟩
    · rw [hsame, ← hcall, Function.update_eq_self]
      exact h.single
    · rw [hnone]
      exact h.single.drop _
  · rw [hrecords]
    exact h.named
  · rw [hstarted, htasks]
    exact h.unused_update hstanding next
  · rw [hcreated]
    exact h.distinct
  · intro owner checkout howner
    rw [hmade] at howner
    rw [hcreated]
    rcases hmakes with ⟨hsame, hsameDoomed⟩ | ⟨hnone, hmore⟩
    · rw [hsame, ← hcall, Function.update_eq_self] at howner
      rw [hsameDoomed]
      exact h.made owner checkout howner
    · have hne : owner ≠ .call task := by
        rintro rfl
        rw [Function.update_self, hnone] at howner
        cases howner
      rw [Function.update_of_ne hne] at howner
      obtain ⟨hmem, hnot⟩ := h.made owner checkout howner
      refine ⟨hmem, ?_⟩
      rcases hmore with hsame | ⟨given, hgiven, hcons⟩
      · rw [hsame]
        exact hnot
      · rw [hcons]
        intro hin
        rcases List.mem_cons.mp hin with rfl | hin
        · exact hne (h.single owner (.call task) checkout howner (hcall.trans hgiven))
        · exact hnot hin
  · rw [htasks]
    exact h.undone_update hdoomed hundoes
  · intro checkout hmem
    rw [hcreated]
    rcases hmakes with ⟨-, hsame⟩ | ⟨-, hsame | ⟨given, hgiven, hcons⟩⟩
    · exact h.doomed checkout (hsame ▸ hmem)
    · exact h.doomed checkout (hsame ▸ hmem)
    · rw [hcons] at hmem
      rcases List.mem_cons.mp hmem with rfl | hold
      · exact (h.made (.call task) checkout (hcall.trans hgiven)).1
      · exact h.doomed checkout hold

/-- `_allocate_path` takes a path that nobody has reserved. -/
theorem Sound.allocates (h : self.Sound) {checkout : Checkout}
    (hstanding : self.tasks task = some (.allocating checkout)) (hfree : checkout.path ∉ self.paths)
    (hrecords : self'.records = self.records) (hpaths : self'.paths = insert checkout.path self.paths)
    (hcreated : self'.created = self.created) (hdoomed : self'.doomed = self.doomed)
    (hstarted : self'.started = self.started)
    (htasks : self'.tasks = Function.update self.tasks task (some (.preparing checkout))) :
    self'.Sound := by
  have hnobody : ¬ Held self.holds checkout.path := by
    rw [← h.reserved]
    exact hfree
  have hnone : self.holds (.call task) = none := has_of_task hstanding
  have hcall : self.makes (.call task) = some checkout := has_of_task hstanding
  have hholds : self'.holds = Function.update self.holds (.call task) (some checkout.path) :=
    has_call hrecords htasks
  have hmakes : self'.makes = self.makes := by
    refine (has_call hrecords htasks).trans ?_
    exact Function.update_eq_self_iff.mpr hcall.symm
  constructor
  · rw [hholds]
    exact h.exclusive.acquire _ fun owner _ howner => hnobody ⟨owner, howner⟩
  · intro path
    rw [hholds, hpaths, Finset.mem_insert, h.reserved]
    exact (held_acquire hnone path).symm
  · rw [hmakes]
    exact h.single
  · rw [hrecords]
    exact h.named
  · rw [hstarted, htasks]
    exact h.unused_update hstanding _
  · rw [hcreated]
    exact h.distinct
  · rw [hmakes, hcreated, hdoomed]
    exact h.made
  · rw [htasks, hdoomed]
    exact h.undone_update (fun _ hmem => hmem) (by exact nofun)
  · rw [hdoomed, hcreated]
    exact h.doomed

/-- The end of `create`: the record takes the path over from the call. -/
theorem Sound.registers (h : self.Sound) {checkout : Checkout} {kind : WorkspaceKind}
    (hstanding : self.tasks task = some (.registering checkout kind))
    (hrecords : self'.records = self.records.insert checkout.id ⟨checkout, kind⟩)
    (hpaths : self'.paths = self.paths) (hcreated : self'.created = self.created)
    (hdoomed : self'.doomed = self.doomed) (hstarted : self'.started = self.started)
    (htasks : self'.tasks = Function.update self.tasks task none) : self'.Sound := by
  have hcall : self.makes (.call task) = some checkout := has_of_task hstanding
  have hreserved : self.holds (.call task) = some checkout.path := has_of_task hstanding
  have hlookup : self.records.lookup checkout.id = none := by
    refine h.lookup_none (h.made _ _ hcall).1 fun hlive => ?_
    cases h.single _ _ _ hlive hcall
  have hnone : self.holds (.live checkout.id) = none := by
    rw [holds, has_live, hlookup]
    rfl
  have hholds : self'.holds = Function.update (Function.update self.holds (.call task) none)
      (.live checkout.id) (some checkout.path) := has_insert hrecords htasks
  have hmakes : self'.makes = Function.update (Function.update self.makes (.call task) none)
      (.live checkout.id) (some checkout) := has_insert hrecords htasks
  constructor
  · rw [hholds]
    exact h.exclusive.transfer hreserved _
  · intro path
    rw [hholds, hpaths, h.reserved]
    exact (held_transfer h.exclusive hreserved hnone path).symm
  · rw [hmakes]
    exact h.single.transfer hcall _
  · intro id record hrecord
    rw [hrecords, lookup_insert_ite] at hrecord
    split at hrecord
    · rename_i heq
      cases hrecord
      exact heq.symm
    · exact h.named id record hrecord
  · rw [hstarted, htasks]
    exact h.unused_update hstanding none
  · rw [hcreated]
    exact h.distinct
  · intro owner other howner
    rw [hcreated, hdoomed]
    rw [hmakes] at howner
    by_cases heq : owner = .live checkout.id
    · subst heq
      rw [Function.update_self, Option.some.injEq] at howner
      subst howner
      exact h.made _ _ hcall
    · rw [Function.update_of_ne heq] at howner
      by_cases hcaller : owner = .call task
      · subst hcaller
        rw [Function.update_self] at howner
        cases howner
      · rw [Function.update_of_ne hcaller] at howner
        exact h.made owner other howner
  · rw [htasks, hdoomed]
    exact h.undone_update (fun _ hmem => hmem) (by exact nofun)
  · rw [hdoomed, hcreated]
    exact h.doomed

/-- `_forget`: the call gives up the path of the workspace it could not make. -/
theorem Sound.forgets (h : self.Sound) {checkout : Checkout}
    (hstanding : self.tasks task = some (.forgetting checkout))
    (hrecords : self'.records = self.records.erase checkout.id)
    (hpaths : self'.paths = self.paths.erase checkout.path) (hcreated : self'.created = self.created)
    (hdoomed : self'.doomed = self.doomed) (hstarted : self'.started = self.started)
    (htasks : self'.tasks = Function.update self.tasks task (some (.sweeping checkout))) :
    self'.Sound := by
  have hundone : checkout ∈ self.doomed := h.undone task _ checkout hstanding rfl
  have hreserved : self.holds (.call task) = some checkout.path := has_of_task hstanding
  have hcall : self.makes (.call task) = none := has_of_task hstanding
  have hlookup : self.records.lookup checkout.id = none :=
    h.lookup_none (h.doomed checkout hundone) fun hlive => (h.made _ _ hlive).2 hundone
  have hsame : self'.records = self.records := by
    rw [hrecords]
    refine AList.ext ?_
    refine List.kerase_of_notMem_keys ?_
    exact AList.lookup_eq_none.mp hlookup
  have hholds : self'.holds = Function.update self.holds (.call task) none := has_call hsame htasks
  have hmakes : self'.makes = self.makes := by
    refine (has_call hsame htasks).trans ?_
    exact Function.update_eq_self_iff.mpr hcall.symm
  constructor
  · rw [hholds]
    exact h.exclusive.drop _
  · intro path
    rw [hholds, hpaths, Finset.mem_erase, h.reserved]
    exact (held_drop h.exclusive hreserved path).symm
  · rw [hmakes]
    exact h.single
  · rw [hsame]
    exact h.named
  · rw [hstarted, htasks]
    exact h.unused_update hstanding _
  · rw [hcreated]
    exact h.distinct
  · rw [hmakes, hcreated, hdoomed]
    exact h.made
  · rw [htasks, hdoomed]
    refine h.undone_update (fun _ hmem => hmem) ?_
    rintro other ⟨⟩
    exact hundone
  · rw [hdoomed, hcreated]
    exact h.doomed

/-- `release` under the lock: the workspace goes, and its path is free. -/
theorem Sound.releases (h : self.Sound) {id : WorkspaceId} {record : CheckoutRecord}
    (hstanding : self.tasks task = some (.releasing id)) (hrecord : self.records.lookup id = some record)
    (hrecords : self'.records = self.records.erase record.checkout.id)
    (hpaths : self'.paths = self.paths.erase record.checkout.path)
    (hcreated : self'.created = self.created) (hdoomed : self'.doomed = record.checkout :: self.doomed)
    (hstarted : self'.started = self.started)
    (htasks : self'.tasks = Function.update self.tasks task next)
    (hreserves : next.bind WorkspaceTask.reserves = none) (hnext : next.bind WorkspaceTask.makes = none)
    (hundoes : ∀ other, next.bind WorkspaceTask.undoes = some other → other = record.checkout) :
    self'.Sound := by
  have hid := h.named id record hrecord
  rw [hid] at hrecords
  have hlive : self.makes (.live id) = some record.checkout := has_of_record hrecord
  have hheld : self.holds (.live id) = some record.checkout.path := has_of_record hrecord
  have hrest : ∀ {P : Type} {ofRecord : CheckoutRecord → Option P} {ofTask : WorkspaceTask → Option P},
      ofTask (.releasing id) = none → next.bind ofTask = none →
      has ofRecord ofTask self' = Function.update (has ofRecord ofTask self) (.live id) none := by
    intro P ofRecord ofTask hbefore hafter
    rw [has_erase hrecords htasks, hafter, Function.update_eq_self_iff,
      Function.update_of_ne (by exact nofun), has_of_task hstanding, hbefore]
  have hholds : self'.holds = Function.update self.holds (.live id) none := hrest rfl hreserves
  have hmakes : self'.makes = Function.update self.makes (.live id) none := hrest rfl hnext
  constructor
  · rw [hholds]
    exact h.exclusive.drop _
  · intro path
    rw [hholds, hpaths, Finset.mem_erase, h.reserved]
    exact (held_drop h.exclusive hheld path).symm
  · rw [hmakes]
    exact h.single.drop _
  · intro other found hfound
    rw [hrecords, lookup_erase_ite] at hfound
    split at hfound
    · cases hfound
    · exact h.named other found hfound
  · rw [hstarted, htasks]
    exact h.unused_update hstanding next
  · rw [hcreated]
    exact h.distinct
  · intro owner checkout howner
    rw [hmakes] at howner
    have hne : owner ≠ .live id := by
      rintro rfl
      rw [Function.update_self] at howner
      cases howner
    rw [Function.update_of_ne hne] at howner
    obtain ⟨hmem, hnot⟩ := h.made owner checkout howner
    rw [hcreated, hdoomed]
    refine ⟨hmem, fun hin => ?_⟩
    rcases List.mem_cons.mp hin with rfl | hin
    · exact hne (h.single _ _ _ howner hlive)
    · exact hnot hin
  · rw [htasks, hdoomed]
    refine h.undone_update (fun _ hmem => List.mem_cons_of_mem _ hmem) fun checkout hundone => ?_
    rw [hundoes checkout hundone]
    exact List.mem_cons_self
  · intro checkout hmem
    rw [hdoomed] at hmem
    rw [hcreated]
    rcases List.mem_cons.mp hmem with rfl | hold
    · exact (h.made _ _ hlive).1
    · exact h.doomed checkout hold

/-- A call that fails to make its workspace goes on to undo it. -/
theorem Sound.givesUp (h : self.Sound) (hstanding : self.tasks task = some standing)
    {checkout : Checkout} (hmakes : standing.makes = some checkout)
    (hreserves : standing.reserves = some checkout.path) (left : Bool) :
    ({ (self.giveUp checkout left).1 with
      tasks := Function.update self.tasks task (self.giveUp checkout left).2 } : WorktreeManager).Sound := by
  refine h.keeps hstanding rfl rfl rfl rfl rfl hreserves.symm (.inr ⟨rfl, .inr ⟨checkout, hmakes, rfl⟩⟩) ?_
  rintro other ⟨⟩
  exact List.mem_cons_self

/-- A call goes on with the workspace that it makes. -/
theorem Sound.goesOn (h : self.Sound) (hstanding : self.tasks task = some standing)
    {next : WorkspaceTask} (hrecords : self'.records = self.records) (hpaths : self'.paths = self.paths)
    (hcreated : self'.created = self.created) (hstarted : self'.started = self.started)
    (hdoomed : self'.doomed = self.doomed)
    (htasks : self'.tasks = Function.update self.tasks task (some next))
    (hreserves : next.reserves = standing.reserves) (hmakes : next.makes = standing.makes)
    (hundoes : next.undoes = none) : self'.Sound := by
  refine h.keeps hstanding hrecords hpaths hcreated hstarted htasks hreserves (.inl ⟨hmakes, hdoomed⟩) ?_
  intro checkout hundone
  rw [Option.bind_some, hundoes] at hundone
  cases hundone

/-- A call that holds nothing any more goes on with the workspace that it undoes, or ends. -/
theorem Sound.winds (h : self.Sound) (hstanding : self.tasks task = some standing)
    (hidle : standing.reserves = none) (hrecords : self'.records = self.records)
    (hpaths : self'.paths = self.paths) (hcreated : self'.created = self.created)
    (hstarted : self'.started = self.started) (hdoomed : self'.doomed = self.doomed)
    (htasks : self'.tasks = Function.update self.tasks task next)
    (hreserves : next.bind WorkspaceTask.reserves = none) (hmakes : next.bind WorkspaceTask.makes = none)
    (hundoes : next.bind WorkspaceTask.undoes = none ∨ next.bind WorkspaceTask.undoes = standing.undoes) :
    self'.Sound := by
  refine h.keeps hstanding hrecords hpaths hcreated hstarted htasks (hreserves.trans hidle.symm)
    (.inr ⟨hmakes, .inl hdoomed⟩) ?_
  intro checkout hundone
  rw [hdoomed]
  rcases hundoes with hnone | hsame
  · rw [hnone] at hundone
    cases hundone
  · rw [hsame] at hundone
    exact h.undone task standing checkout hstanding hundone

/-- A call that is over, but for what it reserved. -/
theorem Sound.strands (h : self.Sound) (hstanding : self.tasks task = some standing) {checkout : Checkout}
    (hreserves : standing.reserves = some checkout.path) :
    ({ self with
      tasks := Function.update self.tasks task (some (.stranded checkout)) } : WorktreeManager).Sound :=
  h.keeps hstanding rfl rfl rfl rfl rfl hreserves.symm (.inr ⟨rfl, .inl rfl⟩) (by exact nofun)

/-- Every piece of every call. -/
theorem Sound.resume (h : self.Sound) (hstanding : self.tasks task = some standing)
    (outcome : PieceOutcome) :
    ({ (self.resume outcome standing).1 with
      tasks := Function.update self.tasks task (self.resume outcome standing).2 } :
        WorktreeManager).Sound := by
  cases standing with
  | allocating checkout =>
    cases outcome with
    | done =>
      by_cases hused : checkout.path ∈ self.paths ∨ checkout.path ∈ self.disk
      · simp only [WorktreeManager.resume, if_pos hused]
        exact h.winds hstanding rfl rfl rfl rfl rfl rfl rfl rfl rfl (.inl rfl)
      · simp only [WorktreeManager.resume, if_neg hused]
        exact h.allocates hstanding (fun hmem => hused (.inl hmem)) rfl rfl rfl rfl rfl rfl
    | failed left => exact h.winds hstanding rfl rfl rfl rfl rfl rfl rfl rfl rfl (.inl rfl)
    | interrupted left => exact h.winds hstanding rfl rfl rfl rfl rfl rfl rfl rfl rfl (.inl rfl)
  | preparing checkout =>
    cases outcome with
    | done => exact h.goesOn hstanding rfl rfl rfl rfl rfl rfl rfl rfl rfl
    | failed left => exact h.strands hstanding rfl
    | interrupted left => exact h.strands hstanding rfl
  | addingWorktree checkout =>
    cases outcome with
    | done => exact h.goesOn hstanding rfl rfl rfl rfl rfl rfl rfl rfl rfl
    | failed left => exact h.goesOn hstanding rfl rfl rfl rfl rfl rfl rfl rfl rfl
    | interrupted left => exact h.givesUp hstanding rfl rfl left
  | clearing checkout =>
    cases outcome with
    | done => exact h.goesOn hstanding rfl rfl rfl rfl rfl rfl rfl rfl rfl
    | failed left => exact h.goesOn hstanding rfl rfl rfl rfl rfl rfl rfl rfl rfl
    | interrupted left => exact h.givesUp hstanding rfl rfl left
  | cloning checkout =>
    cases outcome with
    | done => exact h.goesOn hstanding rfl rfl rfl rfl rfl rfl rfl rfl rfl
    | failed left => exact h.givesUp hstanding rfl rfl left
    | interrupted left => exact h.givesUp hstanding rfl rfl left
  | checkingOut checkout =>
    cases outcome with
    | done => exact h.goesOn hstanding rfl rfl rfl rfl rfl rfl rfl rfl rfl
    | failed left => exact h.givesUp hstanding rfl rfl left
    | interrupted left => exact h.givesUp hstanding rfl rfl left
  | registering checkout kind =>
    cases outcome with
    | done => exact h.registers hstanding rfl rfl rfl rfl rfl rfl
    | failed left => exact h.strands hstanding rfl
    | interrupted left => exact h.strands hstanding rfl
  | forgetting checkout =>
    cases outcome with
    | done => exact h.forgets hstanding rfl rfl rfl rfl rfl rfl
    | failed left => exact h.strands hstanding rfl
    | interrupted left => exact h.strands hstanding rfl
  | sweeping checkout => exact h.winds hstanding rfl rfl rfl rfl rfl rfl rfl rfl rfl (.inl rfl)
  | releasing id =>
    cases outcome with
    | done =>
      cases hrecord : self.records.lookup id with
      | none =>
        simp only [WorktreeManager.resume, hrecord]
        exact h.winds hstanding rfl rfl rfl rfl rfl rfl rfl rfl rfl (.inl rfl)
      | some record =>
        simp only [WorktreeManager.resume, hrecord]
        obtain ⟨hreserves, hmakes, hundoes⟩ := record.removing_undoes
        refine h.releases hstanding hrecord rfl rfl rfl rfl rfl rfl hreserves hmakes fun other hundone => ?_
        rw [Option.bind_some, hundoes, Option.some.injEq] at hundone
        exact hundone.symm
    | failed left => exact h.winds hstanding rfl rfl rfl rfl rfl rfl rfl rfl rfl (.inl rfl)
    | interrupted left => exact h.winds hstanding rfl rfl rfl rfl rfl rfl rfl rfl rfl (.inl rfl)
  | removingWorktree record =>
    cases outcome with
    | done => exact h.winds hstanding rfl rfl rfl rfl rfl rfl rfl rfl rfl (.inr rfl)
    | failed left => exact h.winds hstanding rfl rfl rfl rfl rfl rfl rfl rfl rfl (.inr rfl)
    | interrupted left => exact h.winds hstanding rfl rfl rfl rfl rfl rfl rfl rfl rfl (.inl rfl)
  | removingTree record =>
    obtain ⟨checkout, kind⟩ := record
    cases outcome with
    | done =>
      cases kind with
      | gitWorktree => exact h.winds hstanding rfl rfl rfl rfl rfl rfl rfl rfl rfl (.inr rfl)
      | _ => exact h.winds hstanding rfl rfl rfl rfl rfl rfl rfl rfl rfl (.inl rfl)
    | failed left =>
      cases kind with
      | gitWorktree => exact h.winds hstanding rfl rfl rfl rfl rfl rfl rfl rfl rfl (.inr rfl)
      | _ => exact h.winds hstanding rfl rfl rfl rfl rfl rfl rfl rfl rfl (.inl rfl)
    | interrupted left =>
      exact h.winds hstanding rfl rfl rfl rfl rfl rfl rfl rfl rfl (.inl rfl)
  | pruning record => exact h.winds hstanding rfl rfl rfl rfl rfl rfl rfl rfl rfl (.inl rfl)
  | stranded checkout => exact h.goesOn hstanding rfl rfl rfl rfl rfl rfl rfl rfl rfl

/-! ### Whole runs -/

theorem Sound.tasks_started (h : self.Sound) : self.tasks self.started = none :=
  h.unused self.started (Nat.le_refl _)

theorem unused_spawn (h : self.Sound) (next : WorkspaceTask) (other : Nat)
    (hother : self.started + 1 ≤ other) :
    Function.update self.tasks self.started (some next) other = none := by
  rw [Function.update_of_ne (by omega)]
  exact h.unused other (by omega)

theorem undone_spawn (h : self.Sound) {next : WorkspaceTask} (hundoes : next.undoes = none) (other : Nat)
    (standing : WorkspaceTask) (checkout : Checkout)
    (hother : Function.update self.tasks self.started (some next) other = some standing)
    (hundone : standing.undoes = some checkout) : checkout ∈ self.doomed := by
  by_cases heq : other = self.started
  · subst heq
    rw [Function.update_self, Option.some.injEq] at hother
    subst hother
    rw [hundoes] at hundone
    cases hundone
  · rw [Function.update_of_ne heq] at hother
    exact h.undone other standing checkout hother hundone

/-- A release begins. -/
theorem Sound.spawn_release (h : self.Sound) (id : WorkspaceId) : (self.spawn (.releasing id)).Sound := by
  have hsame : ∀ {P : Type} {ofRecord : CheckoutRecord → Option P} {ofTask : WorkspaceTask → Option P},
      ofTask (.releasing id) = none →
      has ofRecord ofTask (self.spawn (.releasing id)) = has ofRecord ofTask self := by
    intro P ofRecord ofTask hnone
    have hrecords : (self.spawn (.releasing id)).records = self.records := rfl
    have htasks : (self.spawn (.releasing id)).tasks =
      Function.update self.tasks self.started (some (.releasing id)) := rfl
    rw [has_call hrecords htasks, Function.update_eq_self_iff, has_task, h.tasks_started]
    exact hnone
  have hholds : (self.spawn (.releasing id)).holds = self.holds := hsame rfl
  have hmakes : (self.spawn (.releasing id)).makes = self.makes := hsame rfl
  constructor
  · rw [hholds]
    exact h.exclusive
  · rw [hholds]
    exact h.reserved
  · rw [hmakes]
    exact h.single
  · exact h.named
  · exact unused_spawn h _
  · exact h.distinct
  · rw [hmakes]
    exact h.made
  · exact undone_spawn h rfl
  · exact h.doomed

/-- `create` begins, with an id of its own. -/
theorem Sound.spawn_create (h : self.Sound) {checkout : Checkout}
    (hnew : checkout.id ∉ self.created.map Checkout.id) :
    ({ self with created := checkout :: self.created }.spawn (.allocating checkout)).Sound := by
  have hfresh : ∀ other ∈ self.created, other.id ≠ checkout.id := by
    intro other hother hid
    exact hnew (List.mem_map.mpr ⟨other, hother, hid⟩)
  have hunmade : ∀ owner, self.makes owner ≠ some checkout := by
    intro owner howner
    exact hfresh checkout (h.made owner checkout howner).1 rfl
  generalize hself' : ({ self with created := checkout :: self.created }.spawn (.allocating checkout) :
    WorktreeManager) = self'
  have hrecords : self'.records = self.records := by rw [← hself']; rfl
  have hcreated : self'.created = checkout :: self.created := by rw [← hself']; rfl
  have htasks : self'.tasks = Function.update self.tasks self.started (some (.allocating checkout)) := by
    rw [← hself']
    rfl
  have hholds : self'.holds = self.holds := by
    refine (has_call hrecords htasks).trans (Function.update_eq_self_iff.mpr ?_)
    rw [has_task, h.tasks_started]
    rfl
  have hmakes : self'.makes = Function.update self.makes (.call self.started) (some checkout) :=
    has_call hrecords htasks
  constructor
  · rw [hholds]
    exact h.exclusive
  · rw [hholds, ← hself']
    exact h.reserved
  · rw [hmakes]
    exact h.single.acquire _ fun owner _ => hunmade owner
  · rw [hrecords]
    exact h.named
  · rw [htasks, ← hself']
    exact unused_spawn h _
  · intro first hfirst second hsecond hid
    rw [hcreated] at hfirst hsecond
    rcases List.mem_cons.mp hfirst with rfl | hold
    · rcases List.mem_cons.mp hsecond with rfl | hold'
      · rfl
      · exact absurd hid.symm (hfresh second hold')
    · rcases List.mem_cons.mp hsecond with rfl | hold'
      · exact absurd hid (hfresh first hold)
      · exact h.distinct first hold second hold' hid
  · intro owner other howner
    rw [hmakes] at howner
    rw [← hself']
    show other ∈ checkout :: self.created ∧ other ∉ self.doomed
    by_cases heq : owner = .call self.started
    · subst heq
      rw [Function.update_self, Option.some.injEq] at howner
      subst howner
      exact ⟨List.mem_cons_self, fun hdoomed => hfresh checkout (h.doomed checkout hdoomed) rfl⟩
    · rw [Function.update_of_ne heq] at howner
      obtain ⟨hmem, hnot⟩ := h.made owner other howner
      exact ⟨List.mem_cons_of_mem _ hmem, hnot⟩
  · rw [htasks, ← hself']
    exact undone_spawn h rfl
  · rw [← hself']
    intro other hother
    exact List.mem_cons_of_mem _ (h.doomed other hother)

theorem Sound.step (h : self.Sound) (move : WorkspaceMove) : (self.step move).Sound := by
  cases move with
  | create id runId role =>
    unfold WorktreeManager.step
    dsimp only
    split
    · exact h
    · rename_i hnew
      exact h.spawn_create hnew
  | release id => exact h.spawn_release id
  | releaseRun runId =>
    show ((self.targets runId).foldl _ self).Sound
    generalize self.targets runId = targets
    induction targets generalizing self with
    | nil => exact h
    | cons id rest ih => exact ih (h.spawn_release id)
  | resume task outcome =>
    unfold WorktreeManager.step
    dsimp only
    split
    · exact h
    · rename_i standing hstanding
      exact h.resume hstanding outcome
  | settle checkout present =>
    unfold WorktreeManager.step
    dsimp only
    split
    · exact ⟨h.exclusive, h.reserved, h.single, h.named, h.unused, h.distinct, h.made, h.undone, h.doomed⟩
    · exact h

theorem sound_fresh (root : String) (disk : Finset String) : (fresh root disk).Sound := by
  constructor
  · intro owner other path howner
    cases owner <;> cases howner
  · intro path
    constructor
    · intro hmem
      cases Finset.notMem_empty _ hmem
    · rintro ⟨owner, howner⟩
      cases owner <;> cases howner
  · intro owner other checkout howner
    cases owner <;> cases howner
  · intro id record hrecord
    cases hrecord
  · intro task _
    rfl
  · intro checkout hmem
    cases hmem
  · intro owner checkout howner
    cases owner <;> cases howner
  · intro task standing checkout hstanding
    cases hstanding
  · intro checkout hmem
    cases hmem

theorem sound_after (root : String) (disk : Finset String) (moves : List WorkspaceMove) :
    ((fresh root disk).after moves).Sound :=
  Runs.after_invariant (sound_fresh root disk) fun _ move h => h.step move

/-- **Two workspaces never share a path**, whatever the order in which calls go on, fail, are
    interrupted or cancelled: a path is reserved exactly if one living workspace or one call has it,
    and what is being undone is not living. -/
theorem paths_exclusive (root : String) (disk : Finset String) (moves : List WorkspaceMove) :
    let manager := (fresh root disk).after moves
    (∀ id id' record record', manager.records.lookup id = some record →
      manager.records.lookup id' = some record' → record.checkout.path = record'.checkout.path → id = id') ∧
    (∀ id record task standing, manager.records.lookup id = some record →
      manager.tasks task = some standing → standing.reserves ≠ some record.checkout.path) ∧
    (∀ path, path ∈ manager.paths ↔
      (∃ id record, manager.records.lookup id = some record ∧ record.checkout.path = path) ∨
        ∃ task standing, manager.tasks task = some standing ∧ standing.reserves = some path) ∧
    ∀ id record, manager.records.lookup id = some record →
      record.checkout.id = id ∧ record.checkout ∉ manager.doomed ∧
        ∀ task standing, manager.tasks task = some standing → standing.undoes ≠ some record.checkout := by
  intro manager
  have h : manager.Sound := sound_after root disk moves
  have hlive : ∀ {id record}, manager.records.lookup id = some record →
      manager.holds (.live id) = some record.checkout.path := fun hrecord => has_of_record hrecord
  have hcall : ∀ {task standing}, manager.tasks task = some standing →
      manager.holds (.call task) = standing.reserves := fun hstanding => has_of_task hstanding
  refine ⟨?_, ?_, ?_, ?_⟩
  · intro id id' record record' hrecord hrecord' hpath
    have hsame := h.exclusive _ _ _ (hlive hrecord) (hpath ▸ hlive hrecord')
    cases hsame
    rfl
  · intro id record task standing hrecord hstanding hreserves
    cases h.exclusive _ _ _ (hlive hrecord) ((hcall hstanding).trans hreserves)
  · intro path
    rw [h.reserved]
    constructor
    · rintro ⟨owner, howner⟩
      cases owner with
      | live id =>
        obtain ⟨record, hrecord, hpath⟩ := Option.bind_eq_some_iff.mp howner
        cases hpath
        exact .inl ⟨id, record, hrecord, rfl⟩
      | call task =>
        obtain ⟨standing, hstanding, hpath⟩ := Option.bind_eq_some_iff.mp howner
        exact .inr ⟨task, standing, hstanding, hpath⟩
    · rintro (⟨id, record, hrecord, rfl⟩ | ⟨task, standing, hstanding, hpath⟩)
      · exact ⟨.live id, hlive hrecord⟩
      · exact ⟨.call task, (hcall hstanding).trans hpath⟩
  · intro id record hrecord
    have hmade : manager.makes (.live id) = some record.checkout := has_of_record hrecord
    have hnot := (h.made _ _ hmade).2
    refine ⟨h.named id record hrecord, hnot, fun task standing hstanding hundone => ?_⟩
    exact hnot (h.undone task standing _ hstanding hundone)

end WorktreeManager

end AgenticPlatform
