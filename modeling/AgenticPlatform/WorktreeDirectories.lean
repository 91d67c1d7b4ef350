import AgenticPlatform.WorktreeOwnership

/-!
# The directory of a living workspace stays

Whatever removes a directory does so at the path of a workspace that is given up, or of the
one the call itself makes. As long as no two workspaces are called by the same path, that is
never the path of a living one. `workspacePath` keeps workspaces apart by their run, their
role and the first twelve digits of their ids.
-/

namespace AgenticPlatform

open Dict Ownership

namespace WorktreeManager

variable {self self' : WorktreeManager} {task : Nat} {standing : WorkspaceTask}
  {next : Option WorkspaceTask}

/-- No two workspaces have the same path. -/
def Apart (self : WorktreeManager) : Prop :=
  ∀ checkout ∈ self.created, ∀ other ∈ self.created, checkout.path = other.path → checkout = other

/-- What was put into place is there. -/
def Standing (self : WorktreeManager) : Prop :=
  ∀ owner checkout, self.stands owner = some checkout → checkout.path ∈ self.disk

theorem makes_of_stands {owner : WorkspaceOwner} {checkout : Checkout}
    (h : self.stands owner = some checkout) : self.makes owner = some checkout := by
  cases owner with
  | live id => exact h
  | call task =>
    obtain ⟨standing, hstanding, hstands⟩ := Option.bind_eq_some_iff.mp h
    refine Option.bind_eq_some_iff.mpr ⟨standing, hstanding, ?_⟩
    cases standing with
    | checkingOut other => exact hstands
    | registering other kind => exact hstands
    | _ => cases hstands

/-- The path is of none of the workspaces that live or are made, that of the call apart. -/
def Foreign (self : WorktreeManager) (task : Nat) (checkout : Checkout) : Prop :=
  ∀ owner other, owner ≠ .call task → self.makes owner = some other → other.path ≠ checkout.path

theorem Sound.foreign_made (h : self.Sound) (hapart : self.Apart) {checkout : Checkout}
    (hstanding : self.tasks task = some standing) (hmakes : standing.makes = some checkout) :
    self.Foreign task checkout := by
  intro owner other hne howner hpath
  have hcall : self.makes (.call task) = some checkout := (has_of_task hstanding).trans hmakes
  have hsame := hapart other (h.made _ _ howner).1 checkout (h.made _ _ hcall).1 hpath
  rw [hsame] at howner
  exact hne (h.single _ _ _ howner hcall)

theorem Sound.doomed_elsewhere (h : self.Sound) (hapart : self.Apart) {checkout other : Checkout}
    (hdoomed : checkout ∈ self.doomed) {owner : WorkspaceOwner} (howner : self.makes owner = some other) :
    other.path ≠ checkout.path := by
  intro hpath
  have hsame := hapart other (h.made _ _ howner).1 checkout (h.doomed _ hdoomed) hpath
  rw [hsame] at howner
  exact (h.made _ _ howner).2 hdoomed

theorem Sound.foreign_doomed (h : self.Sound) (hapart : self.Apart) {checkout : Checkout}
    (hdoomed : checkout ∈ self.doomed) (task : Nat) : self.Foreign task checkout :=
  fun _ _ _ howner => h.doomed_elsewhere hapart hdoomed howner

theorem mem_settle {path path' : String} (hne : path' ≠ path) (present : Bool) :
    path' ∈ (self.settle path present).disk ↔ path' ∈ self.disk := by
  cases present with
  | true => exact Finset.mem_insert.trans (or_iff_right hne)
  | false => exact Finset.mem_erase.trans (and_iff_right hne)

/-- A call works at a path of its own, and leaves it empty or with its workspace in place. -/
theorem Standing.settles (hstands : self.Standing) {checkout : Checkout}
    (hforeign : self.Foreign task checkout) (present : Bool) (hrecords : self'.records = self.records)
    (hdisk : self'.disk = (self.settle checkout.path present).disk)
    (htasks : self'.tasks = Function.update self.tasks task next)
    (hnext : next.bind WorkspaceTask.stands = none ∨
      present = true ∧ next.bind WorkspaceTask.stands = some checkout) : self'.Standing := by
  intro owner other howner
  rw [stands, has_call hrecords htasks] at howner
  rw [hdisk]
  by_cases heq : owner = .call task
  · subst heq
    rw [Function.update_self] at howner
    rcases hnext with hnone | ⟨rfl, hsome⟩
    · rw [hnone] at howner
      cases howner
    · rw [hsome, Option.some.injEq] at howner
      subst howner
      exact Finset.mem_insert_self _ _
  · rw [Function.update_of_ne heq] at howner
    rw [mem_settle (hforeign owner other heq (makes_of_stands howner))]
    exact hstands owner other howner

/-- A call that touches no directory. -/
theorem Standing.keeps (hstands : self.Standing) (hstanding : self.tasks task = some standing)
    (hrecords : self'.records = self.records) (hdisk : self'.disk = self.disk)
    (htasks : self'.tasks = Function.update self.tasks task next)
    (hnext : next.bind WorkspaceTask.stands = none ∨
      next.bind WorkspaceTask.stands = standing.stands) : self'.Standing := by
  intro owner other howner
  rw [stands, has_call hrecords htasks] at howner
  rw [hdisk]
  by_cases heq : owner = .call task
  · subst heq
    rw [Function.update_self] at howner
    rcases hnext with hnone | hsame
    · rw [hnone] at howner
      cases howner
    · rw [hsame] at howner
      exact hstands _ other ((has_of_task hstanding).trans howner)
  · rw [Function.update_of_ne heq] at howner
    exact hstands owner other howner

/-- The end of `create`. -/
theorem Standing.registers (hstands : self.Standing) {checkout : Checkout} {kind : WorkspaceKind}
    (hstanding : self.tasks task = some (.registering checkout kind))
    (hrecords : self'.records = self.records.insert checkout.id ⟨checkout, kind⟩)
    (hdisk : self'.disk = self.disk) (htasks : self'.tasks = Function.update self.tasks task none) :
    self'.Standing := by
  intro owner other howner
  rw [stands, has_insert hrecords htasks] at howner
  rw [hdisk]
  by_cases heq : owner = .live checkout.id
  · subst heq
    rw [Function.update_self, Option.some.injEq] at howner
    subst howner
    exact hstands (.call task) checkout (has_of_task hstanding)
  · rw [Function.update_of_ne heq] at howner
    by_cases hcaller : owner = .call task
    · subst hcaller
      rw [Function.update_self] at howner
      cases howner
    · rw [Function.update_of_ne hcaller] at howner
      exact hstands owner other howner

/-- A record goes, and no directory with it yet. -/
theorem Standing.forgets (hstands : self.Standing) {id : WorkspaceId}
    (hrecords : self'.records = self.records.erase id) (hdisk : self'.disk = self.disk)
    (htasks : self'.tasks = Function.update self.tasks task next)
    (hnext : next.bind WorkspaceTask.stands = none) : self'.Standing := by
  intro owner other howner
  rw [stands, has_erase hrecords htasks, hnext] at howner
  rw [hdisk]
  by_cases hcaller : owner = .call task
  · subst hcaller
    rw [Function.update_self] at howner
    cases howner
  · rw [Function.update_of_ne hcaller] at howner
    by_cases heq : owner = .live id
    · subst heq
      rw [Function.update_self] at howner
      cases howner
    · rw [Function.update_of_ne heq] at howner
      exact hstands owner other howner

theorem Standing.givesUp (hstands : self.Standing) {checkout : Checkout}
    (hforeign : self.Foreign task checkout) (left : Bool) :
    ({ (self.giveUp checkout left).1 with
      tasks := Function.update self.tasks task (self.giveUp checkout left).2 } :
        WorktreeManager).Standing :=
  hstands.settles hforeign left rfl rfl rfl (.inl rfl)

/-- Every piece of every call. -/
theorem Standing.resume (hstands : self.Standing) (h : self.Sound) (hapart : self.Apart)
    (hstanding : self.tasks task = some standing) (outcome : PieceOutcome) :
    ({ (self.resume outcome standing).1 with
      tasks := Function.update self.tasks task (self.resume outcome standing).2 } :
        WorktreeManager).Standing := by
  have hmade : ∀ {checkout}, standing.makes = some checkout → self.Foreign task checkout :=
    fun hmakes => h.foreign_made hapart hstanding hmakes
  have hundone : ∀ {checkout}, standing.undoes = some checkout → self.Foreign task checkout :=
    fun hundoes => h.foreign_doomed hapart (h.undone task standing _ hstanding hundoes) task
  cases standing with
  | allocating checkout =>
    cases outcome with
    | done =>
      by_cases hused : checkout.path ∈ self.paths ∨ checkout.path ∈ self.disk
      · simp only [WorktreeManager.resume, if_pos hused]
        exact hstands.keeps hstanding rfl rfl rfl (.inl rfl)
      · simp only [WorktreeManager.resume, if_neg hused]
        exact hstands.keeps hstanding rfl rfl rfl (.inl rfl)
    | failed left => exact hstands.keeps hstanding rfl rfl rfl (.inl rfl)
    | interrupted left => exact hstands.keeps hstanding rfl rfl rfl (.inl rfl)
  | preparing checkout => cases outcome <;> exact hstands.keeps hstanding rfl rfl rfl (.inl rfl)
  | addingWorktree checkout =>
    cases outcome with
    | done => exact hstands.settles (hmade rfl) true rfl rfl rfl (.inr ⟨rfl, rfl⟩)
    | failed left => exact hstands.settles (hmade rfl) left rfl rfl rfl (.inl rfl)
    | interrupted left => exact hstands.givesUp (hmade rfl) left
  | clearing checkout =>
    cases outcome with
    | done => exact hstands.settles (hmade rfl) false rfl rfl rfl (.inl rfl)
    | failed left => exact hstands.settles (hmade rfl) left rfl rfl rfl (.inl rfl)
    | interrupted left => exact hstands.givesUp (hmade rfl) left
  | cloning checkout =>
    cases outcome with
    | done => exact hstands.settles (hmade rfl) true rfl rfl rfl (.inr ⟨rfl, rfl⟩)
    | failed left => exact hstands.givesUp (hmade rfl) left
    | interrupted left => exact hstands.givesUp (hmade rfl) left
  | checkingOut checkout =>
    cases outcome with
    | done => exact hstands.keeps hstanding rfl rfl rfl (.inr rfl)
    | failed left => exact hstands.givesUp (hmade rfl) left
    | interrupted left => exact hstands.givesUp (hmade rfl) left
  | registering checkout kind =>
    cases outcome with
    | done => exact hstands.registers hstanding rfl rfl rfl
    | failed left => exact hstands.keeps hstanding rfl rfl rfl (.inl rfl)
    | interrupted left => exact hstands.keeps hstanding rfl rfl rfl (.inl rfl)
  | forgetting checkout =>
    cases outcome with
    | done => exact hstands.forgets rfl rfl rfl rfl
    | failed left => exact hstands.keeps hstanding rfl rfl rfl (.inl rfl)
    | interrupted left => exact hstands.keeps hstanding rfl rfl rfl (.inl rfl)
  | sweeping checkout => exact hstands.settles (hundone rfl) outcome.left rfl rfl rfl (.inl rfl)
  | releasing id =>
    cases outcome with
    | done =>
      cases hrecord : self.records.lookup id with
      | none =>
        simp only [WorktreeManager.resume, hrecord]
        exact hstands.keeps hstanding rfl rfl rfl (.inl rfl)
      | some record =>
        simp only [WorktreeManager.resume, hrecord]
        exact hstands.forgets rfl rfl rfl record.removing_stands
    | failed left => exact hstands.keeps hstanding rfl rfl rfl (.inl rfl)
    | interrupted left => exact hstands.keeps hstanding rfl rfl rfl (.inl rfl)
  | removingWorktree record =>
    cases outcome with
    | done => exact hstands.settles (hundone rfl) false rfl rfl rfl (.inl rfl)
    | failed left => exact hstands.settles (hundone rfl) left rfl rfl rfl (.inl rfl)
    | interrupted left => exact hstands.settles (hundone rfl) left rfl rfl rfl (.inl rfl)
  | removingTree record =>
    obtain ⟨checkout, kind⟩ := record
    cases outcome with
    | done => cases kind <;> exact hstands.settles (hundone rfl) false rfl rfl rfl (.inl rfl)
    | failed left => cases kind <;> exact hstands.settles (hundone rfl) left rfl rfl rfl (.inl rfl)
    | interrupted left => exact hstands.settles (hundone rfl) left rfl rfl rfl (.inl rfl)
  | pruning record => exact hstands.keeps hstanding rfl rfl rfl (.inl rfl)
  | stranded checkout => exact hstands.keeps hstanding rfl rfl rfl (.inl rfl)

/-! ### Whole runs -/

/-- A call begins, at no directory yet. -/
theorem Standing.spawn (hstands : self.Standing) (h : self.Sound) {next : WorkspaceTask}
    (hnext : next.stands = none) (hrecords : self'.records = self.records) (hdisk : self'.disk = self.disk)
    (htasks : self'.tasks = Function.update self.tasks self.started (some next)) : self'.Standing := by
  have hsame : self'.stands = self.stands := by
    refine (has_call hrecords htasks).trans (Function.update_eq_self_iff.mpr ?_)
    rw [has_task, h.tasks_started]
    exact hnext
  intro owner checkout howner
  rw [hsame] at howner
  rw [hdisk]
  exact hstands owner checkout howner

theorem spawn_releases (h : self.Sound) (hstands : self.Standing) (targets : List WorkspaceId) :
    (targets.foldl (fun self id => self.spawn (.releasing id)) self).Standing := by
  induction targets generalizing self with
  | nil => exact hstands
  | cons id rest ih => exact ih (h.spawn_release id) (hstands.spawn h rfl rfl rfl rfl)

theorem created_releases (targets : List WorkspaceId) :
    (targets.foldl (fun self id => self.spawn (.releasing id)) self).created = self.created ∧
      (targets.foldl (fun self id => self.spawn (.releasing id)) self).root = self.root := by
  induction targets generalizing self with
  | nil => exact ⟨rfl, rfl⟩
  | cons id rest ih => exact ih

theorem resume_created (self : WorktreeManager) (outcome : PieceOutcome) (standing : WorkspaceTask) :
    (self.resume outcome standing).1.created = self.created ∧
      (self.resume outcome standing).1.root = self.root := by
  unfold WorktreeManager.resume
  split
  any_goals exact ⟨rfl, rfl⟩
  all_goals
    split
    any_goals exact ⟨rfl, rfl⟩
  split <;> exact ⟨rfl, rfl⟩

/-- Only `create` makes workspaces known. -/
theorem step_created (self : WorktreeManager) (move : WorkspaceMove) :
    (self.step move).root = self.root ∧ ∀ checkout ∈ (self.step move).created,
      checkout ∈ self.created ∨ move = .create checkout.id checkout.runId checkout.role ∧
        checkout.path = workspacePath self.root checkout.runId checkout.role checkout.id := by
  cases move with
  | create id runId role =>
    unfold step
    dsimp only
    split
    · exact ⟨rfl, fun checkout hmem => .inl hmem⟩
    · refine ⟨rfl, fun checkout hmem => ?_⟩
      rcases List.mem_cons.mp hmem with rfl | hold
      · exact .inr ⟨rfl, rfl⟩
      · exact .inl hold
  | release id => exact ⟨rfl, fun checkout hmem => .inl hmem⟩
  | releaseRun runId =>
    obtain ⟨hcreated, hroot⟩ := @created_releases self (self.targets runId)
    refine ⟨hroot, fun checkout hmem => .inl ?_⟩
    rw [← hcreated]
    exact hmem
  | resume task outcome =>
    unfold step
    dsimp only
    split
    · exact ⟨rfl, fun checkout hmem => .inl hmem⟩
    · rename_i standing hstanding
      obtain ⟨hcreated, hroot⟩ := resume_created self outcome standing
      refine ⟨hroot, fun checkout hmem => .inl ?_⟩
      rw [← hcreated]
      exact hmem
  | settle checkout present =>
    unfold step
    dsimp only
    split
    · exact ⟨rfl, fun checkout hmem => .inl hmem⟩
    · exact ⟨rfl, fun checkout hmem => .inl hmem⟩

/-- A workspace that is known stays known. -/
theorem created_step (self : WorktreeManager) (move : WorkspaceMove) {checkout : Checkout}
    (hmem : checkout ∈ self.created) : checkout ∈ (self.step move).created := by
  cases move with
  | create id runId role =>
    unfold step
    dsimp only
    split
    · exact hmem
    · exact List.mem_cons_of_mem _ hmem
  | release id => exact hmem
  | releaseRun runId =>
    show checkout ∈ ((self.targets runId).foldl _ self).created
    rw [(created_releases _).1]
    exact hmem
  | resume task outcome =>
    unfold step
    dsimp only
    split
    · exact hmem
    · rw [(resume_created self outcome _).1]
      exact hmem
  | settle checkout present =>
    unfold step
    dsimp only
    split <;> exact hmem

theorem Standing.step (h : self.Sound) (hstands : self.Standing) (hapart : self.Apart)
    (move : WorkspaceMove) : (self.step move).Standing := by
  cases move with
  | create id runId role =>
    unfold WorktreeManager.step
    dsimp only
    split
    · exact hstands
    · exact hstands.spawn h rfl rfl rfl rfl
  | release id => exact hstands.spawn h rfl rfl rfl rfl
  | releaseRun runId => exact spawn_releases h hstands _
  | resume task outcome =>
    unfold WorktreeManager.step
    dsimp only
    split
    · exact hstands
    · rename_i standing hstanding
      exact hstands.resume h hapart hstanding outcome
  | settle checkout present =>
    unfold WorktreeManager.step
    dsimp only
    split
    · rename_i hdoomed
      intro owner other howner
      rw [mem_settle (h.doomed_elsewhere hapart hdoomed (makes_of_stands howner))]
      exact hstands owner other howner
    · exact hstands

theorem standing_after (root : String) (disk : Finset String) (moves : List WorkspaceMove)
    (hapart : ((fresh root disk).after moves).Apart) : ((fresh root disk).after moves).Standing := by
  have hstep : ∀ (manager : WorktreeManager) (move : WorkspaceMove),
      manager.Sound ∧ (manager.Apart → manager.Standing) →
      (manager.step move).Sound ∧ ((manager.step move).Apart → (manager.step move).Standing) := by
    rintro manager move ⟨h, hstands⟩
    refine ⟨h.step move, fun hnext => ?_⟩
    have hbefore : manager.Apart := fun checkout hmem other hmem' =>
      hnext checkout (created_step manager move hmem) other (created_step manager move hmem')
    exact Standing.step h (hstands hbefore) hbefore move
  have hstart : (fresh root disk).Sound ∧ ((fresh root disk).Apart → (fresh root disk).Standing) := by
    refine ⟨sound_fresh root disk, fun _ owner checkout howner => ?_⟩
    cases owner <;> cases howner
  exact (Runs.after_invariant (I := fun manager : WorktreeManager =>
    manager.Sound ∧ (manager.Apart → manager.Standing)) hstart hstep).2 hapart

/-- Every workspace that is known was asked for, and has the path that its name gives it. -/
theorem created_after (moves : List WorkspaceMove) (checkout : Checkout)
    (hmem : checkout ∈ (self.after moves).created) : checkout ∈ self.created ∨
      .create checkout.id checkout.runId checkout.role ∈ moves ∧
        checkout.path = workspacePath self.root checkout.runId checkout.role checkout.id := by
  induction moves generalizing self with
  | nil => exact .inl hmem
  | cons move rest ih =>
    obtain ⟨hroot, hcreated⟩ := step_created self move
    rcases ih hmem with hnext | ⟨hmove, hpath⟩
    · rcases hcreated checkout hnext with hold | ⟨rfl, hpath⟩
      · exact .inl hold
      · exact .inr ⟨List.mem_cons_self, hpath⟩
    · rw [hroot] at hpath
      exact .inr ⟨List.mem_cons_of_mem _ hmove, hpath⟩

/-! ### Paths -/

theorem lower_inj {role role' : WorkspaceRole} (h : role.lower = role'.lower) : role = role' := by
  cases role <;> cases role' <;> first | rfl | exact absurd h (by decide)

/-- A path tells the run, the role and the first digits of the id. -/
theorem workspacePath_inj {root : String} {runId runId' : RunId} {role role' : WorkspaceRole}
    {id id' : WorkspaceId} (hrun : IsUuid runId.value) (hrun' : IsUuid runId'.value)
    (h : workspacePath root runId role id = workspacePath root runId' role' id') :
    runId = runId' ∧ role = role' ∧ WorkspaceId.shortHex id = WorkspaceId.shortHex id' := by
  have hlength : ∀ runId : RunId, runId.chars.length = 36 := fun runId => by simp [EntityId.chars]
  have hchars := congrArg String.toList h
  simp only [workspacePath, EntityId.str, String.toList_append, String.toList_ofList] at hchars
  obtain ⟨hfront, hdigits⟩ := List.append_inj' hchars (by simp [WorkspaceId.shortHex])
  have hnames := List.append_cancel_right hfront
  simp only [List.append_assoc, List.append_cancel_left_eq] at hnames
  obtain ⟨hruns, hrest⟩ := List.append_inj hnames (by rw [hlength, hlength])
  refine ⟨EntityId.chars_inj hrun hrun' hruns, lower_inj ?_, hdigits⟩
  exact List.append_cancel_left hrest

/-- **The directory of a living workspace stays**, whatever other calls remove and whatever
    interrupted ones have left running, if the ids that one run gets for one role differ in their
    first twelve digits. -/
theorem directories_stay (root : String) (disk : Finset String) (moves : List WorkspaceMove)
    (hruns : ∀ id runId role, .create id runId role ∈ moves → IsUuid runId.value)
    (hshort : ∀ id id' runId role, .create id runId role ∈ moves → .create id' runId role ∈ moves →
      WorkspaceId.shortHex id = WorkspaceId.shortHex id' → id = id') :
    ∀ id record, ((fresh root disk).after moves).records.lookup id = some record →
      record.checkout.path ∈ ((fresh root disk).after moves).disk := by
  have h := sound_after root disk moves
  have hknown : ∀ checkout ∈ ((fresh root disk).after moves).created,
      .create checkout.id checkout.runId checkout.role ∈ moves ∧
        checkout.path = workspacePath root checkout.runId checkout.role checkout.id := by
    intro checkout hmem
    rcases created_after moves checkout hmem with hold | hasked
    · cases hold
    · exact hasked
  have hapart : ((fresh root disk).after moves).Apart := by
    intro checkout hmem other hmem' hpath
    obtain ⟨hmove, hname⟩ := hknown checkout hmem
    obtain ⟨hmove', hname'⟩ := hknown other hmem'
    rw [hname, hname'] at hpath
    obtain ⟨hrun, hrole, hdigits⟩ :=
      workspacePath_inj (hruns _ _ _ hmove) (hruns _ _ _ hmove') hpath
    rw [hrun, hrole] at hmove
    exact h.distinct checkout hmem other hmem' (hshort _ _ _ _ hmove hmove' hdigits)
  intro id record hrecord
  exact standing_after root disk moves hapart (.live id) record.checkout (has_of_record hrecord)

namespace Sample

/-- One call makes a workspace; a second one is cancelled while git adds its worktree. -/
def twoCalls : List WorkspaceMove :=
  [.create ⟨2 ^ 100⟩ ⟨2⟩ .candidate, .create ⟨2 ^ 101⟩ ⟨2⟩ .candidate,
    .resume 0 .done, .resume 1 .done, .resume 0 .done, .resume 1 .done,
    .resume 0 .done, .resume 1 (.interrupted true), .resume 0 .done, .resume 1 .done, .resume 1 .done]

/-- The first digits of both ids are the same: the release of the first workspace has removed its
    worktree when the second moves in, and then removes the directory. -/
def sameDigits : List WorkspaceMove :=
  [.create ⟨2⟩ ⟨2⟩ .candidate, .resume 0 .done, .resume 0 .done, .resume 0 .done, .resume 0 .done,
    .release ⟨2⟩, .resume 1 .done, .resume 1 .done,
    .create ⟨3⟩ ⟨2⟩ .candidate, .resume 2 .done, .resume 2 .done, .resume 2 .done, .resume 2 .done,
    .resume 1 .done]

theorem create_twoCalls {id : WorkspaceId} {runId : RunId} {role : WorkspaceRole}
    (h : .create id runId role ∈ twoCalls) :
    runId = ⟨2⟩ ∧ (id = ⟨2 ^ 100⟩ ∨ id = ⟨2 ^ 101⟩) := by
  simp only [twoCalls, List.mem_cons, WorkspaceMove.create.injEq, reduceCtorEq, List.not_mem_nil,
    or_false] at h
  rcases h with ⟨rfl, rfl, -⟩ | ⟨rfl, rfl, -⟩
  · exact ⟨rfl, .inl rfl⟩
  · exact ⟨rfl, .inr rfl⟩

end Sample

theorem directories_stay_sample :
    (((fresh "w" ∅).after Sample.twoCalls).records.lookup ⟨2 ^ 100⟩).isSome = true ∧
      ∀ id record, ((fresh "w" ∅).after Sample.twoCalls).records.lookup id = some record →
        record.checkout.path ∈ ((fresh "w" ∅).after Sample.twoCalls).disk := by
  refine ⟨by decide +kernel, directories_stay "w" ∅ Sample.twoCalls ?_ ?_⟩
  · intro id runId role hmove
    rw [(Sample.create_twoCalls hmove).1]
    decide
  · intro id id' runId role hmove hmove' hdigits
    rcases (Sample.create_twoCalls hmove).2 with rfl | rfl
    · rcases (Sample.create_twoCalls hmove').2 with rfl | rfl
      · rfl
      · exact absurd hdigits (by decide)
    · rcases (Sample.create_twoCalls hmove').2 with rfl | rfl
      · exact absurd hdigits (by decide)
      · rfl

/-- The first twelve digits are needed: here a living workspace has lost its directory. -/
theorem directory_lost :
    ∃ record, ((fresh "w" ∅).after Sample.sameDigits).records.lookup ⟨3⟩ = some record ∧
      record.checkout.path ∉ ((fresh "w" ∅).after Sample.sameDigits).disk := by
  have hsome : (((fresh "w" ∅).after Sample.sameDigits).records.lookup ⟨3⟩).any (fun record =>
      decide (record.checkout.path ∉ ((fresh "w" ∅).after Sample.sameDigits).disk)) = true := by
    decide +kernel
  obtain ⟨record, hrecord, hlost⟩ := (Option.any_eq_true _ _).mp hsome
  exact ⟨record, hrecord, of_decide_eq_true hlost⟩

end WorktreeManager

end AgenticPlatform
