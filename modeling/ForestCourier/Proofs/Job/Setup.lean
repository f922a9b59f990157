import ForestCourier.Proofs.Discovery.Description
import ForestCourier.Proofs.Job.Handover
import ForestCourier.Proofs.Session.Confinement
import ForestCourier.Proofs.Writer.Sessions

/-!
The setup of a job. Each request that needs a job to be set up tries to do so from scratch, with its own
options, and leaves nothing behind if it fails but what it asked of the server; the first to succeed sets up
the job for good. Tasks in the process of the job share its manager, and each other task has one of its own.
-/

namespace ForestCourier

variable {σ : Type}

def Wire.Settles (w w' : Wire σ) : Prop :=
  ∃ events, w.Adds events w' ∧ ∀ session, .opened session ∈ events → events.countP (Event.closes session) = 1

theorem Discovery.discover_drives (srv : Server σ) (config : Config.Output) (w : Wire σ) :
    Wire.Drives lookStep none w none (discover srv config w).2 := by
  have hopen := Failover.openAmong_drives srv config.hosts config.port config.hosts none w
  unfold discover Failover.openFirst
  cases ho : Failover.openAmong srv config.hosts config.port .auto config.hosts none w with
  | mk r w₁ =>
    rw [ho] at hopen
    cases r with
    | error e => exact hopen
    | ok session =>
      have hlasts : Lasts srv session (Wire.Drives lookStep none w (some session)) :=
        ⟨fun _ _ h => h.trans (.of_cons rfl rfl rfl (by simp [lookStep])),
          fun _ _ h => h.trans (.of_same rfl rfl rfl)⟩
      have hsurvey := (hlasts.keeps_survey config w₁).1 hopen
      exact hsurvey.trans (.of_cons rfl rfl rfl (by simp [lookStep]))

namespace OutputJob

open Job

variable {srv : Server σ} {options : Config.Options} {config : Config.Output} {job job' : OutputJob σ}

theorem prepare_cases (srv : Server σ) (options : Config.Options) (job : OutputJob σ) :
    (∃ setup, job.setup = some setup ∧ job.prepare srv options = (.ok setup, job)) ∨
      job.setup = none ∧ ∃ wire, Wire.Drives lookStep none job.wire none wire ∧
        ((∃ e, job.prepare srv options = (.error e, { job with wire := wire })) ∨
          ∃ layout manager, job.prepare srv options = (.ok ⟨layout, job.managers.length⟩,
            { job with
              setup := some ⟨layout, job.managers.length⟩
              managers := job.managers ++ [manager]
              wire := wire })) := by
  obtain ⟨setup, managers, counters, wire⟩ := job
  cases setup with
  | some setup => exact .inl ⟨setup, rfl, rfl⟩
  | none =>
    refine .inr ⟨rfl, ?_⟩
    unfold prepare
    cases Config.Output.ofOptions options with
    | error e => exact ⟨wire, .of_same rfl rfl rfl, .inl ⟨e, rfl⟩⟩
    | ok config =>
      have hdrives := Discovery.discover_drives srv config wire
      dsimp only
      cases hd : Discovery.discover srv config wire with
      | mk r wire' =>
        rw [hd] at hdrives
        refine ⟨wire', hdrives, ?_⟩
        cases r with
        | error e => exact .inl ⟨e, rfl⟩
        | ok layout =>
          dsimp only
          cases managerFor config layout with
          | error e => exact .inl ⟨e, rfl⟩
          | ok manager => exact .inr ⟨layout, manager, rfl⟩

def andThen {α β : Type} (x : Except TransferError α × OutputJob σ)
    (next : α → OutputJob σ → Except TransferError β × OutputJob σ) : Except TransferError β × OutputJob σ :=
  match x with
  | (.ok a, job) => next a job
  | (.error e, job) => (.error e, job)

def own (config : Config.Output) (layout : Discovery.Layout) (job : OutputJob σ) :
    Except TransferError (Nat × Bool) × OutputJob σ :=
  match managerFor config layout with
  | .error e => (.error e, job)
  | .ok manager => (.ok (job.managers.length, layout.fastLoad), { job with managers := job.managers ++ [manager] })

def employ (config : Config.Output) (number : Nat) (assigned : Nat × Bool) (job : OutputJob σ) :
    Except TransferError Task × OutputJob σ :=
  match job.managers[assigned.1]? with
  | none => (.error .closed, job)
  | some manager => ((Writer.new config assigned.2 manager number).map fun writer => ⟨assigned.1, writer⟩, job)

theorem check_eq (srv : Server σ) (options : Config.Options) (job : OutputJob σ) :
    job.check srv options = andThen (job.prepare srv options) fun _ job => (.ok (), job) := by
  unfold check andThen
  rcases job.prepare srv options with ⟨_ | _, _⟩
  · rfl
  · rfl

theorem assignment_eq (srv : Server σ) (options : Config.Options) (config : Config.Output) (job : OutputJob σ) :
    job.assignment srv options config =
      match config.mode with
      | .inProcess => andThen (job.prepare srv options) fun setup job =>
          (.ok (setup.manager, setup.layout.fastLoad), job)
      | .distributed =>
        match handedOver? options with
        | .error e => (.error e, job)
        | .ok (some layout) => own config layout job
        | .ok none => andThen (job.prepare srv options) fun setup job => own config setup.layout job := by
  unfold assignment
  cases config.mode with
  | inProcess =>
    rcases job.prepare srv options with ⟨_ | _, _⟩
    · rfl
    · rfl
  | distributed =>
    rcases handedOver? options with _ | _ | _
    · rfl
    · rcases job.prepare srv options with ⟨_ | _, _⟩
      · rfl
      · rfl
    · rfl

theorem startTask_eq (srv : Server σ) (options : Config.Options) (number : Nat) (job : OutputJob σ) :
    job.startTask srv options number =
      match Config.Output.ofOptions options with
      | .error e => (.error e, job)
      | .ok config => andThen (job.assignment srv options config) (employ config number) := by
  unfold startTask
  cases Config.Output.ofOptions options with
  | error e => rfl
  | ok config =>
    dsimp only
    rcases job.assignment srv options config with ⟨_ | ⟨i, fastLoad⟩, job₁⟩
    · rfl
    · dsimp only [andThen, employ]
      cases job₁.managers[i]? with
      | none => rfl
      | some manager =>
        dsimp only
        cases Writer.new config fastLoad manager number with
        | error e => rfl
        | ok writer => rfl

/-- What a request leaves of a job: it stays set up, managers are only added, and what is asked of the server
is asked on sessions that are closed again, once it is set up nothing. -/
structure Grows (job job' : OutputJob σ) : Prop where
  setup : ∀ setup, job.setup = some setup → job'.setup = some setup
  late : ∀ setup, job'.setup = some setup → job.setup = some setup ∨ job.managers.length ≤ setup.manager
  managers : job.managers <+: job'.managers
  drives : Wire.Drives lookStep none job.wire none job'.wire
  quiet : job.setup.isSome = true → job'.wire = job.wire

theorem Grows.refl (job : OutputJob σ) : job.Grows job :=
  ⟨fun _ => id, fun _ => .inl, List.prefix_refl _, .of_same rfl rfl rfl, fun _ => rfl⟩

theorem Grows.trans {job'' : OutputJob σ} (h : job.Grows job') (h' : job'.Grows job'') : job.Grows job'' where
  setup setup hs := h'.setup setup (h.setup setup hs)
  late setup hs := by
    obtain hs | hlate := h'.late setup hs
    · exact h.late setup hs
    · exact .inr (Nat.le_trans h.managers.length_le hlate)
  managers := h.managers.trans h'.managers
  drives := h.drives.trans h'.drives
  quiet hs := by
    obtain ⟨setup, hsetup⟩ := Option.isSome_iff_exists.mp hs
    rw [h'.quiet (Option.isSome_iff_exists.mpr ⟨setup, h.setup setup hsetup⟩), h.quiet hs]

def Managed (job : OutputJob σ) : Prop := ∀ setup, job.setup = some setup → setup.manager < job.managers.length

structure Yields {α : Type} (job : OutputJob σ) (answer : α → OutputJob σ → Prop)
    (x : Except TransferError α × OutputJob σ) : Prop where
  grows : job.Grows x.2
  managed : x.2.Managed
  answers : ∀ a, x.1 = .ok a → answer a x.2

section

variable {α β : Type} {Q : α → OutputJob σ → Prop} {Q' : β → OutputJob σ → Prop}

theorem yields_error (h : job.Managed) (e : TransferError) : job.Yields Q (.error e, job) := ⟨.refl job, h, nofun⟩

theorem Yields.andThen {x : Except TransferError α × OutputJob σ}
    {next : α → OutputJob σ → Except TransferError β × OutputJob σ} (h : job.Yields Q x)
    (hnext : ∀ a job₁, job.Grows job₁ → job₁.Managed → Q a job₁ → job.Yields Q' (next a job₁)) :
    job.Yields Q' (andThen x next) := by
  obtain ⟨r, job₁⟩ := x
  cases r with
  | error e => exact ⟨h.grows, h.managed, nofun⟩
  | ok a => exact hnext a job₁ h.grows h.managed (h.answers a rfl)

end

theorem prepare_yields (srv : Server σ) (options : Config.Options) (h : job.Managed) :
    job.Yields (fun setup job' => job'.setup = some setup) (job.prepare srv options) := by
  obtain ⟨setup, hsetup, hp⟩ | ⟨hnone, wire, hdrives, ⟨e, hp⟩ | ⟨layout, manager, hp⟩⟩ := prepare_cases srv options job
  · rw [hp]
    refine ⟨.refl job, h, fun _ heq => ?_⟩
    cases heq
    exact hsetup
  · rw [hp]
    refine ⟨⟨fun _ => id, fun _ => .inl, List.prefix_refl _, hdrives, ?_⟩, h, nofun⟩
    rw [hnone]
    exact nofun
  · rw [hp]
    refine ⟨⟨?_, ?_, List.prefix_append _ _, hdrives, ?_⟩, ?_, fun _ heq => ?_⟩
    · rw [hnone]
      exact nofun
    · rintro setup heq
      cases heq
      exact .inr (Nat.le_refl _)
    · rw [hnone]
      exact nofun
    · rintro setup heq
      cases heq
      simp
    · cases heq
      rfl

theorem check_yields (srv : Server σ) (options : Config.Options) (h : job.Managed) :
    job.Yields (fun _ job' => job'.setup.isSome = true) (job.check srv options) := by
  rw [check_eq]
  refine (prepare_yields srv options h).andThen fun setup job₁ hgrows hmanaged hsetup => ⟨hgrows, hmanaged, fun _ _ => ?_⟩
  rw [hsetup]
  rfl

/-- The manager of a task: that of the job if they are in one process, and otherwise a new one for the layout
that is handed over or, failing that, the job has been set up with. -/
def Assigns (options : Config.Options) (config : Config.Output) (job : OutputJob σ) (i : Nat) (job' : OutputJob σ) :
    Prop :=
  match config.mode with
  | .inProcess => ∃ setup, job'.setup = some setup ∧ i = setup.manager
  | .distributed => ∃ layout manager,
      (handedOver? options = .ok (some layout) ∨ handedOver? options = .ok none ∧ job'.layout? = some layout) ∧
      managerFor config layout = .ok manager ∧ job'.managers[i]? = some manager ∧ job.managers.length ≤ i ∧
      ∀ setup, job'.setup = some setup → setup.manager ≠ i

theorem own_yields (hmode : config.mode = .distributed) (hgrows : job.Grows job') (hmanaged : job'.Managed)
    {layout : Discovery.Layout}
    (hlayout : handedOver? options = .ok (some layout) ∨ handedOver? options = .ok none ∧ job'.layout? = some layout) :
    job.Yields (fun a => Assigns options config job a.1) (own config layout job') := by
  unfold own
  cases hm : managerFor config layout with
  | error e => exact ⟨hgrows, hmanaged, nofun⟩
  | ok manager =>
    refine ⟨hgrows.trans ⟨fun _ => id, fun _ => .inl, List.prefix_append _ _, .of_same rfl rfl rfl, fun _ => rfl⟩,
      ?_, ?_⟩
    · intro setup hs
      have hlt := hmanaged setup hs
      simp only [List.length_append, List.length_singleton]
      omega
    · intro a heq
      cases heq
      unfold Assigns
      rw [hmode]
      refine ⟨layout, manager, hlayout, hm, List.getElem?_concat_length, hgrows.managers.length_le, fun setup hs => ?_⟩
      exact Nat.ne_of_lt (hmanaged setup hs)

theorem assignment_yields (srv : Server σ) (options : Config.Options) (config : Config.Output) (h : job.Managed) :
    job.Yields (fun a => Assigns options config job a.1) (job.assignment srv options config) := by
  have hprepare := prepare_yields srv options h
  rw [assignment_eq]
  cases hmode : config.mode with
  | inProcess =>
    refine hprepare.andThen fun setup job₁ hgrows hmanaged hsetup => ⟨hgrows, hmanaged, fun a heq => ?_⟩
    cases heq
    unfold Assigns
    rw [hmode]
    exact ⟨setup, hsetup, rfl⟩
  | distributed =>
    dsimp only
    split
    · exact yields_error h _
    · next layout hhanded => exact own_yields hmode (.refl job) h (.inl hhanded)
    · next hnone =>
      refine hprepare.andThen fun setup job₁ hgrows hmanaged hsetup => own_yields hmode hgrows hmanaged (.inr ⟨hnone, ?_⟩)
      rw [layout?, hsetup]
      rfl

theorem startTask_yields (srv : Server σ) (options : Config.Options) (number : Nat) (h : job.Managed) :
    job.Yields (fun task job' => ∃ config, Config.Output.ofOptions options = .ok config ∧
        Assigns options config job task.manager job' ∧ task.manager < job'.managers.length)
      (job.startTask srv options number) := by
  rw [startTask_eq]
  cases hconfig : Config.Output.ofOptions options with
  | error e =>
    dsimp only
    exact yields_error h e
  | ok config =>
    dsimp only
    refine (assignment_yields srv options config h).andThen fun a job₁ hgrows hmanaged hassigns => ?_
    unfold employ
    split
    · exact ⟨hgrows, hmanaged, fun _ heq => by cases heq⟩
    · next manager hm =>
      refine ⟨hgrows, hmanaged, fun task heq => ?_⟩
      cases hw : Writer.new config a.2 manager number with
      | error e =>
        rw [hw] at heq
        cases heq
      | ok writer =>
        rw [hw] at heq
        cases heq
        exact ⟨config, rfl, hassigns, (List.getElem?_eq_some_iff.mp hm).1⟩

theorem check_set {setup : Setup} (h : job.setup = some setup) (srv : Server σ) (options : Config.Options) :
    job.check srv options = (.ok (), job) := by
  rw [check_eq, prepare, h]
  rfl

/-- Two requests come to the same, as far as their answers are looked at. -/
structure Concurs {α β : Type} (view : α → OutputJob σ → β) (x y : Except TransferError α × OutputJob σ) : Prop where
  answer : (x.1.map fun a => view a x.2) = y.1.map fun a => view a y.2
  wire : x.2.wire = y.2.wire
  layout : x.2.layout? = y.2.layout?

theorem Concurs.andThen {α α' β β' : Type} {view : α → OutputJob σ → β} {view' : α' → OutputJob σ → β'}
    {x y : Except TransferError α × OutputJob σ} {next next' : α → OutputJob σ → Except TransferError α' × OutputJob σ}
    (h : Concurs view x y) (hnext : ∀ a a' job job', view a job = view a' job' → job.wire = job'.wire →
      job.layout? = job'.layout? → Concurs view' (next a job) (next' a' job')) :
    Concurs view' (andThen x next) (andThen y next') := by
  obtain ⟨hanswer, hwire, hlayout⟩ := h
  rcases x with ⟨e | a, job⟩
  · rcases y with ⟨e' | a', job'⟩
    · exact ⟨congrArg Except.error (Except.error.inj hanswer), hwire, hlayout⟩
    · cases hanswer
  · rcases y with ⟨e' | a', job'⟩
    · cases hanswer
    · exact hnext a a' job job' (Except.ok.inj hanswer) hwire hlayout

/-- A request to a job, each with options of its own, or a step of the writer of a task. -/
inductive Request (σ : Type) where
  | check (options : Config.Options)
  | startTask (options : Config.Options) (number : Nat)
  | handOver (options : Config.Options)
  | work (task : Nat) (step : Writer → Site σ → Writer.Step σ Unit)

/-- A job with the tasks that it has started and the settings of each. -/
structure Course (σ : Type) where
  job : OutputJob σ
  tasks : List (Config.Output × Task)

namespace Course

def new (state : σ) : Course σ := ⟨.new state, []⟩

def step (srv : Server σ) (c : Course σ) : Request σ → Course σ
  | .check options => { c with job := (c.job.check srv options).2 }
  | .startTask options number =>
    match c.job.startTask srv options number, Config.Output.ofOptions options with
    | (.ok task, job), .ok config => ⟨job, c.tasks ++ [(config, task)]⟩
    | (_, job), _ => { c with job := job }
  | .handOver _ => c
  | .work k step =>
    match c.tasks[k]? with
    | none => c
    | some (config, task) =>
      match withTask step task c.job with
      | some (_, task, job) => ⟨job, c.tasks.set k (config, task)⟩
      | none => c

def follow (srv : Server σ) (requests : List (Request σ)) (c : Course σ) : Course σ := requests.foldl (step srv) c

/-- What is known of each task: whether it is in the process of the job, and which manager it has. -/
def posts (c : Course σ) : List (Config.Mode × Nat) := c.tasks.map fun t => (t.1.mode, t.2.manager)

/-- Tasks in the process of the job have the manager that it is set up with, and others have one each. -/
structure Kept (c : Course σ) : Prop where
  managed : c.job.Managed
  posts : ∀ p ∈ c.posts, p.2 < c.job.managers.length
  shared : ∀ p ∈ c.posts, p.1 = .inProcess → ∃ setup, c.job.setup = some setup ∧ p.2 = setup.manager
  apart : ∀ p ∈ c.posts, p.1 = .distributed → ∀ setup, c.job.setup = some setup → setup.manager ≠ p.2
  alone : c.posts.Pairwise fun p p' => p.1 = .distributed ∨ p'.1 = .distributed → p.2 ≠ p'.2

variable {c : Course σ}

theorem Kept.grow (h : c.Kept) (hgrows : c.job.Grows job') (hmanaged : job'.Managed) :
    Kept { c with job := job' } where
  managed := hmanaged
  posts p hp := Nat.lt_of_lt_of_le (h.posts p hp) hgrows.managers.length_le
  shared p hp hmode := by
    obtain ⟨setup, hsetup, heq⟩ := h.shared p hp hmode
    exact ⟨setup, hgrows.setup setup hsetup, heq⟩
  apart p hp hmode setup hsetup := by
    obtain hbefore | hlate := hgrows.late setup hsetup
    · exact h.apart p hp hmode setup hbefore
    · exact Nat.ne_of_gt (Nat.lt_of_lt_of_le (h.posts p hp) hlate)
  alone := h.alone

theorem Kept.join (h : c.Kept) (hgrows : c.job.Grows job') (hmanaged : job'.Managed) {task : Task}
    (hassigns : Assigns options config c.job task.manager job') (hlt : task.manager < job'.managers.length) :
    Kept ⟨job', c.tasks ++ [(config, task)]⟩ := by
  have hgrown := h.grow hgrows hmanaged
  have hposts : Course.posts ⟨job', c.tasks ++ [(config, task)]⟩ = c.posts ++ [(config.mode, task.manager)] := by
    simp [Course.posts]
  unfold Assigns at hassigns
  refine ⟨hmanaged, ?_, ?_, ?_, ?_⟩
  all_goals rw [hposts]
  · intro p hp
    obtain hp | hp := List.mem_append.mp hp
    · exact hgrown.posts p hp
    · rw [List.mem_singleton.mp hp]
      exact hlt
  · intro p hp hmode
    obtain hp | hp := List.mem_append.mp hp
    · exact hgrown.shared p hp hmode
    · rw [List.mem_singleton.mp hp] at hmode ⊢
      have hmode : config.mode = .inProcess := hmode
      rw [hmode] at hassigns
      exact hassigns
  · intro p hp hmode
    obtain hp | hp := List.mem_append.mp hp
    · exact hgrown.apart p hp hmode
    · rw [List.mem_singleton.mp hp] at hmode ⊢
      have hmode : config.mode = .distributed := hmode
      rw [hmode] at hassigns
      obtain ⟨-, -, -, -, -, -, hapart⟩ := hassigns
      exact hapart
  · refine List.pairwise_append.mpr ⟨h.alone, List.pairwise_singleton _ _, fun p hp p' hp' hmodes => ?_⟩
    obtain rfl := List.mem_singleton.mp hp'
    cases hmode : config.mode with
    | inProcess =>
      rw [hmode] at hassigns hmodes
      obtain ⟨setup, hsetup, heq⟩ := hassigns
      obtain hdistributed | hdistributed := hmodes
      · rw [heq]
        exact (hgrown.apart p hp hdistributed setup hsetup).symm
      · cases hdistributed
    | distributed =>
      rw [hmode] at hassigns
      obtain ⟨-, -, -, -, -, hlate, -⟩ := hassigns
      exact Nat.ne_of_lt (Nat.lt_of_lt_of_le (h.posts p hp) hlate)

theorem step_work (srv : Server σ) {k : Nat} {config : Config.Output} {task : Task} {m : Placement.Manager}
    (htask : c.tasks[k]? = some (config, task)) (hm : c.job.managers[task.manager]? = some m)
    (step : Writer → Site σ → Writer.Step σ Unit) :
    c.step srv (.work k step) =
      let done := step task.writer ⟨m, c.job.counters, c.job.wire⟩
      ⟨{ c.job with
          managers := c.job.managers.set task.manager done.2.2.manager
          counters := done.2.2.counters
          wire := done.2.2.wire },
        c.tasks.set k (config, { task with writer := done.2.1 })⟩ := by
  simp only [Course.step, htask, withTask, hm, Option.map_some]

theorem posts_work {k : Nat} {config : Config.Output} {task : Task} (htask : c.tasks[k]? = some (config, task))
    (job : OutputJob σ) (writer : Writer) :
    posts ⟨job, c.tasks.set k (config, { task with writer := writer })⟩ = c.posts := by
  obtain ⟨hk, hat⟩ := List.getElem?_eq_some_iff.mp htask
  have hlt : k < (c.tasks.map fun t => (t.1.mode, t.2.manager)).length := by rwa [List.length_map]
  have hsame : (config.mode, task.manager) = (c.tasks.map fun t => (t.1.mode, t.2.manager))[k] := by
    rw [List.getElem_map, hat]
  unfold posts
  rw [List.map_set, hsame, List.set_getElem_self]

theorem Kept.step (h : c.Kept) (srv : Server σ) (request : Request σ) : (c.step srv request).Kept := by
  cases request with
  | check options =>
    have hcheck := check_yields srv options h.managed
    exact h.grow hcheck.grows hcheck.managed
  | startTask options number =>
    obtain ⟨hgrows, hmanaged, hanswers⟩ := startTask_yields srv options number h.managed
    dsimp only [Course.step]
    split
    · next task job config hs hconfig =>
      rw [hs] at hgrows hmanaged hanswers
      obtain ⟨config', hconfig', hassigns, hlt⟩ := hanswers task rfl
      cases hconfig.symm.trans hconfig'
      exact h.join hgrows hmanaged hassigns hlt
    · next hs _ =>
      rw [hs] at hgrows hmanaged
      exact h.grow hgrows hmanaged
  | handOver options => exact h
  | work k step =>
    cases htask : c.tasks[k]? with
    | none =>
      simp only [Course.step, htask]
      exact h
    | some t =>
      obtain ⟨config, task⟩ := t
      cases hm : c.job.managers[task.manager]? with
      | none =>
        simp only [Course.step, htask, withTask, hm, Option.map_none]
        exact h
      | some m =>
        rw [step_work srv htask hm]
        have hposts := posts_work htask
        refine ⟨?_, ?_, ?_, ?_, ?_⟩
        · intro setup hsetup
          simpa using h.managed setup hsetup
        all_goals rw [hposts]
        · intro p hp
          simpa using h.posts p hp
        · exact h.shared
        · exact h.apart
        · exact h.alone

theorem Kept.follow (h : c.Kept) (srv : Server σ) (requests : List (Request σ)) : (c.follow srv requests).Kept := by
  induction requests generalizing c with
  | nil => exact h
  | cons request requests ih => exact ih (h.step srv request)

theorem Kept.setup (h : c.Kept) (srv : Server σ) {setup : Setup} (hsetup : c.job.setup = some setup)
    (request : Request σ) : (c.step srv request).job.setup = some setup := by
  cases request with
  | check options =>
    dsimp only [Course.step]
    rw [check_set hsetup]
    exact hsetup
  | startTask options number =>
    have hgrows := (startTask_yields srv options number h.managed).grows
    dsimp only [Course.step]
    split
    · next hs _ =>
      rw [hs] at hgrows
      exact hgrows.setup setup hsetup
    · next hs _ =>
      rw [hs] at hgrows
      exact hgrows.setup setup hsetup
  | handOver options => exact hsetup
  | work k step =>
    dsimp only [Course.step]
    split
    · exact hsetup
    · next task _ =>
      unfold withTask
      cases c.job.managers[task.manager]? with
      | none => exact hsetup
      | some m => exact hsetup

end Course

namespace Sample

end Sample

end OutputJob

end ForestCourier
