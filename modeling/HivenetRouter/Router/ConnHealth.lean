import HivenetRouter.Framework.Machine

/-!
# Health and connections of one peer

The three handlers that change the health of an agent with its connection: the `DisconnectedF`
notifier, `handleAgentHeartbeat` and `installAgent`, for one peer and in any interleaving. A step is
one operation of the registry, one connection check, one acquisition or release of `connHealthMu`,
or the change of the health between them. Connections open and close at any time, and the notifier
runs after every close; the `ClosePeer` of its goroutine is some of these closes. An agent is an
object of its own for every registration, and healthy when it is made.

The mutex orders what is done under it, but the notifier looks the agent up **before** it takes the
mutex. While an `installAgent` has found a connection and has not yet registered its agent, such a
lookup misses that agent: it is registered as healthy after its connection has closed, and nothing
marks it (`not_settled_race`). Without a lookup at that moment (`Careful`) every healthy agent of a
peer that has no connection has a notifier on its way to it (`Inv.agent`), and so none is left when
the handlers are done (`settled_of_careful`).
-/

namespace HivenetRouter.Router

open Function Option

inductive ConnTask where
  /-- `DisconnectedF` is called. -/
  | notified
  /-- `ConnsToPeer` was empty; `Get` is next. -/
  | unconnected
  /-- `Get` has returned the agent. -/
  | leaving (agent : ℕ)
  /-- It holds the mutex, and has not marked the agent. -/
  | marking (agent : ℕ)
  | marked
  /-- A heartbeat with a valid session, and what it reports of its backend. -/
  | beat (backendHealthy : Bool)
  | beatFound (backendHealthy : Bool) (agent : ℕ)
  | beatLocked (backendHealthy : Bool) (agent : ℕ)
  /-- `peerConnected` was true. -/
  | beatConnected (backendHealthy : Bool) (agent : ℕ)
  | beatDone
  /-- `installAgent` is called. -/
  | install
  | installLocked
  /-- `peerConnected` has been read; an agent without a connection is not healthy. -/
  | installChecked (connected : Bool)
  | installed

/-- The handler holds `connHealthMu`. -/
def ConnTask.holdsMu : ConnTask → Bool
  | .marking _ | .marked | .beatLocked _ _ | .beatConnected _ _ | .beatDone | .installLocked
  | .installChecked _ | .installed => true
  | _ => false

/-- What the handlers share, for one peer. -/
structure ConnHealth where
  conns : ℕ
  /-- The agent of the peer in the registry. -/
  agent : Option ℕ
  healthy : ℕ → Bool
  nextRef : ℕ
  /-- The handler that holds `connHealthMu`. -/
  mu : Option ℕ
  tasks : ℕ → Option ConnTask

inductive ConnAct where
  | connect
  /-- A connection closes, and the notifier is called. -/
  | close (pid : ℕ)
  | receiveHeartbeat (pid : ℕ) (backendHealthy : Bool)
  | callInstall (pid : ℕ)
  /-- A handler takes its next step. -/
  | advance (pid : ℕ)

namespace ConnHealth

def setTask (s : ConnHealth) (pid : ℕ) (task : Option ConnTask) : ConnHealth :=
  { s with tasks := update s.tasks pid task }

def call (s : ConnHealth) (pid : ℕ) (task : ConnTask) : Option ConnHealth :=
  if s.tasks pid = none then some (s.setTask pid (some task)) else none

def lock (s : ConnHealth) (pid : ℕ) (task : ConnTask) : Option ConnHealth :=
  if s.mu = none then some ({ s with mu := some pid }.setTask pid (some task)) else none

/-- `connHealthMu.Unlock`, and the handler returns. -/
def unlock (s : ConnHealth) (pid : ℕ) : ConnHealth := { s with mu := none }.setTask pid none

def advance (s : ConnHealth) (pid : ℕ) : ConnTask → Option ConnHealth
  | .notified => some (s.setTask pid (if s.conns = 0 then some .unconnected else none))
  | .unconnected => some (s.setTask pid (s.agent.map .leaving))
  | .leaving a => s.lock pid (.marking a)
  | .marking a => some ({ s with healthy := update s.healthy a false }.setTask pid (some .marked))
  | .beat b => some (s.setTask pid (s.agent.map (.beatFound b)))
  | .beatFound b a => s.lock pid (.beatLocked b a)
  | .beatLocked b a =>
    some (s.setTask pid (some (if s.conns = 0 then .beatDone else .beatConnected b a)))
  | .beatConnected b a =>
    some ({ s with healthy := update s.healthy a b }.setTask pid (some .beatDone))
  | .install => s.lock pid .installLocked
  | .installLocked => some (s.setTask pid (some (.installChecked (s.conns ≠ 0))))
  | .installChecked connected =>
    some ({ s with
      agent := some s.nextRef
      healthy := update s.healthy s.nextRef connected
      nextRef := s.nextRef + 1 }.setTask pid (some .installed))
  | .marked | .beatDone | .installed => some (s.unlock pid)

def step (s : ConnHealth) : ConnAct → Option ConnHealth
  | .connect => some { s with conns := s.conns + 1 }
  | .close pid => if s.conns = 0 then none else { s with conns := s.conns - 1 }.call pid .notified
  | .receiveHeartbeat pid b => s.call pid (.beat b)
  | .callInstall pid => s.call pid .install
  | .advance pid => (s.tasks pid).bind (s.advance pid)

/-- The router has just started. -/
structure Start (s : ConnHealth) : Prop where
  agent : s.agent = none
  mu : s.mu = none
  tasks : ∀ pid, s.tasks pid = none

/-- **A peer that has no connection has no healthy agent**, when no handler is in progress. -/
def Settled (s : ConnHealth) : Prop :=
  (∀ pid, s.tasks pid = none) → s.conns = 0 → ∀ a, s.agent = some a → s.healthy a = false

/-- The step is not a lookup of the notifier, for a peer without a connection, while an
`installAgent` that found one has not registered its agent. -/
def Careful (s : ConnHealth) : ConnAct → Prop
  | .advance pid => s.tasks pid = some .unconnected → s.conns = 0 →
      ∀ pid', s.tasks pid' ≠ some (.installChecked true)
  | _ => True

end ConnHealth

def connHealth : Machine ConnHealth ConnAct where
  Init := ConnHealth.Start
  step := ConnHealth.step

namespace ConnHealth

/-! ### The invariant -/

/-- A notifier that has not looked the agent up. -/
def Coming (tasks : ℕ → Option ConnTask) : Prop :=
  ∃ pid, tasks pid = some .notified ∨ tasks pid = some .unconnected

/-- A notifier that will mark the agent, if that is the one in the registry. -/
def Pursued (tasks : ℕ → Option ConnTask) (a : ℕ) : Prop :=
  Coming tasks ∨ ∃ pid, tasks pid = some (.leaving a) ∨ tasks pid = some (.marking a)

/-- The invariant of careful runs: without a connection, a healthy agent in the registry is pursued
by a notifier that will mark it, and so is each handler that would make it healthy. -/
structure Inv (s : ConnHealth) : Prop where
  mu : ∀ pid task, s.tasks pid = some task → task.holdsMu = true → s.mu = some pid
  agent : s.conns = 0 → ∀ a, s.agent = some a → s.healthy a = true → Pursued s.tasks a
  /-- An `installAgent` that found a connection: if it has closed since, its notifier has not
  looked. -/
  install : s.conns = 0 → ∀ pid, s.tasks pid = some (.installChecked true) → Coming s.tasks
  /-- A heartbeat that found a connection, for the agent in the registry. -/
  beat : s.conns = 0 → ∀ pid b a, s.tasks pid = some (.beatConnected b a) → s.agent = some a →
    Pursued s.tasks a

variable {s t : ConnHealth} {pid : ℕ} {task : ConnTask} {tasks : ℕ → Option ConnTask} {a pid' : ℕ}

/-- A notifier stays on its way while other handlers move. -/
theorem coming_update (h : Coming tasks) (hn : tasks pid ≠ some .notified)
    (hu : tasks pid ≠ some .unconnected) (x : Option ConnTask) : Coming (update tasks pid x) := by
  obtain ⟨pid', hpid'⟩ := h
  have hne : pid' ≠ pid := by
    rintro rfl
    exact hpid'.elim hn hu
  exact ⟨pid', by rwa [update_of_ne hne]⟩

theorem pursued_update (h : Pursued tasks a) (hn : tasks pid ≠ some .notified)
    (hu : tasks pid ≠ some .unconnected) (hl : tasks pid ≠ some (.leaving a))
    (hm : tasks pid ≠ some (.marking a)) (x : Option ConnTask) :
    Pursued (update tasks pid x) a := by
  rcases h with hcoming | ⟨pid', hpid'⟩
  · exact .inl (coming_update hcoming hn hu x)
  · have hne : pid' ≠ pid := by
      rintro rfl
      exact hpid'.elim hl hm
    exact .inr ⟨pid', by rwa [update_of_ne hne]⟩

variable {x : Option ConnTask} {task' : ConnTask}

/-- A task that the moved handler does not have now is one that another had before. -/
theorem task_of_update (h : update tasks pid x pid' = some task) (hx : x ≠ some task) :
    pid' ≠ pid ∧ tasks pid' = some task := by
  have hne : pid' ≠ pid := by
    rintro rfl
    rw [update_self] at h
    exact hx h
  rw [update_of_ne hne] at h
  exact ⟨hne, h⟩

theorem coming_notified (tasks : ℕ → Option ConnTask) (pid : ℕ) :
    Coming (update tasks pid (some .notified)) := ⟨pid, .inl (update_self ..)⟩

theorem inv_start (h : s.Start) : s.Inv where
  mu pid task htask := by
    rw [h.tasks pid] at htask
    cases htask
  agent _ a ha := by
    rw [h.agent] at ha
    cases ha
  install _ pid htask := by
    rw [h.tasks pid] at htask
    cases htask
  beat _ pid b a htask := by
    rw [h.tasks pid] at htask
    cases htask

/-- Two handlers do not hold the mutex at a time. -/
theorem Inv.eq_of_holdsMu (h : s.Inv) (htask : s.tasks pid = some task)
    (htask' : s.tasks pid' = some task') (hmu : task.holdsMu = true) (hmu' : task'.holdsMu = true) :
    pid' = pid :=
  some.inj ((h.mu pid' task' htask' hmu').symm.trans (h.mu pid task htask hmu))

/-- What a step leaves of the mutex: its owner is the handler that moved, or the one it was. -/
def MuKept (s t : ConnHealth) (pid : ℕ) (x : Option ConnTask) : Prop :=
  (∀ task ∈ x, task.holdsMu = true → t.mu = some pid) ∧
    ∀ pid' ≠ pid, s.mu = some pid' → t.mu = some pid'

theorem Inv.mu_of_kept (h : s.Inv) (hkept : MuKept s t pid x)
    (htasks : t.tasks = update s.tasks pid x) :
    ∀ pid' task, t.tasks pid' = some task → task.holdsMu = true → t.mu = some pid' := by
  intro pid' task htask hholds
  rw [htasks] at htask
  by_cases hpid : pid' = pid
  · subst hpid
    rw [update_self] at htask
    exact hkept.1 task htask hholds
  · rw [update_of_ne hpid] at htask
    exact hkept.2 pid' hpid (h.mu pid' task htask hholds)

/-- The handler is no notifier on its way. -/
def Aside (s : ConnHealth) (pid : ℕ) : Prop :=
  ∀ task ∈ s.tasks pid, task ≠ .notified ∧ task ≠ .unconnected ∧
    ∀ a, task ≠ .leaving a ∧ task ≠ .marking a

theorem Aside.coming (h : s.Aside pid) (x : Option ConnTask) (hcoming : Coming s.tasks) :
    Coming (update s.tasks pid x) :=
  coming_update hcoming (fun hn => (h _ hn).1 rfl) (fun hu => (h _ hu).2.1 rfl) x

theorem Aside.pursued (h : s.Aside pid) (x : Option ConnTask) (hpursued : Pursued s.tasks a) :
    Pursued (update s.tasks pid x) a :=
  pursued_update hpursued (fun hn => (h _ hn).1 rfl) (fun hu => (h _ hu).2.1 rfl)
    (fun hl => ((h _ hl).2.2 a).1 rfl) (fun hm => ((h _ hm).2.2 a).2 rfl) x

/-- A handler that is no notifier moves, and neither registers nor changes the health; if it has
found a connection, there is one. -/
theorem Inv.of_aside (h : s.Inv) (haside : s.Aside pid) (hkept : MuKept s t pid x)
    (hconns : t.conns = s.conns) (hagent : t.agent = s.agent) (hhealthy : t.healthy = s.healthy)
    (htasks : t.tasks = update s.tasks pid x)
    (hinstall : s.conns = 0 → x ≠ some (.installChecked true))
    (hbeat : s.conns = 0 → ∀ b a, x ≠ some (.beatConnected b a)) : t.Inv := by
  refine ⟨h.mu_of_kept hkept htasks, ?_, ?_, ?_⟩ <;> rw [hconns, htasks] <;> intro hzero
  · rw [hagent, hhealthy]
    intro a ha hhealthy
    exact haside.pursued x (h.agent hzero a ha hhealthy)
  · intro pid' htask
    obtain ⟨-, hbefore⟩ := task_of_update htask (hinstall hzero)
    exact haside.coming x (h.install hzero pid' hbefore)
  · rw [hagent]
    intro pid' b a htask ha
    obtain ⟨-, hbefore⟩ := task_of_update htask (hbeat hzero b a)
    exact haside.pursued x (h.beat hzero pid' b a hbefore ha)

theorem aside_of_task (htask : s.tasks pid = some task) (h : task ≠ .notified ∧
    task ≠ .unconnected ∧ ∀ a, task ≠ .leaving a ∧ task ≠ .marking a) : s.Aside pid := by
  intro task' htask'
  rw [htask] at htask'
  cases htask'
  exact h

theorem Inv.call (h : s.Inv) (hcall : s.call pid task = some t) (hmu : task.holdsMu = false) :
    t.Inv := by
  obtain ⟨hfree, rfl⟩ := by simpa [ConnHealth.call] using hcall
  have haside : s.Aside pid := fun task' htask' => by
    rw [hfree] at htask'
    cases htask'
  have hkept : MuKept s (s.setTask pid (some task)) pid (some task) := by
    refine ⟨fun task' htask' hholds => ?_, fun _ _ hpid => hpid⟩
    cases htask'
    rw [hmu] at hholds
    cases hholds
  refine h.of_aside haside hkept rfl rfl rfl rfl (fun _ => ?_) (fun _ b a => ?_)
  all_goals
    rintro ⟨⟩
    cases hmu

theorem Inv.close (h : s.Inv)
    (hstep : { s with conns := s.conns - 1 }.call pid .notified = some t) : t.Inv := by
  obtain ⟨hfree, rfl⟩ := by simpa [ConnHealth.call] using hstep
  have hcoming : Coming (update s.tasks pid (some .notified)) := coming_notified s.tasks pid
  refine ⟨?_, fun _ a _ _ => .inl hcoming, fun _ _ _ => hcoming, fun _ _ _ _ _ _ => .inl hcoming⟩
  refine h.mu_of_kept (x := some .notified) ⟨fun task htask hholds => ?_, fun _ _ hmu => hmu⟩ rfl
  cases htask
  cases hholds

/-! ### The steps of the notifier -/

section

variable (h : s.Inv)

include h

theorem Inv.notified (pid : ℕ) :
    (s.setTask pid (if s.conns = 0 then some .unconnected else none)).Inv := by
  have hkept : MuKept s (s.setTask pid (if s.conns = 0 then some .unconnected else none)) pid
      (if s.conns = 0 then some .unconnected else none) := by
    refine ⟨fun task htask hholds => ?_, fun _ _ hmu => hmu⟩
    split at htask <;> cases htask
    cases hholds
  refine ⟨h.mu_of_kept hkept rfl, ?_, ?_, ?_⟩
  all_goals
    intro hzero
    have hcoming : Coming (s.setTask pid (if s.conns = 0 then some .unconnected else none)).tasks :=
      ⟨pid, .inr (by simp [setTask, show s.conns = 0 from hzero])⟩
  · exact fun a _ _ => .inl hcoming
  · exact fun _ _ => hcoming
  · exact fun _ _ a _ _ => .inl hcoming

/-- The notifier looks the agent up: carefully, it leaves no `installAgent` behind. -/
theorem Inv.unconnected (htask : s.tasks pid = some .unconnected)
    (hcareful : s.Careful (.advance pid)) : (s.setTask pid (s.agent.map .leaving)).Inv := by
  have hkept : MuKept s (s.setTask pid (s.agent.map .leaving)) pid (s.agent.map .leaving) := by
    refine ⟨fun task htask hholds => ?_, fun _ _ hmu => hmu⟩
    obtain ⟨a, -, rfl⟩ := map_eq_some_iff.mp htask
    cases hholds
  have hleaving : ∀ a, s.agent = some a →
      Pursued (s.setTask pid (s.agent.map .leaving)).tasks a := by
    intro a ha
    exact .inr ⟨pid, .inl (by simp [setTask, ha])⟩
  refine ⟨h.mu_of_kept hkept rfl, fun _ a ha _ => hleaving a ha, fun hzero pid' htask' => ?_,
    fun _ _ _ a _ ha => hleaving a ha⟩
  have hx : s.agent.map ConnTask.leaving ≠ some (.installChecked true) := by
    intro hx
    obtain ⟨a, -, ha⟩ := map_eq_some_iff.mp hx
    cases ha
  obtain ⟨-, hbefore⟩ := task_of_update htask' hx
  exact absurd hbefore (hcareful htask hzero pid')

theorem Inv.leaving (htask : s.tasks pid = some (.leaving a)) (hmu : s.mu = none) :
    ({ s with mu := some pid }.setTask pid (some (.marking a))).Inv := by
  -- the notifier still pursues the agent, now with the mutex
  have hpursued : ∀ a', Pursued s.tasks a' →
      Pursued (update s.tasks pid (some (.marking a))) a' := by
    rintro a' (hcoming | ⟨pid', hpid'⟩)
    · exact .inl (coming_update hcoming (by simp [htask]) (by simp [htask]) _)
    · by_cases hpid : pid' = pid
      · subst hpid
        rw [htask] at hpid'
        obtain rfl : a = a' := by simpa using hpid'
        exact .inr ⟨pid', .inr (update_self ..)⟩
      · exact .inr ⟨pid', by rwa [update_of_ne hpid]⟩
  refine ⟨?_, ?_, ?_, ?_⟩
  · refine h.mu_of_kept (x := some (.marking a)) ⟨fun _ _ _ => rfl, fun _ _ hother => ?_⟩ rfl
    rw [hmu] at hother
    cases hother
  · exact fun hzero a' ha' hhealthy => hpursued a' (h.agent hzero a' ha' hhealthy)
  · intro hzero pid' htask'
    obtain ⟨-, hbefore⟩ := task_of_update htask' (by simp)
    exact coming_update (h.install hzero pid' hbefore) (by simp [htask]) (by simp [htask]) _
  · intro hzero pid' b a' htask' ha'
    obtain ⟨-, hbefore⟩ := task_of_update htask' (by simp)
    exact hpursued a' (h.beat hzero pid' b a' hbefore ha')

/-- The handler that holds the mutex writes, and goes on to `x`: nobody else is about to write. -/
theorem Inv.of_write {x : ConnTask} (htask : s.tasks pid = some task)
    (hholds : task.holdsMu = true) (htasks : t.tasks = update s.tasks pid (some x))
      (hmu : t.mu = s.mu)
    (hagent : t.conns = 0 → ∀ a, t.agent = some a → t.healthy a = true → Pursued t.tasks a)
    (hinstall : x ≠ .installChecked true) (hbeat : ∀ b a, x ≠ .beatConnected b a) : t.Inv := by
  have hown : t.mu = some pid := hmu.trans (h.mu pid _ htask hholds)
  have hnone : ∀ {pid' task'}, t.tasks pid' = some task' → x ≠ task' → task'.holdsMu ≠ true := by
    intro pid' task' htask' hne hholds'
    rw [htasks] at htask'
    obtain ⟨hpid, hbefore⟩ := task_of_update htask' fun heq => hne (some.inj heq)
    exact hpid (h.eq_of_holdsMu htask hbefore hholds hholds')
  refine ⟨?_, hagent, ?_, ?_⟩
  · exact h.mu_of_kept ⟨fun _ _ _ => hown, fun _ _ hother => hmu.trans hother⟩ htasks
  · exact fun _ pid' htask' => absurd rfl (hnone htask' hinstall)
  · exact fun _ pid' b a htask' _ => absurd rfl (hnone htask' (hbeat b a))

/-- The notifier marks the agent: it is pursued no longer, and needs not be. -/
theorem Inv.marking (htask : s.tasks pid = some (.marking a)) :
    ({ s with healthy := update s.healthy a false }.setTask pid (some .marked)).Inv := by
  refine h.of_write htask rfl rfl rfl ?_ nofun nofun
  intro hzero a' ha' hhealthy
  have hne : a' ≠ a := by
    rintro rfl
    cases (update_self ..).symm.trans hhealthy
  have hbefore := h.agent hzero a' ha' ((update_of_ne hne ..).symm.trans hhealthy)
  exact pursued_update hbefore (by simp [htask]) (by simp [htask]) (by simp [htask])
    (by simp [htask, hne.symm]) _

end

/-! ### The steps that write under the mutex -/

/-- A heartbeat writes the health: if the connection has closed, the agent is pursued. -/
theorem Inv.beatConnected (h : s.Inv) {b : Bool} (htask : s.tasks pid = some (.beatConnected b a)) :
    ({ s with healthy := update s.healthy a b }.setTask pid (some .beatDone)).Inv := by
  have haside : s.Aside pid := aside_of_task htask (by simp)
  refine h.of_write htask rfl rfl rfl ?_ nofun nofun
  intro hzero a' ha' hhealthy
  by_cases haa : a' = a
  · subst haa
    exact haside.pursued _ (h.beat hzero pid b a' htask ha')
  · exact haside.pursued _ (h.agent hzero a' ha' ((update_of_ne haa ..).symm.trans hhealthy))

/-- An agent is registered: if it is healthy and the connection has closed, a notifier comes. -/
theorem Inv.installChecked (h : s.Inv) {connected : Bool}
    (htask : s.tasks pid = some (.installChecked connected)) :
    ({ s with
      agent := some s.nextRef
      healthy := update s.healthy s.nextRef connected
      nextRef := s.nextRef + 1 }.setTask pid (some .installed)).Inv := by
  have haside : s.Aside pid := aside_of_task htask (by simp)
  refine h.of_write htask rfl rfl rfl ?_ nofun nofun
  intro hzero a ha hhealthy
  obtain rfl : s.nextRef = a := some.inj ha
  obtain rfl : connected = true := (update_self ..).symm.trans hhealthy
  exact .inl (haside.coming _ (h.install hzero pid htask))

/-! ### The other steps -/

section

variable (h : s.Inv)

include h

theorem Inv.lock (haside : s.Aside pid) (hlock : s.lock pid task' = some t)
    (hinstall : task' ≠ .installChecked true) (hbeat : ∀ b a, task' ≠ .beatConnected b a) :
    t.Inv := by
  obtain ⟨hmu, rfl⟩ := by simpa [ConnHealth.lock] using hlock
  refine h.of_aside haside (x := some task') ⟨fun _ _ _ => rfl, fun _ _ hother => ?_⟩ rfl rfl rfl
    rfl (fun _ hx => hinstall (some.inj hx)) (fun _ b a hx => hbeat b a (some.inj hx))
  rw [hmu] at hother
  cases hother

section

variable (htask : s.tasks pid = some task)

include htask

theorem Inv.unlock (haside : s.Aside pid)
    (hholds : task.holdsMu = true) : (s.unlock pid).Inv := by
  have hmu : s.mu = some pid := h.mu pid task htask hholds
  refine h.of_aside haside (x := none) ⟨nofun, fun pid' hne hother => ?_⟩ rfl rfl rfl rfl
    (fun _ => nofun) (fun _ _ _ => nofun)
  exact absurd (mem_unique hother hmu) hne

/-- A handler under the mutex goes on, after a connection check. -/
theorem Inv.check (haside : s.Aside pid)
    (hholds : task.holdsMu = true) (hinstall : s.conns = 0 → task' ≠ .installChecked true)
    (hbeat : s.conns = 0 → ∀ b a, task' ≠ .beatConnected b a) :
    (s.setTask pid (some task')).Inv := by
  have hmu : s.mu = some pid := h.mu pid task htask hholds
  exact h.of_aside haside (x := some task') ⟨fun _ _ _ => hmu, fun _ _ hother => hother⟩ rfl rfl rfl
    rfl (fun hzero hx => hinstall hzero (some.inj hx))
    (fun hzero b a hx => hbeat hzero b a (some.inj hx))

/-- **A handler's step keeps the invariant**, if it is careful. -/
theorem Inv.advance
    (hcareful : s.Careful (.advance pid)) (hstep : s.advance pid task = some t) : t.Inv := by
  cases task with
  | notified =>
    cases hstep
    exact h.notified pid
  | unconnected =>
    cases hstep
    exact h.unconnected htask hcareful
  | leaving =>
    obtain ⟨hmu, rfl⟩ := by simpa [ConnHealth.advance, ConnHealth.lock] using hstep
    exact h.leaving htask hmu
  | marking =>
    cases hstep
    exact h.marking htask
  | beat b =>
    -- a heartbeat reads the agent without the mutex
    cases hstep
    refine h.of_aside (aside_of_task htask (by simp)) (x := s.agent.map (.beatFound b))
      ⟨fun task' htask' hholds => ?_, fun _ _ hother => hother⟩ rfl rfl rfl rfl (fun _ => by simp)
      (fun _ _ _ => by simp)
    obtain ⟨a, -, rfl⟩ := map_eq_some_iff.mp htask'
    cases hholds
  | beatFound | install => exact h.lock (aside_of_task htask (by simp)) hstep (by simp) (by simp)
  | beatLocked =>
    cases hstep
    -- the connection is looked up under the mutex, and the handler goes on if there is one
    refine h.check htask (aside_of_task htask (by simp)) rfl (fun hzero => ?_) (fun hzero => ?_)
    all_goals simp [hzero]
  | beatConnected =>
    cases hstep
    exact h.beatConnected htask
  | installLocked =>
    cases hstep
    exact h.check htask (aside_of_task htask (by simp)) rfl (fun hzero => by simp [hzero])
      (fun _ => by simp)
  | installChecked =>
    cases hstep
    exact h.installChecked htask
  | marked | beatDone | installed =>
    cases hstep
    exact h.unlock htask (aside_of_task htask (by simp)) rfl

end

/-- **A careful step keeps the invariant.** -/
theorem Inv.step {act : ConnAct} (hcareful : s.Careful act)
    (hstep : s.step act = some t) : t.Inv := by
  cases act with
  | connect =>
    cases hstep
    exact ⟨h.mu, nofun, nofun, nofun⟩
  | close =>
    obtain ⟨-, hcall⟩ := ite_none_left_eq_some.mp hstep
    exact h.close hcall
  | receiveHeartbeat | callInstall => exact h.call hstep rfl
  | advance =>
    obtain ⟨task, htask, hadvance⟩ := bind_eq_some_iff.mp hstep
    exact h.advance htask hcareful hadvance

theorem Inv.settled : s.Settled := by
  intro hidle hzero a ha
  by_contra hhealthy
  rcases h.agent hzero a ha (by simpa using hhealthy) with ⟨pid, hpid⟩ | ⟨pid, hpid⟩ <;>
    simp [hidle pid] at hpid

end

/-! ### The race -/

/-- The notifier `d` is about to look the agent up, while the `installAgent` `i`, which found a
connection, has not registered its agent; no other handler is in progress. -/
structure Race (s : ConnHealth) (d i : ℕ) : Prop where
  notifier : s.tasks d = some .unconnected
  install : s.tasks i = some (.installChecked true)
  alone : ∀ pid, pid ≠ d → pid ≠ i → s.tasks pid = none
  conns : s.conns = 0
  mu : s.mu = some i
  fresh : ∀ a, s.agent = some a → a < s.nextRef

theorem not_settled (htasks : ∀ pid, s.tasks pid = none) (hconns : s.conns = 0)
    (ha : s.agent = some a) (hhealthy : s.healthy a = true) : ¬s.Settled := by
  intro hsettled
  rw [hsettled htasks hconns a ha] at hhealthy
  cases hhealthy

/-- **From every such state** the two handlers alone leave a healthy agent without a connection. -/
theorem Race.unsettled {d i : ℕ} (h : s.Race d i) :
    ∃ acts t, connHealth.run s acts = some t ∧ ¬t.Settled := by
  have hdi : d ≠ i := by
    rintro rfl
    cases h.notifier.symm.trans h.install
  obtain ⟨conns, agent, healthy, nextRef, mu, tasks⟩ := s
  obtain ⟨hd, hi, halone, hconns, hmu, hfresh⟩ := h
  dsimp only at hd hi halone hconns hmu hfresh
  subst hconns hmu
  cases agent with
  | none =>
    -- the notifier finds nothing and returns
    refine ⟨[.advance d, .advance i, .advance i],
      ⟨0, some nextRef, update healthy nextRef true, nextRef + 1, none,
        update (update (update tasks d none) i (some .installed)) i none⟩, ?_,
      not_settled (fun pid => ?_) rfl rfl (update_self ..)⟩
    · simp [Machine.run, connHealth, ConnHealth.step, ConnHealth.advance, setTask,
        ConnHealth.unlock, hd, hi, hdi.symm]
    · by_cases hpi : pid = i
      · simp [hpi]
      · by_cases hpd : pid = d
        · simp [hpd, hdi]
        · simp [hpd, hpi, halone pid hpd hpi]
  | some b =>
    -- the notifier waits for the mutex, and marks the agent it has found
    have hb : nextRef ≠ b := (Nat.ne_of_lt (hfresh b rfl)).symm
    refine ⟨[.advance d, .advance i, .advance i, .advance d, .advance d, .advance d],
      ⟨0, some nextRef, update (update healthy nextRef true) b false, nextRef + 1, none,
        update (update (update (update (update (update tasks d (some (.leaving b))) i
          (some .installed)) i none) d (some (.marking b))) d (some .marked)) d none⟩, ?_,
      not_settled (fun pid => ?_) rfl rfl ?_⟩
    · simp [Machine.run, connHealth, ConnHealth.step, ConnHealth.advance, setTask,
        ConnHealth.unlock, ConnHealth.lock, hd, hi, hdi, hdi.symm]
    · by_cases hpd : pid = d
      · simp [hpd]
      · by_cases hpi : pid = i
        · simp [hpi, hdi.symm]
        · simp [hpd, hpi, halone pid hpd hpi]
    · show update (update healthy nextRef true) b false nextRef = true
      rw [update_of_ne hb, update_self]

end ConnHealth

/-- **Disconnected agents do not stay healthy**, in every run without such a lookup; and from every
state in which one is about to be made, and no third handler is in progress, a run leads to an agent
that does. -/
theorem settled_of_careful (s : ConnHealth) :
    (connHealth.ReachVia ConnHealth.Careful s → s.Settled) ∧
      ∀ d i, s.Race d i → ∃ acts t, connHealth.run s acts = some t ∧ ¬t.Settled := by
  refine ⟨fun hreach => ?_, fun d i hrace => hrace.unsettled⟩
  exact (hreach.induction (fun _ hs => ConnHealth.inv_start hs)
    fun _ _ _ hs hcareful hstep => hs.step hcareful hstep).settled

/-! ### Two runs -/

def noConnection : ConnHealth := ⟨0, none, fun _ => false, 0, none, fun _ => none⟩

theorem start_noConnection : noConnection.Start := ⟨rfl, rfl, fun _ => rfl⟩

def registering : List ConnAct := [.connect, .callInstall 0, .advance 0, .advance 0]

def closedLater : List ConnAct :=
  registering ++ [.advance 0, .advance 0, .close 1, .advance 1, .advance 1, .advance 1, .advance 1,
    .advance 1]

theorem careful_closedLater : connHealth.Along ConnHealth.Careful noConnection closedLater := by
  simp only [closedLater, registering, List.cons_append, List.nil_append, Machine.Along]
  simp only [ConnHealth.Careful, connHealth, noConnection, ConnHealth.step, Nat.zero_add,
    ConnHealth.call, ↓reduceIte, ConnHealth.setTask, update_self, some.injEq, reduceCtorEq,
    Nat.succ_ne_self, ne_eq, IsEmpty.forall_iff, bind_some,
    ConnHealth.advance, ConnHealth.lock, update_idem, not_false_eq_true, decide_true,
    ConnHealth.unlock, update_eq_self, Nat.sub_self, forall_const, map_some, and_self,
    and_true, true_and]
  -- the lookup of the notifier: the only other handler has returned
  intro pid'
  by_cases h₀ : pid' = 0 <;> by_cases h₁ : pid' = 1 <;> simp [h₀, h₁]

/-- The notifier finds the agent, which is not healthy at the end. -/
theorem settled_closedLater :
    ∃ t, connHealth.run noConnection closedLater = some t ∧ t.agent = some 0 ∧
      t.healthy 0 = false := by
  have hrun : ∃ t, connHealth.run noConnection closedLater = some t ∧ t.agent = some 0 ∧
      t.conns = 0 ∧ ∀ pid, t.tasks pid = none := by
    refine ⟨_, rfl, rfl, rfl, fun pid => ?_⟩
    by_cases h₀ : pid = 0 <;> by_cases h₁ : pid = 1 <;>
      simp [h₀, h₁, noConnection, ConnHealth.setTask, ConnHealth.unlock]
  obtain ⟨t, hrun, hagent, hconns, hidle⟩ := hrun
  have hsettled := (settled_of_careful t).1
    ⟨noConnection, closedLater, start_noConnection, careful_closedLater, hrun⟩
  exact ⟨t, hrun, hagent, hsettled hidle hconns 0 hagent⟩

def closedBefore : List ConnAct := registering ++ [.close 1, .advance 1]

/-- The notifier looks before the agent is registered, and the agent stays healthy. -/
theorem not_settled_race : ¬∀ s, connHealth.Reachable s → s.Settled := by
  intro hall
  have hrace : ∃ s, connHealth.run noConnection closedBefore = some s ∧ s.Race 1 0 := by
    refine ⟨_, rfl, rfl, rfl, fun pid h₁ h₀ => ?_, rfl, rfl, nofun⟩
    simp [h₀, h₁, noConnection, ConnHealth.setTask]
  obtain ⟨s, hrun, hrace⟩ := hrace
  obtain ⟨acts, t, hacts, hnot⟩ := hrace.unsettled
  exact hnot (hall t ⟨noConnection, closedBefore ++ acts, start_noConnection,
    Machine.run_append_eq_some.mpr ⟨s, hrun, hacts⟩⟩)

end HivenetRouter.Router
