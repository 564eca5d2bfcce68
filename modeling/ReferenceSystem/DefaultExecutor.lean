import ReferenceSystem.Executor

/-!
# Getting the next callback

`get_next_executable` with both of its tries, and the loops that use it: `spin`
and `spin_some` or `spin_all` of a single-threaded executor, with and without
callback priorities, and `run` of the multi-threaded executor without them.
Without priorities what a wait has found is tried again before the next wait.
For each wait it is recorded what it found and what the tries up to the next
one have seen and taken.
-/

namespace ReferenceSystem

/-! ## Ready handles in the order in which they are tried -/

def kinds : List Kind := [.timer, .subscription, .service, .client, .waitable]

def MemoryStrategy.handles (m : MemoryStrategy) : Kind → List Nat
  | .timer => m.timerHandles
  | .subscription => m.subscriptionHandles
  | .service => m.serviceHandles
  | .client => m.clientHandles
  | .waitable => m.waitableHandles.map (·.handle)

def MemoryStrategy.queue (m : MemoryStrategy) : List (Kind × Nat) :=
  kinds.flatMap fun k => (m.handles k).map fun handle => (k, handle)

/-- What a try sees: the objects that are alive and the timers that are cancelled. -/
structure Sight where
  alive : Alive := {}
  canceled : Nat → Bool := fun _ => false

def Sight.context (i : Sight) (callbackPriorityEnabled : Bool) (reg : Registry) (canBeTakenFrom : Nat → Bool) :
    Context :=
  ⟨callbackPriorityEnabled, reg.weakGroupsToNodes i.alive, canBeTakenFrom, i.canceled⟩

/-! ## The single-threaded executor -/

structure Try where
  sight : Sight
  taken : List (Kind × Nat)

structure Window where
  found : MemoryStrategy := {}
  tries : List Try := []

structure Spin where
  canBeTakenFrom : Nat → Bool := fun _ => true
  memoryStrategy : MemoryStrategy := {}
  -- the timers whose expiry was consumed
  consumed : List Nat := []
  executed : List (Kind × Nat) := []
  windows : List Window := []
  window : Window := {}

structure Next where
  success : Bool
  anyExecutable : AnyExecutable
  spin : Spin

section
variable (callbackPriorityEnabled : Bool) (reg : Registry)

def waitForWork (s : Spin) (collected : Alive) (ready : Kind → Nat → Bool) : Spin :=
  let found := (collectEntities (reg.weakGroupsToNodes collected) s.canBeTakenFrom).removeNullHandles ready
  { s with memoryStrategy := found, windows := s.windows ++ [s.window], window := { found } }

def getNextReadyExecutable (s : Spin) (i : Sight) (anyExec : AnyExecutable) : Next :=
  let next := getNextReadyExecutableFromMap (i.context callbackPriorityEnabled reg s.canBeTakenFrom)
    { anyExecutable := anyExec, memoryStrategy := s.memoryStrategy }
  let a := next.selection.anyExecutable
  { success := next.success
    anyExecutable := a
    spin := { s with
      canBeTakenFrom := next.canBeTakenFrom
      memoryStrategy := next.selection.memoryStrategy
      consumed := s.consumed ++ (next.selection.calls.filter (·.returned)).map (·.handle)
      window := { s.window with tries := s.window.tries ++ [⟨i, if next.success then a.callbacks else []⟩] } } }

/-- One pass of a loop: what the first try sees, what is alive when the entities
are collected, what the wait finds and the second try sees, and the values of
`spinning` after the wait and before the execution. -/
structure Pass where
  first : Sight := {}
  collected : Alive := {}
  ready : Kind → Nat → Bool := fun _ _ => false
  second : Sight := {}
  spinningAfterWait : Bool := true
  spinningBeforeExecute : Bool := true

def getNextExecutable (s : Spin) (i : Pass) : Next :=
  let first := if callbackPriorityEnabled then ⟨false, {}, s⟩
    else getNextReadyExecutable callbackPriorityEnabled reg s i.first {}
  if first.success then first
  else
    let waited := waitForWork reg first.spin i.collected i.ready
    if !i.spinningAfterWait then ⟨false, first.anyExecutable, waited⟩
    else getNextReadyExecutable callbackPriorityEnabled reg waited i.second first.anyExecutable

/-- `execute_any_executable`, where there is something to execute, and the destructor of `AnyExecutable`. -/
def Next.execute (next : Next) (spinning : Bool) : Spin :=
  { next.spin with
    canBeTakenFrom := next.anyExecutable.release next.spin.canBeTakenFrom
    executed :=
      if next.success && spinning then next.spin.executed ++ next.anyExecutable.callbacks
      else next.spin.executed }

/-- A pass of `SingleThreadedExecutor::spin`. -/
def spinPass (s : Spin) (i : Pass) : Option Spin :=
  some ((getNextExecutable callbackPriorityEnabled reg s i).execute i.spinningBeforeExecute)

structure SpinSome where
  spin : Spin := {}
  workAvailable : Bool := false
  returned : Bool := false

/-- A pass of `Executor::spin_some_impl`: whether the loop goes on, and its only try. -/
structure SomePass where
  goesOn : Bool := true
  collected : Alive := {}
  ready : Kind → Nat → Bool := fun _ _ => false
  sight : Sight := {}
  spinningBeforeExecute : Bool := true

def spinSomePass (exhaustive : Bool) (s : SpinSome) (i : SomePass) : Option SpinSome :=
  if s.returned then none
  else if !i.goesOn then some { s with returned := true }
  else
    let waited := if s.workAvailable then s.spin else waitForWork reg s.spin i.collected i.ready
    let next := getNextReadyExecutable callbackPriorityEnabled reg waited i.sight {}
    let spin := next.execute i.spinningBeforeExecute
    if next.success then some ⟨spin, true, false⟩
    else if !s.workAvailable || !exhaustive then some { s with spin, returned := true }
    else some ⟨spin, false, false⟩

end

/-- A call of `spin` or `spin_once`, or of `spin_some` or `spin_all`, with the callback groups that the executor has then. -/
inductive SpinCall where
  | spin (reg : Registry) (callbackPriorityEnabled : Bool) (passes : List Pass)
  | spinSome (reg : Registry) (callbackPriorityEnabled exhaustive : Bool) (passes : List SomePass)

def spinCall (s : Spin) : SpinCall → Option Spin
  | .spin reg callbackPriorityEnabled passes => runSteps (spinPass callbackPriorityEnabled reg) s passes
  | .spinSome reg callbackPriorityEnabled exhaustive passes =>
    (runSteps (spinSomePass callbackPriorityEnabled reg exhaustive) { spin := s } passes).map (·.spin)

/-! ## The multi-threaded executor without callback priorities -/

structure DefaultThreads extends MultiThreaded where
  -- whether the thread that waits has collected the entities
  collected : Bool := false

inductive DefaultStep where
  | tryFirst (t : Nat) (sight : Sight)
  | collect (t : Nat) (alive : Alive)
  | trySecond (t : Nat) (ready : Kind → Nat → Bool) (sight : Sight)
  | execute (t : Nat)
  | finish (t : Nat)
  | discard (t : Nat)
  | cancel

/-- What a try leaves of the executor, with a thread that has let go of the mutex. -/
def MultiThreaded.select (s : MultiThreaded) (t : Nat) (next : NextReady) : MultiThreaded :=
  { s.setThread t
      (if next.success then .selected next.selection.anyExecutable else .discarding next.selection.anyExecutable) with
    waitMutex := none
    memoryStrategy := next.selection.memoryStrategy
    canBeTakenFrom := next.canBeTakenFrom }

/-- A try is one step. Unlike with priorities the handles that the first try looks
at may be left from an earlier wait and belong to a group in use; one that another
thread releases in the middle of the try counts as released before or after it. -/
def defaultStep (reg : Registry) (s : DefaultThreads) : DefaultStep → Option DefaultThreads
  | .tryFirst t sight =>
    if s.threads[t]? = some .idle ∧ s.waitMutex = none then
      if s.spinning then
        let next := getNextReadyExecutableFromMap (sight.context false reg s.canBeTakenFrom)
          { memoryStrategy := s.memoryStrategy }
        if next.success then some { s with toMultiThreaded := s.toMultiThreaded.select t next }
        else
          -- it keeps the mutex and waits
          some { s.setThread t .waiting with
            waitMutex := some t
            memoryStrategy := next.selection.memoryStrategy
            collected := false }
      else some { s with toMultiThreaded := s.setThread t .returned }
    else none
  | .collect t alive =>
    if s.threads[t]? = some .waiting ∧ s.waitMutex = some t ∧ s.collected = false then
      some { s with
        memoryStrategy := collectEntities (reg.weakGroupsToNodes alive) s.canBeTakenFrom
        collected := true }
    else none
  | .trySecond t ready sight =>
    if s.threads[t]? = some .waiting ∧ s.waitMutex = some t ∧ s.collected = true then
      let found := s.memoryStrategy.removeNullHandles ready
      if s.spinning then
        let next := getNextReadyExecutableFromMap (sight.context false reg s.canBeTakenFrom)
          { memoryStrategy := found }
        some { s with toMultiThreaded := s.toMultiThreaded.select t next }
      else some { s.setThread t (.discarding {}) with waitMutex := none, memoryStrategy := found, collected := true }
    else none
  | .execute t =>
    match s.threads[t]? with
    | some (.selected a) =>
      some { s with toMultiThreaded := s.setThread t (if s.spinning then .executing a else .idle) }
    | _ => none
  | .finish t =>
    match s.threads[t]? with
    | some (.executing a) =>
      some { s.setThread t .idle with canBeTakenFrom := a.release s.canBeTakenFrom, collected := s.collected }
    | _ => none
  | .discard t =>
    match s.threads[t]? with
    | some (.discarding a) =>
      some { s.setThread t .idle with canBeTakenFrom := a.release s.canBeTakenFrom, collected := s.collected }
    | _ => none
  | .cancel => some { s with spinning := false }

def defaultThreads (numberOfThreads : Nat) : DefaultThreads :=
  { multiThreaded numberOfThreads with }

/-! ## Interrupting a wait -/

/-- A loop of the multi-threaded executor: the thread that takes a step, the
steps that return from `rcl_wait` and those that trigger the interrupt guard condition. -/
structure ThreadLoop (σ ε : Type) where
  step : σ → ε → Option σ
  threads : σ → MultiThreaded
  thread : ε → Option Nat
  returnsFromWait : ε → Bool
  triggers : ε → Bool

def priorityLoop (reg : Registry) : ThreadLoop MultiThreaded ThreadStep where
  step := threadStep reg
  threads := id
  thread
    | .lock t _ | .select t _ | .execute t | .finish t | .discard t => some t
    | .cancel => none
  returnsFromWait
    | .select .. => true
    | _ => false
  triggers
    | .finish _ => true
    | _ => false

def defaultLoop (reg : Registry) : ThreadLoop DefaultThreads DefaultStep where
  step := defaultStep reg
  threads := (·.toMultiThreaded)
  thread
    | .tryFirst t _ | .collect t _ | .trySecond t _ _ | .execute t | .finish t | .discard t => some t
    | .cancel => none
  returnsFromWait
    | .trySecond .. => true
    | _ => false
  triggers
    | .finish _ => true
    | _ => false

structure Interruptible (σ : Type) where
  loop : σ
  -- the interrupt guard condition has been triggered since the last wait
  triggered : Bool := false

/-- A step of the loop, and whether `rcl_wait` has found anything other than the
interrupt guard condition; or a trigger, as the last step of `Executor::cancel` or on another change. -/
inductive InterruptStep (ε : Type) where
  | step (e : ε) (found : Bool)
  | trigger

def InterruptStep.thread {σ ε : Type} (l : ThreadLoop σ ε) : InterruptStep ε → Option Nat
  | .step e _ => l.thread e
  | .trigger => none

/-- `rcl_wait` returns once something is ready, and a trigger is seen by one wait. -/
def interruptStep {σ ε : Type} (l : ThreadLoop σ ε) (s : Interruptible σ) : InterruptStep ε → Option (Interruptible σ)
  | .step e found =>
    if l.returnsFromWait e then
      if found || s.triggered then (l.step s.loop e).map fun loop => { loop } else none
    else (l.step s.loop e).map fun loop => { loop, triggered := s.triggered || l.triggers e }
  | .trigger => some { s with triggered := true }

end ReferenceSystem
