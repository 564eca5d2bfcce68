import ReferenceSystem.Runs
import ReferenceSystem.Selection

/-!
# Executors with callback priorities

`wait_for_work`, `execute_any_executable` and the loops of the single-threaded
and the multi-threaded executor, with callback priorities enabled. What
`rcl_wait` finds ready, which timers are cancelled and which objects are still
alive is given to each step. A selection holds `wait_mutex_` from before the
wait until it returns; callbacks run outside of it. The handles that it looks at
are those of groups that were free when it collected them, and while it holds the
mutex no flag is cleared, so reading the flags at once loses no interleaving.
-/

namespace ReferenceSystem

/-! ## Groups and the objects that are alive -/

/-- The callback groups of an executor with their nodes. An entity is added to one group, once. -/
structure Registry where
  groups : List (CallbackGroup × Nat)
  apart : groups.Pairwise fun p q => p.1.id ≠ q.1.id ∧
    ∀ k, ∀ e ∈ p.1.ptrs k, ∀ f ∈ q.1.ptrs k, e.handle ≠ f.handle
  nodup : ∀ p ∈ groups, ∀ k, ((p.1.ptrs k).map (·.handle)).Nodup

structure Alive where
  group : Nat → Bool := fun _ => true
  node : Nat → Bool := fun _ => true
  entity : Kind → Nat → Bool := fun _ _ => true

def CallbackGroup.restrict (group : CallbackGroup) (alive : Alive) : CallbackGroup :=
  { group with
    timerPtrs := group.timerPtrs.filter fun e => alive.entity .timer e.handle
    subscriptionPtrs := group.subscriptionPtrs.filter fun e => alive.entity .subscription e.handle
    servicePtrs := group.servicePtrs.filter fun e => alive.entity .service e.handle
    clientPtrs := group.clientPtrs.filter fun e => alive.entity .client e.handle
    waitablePtrs := group.waitablePtrs.filter fun e => alive.entity .waitable e.handle }

def Registry.weakGroupsToNodes (reg : Registry) (alive : Alive) : WeakCallbackGroupsToNodesMap :=
  reg.groups.map fun p =>
    (if alive.group p.1.id then some (p.1.restrict alive) else none,
      if alive.node p.2 then some p.2 else none)

/-! ## Waiting and executing -/

def collectKind (k : Kind) (weakGroupsToNodes : WeakCallbackGroupsToNodesMap) (canBeTakenFrom : Nat → Bool) :
    List Executable :=
  weakGroupsToNodes.flatMap fun pair =>
    match pair with
    | (some group, some _) => if canBeTakenFrom group.id then group.ptrs k else []
    | _ => []

/-- `clear_handles` and `collect_entities`. -/
def collectEntities (weakGroupsToNodes : WeakCallbackGroupsToNodesMap) (canBeTakenFrom : Nat → Bool) :
    MemoryStrategy where
  timerHandles := (collectKind .timer weakGroupsToNodes canBeTakenFrom).map (·.handle)
  subscriptionHandles := (collectKind .subscription weakGroupsToNodes canBeTakenFrom).map (·.handle)
  serviceHandles := (collectKind .service weakGroupsToNodes canBeTakenFrom).map (·.handle)
  clientHandles := (collectKind .client weakGroupsToNodes canBeTakenFrom).map (·.handle)
  waitableHandles := collectKind .waitable weakGroupsToNodes canBeTakenFrom

def MemoryStrategy.removeNullHandles (m : MemoryStrategy) (ready : Kind → Nat → Bool) : MemoryStrategy where
  timerHandles := m.timerHandles.filter (ready .timer)
  subscriptionHandles := m.subscriptionHandles.filter (ready .subscription)
  serviceHandles := m.serviceHandles.filter (ready .service)
  clientHandles := m.clientHandles.filter (ready .client)
  waitableHandles := m.waitableHandles.filter fun e => ready .waitable e.handle

structure Wakeup where
  alive : Alive := {}
  ready : Kind → Nat → Bool
  canceled : Nat → Bool := fun _ => false

def Wakeup.context (w : Wakeup) (reg : Registry) (canBeTakenFrom : Nat → Bool) : Context :=
  ⟨true, reg.weakGroupsToNodes w.alive, canBeTakenFrom, w.canceled⟩

/-- The callbacks that `execute_any_executable` runs, in its order. -/
def AnyExecutable.callbacks (a : AnyExecutable) : List (Kind × Nat) :=
  [Kind.timer, .subscription, .service, .client, .waitable].filterMap fun k =>
    (a.entity k).map fun e => (k, e.handle)

/-- The flag that `execute_any_executable` resets at its end, and the destructor of `AnyExecutable`. -/
def AnyExecutable.release (a : AnyExecutable) (canBeTakenFrom : Nat → Bool) : Nat → Bool :=
  match a.callbackGroup with
  | none => canBeTakenFrom
  | some group => storeFlag canBeTakenFrom group.id true

/-! ## The single-threaded executor -/

/-- One pass of the loop of `SingleThreadedExecutor::spin`, with the values of
`spinning` that it reads after the wait and before it executes. -/
structure SpinOnce where
  collected : Alive := {}
  wakeup : Wakeup
  spinningAfterWait : Bool := true
  spinningBeforeExecute : Bool := true

structure SingleThreaded where
  canBeTakenFrom : Nat → Bool := fun _ => true
  -- the timers whose expiry was consumed
  consumed : List Nat := []
  executed : List (Kind × Nat) := []

def SpinOnce.handles (i : SpinOnce) (reg : Registry) (s : SingleThreaded) : MemoryStrategy :=
  (collectEntities (reg.weakGroupsToNodes i.collected) s.canBeTakenFrom).removeNullHandles i.wakeup.ready

def spinOnce (reg : Registry) (s : SingleThreaded) (i : SpinOnce) : Option SingleThreaded :=
  if !i.spinningAfterWait then some s
  else
    let next := getNextReadyExecutableFromMap (i.wakeup.context reg s.canBeTakenFrom)
      { memoryStrategy := i.handles reg s }
    let a := next.selection.anyExecutable
    some {
      canBeTakenFrom := a.release next.canBeTakenFrom
      consumed := s.consumed ++ (next.selection.calls.filter (·.returned)).map (·.handle)
      executed :=
        if next.success && i.spinningBeforeExecute then s.executed ++ a.callbacks else s.executed }

/-! ## The multi-threaded executor -/

/-- Where a thread is in `MultiThreadedExecutor::run`. -/
inductive ThreadState where
  -- at the head of the loop
  | idle
  -- in `wait_for_work`, with the mutex
  | waiting
  -- between the selection and its execution
  | selected (anyExec : AnyExecutable)
  | executing (anyExec : AnyExecutable)
  -- before the destructor of what a failed selection left
  | discarding (anyExec : AnyExecutable)
  | returned
  deriving DecidableEq, Repr

structure MultiThreaded where
  canBeTakenFrom : Nat → Bool := fun _ => true
  memoryStrategy : MemoryStrategy := {}
  spinning : Bool := true
  waitMutex : Option Nat := none
  threads : List ThreadState

inductive ThreadStep where
  | lock (t : Nat) (alive : Alive)
  | select (t : Nat) (wakeup : Wakeup)
  | execute (t : Nat)
  | finish (t : Nat)
  | discard (t : Nat)
  | cancel

def Wakeup.handles (w : Wakeup) (s : MultiThreaded) : MemoryStrategy :=
  s.memoryStrategy.removeNullHandles w.ready

def MultiThreaded.setThread (s : MultiThreaded) (t : Nat) (state : ThreadState) : MultiThreaded :=
  { s with threads := s.threads.set t state }

def threadStep (reg : Registry) (s : MultiThreaded) : ThreadStep → Option MultiThreaded
  | .lock t alive =>
    if s.threads[t]? = some .idle ∧ s.waitMutex = none then
      if s.spinning then
        some { s.setThread t .waiting with
          waitMutex := some t
          memoryStrategy := collectEntities (reg.weakGroupsToNodes alive) s.canBeTakenFrom }
      else some (s.setThread t .returned)
    else none
  | .select t w =>
    if s.threads[t]? = some .waiting ∧ s.waitMutex = some t then
      if s.spinning then
        let next := getNextReadyExecutableFromMap (w.context reg s.canBeTakenFrom)
          { memoryStrategy := w.handles s }
        let a := next.selection.anyExecutable
        some { s.setThread t (if next.success then .selected a else .discarding a) with
          waitMutex := none
          memoryStrategy := next.selection.memoryStrategy
          canBeTakenFrom := next.canBeTakenFrom }
      else
        some { s.setThread t (.discarding {}) with
          waitMutex := none
          memoryStrategy := w.handles s }
    else none
  | .execute t =>
    match s.threads[t]? with
    -- after an early return the group is reset in `run`, and its flag is not
    | some (.selected a) => some (s.setThread t (if s.spinning then .executing a else .idle))
    | _ => none
  | .finish t =>
    match s.threads[t]? with
    | some (.executing a) => some { s.setThread t .idle with canBeTakenFrom := a.release s.canBeTakenFrom }
    | _ => none
  | .discard t =>
    match s.threads[t]? with
    | some (.discarding a) => some { s.setThread t .idle with canBeTakenFrom := a.release s.canBeTakenFrom }
    | _ => none
  | .cancel => some { s with spinning := false }

def multiThreaded (numberOfThreads : Nat) : MultiThreaded where
  threads := List.replicate numberOfThreads .idle

def MultiThreaded.executing (s : MultiThreaded) (t : Nat) (k : Kind) : Option Executable :=
  match s.threads[t]? with
  | some (.executing a) => a.entity k
  | _ => none

/-- No two callbacks of one mutually exclusive group are in execution. -/
def GroupsExclusive (reg : Registry) (s : MultiThreaded) : Prop :=
  ∀ p ∈ reg.groups, p.1.type = .mutuallyExclusive → ∀ t t' k k' e e',
    s.executing t k = some e → s.executing t' k' = some e' → e ∈ p.1.ptrs k → e' ∈ p.1.ptrs k' →
      t = t' ∧ k = k' ∧ e = e'

end ReferenceSystem
