import Mathlib.Init

/-!
# Selecting a callback

The memory strategy's `get_next_*` and `get_next_ready_executable_from_map` of
the executor, with priorities (PiCAS) and without. A shared pointer is the
object it reaches, a weak one what locking it gives; entities are told apart by
their handles and groups by an identifier. `TimerBase::call` is recorded.
-/

namespace ReferenceSystem

/-- The kinds of callbacks, in the order in which the executor asks for them. -/
inductive Kind where
  | timer
  | subscription
  | service
  | client
  | waitable
  deriving DecidableEq, Repr

instance {P : Kind → Prop} [DecidablePred P] : Decidable (∀ k, P k) :=
  decidable_of_iff (P .timer ∧ P .subscription ∧ P .service ∧ P .client ∧ P .waitable)
    ⟨fun ⟨h1, h2, h3, h4, h5⟩ k => by cases k <;> assumption, fun h => ⟨h _, h _, h _, h _, h _⟩⟩

inductive CallbackGroupType where
  | mutuallyExclusive
  | reentrant
  deriving DecidableEq, Repr

structure Executable where
  handle : Nat
  callbackPriority : Int := 0
  deriving DecidableEq, Repr

/-- A callback group with the entities that its weak pointers reach. -/
structure CallbackGroup where
  id : Nat
  type : CallbackGroupType
  timerPtrs : List Executable := []
  subscriptionPtrs : List Executable := []
  servicePtrs : List Executable := []
  clientPtrs : List Executable := []
  waitablePtrs : List Executable := []
  deriving DecidableEq, Repr

def CallbackGroup.ptrs (group : CallbackGroup) : Kind → List Executable
  | .timer => group.timerPtrs
  | .subscription => group.subscriptionPtrs
  | .service => group.servicePtrs
  | .client => group.clientPtrs
  | .waitable => group.waitablePtrs

/-- `WeakCallbackGroupsToNodesMap`, each pair with both of its pointers locked. -/
abbrev WeakCallbackGroupsToNodesMap := List (Option CallbackGroup × Option Nat)

structure AnyExecutable where
  subscription : Option Executable := none
  timer : Option Executable := none
  service : Option Executable := none
  client : Option Executable := none
  waitable : Option Executable := none
  callbackGroup : Option CallbackGroup := none
  nodeBase : Option Nat := none
  -- the waitable whose `take_data` it holds
  data : Option Nat := none
  deriving DecidableEq, Repr

namespace AnyExecutable

def entity (a : AnyExecutable) : Kind → Option Executable
  | .timer => a.timer
  | .subscription => a.subscription
  | .service => a.service
  | .client => a.client
  | .waitable => a.waitable

def setEntity (a : AnyExecutable) (k : Kind) (e : Option Executable) : AnyExecutable :=
  match k with
  | .timer => { a with timer := e }
  | .subscription => { a with subscription := e }
  | .service => { a with service := e }
  | .client => { a with client := e }
  | .waitable => { a with waitable := e }

end AnyExecutable

/-! ## The memory strategy's searches -/

/-- `get_subscription_by_handle` and its siblings. -/
def getEntityByHandle (k : Kind) (handle : Nat) (weakGroupsToNodes : WeakCallbackGroupsToNodesMap) :
    Option Executable :=
  weakGroupsToNodes.findSome? fun pair =>
    pair.1.bind fun group => (group.ptrs k).find? fun e => e.handle = handle

/-- `get_group_by_subscription` and its siblings. -/
def getGroupByEntity (k : Kind) (e : Executable) (weakGroupsToNodes : WeakCallbackGroupsToNodesMap) :
    Option CallbackGroup :=
  weakGroupsToNodes.findSome? fun pair =>
    pair.1.bind fun group => pair.2.bind fun _ => if e ∈ group.ptrs k then some group else none

def getNodeByGroup (group : CallbackGroup) (weakGroupsToNodes : WeakCallbackGroupsToNodesMap) : Option Nat :=
  (weakGroupsToNodes.find? fun pair => pair.1.map (·.id) = some group.id).bind Prod.snd

/-! ## The next callback of a kind -/

structure Context where
  callbackPriorityEnabled : Bool
  weakGroupsToNodes : WeakCallbackGroupsToNodesMap
  canBeTakenFrom : Nat → Bool
  -- the timers for which `rcl_timer_call` reports a cancelled timer
  canceled : Nat → Bool

/-- The handles that are ready. A waitable is its own handle. -/
structure MemoryStrategy where
  timerHandles : List Nat := []
  subscriptionHandles : List Nat := []
  serviceHandles : List Nat := []
  clientHandles : List Nat := []
  waitableHandles : List Executable := []
  deriving DecidableEq, Repr

structure TimerCall where
  handle : Nat
  returned : Bool
  deriving DecidableEq, Repr

def AnyExecutable.take (a : AnyExecutable) (k : Kind) (e : Executable) (group : CallbackGroup)
    (weakGroupsToNodes : WeakCallbackGroupsToNodesMap) : AnyExecutable :=
  { a.setEntity k (some e) with
    callbackGroup := some group
    nodeBase := getNodeByGroup group weakGroupsToNodes }

/-- The loop of `get_next_subscription`, `get_next_service`, `get_next_client`
and `get_next_waitable`: the handles that stay are those of groups in use. -/
def getNextLoop {η : Type} (c : Context) (k : Kind) (byHandle : η → Option Executable) :
    List η → Int → AnyExecutable → AnyExecutable × List η
  | [], _, anyExec => (anyExec, [])
  | handle :: handles, highestPriority, anyExec =>
    match byHandle handle with
    | none => getNextLoop c k byHandle handles highestPriority anyExec
    | some e =>
      match getGroupByEntity k e c.weakGroupsToNodes with
      | none => getNextLoop c k byHandle handles highestPriority anyExec
      | some group =>
        if !c.canBeTakenFrom group.id then
          let (anyExec, rest) := getNextLoop c k byHandle handles highestPriority anyExec
          (anyExec, handle :: rest)
        else if c.callbackPriorityEnabled then
          -- the handle goes whether or not its callback is the best so far
          if anyExec.entity k = none ∨ e.callbackPriority > highestPriority then
            getNextLoop c k byHandle handles e.callbackPriority (anyExec.take k e group c.weakGroupsToNodes)
          else getNextLoop c k byHandle handles highestPriority anyExec
        else (anyExec.take k e group c.weakGroupsToNodes, handles)

/-- The loop of `get_next_timer`, which calls each timer it could take. -/
def getNextTimerLoop (c : Context) :
    List Nat → Int → AnyExecutable → AnyExecutable × List Nat × List TimerCall
  | [], _, anyExec => (anyExec, [], [])
  | handle :: handles, highestPriority, anyExec =>
    match getEntityByHandle .timer handle c.weakGroupsToNodes with
    | none => getNextTimerLoop c handles highestPriority anyExec
    | some timer =>
      match getGroupByEntity .timer timer c.weakGroupsToNodes with
      | none => getNextTimerLoop c handles highestPriority anyExec
      | some group =>
        if !c.canBeTakenFrom group.id then
          let (anyExec, rest, calls) := getNextTimerLoop c handles highestPriority anyExec
          (anyExec, handle :: rest, calls)
        else if c.canceled timer.handle then
          let (anyExec, rest, calls) := getNextTimerLoop c handles highestPriority anyExec
          (anyExec, handle :: rest, ⟨timer.handle, false⟩ :: calls)
        else if c.callbackPriorityEnabled then
          if anyExec.timer = none ∨ timer.callbackPriority > highestPriority then
            let (anyExec, rest, calls) := getNextTimerLoop c handles timer.callbackPriority
              (anyExec.take .timer timer group c.weakGroupsToNodes)
            (anyExec, rest, ⟨timer.handle, true⟩ :: calls)
          else
            let (anyExec, rest, calls) := getNextTimerLoop c handles highestPriority anyExec
            (anyExec, rest, ⟨timer.handle, true⟩ :: calls)
        else (anyExec.take .timer timer group c.weakGroupsToNodes, handles, [⟨timer.handle, true⟩])

structure Selection where
  anyExecutable : AnyExecutable := {}
  memoryStrategy : MemoryStrategy
  calls : List TimerCall := []
  deriving DecidableEq, Repr

def getNextTimer (c : Context) (s : Selection) : Selection :=
  let (anyExec, handles, calls) := getNextTimerLoop c s.memoryStrategy.timerHandles (-1) s.anyExecutable
  { anyExecutable := anyExec
    memoryStrategy := { s.memoryStrategy with timerHandles := handles }
    calls := s.calls ++ calls }

def getNextSubscription (c : Context) (s : Selection) : Selection :=
  let (anyExec, handles) := getNextLoop c .subscription
    (getEntityByHandle .subscription · c.weakGroupsToNodes)
    s.memoryStrategy.subscriptionHandles (-1) s.anyExecutable
  { s with
    anyExecutable := anyExec
    memoryStrategy := { s.memoryStrategy with subscriptionHandles := handles } }

def getNextService (c : Context) (s : Selection) : Selection :=
  let (anyExec, handles) := getNextLoop c .service
    (getEntityByHandle .service · c.weakGroupsToNodes) s.memoryStrategy.serviceHandles (-1) s.anyExecutable
  { s with
    anyExecutable := anyExec
    memoryStrategy := { s.memoryStrategy with serviceHandles := handles } }

def getNextClient (c : Context) (s : Selection) : Selection :=
  let (anyExec, handles) := getNextLoop c .client
    (getEntityByHandle .client · c.weakGroupsToNodes) s.memoryStrategy.clientHandles (-1) s.anyExecutable
  { s with
    anyExecutable := anyExec
    memoryStrategy := { s.memoryStrategy with clientHandles := handles } }

def getNextWaitable (c : Context) (s : Selection) : Selection :=
  let (anyExec, handles) := getNextLoop c .waitable some s.memoryStrategy.waitableHandles (-1) s.anyExecutable
  { s with
    anyExecutable := anyExec
    memoryStrategy := { s.memoryStrategy with waitableHandles := handles } }

/-! ## The next callback of all kinds -/

/-- Keep the candidate of a kind if it has a higher priority than the best so
far, whose kind is one of the given ones; drop it otherwise. -/
def keepHighest (k : Kind) (losers : List Kind) (highestPriority : Int) (a : AnyExecutable) :
    AnyExecutable × Int :=
  match a.entity k with
  | none => (a, highestPriority)
  | some e =>
    if highestPriority < e.callbackPriority then
      (losers.foldl (fun a loser => a.setEntity loser none) a, e.callbackPriority)
    else (a.setEntity k none, highestPriority)

def AnyExecutable.takeData (a : AnyExecutable) : AnyExecutable :=
  match a.waitable with
  | none => a
  | some waitable => { a with data := some waitable.handle }

/-- The priority branch; the highest priority is `-1` where nothing was found. -/
def getHighestPriority (c : Context) (s : Selection) : Selection × Int :=
  let s := getNextTimer c s
  let highestPriority := s.anyExecutable.timer.elim (-1) (·.callbackPriority)
  let s := getNextSubscription c s
  let (a, highestPriority) := keepHighest .subscription [.timer] highestPriority s.anyExecutable
  let s := getNextService c { s with anyExecutable := a }
  let (a, highestPriority) := keepHighest .service [.timer, .subscription] highestPriority s.anyExecutable
  let s := getNextClient c { s with anyExecutable := a }
  let (a, highestPriority) :=
    keepHighest .client [.timer, .subscription, .service] highestPriority s.anyExecutable
  let s := getNextWaitable c { s with anyExecutable := a }
  let (a, highestPriority) :=
    keepHighest .waitable [.timer, .subscription, .service, .client] highestPriority s.anyExecutable
  ({ s with anyExecutable := a.takeData }, highestPriority)

/-- The other branch: the first callback of the first kind that has one. -/
def getFirst (c : Context) (s : Selection) : Selection × Bool :=
  let s := getNextTimer c s
  if s.anyExecutable.timer.isSome then (s, true)
  else
    let s := getNextSubscription c s
    if s.anyExecutable.subscription.isSome then (s, true)
    else
      let s := getNextService c s
      if s.anyExecutable.service.isSome then (s, true)
      else
        let s := getNextClient c s
        if s.anyExecutable.client.isSome then (s, true)
        else
          let s := getNextWaitable c s
          if s.anyExecutable.waitable.isSome then
            ({ s with anyExecutable := s.anyExecutable.takeData }, true)
          else (s, false)

def storeFlag (canBeTakenFrom : Nat → Bool) (group : Nat) (value : Bool) : Nat → Bool :=
  fun g => if g = group then value else canBeTakenFrom g

structure NextReady where
  success : Bool
  selection : Selection
  canBeTakenFrom : Nat → Bool

/-- Whether the group set last is one of the executor's, and its mark. -/
def takeGroup (c : Context) (success : Bool) (s : Selection) : NextReady :=
  match success, s.anyExecutable.callbackGroup with
  | true, some group =>
    if c.weakGroupsToNodes.any fun pair => pair.1.map (·.id) = some group.id then
      { success := true
        selection := s
        canBeTakenFrom :=
          if group.type = .mutuallyExclusive then storeFlag c.canBeTakenFrom group.id false
          else c.canBeTakenFrom }
    else ⟨false, s, c.canBeTakenFrom⟩
  | _, _ => ⟨false, s, c.canBeTakenFrom⟩

def getNextReadyExecutableFromMap (c : Context) (s : Selection) : NextReady :=
  if c.callbackPriorityEnabled then
    let (s, highestPriority) := getHighestPriority c s
    takeGroup c (0 ≤ highestPriority) s
  else
    let (s, success) := getFirst c s
    takeGroup c success s

end ReferenceSystem
