import ReferenceSystem.Membership

/-!
# The static executor

`StaticExecutorEntitiesCollector` with the `StaticSingleThreadedExecutor` that
owns it, beside the other executors of the context. The entities that a pass may
execute are collected when the executor starts to spin, and again only when the
notify guard condition of a registered node was triggered. Entities of a kind
are told apart by their handles. What `rcl_wait` leaves in the wait set, and what
`is_ready` says, comes from outside.
-/

namespace ReferenceSystem

/-! ## The state -/

/-- The entities of an `ExecutableList`, or the handles of a memory strategy. -/
structure ExecutableList where
  entities : Kind → List Nat := fun _ => []
  -- the collector is a waitable itself, and comes after the others
  collector : Bool := false

structure StaticCollector where
  weakNodes : List Nat := []
  weakGroupsAssociatedWithExecutorToNodes : WeakGroupsToNodes := ∅
  weakGroupsToNodesAssociatedWithExecutor : WeakGroupsToNodes := ∅
  -- a notify guard condition is told apart by its node
  weakNodesToGuardConditions : Std.TreeMap Nat Nat := ∅
  newNodes : List Nat := []
  execList : ExecutableList := {}
  memoryStrategy : ExecutableList := {}
  -- how many guard conditions of nodes the wait set has room for
  waitSetGuardConditions : Nat := 0
  initialized : Bool := false
  -- how often the interrupt guard condition was triggered
  triggered : Nat := 0

def StaticCollector.map (c : StaticCollector) : AddedBy → WeakGroupsToNodes
  | .itself => c.weakGroupsAssociatedWithExecutorToNodes
  | .node => c.weakGroupsToNodesAssociatedWithExecutor

def StaticCollector.setMap (c : StaticCollector) (k : AddedBy) (m : WeakGroupsToNodes) : StaticCollector :=
  match k with
  | .itself => { c with weakGroupsAssociatedWithExecutorToNodes := m }
  | .node => { c with weakGroupsToNodesAssociatedWithExecutor := m }

structure CreatedEntity where
  handle : Nat
  group : Nat
  deriving DecidableEq, Repr

structure StaticWorld where
  -- nodes, callback groups and the other executors
  shared : Association := {}
  -- in the order of their creation
  created : Kind → List CreatedEntity := fun _ => []
  -- the entities that those who created them have given up
  released : Kind → Nat → Bool := fun _ _ => false
  -- whether rcl fails to trigger the interrupt guard condition for the n-th time
  triggerFails : Nat → Bool := fun _ => false
  collector : StaticCollector := {}

/-- A weak pointer to an entity can be locked: its owner has it, or the executable
list, or the memory strategy, which of the other kinds has the handles of rcl only. -/
def StaticWorld.alive (w : StaticWorld) (k : Kind) (handle : Nat) : Bool :=
  !w.released k handle || (w.collector.execList.entities k).contains handle ||
    k == .waitable && (w.collector.memoryStrategy.entities k).contains handle

/-- `collect_all_ptrs` and `find_timer_ptrs_if` with its siblings. -/
def StaticWorld.ptrs (w : StaticWorld) (k : Kind) (group : Nat) : List Nat :=
  ((w.created k).filter fun c => c.group = group && w.alive k c.handle).map (·.handle)

/-- What is thrown, or whether a node is new to the executor, or has left it. -/
abbrev StaticCalled := StaticWorld × Except AssociationError Bool

def StaticWorld.setCollector (w : StaticWorld) (c : StaticCollector) : StaticWorld := { w with collector := c }

def StaticWorld.flagGroup (w : StaticWorld) (group : Nat) (value : Bool) : StaticWorld :=
  { w with shared := { w.shared with groupHasExecutor := storeFlag w.shared.groupHasExecutor group value } }

def StaticWorld.flagNode (w : StaticWorld) (node : Nat) (value : Bool) : StaticWorld :=
  { w with shared := { w.shared with nodeHasExecutor := storeFlag w.shared.nodeHasExecutor node value } }

/-! ## The collector's calls -/

def StaticWorld.hasNode (w : StaticWorld) (node : Nat) (k : AddedBy) : Bool :=
  w.shared.hasNode node (w.collector.map k)

/-- `add_callback_group` with the map. -/
def staticAddToMap (group node : Nat) (k : AddedBy) (w : StaticWorld) : StaticCalled :=
  if w.shared.groupHasExecutor group then (w, .error .groupHasExecutor)
  else
    let w := w.flagGroup group true
    let isNewNode := !w.hasNode node .itself && !w.hasNode node .node
    let c := w.collector
    if group ∈ c.map k then (w, .error .groupInMap)
    else
      let c := c.setMap k ((c.map k).insertIfNew group node)
      if isNewNode then (w.setCollector { c with newNodes := c.newNodes ++ [node] }, .ok true)
      else (w.setCollector c, .ok false)

/-- The callback groups of a node that go with it, as far as they are free. -/
def staticAddGroups (node : Nat) : List CreatedGroup → StaticWorld → StaticCalled
  | [], w => (w, .ok false)
  | g :: gs, w =>
    if g.automaticallyAddToExecutorWithNode && !w.shared.groupHasExecutor g.id then
      match staticAddToMap g.id node .node w with
      | (w, .ok isNewNode) => ((staticAddGroups node gs w).1, (staticAddGroups node gs w).2.map (· || isNewNode))
      | (w, .error error) => (w, .error error)
    else staticAddGroups node gs w

def collectorAddNode (node : Nat) (w : StaticWorld) : StaticCalled :=
  if w.shared.nodeHasExecutor node then (w, .error .nodeHasStaticExecutor)
  else
    let w := w.flagNode node true
    match staticAddGroups node (w.shared.groupsOf node) w with
    | (w, .ok isNewNode) => (w.setCollector { w.collector with weakNodes := w.collector.weakNodes ++ [node] }, .ok isNewNode)
    | (w, .error error) => (w, .error error)

/-- `remove_callback_group_from_map`; `group` is null when its pointer has expired. -/
def staticRemoveFromMap (group : Option Nat) (k : AddedBy) (w : StaticWorld) : StaticCalled :=
  match group.bind fun g => (w.collector.map k)[g]?.map fun node => (g, node) with
  | none => (w, .error .groupNotAssociated)
  | some (g, node) =>
    if w.shared.nodeExpired node then (w, .error .nodeDeleted)
    else
      -- unlike the other executors, this one leaves the callback group marked
      let c := w.collector.setMap k ((w.collector.map k).erase g)
      let w := w.setCollector c
      if !w.hasNode node .itself && !w.hasNode node .node then
        (w.setCollector { c with weakNodesToGuardConditions := c.weakNodesToGuardConditions.erase node }, .ok true)
      else (w, .ok false)

def staticRemoveGroups : List Nat → StaticWorld → StaticWorld × Option AssociationError
  | [], w => (w, none)
  | g :: gs, w =>
    match staticRemoveFromMap (if w.shared.groupExpired g then none else some g) .node w with
    | (w, .ok _) => staticRemoveGroups gs w
    | (w, .error error) => (w, some error)

def collectorRemoveNode (node : Nat) (w : StaticWorld) : StaticCalled :=
  if !w.shared.nodeHasExecutor node then (w, .ok false)
  else if node ∉ w.collector.weakNodes then (w, .ok false)
  else
    let c := w.collector
    let w := w.setCollector { c with weakNodes := c.weakNodes.erase node }
    let groups := (c.weakGroupsToNodesAssociatedWithExecutor.toList.filter fun p => p.2 = node).map Prod.fst
    match staticRemoveGroups groups w with
    | (w, none) => (w.flagNode node false, .ok true)
    | (w, some error) => (w, .error error)

/-! ## Collecting -/

/-- Both pointers of a pair can be locked. -/
def StaticWorld.valid (w : StaticWorld) (p : Nat × Nat) : Bool :=
  !w.shared.groupExpired p.1 && !w.shared.nodeExpired p.2

/-- `collect_entities` of the memory strategy. -/
def staticCollectEntities (canBeTakenFrom : Nat → Bool) (w : StaticWorld) (m : WeakGroupsToNodes) (k : Kind) : List Nat :=
  (m.toList.filter fun p => w.valid p && canBeTakenFrom p.1).flatMap fun p => w.ptrs k p.1

def fillExecutableListFromMap (canBeTakenFrom : Nat → Bool) (w : StaticWorld) (m : WeakGroupsToNodes) (k : Kind) :
    List Nat :=
  staticCollectEntities canBeTakenFrom w m k

/-- The pairs with an expired pointer are erased. -/
def StaticWorld.cleanUp (w : StaticWorld) (k : AddedBy) : StaticWorld :=
  let invalid := (w.collector.map k).toList.filter fun p => !w.valid p
  w.setCollector (w.collector.setMap k (invalid.foldl (fun m p => m.erase p.1) (w.collector.map k)))

def StaticWorld.clearHandles (w : StaticWorld) : StaticWorld := w.setCollector { w.collector with memoryStrategy := {} }

def fillMemoryStrategy (canBeTakenFrom : Nat → Bool) (w : StaticWorld) : StaticWorld :=
  let w := w.clearHandles
  let withNode := staticCollectEntities canBeTakenFrom w (w.collector.map .node)
  let w := w.cleanUp .node
  let bySelf := staticCollectEntities canBeTakenFrom w (w.collector.map .itself)
  let w := w.cleanUp .itself
  w.setCollector { w.collector with
    memoryStrategy := { entities := fun k => withNode k ++ bySelf k, collector := true } }

def staticAddFromNodes : List Nat → StaticWorld → StaticWorld × Option AssociationError
  | [], w => (w, none)
  | node :: nodes, w =>
    if w.shared.nodeExpired node then staticAddFromNodes nodes w
    else
      match staticAddGroups node (w.shared.groupsOf node) w with
      | (w, .ok _) => staticAddFromNodes nodes w
      | (w, .error error) => (w, some error)

def StaticWorld.clearExecList (w : StaticWorld) : StaticWorld := w.setCollector { w.collector with execList := {} }

def fillExecutableList (canBeTakenFrom : Nat → Bool) (w : StaticWorld) : StaticWorld × Option AssociationError :=
  let w := w.clearExecList
  match staticAddFromNodes w.collector.weakNodes w with
  | (w, none) =>
    let bySelf := fillExecutableListFromMap canBeTakenFrom w (w.collector.map .itself)
    let withNode := fillExecutableListFromMap canBeTakenFrom w (w.collector.map .node)
    (w.setCollector { w.collector with
      execList := { entities := fun k => bySelf k ++ withNode k, collector := true } }, none)
  | (w, some error) => (w, some error)

def prepareWaitSet (w : StaticWorld) : StaticWorld :=
  w.setCollector { w.collector with
    waitSetGuardConditions := w.collector.weakNodesToGuardConditions.size + w.collector.newNodes.length }

def registerNewNodes (w : StaticWorld) : StaticWorld :=
  w.setCollector { w.collector with
    weakNodesToGuardConditions := w.collector.newNodes.foldl
      (fun m node => if w.shared.nodeExpired node then m else m.insert node node) w.collector.weakNodesToGuardConditions
    newNodes := [] }

/-- The collector as a waitable. -/
def collectorExecute (canBeTakenFrom : Nat → Bool) (w : StaticWorld) : StaticWorld × Option AssociationError :=
  match fillExecutableList canBeTakenFrom (fillMemoryStrategy canBeTakenFrom w) with
  | (w, none) => (registerNewNodes (prepareWaitSet w), none)
  | (w, some error) => (w, some error)

def collectorInit (canBeTakenFrom : Nat → Bool) (w : StaticWorld) : StaticWorld × Option AssociationError :=
  match collectorExecute canBeTakenFrom w.clearExecList with
  | (w, none) => (w.setCollector { w.collector with initialized := true }, none)
  | (w, some error) => (w, some error)

/-! ## A pass -/

/-- What a wait and the entities of a pass report. -/
structure Ready where
  -- the handles that `rcl_wait` leaves in the wait set, and the slots after them, of waitables
  waitSet : Kind → Nat → Bool
  reserved : Kind → List Bool := fun _ => []
  -- the nodes whose notify guard condition was triggered
  triggered : Nat → Bool := fun _ => false
  -- `is_ready` of timers and waitables when it is their turn
  isReady : Kind → Nat → Bool := fun _ _ => true
  -- `is_ready` of waitables once the wait set has been cleared
  isReadyCleared : Nat → Bool := fun _ => false
  canBeTakenFrom : Nat → Bool := fun _ => true

inductive Executed where
  | entity (k : Kind) (handle : Nat)
  | collector
  deriving DecidableEq, Repr

/-- The loop over the slots of a kind: slot `i` says whether executable `i` is executed. -/
def executeSlots (k : Kind) (r : Ready) (w : StaticWorld) : List Nat :=
  let slots := (w.collector.memoryStrategy.entities k).map (r.waitSet k) ++ r.reserved k
  ((w.collector.execList.entities k).zip slots).filterMap fun p =>
    if p.2 && (k != .timer || r.isReady .timer p.1) then some p.1 else none

def collectorIsReady (r : Ready) (w : StaticWorld) : Bool :=
  w.collector.weakNodesToGuardConditions.toList.any fun p => r.triggered p.2

/-- What a pass executes before it comes to the collector. -/
def readyExecutables (r : Ready) (w : StaticWorld) : List Executed :=
  ([.subscription, .timer, .service, .client].flatMap fun k => (executeSlots k r w).map (.entity k)) ++
    ((w.collector.execList.entities .waitable).filter (r.isReady .waitable)).map (.entity .waitable)

def executeReadyExecutables (spinOnce : Bool) (r : Ready) (w : StaticWorld) :
    StaticWorld × List Executed × Option AssociationError :=
  let log := readyExecutables r w
  if spinOnce && !log.isEmpty then (w, log.take 1, none)
  else if w.collector.execList.collector && collectorIsReady r w then
    -- the loop goes on at the next index, in the list that the collector has made
    let next := (w.collector.execList.entities .waitable).length + 1
    match collectorExecute r.canBeTakenFrom w with
    | (w, none) =>
      let rest := ((w.collector.execList.entities .waitable).drop next).filter r.isReadyCleared
      (w, log ++ .collector :: if spinOnce then [] else rest.map (.entity .waitable), none)
    | (w, some error) => (w, log ++ [.collector], some error)
  else (w, log, none)

/-- The guard conditions that the collector puts into the wait set exist, and fit in. -/
def StaticWorld.canWait (w : StaticWorld) : Bool :=
  w.collector.weakNodesToGuardConditions.toList.all (fun p => !w.shared.nodeExpired p.2) &&
    decide (w.collector.weakNodesToGuardConditions.size ≤ w.collector.waitSetGuardConditions)

/-! ## Runs -/

inductive StaticStep where
  -- a call on another executor, a node or a callback group
  | shared (a : AssociationStep)
  | createEntity (k : Kind) (c : CreatedEntity)
  | releaseEntity (k : Kind) (handle : Nat)
  -- from now on the trigger of that number fails, or not
  | setTrigger (count : Nat) (fails : Bool)
  | addNode (node : Nat) (notify : Bool)
  | removeNode (node : Nat) (notify : Bool)
  | addCallbackGroup (group node : Nat) (notify : Bool)
  | removeCallbackGroup (group : Nat) (notify : Bool)
  | init (canBeTakenFrom : Nat → Bool)
  | pass (spinOnce : Bool) (r : Ready)
  | destroy

def StaticWorld.interrupt (w : StaticWorld) (notify : Bool) : StaticWorld :=
  if notify then w.setCollector { w.collector with triggered := w.collector.triggered + 1 } else w

/-- What that throws; this executor does not catch it. -/
def StaticWorld.interruptError (w : StaticWorld) (notify : Bool) : Option AssociationError :=
  if notify && w.triggerFails w.collector.triggered then some .trigger else none

/-- A call that only reports whether a node has come or gone. -/
def StaticCalled.interrupt (called : StaticCalled) (notify : Bool) : StaticWorld × Option AssociationError :=
  match called with
  | (w, .ok changed) => (w.interrupt (changed && notify), w.interruptError (changed && notify))
  | (w, .error error) => (w, some error)

def staticRemoveNode (node : Nat) (notify : Bool) (w : StaticWorld) : StaticWorld × Option AssociationError :=
  match collectorRemoveNode node w with
  | (w, .ok true) => (w.interrupt notify, w.interruptError notify)
  | (w, .ok false) => (w, some .nodeNotInExecutor)
  | (w, .error error) => (w, some error)

/-- The destructors of the executor and of its collector. -/
def staticDestroy (w : StaticWorld) : StaticWorld :=
  let c := w.collector
  let s := w.shared
  { w with
    shared := { s with
      groupHasExecutor := fun g =>
        if (g ∈ c.map .itself ∨ g ∈ c.map .node) ∧ s.groupExpired g = false then false else s.groupHasExecutor g
      nodeHasExecutor := fun n => if n ∈ c.weakNodes ∧ s.nodeExpired n = false then false else s.nodeHasExecutor n }
    collector := {} }

/-- One step, with what it executes and throws; `none` when it cannot be made. -/
def staticCall (w : StaticWorld) : StaticStep → Option (StaticWorld × List Executed × Option AssociationError)
  | .shared a => (call w.shared a).map fun called => ({ w with shared := called.1 }, [], called.2)
  | .createEntity k c =>
    if w.shared.holds c.group && (w.created k).all (fun d => d.handle != c.handle) then
      some ({ w with created := Function.update w.created k (w.created k ++ [c]) }, [], none)
    else none
  | .releaseEntity k handle =>
    some ({ w with released := Function.update w.released k (storeFlag (w.released k) handle true) }, [], none)
  | .setTrigger count fails => some ({ w with triggerFails := storeFlag w.triggerFails count fails }, [], none)
  | .addNode n notify =>
    if w.shared.nodeExpired n then none
    else
      let called := StaticCalled.interrupt (collectorAddNode n w) notify
      some (called.1, [], called.2)
  | .removeNode n notify =>
    if w.shared.nodeExpired n then none
    else
      let called := staticRemoveNode n notify w
      some (called.1, [], called.2)
  | .addCallbackGroup g n notify =>
    if w.shared.holds g && !w.shared.nodeExpired n then
      let called := StaticCalled.interrupt (staticAddToMap g n .itself w) notify
      some (called.1, [], called.2)
    else none
  | .removeCallbackGroup g notify =>
    if w.shared.holds g then
      let called := StaticCalled.interrupt (staticRemoveFromMap (some g) .itself w) notify
      some (called.1, [], called.2)
    else none
  | .init canBeTakenFrom =>
    let called := collectorInit canBeTakenFrom w
    some (called.1, [], called.2)
  | .pass spinOnce r =>
    if w.collector.initialized && w.canWait then some (executeReadyExecutables spinOnce r w) else none
  | .destroy => some (staticDestroy w, [], none)

def staticStep (w : StaticWorld) (a : StaticStep) : Option StaticWorld := (staticCall w a).map Prod.fst

def staticRun (steps : List StaticStep) : Option StaticWorld := runSteps staticStep {} steps

end ReferenceSystem
