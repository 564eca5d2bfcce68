import Mathlib
import ReferenceSystem.Runs
import ReferenceSystem.Selection

/-!
# The nodes and callback groups of executors

`Executor::add_node`, `remove_node`, `add_callback_group`,
`remove_callback_group`, the first block of `wait_for_work` and the destructor,
for any number of executors on one context. Nodes and callback groups are told
apart by numbers; a weak pointer is the number of its object, and expires when
the last owner releases the object. A call that throws keeps what it has done
until then.
-/

namespace ReferenceSystem

/-! ## The state -/

/-- `std::map` from callback groups to nodes, both weak, in the order of the owners of the keys. -/
abbrev WeakGroupsToNodes := Std.TreeMap Nat Nat

inductive GuardCondition where
  | shutdown
  | interrupt
  -- `get_notify_guard_condition` of a callback group
  | notify (group : Nat)
  deriving DecidableEq, Repr

structure ExecutorMaps where
  weakNodes : List Nat := []
  weakGroupsAssociatedWithExecutorToNodes : WeakGroupsToNodes := ∅
  weakGroupsToNodesAssociatedWithExecutor : WeakGroupsToNodes := ∅
  weakGroupsToNodes : WeakGroupsToNodes := ∅
  weakGroupsToGuardConditions : Std.TreeMap Nat GuardCondition := ∅
  -- `guard_conditions_` of the memory strategy
  guardConditions : List GuardCondition := [.shutdown, .interrupt]
  -- how often the interrupt guard condition was triggered
  triggered : Nat := 0

/-- Which of the two maps a callback group is in: added by itself, or with its node. -/
inductive AddedBy where
  | itself
  | node
  deriving DecidableEq, Repr

def ExecutorMaps.map (x : ExecutorMaps) : AddedBy → WeakGroupsToNodes
  | .itself => x.weakGroupsAssociatedWithExecutorToNodes
  | .node => x.weakGroupsToNodesAssociatedWithExecutor

def ExecutorMaps.setMap (x : ExecutorMaps) (k : AddedBy) (m : WeakGroupsToNodes) : ExecutorMaps :=
  match k with
  | .itself => { x with weakGroupsAssociatedWithExecutorToNodes := m }
  | .node => { x with weakGroupsToNodesAssociatedWithExecutor := m }

structure CreatedGroup where
  id : Nat
  node : Nat
  automaticallyAddToExecutorWithNode : Bool := true
  deriving DecidableEq, Repr

/-- Nodes, callback groups and executors; `hasExecutor` is `associated_with_executor_`. -/
structure Association where
  -- in the order of their creation
  callbackGroups : List CreatedGroup := []
  groupExpired : Nat → Bool := fun _ => false
  groupHasExecutor : Nat → Bool := fun _ => false
  nodeExpired : Nat → Bool := fun _ => false
  nodeHasExecutor : Nat → Bool := fun _ => false
  contextValid : Bool := true
  executors : Nat → ExecutorMaps := fun _ => {}
  -- whether rcl fails to trigger the interrupt guard condition of an executor for the n-th time
  triggerFails : Nat → Nat → Bool := fun _ _ => false

inductive AssociationError where
  | groupHasExecutor
  | groupInMap
  | nodeHasExecutor
  | nodeDeleted
  | groupNotAssociated
  | nodeNotAssociated
  | nodeNotInExecutor
  | triggerOnAdd
  | triggerOnRemove
  -- of the static executor
  | nodeHasStaticExecutor
  | trigger
  deriving DecidableEq, Repr

def Association.setExecutor (w : Association) (e : Nat) (x : ExecutorMaps) : Association :=
  { w with executors := Function.update w.executors e x }

/-- A call leaves a state and may have thrown. -/
abbrev Called := Association × Option AssociationError

/-- A loop ends at the first exception. -/
def forEach {α : Type} (f : α → Association → Called) : List α → Association → Called
  | [], w => (w, none)
  | a :: as, w =>
    match f a w with
    | (w, none) => forEach f as w
    | (w, some error) => (w, some error)

/-- Trigger the interrupt guard condition if asked to; `interruptError` is what that throws. -/
def ExecutorMaps.interrupt (x : ExecutorMaps) (notify : Bool) : ExecutorMaps :=
  if notify then { x with triggered := x.triggered + 1 } else x

def Association.interruptError (w : Association) (e : Nat) (notify : Bool) (error : AssociationError) :
    Option AssociationError :=
  if notify && w.triggerFails e (w.executors e).triggered then some error else none

/-! ## Adding -/

def addGuardCondition (guardConditions : List GuardCondition) (c : GuardCondition) : List GuardCondition :=
  if c ∈ guardConditions then guardConditions else guardConditions ++ [c]

/-- Both insertions of a callback group, and its guard condition while the context is valid. -/
def ExecutorMaps.insertGroup (x : ExecutorMaps) (k : AddedBy) (group node : Nat) (contextValid notify : Bool) :
    ExecutorMaps :=
  let x := x.setMap k ((x.map k).insertIfNew group node)
  let x := { x with weakGroupsToNodes := x.weakGroupsToNodes.insertIfNew group node }
  let x :=
    if contextValid then
      { x with
        weakGroupsToGuardConditions := x.weakGroupsToGuardConditions.insert group (.notify group)
        guardConditions := addGuardCondition x.guardConditions (.notify group) }
    else x
  x.interrupt notify

def addCallbackGroupToMap (e group node : Nat) (k : AddedBy) (notify : Bool) (w : Association) : Called :=
  if w.groupHasExecutor group then (w, some .groupHasExecutor)
  else
    let w := { w with groupHasExecutor := storeFlag w.groupHasExecutor group true }
    let x := w.executors e
    if group ∈ x.map k then (w, some .groupInMap)
    else
      (w.setExecutor e (x.insertGroup k group node w.contextValid notify), w.interruptError e notify .triggerOnAdd)

def addCallbackGroup (e group node : Nat) (notify : Bool) : Association → Called :=
  addCallbackGroupToMap e group node .itself notify

/-- `for_each_callback_group`, in the order in which the node has created them. -/
def Association.groupsOf (w : Association) (node : Nat) : List CreatedGroup :=
  w.callbackGroups.filter fun g => g.node = node && !w.groupExpired g.id

def addWithNode (e node : Nat) (notify : Bool) (g : CreatedGroup) (w : Association) : Called :=
  if g.automaticallyAddToExecutorWithNode && !w.groupHasExecutor g.id then
    addCallbackGroupToMap e g.id node .node notify w
  else (w, none)

def addNode (e node : Nat) (notify : Bool) (w : Association) : Called :=
  if w.nodeHasExecutor node then (w, some .nodeHasExecutor)
  else
    let w := { w with nodeHasExecutor := storeFlag w.nodeHasExecutor node true }
    match forEach (addWithNode e node notify) (w.groupsOf node) w with
    | (w, none) =>
      (w.setExecutor e { w.executors e with weakNodes := (w.executors e).weakNodes ++ [node] }, none)
    | (w, some error) => (w, some error)

/-! ## Removing -/

def removeGuardCondition (guardConditions : List GuardCondition) (c : GuardCondition) : List GuardCondition :=
  guardConditions.erase c

def Association.hasNode (w : Association) (node : Nat) (m : WeakGroupsToNodes) : Bool :=
  m.toList.any fun p => !w.nodeExpired p.2 && p.2 == node

/-- Drop the guard condition of a callback group, with its entry. -/
def ExecutorMaps.dropGuardCondition (x : ExecutorMaps) (group : Nat) : ExecutorMaps :=
  match x.weakGroupsToGuardConditions[group]? with
  | none => x
  | some c =>
    { x with
      weakGroupsToGuardConditions := x.weakGroupsToGuardConditions.erase group
      guardConditions := removeGuardCondition x.guardConditions c }

def ExecutorMaps.eraseGroup (x : ExecutorMaps) (k : AddedBy) (group : Nat) : ExecutorMaps :=
  let x := x.setMap k ((x.map k).erase group)
  { x with weakGroupsToNodes := x.weakGroupsToNodes.erase group }

/-- `group` is null when the weak pointer it was locked from has expired. -/
def removeCallbackGroupFromMap (e : Nat) (group : Option Nat) (k : AddedBy) (notify : Bool) (w : Association) :
    Called :=
  let x := w.executors e
  match group with
  | none => (w, some .groupNotAssociated)
  | some group =>
    match (x.map k)[group]? with
    | none => (w, some .groupNotAssociated)
    | some node =>
      if w.nodeExpired node then (w, some .nodeDeleted)
      else
        let x := x.eraseGroup k group
        let w := { w with groupHasExecutor := storeFlag w.groupHasExecutor group false }
        -- only when no other callback group of the node is left
        if !w.hasNode node x.weakGroupsToNodesAssociatedWithExecutor &&
            !w.hasNode node x.weakGroupsAssociatedWithExecutorToNodes then
          (w.setExecutor e ((x.dropGuardCondition group).interrupt notify),
            w.interruptError e notify .triggerOnRemove)
        else (w.setExecutor e x, none)

def removeCallbackGroup (e group : Nat) (notify : Bool) : Association → Called :=
  removeCallbackGroupFromMap e (some group) .itself notify

def removeWithNode (e : Nat) (notify : Bool) (group : Nat) (w : Association) : Called :=
  removeCallbackGroupFromMap e (if w.groupExpired group then none else some group) .node notify w

def removeNode (e node : Nat) (notify : Bool) (w : Association) : Called :=
  if !w.nodeHasExecutor node then (w, some .nodeNotAssociated)
  else
    let x := w.executors e
    if node ∉ x.weakNodes then (w, some .nodeNotInExecutor)
    else
      let w := w.setExecutor e { x with weakNodes := x.weakNodes.filter (· ≠ node) }
      let groups := x.weakGroupsToNodesAssociatedWithExecutor.toList.filter fun p => p.2 = node
      match forEach (removeWithNode e notify) (groups.map Prod.fst) w with
      | (w, none) => ({ w with nodeHasExecutor := storeFlag w.nodeHasExecutor node false }, none)
      | (w, some error) => (w, some error)

/-! ## Waiting and destruction -/

def addCallbackGroupsFromNodesAssociatedToExecutor (e : Nat) (w : Association) : Called :=
  forEach (fun node w => if w.nodeExpired node then (w, none) else forEach (addWithNode e node true) (w.groupsOf node) w)
    (w.executors e).weakNodes w

/-- Erase a callback group whose pointer, or whose node's pointer, has expired. -/
def ExecutorMaps.dropInvalid (x : ExecutorMaps) (group : Nat) : ExecutorMaps :=
  let x := { x with
    weakGroupsToNodesAssociatedWithExecutor := x.weakGroupsToNodesAssociatedWithExecutor.erase group
    weakGroupsAssociatedWithExecutorToNodes := x.weakGroupsAssociatedWithExecutorToNodes.erase group }
  let x := x.dropGuardCondition group
  { x with weakGroupsToNodes := x.weakGroupsToNodes.erase group }

def Association.invalidGroups (w : Association) (e : Nat) : List Nat :=
  ((w.executors e).weakGroupsToNodes.toList.filter fun p => w.groupExpired p.1 || w.nodeExpired p.2).map Prod.fst

/-- The first block of `wait_for_work`, up to the wait set. -/
def prepareWait (e : Nat) (w : Association) : Called :=
  match addCallbackGroupsFromNodesAssociatedToExecutor e w with
  | (w, none) => (w.setExecutor e ((w.invalidGroups e).foldl ExecutorMaps.dropInvalid (w.executors e)), none)
  | (w, some error) => (w, some error)

/-- The destructor; a new executor may take the number. -/
def destroy (e : Nat) (w : Association) : Association :=
  let x := w.executors e
  { w with
    groupHasExecutor := fun g =>
      if g ∈ x.weakGroupsToNodes ∧ w.groupExpired g = false then false else w.groupHasExecutor g
    nodeHasExecutor := fun n =>
      if n ∈ x.weakNodes ∧ w.nodeExpired n = false then false else w.nodeHasExecutor n
    executors := Function.update w.executors e {} }

/-! ## Runs -/

/-- Calls on executors, and what happens to nodes and callback groups between
them. A call holds its arguments, so these have not expired. -/
inductive AssociationStep where
  | createCallbackGroup (group : CreatedGroup)
  | releaseGroup (group : Nat)
  | releaseNode (node : Nat)
  | shutdown
  -- from now on the trigger of that number fails, or not
  | setTrigger (e count : Nat) (fails : Bool)
  | addNode (e node : Nat) (notify : Bool)
  | removeNode (e node : Nat) (notify : Bool)
  | addCallbackGroup (e group node : Nat) (notify : Bool)
  | removeCallbackGroup (e group : Nat) (notify : Bool)
  | prepareWait (e : Nat)
  | destroy (e : Nat)
  deriving DecidableEq, Repr

def Association.holds (w : Association) (group : Nat) : Bool :=
  w.callbackGroups.any (·.id == group) && !w.groupExpired group

/-- One step, with what it throws; `none` when its arguments do not exist. -/
def call (w : Association) : AssociationStep → Option Called
  | .createCallbackGroup g =>
    if w.nodeExpired g.node || w.callbackGroups.any (·.id == g.id) then none
    else some ({ w with callbackGroups := w.callbackGroups ++ [g] }, none)
  | .releaseGroup g =>
    if w.holds g then some ({ w with groupExpired := storeFlag w.groupExpired g true }, none) else none
  | .releaseNode n => some ({ w with nodeExpired := storeFlag w.nodeExpired n true }, none)
  | .shutdown => some ({ w with contextValid := false }, none)
  | .setTrigger e count fails =>
    some ({ w with triggerFails := Function.update w.triggerFails e (storeFlag (w.triggerFails e) count fails) }, none)
  | .addNode e n notify => if w.nodeExpired n then none else some (addNode e n notify w)
  | .removeNode e n notify => if w.nodeExpired n then none else some (removeNode e n notify w)
  | .addCallbackGroup e g n notify =>
    if w.holds g && !w.nodeExpired n then some (addCallbackGroup e g n notify w) else none
  | .removeCallbackGroup e g notify => if w.holds g then some (removeCallbackGroup e g notify w) else none
  | .prepareWait e => some (prepareWait e w)
  | .destroy e => some (destroy e w, none)

def associationStep (w : Association) (a : AssociationStep) : Option Association := (call w a).map Prod.fst

def associationRun (steps : List AssociationStep) : Option Association := runSteps associationStep {} steps

/-- One node with two callback groups, in one executor. -/
def twoGroups : List AssociationStep := [
  .createCallbackGroup { id := 0, node := 7 }, .createCallbackGroup { id := 1, node := 7 }, .addNode 0 7 true]

end ReferenceSystem
