import Mathlib.Algebra.Group.Int.Defs
import ReferenceSystem.Samples
import ReferenceSystem.Stream

/-!
# Source schedules

`SourceSchedule` and the part of `Sensor` that applies it. Files are given by
their contents; the constructor and `due` read them token by token. Signed
64-bit values are integers: the checks keep every sum in range. The timer is
its period, which `rcl_timer_exchange_period` replaces.
-/

namespace ReferenceSystem

structure Phase where
  id : Bytes
  offset : Int
  period : Int
  deriving DecidableEq, Repr

inductive ScheduleError where
  | scheduleIdentity
  | phase
  | trailing
  | startRecord
  | emptyToken
  | unsafeToken
  deriving DecidableEq, Repr

structure SourceSchedule where
  session : Bytes
  boot : Bytes
  hash : Bytes
  duration : Int
  phases : List Phase
  epoch : Int := 0
  next : Nat := 0
  deriving DecidableEq, Repr

/-! ## Reading a schedule -/

def isTokenChar (c : UInt8) : Bool :=
  (97 ≤ c && c ≤ 122) || (65 ≤ c && c ≤ 90) || (48 ≤ c && c ≤ 57) || c == 45 || c == 95 || c == 46

def checkToken (token : Bytes) : Except ScheduleError Unit :=
  if token = [] ∨ token = ascii "." ∨ token = ascii ".." then .error .emptyToken
  else if token.all isTokenChar then .ok ()
  else .error .unsafeToken

def checkTokens : List Bytes → Except ScheduleError Unit
  | [] => .ok ()
  | token :: tokens => do checkToken token; checkTokens tokens

/-- The tokens before the phases, in the order of the file. -/
structure ScheduleHeader where
  magic : Bytes
  session : Bytes
  boot : Bytes
  hash : Bytes
  declaredSource : Bytes
  declaredInstance : Bytes
  duration : Int
  count : Nat
  deriving DecidableEq, Repr

def extractHeader : Extraction ScheduleHeader := fun input => do
  let (magic, input) ← extractWord input
  let (session, input) ← extractWord input
  let (boot, input) ← extractWord input
  let (hash, input) ← extractWord input
  let (declaredSource, input) ← extractWord input
  let (declaredInstance, input) ← extractWord input
  let (duration, input) ← extractInt64 input
  let (count, input) ← extractSize input
  return (⟨magic, session, boot, hash, declaredSource, declaredInstance, duration, count⟩, input)

def extractPhase : Extraction Phase := fun input => do
  let (id, input) ← extractWord input
  let (offset, input) ← extractInt64 input
  let (period, input) ← extractInt64 input
  return (⟨id, offset, period⟩, input)

def phaseAllowed (duration : Int) (phases : List Phase) (phase : Phase) : Bool :=
  0 < phase.period && 0 ≤ phase.offset && phase.offset < duration &&
    (match phases.getLast? with
      | none => phase.offset == 0
      | some last => decide (last.offset < phase.offset)) &&
    !(phases.map (·.id)).contains phase.id

def readPhases (duration : Int) : Nat → List Phase → List UInt8 → Except ScheduleError (List Phase × List UInt8)
  | 0, phases, input => .ok (phases, input)
  | n + 1, phases, input =>
    match extractPhase input with
    | none => .error .phase
    | some (phase, input) =>
      if phaseAllowed duration phases phase then do
        checkToken phase.id
        readPhases duration n (phases ++ [phase]) input
      else .error .phase

/-- The constructor, on the contents of the schedule file. -/
def SourceSchedule.create (text source boot instanceId : Bytes) (initial : Int) :
    Except ScheduleError SourceSchedule :=
  match extractHeader text with
  | none => .error .scheduleIdentity
  | some (header, input) =>
    if header.magic ≠ ascii "LAME_SOURCE_SCHEDULE_V1" ∨ header.declaredSource ≠ source ∨ header.boot ≠ boot ∨
        header.declaredInstance ≠ instanceId ∨ header.duration ≤ 0 ∨ header.count ≠ 3 then
      .error .scheduleIdentity
    else do
      checkTokens [header.session, header.boot, header.hash, source, instanceId]
      let (phases, input) ← readPhases header.duration header.count [] input
      if (extractWord input).isSome ∨ phases.head?.map (·.period) ≠ some initial ∨
          phases.head?.map (·.period) ≠ phases.getLast?.map (·.period) then
        .error .trailing
      else
        .ok { session := header.session, boot := header.boot, hash := header.hash, duration := header.duration, phases }

/-! ## Due phases -/

structure StartRecord where
  magic : Bytes
  session : Bytes
  boot : Bytes
  hash : Bytes
  epoch : Int
  deriving DecidableEq, Repr

def extractStart : Extraction StartRecord := fun input => do
  let (magic, input) ← extractWord input
  let (session, input) ← extractWord input
  let (boot, input) ← extractWord input
  let (hash, input) ← extractWord input
  let (epoch, input) ← extractInt64 input
  return (⟨magic, session, boot, hash, epoch⟩, input)

namespace SourceSchedule

/-- The epoch of a start file's contents. -/
def readStart (s : SourceSchedule) (text : Bytes) : Except ScheduleError Int :=
  match extractStart text with
  | none => .error .startRecord
  | some (start, input) =>
    if (extractWord input).isSome ∨ start.magic ≠ ascii "LAME_SOURCE_START_V1" ∨ start.session ≠ s.session ∨
        start.boot ≠ s.boot ∨ start.hash ≠ s.hash ∨ start.epoch ≤ 0 ∨ 2 ^ 63 - 1 - s.duration < start.epoch then
      .error .startRecord
    else .ok start.epoch

def requested (s : SourceSchedule) (index : Nat) : Int := s.epoch + (s.phases[index]?.map (·.offset)).getD 0

def dueFrom (s : SourceSchedule) (now : Int) : List Nat :=
  (List.range' s.next (s.phases.length - s.next)).takeWhile fun i => s.requested i ≤ now

/-- `start` is the contents of the start file, if it exists. -/
def due (s : SourceSchedule) (now : Int) (start : Option Bytes) : Except ScheduleError (SourceSchedule × List Nat) :=
  if s.epoch ≠ 0 then .ok (s, s.dueFrom now)
  else
    match start with
    | none => .ok (s, [])
    | some text => do
      let epoch ← s.readStart text
      let armed := { s with epoch }
      .ok (armed, armed.dueFrom now)

def applied (s : SourceSchedule) (index : Nat) : SourceSchedule := { s with next := index + 1 }

/-- `due` on the object itself, which keeps what was assigned before a throw. -/
def dueState (now : Int) (start : Option Bytes) : EStateM ScheduleError SourceSchedule (List Nat) := do
  if (← get).epoch = 0 then
    match start with
    | none => return []
    | some text =>
      match (← get).readStart text with
      | .error e => throw e
      | .ok epoch => modify fun s => { s with epoch }
  return (← get).dueFrom now

end SourceSchedule

inductive ScheduleCall where
  | due (now : Int) (start : Option Bytes)
  | applied (index : Nat)

/-- A schedule in use, with what the last `due` that returned has returned. -/
structure ScheduleUse where
  schedule : SourceSchedule
  lastDue : List Nat := []

def ScheduleUse.call (u : ScheduleUse) : ScheduleCall → Option ScheduleUse
  | .due now start =>
    match (SourceSchedule.dueState now start).run u.schedule with
    | .ok due schedule => some ⟨schedule, due⟩
    | .error _ schedule => some { u with schedule }
  | .applied index => if index ∈ u.lastDue then some { u with schedule := u.schedule.applied index } else none

/-! ## Applying a schedule -/

inductive ApplicationStatus where
  | skipped
  | applied
  deriving DecidableEq, Repr

structure ApplicationRecord where
  session : Bytes
  boot : Bytes
  hash : Bytes
  source : Bytes
  instanceId : Bytes
  phaseId : Bytes
  status : ApplicationStatus
  requestedNs : Int
  appliedNs : Int
  oldPeriodNs : Int
  newPeriodNs : Int
  deriving DecidableEq, Repr

def SourceSchedule.record (s : SourceSchedule) (index : Nat) (status : ApplicationStatus)
    (source boot instanceId : Bytes) (oldPeriod newPeriod application : Int) : ApplicationRecord where
  session := s.session
  boot := boot
  hash := s.hash
  source := source
  instanceId := instanceId
  phaseId := (s.phases[index]?.map (·.id)).getD []
  status := status
  requestedNs := s.requested index
  appliedNs := application
  oldPeriodNs := oldPeriod
  newPeriodNs := newPeriod

/-- A sensor with a schedule: its identity, its timer's period and its log, with
all clock reads so far. -/
structure ScheduledSensor where
  source : Bytes
  boot : Bytes
  instanceId : Bytes
  schedule : SourceSchedule
  period : Int
  applications : List ApplicationRecord := []
  reads : List Int := []
  deriving DecidableEq, Repr

/-- One timer callback: the time `due` sees, the contents of the start file at
that moment, and the time read for the `k`-th record. -/
structure ScheduleCallback where
  now : Int
  start : Option Bytes
  application : Nat → Int

/-- The records of a callback: all due phases but the last are skipped. -/
def applicationRecords (n : ScheduledSensor) (schedule : SourceSchedule) (application : Nat → Int) (due : List Nat)
    (last : Nat) (newPeriod : Int) : List ApplicationRecord :=
  (due.dropLast.zipIdx.map fun (index, k) =>
    schedule.record index .skipped n.source n.boot n.instanceId n.period n.period (application k)) ++
  [schedule.record last .applied n.source n.boot n.instanceId n.period newPeriod (application (due.length - 1))]

def ScheduledSensor.applySourceSchedule (n : ScheduledSensor) (c : ScheduleCallback) :
    Except ScheduleError ScheduledSensor := do
  let (schedule, due) ← n.schedule.due c.now c.start
  match due.getLast? with
  | none => .ok { n with schedule, reads := n.reads ++ [c.now] }
  | some last =>
    let newPeriod := (schedule.phases[last]?.map (·.period)).getD 0
    .ok { n with
      schedule := schedule.applied last
      period := newPeriod
      applications := n.applications ++ applicationRecords n schedule c.application due last newPeriod
      reads := n.reads ++ c.now :: (List.range due.length).map c.application }

/-- A callback whose start record is rejected throws and leaves everything as it was. -/
def ScheduledSensor.timerCallback (n : ScheduledSensor) (c : ScheduleCallback) : ScheduledSensor :=
  match n.applySourceSchedule c with
  | .ok n' => n'
  | .error _ => { n with reads := n.reads ++ [c.now] }

def ScheduledSensor.run (n : ScheduledSensor) (callbacks : List ScheduleCallback) : ScheduledSensor :=
  callbacks.foldl ScheduledSensor.timerCallback n

end ReferenceSystem
