import ReferenceSystem.Nodes
import ReferenceSystem.Runs

/-!
# A system of nodes

Callbacks of one node do not overlap. A callback starts, which updates its
node, and then performs its publication and its record one after the other;
other nodes may run in between. Everything published is kept in a log, and a
subscription may be handed any message of its topic published earlier, or
none. An atomic run performs each callback without interruption.
-/

namespace ReferenceSystem

structure System where
  nodes : List NodeSettings
  benchmarkMode : Bool := false
  structuredOutput : Bool := true
  deriving DecidableEq, Repr

/-- A published message with who published it: the node, the callback (numbered
in the order of their start), the channel, the arguments of its `set_sample`,
and the positions of the messages that were consumed. -/
structure Publication where
  node : Nat
  callback : Nat
  channel : Nat
  topic : Bytes
  sequence : UInt32
  dropped : UInt32
  timestamp : UInt64
  inputs : List Nat
  message : Message
  deriving DecidableEq, Repr

/-- A record with the callback that wrote it, the positions of the messages it
consumed and the number of messages published before it started. -/
structure LogEntry where
  record : Record
  node : Nat
  callback : Nat
  inputs : List Nat
  before : Nat
  deriving DecidableEq, Repr

inductive Action where
  | publish (publication : Publication)
  | emit (entry : LogEntry)
  deriving DecidableEq, Repr

/-- A node with its running callback and what that still has to do. -/
structure Process where
  node : Node
  callback : Nat := 0
  pending : List Action := []
  deriving DecidableEq, Repr

structure State where
  processes : List Process
  published : List Publication := []
  -- what the nodes emit, and what of it is written
  emitted : List LogEntry := []
  records : List LogEntry := []
  clock : List UInt64 := []
  metadataOverflowCount : Nat := 0
  started : Nat := 0
  deriving DecidableEq, Repr

inductive Event where
  | timer
  | deliver (subscription publication : Nat)
  deriving DecidableEq, Repr

inductive Step where
  | start (node : Nat) (event : Event) (now : UInt64)
  | act (node : Nat) (now : UInt64)
  deriving DecidableEq, Repr

def initialState (sys : System) : State := { processes := sys.nodes.map fun s => { node := .create s } }

/-- A delivery hands over a message published on the subscription's topic. -/
def resolveEvent (s : State) (settings : NodeSettings) : Event → Option NodeEvent
  | .timer => some .timer
  | .deliver subscription k =>
    match s.published[k]? with
    | none => none
    | some p =>
      if settings.inputTopics[subscription]? = some p.topic then some (.message subscription ⟨k, p.message⟩)
      else none

def linkInputs (inputs : List (Nat × Received)) : List (UInt32 × ProvenanceMessage) :=
  inputs.map fun input => (UInt32.ofNat input.1, provenanceIdentity input.2.message)

/-- The record of an output; its time is filled in when it is emitted. -/
def outputRecord (nodeName : Bytes) (timestamp : UInt64) (output : Output) : Option Record :=
  match output.kind with
  | .source kind => if kind ≠ 0 then some (.source nodeName output.sequence kind timestamp) else none
  | .link timer =>
    some (.link nodeName output.sequence (UInt32.ofNat output.channel) 0 (linkInputs output.inputs) output.source timer)

def publication (sys : System) (s : State) (i : Nat) (nodeName : Bytes) (timestamp : UInt64) (output : Output) :
    Publication where
  node := i
  callback := s.started
  channel := output.channel
  topic := output.topic
  sequence := output.sequence
  dropped := output.dropped
  timestamp := timestamp
  inputs := output.inputs.map (·.2.publication)
  message := (assemble sys.benchmarkMode nodeName timestamp output s.metadataOverflowCount).1

/-- The actions of an output, in program order. -/
def outputActions (sys : System) (s : State) (i : Nat) (nodeName : Bytes) (timestamp : UInt64) (output : Output) :
    List Action :=
  let publish := Action.publish (publication sys s i nodeName timestamp output)
  let emit := (outputRecord nodeName timestamp output).map fun record =>
    Action.emit ⟨record, i, s.started, output.inputs.map (·.2.publication), s.published.length⟩
  match output.kind with
  | .source _ => emit.toList ++ [publish]
  | .link _ => publish :: emit.toList

/-- What a callback has to do after it has updated its node, and the overflow count. -/
def perform (sys : System) (s : State) (i : Nat) (nodeName : Bytes) (timestamp : UInt64) :
    Effect → List Action × Nat
  | .silent => ([], s.metadataOverflowCount)
  | .publish output =>
    (outputActions sys s i nodeName timestamp output,
      (assemble sys.benchmarkMode nodeName timestamp output s.metadataOverflowCount).2)
  | .consume sequence input =>
    ([.emit ⟨.sink nodeName sequence 0 (provenanceIdentity input.message) (provenanceSource input.message),
      i, s.started, [input.publication], s.published.length⟩], s.metadataOverflowCount)

def start (sys : System) (s : State) (i : Nat) (event : Event) (now : UInt64) : Option State :=
  match s.processes[i]? with
  | none => none
  | some process =>
    if process.pending ≠ [] then none else
    match resolveEvent s process.node.settings event with
    | none => none
    | some nodeEvent =>
      match process.node.callback sys.benchmarkMode now nodeEvent with
      | none => none
      | some (node, effect) =>
        let result := perform sys s i node.settings.nodeName now effect
        some { s with
          processes := s.processes.set i ⟨node, s.started, result.1⟩
          clock := if process.node.readsTimestamp nodeEvent then s.clock ++ [now] else s.clock
          metadataOverflowCount := result.2
          started := s.started + 1 }

def act (sys : System) (s : State) (i : Nat) (now : UInt64) : Option State :=
  match s.processes[i]? with
  | some ⟨node, callback, .publish p :: rest⟩ =>
    some { s with processes := s.processes.set i ⟨node, callback, rest⟩, published := s.published ++ [p] }
  | some ⟨node, callback, .emit e :: rest⟩ =>
    some { s with
      processes := s.processes.set i ⟨node, callback, rest⟩
      emitted := s.emitted ++ [{ e with record := e.record.stamp now }]
      records := if sys.structuredOutput then s.records ++ [{ e with record := e.record.stamp now }] else s.records
      clock := if e.record.isSource then s.clock else s.clock ++ [now] }
  | _ => none

def step (sys : System) (s : State) : Step → Option State
  | .start i event now => start sys s i event now
  | .act i now => act sys s i now

def run (sys : System) (steps : List Step) : Option State := runSteps (step sys) (initialState sys) steps

/-! ## Atomic callbacks -/

/-- A whole callback: `now` is its timestamp and `emitNs` the time of its record. -/
structure AtomicStep where
  node : Nat
  event : Event
  now : UInt64
  emitNs : UInt64
  deriving DecidableEq, Repr

def remaining (s : State) (i : Nat) : Nat := ((s.processes[i]?.map (·.pending)).getD []).length

def atomicStep (sys : System) (s : State) (a : AtomicStep) : Option State :=
  (start sys s a.node a.event a.now).bind fun t =>
    runSteps (step sys) t (List.replicate (remaining t a.node) (.act a.node a.emitNs))

/-- Callbacks one after the other. -/
def atomicRun (sys : System) (steps : List AtomicStep) : Option State :=
  runSteps (atomicStep sys) (initialState sys) steps

theorem run_of_atomicRun {sys : System} {steps : List AtomicStep} {s : State} (h : atomicRun sys steps = some s) :
    ∃ steps', run sys steps' = some s := by
  have key : ∀ (steps : List AtomicStep) (s₀ : State), runSteps (atomicStep sys) s₀ steps = some s →
      ∃ steps', runSteps (step sys) s₀ steps' = some s := by
    intro steps
    induction steps with
    | nil => exact fun s₀ h => ⟨[], h⟩
    | cons a steps ih =>
      intro s₀ h
      obtain ⟨t, ht, hr⟩ := runSteps_cons.mp h
      obtain ⟨u, hu, hd⟩ := Option.bind_eq_some_iff.mp ht
      obtain ⟨steps', hs⟩ := ih t hr
      refine ⟨.start a.node a.event a.now ::
        (List.replicate (remaining u a.node) (.act a.node a.emitNs) ++ steps'), ?_⟩
      refine runSteps_cons.mpr ⟨u, hu, ?_⟩
      rw [runSteps_append, hd]
      exact hs
  exact key steps _ h

/-! ## A small system -/

/-- Two lidars, their fusion, and a command node on the fused topic. -/
def lidarSystem : System where
  nodes := [
    .sensor ⟨ascii "FrontLidarDriver", ascii "FrontLidarDriver", 1⟩,
    .sensor ⟨ascii "RearLidarDriver", ascii "RearLidarDriver", 2⟩,
    .fusion ⟨ascii "PointCloudFusion", ascii "FrontLidarDriver", ascii "RearLidarDriver", ascii "PointCloudFusion"⟩,
    .command ⟨ascii "VehicleDBWSystem", ascii "PointCloudFusion"⟩]

/-- One pass: the rear lidar is cached, the front lidar triggers the fusion. -/
def lidarRun : List AtomicStep := [
  ⟨1, .timer, 10, 11⟩, ⟨2, .deliver 1 0, 20, 21⟩, ⟨0, .timer, 30, 31⟩, ⟨2, .deliver 0 1, 40, 41⟩,
  ⟨3, .deliver 0 2, 50, 51⟩]

end ReferenceSystem
