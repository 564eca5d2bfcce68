import ReferenceSystem.Provenance

/-!
# The six node types

Settings, state and callbacks of `Sensor`, `Transform`, `Fusion`, `Cyclic`,
`Intersection` and `Command`. A callback updates its node and says what it is
about to publish or to log; `assemble` builds the message. Sequence counters
are kept as the number of their increments, and read modulo 2^32.
-/

namespace ReferenceSystem

/-! ## Settings -/

structure SensorSettings where
  nodeName : Bytes
  topicName : Bytes
  sourceKind : UInt32 := 0
  deriving DecidableEq, Repr

structure TransformSettings where
  nodeName : Bytes
  inputTopic : Bytes
  outputTopic : Bytes
  deriving DecidableEq, Repr

structure FusionSettings where
  nodeName : Bytes
  input0 : Bytes
  input1 : Bytes
  outputTopic : Bytes
  deriving DecidableEq, Repr

structure CyclicSettings where
  nodeName : Bytes
  inputs : List Bytes
  outputTopic : Bytes
  deriving DecidableEq, Repr

structure ConnectionSettings where
  inputTopic : Bytes
  outputTopic : Bytes
  deriving DecidableEq, Repr

structure IntersectionSettings where
  nodeName : Bytes
  connections : List ConnectionSettings
  deriving DecidableEq, Repr

structure CommandSettings where
  nodeName : Bytes
  inputTopic : Bytes
  deriving DecidableEq, Repr

inductive NodeSettings where
  | sensor (settings : SensorSettings)
  | transform (settings : TransformSettings)
  | fusion (settings : FusionSettings)
  | cyclic (settings : CyclicSettings)
  | intersection (settings : IntersectionSettings)
  | command (settings : CommandSettings)
  deriving DecidableEq, Repr

namespace NodeSettings

def nodeName : NodeSettings → Bytes
  | sensor s => s.nodeName
  | transform s => s.nodeName
  | fusion s => s.nodeName
  | cyclic s => s.nodeName
  | intersection s => s.nodeName
  | command s => s.nodeName

def inputTopics : NodeSettings → List Bytes
  | sensor _ => []
  | transform s => [s.inputTopic]
  | fusion s => [s.input0, s.input1]
  | cyclic s => s.inputs
  | intersection s => s.connections.map (·.inputTopic)
  | command s => [s.inputTopic]

def outputTopics : NodeSettings → List Bytes
  | sensor s => [s.topicName]
  | transform s => [s.outputTopic]
  | fusion s => [s.outputTopic]
  | cyclic s => [s.outputTopic]
  | intersection s => s.connections.map (·.outputTopic)
  | command _ => []

end NodeSettings

/-! ## Nodes -/

/-- A message held through a shared pointer, with its position in the log of
everything published. -/
structure Received where
  publication : Nat
  message : Message
  deriving DecidableEq, Repr

structure Subscription where
  sequenceNumber : UInt32 := 0
  cache : Option Received := none
  deriving DecidableEq, Repr

structure Connection where
  sequenceNumber : Nat := 0
  inputSequenceNumber : UInt32 := 0
  deriving DecidableEq, Repr

structure Sensor where
  settings : SensorSettings
  sequenceNumber : Nat := 0
  deriving DecidableEq, Repr

structure Transform where
  settings : TransformSettings
  sequenceNumber : Nat := 0
  inputSequenceNumber : UInt32 := 0
  deriving DecidableEq, Repr

structure Fusion where
  settings : FusionSettings
  subscription0 : Subscription := {}
  subscription1 : Subscription := {}
  sequenceNumber : Nat := 0
  deriving DecidableEq, Repr

structure Cyclic where
  settings : CyclicSettings
  subscriptions : List Subscription
  sequenceNumber : Nat := 0
  deriving DecidableEq, Repr

structure Intersection where
  settings : IntersectionSettings
  connections : List Connection
  deriving DecidableEq, Repr

structure Command where
  settings : CommandSettings
  sequenceNumber : UInt32 := 0
  sinkSequenceNumber : Nat := 0
  deriving DecidableEq, Repr

inductive Node where
  | sensor (node : Sensor)
  | transform (node : Transform)
  | fusion (node : Fusion)
  | cyclic (node : Cyclic)
  | intersection (node : Intersection)
  | command (node : Command)
  deriving DecidableEq, Repr

namespace Node

def settings : Node → NodeSettings
  | sensor n => .sensor n.settings
  | transform n => .transform n.settings
  | fusion n => .fusion n.settings
  | cyclic n => .cyclic n.settings
  | intersection n => .intersection n.settings
  | command n => .command n.settings

def create : NodeSettings → Node
  | .sensor s => .sensor { settings := s }
  | .transform s => .transform { settings := s }
  | .fusion s => .fusion { settings := s }
  | .cyclic s => .cyclic { settings := s, subscriptions := s.inputs.map fun _ => {} }
  | .intersection s => .intersection { settings := s, connections := s.connections.map fun _ => {} }
  | .command s => .command { settings := s }

end Node

/-! ## Callbacks -/

/-- Which record goes with a published message: a source record before the
publication, or a link record after it. -/
inductive OutputKind where
  | source (kind : UInt32)
  | link (timer : Bool)
  deriving DecidableEq, Repr

/-- A message about to be published: the inputs whose histories are merged,
with their numbers in the link record, and what `set_sample` and
`set_provenance` are given. -/
structure Output where
  channel : Nat
  topic : Bytes
  inputs : List (Nat × Received)
  sequence : UInt32
  dropped : UInt32
  source : ProvenanceSource
  kind : OutputKind
  deriving DecidableEq, Repr

inductive Effect where
  | silent
  | publish (output : Output)
  | consume (sequence : UInt32) (input : Received)
  deriving DecidableEq, Repr

/-- The output message: empty history, merged inputs, own sample, provenance. -/
def assemble (benchmarkMode : Bool) (nodeName : Bytes) (timestamp : UInt64) (output : Output) (overflow : Nat) :
    Message × Nat :=
  let merged := output.inputs.foldl
    (fun st input => mergeHistoryIntoSample benchmarkMode input.2.message st) (default, overflow)
  let sampled := setSample benchmarkMode nodeName output.sequence output.dropped timestamp merged
  (setProvenance sampled.1 nodeName output.sequence (UInt32.ofNat output.channel) output.source, sampled.2)

def Sensor.timerCallback (timestamp : UInt64) (n : Sensor) : Sensor × Effect :=
  let sequence := UInt32.ofNat n.sequenceNumber
  ({ n with sequenceNumber := n.sequenceNumber + 1 },
    .publish {
      channel := 0
      topic := n.settings.topicName
      inputs := []
      sequence
      dropped := 0
      source := ⟨n.settings.sourceKind, sequence, timestamp⟩
      kind := .source n.settings.sourceKind })

def Transform.inputCallback (benchmarkMode : Bool) (input : Received) (n : Transform) : Transform × Effect :=
  let missed := getMissedSamplesAndUpdateSeqNr benchmarkMode input.message n.inputSequenceNumber
  ({ n with inputSequenceNumber := missed.2, sequenceNumber := n.sequenceNumber + 1 },
    .publish {
      channel := 0
      topic := n.settings.outputTopic
      inputs := [(0, input)]
      sequence := UInt32.ofNat n.sequenceNumber
      dropped := missed.1
      source := provenanceSource input.message
      kind := .link false })

/-- Only a message on subscription 0 triggers a publication, and only once both caches are filled. -/
def Fusion.inputCallback (benchmarkMode : Bool) (inputNumber : Nat) (input : Received) (n : Fusion) :
    Fusion × Effect :=
  if inputNumber ≠ 0 then
    ({ n with subscription1 := { n.subscription1 with cache := some input } }, .silent)
  else
    match n.subscription1.cache with
    | none => ({ n with subscription0 := { n.subscription0 with cache := some input } }, .silent)
    | some cache1 =>
      let missed0 := getMissedSamplesAndUpdateSeqNr benchmarkMode input.message n.subscription0.sequenceNumber
      let missed1 := getMissedSamplesAndUpdateSeqNr benchmarkMode cache1.message n.subscription1.sequenceNumber
      ({ n with
          subscription0 := { sequenceNumber := missed0.2, cache := some input }
          subscription1 := { sequenceNumber := missed1.2, cache := some cache1 }
          sequenceNumber := n.sequenceNumber + 1 },
        .publish {
          channel := 0
          topic := n.settings.outputTopic
          inputs := [(0, input), (1, cache1)]
          sequence := UInt32.ofNat n.sequenceNumber
          dropped := missed0.1 + missed1.1
          source := oldestProvenanceSource [provenanceSource input.message, provenanceSource cache1.message]
          kind := .link false })

def Cyclic.inputCallback (inputNumber : Nat) (input : Received) (n : Cyclic) : Cyclic × Effect :=
  ({ n with subscriptions := n.subscriptions.modify inputNumber fun s => { s with cache := some input } }, .silent)

def Cyclic.received (n : Cyclic) : List (Nat × Received) :=
  n.subscriptions.zipIdx.filterMap fun (s, i) => s.cache.map (i, ·)

/-- One subscription after the timer callback: counted and emptied if it held a message. -/
def Subscription.drain (benchmarkMode : Bool) (s : Subscription) : Subscription × UInt32 :=
  match s.cache with
  | none => (s, 0)
  | some cache =>
    let missed := getMissedSamplesAndUpdateSeqNr benchmarkMode cache.message s.sequenceNumber
    ({ sequenceNumber := missed.2, cache := none }, missed.1)

def Cyclic.timerCallback (benchmarkMode : Bool) (n : Cyclic) : Cyclic × Effect :=
  let drained := n.subscriptions.map (Subscription.drain benchmarkMode)
  ({ n with subscriptions := drained.map Prod.fst, sequenceNumber := n.sequenceNumber + 1 },
    .publish {
      channel := 0
      topic := n.settings.outputTopic
      inputs := n.received
      sequence := UInt32.ofNat n.sequenceNumber
      dropped := (drained.map Prod.snd).foldl (· + ·) 0
      source := oldestProvenanceSource (n.received.map fun r => provenanceSource r.2.message)
      kind := .link true })

def Intersection.inputCallback (benchmarkMode : Bool) (id : Nat) (input : Received) (n : Intersection) :
    Option (Intersection × Effect) :=
  match n.connections[id]?, n.settings.connections[id]? with
  | some connection, some settings =>
    let missed := getMissedSamplesAndUpdateSeqNr benchmarkMode input.message connection.inputSequenceNumber
    some ({ n with connections := n.connections.set id ⟨connection.sequenceNumber + 1, missed.2⟩ },
      .publish {
        channel := id
        topic := settings.outputTopic
        inputs := [(0, input)]
        sequence := UInt32.ofNat connection.sequenceNumber
        dropped := missed.1
        source := provenanceSource input.message
        kind := .link false })
  | _, _ => none

def Command.inputCallback (benchmarkMode : Bool) (input : Received) (n : Command) : Command × Effect :=
  let missed := getMissedSamplesAndUpdateSeqNr benchmarkMode input.message n.sequenceNumber
  ({ n with sequenceNumber := missed.2, sinkSequenceNumber := n.sinkSequenceNumber + 1 },
    .consume (UInt32.ofNat n.sinkSequenceNumber) input)

inductive NodeEvent where
  | timer
  | message (subscription : Nat) (input : Received)
  deriving DecidableEq, Repr

namespace Node

/-- Run the callback an event triggers; `none` when the node has no such timer or subscription. -/
def callback (benchmarkMode : Bool) (timestamp : UInt64) : Node → NodeEvent → Option (Node × Effect)
  | sensor n, .timer => some ((n.timerCallback timestamp).map .sensor id)
  | transform n, .message 0 input => some ((n.inputCallback benchmarkMode input).map .transform id)
  | fusion n, .message j input =>
    if j < 2 then some ((n.inputCallback benchmarkMode j input).map .fusion id) else none
  | cyclic n, .timer => some ((n.timerCallback benchmarkMode).map .cyclic id)
  | cyclic n, .message j input =>
    if j < n.subscriptions.length then some ((n.inputCallback j input).map .cyclic id) else none
  | intersection n, .message j input => (n.inputCallback benchmarkMode j input).map fun r => r.map .intersection id
  | command n, .message 0 input => some ((n.inputCallback benchmarkMode input).map .command id)
  | _, _ => none

/-- Whether the callback reads the clock for a timestamp: all do but the caching
callback of `Cyclic` and the callback of `Command`. -/
def readsTimestamp : Node → NodeEvent → Bool
  | cyclic _, .message .. => false
  | command _, _ => false
  | _, _ => true

end Node

end ReferenceSystem
