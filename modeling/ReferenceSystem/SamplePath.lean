import ReferenceSystem.Autoware
import Mathlib.Algebra.Group.Nat.Defs
import Mathlib.Logic.Function.Basic

/-!
# Sample paths

The computations of `print_sample_path`, which a command node makes of each
message it receives when verbose output is on: the latency of the whole path,
the hot path and the period of the planner. The printed table and the running
statistics over the computed values are left out. The first nine calls of a
process only count.
-/

namespace ReferenceSystem

structure HotPath where
  hotPathLatencyInNs : UInt64 := 0
  doesContainHotPath : Bool := false
  lidarTimestamp : UInt64 := 0
  deriving DecidableEq, Repr

def hotPathStep (sample : Message) (h : HotPath) (idx : Nat) : HotPath :=
  let currentNodeName := nodeNameAt sample idx
  let timestamp := (sample.statsAt idx).timestamp
  if currentNodeName = ascii "ObjectCollisionEstimator" then
    { h with hotPathLatencyInNs := timestamp, doesContainHotPath := true }
  else if currentNodeName = ascii "FrontLidarDriver" then
    { h with lidarTimestamp := max h.lidarTimestamp timestamp }
  else if currentNodeName = ascii "RearLidarDriver" then
    { h with lidarTimestamp := max h.lidarTimestamp timestamp }
  else h

/-- The loop goes from the last entry to the first. -/
def hotPath (sample : Message) : HotPath :=
  (List.range sample.size).foldl (fun h i => hotPathStep sample h (sample.size - i - 1)) {}

def hotPathLatency (sample : Message) : UInt64 :=
  (hotPath sample).hotPathLatencyInNs - (hotPath sample).lidarTimestamp

def hotPathDrops (sample : Message) : UInt64 :=
  (List.range sample.size).foldl (fun drops i =>
    let idx := sample.size - i - 1
    let currentNodeName := nodeNameAt sample idx
    if currentNodeName = ascii "ObjectCollisionEstimator" ∨ currentNodeName = ascii "FrontLidarDriver" ∨
        currentNodeName = ascii "PointsTransformerFront" ∨ currentNodeName = ascii "PointCloudFusion" ∨
        currentNodeName = ascii "RayGroundFilter" ∨ currentNodeName = ascii "EuclideanClusterDetector" then
      drops + (sample.statsAt idx).droppedSamples.toUInt64
    else drops) 0

structure PlannerStatistic where
  previousBehaviorPlannerSequence : UInt32 := 0
  previousBehaviorPlannerTimeStamp : UInt64 := 0
  deriving DecidableEq, Repr

/-- The period is the first number divided by the second; it is not taken for the first message. -/
def plannerStep (sample : Message) : PlannerStatistic × List (UInt64 × UInt32) → Nat →
    PlannerStatistic × List (UInt64 × UInt32)
  | (previous, periods), i =>
    if nodeNameAt sample i = ascii "BehaviorPlanner" then
      let e := sample.statsAt i
      (⟨e.sequenceNumber, e.timestamp⟩,
        if previous.previousBehaviorPlannerTimeStamp ≠ 0 then
          periods ++ [(e.timestamp - previous.previousBehaviorPlannerTimeStamp,
            e.sequenceNumber - previous.previousBehaviorPlannerSequence)]
        else periods)
    else (previous, periods)

def minTimeStamp (sample : Message) : UInt64 :=
  (List.range sample.size).foldl (fun t i => min t (sample.statsAt i).timestamp) (UInt64.ofNat (2 ^ 64 - 1))

/-- The static variables of the function: its call counter, and the planner's statistic by node name. -/
structure SamplePathState where
  benchmarkCounter : Nat := 0
  statistics : Bytes → PlannerStatistic := fun _ => {}

/-- The values handed to the statistics. -/
structure SamplePathReport where
  latency : UInt64
  hotPathLatency : Option UInt64
  hotPathDrops : Option UInt64
  behaviorPlannerPeriods : List (UInt64 × UInt32)
  deriving DecidableEq, Repr

def printSamplePath (benchmarkMode : Bool) (nodeName : Bytes) (timestampInNs : UInt64) (sample : Message)
    (s : SamplePathState) : SamplePathState × Option SamplePathReport :=
  if benchmarkMode || sample.size == 0 then (s, none)
  else if s.benchmarkCounter + 1 < 10 then ({ s with benchmarkCounter := s.benchmarkCounter + 1 }, none)
  else
    let planner := (List.range sample.size).foldl (plannerStep sample) (s.statistics nodeName, [])
    let contained := (hotPath sample).doesContainHotPath
    ({ benchmarkCounter := s.benchmarkCounter + 1, statistics := Function.update s.statistics nodeName planner.1 },
      some {
        latency := timestampInNs - minTimeStamp sample
        hotPathLatency := if contained then some (hotPathLatency sample) else none
        hotPathDrops := if contained then some (hotPathDrops sample) else none
        behaviorPlannerPeriods := planner.2 })

/-! ## Along a run -/

/-- The messages the command nodes have received, in order: who received it, and
its position in the log. Each is emitted as a sink, whether or not that is written. -/
def commandCalls (s : State) : List (Bytes × Nat) :=
  s.emitted.filterMap fun entry =>
    match entry.record, entry.inputs with
    | .sink node .., [k] => some (node, k)
    | _, _ => none

/-- What the calls of `print_sample_path` compute when all nodes share a process;
`timestampInNs` gives the time read by each call. -/
def samplePaths (sys : System) (s : State) (timestampInNs : Nat → UInt64) : List (Option SamplePathReport) :=
  ((commandCalls s).foldl (fun (acc : SamplePathState × List (Option SamplePathReport)) call =>
    let sample := (s.published[call.2]?.map (·.message)).getD default
    let result := printSamplePath sys.benchmarkMode call.1 (timestampInNs acc.2.length) sample acc.1
    (result.1, acc.2 ++ [result.2])) ({}, [])).2

end ReferenceSystem
