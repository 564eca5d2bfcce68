import ReferenceSystem.Lineage
import ReferenceSystem.System

/-!
# The Autoware node graph

The nodes of `create_autoware_nodes` with their topics and source kinds, in the
order of the builder. Periods, crunch limits and priorities play no role in
what the messages carry.
-/

namespace ReferenceSystem

/-- A process may be asked for a part of the nodes; an empty selection selects all. -/
def isSelected (selectedNodeNames : List Bytes) (nodeName : Bytes) : Bool :=
  selectedNodeNames.isEmpty || selectedNodeNames.contains nodeName

def createAutowareNodes (selectedNodeNames : List Bytes) : List NodeSettings :=
  List.filter (fun settings => isSelected selectedNodeNames settings.nodeName) [
    .sensor ⟨ascii "FrontLidarDriver", ascii "FrontLidarDriver", 1⟩,
    .sensor ⟨ascii "RearLidarDriver", ascii "RearLidarDriver", 2⟩,
    .sensor ⟨ascii "PointCloudMap", ascii "PointCloudMap", 3⟩,
    .sensor ⟨ascii "Visualizer", ascii "Visualizer", 4⟩,
    .sensor ⟨ascii "Lanelet2Map", ascii "Lanelet2Map", 5⟩,
    .sensor ⟨ascii "EuclideanClusterSettings", ascii "EuclideanClusterSettings", 6⟩,
    .transform ⟨ascii "PointsTransformerFront", ascii "FrontLidarDriver", ascii "PointsTransformerFront"⟩,
    .transform ⟨ascii "PointsTransformerRear", ascii "RearLidarDriver", ascii "PointsTransformerRear"⟩,
    .transform ⟨ascii "VoxelGridDownsampler", ascii "PointCloudFusion", ascii "VoxelGridDownsampler"⟩,
    .transform ⟨ascii "PointCloudMapLoader", ascii "PointCloudMap", ascii "PointCloudMapLoader"⟩,
    .transform ⟨ascii "RayGroundFilter", ascii "PointCloudFusion", ascii "RayGroundFilter"⟩,
    .transform ⟨ascii "ObjectCollisionEstimator", ascii "EuclideanClusterDetector", ascii "ObjectCollisionEstimator"⟩,
    .transform ⟨ascii "MPCController", ascii "BehaviorPlanner", ascii "MPCController"⟩,
    .transform ⟨ascii "ParkingPlanner", ascii "Lanelet2MapLoader", ascii "ParkingPlanner"⟩,
    .transform ⟨ascii "LanePlanner", ascii "Lanelet2MapLoader", ascii "LanePlanner"⟩,
    .fusion ⟨ascii "PointCloudFusion", ascii "PointsTransformerFront", ascii "PointsTransformerRear",
      ascii "PointCloudFusion"⟩,
    .fusion ⟨ascii "NDTLocalizer", ascii "PointCloudMapLoader", ascii "VoxelGridDownsampler", ascii "NDTLocalizer"⟩,
    .fusion ⟨ascii "VehicleInterface", ascii "MPCController", ascii "BehaviorPlanner", ascii "VehicleInterface"⟩,
    .fusion ⟨ascii "Lanelet2GlobalPlanner", ascii "Visualizer", ascii "NDTLocalizer", ascii "Lanelet2GlobalPlanner"⟩,
    .fusion ⟨ascii "Lanelet2MapLoader", ascii "Lanelet2Map", ascii "Lanelet2GlobalPlanner",
      ascii "Lanelet2MapLoader"⟩,
    .cyclic ⟨ascii "BehaviorPlanner", [ascii "ObjectCollisionEstimator", ascii "NDTLocalizer",
      ascii "Lanelet2GlobalPlanner", ascii "Lanelet2MapLoader", ascii "ParkingPlanner", ascii "LanePlanner"],
      ascii "BehaviorPlanner"⟩,
    .intersection ⟨ascii "EuclideanClusterDetector", [
      ⟨ascii "RayGroundFilter", ascii "EuclideanClusterDetector"⟩,
      ⟨ascii "EuclideanClusterSettings", ascii "EuclideanIntersection"⟩]⟩,
    .command ⟨ascii "VehicleDBWSystem", ascii "VehicleInterface"⟩,
    .command ⟨ascii "IntersectionOutput", ascii "EuclideanIntersection"⟩]

def autowareSystem : System where
  nodes := createAutowareNodes []

def PublishedBy (sys : System) (nodeName : Bytes) (p : Publication) : Prop :=
  sys.nodes[p.node]?.map NodeSettings.nodeName = some nodeName

instance (sys : System) (nodeName : Bytes) (p : Publication) : Decidable (PublishedBy sys nodeName p) :=
  inferInstanceAs (Decidable (_ = _))

/-! ## Runs -/

/-- Callback number `k` reads the clock as `2k + 1` and `2k + 2`. -/
def timedSteps (events : List (Nat × Event)) : List AtomicStep :=
  events.zipIdx.map fun (e, k) => ⟨e.1, e.2, UInt64.ofNat (2 * k + 1), UInt64.ofNat (2 * k + 2)⟩

/-- One pass along the hot path, and one through the detector's second connection. -/
def hotPathCycle : List AtomicStep := timedSteps [
  (1, .timer), (7, .deliver 0 0), (15, .deliver 1 1), (0, .timer), (6, .deliver 0 2), (15, .deliver 0 3),
  (10, .deliver 0 4), (21, .deliver 0 5), (11, .deliver 0 6), (5, .timer), (21, .deliver 1 8)]

/-- The fused cloud of the first front scan passes the voxel grid, that of the
second one the ground filter, and both meet in the planner. -/
def mixedCycle : List AtomicStep := timedSteps [
  (1, .timer), (7, .deliver 0 0), (15, .deliver 1 1), (0, .timer), (6, .deliver 0 2), (15, .deliver 0 3),
  (8, .deliver 0 4), (0, .timer), (6, .deliver 0 6), (15, .deliver 0 7), (10, .deliver 0 8), (21, .deliver 0 9),
  (11, .deliver 0 10), (16, .deliver 1 5), (2, .timer), (9, .deliver 0 12), (16, .deliver 0 13), (18, .deliver 1 14),
  (3, .timer), (18, .deliver 0 15), (19, .deliver 1 16), (4, .timer), (19, .deliver 0 17), (13, .deliver 0 18),
  (14, .deliver 0 18), (20, .deliver 0 11), (20, .deliver 1 14), (20, .deliver 2 16), (20, .deliver 3 18),
  (20, .deliver 4 19), (20, .deliver 5 20), (20, .timer), (12, .deliver 0 21), (17, .deliver 1 21),
  (17, .deliver 0 22)]

/-- One scan on its way to the planner. -/
def plannedScan : List (Nat × Event) := [
  (1, .timer), (7, .deliver 0 0), (15, .deliver 1 1), (0, .timer), (6, .deliver 0 2), (15, .deliver 0 3),
  (8, .deliver 0 4), (10, .deliver 0 4), (21, .deliver 0 6), (11, .deliver 0 7), (16, .deliver 1 5), (2, .timer),
  (9, .deliver 0 9), (16, .deliver 0 10), (18, .deliver 1 11), (3, .timer), (18, .deliver 0 12), (19, .deliver 1 13),
  (4, .timer), (19, .deliver 0 14), (13, .deliver 0 15), (14, .deliver 0 15), (20, .deliver 0 8), (20, .deliver 1 11),
  (20, .deliver 2 13), (20, .deliver 3 15), (20, .deliver 4 16), (20, .deliver 5 17), (20, .timer), (12, .deliver 0 18)]

/-- The planner's message reaches the vehicle interface together with the controller's. -/
def wholeCycle : List AtomicStep := timedSteps (plannedScan ++ [(17, .deliver 1 18), (17, .deliver 0 19)])

/-- The controller's message meets the next one of the planner. -/
def latePlanner : List AtomicStep :=
  timedSteps (plannedScan ++ [(20, .deliver 0 8), (20, .timer), (17, .deliver 1 20), (17, .deliver 0 19)])

end ReferenceSystem
