import ReferenceSystem.SamplesSound
import Mathlib.Data.List.Perm.Subperm

/-!
# Lineage validation

The node map of `build_node_map` and the validators of a completed hot path,
drive-by-wire path and intersection path. A `std::map` is kept as the list of
its bindings in order of insertion; only `find` and `size` are used on it.
-/

namespace ReferenceSystem

structure NodeMapEntry where
  timestamp : UInt64
  sequenceNumber : UInt32
  droppedSamples : UInt32
  deriving DecidableEq, Repr

abbrev NodeMap := List (Bytes × NodeMapEntry)

def NodeMap.find (nodes : NodeMap) (name : Bytes) : Option NodeMapEntry :=
  (nodes.find? fun n => n.1 = name).map Prod.snd

def hasNode (nodes : NodeMap) (name : Bytes) : Bool := (nodes.find name).isSome

/-- The first entry of each name. -/
def buildNodeMap (sample : Message) : NodeMap :=
  (List.range sample.size).foldl (fun nodes i =>
    let name := nodeNameAt sample i
    let e := sample.statsAt i
    if hasNode nodes name then nodes else nodes ++ [(name, ⟨e.timestamp, e.sequenceNumber, e.droppedSamples⟩)]) []

def hasExactNodes (nodes : NodeMap) (expected : List Bytes) : Bool :=
  nodes.length == expected.length && expected.all (hasNode nodes)

def tsBefore (nodes : NodeMap) (a b : Bytes) : Bool :=
  match nodes.find a, nodes.find b with
  | some ia, some ib => ia.timestamp < ib.timestamp
  | _, _ => false

def validateHotPathLineage (nodes : NodeMap) : Bool :=
  let hasFront := hasNode nodes (ascii "FrontLidarDriver")
  let hasRear := hasNode nodes (ascii "RearLidarDriver")
  if !hasFront && !hasRear then false else
  let expected := [ascii "PointCloudFusion", ascii "RayGroundFilter", ascii "EuclideanClusterDetector",
    ascii "ObjectCollisionEstimator"]
  let expected := if hasFront then expected ++ [ascii "FrontLidarDriver", ascii "PointsTransformerFront"] else expected
  let expected := if hasRear then expected ++ [ascii "RearLidarDriver", ascii "PointsTransformerRear"] else expected
  if !hasExactNodes nodes expected then false
  else if !tsBefore nodes (ascii "RayGroundFilter") (ascii "EuclideanClusterDetector") then false
  else tsBefore nodes (ascii "EuclideanClusterDetector") (ascii "ObjectCollisionEstimator")

def dbwNodes : List Bytes := [
  ascii "FrontLidarDriver", ascii "RearLidarDriver", ascii "PointsTransformerFront",
  ascii "PointsTransformerRear", ascii "PointCloudFusion",
  ascii "VoxelGridDownsampler", ascii "RayGroundFilter", ascii "EuclideanClusterDetector",
  ascii "ObjectCollisionEstimator", ascii "PointCloudMap", ascii "PointCloudMapLoader",
  ascii "NDTLocalizer", ascii "Visualizer", ascii "Lanelet2GlobalPlanner", ascii "Lanelet2Map",
  ascii "Lanelet2MapLoader", ascii "ParkingPlanner", ascii "LanePlanner",
  ascii "BehaviorPlanner", ascii "MPCController", ascii "VehicleInterface"]

def validateDbwLineage (nodes : NodeMap) : Bool :=
  if !hasExactNodes nodes dbwNodes then false
  else if !tsBefore nodes (ascii "PointCloudFusion") (ascii "VoxelGridDownsampler") then false
  else if !tsBefore nodes (ascii "BehaviorPlanner") (ascii "MPCController") then false
  else tsBefore nodes (ascii "MPCController") (ascii "VehicleInterface")

def intersectionNodes : List Bytes := [ascii "EuclideanClusterSettings", ascii "EuclideanClusterDetector"]

def validateIntersectionLineage (nodes : NodeMap) : Bool := hasExactNodes nodes intersectionNodes

/-! ## The node map of a message with distinct names -/

theorem hasNode_iff {nodes : NodeMap} {name : Bytes} : hasNode nodes name = true ↔ name ∈ nodes.map Prod.fst := by
  simp only [hasNode, NodeMap.find, Option.isSome_map, List.find?_isSome, decide_eq_true_eq, List.mem_map]

def TransmissionStats.binding (e : TransmissionStats) : Bytes × NodeMapEntry :=
  (e.name, ⟨e.timestamp, e.sequenceNumber, e.droppedSamples⟩)

theorem buildNodeMap_of_distinct {m : Message} (h : m.size ≤ statsCapacity) (hd : DistinctNames m) :
    buildNodeMap m = m.used.map TransmissionStats.binding := by
  have key : ∀ (done rest : List Nat), ((done ++ rest).map fun i => nodeNameAt m i).Nodup →
      rest.foldl (fun nodes i =>
        if hasNode nodes (nodeNameAt m i) then nodes else nodes ++ [(m.statsAt i).binding])
        (done.map fun i => (m.statsAt i).binding) = (done ++ rest).map fun i => (m.statsAt i).binding := by
    intro done rest
    induction rest generalizing done with
    | nil => intro _; rw [List.append_nil]; rfl
    | cons i rest ih =>
      intro hn
      have hfresh : ¬ hasNode (done.map fun i => (m.statsAt i).binding) (nodeNameAt m i) = true := by
        rw [hasNode_iff, List.map_map]
        rw [List.map_append, List.nodup_append] at hn
        exact fun hm => hn.2.2 _ hm _ (List.mem_map_of_mem (List.mem_cons_self ..)) rfl
      rw [List.foldl_cons, if_neg hfresh]
      have := ih (done ++ [i]) (by rw [List.append_assoc]; exact hn)
      rw [List.map_append, List.append_assoc] at this
      exact this
  have hnames : ((([] : List Nat) ++ List.range m.size).map fun i => nodeNameAt m i).Nodup := by
    rw [DistinctNames, used_eq_map m h, List.map_map] at hd
    exact hd
  have := key [] (List.range m.size) hnames
  rw [used_eq_map m h, List.map_map]
  exact this

theorem NodeMap.find_binding {es : List TransmissionStats} (hd : (es.map (·.name)).Nodup) {e : TransmissionStats}
    (he : e ∈ es) : NodeMap.find (es.map TransmissionStats.binding) e.name = some e.binding.2 := by
  have hsome : ((es.map TransmissionStats.binding).find? fun n => n.1 = e.name).isSome := by
    rw [List.find?_isSome]
    exact ⟨e.binding, List.mem_map_of_mem he, decide_eq_true rfl⟩
  obtain ⟨b, hb⟩ := Option.isSome_iff_exists.mp hsome
  obtain ⟨e', he', rfl⟩ := List.mem_map.mp (List.mem_of_find?_eq_some hb)
  have hfound := List.find?_some hb
  have hname : e'.name = e.name := of_decide_eq_true hfound
  rw [NodeMap.find, hb, List.inj_on_of_nodup_map hd he' he hname]
  rfl

section
variable {m : Message} (hm : m.size ≤ statsCapacity) (hd : DistinctNames m)
include hm hd

theorem hasNode_build (name : Bytes) : hasNode (buildNodeMap m) name = true ↔ name ∈ m.used.map (·.name) := by
  rw [hasNode_iff, buildNodeMap_of_distinct hm hd, List.map_map]; rfl

theorem tsBefore_build {a b : TransmissionStats} (ha : a ∈ m.used) (hb : b ∈ m.used) :
    tsBefore (buildNodeMap m) a.name b.name = true ↔ a.timestamp < b.timestamp := by
  rw [buildNodeMap_of_distinct hm hd, tsBefore, NodeMap.find_binding hd ha, NodeMap.find_binding hd hb]
  exact decide_eq_true_iff

theorem hasExactNodes_build {expected : List Bytes} (hexp : expected.Nodup)
    (hnames : ∀ name, name ∈ m.used.map (·.name) ↔ name ∈ expected) :
    hasExactNodes (buildNodeMap m) expected = true := by
  have hlen : (buildNodeMap m).length = expected.length := by
    have hperm : (m.used.map (·.name)).Perm expected := (List.perm_ext_iff_of_nodup hd hexp).mpr hnames
    rw [buildNodeMap_of_distinct hm hd, List.length_map, ← List.length_map (f := TransmissionStats.name)]
    exact hperm.length_eq
  rw [hasExactNodes, Bool.and_eq_true, beq_iff_eq, List.all_eq_true]
  exact ⟨hlen, fun name hn => (hasNode_build hm hd name).mpr ((hnames name).mpr hn)⟩

end

end ReferenceSystem
