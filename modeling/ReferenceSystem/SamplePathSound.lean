import ReferenceSystem.SamplePath
import ReferenceSystem.AtomicSound
import ReferenceSystem.LineageSound
import ReferenceSystem.RootsSound

/-!
# The hot path of a received message

A history keeps one snapshot per node, and these need not be of one pass: the
lidars also reach the planner through the localizer, so their entries may be
from a later scan than the one behind the collision estimate. The latency is
then taken backwards. Which scans and which estimate a history keeps is read
off the messages that were consumed on the way.
-/

namespace ReferenceSystem

/-! ## The loop over the entries -/

def lidarNames : List Bytes := [ascii "FrontLidarDriver", ascii "RearLidarDriver"]

theorem mem_lidarNames {name : Bytes} :
    name ∈ lidarNames ↔ name = ascii "FrontLidarDriver" ∨ name = ascii "RearLidarDriver" := by
  simp only [lidarNames, List.mem_cons, List.not_mem_nil, or_false]

def hotPathEntry (e : TransmissionStats) (h : HotPath) : HotPath :=
  if e.name = ascii "ObjectCollisionEstimator" then
    { h with hotPathLatencyInNs := e.timestamp, doesContainHotPath := true }
  else if e.name = ascii "FrontLidarDriver" ∨ e.name = ascii "RearLidarDriver" then
    { h with lidarTimestamp := max h.lidarTimestamp e.timestamp }
  else h

theorem hotPathStep_eq (m : Message) (h : HotPath) (i : Nat) : hotPathStep m h i = hotPathEntry (m.statsAt i) h := by
  unfold hotPathStep hotPathEntry nodeNameAt
  simp only
  split
  · rfl
  · split
    · rename_i hfront; rw [if_pos (Or.inl hfront)]
    · rename_i hfront
      split
      · rename_i hrear; rw [if_pos (Or.inr hrear)]
      · rename_i hrear; rw [if_neg (not_or.mpr ⟨hfront, hrear⟩)]

theorem range_from_last (n : Nat) : (List.range n).map (fun i => n - i - 1) = (List.range n).reverse := by
  refine List.ext_getElem (by simp) fun i h₁ h₂ => ?_
  simp only [List.getElem_map, List.getElem_range, List.getElem_reverse, List.length_range]
  omega

theorem hotPath_used {m : Message} (h : m.size ≤ statsCapacity) : hotPath m = m.used.foldr hotPathEntry {} := by
  unfold hotPath
  simp only [hotPathStep_eq]
  rw [used_eq_map m h, List.foldr_map, ← List.foldl_reverse, ← range_from_last, List.foldl_map]

theorem max_le_iff_both {a b t : UInt64} : max a b ≤ t ↔ a ≤ t ∧ b ≤ t := by
  show (if a ≤ b then b else a) ≤ t ↔ _
  simp only [UInt64.le_iff_toNat_le]
  split
  · omega
  · omega

theorem lidarTimestamp_le (es : List TransmissionStats) (t : UInt64) :
    (es.foldr hotPathEntry {}).lidarTimestamp ≤ t ↔ ∀ e ∈ es, e.name ∈ lidarNames → e.timestamp ≤ t := by
  induction es with
  | nil => simp [UInt64.le_iff_toNat_le]
  | cons e es ih =>
    rw [List.foldr_cons, List.forall_mem_cons, ← ih, mem_lidarNames]
    unfold hotPathEntry
    split
    · rename_i hname
      have hnot : ¬ (e.name = ascii "FrontLidarDriver" ∨ e.name = ascii "RearLidarDriver") := by
        rw [hname]; decide
      simp [hnot]
    · split
      · rename_i hlidar
        rw [max_le_iff_both, and_comm]
        simp [hlidar]
      · rename_i hnot
        simp [hnot]

theorem hotPathLatencyInNs_eq {es : List TransmissionStats} (hd : (es.map (·.name)).Nodup) {c : TransmissionStats}
    (hc : c ∈ es) (hname : c.name = ascii "ObjectCollisionEstimator") :
    (es.foldr hotPathEntry {}).hotPathLatencyInNs = c.timestamp := by
  induction es with
  | nil => cases hc
  | cons e es ih =>
    rw [List.map_cons, List.nodup_cons] at hd
    rw [List.foldr_cons]
    unfold hotPathEntry
    rcases List.mem_cons.mp hc with rfl | hc
    · rw [if_pos hname]
    · have hne : e.name ≠ ascii "ObjectCollisionEstimator" := by
        intro he
        exact hd.1 (he.trans hname.symm ▸ List.mem_map_of_mem hc)
      rw [if_neg hne]
      split
      · exact ih hd.2 hc
      · exact ih hd.2 hc

theorem hotPath_le_iff {m : Message} (hsize : m.size ≤ statsCapacity) (hd : DistinctNames m) {c : TransmissionStats}
    (hc : c ∈ m.used) (hname : c.name = ascii "ObjectCollisionEstimator") :
    (hotPath m).lidarTimestamp ≤ (hotPath m).hotPathLatencyInNs ↔
      ∀ e ∈ m.used, e.name ∈ lidarNames → e.timestamp ≤ c.timestamp := by
  rw [hotPath_used hsize, hotPathLatencyInNs_eq hd hc hname, lidarTimestamp_le]

/-! ## Kept snapshots -/

/-- Of all publications of a node that the `k`-th message descends from, none
counts as newer than the one at `j`. -/
def NewestOf (sys : System) (log : List Publication) (k : Nat) (nodeName : Bytes) (j : Nat) : Prop :=
  ∃ q, Relation.ReflTransGen (Consumed log) k j ∧ log[j]? = some q ∧ PublishedBy sys nodeName q ∧
    ∀ i p, Relation.ReflTransGen (Consumed log) k i → log[i]? = some p → PublishedBy sys nodeName p →
      isNewerEntry (p.entry nodeName) (q.entry nodeName) = false

theorem isNewerEntry_false {a e : TransmissionStats} : isNewerEntry a e = false ↔ a.snapshot ≤ e.snapshot := by
  rw [Bool.eq_false_iff, ne_eq, isNewerEntry_iff, not_lt]

theorem snapshot_timestamp {a e : TransmissionStats} (h : a.snapshot = e.snapshot) : a.timestamp = e.timestamp := by
  unfold TransmissionStats.snapshot at h
  simp only [toLex_inj, Prod.mk.injEq, UInt64.toNat_inj] at h
  exact h.2.1

section
variable {sys : System} {log : List Publication} (hp : Proper sys) (hb : sys.benchmarkMode = false)
  (hlog : Log sys log)
include hp hb hlog

theorem entry_newest {k : Nat} {p : Publication} (hk : log[k]? = some p) {e : TransmissionStats}
    (he : e ∈ p.message.used) :
    ∃ j q, NewestOf sys log k e.name j ∧ log[j]? = some q ∧ e.timestamp = q.timestamp := by
  have hreached := log_reached hp hb hlog k p hk
  have hd := (log_history hp hb log hlog p (List.mem_of_getElem? hk)).distinct
  obtain ⟨j, q, settings, hreach, hq, hs, rfl⟩ := hreached.origin e he
  have hname := hp.entry_name hs q
  rw [hname]
  refine ⟨j, q, ⟨q, hreach, hq, by rw [PublishedBy, hs]; rfl, fun i p' hi hp' hby => ?_⟩, hq, rfl⟩
  obtain ⟨settings', hs', _, hname'⟩ := hby.settings
  obtain ⟨e', he', hnamed, hle⟩ := hreached.kept i p' settings' hi hp' hs'
  -- there is only one entry of this name
  have hsame : e' = q.entry settings.nodeName :=
    List.inj_on_of_nodup_map hd he' he (by rw [hnamed, hname', hname])
  rw [hname', hsame] at hle
  exact isNewerEntry_false.mpr hle

theorem newest_entry {k : Nat} {p : Publication} (hk : log[k]? = some p) {nodeName : Bytes} {j : Nat} {q : Publication}
    (hq : log[j]? = some q) (hnew : NewestOf sys log k nodeName j) :
    ∃ e ∈ p.message.used, e.name = nodeName ∧ e.timestamp = q.timestamp := by
  obtain ⟨q', hreach, hq', hby, hnewest⟩ := hnew
  cases hq.symm.trans hq'
  have hreached := log_reached hp hb hlog k p hk
  obtain ⟨settings, hs, _, rfl⟩ := hby.settings
  obtain ⟨e, he, hname, hle⟩ := hreached.kept j q settings hreach hq hs
  obtain ⟨i, q', settings', hreach', hq', hs', rfl⟩ := hreached.origin e he
  rw [hp.entry_name hs'] at hname
  have hle' := isNewerEntry_false.mp (hnewest i q' hreach' hq' (by rw [PublishedBy, hs', Option.map_some, hname]))
  rw [← hname] at hle hle'
  refine ⟨_, he, ?_, snapshot_timestamp (le_antisymm hle' hle)⟩
  rw [hname, hp.entry_name hs]

end

/-! ## Received messages -/

theorem commandCalls_published {sys : System} {steps : List Step} {s : State} (h : run sys steps = some s)
    {node : Bytes} {k : Nat} (hk : (node, k) ∈ commandCalls s) : ∃ p, s.published[k]? = some p := by
  obtain ⟨entry, hentry, hcall⟩ := List.mem_filterMap.mp hk
  obtain ⟨_, rs, hinputs, _, hrs, _⟩ := entries_run h entry (Or.inl hentry)
  split at hcall
  · rename_i hrecord hsingle
    cases hcall
    rw [hsingle] at hinputs
    obtain ⟨r, hr, hk⟩ := List.mem_map.mp (hinputs ▸ List.mem_singleton_self _)
    obtain ⟨_, q, hq, _⟩ := hrs r hr
    exact ⟨q, hk ▸ hq⟩
  · cases hcall

/-- For every message of an atomic run: the latency does not wrap exactly if
the scans its history keeps were published before the estimate it keeps. -/
theorem hotPath_order {sys : System} (hp : Proper sys) (hb : sys.benchmarkMode = false) {steps : List AtomicStep}
    {s : State} (h : atomicRun sys steps = some s) (hclock : Increasing s) {k : Nat} {p : Publication}
    (hk : s.published[k]? = some p) (hname : ascii "ObjectCollisionEstimator" ∈ p.message.used.map (·.name)) :
    (hotPath p.message).lidarTimestamp ≤ (hotPath p.message).hotPathLatencyInNs ↔
      ∀ lidar ∈ lidarNames, ∀ j i, NewestOf sys s.published k lidar j →
        NewestOf sys s.published k (ascii "ObjectCollisionEstimator") i → j < i := by
  obtain ⟨steps', hrun⟩ := run_of_atomicRun h
  have hlog := (inv_run hrun).log
  have hist := log_history hp hb s.published hlog p (List.mem_of_getElem? hk)
  have hordered := chronological_run h hclock
  obtain ⟨c, hc, hcname⟩ := List.mem_map.mp hname
  rw [hotPath_le_iff hist.size hist.distinct hc hcname]
  constructor
  · intro hle lidar hlidar j i hj hi
    have ⟨q, _, hq, hqby, _⟩ := hj
    have ⟨q', _, hq', hqby', _⟩ := hi
    obtain ⟨e, he, hename, hetime⟩ := newest_entry hp hb hlog hk hq hj
    obtain ⟨c', hc', hcname', hctime⟩ := newest_entry hp hb hlog hk hq' hi
    cases List.inj_on_of_nodup_map hist.distinct hc' hc (hcname'.trans hcname.symm)
    have htimes := hle e he (hename ▸ hlidar)
    rw [hetime, hctime] at htimes
    -- one node does not publish both
    have hne : j ≠ i := by
      rintro rfl
      cases hq.symm.trans hq'
      rw [PublishedBy] at hqby hqby'
      rw [hqby, Option.some.injEq] at hqby'
      rw [hqby'] at hlidar
      exact absurd hlidar (by decide)
    by_contra hge
    have hback := (chronological_position hordered hq' hq).mpr (by omega)
    exact absurd htimes (UInt64.not_le.mpr hback)
  · intro hbefore e he hlidar
    obtain ⟨j, q, hj, hq, hetime⟩ := entry_newest hp hb hlog hk he
    obtain ⟨i, q', hi, hq', hctime⟩ := entry_newest hp hb hlog hk hc
    rw [hcname] at hi
    rw [hetime, hctime]
    exact UInt64.le_of_lt ((chronological_position hordered hq hq').mpr (hbefore e.name hlidar j i hj hi))

/-- **When the hot path latency does not wrap**: in every run, for every message
the drive-by-wire node receives with a collision estimate in its history. -/
theorem hot_path_latency_exact {steps : List AtomicStep} {s : State} (h : atomicRun autowareSystem steps = some s)
    (hclock : s.clock.Pairwise (· < ·)) : ∀ k, (ascii "VehicleDBWSystem", k) ∈ commandCalls s →
    ∃ p, s.published[k]? = some p ∧ (ascii "ObjectCollisionEstimator" ∈ p.message.used.map (·.name) →
      ((hotPath p.message).lidarTimestamp ≤ (hotPath p.message).hotPathLatencyInNs ↔
        ∀ lidar ∈ [ascii "FrontLidarDriver", ascii "RearLidarDriver"], ∀ j i,
          NewestOf autowareSystem s.published k lidar j →
          NewestOf autowareSystem s.published k (ascii "ObjectCollisionEstimator") i → j < i)) := by
  intro k hk
  obtain ⟨steps', hrun⟩ := run_of_atomicRun h
  obtain ⟨p, hp⟩ := commandCalls_published hrun hk
  exact ⟨p, hp, fun hname => hotPath_order autoware_proper rfl h hclock hp hname⟩

/-- Nine messages for the intersection output, so that the calls after them report. -/
def countedCalls : List (Nat × Event) :=
  (List.range 9).flatMap fun n => [(5, .timer), (21, .deliver 1 (2 * n)), (23, .deliver 0 (2 * n + 1))]

def freshEstimate : List AtomicStep := timedSteps (countedCalls ++ [
  (1, .timer), (7, .deliver 0 18), (15, .deliver 1 19), (0, .timer), (6, .deliver 0 20), (15, .deliver 0 21),
  (10, .deliver 0 22), (21, .deliver 0 23), (11, .deliver 0 24), (8, .deliver 0 22), (16, .deliver 1 26), (2, .timer),
  (9, .deliver 0 27), (16, .deliver 0 28), (20, .deliver 0 25), (20, .deliver 1 29), (20, .timer), (12, .deliver 0 30),
  (17, .deliver 1 30), (17, .deliver 0 31), (22, .deliver 0 32)])

/-- The tenth call reports the latency of an estimate made of the scan that the localization is made of. -/
theorem freshEstimate_ordered : ∃ s p, atomicRun autowareSystem freshEstimate = some s ∧
    s.published[32]? = some p ∧
    ((samplePaths autowareSystem s fun _ => 1000)[9]?.join.bind (·.hotPathLatency)) = some 10 ∧
    hotPathLatency p.message = 10 ∧ ∀ lidar ∈ lidarNames, ∀ j i,
      NewestOf autowareSystem s.published 32 lidar j →
      NewestOf autowareSystem s.published 32 (ascii "ObjectCollisionEstimator") i → j < i := by
  have hsome : (atomicRun autowareSystem freshEstimate).any (fun s => s.clock.Pairwise (· < ·) ∧
      (ascii "VehicleDBWSystem", 32) ∈ commandCalls s ∧
      ((samplePaths autowareSystem s fun _ => 1000)[9]?.join.bind (·.hotPathLatency)) = some 10 ∧
      s.published[32]?.any fun p => hotPathLatency p.message = 10 ∧
        (hotPath p.message).lidarTimestamp ≤ (hotPath p.message).hotPathLatencyInNs ∧
        ascii "ObjectCollisionEstimator" ∈ p.message.used.map (·.name)) := by decide +kernel
  obtain ⟨s, hs, hfacts⟩ := (Option.any_eq_true _ _).mp hsome
  obtain ⟨hclock, hcall, hreport, hmessage⟩ := of_decide_eq_true hfacts
  obtain ⟨p, hp, hpfacts⟩ := (Option.any_eq_true _ _).mp hmessage
  obtain ⟨hlatency, hle, hname⟩ := of_decide_eq_true hpfacts
  obtain ⟨q, hq, hiff⟩ := hot_path_latency_exact hs hclock 32 hcall
  cases hp.symm.trans hq
  exact ⟨s, p, hs, hp, hreport, hlatency, (hiff hname).mp hle⟩

/-- Then the planner receives an estimate together with a localization made of a later scan. -/
def staleEstimate : List AtomicStep := timedSteps (countedCalls ++ [
  (1, .timer), (7, .deliver 0 18), (15, .deliver 1 19), (0, .timer), (6, .deliver 0 20), (15, .deliver 0 21),
  (10, .deliver 0 22), (21, .deliver 0 23), (11, .deliver 0 24), (0, .timer), (6, .deliver 0 26), (15, .deliver 0 27),
  (8, .deliver 0 28), (16, .deliver 1 29), (2, .timer), (9, .deliver 0 30), (16, .deliver 0 31), (20, .deliver 0 25),
  (20, .deliver 1 32), (20, .timer), (12, .deliver 0 33), (17, .deliver 1 33), (17, .deliver 0 34), (22, .deliver 0 35)])

/-- The tenth call takes the latency from 73 back to 71. -/
theorem staleEstimate_wraps : ∃ s p, atomicRun autowareSystem staleEstimate = some s ∧ s.clock.Pairwise (· < ·) ∧
    (ascii "VehicleDBWSystem", 35) ∈ commandCalls s ∧ s.published[35]? = some p ∧
    ascii "ObjectCollisionEstimator" ∈ p.message.used.map (·.name) ∧
    ¬ (hotPath p.message).lidarTimestamp ≤ (hotPath p.message).hotPathLatencyInNs ∧
    ((samplePaths autowareSystem s fun _ => 1000)[9]?.join.bind (·.hotPathLatency)) = some (UInt64.ofNat (2 ^ 64 - 2)) := by
  have hsome : ((atomicRun autowareSystem staleEstimate).map fun s =>
      (decide (s.clock.Pairwise (· < ·)), decide ((ascii "VehicleDBWSystem", 35) ∈ commandCalls s),
        (samplePaths autowareSystem s fun _ => 1000)[9]?.join.bind (·.hotPathLatency),
        s.published[35]?.map fun p =>
          (decide ((hotPath p.message).lidarTimestamp ≤ (hotPath p.message).hotPathLatencyInNs),
          decide (ascii "ObjectCollisionEstimator" ∈ p.message.used.map (·.name))))) =
      some (true, true, some (UInt64.ofNat (2 ^ 64 - 2)), some (false, true)) := by decide +kernel
  obtain ⟨s, hs, hfacts⟩ := Option.map_eq_some_iff.mp hsome
  simp only [Prod.mk.injEq, decide_eq_true_eq] at hfacts
  obtain ⟨hclock, hcall, hreport, hmessage⟩ := hfacts
  obtain ⟨p, hp, hpfacts⟩ := Option.map_eq_some_iff.mp hmessage
  simp only [Prod.mk.injEq, decide_eq_true_eq, decide_eq_false_iff_not] at hpfacts
  exact ⟨s, p, hs, hclock, hcall, hp, hpfacts.2, hpfacts.1, hreport⟩

end ReferenceSystem
