import ReferenceSystem.ReportsSound
import ReferenceSystem.SamplePathSound
import ReferenceSystem.TraceSound

/-!
# The period of the planner

The command node divides the time between the planner entries of two messages
by their distance in cycles. The entry that a message of the vehicle interface
keeps is the later of two cycles, the cached one and the one behind the message
of the controller, so the divisor is positive exactly if that cycle has moved on.
-/

namespace ReferenceSystem

/-! ## Command nodes receive their topic -/

def SinkTopic (sys : System) (log : List Publication) (e : LogEntry) : Prop :=
  ∀ node sequence timestampNs input origin, e.record = .sink node sequence timestampNs input origin →
    ∃ settings k q, .command settings ∈ sys.nodes ∧ settings.nodeName = node ∧ e.inputs = [k] ∧
      log[k]? = some q ∧ q.topic = settings.inputTopic

theorem SinkTopic.mono {sys : System} {log : List Publication} {e : LogEntry} (h : SinkTopic sys log e)
    (more : List Publication) : SinkTopic sys (log ++ more) e := by
  intro node sequence timestampNs input origin he
  obtain ⟨settings, k, q, hs, hname, hin, hq, htopic⟩ := h node sequence timestampNs input origin he
  refine ⟨settings, k, q, hs, hname, hin, ?_, htopic⟩
  rw [List.getElem?_append_left (List.getElem?_eq_some_iff.mp hq).1]
  exact hq

theorem SinkTopic.stamp {sys : System} {log : List Publication} {e : LogEntry} (h : SinkTopic sys log e) (now : UInt64) :
    SinkTopic sys log { e with record := e.record.stamp now } := by
  intro node sequence timestampNs input origin he
  cases hr : e.record with
  | sink node' sequence' t' input' origin' =>
    rw [hr] at he
    cases he
    exact h _ _ _ _ _ hr
  | source => rw [hr] at he; cases he
  | link => rw [hr] at he; cases he

theorem sinkTopic_start {sys : System} {s s' : State} {i : Nat} {event : Event} {now : UInt64} (hi : Inv sys s)
    (h : start sys s i event now = some s') {e : LogEntry} (he : Emitted s' e) :
    Emitted s e ∨ SinkTopic sys s.published e := by
  rcases emitted_from hi h he with he | ⟨_, o, record, hwired, _, hrec, rfl⟩ |
    ⟨settings, sequence, r, hnode, ⟨q, hq, _, htopic⟩, rfl⟩
  · exact Or.inl he
  · exact Or.inr fun _ _ _ _ _ hsink => absurd hsink ((outputRecord_inputs hwired hrec).2 _ _ _ _ _)
  · right
    intro node sequence' timestampNs input origin hsink
    cases hsink
    exact ⟨settings, r.publication, q, List.mem_of_getElem? hnode, rfl, rfl, hq, htopic⟩

theorem sinkTopic_run {sys : System} {steps : List Step} {s : State} (h : run sys steps = some s) :
    ∀ e, Emitted s e → SinkTopic sys s.published e :=
  emitted_run (fun _ _ he more => he.mono more) (fun _ _ he now => he.stamp now)
    (fun _ _ _ _ _ hi hs _ he => sinkTopic_start hi hs he) h

/-! ## Cycles are numbered in order -/

section
variable {sys : System} {s : State} (hi : Inv sys s) (ht : TraceInv s) (hidle : Idle s)
include hi ht hidle

/-- A node with one output numbers its publications from 0 on. -/
theorem sequences_published {i : Nat} {settings : NodeSettings} (hs : sys.nodes[i]? = some settings)
    (hone : settings.outputTopics.length = 1) :
    ∃ n, (s.published.filter (·.node = i)).map (·.sequence) = (List.range n).map UInt32.ofNat := by
  rw [← hi.nodes, List.getElem?_map] at hs
  obtain ⟨process, hproc, rfl⟩ := Option.map_eq_some_iff.mp hs
  have hsequences := (ht.traced i process hproc).sequences 0
  have hall : (outputs s i process).filter (·.channel = 0) = outputs s i process := by
    refine List.filter_eq_self.mpr fun p hp => ?_
    obtain ⟨hn, hb⟩ := mem_outputs hi hproc hp
    obtain ⟨settings, hs, hch, _⟩ := hb.identity
    rw [hn, hi.settings hproc] at hs
    cases hs
    exact decide_eq_true (by omega)
  rw [hall, outputs, hidle i process hproc, List.filterMap_nil, List.append_nil] at hsequences
  exact ⟨_, hsequences⟩

theorem sequence_position {i : Nat} {settings : NodeSettings} (hs : sys.nodes[i]? = some settings)
    (hone : settings.outputTopics.length = 1) (hcount : (s.published.filter (·.node = i)).length < 2 ^ 32)
    {j k : Nat} {p q : Publication} (hp : s.published[j]? = some p) (hq : s.published[k]? = some q) (hpn : p.node = i)
    (hqn : q.node = i) : p.sequence < q.sequence ↔ j < k := by
  obtain ⟨n, hn⟩ := sequences_published hi ht hidle hs hone
  have hlength : (s.published.filter (·.node = i)).length = n := by
    have hmap := congrArg List.length hn
    simpa only [List.length_map, List.length_range] using hmap
  have hincreasing : s.published.Pairwise fun a b => a.node = i → b.node = i → a.sequence < b.sequence := by
    have hrange : ((List.range n).map UInt32.ofNat).Pairwise (· < ·) := by
      refine List.pairwise_map.mpr (List.pairwise_lt_range.imp_of_mem fun {a b} _ hb hab => ?_)
      have hb' : b < UInt32.size := Nat.lt_trans (List.mem_range.mp hb) (hlength ▸ hcount)
      rw [UInt32.lt_iff_toNat_lt, UInt32.toNat_ofNat_of_lt' (Nat.lt_trans hab hb'), UInt32.toNat_ofNat_of_lt' hb']
      exact hab
    rw [← hn, List.pairwise_map, List.pairwise_filter] at hrange
    exact hrange.imp fun hab ha hb => hab (decide_eq_true ha) (decide_eq_true hb)
  exact pairwise_position hincreasing hp hq hpn hqn

end

/-! ## The cycle behind a message -/

/-- The later of the two planner cycles that a message of the vehicle interface
is made from: the cached one, and the one behind the message of the controller. -/
def plannerCycle (log : List Publication) (k : Nat) : Nat :=
  match log[k]?.map (·.inputs) with
  | some [controller, planner] => max planner ((log[controller]?.bind (·.inputs.head?)).getD 0)
  | _ => 0

section
variable {sys : System} {log : List Publication} (hlog : Log sys log)
include hlog

/-- The node that publishes on a topic, and what its message is made from. -/
theorem made_from {k : Nat} {p : Publication} (hk : log[k]? = some p) {settings : NodeSettings}
    (honly : ∀ other ∈ sys.nodes, p.topic ∈ other.outputTopics → other = settings) :
    ∃ o, BuiltFrom sys log p settings o ∧ p.inputs = o.inputs.map (·.2.publication) := by
  obtain ⟨settings', o, hbuilt⟩ := hlog.built (List.mem_of_getElem? hk)
  obtain ⟨_, heq⟩ := hbuilt.eq
  have htopic : p.topic ∈ settings'.outputTopics := by
    rw [heq]
    exact hbuilt.wired.topic_mem
  cases honly settings' (List.mem_of_getElem? hbuilt.node) htopic
  exact ⟨o, hbuilt, by rw [heq]; rfl⟩

theorem consumed_before {k j : Nat} (h : Consumed log k j) : j < k := by
  obtain ⟨p, hk, hj⟩ := h
  obtain ⟨settings, o, hbuilt⟩ := hlog k p hk
  obtain ⟨_, heq⟩ := hbuilt.eq
  have hinputs : p.inputs = o.inputs.map (·.2.publication) := by rw [heq]; rfl
  rw [hinputs] at hj
  obtain ⟨input, hin, rfl⟩ := List.mem_map.mp hj
  obtain ⟨_, _, q, hq, _⟩ := hbuilt.known input hin
  have hlt := (List.getElem?_eq_some_iff.mp hq).1
  rw [List.length_take] at hlt
  omega

theorem descends_le {k j : Nat} (h : Relation.ReflTransGen (Consumed log) k j) : j ≤ k := by
  induction h with
  | refl => exact Nat.le_refl _
  | tail _ hstep ih => exact Nat.le_trans (Nat.le_of_lt (consumed_before hlog hstep)) ih

end

def plannerSettings : NodeSettings :=
  .cyclic ⟨ascii "BehaviorPlanner", [ascii "ObjectCollisionEstimator", ascii "NDTLocalizer",
    ascii "Lanelet2GlobalPlanner", ascii "Lanelet2MapLoader", ascii "ParkingPlanner", ascii "LanePlanner"],
    ascii "BehaviorPlanner"⟩

def controllerSettings : NodeSettings :=
  .transform ⟨ascii "MPCController", ascii "BehaviorPlanner", ascii "MPCController"⟩

def vehicleInterfaceSettings : NodeSettings :=
  .fusion ⟨ascii "VehicleInterface", ascii "MPCController", ascii "BehaviorPlanner", ascii "VehicleInterface"⟩

theorem autoware_publishers : autowareSystem.nodes[20]? = some plannerSettings ∧
    (∀ other ∈ autowareSystem.nodes, ascii "BehaviorPlanner" ∈ other.outputTopics → other = plannerSettings) ∧
    (∀ other ∈ autowareSystem.nodes, ascii "MPCController" ∈ other.outputTopics → other = controllerSettings) ∧
    ∀ other ∈ autowareSystem.nodes, ascii "VehicleInterface" ∈ other.outputTopics → other = vehicleInterfaceSettings := by
  decide +kernel

theorem autoware_kinds : ∀ a, .sensor a ∈ autowareSystem.nodes → a.sourceKind ≠ 0 := by
  intro a ha
  have hmem := List.mem_of_mem_filter ha
  simp only [List.mem_cons, NodeSettings.sensor.injEq, reduceCtorEq, List.not_mem_nil, or_false] at hmem
  rcases hmem with rfl | rfl | rfl | rfl | rfl | rfl <;> decide

section
variable {log : List Publication} (hlog : Log autowareSystem log)
include hlog

theorem planner_node {k : Nat} {p : Publication} (hk : log[k]? = some p) (htopic : p.topic = ascii "BehaviorPlanner") :
    p.node = 20 := by
  obtain ⟨hnode, honly, _⟩ := autoware_publishers
  obtain ⟨_, hbuilt, _⟩ := made_from hlog hk (htopic ▸ honly)
  exact node_inj autoware_proper.distinct hbuilt.node hnode rfl

/-- A message of the vehicle interface, the controller's message and the two planner cycles. -/
structure MadeFrom (log : List Publication) (k controller planner cycle : Nat) : Prop where
  interface : ∃ p, log[k]? = some p ∧ autowareSystem.nodes[p.node]? = some vehicleInterfaceSettings ∧
    p.inputs = [controller, planner]
  controller : ∃ p, log[controller]? = some p ∧ autowareSystem.nodes[p.node]? = some controllerSettings ∧
    p.inputs = [cycle]
  planner : ∃ p, log[planner]? = some p ∧ p.node = 20
  cycle : ∃ p, log[cycle]? = some p ∧ p.node = 20

theorem vehicleInterface_madeFrom {k : Nat} {p : Publication} (hk : log[k]? = some p)
    (htopic : p.topic = ascii "VehicleInterface") : ∃ controller planner cycle, MadeFrom log k controller planner cycle := by
  obtain ⟨_, _, hcontroller, hinterface⟩ := autoware_publishers
  obtain ⟨o, hbuilt, hinputs⟩ := made_from hlog hk (htopic ▸ hinterface)
  obtain ⟨r₀, r₁, ho, _⟩ := hbuilt.wired
  obtain ⟨_, ht₀, q₀, hq₀, _, rfl⟩ := hbuilt.known (0, r₀) (by rw [ho]; exact List.mem_cons_self ..)
  obtain ⟨_, ht₁, q₁, hq₁, _, rfl⟩ := hbuilt.known (1, r₁)
    (by rw [ho]; exact List.mem_cons_of_mem _ (List.mem_cons_self ..))
  have htopic₀ : q₀.topic = ascii "MPCController" := (Option.some.inj ht₀).symm
  have htopic₁ : q₁.topic = ascii "BehaviorPlanner" := (Option.some.inj ht₁).symm
  obtain ⟨o', hbuilt', hinputs'⟩ := made_from hlog hq₀ (htopic₀ ▸ hcontroller)
  obtain ⟨r, ho', _⟩ := hbuilt'.wired
  obtain ⟨_, ht, q, hq, _, rfl⟩ := hbuilt'.known (0, r) (by rw [ho']; exact List.mem_cons_self ..)
  have htopic : q.topic = ascii "BehaviorPlanner" := (Option.some.inj ht).symm
  exact ⟨r₀.publication, r₁.publication, r.publication, ⟨p, hk, hbuilt.node, by rw [hinputs, ho]; rfl⟩,
    ⟨q₀, hq₀, hbuilt'.node, by rw [hinputs', ho']; rfl⟩, ⟨q₁, hq₁, planner_node hlog hq₁ htopic₁⟩,
    ⟨q, hq, planner_node hlog hq htopic⟩⟩

end

theorem MadeFrom.plannerCycle {log : List Publication} {k controller planner cycle : Nat}
    (h : MadeFrom log k controller planner cycle) : plannerCycle log k = max planner cycle := by
  obtain ⟨⟨p, hk, _, hinputs⟩, ⟨q, hq, _, hinputs'⟩, _, _⟩ := h
  simp [ReferenceSystem.plannerCycle, hk, hinputs, hq, hinputs']

theorem MadeFrom.descends {log : List Publication} {k controller planner cycle : Nat}
    (h : MadeFrom log k controller planner cycle) :
    Relation.ReflTransGen (Consumed log) k planner ∧ Relation.ReflTransGen (Consumed log) k cycle := by
  obtain ⟨⟨p, hk, _, hinputs⟩, ⟨q, hq, _, hinputs'⟩, _, _⟩ := h
  have hcontroller : Consumed log k controller := ⟨p, hk, by rw [hinputs]; exact List.mem_cons_self ..⟩
  refine ⟨.single ⟨p, hk, by rw [hinputs]; exact List.mem_cons_of_mem _ (List.mem_cons_self ..)⟩, ?_⟩
  exact .head hcontroller (.single ⟨q, hq, by rw [hinputs']; exact List.mem_singleton_self _⟩)

/-- Every planner cycle that the message descends from is one of the two or earlier. -/
theorem MadeFrom.le {log : List Publication} (hlog : Log autowareSystem log) {k controller planner cycle : Nat}
    (h : MadeFrom log k controller planner cycle) {j : Nat} {q : Publication}
    (hreach : Relation.ReflTransGen (Consumed log) k j) (hq : log[j]? = some q) (hnode : q.node = 20) :
    j ≤ max planner cycle := by
  obtain ⟨⟨p, hk, hp, hinputs⟩, ⟨p', hk', hp', hinputs'⟩, _, _⟩ := h
  have hplanner := autoware_publishers.1
  rcases hreach.cases_head with rfl | ⟨x, ⟨_, hx, hmem⟩, hreach⟩
  · cases hk.symm.trans hq
    rw [hnode, hplanner] at hp
    cases hp
  · cases hk.symm.trans hx
    rw [hinputs] at hmem
    simp only [List.mem_cons, List.not_mem_nil, or_false] at hmem
    rcases hmem with rfl | rfl
    · rcases hreach.cases_head with rfl | ⟨y, ⟨_, hy, hmem⟩, hreach⟩
      · cases hk'.symm.trans hq
        rw [hnode, hplanner] at hp'
        cases hp'
      · cases hk'.symm.trans hy
        rw [hinputs'] at hmem
        cases List.mem_singleton.mp hmem
        exact Nat.le_trans (descends_le hlog hreach) (Nat.le_max_right ..)
    · exact Nat.le_trans (descends_le hlog hreach) (Nat.le_max_left ..)

section
variable {steps : List AtomicStep} {s : State} (h : atomicRun autowareSystem steps = some s)
  (hcycles : (s.published.filter (·.node = 20)).length < 2 ^ 32)
include h hcycles

theorem planner_position {j k : Nat} {p q : Publication} (hp : s.published[j]? = some p) (hq : s.published[k]? = some q)
    (hpn : p.node = 20) (hqn : q.node = 20) (hclock : Increasing s) :
    (p.sequence < q.sequence ↔ j < k) ∧ (p.timestamp < q.timestamp ↔ j < k) := by
  obtain ⟨steps', hrun⟩ := run_of_atomicRun h
  have hordered := chronological_run h hclock
  have htrace : TraceInv s := traceInv_run autoware_kinds rfl hrun
  exact ⟨sequence_position (inv_run hrun) htrace hordered.idle autoware_publishers.1 rfl hcycles hp hq hpn hqn,
    chronological_position hordered hp hq⟩

/-- The planner's entry in a message of the vehicle interface is that of the later cycle. -/
theorem planner_entry (hclock : Increasing s) {k : Nat} {p : Publication} (hk : s.published[k]? = some p)
    (htopic : p.topic = ascii "VehicleInterface") {e : TransmissionStats} (he : e ∈ p.message.used)
    (hname : e.name = ascii "BehaviorPlanner") :
    ∃ q, s.published[plannerCycle s.published k]? = some q ∧ q.node = 20 ∧ e.sequenceNumber = q.sequence ∧
      e.timestamp = q.timestamp := by
  obtain ⟨hlog, hist, _⟩ := autoware_facts h
  have hreached := log_reached autoware_proper rfl hlog k p hk
  have hdistinct := (hist p (List.mem_of_getElem? hk)).distinct
  obtain ⟨controller, planner, cycle, hmade⟩ := vehicleInterface_madeFrom hlog hk htopic
  obtain ⟨j, q, settings, hreach, hq, hs, rfl⟩ := hreached.origin e he
  rw [autoware_proper.entry_name hs] at hname
  have hnode : q.node = 20 := node_inj autoware_proper.distinct hs autoware_publishers.1 hname
  -- the two cycles are kept at most as late as the entry
  have hlate : ∀ i r, s.published[i]? = some r → r.node = 20 →
      Relation.ReflTransGen (Consumed s.published) k i → i ≤ j := by
    intro i r hr hrn hreach'
    obtain ⟨e', he', hname', hle⟩ := hreached.kept i r plannerSettings hreach' hr (hrn ▸ autoware_publishers.1)
    have hsame : e' = q.entry settings.nodeName := List.inj_on_of_nodup_map hdistinct he' he
      (by rw [hname', autoware_proper.entry_name hs, hname]; rfl)
    rw [hsame] at hle
    by_contra hji
    have hless := (planner_position h hcycles hq hr hnode hrn hclock).1.mpr (by omega)
    have hsnapshot : (q.entry settings.nodeName).snapshot < (r.entry plannerSettings.nodeName).snapshot :=
      Prod.Lex.toLex_lt_toLex.mpr (Or.inl (UInt32.lt_iff_toNat_lt.mp hless))
    exact absurd hle (not_le_of_gt hsnapshot)
  obtain ⟨r₁, hr₁, hn₁⟩ := hmade.planner
  obtain ⟨r₂, hr₂, hn₂⟩ := hmade.cycle
  have hplanner := hlate planner r₁ hr₁ hn₁ hmade.descends.1
  have hcycle := hlate cycle r₂ hr₂ hn₂ hmade.descends.2
  have hlast := hmade.le hlog hreach hq hnode
  have hposition : plannerCycle s.published k = j := by
    rw [hmade.plannerCycle]
    omega
  exact ⟨q, by rw [hposition]; exact hq, hnode, rfl, rfl⟩

/-- What a period needs: the sequence numbers and the time advance, so the
divisor is positive and neither difference wraps. -/
structure PeriodDefined (previous e : TransmissionStats) : Prop where
  sequence : previous.sequenceNumber < e.sequenceNumber
  time : previous.timestamp ≤ e.timestamp
  divisor : e.sequenceNumber - previous.sequenceNumber ≠ 0
  cycles : (e.sequenceNumber - previous.sequenceNumber).toNat = e.sequenceNumber.toNat - previous.sequenceNumber.toNat
  elapsed : (e.timestamp - previous.timestamp).toNat = e.timestamp.toNat - previous.timestamp.toNat

theorem period_iff (hclock : Increasing s) {k k' : Nat} {p p' : Publication} (hk : s.published[k]? = some p)
    (hk' : s.published[k']? = some p') (htopic : p.topic = ascii "VehicleInterface")
    (htopic' : p'.topic = ascii "VehicleInterface") {e e' : TransmissionStats} (he : e ∈ p.message.used)
    (he' : e' ∈ p'.message.used) (hname : e.name = ascii "BehaviorPlanner") (hname' : e'.name = ascii "BehaviorPlanner") :
    PeriodDefined e e' ↔ plannerCycle s.published k < plannerCycle s.published k' := by
  obtain ⟨q, hq, hn, hsequence, htime⟩ := planner_entry h hcycles hclock hk htopic he hname
  obtain ⟨q', hq', hn', hsequence', htime'⟩ := planner_entry h hcycles hclock hk' htopic' he' hname'
  obtain ⟨hsequences, htimes⟩ := planner_position h hcycles hq hq' hn hn' hclock
  constructor
  · intro hperiod
    have hadvance := hperiod.sequence
    rw [hsequence, hsequence'] at hadvance
    exact hsequences.mp hadvance
  · intro hlater
    have hadvance := hsequences.mpr hlater
    have hafter := htimes.mpr hlater
    rw [← hsequence, ← hsequence'] at hadvance
    rw [← htime, ← htime'] at hafter
    have hcycles : (e'.sequenceNumber - e.sequenceNumber).toNat = e'.sequenceNumber.toNat - e.sequenceNumber.toNat :=
      UInt32.toNat_sub_of_le _ _ (UInt32.le_of_lt hadvance)
    refine ⟨hadvance, UInt64.le_of_lt hafter, fun hzero => ?_, hcycles,
      UInt64.toNat_sub_of_le _ _ (UInt64.le_of_lt hafter)⟩
    rw [hzero] at hcycles
    have hless := UInt32.lt_iff_toNat_lt.mp hadvance
    have hnone : (0 : UInt32).toNat = 0 := rfl
    omega

end

/-! ## Messages of the drive-by-wire node -/

theorem dbw_topic : ∀ settings, .command settings ∈ autowareSystem.nodes →
    settings.nodeName = ascii "VehicleDBWSystem" → settings.inputTopic = ascii "VehicleInterface" := by
  have hall : autowareSystem.nodes.all (fun settings => match settings with
      | .command settings => decide (settings.nodeName = ascii "VehicleDBWSystem" →
          settings.inputTopic = ascii "VehicleInterface")
      | _ => true) = true := by decide
  exact fun settings hmem => of_decide_eq_true (List.all_eq_true.mp hall _ hmem)

theorem publishedBy_planner (p : Publication) :
    PublishedBy autowareSystem (ascii "BehaviorPlanner") p ↔ p.node = 20 := by
  obtain ⟨hplanner, _⟩ := autoware_publishers
  constructor
  · intro hby
    obtain ⟨settings, hs, _, hname⟩ := hby.settings
    exact node_inj autoware_proper.distinct hs hplanner hname
  · intro hnode
    rw [PublishedBy, hnode, hplanner]
    rfl

section
variable {steps : List AtomicStep} {s : State} (h : atomicRun autowareSystem steps = some s)
include h

theorem calls_history : ∀ call ∈ commandCalls s, (callMessage s call).size ≤ statsCapacity ∧
    ((callMessage s call).used.map (·.name)).Nodup := by
  rintro ⟨node, k⟩ hcall
  obtain ⟨steps', hrun⟩ := run_of_atomicRun h
  obtain ⟨_, hist, _⟩ := autoware_facts h
  obtain ⟨p, hp⟩ := commandCalls_published hrun hcall
  have hmessage : callMessage s (node, k) = p.message := by rw [callMessage, hp]; rfl
  have hhistory := hist p (List.mem_of_getElem? hp)
  rw [hmessage]
  exact ⟨hhistory.size, hhistory.distinct⟩

theorem dbw_call {k : Nat} (hcall : (ascii "VehicleDBWSystem", k) ∈ commandCalls s) :
    ∃ p, s.published[k]? = some p ∧ p.topic = ascii "VehicleInterface" ∧
      callMessage s (ascii "VehicleDBWSystem", k) = p.message := by
  obtain ⟨steps', hrun⟩ := run_of_atomicRun h
  obtain ⟨entry, hentry, hcall⟩ := List.mem_filterMap.mp hcall
  have hsink := sinkTopic_run hrun entry (Or.inl hentry)
  split at hcall
  · rename_i hrecord hsingle
    cases hcall
    obtain ⟨settings, k', p, hs, hname, hin, hp, htopic⟩ := hsink _ _ _ _ _ hrecord
    rw [hsingle] at hin
    cases hin
    exact ⟨p, hp, by rw [htopic, dbw_topic settings hs hname], by rw [callMessage, hp]; rfl⟩
  · cases hcall

/-- **When the period of the planner is defined**: for every two consecutive
messages of the drive-by-wire node with a planner entry, the period is taken
from their entries, and its divisor is positive exactly if the later message is
made from a later cycle. -/
theorem planner_periods_exact (hclock : s.clock.Pairwise (· < ·))
    (hcycles : (s.published.filter fun p => PublishedBy autowareSystem (ascii "BehaviorPlanner") p).length < 2 ^ 32)
    (timestampInNs : Nat → UInt64) {before between after : List (Bytes × Nat)} {k k' : Nat}
    (hcalls : commandCalls s =
      before ++ (ascii "VehicleDBWSystem", k) :: (between ++ (ascii "VehicleDBWSystem", k') :: after))
    (hquiet : ∀ call ∈ between, call.1 = ascii "VehicleDBWSystem" →
      ∀ e ∈ (callMessage s call).used, e.name ≠ ascii "BehaviorPlanner")
    {e e' : TransmissionStats} (he : e ∈ (callMessage s (ascii "VehicleDBWSystem", k)).used)
    (he' : e' ∈ (callMessage s (ascii "VehicleDBWSystem", k')).used) (hname : e.name = ascii "BehaviorPlanner")
    (hname' : e'.name = ascii "BehaviorPlanner") {report : SamplePathReport}
    (hreport : (samplePaths autowareSystem s timestampInNs)[before.length]? = some (some report)) :
    ∃ report', (samplePaths autowareSystem s timestampInNs)[
        (before ++ (ascii "VehicleDBWSystem", k) :: between).length]? = some (some report') ∧
      report'.behaviorPlannerPeriods =
        (if e.timestamp ≠ 0 then [(e'.timestamp - e.timestamp, e'.sequenceNumber - e.sequenceNumber)] else []) ∧
      (PeriodDefined e e' ↔ plannerCycle s.published k < plannerCycle s.published k') := by
  obtain ⟨report', hreport', hperiods⟩ := periods_at (calls_history h) rfl hcalls hquiet he he' hname hname' hreport
  have hmem : (ascii "VehicleDBWSystem", k) ∈ commandCalls s := by
    rw [hcalls]
    exact List.mem_append_right _ (List.mem_cons_self ..)
  have hmem' : (ascii "VehicleDBWSystem", k') ∈ commandCalls s := by
    rw [hcalls]
    exact List.mem_append_right _ (List.mem_cons_of_mem _ (List.mem_append_right _ (List.mem_cons_self ..)))
  obtain ⟨p, hp, htopic, hmessage⟩ := dbw_call h hmem
  obtain ⟨p', hp', htopic', hmessage'⟩ := dbw_call h hmem'
  rw [hmessage] at he
  rw [hmessage'] at he'
  have hcount : (s.published.filter (·.node = 20)).length < 2 ^ 32 := by
    have hsame : (s.published.filter fun p => PublishedBy autowareSystem (ascii "BehaviorPlanner") p) =
        s.published.filter (·.node = 20) :=
      List.filter_congr fun p _ => decide_eq_decide.mpr (publishedBy_planner p)
    rwa [hsame] at hcycles
  exact ⟨report', hreport', hperiods, period_iff h hcount hclock hp hp' htopic htopic' he he' hname hname'⟩

end

/-- Two cycles of the planner, each followed to the end before the next. -/
def freshCycles : List AtomicStep := timedSteps (countedCalls ++ [
  (20, .timer), (12, .deliver 0 18), (17, .deliver 1 18), (17, .deliver 0 19), (22, .deliver 0 20),
  (20, .timer), (12, .deliver 0 21), (17, .deliver 1 21), (17, .deliver 0 22), (22, .deliver 0 23)])

/-- The second cycle is cached before the controller's first message triggers
the vehicle interface; nothing is lost, doubled or overtaken. -/
def staleCycles : List AtomicStep := timedSteps (countedCalls ++ [
  (20, .timer), (17, .deliver 1 18), (12, .deliver 0 18), (20, .timer), (17, .deliver 1 20), (17, .deliver 0 19),
  (22, .deliver 0 21), (12, .deliver 0 20), (17, .deliver 0 22), (22, .deliver 0 23)])

def plannerEntryOf (m : Message) : Option TransmissionStats := m.used.find? fun e => e.name = ascii "BehaviorPlanner"

theorem plannerEntryOf_some {m : Message} {e : TransmissionStats} (h : plannerEntryOf m = some e) :
    e ∈ m.used ∧ e.name = ascii "BehaviorPlanner" :=
  ⟨List.mem_of_find?_eq_some h, by simpa using List.find?_some h⟩

theorem freshCycles_defined : ∃ s e e' report', atomicRun autowareSystem freshCycles = some s ∧
    plannerEntryOf (callMessage s (ascii "VehicleDBWSystem", 20)) = some e ∧
    plannerEntryOf (callMessage s (ascii "VehicleDBWSystem", 23)) = some e' ∧
    (samplePaths autowareSystem s fun _ => 1000)[10]? = some (some report') ∧
    report'.behaviorPlannerPeriods =
      (if e.timestamp ≠ 0 then [(e'.timestamp - e.timestamp, e'.sequenceNumber - e.sequenceNumber)] else []) ∧
    PeriodDefined e e' := by
  have hsome : ((atomicRun autowareSystem freshCycles).map fun s => decide (s.clock.Pairwise (· < ·) ∧
      (s.published.filter fun p => PublishedBy autowareSystem (ascii "BehaviorPlanner") p).length < 2 ^ 32 ∧
      (commandCalls s).drop 9 = [(ascii "VehicleDBWSystem", 20), (ascii "VehicleDBWSystem", 23)] ∧
      ((commandCalls s).take 9).length = 9 ∧
      (plannerEntryOf (callMessage s (ascii "VehicleDBWSystem", 20))).isSome ∧
      (plannerEntryOf (callMessage s (ascii "VehicleDBWSystem", 23))).isSome ∧
      (samplePaths autowareSystem s fun _ => 1000)[9]?.join.isSome ∧
      plannerCycle s.published 20 < plannerCycle s.published 23)) = some true := by decide
  obtain ⟨s, hs, hfacts⟩ := Option.map_eq_some_iff.mp hsome
  obtain ⟨hclock, hcycles, hcalls, hnine, he, he', hreport, hlater⟩ := of_decide_eq_true hfacts
  obtain ⟨e, he⟩ := Option.isSome_iff_exists.mp he
  obtain ⟨e', he'⟩ := Option.isSome_iff_exists.mp he'
  obtain ⟨report, hreport⟩ := Option.isSome_iff_exists.mp hreport
  obtain ⟨hmem, hname⟩ := plannerEntryOf_some he
  obtain ⟨hmem', hname'⟩ := plannerEntryOf_some he'
  have hsplit : commandCalls s = (commandCalls s).take 9 ++ (ascii "VehicleDBWSystem", 20) ::
      ([] ++ (ascii "VehicleDBWSystem", 23) :: []) := by
    rw [List.nil_append, ← hcalls, List.take_append_drop]
  have hfirst : (samplePaths autowareSystem s fun _ => 1000)[((commandCalls s).take 9).length]? = some (some report) := by
    rw [hnine]
    exact Option.join_eq_some_iff.mp hreport
  obtain ⟨report', hreport', hperiods, hiff⟩ := planner_periods_exact hs hclock hcycles (fun _ => 1000) hsplit
    (List.forall_mem_nil _) hmem hmem' hname hname' hfirst
  rw [List.length_append, hnine] at hreport'
  exact ⟨s, e, e', report', hs, he, he', hreport', hperiods, hiff.mpr hlater⟩

/-- The eleventh call divides 0 by 0. -/
theorem staleCycles_undefined : ∃ s e e', atomicRun autowareSystem staleCycles = some s ∧ s.clock.Pairwise (· < ·) ∧
    (s.published.filter fun p => PublishedBy autowareSystem (ascii "BehaviorPlanner") p).length < 2 ^ 32 ∧
    (commandCalls s).drop 9 = [(ascii "VehicleDBWSystem", 21), (ascii "VehicleDBWSystem", 23)] ∧
    plannerEntryOf (callMessage s (ascii "VehicleDBWSystem", 21)) = some e ∧
    plannerEntryOf (callMessage s (ascii "VehicleDBWSystem", 23)) = some e' ∧
    ¬ e.sequenceNumber < e'.sequenceNumber ∧
    (samplePaths autowareSystem s fun _ => 1000)[10]?.join.map (·.behaviorPlannerPeriods) = some [(0, 0)] := by
  have hsome : ((atomicRun autowareSystem staleCycles).map fun s => decide (s.clock.Pairwise (· < ·) ∧
      (s.published.filter fun p => PublishedBy autowareSystem (ascii "BehaviorPlanner") p).length < 2 ^ 32 ∧
      (commandCalls s).drop 9 = [(ascii "VehicleDBWSystem", 21), (ascii "VehicleDBWSystem", 23)] ∧
      (plannerEntryOf (callMessage s (ascii "VehicleDBWSystem", 21))).map (·.sequenceNumber) = some 1 ∧
      (plannerEntryOf (callMessage s (ascii "VehicleDBWSystem", 23))).map (·.sequenceNumber) = some 1 ∧
      (samplePaths autowareSystem s fun _ => 1000)[10]?.join.map (·.behaviorPlannerPeriods) = some [(0, 0)])) =
      some true := by decide +kernel
  obtain ⟨s, hs, hfacts⟩ := Option.map_eq_some_iff.mp hsome
  obtain ⟨hclock, hcycles, hcalls, he, he', hperiods⟩ := of_decide_eq_true hfacts
  obtain ⟨e, he, hone⟩ := Option.map_eq_some_iff.mp he
  obtain ⟨e', he', hone'⟩ := Option.map_eq_some_iff.mp he'
  refine ⟨s, e, e', hs, hclock, hcycles, hcalls, he, he', ?_, hperiods⟩
  rw [hone, hone']
  exact UInt32.lt_irrefl 1

end ReferenceSystem
