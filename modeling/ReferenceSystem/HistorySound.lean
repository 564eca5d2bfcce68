import ReferenceSystem.SamplesSound
import ReferenceSystem.SystemSound
import Mathlib.Data.Set.Card
import Mathlib.Logic.Relation

/-!
# Sample histories of published messages

In a system whose node graph is acyclic and in which no node has more than 62
ancestors, every published message carries distinct names of ancestors, each
with a snapshot its node really wrote, and its publisher's own entry last. The
publisher's name is never among its inputs, so `set_sample` always appends, and
the ancestors leave room for it.
-/

namespace ReferenceSystem

/-! ## The node graph -/

def Feeds (sys : System) (i j : Nat) : Prop :=
  ∃ a b, sys.nodes[i]? = some a ∧ sys.nodes[j]? = some b ∧ ∃ topic ∈ a.outputTopics, topic ∈ b.inputTopics

def Ancestor (sys : System) : Nat → Nat → Prop := Relation.TransGen (Feeds sys)

def AncestorOrSelf (sys : System) : Nat → Nat → Prop := Relation.ReflTransGen (Feeds sys)

/-- The systems whose histories always fit. -/
structure Proper (sys : System) : Prop where
  distinct : (sys.nodes.map NodeSettings.nodeName).Nodup
  nulFree : ∀ settings ∈ sys.nodes, (0 : UInt8) ∉ settings.nodeName
  short : ∀ settings ∈ sys.nodes, settings.nodeName.length ≤ 47
  acyclic : ∀ i, ¬ Ancestor sys i i
  narrow : ∀ i, {j | Ancestor sys j i}.ncard ≤ 62

theorem Ancestor.lt_length {sys : System} {i j : Nat} (h : Ancestor sys i j) : i < sys.nodes.length := by
  obtain ⟨_, ⟨_, _, hi, _⟩, _⟩ := Relation.TransGen.head'_iff.mp h
  exact (List.getElem?_eq_some_iff.mp hi).1

theorem ancestors_finite (sys : System) (i : Nat) : {j | Ancestor sys j i}.Finite :=
  (Set.finite_lt_nat sys.nodes.length).subset fun _ h => Ancestor.lt_length h

theorem Ancestor.rank_lt {sys : System} {rank : Nat → Nat} (hrank : ∀ i j, Feeds sys i j → rank i < rank j)
    {i j : Nat} (h : Ancestor sys i j) : rank i < rank j := by
  induction h with
  | single h => exact hrank _ _ h
  | tail _ h ih => exact ih.trans (hrank _ _ h)

theorem Proper.of_rank {sys : System} (rank : Nat → Nat) (hdistinct : (sys.nodes.map NodeSettings.nodeName).Nodup)
    (hnul : ∀ settings ∈ sys.nodes, (0 : UInt8) ∉ settings.nodeName)
    (hshort : ∀ settings ∈ sys.nodes, settings.nodeName.length ≤ 47)
    (hrank : ∀ a ∈ sys.nodes.zipIdx, ∀ b ∈ sys.nodes.zipIdx,
      (∃ topic ∈ a.1.outputTopics, topic ∈ b.1.inputTopics) → rank a.2 < rank b.2)
    (hlen : sys.nodes.length ≤ 62) : Proper sys := by
  have hfeeds : ∀ i j, Feeds sys i j → rank i < rank j := by
    rintro i j ⟨a, b, ha, hb, htopic⟩
    exact hrank (a, i) (List.mem_zipIdx_iff_getElem?.mpr ha) (b, j) (List.mem_zipIdx_iff_getElem?.mpr hb) htopic
  refine ⟨hdistinct, hnul, hshort, fun i h => Nat.lt_irrefl _ (Ancestor.rank_lt hfeeds h), fun i => ?_⟩
  have hsub : {j | Ancestor sys j i} ⊆ (Finset.range sys.nodes.length : Set Nat) := fun j hj => by
    simpa using Ancestor.lt_length hj
  calc {j | Ancestor sys j i}.ncard
      ≤ (Finset.range sys.nodes.length : Set Nat).ncard := Set.ncard_le_ncard hsub (Finset.finite_toSet _)
    _ = sys.nodes.length := by rw [Set.ncard_coe_finset, Finset.card_range]
    _ ≤ 62 := hlen

/-! ## Publications follow the graph -/

theorem inputTopic_mem {settings : NodeSettings} {channel index : Nat} {topic : Bytes}
    (h : inputTopic settings channel index = some topic) : topic ∈ settings.inputTopics := by
  cases settings with
  | intersection s =>
    obtain ⟨connection, hc, rfl⟩ := Option.map_eq_some_iff.mp h
    exact List.mem_map_of_mem (List.mem_of_getElem? hc)
  | _ => exact List.mem_of_getElem? h

theorem Wired.topic_mem {timestamp : UInt64} {settings : NodeSettings} {o : Output}
    (h : Wired timestamp settings o) : o.topic ∈ settings.outputTopics := by
  cases settings with
  | sensor s => obtain ⟨_, _, ht, _⟩ := h; rw [ht]; exact List.mem_singleton_self _
  | transform s => obtain ⟨_, _, _, ht, _⟩ := h; rw [ht]; exact List.mem_singleton_self _
  | fusion s => obtain ⟨_, _, _, _, ht, _⟩ := h; rw [ht]; exact List.mem_singleton_self _
  | cyclic s => obtain ⟨_, ht, _⟩ := h; rw [ht]; exact List.mem_singleton_self _
  | intersection s =>
    obtain ⟨_, connection, _, hc, ht, _⟩ := h
    rw [ht]; exact List.mem_map_of_mem (List.mem_of_getElem? hc)
  | command s => exact h.elim

theorem Built.topic_mem {sys : System} {log : List Publication} {p : Publication} (h : Built sys log p) :
    ∃ settings, sys.nodes[p.node]? = some settings ∧ p.topic ∈ settings.outputTopics := by
  obtain ⟨settings, o, hnode, hwired, _, s, heq⟩ := h
  refine ⟨settings, hnode, ?_⟩
  rw [heq]; exact hwired.topic_mem

theorem KnownInputs.feeds {sys : System} {log : List Publication} {i : Nat} {settings : NodeSettings} {o : Output}
    (h : KnownInputs log settings o) (hlog : Log sys log) (hnode : sys.nodes[i]? = some settings)
    {input : Nat × Received} (hin : input ∈ o.inputs) :
    ∃ q, log[input.2.publication]? = some q ∧ q.message = input.2.message ∧ Feeds sys q.node i := by
  obtain ⟨topic, ht, q, hq, hm, rfl⟩ := h input hin
  obtain ⟨settings', hs', hmem⟩ := (hlog _ q hq).topic_mem
  exact ⟨q, hq, hm, settings', settings, hs', hnode, q.topic, hmem, inputTopic_mem ht⟩

/-! ## Histories -/

def Publication.entry (p : Publication) (nodeName : Bytes) : TransmissionStats :=
  ⟨p.timestamp, p.sequence, p.dropped, storeName nodeName⟩

def WrittenBy (sys : System) (log : List Publication) (j : Nat) (e : TransmissionStats) : Prop :=
  ∃ q ∈ log, q.node = j ∧ ∃ settings, sys.nodes[j]? = some settings ∧ e = q.entry settings.nodeName

structure History (sys : System) (log : List Publication) (p : Publication) : Prop where
  size : p.message.size ≤ statsCapacity
  distinct : DistinctNames p.message
  written : ∀ e ∈ p.message.used, ∃ j, AncestorOrSelf sys j p.node ∧ WrittenBy sys log j e
  last : ∃ settings, sys.nodes[p.node]? = some settings ∧
    p.message.used.getLast? = some (p.entry settings.nodeName)
  provenance : p.message.provenanceSequence = p.sequence

theorem Proper.entry_name {sys : System} (hp : Proper sys) {i : Nat} {settings : NodeSettings}
    (h : sys.nodes[i]? = some settings) (p : Publication) :
    (p.entry settings.nodeName).name = settings.nodeName :=
  name_storeName (Nat.lt_succ_of_le (hp.short _ (List.mem_of_getElem? h))) (hp.nulFree _ (List.mem_of_getElem? h))

theorem WrittenBy.name {sys : System} {log : List Publication} {j : Nat} {e : TransmissionStats} (hp : Proper sys)
    (h : WrittenBy sys log j e) : ∃ settings, sys.nodes[j]? = some settings ∧ e.name = settings.nodeName := by
  obtain ⟨q, _, _, settings, hs, rfl⟩ := h
  exact ⟨settings, hs, hp.entry_name hs q⟩

section
variable {sys : System} {log : List Publication} {i : Nat} {settings : NodeSettings} {o : Output}

theorem KnownInputs.ancestors (h : KnownInputs log settings o) (hlog : Log sys log)
    (hnode : sys.nodes[i]? = some settings) (hist : ∀ q ∈ log, History sys log q) {input : Nat × Received}
    (hin : input ∈ o.inputs) {e : TransmissionStats} (he : e ∈ input.2.message.used) :
    ∃ j, Ancestor sys j i ∧ WrittenBy sys log j e := by
  obtain ⟨q, hq, hm, hfeeds⟩ := h.feeds hlog hnode hin
  obtain ⟨j, hj, hw⟩ := (hist q (List.mem_of_getElem? hq)).written e (hm ▸ he)
  exact ⟨j, Relation.TransGen.tail' hj hfeeds, hw⟩

theorem KnownInputs.size (h : KnownInputs log settings o) (hist : ∀ q ∈ log, History sys log q) :
    ∀ source ∈ o.inputs.map (·.2.message), source.size ≤ statsCapacity := by
  intro source hs
  obtain ⟨input, hin, rfl⟩ := List.mem_map.mp hs
  obtain ⟨_, _, q, hq, hm, _⟩ := h input hin
  rw [← hm]; exact (hist q (List.mem_of_getElem? hq)).size

theorem KnownInputs.names (h : KnownInputs log settings o) (hp : Proper sys) (hlog : Log sys log)
    (hnode : sys.nodes[i]? = some settings) (hist : ∀ q ∈ log, History sys log q) :
    let names := ((o.inputs.map (·.2.message)).flatMap fun m => m.used.map (·.name)).eraseDups
    names.length < statsCapacity ∧ settings.nodeName ∉ names := by
  intro names
  have hmem : ∀ name ∈ names, ∃ j a, Ancestor sys j i ∧ sys.nodes[j]? = some a ∧ name = a.nodeName := by
    intro name hn
    obtain ⟨source, hs, hn⟩ := List.mem_flatMap.mp (List.mem_eraseDups.mp hn)
    obtain ⟨input, hin, rfl⟩ := List.mem_map.mp hs
    obtain ⟨e, he, rfl⟩ := List.mem_map.mp hn
    obtain ⟨j, hj, hw⟩ := h.ancestors hlog hnode hist hin he
    obtain ⟨a, ha, hname⟩ := hw.name hp
    exact ⟨j, a, hj, ha, hname⟩
  constructor
  · let nameOf : Nat → Bytes := fun j => (sys.nodes[j]?.map NodeSettings.nodeName).getD []
    have hsub : (names.toFinset : Set Bytes) ⊆ nameOf '' {j | Ancestor sys j i} := by
      intro name hn
      obtain ⟨j, a, hj, ha, rfl⟩ := hmem name (List.mem_toFinset.mp hn)
      exact ⟨j, hj, by simp [nameOf, ha]⟩
    have hfin := ancestors_finite sys i
    calc names.length
        = (names.toFinset : Set Bytes).ncard := by
          rw [Set.ncard_coe_finset, List.toFinset_card_of_nodup (nodup_eraseDups _)]
      _ ≤ (nameOf '' {j | Ancestor sys j i}).ncard := Set.ncard_le_ncard hsub (hfin.image _)
      _ ≤ {j | Ancestor sys j i}.ncard := Set.ncard_image_le hfin
      _ < statsCapacity := Nat.lt_succ_of_le (hp.narrow i)
  · intro hself
    obtain ⟨j, a, hj, ha, hname⟩ := hmem _ hself
    have : j = i := node_inj hp.distinct ha hnode hname.symm
    exact hp.acyclic i (this ▸ hj)

theorem assemble_used (nodeName : Bytes) (timestamp : UInt64) (overflow : Nat)
    (hs : ∀ source ∈ o.inputs.map (·.2.message), source.size ≤ statsCapacity)
    (hroom : ((o.inputs.map (·.2.message)).flatMap fun m => m.used.map (·.name)).eraseDups.length < statsCapacity)
    (hfresh : nodeName ∉ ((o.inputs.map (·.2.message)).flatMap fun m => m.used.map (·.name)).eraseDups) :
    let result := assemble false nodeName timestamp o overflow
    result.1.used = newest (·.name) isNewerEntry ((o.inputs.map (·.2.message)).flatMap fun m => m.used) ++
        [⟨timestamp, o.sequence, o.dropped, storeName nodeName⟩] ∧
      result.1.size ≤ statsCapacity ∧ result.2 = overflow := by
  obtain ⟨hused, hsize, hover⟩ := mergeAll_empty overflow (show (default : Message).size = 0 from rfl) hs (Nat.le_of_lt hroom)
  have hnames : (mergeAll (o.inputs.map (·.2.message)) (default, overflow)).1.used.map (·.name) =
      ((o.inputs.map (·.2.message)).flatMap fun m => m.used.map (·.name)).eraseDups := by
    rw [hused, keys_newest, List.map_flatMap]
  have hlt : (mergeAll (o.inputs.map (·.2.message)) (default, overflow)).1.size < statsCapacity := by
    rw [← Message.length_used _ hsize, ← List.length_map (f := TransmissionStats.name), hnames]
    exact hroom
  obtain ⟨hown, hsucc, hkeep⟩ := setSample_fresh o.sequence o.dropped timestamp
    (mergeAll (o.inputs.map (·.2.message)) (default, overflow)).2 hlt (hnames ▸ hfresh)
  have hmerge : o.inputs.foldl (fun st input => mergeHistoryIntoSample false input.2.message st) (default, overflow) =
      mergeAll (o.inputs.map (·.2.message)) (default, overflow) := by
    rw [mergeAll, List.foldl_map]
  simp only [assemble, hmerge]
  refine ⟨?_, ?_, hkeep.trans hover⟩
  · rw [← hused]; exact hown
  · exact (Nat.le_of_eq hsucc).trans hlt

theorem assemble_history (h : KnownInputs log settings o) (hp : Proper sys) (hlog : Log sys log)
    (hnode : sys.nodes[i]? = some settings) (hist : ∀ q ∈ log, History sys log q) (timestamp : UInt64)
    (overflow : Nat) :
    let result := assemble false settings.nodeName timestamp o overflow
    result.1.used = newest (·.name) isNewerEntry ((o.inputs.map (·.2.message)).flatMap fun m => m.used) ++
        [⟨timestamp, o.sequence, o.dropped, storeName settings.nodeName⟩] ∧
      result.1.size ≤ statsCapacity ∧ result.2 = overflow := by
  obtain ⟨hroom, hfresh⟩ := h.names hp hlog hnode hist
  exact assemble_used settings.nodeName timestamp overflow (h.size hist) hroom hfresh

end

theorem WrittenBy.mono {sys : System} {log : List Publication} {j : Nat} {e : TransmissionStats}
    (h : WrittenBy sys log j e) (more : List Publication) : WrittenBy sys (log ++ more) j e := by
  obtain ⟨q, hq, hj⟩ := h
  exact ⟨q, List.mem_append_left _ hq, hj⟩

theorem History.mono {sys : System} {log : List Publication} {p : Publication} (h : History sys log p)
    (more : List Publication) : History sys (log ++ more) p :=
  { h with
    written := fun e he => by
      obtain ⟨j, hj, hw⟩ := h.written e he
      exact ⟨j, hj, hw.mono more⟩ }

theorem BuiltFrom.used {sys : System} {log : List Publication} {p : Publication} {settings : NodeSettings} {o : Output}
    (hp : Proper sys) (hb : sys.benchmarkMode = false) (hlog : Log sys log) (hist : ∀ q ∈ log, History sys log q)
    (h : BuiltFrom sys log p settings o) :
    p.message.used = newest (·.name) isNewerEntry ((o.inputs.map (·.2.message)).flatMap fun m => m.used) ++
        [p.entry settings.nodeName] ∧ p.message.size ≤ statsCapacity := by
  obtain ⟨hnode, _, hknown, s, heq⟩ := h
  obtain ⟨hused, hsize, _⟩ :=
    assemble_history hknown hp hlog hnode hist p.timestamp s.metadataOverflowCount
  have hmsg : p.message = (assemble false settings.nodeName p.timestamp o s.metadataOverflowCount).1 := by
    rw [heq, ← hb]; rfl
  have hentry : p.entry settings.nodeName = ⟨p.timestamp, o.sequence, o.dropped, storeName settings.nodeName⟩ := by
    rw [heq]; rfl
  rw [hmsg, hentry]
  exact ⟨hused, hsize⟩

theorem mem_merged {o : Output} {e : TransmissionStats}
    (h : e ∈ newest (·.name) isNewerEntry ((o.inputs.map (·.2.message)).flatMap fun m => m.used)) :
    ∃ input ∈ o.inputs, e ∈ input.2.message.used := by
  obtain ⟨source, hs, he⟩ := List.mem_flatMap.mp (mem_newest _ _ h)
  obtain ⟨input, hin, rfl⟩ := List.mem_map.mp hs
  exact ⟨input, hin, he⟩

theorem Built.history {sys : System} {log : List Publication} {p : Publication} (hp : Proper sys)
    (hb : sys.benchmarkMode = false) (hlog : Log sys log) (hist : ∀ q ∈ log, History sys log q)
    (h : Built sys log p) : History sys (log ++ [p]) p := by
  obtain ⟨settings, o, hbuilt⟩ := h
  obtain ⟨hused, hsize⟩ := hbuilt.used hp hb hlog hist
  obtain ⟨hnode, _, hknown, s, heq⟩ := hbuilt
  have hself : WrittenBy sys (log ++ [p]) p.node (p.entry settings.nodeName) :=
    ⟨p, List.mem_append_right _ (List.mem_singleton_self p), rfl, settings, hnode, rfl⟩
  refine ⟨hsize, ?_, ?_, ⟨settings, hnode, ?_⟩, ?_⟩
  · rw [DistinctNames, hused, List.map_append, List.nodup_append]
    refine ⟨nodup_keys_newest _ _ _, List.nodup_singleton _, fun a ha b hb' => ?_⟩
    rw [List.map_singleton, List.mem_singleton, hp.entry_name hnode] at hb'
    rw [keys_newest, List.map_flatMap] at ha
    exact fun hab => (hknown.names hp hlog hnode hist).2 (hb' ▸ hab ▸ ha)
  · intro e he
    rw [hused] at he
    rcases List.mem_append.mp he with he | he
    · obtain ⟨input, hin, he⟩ := mem_merged he
      obtain ⟨j, hj, hw⟩ := hknown.ancestors hlog hnode hist hin he
      exact ⟨j, hj.to_reflTransGen, hw.mono _⟩
    · cases List.mem_singleton.mp he
      exact ⟨p.node, Relation.ReflTransGen.refl, hself⟩
  · rw [hused, List.getLast?_append]; rfl
  · rw [heq]; rfl

theorem log_history {sys : System} (hp : Proper sys) (hb : sys.benchmarkMode = false) (log : List Publication) :
    Log sys log → ∀ q ∈ log, History sys log q := by
  induction log using List.reverseRecOn with
  | nil => exact fun _ q hq => absurd hq List.not_mem_nil
  | append_singleton log p ih =>
    intro hlog q hq
    obtain ⟨hlog, hbuilt⟩ := hlog.of_snoc
    have hist := ih hlog
    rcases List.mem_append.mp hq with hq | hq
    · exact (hist q hq).mono _
    · cases List.mem_singleton.mp hq
      exact hbuilt.history hp hb hlog hist

/-! ## No overflow -/

theorem overflow_step {sys : System} (hp : Proper sys) (hb : sys.benchmarkMode = false) {s s' : State} {e : Step}
    (hi : Inv sys s) (h : step sys s e = some s') : s'.metadataOverflowCount = s.metadataOverflowCount := by
  cases e with
  | act i now =>
    obtain ⟨_, _, _, ⟨_, _, rfl⟩ | ⟨_, _, rfl⟩⟩ := act_cases h <;> rfl
  | start i event now =>
    obtain ⟨process, nodeEvent, node, effect, hproc, _, hev, hcall, rfl⟩ := start_cases h
    have hfires := callback_fires hcall
    cases effect with
    | silent => rfl
    | consume sequence input => rfl
    | publish o =>
      have hknown := (hfires.publish (hi.cached i process hproc) (Inv.knownEvent hev)).2
      have hist := log_history hp hb s.published hi.log
      have := assemble_history hknown hp hi.log (hi.settings hproc) hist now s.metadataOverflowCount
      simp only [perform, hb, hfires.settings]
      exact this.2.2

theorem overflow_run {sys : System} (hp : Proper sys) (hb : sys.benchmarkMode = false) {steps : List Step}
    {s : State} (h : run sys steps = some s) : s.metadataOverflowCount = 0 :=
  (run_invariant (P := fun s => Inv sys s ∧ s.metadataOverflowCount = 0)
    (fun s e s' hs h => ⟨inv_step s e s' hs.1 h, (overflow_step hp hb hs.1 h).trans hs.2⟩) steps
    ⟨inv_init sys, rfl⟩ h).2

/-! ## The history of every published message -/

theorem getSampleSequenceNumber_last {m : Message} {e : TransmissionStats} (h : m.size ≤ statsCapacity)
    (hlast : m.used.getLast? = some e) : getSampleSequenceNumber false m = e.sequenceNumber := by
  rw [List.getLast?_eq_getElem?, m.length_used h] at hlast
  have hlt := (List.getElem?_eq_some_iff.mp hlast).1
  rw [m.length_used h] at hlt
  rw [m.used_eq, m.getElem?_slots h (by omega)] at hlast
  have hpos : (m.size == 0) = false := by simp; omega
  simp only [getSampleSequenceNumber, hpos, Bool.or_self, Bool.false_eq_true, ite_false, Option.some.inj hlast]

/-- **The history of every message of every run.** -/
theorem published_history {sys : System} (hp : Proper sys) (hb : sys.benchmarkMode = false)
    {steps : List AtomicStep} {s : State} (h : atomicRun sys steps = some s) :
    (∀ p ∈ s.published, ∃ settings, sys.nodes[p.node]? = some settings ∧
      p.message.size ≤ statsCapacity ∧
      (p.message.used.map (·.name)).Nodup ∧
      (∀ e ∈ p.message.used, ∃ j a, AncestorOrSelf sys j p.node ∧ sys.nodes[j]? = some a ∧ e.name = a.nodeName ∧
        ∃ q ∈ s.published, q.node = j ∧
          e.sequenceNumber = q.sequence ∧ e.timestamp = q.timestamp ∧ e.droppedSamples = q.dropped) ∧
      (∃ last, p.message.used.getLast? = some last ∧ last.name = settings.nodeName ∧
        last.sequenceNumber = p.message.provenanceSequence) ∧
      getSampleSequenceNumber false p.message = p.message.provenanceSequence) ∧
    s.metadataOverflowCount = 0 := by
  obtain ⟨steps', hrun⟩ := run_of_atomicRun h
  refine ⟨fun p hmem => ?_, overflow_run hp hb hrun⟩
  have hist := log_history hp hb s.published (inv_run hrun).log p hmem
  obtain ⟨settings, hnode, hlast⟩ := hist.last
  refine ⟨settings, hnode, hist.size, hist.distinct, fun e he => ?_, ⟨_, hlast, ?_, hist.provenance.symm⟩, ?_⟩
  · obtain ⟨j, hj, hw⟩ := hist.written e he
    obtain ⟨a, ha, hname⟩ := hw.name hp
    obtain ⟨q, hq, hqj, _, _, rfl⟩ := hw
    exact ⟨j, a, hj, ha, hname, q, hq, hqj, rfl, rfl, rfl⟩
  · exact hp.entry_name hnode p
  · rw [getSampleSequenceNumber_last hist.size hlast]; exact hist.provenance.symm

theorem lidarSystem_proper : Proper lidarSystem :=
  Proper.of_rank id (by decide) (by decide) (by decide) (by decide) (by decide)

/-- The fused message names both lidars and, last, the fusion node. -/
theorem lidarRun_history : ∃ s, atomicRun lidarSystem lidarRun = some s ∧
    s.published.map (fun p => p.message.used.map (·.name)) =
      [[ascii "RearLidarDriver"], [ascii "FrontLidarDriver"],
        [ascii "FrontLidarDriver", ascii "RearLidarDriver", ascii "PointCloudFusion"]] ∧
    s.metadataOverflowCount = 0 ∧
    ∀ p ∈ s.published, getSampleSequenceNumber false p.message = p.message.provenanceSequence := by
  have hsome : (atomicRun lidarSystem lidarRun).any (fun s =>
      s.published.map (fun p => p.message.used.map (·.name)) =
        [[ascii "RearLidarDriver"], [ascii "FrontLidarDriver"],
          [ascii "FrontLidarDriver", ascii "RearLidarDriver", ascii "PointCloudFusion"]]) := by decide
  obtain ⟨s, hs, hnames⟩ := (Option.any_eq_true _ _).mp hsome
  obtain ⟨hall, hover⟩ := published_history lidarSystem_proper rfl hs
  refine ⟨s, hs, of_decide_eq_true hnames, hover, fun p hp => ?_⟩
  obtain ⟨_, _, _, _, _, _, hseq⟩ := hall p hp
  exact hseq

end ReferenceSystem
