import ReferenceSystem.Roots
import ReferenceSystem.HistorySound
import ReferenceSystem.SourceSound

/-!
# Source roots and the oldest source

A history keeps the newest entry of every node that a message descends from,
and its source is the oldest of all sensor publications it descends from. Both
are related to the messages consumed on the way: every entry was written by a
publication that is reached, and every publication that is reached has an entry
at least as new (`log_reached`).
-/

namespace ReferenceSystem

/-! ## Histories and consumed messages -/

/-- The entries of the `k`-th message against the publications it descends from. -/
structure Reached (sys : System) (log : List Publication) (k : Nat) (p : Publication) : Prop where
  origin : ∀ e ∈ p.message.used, ∃ j q settings, Relation.ReflTransGen (Consumed log) k j ∧ log[j]? = some q ∧
    sys.nodes[q.node]? = some settings ∧ e = q.entry settings.nodeName
  kept : ∀ j q settings, Relation.ReflTransGen (Consumed log) k j → log[j]? = some q →
    sys.nodes[q.node]? = some settings →
    ∃ e ∈ p.message.used, e.name = settings.nodeName ∧ (q.entry settings.nodeName).snapshot ≤ e.snapshot

section
variable {sys : System} {log : List Publication} (hp : Proper sys) (hb : sys.benchmarkMode = false)
  (hlog : Log sys log)
include hp hb hlog

theorem reached_inputs {k : Nat} {p : Publication} {settings : NodeSettings} {o : Output} (hk : log[k]? = some p)
    (h : BuiltFrom sys log p settings o)
    (ih : ∀ input ∈ o.inputs, ∀ q, log[input.2.publication]? = some q → Reached sys log input.2.publication q) :
    Reached sys log k p := by
  have hused := (h.used hp hb hlog (log_history hp hb log hlog)).1
  have hinputs : p.inputs = o.inputs.map (·.2.publication) := by
    obtain ⟨s, heq⟩ := h.eq
    rw [heq]; rfl
  have hnamed := hp.entry_name h.node p
  constructor
  · intro e he
    rw [hused] at he
    rcases List.mem_append.mp he with he | he
    · obtain ⟨input, hin, he⟩ := mem_merged he
      obtain ⟨_, _, q, hq, hm, _⟩ := h.known input hin
      obtain ⟨j, q', settings', hreach, hrest⟩ := (ih input hin q hq).origin e (hm ▸ he)
      have hstep : Consumed log k input.2.publication := ⟨p, hk, hinputs ▸ List.mem_map_of_mem hin⟩
      exact ⟨j, q', settings', Relation.ReflTransGen.head hstep hreach, hrest⟩
    · exact ⟨k, p, settings, Relation.ReflTransGen.refl, hk, h.node, List.mem_singleton.mp he⟩
  · intro j q settings' hreach hq hs
    rw [hused]
    rcases Relation.ReflTransGen.cases_head_iff.mp hreach with rfl | ⟨c, ⟨p', hp', hc⟩, hreach⟩
    · cases hk.symm.trans hq
      cases h.node.symm.trans hs
      exact ⟨_, List.mem_append_right _ (List.mem_singleton_self _), hnamed, le_rfl⟩
    · cases hk.symm.trans hp'
      rw [hinputs] at hc
      obtain ⟨input, hin, rfl⟩ := List.mem_map.mp hc
      obtain ⟨_, _, q', hq', hm, _⟩ := h.known input hin
      obtain ⟨e, he, hname, hle⟩ := (ih input hin q' hq').kept j q settings' hreach hq hs
      have hmem : e ∈ (o.inputs.map (·.2.message)).flatMap fun m => m.used :=
        List.mem_flatMap.mpr ⟨input.2.message, List.mem_map_of_mem hin, hm ▸ he⟩
      obtain ⟨e', he', hname', hle'⟩ := foldl_covers (·.name) isNewerEntry_iff _ (l := []) (Or.inr hmem)
      exact ⟨e', List.mem_append_left _ he', hname'.trans hname, hle.trans hle'⟩

theorem log_reached : ∀ (k : Nat) (p : Publication), log[k]? = some p → Reached sys log k p := by
  intro k
  induction k using Nat.strongRecOn with
  | ind k ih =>
    intro p hk
    obtain ⟨settings, o, hbuilt⟩ := hlog k p hk
    have hearlier : ∀ input ∈ o.inputs, input.2.publication < k := by
      intro input hin
      obtain ⟨_, _, q, hq, _⟩ := hbuilt.known input hin
      have := (List.getElem?_eq_some_iff.mp hq).1
      rw [List.length_take] at this
      omega
    have hbuilt' := hbuilt.mono (log.drop k)
    rw [List.take_append_drop] at hbuilt'
    exact reached_inputs hp hb hlog hk hbuilt' fun input hin q hq => ih _ (hearlier input hin) q hq

end

/-! ## The source and the roots of a message -/

def sensorNames (sys : System) : List Bytes :=
  sys.nodes.filterMap fun settings =>
    match settings with
    | .sensor s => some s.nodeName
    | _ => none

theorem mem_sensorNames {sys : System} {name : Bytes} :
    name ∈ sensorNames sys ↔ ∃ settings : SensorSettings, .sensor settings ∈ sys.nodes ∧ settings.nodeName = name := by
  unfold sensorNames
  rw [List.mem_filterMap]
  constructor
  · rintro ⟨settings, hs, hname⟩
    cases settings with
    | sensor s => exact ⟨s, hs, Option.some.inj hname⟩
    | _ => cases hname
  · rintro ⟨s, hs, rfl⟩
    exact ⟨.sensor s, hs, rfl⟩

section
variable {sys : System} {log : List Publication} (hp : Proper sys) (hb : sys.benchmarkMode = false)
  (hlog : Log sys log)
include hp hb hlog

theorem sensor_entry (hkind : ∀ settings : SensorSettings, .sensor settings ∈ sys.nodes → settings.sourceKind ≠ 0)
    {k : Nat} {p : Publication} (hk : log[k]? = some p) {e : TransmissionStats} (he : e ∈ p.message.used)
    (hname : e.name ∈ sensorNames sys) :
    ∃ x ∈ reachableSources sys log k, x.timestampNs = e.timestamp := by
  obtain ⟨j, q, settings, hreach, hq, hs, rfl⟩ := (log_reached hp hb hlog k p hk).origin e he
  obtain ⟨sensor, hsensor, hnamed⟩ := mem_sensorNames.mp hname
  obtain ⟨i, hi⟩ := List.mem_iff_getElem?.mp hsensor
  rw [hp.entry_name hs] at hnamed
  cases node_inj hp.distinct hi hs hnamed
  cases hi.symm.trans hs
  exact ⟨_, ⟨j, q, hreach, hq, sensor, hi, hkind sensor hsensor, rfl⟩, rfl⟩

theorem sensor_kept {k : Nat} {p : Publication} (hk : log[k]? = some p) {x : ProvenanceSource}
    (hx : x ∈ reachableSources sys log k) : ∃ e ∈ p.message.used, e.name ∈ sensorNames sys := by
  obtain ⟨j, q, hreach, hq, sensor, hs, _⟩ := hx
  obtain ⟨e, he, hname, _⟩ := (log_reached hp hb hlog k p hk).kept j q _ hreach hq hs
  exact ⟨e, he, mem_sensorNames.mpr ⟨sensor, List.mem_of_getElem? hs, hname.symm⟩⟩

end

/-- **The two lineage mechanisms agree**: a message has a source exactly when
it has roots, and the source is no later than any of them. -/
theorem published_roots {sys : System} (hp : Proper sys) (hb : sys.benchmarkMode = false)
    (hkind : ∀ settings : SensorSettings, .sensor settings ∈ sys.nodes → settings.sourceKind ≠ 0)
    {steps : List Step} {s : State} (h : run sys steps = some s) : ∀ p ∈ s.published,
    ((provenanceSource p.message).valid = true ↔ extractSourceRoots p.message (sensorNames sys) ≠ []) ∧
    ((provenanceSource p.message).valid = true →
      (∀ root ∈ extractSourceRoots p.message (sensorNames sys), p.message.sourceTimestampNs ≤ root.timestamp) ∧
      p.message.sourceTimestampNs ≤
        (selectSourceReference (extractSourceRoots p.message (sensorNames sys)) true).timestamp) := by
  intro p hmem
  have hlog := (inv_run h).log
  have hsize := (log_history hp hb s.published hlog p hmem).size
  obtain ⟨k, hk⟩ := List.mem_iff_getElem?.mp hmem
  have hsource := log_source hlog k p hk
  have hiff : (provenanceSource p.message).valid = true ↔ extractSourceRoots p.message (sensorNames sys) ≠ [] := by
    rw [hsource.valid_iff, extractSourceRoots_ne_nil hsize]
    constructor
    · rintro ⟨x, hx⟩
      exact sensor_kept hp hb hlog hk hx
    · rintro ⟨e, he, hname⟩
      obtain ⟨x, hx, _⟩ := sensor_entry hp hb hlog hkind hk he hname
      exact ⟨x, hx⟩
  refine ⟨hiff, fun hv => ?_⟩
  have hall : ∀ root ∈ extractSourceRoots p.message (sensorNames sys),
      p.message.sourceTimestampNs ≤ root.timestamp := by
    intro root hroot
    obtain ⟨e, he, hname, rfl⟩ := mem_extractSourceRoots hsize _ hroot
    obtain ⟨x, hx, htime⟩ := sensor_entry hp hb hlog hkind hk he hname
    rw [← htime]
    exact hsource.le hv x hx
  exact ⟨hall, hall _ (selectSourceReference_mem true (hiff.mp hv))⟩

theorem lidarRun_roots : ∃ steps s p, run lidarSystem steps = some s ∧ p ∈ s.published ∧
    extractSourceRoots p.message (sensorNames lidarSystem) =
      [⟨ascii "FrontLidarDriver", 0, 30⟩, ⟨ascii "RearLidarDriver", 0, 10⟩] ∧
    p.message.sourceTimestampNs ≤
      (selectSourceReference (extractSourceRoots p.message (sensorNames lidarSystem)) true).timestamp := by
  have hsome : ((atomicRun lidarSystem lidarRun).map fun s => s.published[2]?.map fun p =>
      extractSourceRoots p.message (sensorNames lidarSystem)) =
      some (some [⟨ascii "FrontLidarDriver", 0, 30⟩, ⟨ascii "RearLidarDriver", 0, 10⟩]) := by decide
  obtain ⟨s, hs, hp⟩ := Option.map_eq_some_iff.mp hsome
  obtain ⟨p, hp, hroots⟩ := Option.map_eq_some_iff.mp hp
  obtain ⟨steps, hrun⟩ := run_of_atomicRun hs
  have hmem := List.mem_of_getElem? hp
  have hkind : ∀ settings : SensorSettings, .sensor settings ∈ lidarSystem.nodes → settings.sourceKind ≠ 0 := by
    intro settings hset
    simp only [lidarSystem, List.mem_cons, NodeSettings.sensor.injEq, reduceCtorEq, List.not_mem_nil, or_false] at hset
    rcases hset with rfl | rfl <;> decide
  obtain ⟨hiff, hle⟩ := published_roots lidarSystem_proper rfl hkind hrun p hmem
  exact ⟨steps, s, p, hrun, hmem, hroots, (hle (hiff.mpr (by rw [hroots]; exact List.cons_ne_nil _ _))).2⟩

end ReferenceSystem
