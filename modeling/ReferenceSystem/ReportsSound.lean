import Mathlib.Data.List.Induction
import ReferenceSystem.SamplePathSound

/-!
# The reports of a run

Each call of `print_sample_path` is made with the static variables that the
calls before it have left. What a call reports depends on its message, on the
time it reads and, for the period of the planner, on the last message of the
same node that had a planner entry.
-/

namespace ReferenceSystem

/-! ## The calls one after the other -/

/-- The message of a call. -/
def callMessage (s : State) (call : Bytes × Nat) : Message := (s.published[call.2]?.map (·.message)).getD default

section
variable (sys : System) (s : State) (timestampInNs : Nat → UInt64)

def pathCall (acc : SamplePathState × List (Option SamplePathReport)) (call : Bytes × Nat) :
    SamplePathState × List (Option SamplePathReport) :=
  let result := printSamplePath sys.benchmarkMode call.1 (timestampInNs acc.2.length) (callMessage s call) acc.1
  (result.1, acc.2 ++ [result.2])

/-- The static variables after some calls. -/
def pathState (calls : List (Bytes × Nat)) : SamplePathState :=
  (calls.foldl (pathCall sys s timestampInNs) ({}, [])).1

theorem samplePaths_eq :
    samplePaths sys s timestampInNs = ((commandCalls s).foldl (pathCall sys s timestampInNs) ({}, [])).2 := rfl

theorem pathCall_prefix (calls : List (Bytes × Nat)) : ∀ acc : SamplePathState × List (Option SamplePathReport),
    ∃ more, (calls.foldl (pathCall sys s timestampInNs) acc).2 = acc.2 ++ more ∧ more.length = calls.length := by
  induction calls with
  | nil => exact fun acc => ⟨[], (List.append_nil _).symm, rfl⟩
  | cons call calls ih =>
    intro acc
    obtain ⟨more, heq, hlength⟩ := ih (pathCall sys s timestampInNs acc call)
    conv_rhs at heq => rw [pathCall, List.append_assoc]
    exact ⟨_, heq, congrArg Nat.succ hlength⟩

theorem pathState_snoc (calls : List (Bytes × Nat)) (call : Bytes × Nat) :
    pathState sys s timestampInNs (calls ++ [call]) =
      (printSamplePath sys.benchmarkMode call.1 (timestampInNs calls.length) (callMessage s call)
        (pathState sys s timestampInNs calls)).1 := by
  obtain ⟨more, heq, hlength⟩ := pathCall_prefix sys s timestampInNs calls ({}, [])
  have hcount : (calls.foldl (pathCall sys s timestampInNs) ({}, [])).2.length = calls.length := by
    rw [heq, List.nil_append]
    exact hlength
  unfold pathState
  rw [List.foldl_append, List.foldl_cons, List.foldl_nil]
  conv_lhs => rw [pathCall]
  rw [hcount]

theorem samplePaths_at {before after : List (Bytes × Nat)} {call : Bytes × Nat}
    (hcalls : commandCalls s = before ++ call :: after) : (samplePaths sys s timestampInNs)[before.length]? =
      some (printSamplePath sys.benchmarkMode call.1 (timestampInNs before.length) (callMessage s call)
        (pathState sys s timestampInNs before)).2 := by
  obtain ⟨more, heq, hlength⟩ := pathCall_prefix sys s timestampInNs before ({}, [])
  rw [List.nil_append] at heq
  rw [samplePaths_eq, hcalls, List.foldl_append, List.foldl_cons]
  obtain ⟨rest, hrest, _⟩ := pathCall_prefix sys s timestampInNs after
    (pathCall sys s timestampInNs (before.foldl (pathCall sys s timestampInNs) ({}, [])) call)
  rw [hrest, pathCall, heq, hlength, List.append_assoc, List.getElem?_append_right (Nat.le_of_eq hlength), hlength,
    Nat.sub_self]
  rfl

end

/-! ## One call -/

/-- The body of the loop over the planner's entries, by entry. -/
def plannerEntry (acc : PlannerStatistic × List (UInt64 × UInt32)) (e : TransmissionStats) :
    PlannerStatistic × List (UInt64 × UInt32) :=
  if e.name = ascii "BehaviorPlanner" then
    (⟨e.sequenceNumber, e.timestamp⟩,
      if acc.1.previousBehaviorPlannerTimeStamp ≠ 0 then
        acc.2 ++ [(e.timestamp - acc.1.previousBehaviorPlannerTimeStamp,
          e.sequenceNumber - acc.1.previousBehaviorPlannerSequence)]
      else acc.2)
  else acc

theorem planner_used {m : Message} (hsize : m.size ≤ statsCapacity)
    (acc : PlannerStatistic × List (UInt64 × UInt32)) :
    (List.range m.size).foldl (plannerStep m) acc = m.used.foldl plannerEntry acc := by
  rw [used_eq_map m hsize, List.foldl_map]
  rfl

theorem planner_none {es : List TransmissionStats} (h : ∀ e ∈ es, e.name ≠ ascii "BehaviorPlanner")
    (acc : PlannerStatistic × List (UInt64 × UInt32)) : es.foldl plannerEntry acc = acc := by
  induction es with
  | nil => rfl
  | cons e es ih =>
    obtain ⟨he, hes⟩ := List.forall_mem_cons.mp h
    rw [List.foldl_cons, plannerEntry, if_neg he, ih hes]

theorem planner_one {es : List TransmissionStats} (hd : (es.map (·.name)).Nodup) {e : TransmissionStats} (he : e ∈ es)
    (hname : e.name = ascii "BehaviorPlanner") (acc : PlannerStatistic × List (UInt64 × UInt32)) :
    es.foldl plannerEntry acc = plannerEntry acc e := by
  obtain ⟨before, after, rfl⟩ := List.append_of_mem he
  rw [List.map_append, List.map_cons, List.nodup_middle, List.nodup_cons, List.mem_append, not_or] at hd
  obtain ⟨⟨hbefore, hafter⟩, _⟩ := hd
  have hothers : ∀ es : List TransmissionStats, e.name ∉ es.map (·.name) →
      ∀ other ∈ es, other.name ≠ ascii "BehaviorPlanner" := fun es hnot other hother heq =>
    hnot (List.mem_map.mpr ⟨other, hother, heq.trans hname.symm⟩)
  rw [List.foldl_append, List.foldl_cons, planner_none (hothers before hbefore), planner_none (hothers after hafter)]

section
variable {benchmarkMode : Bool} {nodeName : Bytes} {timestampInNs : UInt64} {m : Message} {σ : SamplePathState}

/-- A call that reports finds at least nine calls before it, and reports whatever time it reads. -/
theorem printSamplePath_report {report : SamplePathReport}
    (h : (printSamplePath benchmarkMode nodeName timestampInNs m σ).2 = some report) :
    benchmarkMode = false ∧ m.size ≠ 0 ∧ 9 ≤ σ.benchmarkCounter ∧
    ∀ time, ∃ report', (printSamplePath benchmarkMode nodeName time m σ).2 = some report' ∧
      report'.latency = time - minTimeStamp m := by
  unfold printSamplePath at h
  split at h
  · cases h
  · rename_i hsome
    split at h
    · cases h
    · rename_i hcounter
      have hmode : benchmarkMode = false ∧ m.size ≠ 0 := by simpa using hsome
      refine ⟨hmode.1, hmode.2, by omega, fun time => ?_⟩
      unfold printSamplePath
      rw [if_neg hsome, if_neg hcounter]
      exact ⟨_, rfl, rfl⟩

theorem printSamplePath_counter :
    σ.benchmarkCounter ≤ (printSamplePath benchmarkMode nodeName timestampInNs m σ).1.benchmarkCounter := by
  unfold printSamplePath
  split
  · exact Nat.le_refl _
  · split
    · exact Nat.le_succ _
    · exact Nat.le_succ _

/-- A call with a planner entry takes one period, unless it is the first, and keeps the entry. -/
theorem printSamplePath_planner (nodeName : Bytes) (timestampInNs : UInt64) (hmode : benchmarkMode = false)
    (hcounter : 9 ≤ σ.benchmarkCounter) (hsize : m.size ≤ statsCapacity) (hd : (m.used.map (·.name)).Nodup)
    {e : TransmissionStats} (he : e ∈ m.used) (hname : e.name = ascii "BehaviorPlanner") :
    (∃ report, (printSamplePath benchmarkMode nodeName timestampInNs m σ).2 = some report ∧
      report.behaviorPlannerPeriods = (plannerEntry (σ.statistics nodeName, []) e).2) ∧
    (printSamplePath benchmarkMode nodeName timestampInNs m σ).1.statistics nodeName =
      ⟨e.sequenceNumber, e.timestamp⟩ := by
  have hnonempty : m.size ≠ 0 := by
    intro hzero
    rw [used_eq_map m hsize, hzero] at he
    cases he
  unfold printSamplePath
  rw [if_neg (by simp [hmode, hnonempty]), if_neg (by omega)]
  simp only [planner_used hsize, planner_one hd he hname]
  refine ⟨⟨_, rfl, rfl⟩, ?_⟩
  rw [Function.update_self, plannerEntry, if_pos hname]

theorem printSamplePath_statistics (hsize : m.size ≤ statsCapacity) {other : Bytes}
    (h : nodeName = other → ∀ e ∈ m.used, e.name ≠ ascii "BehaviorPlanner") :
    (printSamplePath benchmarkMode nodeName timestampInNs m σ).1.statistics other = σ.statistics other := by
  unfold printSamplePath
  split
  · rfl
  · split
    · rfl
    · simp only [planner_used hsize]
      by_cases hnode : nodeName = other
      · rw [planner_none (h hnode), hnode, Function.update_self]
      · rw [Function.update_of_ne (Ne.symm hnode)]

end

/-! ## Periods along a run -/

section
variable {sys : System} {s : State} {timestampInNs : Nat → UInt64}
  (hmessages : ∀ call ∈ commandCalls s, (callMessage s call).size ≤ statsCapacity ∧
    ((callMessage s call).used.map (·.name)).Nodup)
include hmessages

/-- Between two calls of a node nothing changes its statistic but a message with a planner entry. -/
theorem pathState_between (timestampInNs : Nat → UInt64) (node : Bytes) {between : List (Bytes × Nat)} :
    ∀ before : List (Bytes × Nat),
    (∀ call ∈ between, call ∈ commandCalls s) →
    (∀ call ∈ between, call.1 = node → ∀ e ∈ (callMessage s call).used, e.name ≠ ascii "BehaviorPlanner") →
    (pathState sys s timestampInNs (before ++ between)).statistics node =
        (pathState sys s timestampInNs before).statistics node ∧
      (pathState sys s timestampInNs before).benchmarkCounter ≤
        (pathState sys s timestampInNs (before ++ between)).benchmarkCounter := by
  induction between using List.reverseRecOn with
  | nil =>
    intro before _ _
    rw [List.append_nil]
    exact ⟨rfl, Nat.le_refl _⟩
  | append_singleton between call ih =>
    intro before hcalls hquiet
    obtain ⟨hstatistics, hcounter⟩ := ih before
      (fun c hc => hcalls c (List.mem_append_left _ hc)) (fun c hc => hquiet c (List.mem_append_left _ hc))
    have hlast : call ∈ between ++ [call] := List.mem_append_right _ (List.mem_singleton_self _)
    rw [← List.append_assoc, pathState_snoc]
    exact ⟨(printSamplePath_statistics (hmessages call (hcalls call hlast)).1 (hquiet call hlast)).trans hstatistics,
      Nat.le_trans hcounter printSamplePath_counter⟩

/-- The period that a message adds is taken from the last message of the node with a planner entry. -/
theorem periods_at (hmode : sys.benchmarkMode = false) {node : Bytes} {before between after : List (Bytes × Nat)} {k k' : Nat}
    (hcalls : commandCalls s = before ++ (node, k) :: (between ++ (node, k') :: after))
    (hquiet : ∀ call ∈ between, call.1 = node → ∀ e ∈ (callMessage s call).used, e.name ≠ ascii "BehaviorPlanner")
    {e e' : TransmissionStats} (he : e ∈ (callMessage s (node, k)).used) (he' : e' ∈ (callMessage s (node, k')).used)
    (hname : e.name = ascii "BehaviorPlanner") (hname' : e'.name = ascii "BehaviorPlanner") {report : SamplePathReport}
    (hreport : (samplePaths sys s timestampInNs)[before.length]? = some (some report)) :
    ∃ report', (samplePaths sys s timestampInNs)[(before ++ (node, k) :: between).length]? = some (some report') ∧
      report'.behaviorPlannerPeriods =
        if e.timestamp ≠ 0 then [(e'.timestamp - e.timestamp, e'.sequenceNumber - e.sequenceNumber)] else [] := by
  rw [samplePaths_at sys s timestampInNs hcalls, Option.some.injEq] at hreport
  obtain ⟨_, _, hcounter, _⟩ := printSamplePath_report hreport
  have hmem : ∀ call, call = (node, k) ∨ call ∈ between ∨ call = (node, k') → call ∈ commandCalls s := by
    intro call hcall
    rw [hcalls]
    simp only [List.mem_append, List.mem_cons]
    tauto
  obtain ⟨hsize, hd⟩ := hmessages (node, k) (hmem _ (Or.inl rfl))
  obtain ⟨hsize', hd'⟩ := hmessages (node, k') (hmem _ (Or.inr (Or.inr rfl)))
  obtain ⟨_, hkept⟩ := printSamplePath_planner node (timestampInNs before.length) hmode hcounter hsize hd he hname
  obtain ⟨hstatistics, hlater⟩ := pathState_between hmessages timestampInNs node (before ++ [(node, k)])
    (fun call hcall => hmem call (Or.inr (Or.inl hcall))) hquiet
  have hfirst : (pathState sys s timestampInNs before).benchmarkCounter ≤
      (pathState sys s timestampInNs (before ++ [(node, k)])).benchmarkCounter := by
    rw [pathState_snoc]
    exact printSamplePath_counter
  have hsnoc : (pathState sys s timestampInNs (before ++ [(node, k)])).statistics node =
      ⟨e.sequenceNumber, e.timestamp⟩ := by
    rw [pathState_snoc]
    exact hkept
  rw [hsnoc, List.append_assoc, List.singleton_append] at hstatistics
  rw [List.append_assoc, List.singleton_append] at hlater
  have hcalls' : commandCalls s = (before ++ (node, k) :: between) ++ (node, k') :: after := by
    rw [hcalls, List.append_assoc, List.cons_append]
  obtain ⟨⟨report', hreport', hperiods⟩, _⟩ := printSamplePath_planner node
    (timestampInNs (before ++ (node, k) :: between).length)
    (σ := pathState sys s timestampInNs (before ++ (node, k) :: between)) hmode (by omega) hsize' hd' he' hname'
  refine ⟨report', ?_, ?_⟩
  · rw [samplePaths_at sys s timestampInNs hcalls']
    exact congrArg some hreport'
  · rw [hperiods, hstatistics, plannerEntry, if_pos hname']
    simp only [List.nil_append]

end

/-! ## Two clocks -/

/-- What `system_clock` shows when `CLOCK_MONOTONIC` shows `now`. -/
def systemClock (offset : Int) (now : UInt64) : UInt64 := now + UInt64.ofInt offset

theorem ofInt_eq_iff {a b : Int} : UInt64.ofInt a = UInt64.ofInt b ↔ (2 ^ 64 : Int) ∣ a - b := by
  have hsize : ∀ x : Int, (UInt64.ofInt x).toNat = (x % 2 ^ 64).toNat := by
    intro x
    unfold UInt64.ofInt
    rw [UInt64.toNat_ofNat']
    omega
  rw [← UInt64.toNat_inj, hsize, hsize]
  omega

theorem systemClock_eq_iff (offset offset' : Int) (now : UInt64) :
    systemClock offset now = systemClock offset' now ↔ (2 ^ 64 : Int) ∣ offset - offset' := by
  unfold systemClock
  rw [UInt64.add_right_inj, ofInt_eq_iff]

/-- The oldest timestamp in the history of a message. -/
def OldestTimestamp (m : Message) (oldest : UInt64) : Prop :=
  (∃ i < m.size, (m.statsAt i).timestamp = oldest) ∧ ∀ i < m.size, oldest ≤ (m.statsAt i).timestamp

theorem foldl_min {α : Type} (f : α → UInt64) (l : List α) : ∀ t : UInt64,
    (l.foldl (fun t a => min t (f a)) t = t ∨ ∃ a ∈ l, f a = l.foldl (fun t a => min t (f a)) t) ∧
    l.foldl (fun t a => min t (f a)) t ≤ t ∧ ∀ a ∈ l, l.foldl (fun t a => min t (f a)) t ≤ f a := by
  induction l with
  | nil => exact fun t => ⟨Or.inl rfl, UInt64.le_refl t, List.forall_mem_nil _⟩
  | cons b l ih =>
    intro t
    rw [List.foldl_cons]
    obtain ⟨hattained, hinit, hall⟩ := ih (min t (f b))
    refine ⟨?_, UInt64.le_trans hinit Std.min_le_left,
      List.forall_mem_cons.mpr ⟨UInt64.le_trans hinit Std.min_le_right, hall⟩⟩
    rcases hattained with heq | ⟨a, ha, heq⟩
    · rw [heq]
      rcases Std.min_eq_or (a := t) (b := f b) with hmin | hmin
      · exact Or.inl hmin
      · exact Or.inr ⟨b, List.mem_cons_self .., hmin.symm⟩
    · exact Or.inr ⟨a, List.mem_cons_of_mem _ ha, heq⟩

theorem minTimeStamp_oldest {m : Message} (h : m.size ≠ 0) : OldestTimestamp m (minTimeStamp m) := by
  obtain ⟨hattained, _, hall⟩ := foldl_min (fun i => (m.statsAt i).timestamp) (List.range m.size)
    (UInt64.ofNat (2 ^ 64 - 1))
  have hle : ∀ i < m.size, minTimeStamp m ≤ (m.statsAt i).timestamp := fun i hi => hall i (List.mem_range.mpr hi)
  refine ⟨?_, hle⟩
  rcases hattained with hmax | ⟨i, hi, heq⟩
  · have hzero := hle 0 (by omega)
    have hgreatest : minTimeStamp m = UInt64.ofNat (2 ^ 64 - 1) := hmax
    refine ⟨0, by omega, UInt64.le_antisymm ?_ hzero⟩
    rw [hgreatest, UInt64.le_iff_toNat_le]
    exact Nat.le_of_lt_succ (m.statsAt 0).timestamp.toNat_lt
  · exact ⟨i, List.mem_range.mp hi, heq⟩

/-- The latency of a call is the time since the oldest timestamp exactly if the clocks agree. -/
theorem latency_iff {m : Message} {now oldest : UInt64} (holdest : OldestTimestamp m oldest)
    (hafter : ∀ i < m.size, (m.statsAt i).timestamp ≤ now) (offset : Int) :
    (systemClock offset now - oldest).toNat = now.toNat - oldest.toNat ↔ (2 ^ 64 : Int) ∣ offset := by
  obtain ⟨⟨i, hi, rfl⟩, _⟩ := holdest
  have hsame : systemClock 0 now = now := UInt64.add_zero now
  have hagree := systemClock_eq_iff offset 0 now
  rw [hsame, Int.sub_zero] at hagree
  rw [← UInt64.toNat_sub_of_le _ _ (hafter i hi), UInt64.toNat_inj, UInt64.sub_left_inj, hagree]

section
variable (sys : System) (s : State) (timestampInNs timestampInNs' : Nat → UInt64)

theorem samplePaths_get {n : Nat} {call : Bytes × Nat} (h : (commandCalls s)[n]? = some call) :
    (samplePaths sys s timestampInNs)[n]? = some (printSamplePath sys.benchmarkMode call.1 (timestampInNs n)
      (callMessage s call) (pathState sys s timestampInNs ((commandCalls s).take n))).2 := by
  obtain ⟨hn, rfl⟩ := List.getElem?_eq_some_iff.mp h
  have hlength : ((commandCalls s).take n).length = n := List.length_take_of_le (Nat.le_of_lt hn)
  have hcalls : commandCalls s = (commandCalls s).take n ++ (commandCalls s)[n] :: (commandCalls s).drop (n + 1) := by
    rw [← List.drop_eq_getElem_cons hn, List.take_append_drop]
  have hat := samplePaths_at sys s timestampInNs hcalls
  rwa [hlength] at hat

theorem length_samplePaths : (samplePaths sys s timestampInNs).length = (commandCalls s).length := by
  obtain ⟨more, heq, hlength⟩ := pathCall_prefix sys s timestampInNs (commandCalls s) ({}, [])
  rw [samplePaths_eq, heq, List.nil_append, hlength]

/-- The static variables do not depend on the times that the calls read. -/
theorem pathState_times (calls : List (Bytes × Nat)) :
    pathState sys s timestampInNs calls = pathState sys s timestampInNs' calls := by
  induction calls using List.reverseRecOn with
  | nil => rfl
  | append_singleton calls call ih =>
    rw [pathState_snoc, pathState_snoc, ih]
    unfold printSamplePath
    split
    · rfl
    · split
      · rfl
      · rfl

end

/-- **The latency is a duration exactly if the two clocks agree**: for every
message that a command node reports in a run, the latency is the time from its
oldest timestamp to the call if the offset vanishes in 64 bits, and two offsets
give the same latency only if they do not differ there. -/
theorem latency_offset_exact {sys : System} {steps : List Step} {s : State} (h : run sys steps = some s)
    {now : Nat → UInt64} (hafter : ∀ n node k p, (commandCalls s)[n]? = some (node, k) → s.published[k]? = some p →
      ∀ i < p.message.size, (p.message.statsAt i).timestamp ≤ now n)
    (offset : Int) {n : Nat} {report : SamplePathReport}
    (hreport : (samplePaths sys s fun n => systemClock offset (now n))[n]? = some (some report)) :
    ∃ node k p oldest, (commandCalls s)[n]? = some (node, k) ∧ s.published[k]? = some p ∧
      OldestTimestamp p.message oldest ∧
      (report.latency.toNat = (now n).toNat - oldest.toNat ↔ (2 ^ 64 : Int) ∣ offset) ∧
      ∀ offset', ∃ report', (samplePaths sys s fun n => systemClock offset' (now n))[n]? = some (some report') ∧
        (report'.latency = report.latency ↔ (2 ^ 64 : Int) ∣ offset' - offset) := by
  have hn : n < (commandCalls s).length := by
    rw [← length_samplePaths sys s]
    exact (List.getElem?_eq_some_iff.mp hreport).1
  have hcall : (commandCalls s)[n]? = some (commandCalls s)[n] := List.getElem?_eq_getElem hn
  generalize (commandCalls s)[n] = call at hcall
  obtain ⟨node, k⟩ := call
  obtain ⟨p, hp⟩ := commandCalls_published h (List.mem_of_getElem? hcall)
  have hmessage : callMessage s (node, k) = p.message := by rw [callMessage, hp]; rfl
  rw [samplePaths_get sys s _ hcall, hmessage, Option.some.injEq] at hreport
  obtain ⟨_, hnonempty, _, htimes⟩ := printSamplePath_report hreport
  obtain ⟨same, hsame, hlatency⟩ := htimes (systemClock offset (now n))
  cases hreport.symm.trans hsame
  refine ⟨node, k, p, minTimeStamp p.message, hcall, hp, minTimeStamp_oldest hnonempty, ?_, fun offset' => ?_⟩
  · rw [hlatency]
    exact latency_iff (minTimeStamp_oldest hnonempty) (hafter n node k p hcall hp) offset
  · obtain ⟨report', hreport', hlatency'⟩ := htimes (systemClock offset' (now n))
    refine ⟨report', ?_, ?_⟩
    · rw [samplePaths_get sys s _ hcall, hmessage, pathState_times sys s _ fun n => systemClock offset (now n), hreport']
    · rw [hlatency, hlatency', UInt64.sub_left_inj, systemClock_eq_iff]

/-- A rear scan is cached, and ten front scans are fused with it and received. -/
def tenScans : List AtomicStep := timedSteps ([(1, .timer), (2, .deliver 1 0)] ++
  (List.range 10).flatMap fun n => [(0, .timer), (2, .deliver 0 (2 * n + 1)), (3, .deliver 0 (2 * n + 2))])

theorem tenScans_read : ∃ s, atomicRun lidarSystem tenScans = some s ∧
    (∀ p ∈ s.published, ∀ i < p.message.size, (p.message.statsAt i).timestamp ≤ 1000) ∧
    ∀ offset, ∃ report, (samplePaths lidarSystem s fun _ => systemClock offset 1000)[9]? = some (some report) := by
  have hsome : ((atomicRun lidarSystem tenScans).map fun s =>
      decide ((∀ p ∈ s.published, ∀ i < p.message.size, (p.message.statsAt i).timestamp ≤ 1000) ∧
        (commandCalls s)[9]?.isSome ∧ (samplePaths lidarSystem s fun _ => 0)[9]?.join.isSome)) = some true := by
    decide
  obtain ⟨s, hs, hfacts⟩ := Option.map_eq_some_iff.mp hsome
  obtain ⟨htimes, hcall, hreport⟩ := of_decide_eq_true hfacts
  obtain ⟨call, hcall⟩ := Option.isSome_iff_exists.mp hcall
  obtain ⟨report, hreport⟩ := Option.isSome_iff_exists.mp hreport
  refine ⟨s, hs, htimes, fun offset => ?_⟩
  have hget := Option.join_eq_some_iff.mp hreport
  rw [samplePaths_get lidarSystem s _ hcall, Option.some.injEq] at hget
  obtain ⟨_, _, _, hall⟩ := printSamplePath_report hget
  obtain ⟨report', hreport', _⟩ := hall (systemClock offset 1000)
  exact ⟨report', by rw [samplePaths_get lidarSystem s _ hcall, pathState_times lidarSystem s _ fun _ => 0, hreport']⟩

theorem tenScans_elapsed : ∃ s report oldest, atomicRun lidarSystem tenScans = some s ∧
    (samplePaths lidarSystem s fun _ => systemClock 0 1000)[9]? = some (some report) ∧
    (∃ node k p, (commandCalls s)[9]? = some (node, k) ∧ s.published[k]? = some p ∧ OldestTimestamp p.message oldest) ∧
    report.latency.toNat = (1000 : UInt64).toNat - oldest.toNat := by
  obtain ⟨s, hs, htimes, hreports⟩ := tenScans_read
  obtain ⟨report, hreport⟩ := hreports 0
  obtain ⟨steps', hrun⟩ := run_of_atomicRun hs
  have hafter : ∀ n node k p, (commandCalls s)[n]? = some (node, k) → s.published[k]? = some p →
      ∀ i < p.message.size, (p.message.statsAt i).timestamp ≤ (fun _ => 1000 : Nat → UInt64) n :=
    fun _ _ _ p _ hp => htimes p (List.mem_of_getElem? hp)
  obtain ⟨node, k, p, oldest, hcall, hp, holdest, hiff, _⟩ := latency_offset_exact hrun hafter 0 hreport
  exact ⟨s, report, oldest, hs, hreport, ⟨node, k, p, hcall, hp, holdest⟩, hiff.mpr (Int.dvd_zero _)⟩

/-- With the wall clock some fifty years ahead, 999 nanoseconds are reported as fifty years. -/
theorem tenScans_fifty_years : ∃ s report k p, atomicRun lidarSystem tenScans = some s ∧
    (∀ p ∈ s.published, ∀ i < p.message.size, (p.message.statsAt i).timestamp ≤ 1000) ∧
    (samplePaths lidarSystem s fun _ => systemClock 1700000000000000000 1000)[9]? = some (some report) ∧
    (commandCalls s)[9]? = some (ascii "VehicleDBWSystem", k) ∧ s.published[k]? = some p ∧
    OldestTimestamp p.message 1 ∧ report.latency = 1700000000000000999 := by
  have hsome : ((atomicRun lidarSystem tenScans).map fun s =>
      decide ((commandCalls s)[9]? = some (ascii "VehicleDBWSystem", 20) ∧
        s.published[20]?.map (fun p => decide (p.message.size ≠ 0 ∧ minTimeStamp p.message = 1)) = some true ∧
        (samplePaths lidarSystem s fun _ => systemClock 1700000000000000000 1000)[9]?.join.map (·.latency) =
          some 1700000000000000999)) = some true := by decide
  obtain ⟨s, hs, hfacts⟩ := Option.map_eq_some_iff.mp hsome
  obtain ⟨hcall, hmessage, hreport⟩ := of_decide_eq_true hfacts
  obtain ⟨s', hs', htimes, _⟩ := tenScans_read
  cases hs.symm.trans hs'
  obtain ⟨p, hp, hoffset⟩ := Option.map_eq_some_iff.mp hmessage
  obtain ⟨hnonempty, hone⟩ := of_decide_eq_true hoffset
  obtain ⟨report, hjoin, hlatency⟩ := Option.map_eq_some_iff.mp hreport
  exact ⟨s, report, 20, p, hs, htimes, Option.join_eq_some_iff.mp hjoin, hcall, hp, hone ▸ minTimeStamp_oldest hnonempty,
    hlatency⟩

end ReferenceSystem
