import ReferenceSystem.System

/-!
# What a run publishes

Every published message is built from messages published before it, in the
way its node's type prescribes (`Built`). This is proved once, over all
interleavings, from what a single step can do; the properties of histories,
sources and lineages are then inductions over the log of publications.
-/

namespace ReferenceSystem

/-! ## What a step does -/

theorem start_cases {sys : System} {s s' : State} {i : Nat} {event : Event} {now : UInt64}
    (h : start sys s i event now = some s') :
    ∃ process nodeEvent node effect, s.processes[i]? = some process ∧ process.pending = [] ∧
      resolveEvent s process.node.settings event = some nodeEvent ∧
      process.node.callback sys.benchmarkMode now nodeEvent = some (node, effect) ∧
      s' = { s with
        processes := s.processes.set i
          ⟨node, s.started, (perform sys s i node.settings.nodeName now effect).1⟩
        clock := if process.node.readsTimestamp nodeEvent then s.clock ++ [now] else s.clock
        metadataOverflowCount := (perform sys s i node.settings.nodeName now effect).2
        started := s.started + 1 } := by
  unfold start at h
  cases hp : s.processes[i]? with
  | none => rw [hp] at h; cases h
  | some process =>
    simp only [hp] at h
    split at h
    · cases h
    · rename_i hpend
      cases hr : resolveEvent s process.node.settings event with
      | none => simp only [hr] at h; cases h
      | some nodeEvent =>
        simp only [hr] at h
        cases hc : process.node.callback sys.benchmarkMode now nodeEvent with
        | none => simp only [hc] at h; cases h
        | some result =>
          obtain ⟨node, effect⟩ := result
          simp only [hc, Option.some.injEq] at h
          exact ⟨process, nodeEvent, node, effect, rfl, not_not.mp hpend, hr, hc, h.symm⟩

theorem act_cases {sys : System} {s s' : State} {i : Nat} {now : UInt64} (h : act sys s i now = some s') :
    ∃ node callback rest,
      (∃ p, s.processes[i]? = some ⟨node, callback, .publish p :: rest⟩ ∧
        s' = { s with processes := s.processes.set i ⟨node, callback, rest⟩, published := s.published ++ [p] }) ∨
      (∃ e, s.processes[i]? = some ⟨node, callback, .emit e :: rest⟩ ∧
        s' = { s with
          processes := s.processes.set i ⟨node, callback, rest⟩
          emitted := s.emitted ++ [{ e with record := e.record.stamp now }]
          records :=
            if sys.structuredOutput then s.records ++ [{ e with record := e.record.stamp now }] else s.records
          clock := if e.record.isSource then s.clock else s.clock ++ [now] }) := by
  unfold act at h
  split at h
  · rename_i node callback p rest hp
    cases h; exact ⟨node, callback, rest, Or.inl ⟨p, hp, rfl⟩⟩
  · rename_i node callback e rest hp
    cases h; exact ⟨node, callback, rest, Or.inr ⟨e, hp, rfl⟩⟩
  · cases h

theorem resolveEvent_message {s : State} {settings : NodeSettings} {event : Event} {j : Nat} {input : Received}
    (h : resolveEvent s settings event = some (.message j input)) :
    ∃ q, s.published[input.publication]? = some q ∧ q.message = input.message ∧
      settings.inputTopics[j]? = some q.topic := by
  unfold resolveEvent at h
  split at h
  · cases h
  · split at h
    · cases h
    · rename_i q hq
      split at h
      · rename_i ht; cases h; exact ⟨q, hq, rfl, ht⟩
      · cases h

theorem node_inj {sys : System} (h : (sys.nodes.map NodeSettings.nodeName).Nodup) {i j : Nat} {a b : NodeSettings}
    (hi : sys.nodes[i]? = some a) (hj : sys.nodes[j]? = some b) (hab : a.nodeName = b.nodeName) : i = j := by
  have hi' : (sys.nodes.map NodeSettings.nodeName)[i]? = some a.nodeName := by rw [List.getElem?_map, hi]; rfl
  have hj' : (sys.nodes.map NodeSettings.nodeName)[j]? = some a.nodeName := by rw [List.getElem?_map, hj, hab]; rfl
  exact (List.getElem?_inj (List.getElem?_eq_some_iff.mp hi').1 h).mp (hi'.trans hj'.symm)

/-! ## Publications built from earlier ones -/

/-- A received message is the one logged at its position, on the given topic. -/
def Known (log : List Publication) (topic : Bytes) (r : Received) : Prop :=
  ∃ q, log[r.publication]? = some q ∧ q.message = r.message ∧ q.topic = topic

theorem Known.mono {log : List Publication} {topic : Bytes} {r : Received} (h : Known log topic r)
    (more : List Publication) : Known (log ++ more) topic r := by
  obtain ⟨q, hq, hm, ht⟩ := h
  exact ⟨q, by rw [List.getElem?_append_left (List.getElem?_eq_some_iff.mp hq).1]; exact hq, hm, ht⟩

/-- The topic behind input number `index` of an output on `channel`: an
intersection's connections are numbered by channel. -/
def inputTopic : NodeSettings → Nat → Nat → Option Bytes
  | .intersection s, channel, _ => s.connections[channel]?.map (·.inputTopic)
  | settings, _, index => settings.inputTopics[index]?

/-- The output each type of node makes of its inputs. -/
def Wired (timestamp : UInt64) : NodeSettings → Output → Prop
  | .sensor s, o => o.inputs = [] ∧ o.channel = 0 ∧ o.topic = s.topicName ∧
      o.source = ⟨s.sourceKind, o.sequence, timestamp⟩ ∧ o.kind = .source s.sourceKind
  | .transform s, o => ∃ r, o.inputs = [(0, r)] ∧ o.channel = 0 ∧ o.topic = s.outputTopic ∧
      o.source = provenanceSource r.message ∧ o.kind = .link false
  | .fusion s, o => ∃ r₀ r₁, o.inputs = [(0, r₀), (1, r₁)] ∧ o.channel = 0 ∧ o.topic = s.outputTopic ∧
      o.source = oldestProvenanceSource [provenanceSource r₀.message, provenanceSource r₁.message] ∧
      o.kind = .link false
  | .cyclic s, o => o.channel = 0 ∧ o.topic = s.outputTopic ∧
      o.source = oldestProvenanceSource (o.inputs.map fun r => provenanceSource r.2.message) ∧ o.kind = .link true
  | .intersection s, o => ∃ r connection, o.inputs = [(0, r)] ∧ s.connections[o.channel]? = some connection ∧
      o.topic = connection.outputTopic ∧ o.source = provenanceSource r.message ∧ o.kind = .link false
  | .command _, _ => False

def KnownInputs (log : List Publication) (settings : NodeSettings) (o : Output) : Prop :=
  ∀ input ∈ o.inputs, ∃ topic, inputTopic settings o.channel input.1 = some topic ∧ Known log topic input.2

/-- `p` is what its node publishes for the output `o`, whose inputs are in `log`. -/
structure BuiltFrom (sys : System) (log : List Publication) (p : Publication) (settings : NodeSettings) (o : Output) :
    Prop where
  node : sys.nodes[p.node]? = some settings
  wired : Wired p.timestamp settings o
  known : KnownInputs log settings o
  eq : ∃ s, p = publication sys s p.node settings.nodeName p.timestamp o

def Built (sys : System) (log : List Publication) (p : Publication) : Prop :=
  ∃ settings o, BuiltFrom sys log p settings o

theorem BuiltFrom.mono {sys : System} {log : List Publication} {p : Publication} {settings : NodeSettings} {o : Output}
    (h : BuiltFrom sys log p settings o) (more : List Publication) : BuiltFrom sys (log ++ more) p settings o := by
  refine ⟨h.node, h.wired, fun input hi => ?_, h.eq⟩
  obtain ⟨topic, ht, hk⟩ := h.known input hi
  exact ⟨topic, ht, hk.mono more⟩

theorem Built.mono {sys : System} {log : List Publication} {p : Publication} (h : Built sys log p)
    (more : List Publication) : Built sys (log ++ more) p := by
  obtain ⟨settings, o, h⟩ := h
  exact ⟨settings, o, h.mono more⟩

/-- Every entry of the log is built from the entries before it. -/
def Log (sys : System) (log : List Publication) : Prop :=
  ∀ k p, log[k]? = some p → Built sys (log.take k) p

theorem Log.built {sys : System} {log : List Publication} (h : Log sys log) {p : Publication} (hp : p ∈ log) :
    Built sys log p := by
  obtain ⟨k, hk⟩ := List.mem_iff_getElem?.mp hp
  rw [← List.take_append_drop k log]
  exact (h k p hk).mono _

/-- What holds of a publication when it holds of its inputs holds of the whole log. -/
theorem Log.induct {sys : System} {log : List Publication} (hlog : Log sys log) {P : Publication → Prop}
    (h : ∀ p settings o, p ∈ log → BuiltFrom sys log p settings o →
      (∀ input ∈ o.inputs, ∀ q, log[input.2.publication]? = some q → P q) → P p) : ∀ p ∈ log, P p := by
  have key : ∀ (k : Nat) (p : Publication), log[k]? = some p → P p := by
    intro k
    induction k using Nat.strongRecOn with
    | ind k ih =>
      intro p hp
      obtain ⟨settings, o, hbuilt⟩ := hlog k p hp
      have hbuilt' := hbuilt.mono (log.drop k)
      rw [List.take_append_drop] at hbuilt'
      refine h p settings o (List.mem_of_getElem? hp) hbuilt' fun input hin q hq => ih _ ?_ q hq
      obtain ⟨_, _, q', hq', _⟩ := hbuilt.known input hin
      exact ((List.getElem?_eq_some_iff.mp hq').1).trans_le (by simp only [List.length_take]; omega)
  intro p hp
  obtain ⟨k, hk⟩ := List.mem_iff_getElem?.mp hp
  exact key k p hk

theorem Log.snoc {sys : System} {log : List Publication} {p : Publication} (h : Log sys log)
    (hp : Built sys log p) : Log sys (log ++ [p]) := by
  intro k q hq
  rcases Nat.lt_trichotomy k log.length with hk | hk | hk
  · rw [List.getElem?_append_left hk] at hq
    rw [List.take_append_of_le_length (Nat.le_of_lt hk)]
    exact h k q hq
  · subst hk
    rw [List.getElem?_append_right (Nat.le_refl _), Nat.sub_self] at hq
    cases hq
    rw [List.take_left]; exact hp
  · rw [List.getElem?_eq_none (by simp; omega)] at hq; cases hq

theorem Log.of_snoc {sys : System} {log : List Publication} {p : Publication} (h : Log sys (log ++ [p])) :
    Log sys log ∧ Built sys log p := by
  constructor
  · intro k q hq
    have hk := (List.getElem?_eq_some_iff.mp hq).1
    have := h k q (by rw [List.getElem?_append_left hk]; exact hq)
    rwa [List.take_append_of_le_length (Nat.le_of_lt hk)] at this
  · have := h log.length p (by rw [List.getElem?_append_right (Nat.le_refl _), Nat.sub_self]; rfl)
    rwa [List.take_left] at this

/-! ## Callbacks -/

def Node.cacheAt : Node → Nat → Option Received
  | .fusion n, 0 => n.subscription0.cache
  | .fusion n, 1 => n.subscription1.cache
  | .cyclic n, j => n.subscriptions[j]?.bind (·.cache)
  | _, _ => none

def Cached (log : List Publication) (node : Node) : Prop :=
  ∀ j r, node.cacheAt j = some r → ∃ topic, node.settings.inputTopics[j]? = some topic ∧ Known log topic r

def KnownEvent (log : List Publication) (settings : NodeSettings) : NodeEvent → Prop
  | .timer => True
  | .message j r => ∃ topic, settings.inputTopics[j]? = some topic ∧ Known log topic r

/-- The paths through the callbacks. -/
inductive Fires (benchmarkMode : Bool) (timestamp : UInt64) : Node → NodeEvent → Node → Effect → Prop
  | sensor (n : Sensor) : Fires benchmarkMode timestamp (.sensor n) .timer
      (.sensor (n.timerCallback timestamp).1) (n.timerCallback timestamp).2
  | transform (n : Transform) (r : Received) : Fires benchmarkMode timestamp (.transform n) (.message 0 r)
      (.transform (n.inputCallback benchmarkMode r).1) (n.inputCallback benchmarkMode r).2
  | fusionCache (n : Fusion) (r : Received) : Fires benchmarkMode timestamp (.fusion n) (.message 1 r)
      (.fusion { n with subscription1 := { n.subscription1 with cache := some r } }) .silent
  | fusionWait (n : Fusion) (r : Received) : n.subscription1.cache = none →
      Fires benchmarkMode timestamp (.fusion n) (.message 0 r)
        (.fusion { n with subscription0 := { n.subscription0 with cache := some r } }) .silent
  | fusionTrigger (n : Fusion) (r c : Received) (a b : Subscription) (o : Output) : n.subscription1.cache = some c →
      a.cache = some r → b.cache = some c → o.inputs = [(0, r), (1, c)] → o.channel = 0 →
      o.topic = n.settings.outputTopic → o.sequence = UInt32.ofNat n.sequenceNumber →
      o.source = oldestProvenanceSource [provenanceSource r.message, provenanceSource c.message] →
      o.kind = .link false →
      Fires benchmarkMode timestamp (.fusion n) (.message 0 r)
        (.fusion { n with subscription0 := a, subscription1 := b, sequenceNumber := n.sequenceNumber + 1 })
        (.publish o)
  | cyclicCache (n : Cyclic) (j : Nat) (r : Received) : j < n.subscriptions.length →
      Fires benchmarkMode timestamp (.cyclic n) (.message j r) (.cyclic (n.inputCallback j r).1) .silent
  | cyclicTimer (n : Cyclic) : Fires benchmarkMode timestamp (.cyclic n) .timer
      (.cyclic (n.timerCallback benchmarkMode).1) (n.timerCallback benchmarkMode).2
  | intersection (n : Intersection) (j : Nat) (r : Received) (connection : Connection)
      (settings : ConnectionSettings) (seqNr : UInt32) (o : Output) : n.connections[j]? = some connection →
      n.settings.connections[j]? = some settings → o.inputs = [(0, r)] → o.channel = j →
      o.topic = settings.outputTopic → o.sequence = UInt32.ofNat connection.sequenceNumber →
      o.source = provenanceSource r.message → o.kind = .link false →
      Fires benchmarkMode timestamp (.intersection n) (.message j r)
        (.intersection { n with connections := n.connections.set j ⟨connection.sequenceNumber + 1, seqNr⟩ })
        (.publish o)
  | command (n : Command) (r : Received) : Fires benchmarkMode timestamp (.command n) (.message 0 r)
      (.command (n.inputCallback benchmarkMode r).1) (n.inputCallback benchmarkMode r).2

theorem fusion_fires {benchmarkMode : Bool} {timestamp : UInt64} (n : Fusion) {j : Nat} (hj : j < 2) (r : Received) :
    Fires benchmarkMode timestamp (.fusion n) (.message j r)
      (.fusion (n.inputCallback benchmarkMode j r).1) (n.inputCallback benchmarkMode j r).2 := by
  match j, hj with
  | 0, _ =>
    cases hc : n.subscription1.cache with
    | none =>
      have : n.inputCallback benchmarkMode 0 r =
          ({ n with subscription0 := { n.subscription0 with cache := some r } }, .silent) := by
        simp [Fusion.inputCallback, hc]
      rw [this]; exact .fusionWait n r hc
    | some c =>
      simp only [Fusion.inputCallback, hc, ne_eq, not_true_eq_false, ite_false]
      exact .fusionTrigger n r c _ _ _ hc rfl rfl rfl rfl rfl rfl rfl rfl
  | 1, _ => exact .fusionCache n r

theorem callback_fires {benchmarkMode : Bool} {timestamp : UInt64} {node node' : Node} {event : NodeEvent}
    {effect : Effect} (h : node.callback benchmarkMode timestamp event = some (node', effect)) :
    Fires benchmarkMode timestamp node event node' effect := by
  unfold Node.callback at h
  split at h
  · cases h; exact .sensor _
  · cases h; exact .transform _ _
  · split at h
    · rename_i n j r hj; cases h; exact fusion_fires n hj r
    · cases h
  · cases h; exact .cyclicTimer _
  · split at h
    · rename_i hj; cases h; exact .cyclicCache _ _ _ hj
    · cases h
  · obtain ⟨result, hr, he⟩ := Option.map_eq_some_iff.mp h
    cases he
    unfold Intersection.inputCallback at hr
    split at hr
    · rename_i connection settings hc hs
      cases hr; exact .intersection _ _ _ connection settings _ _ hc hs rfl rfl rfl rfl rfl rfl
    · cases hr
  · cases h; exact .command _ _
  · cases h

theorem Fires.settings {benchmarkMode : Bool} {timestamp : UInt64} {node node' : Node} {event : NodeEvent}
    {effect : Effect} (h : Fires benchmarkMode timestamp node event node' effect) :
    node'.settings = node.settings := by
  cases h <;> rfl

theorem Cached.mono {log : List Publication} {node : Node} (h : Cached log node) (more : List Publication) :
    Cached (log ++ more) node := by
  intro j r hr
  obtain ⟨topic, ht, hk⟩ := h j r hr
  exact ⟨topic, ht, hk.mono more⟩

theorem drain_cache (benchmarkMode : Bool) (s : Subscription) : (s.drain benchmarkMode).1.cache = none := by
  unfold Subscription.drain
  split
  · assumption
  · rfl

theorem Fires.cached {benchmarkMode : Bool} {timestamp : UInt64} {node node' : Node} {event : NodeEvent}
    {effect : Effect} {log : List Publication} (h : Fires benchmarkMode timestamp node event node' effect)
    (hc : Cached log node) (he : KnownEvent log node.settings event) : Cached log node' := by
  intro j r hr
  cases h with
  | sensor n => cases hr
  | transform n r' => cases hr
  | command n r' => cases hr
  | intersection n j' r' connection settings seqNr o => cases hr
  | fusionCache n r' =>
    match j with
    | 0 => exact hc 0 r hr
    | 1 => cases hr; exact he
    | _ + 2 => cases hr
  | fusionWait n r' _ =>
    match j with
    | 0 => cases hr; exact he
    | 1 => exact hc 1 r hr
    | _ + 2 => cases hr
  | fusionTrigger n r' c a b o hcache ha hb =>
    match j with
    | 0 =>
      have : r' = r := Option.some.inj (ha.symm.trans hr)
      exact this ▸ he
    | 1 =>
      have : c = r := Option.some.inj (hb.symm.trans hr)
      exact hc 1 r (this ▸ hcache)
    | _ + 2 => cases hr
  | cyclicCache n j' r' hj =>
    obtain ⟨sub, hs, hcache⟩ := Option.bind_eq_some_iff.mp hr
    simp only [Cyclic.inputCallback, List.getElem?_modify] at hs
    obtain ⟨old, hold, rfl⟩ := Option.map_eq_some_iff.mp hs
    by_cases hjj : j' = j
    · subst hjj
      simp only [ite_true] at hcache
      cases hcache; exact he
    · simp only [hjj, ite_false] at hcache
      exact hc j r (Option.bind_eq_some_iff.mpr ⟨old, hold, hcache⟩)
  | cyclicTimer n =>
    obtain ⟨sub, hs, hcache⟩ := Option.bind_eq_some_iff.mp hr
    simp only [Cyclic.timerCallback, List.map_map, List.getElem?_map] at hs
    obtain ⟨old, _, rfl⟩ := Option.map_eq_some_iff.mp hs
    rw [Function.comp_apply, drain_cache] at hcache; cases hcache

theorem mem_received {n : Cyclic} {j : Nat} {r : Received} (h : (j, r) ∈ n.received) :
    (Node.cyclic n).cacheAt j = some r := by
  unfold Cyclic.received at h
  obtain ⟨⟨sub, i⟩, hs, hi⟩ := List.mem_filterMap.mp h
  obtain ⟨r', hr', he⟩ := Option.map_eq_some_iff.mp hi
  cases he
  exact Option.bind_eq_some_iff.mpr ⟨sub, List.mem_zipIdx_iff_getElem?.mp hs, hr'⟩

theorem Fires.publish {benchmarkMode : Bool} {timestamp : UInt64} {node node' : Node} {event : NodeEvent}
    {o : Output} {log : List Publication} (h : Fires benchmarkMode timestamp node event node' (.publish o))
    (hc : Cached log node) (he : KnownEvent log node.settings event) :
    Wired timestamp node.settings o ∧ KnownInputs log node.settings o := by
  generalize heff : Effect.publish o = effect at h
  cases h with
  | sensor n =>
    cases heff
    exact ⟨⟨rfl, rfl, rfl, rfl, rfl⟩, fun input hi => absurd hi List.not_mem_nil⟩
  | transform n r =>
    cases heff
    refine ⟨⟨r, rfl, rfl, rfl, rfl, rfl⟩, fun input hi => ?_⟩
    cases List.mem_singleton.mp hi; exact he
  | fusionCache n r => cases heff
  | fusionWait n r _ => cases heff
  | fusionTrigger n r c a b o hcache _ _ hin hch htopic hseq hsrc hkind =>
    cases heff
    refine ⟨⟨r, c, hin, hch, htopic, hsrc, hkind⟩, fun input hi => ?_⟩
    rw [hin] at hi
    rcases List.mem_cons.mp hi with rfl | hi
    · exact he
    · cases List.mem_singleton.mp hi; exact hc 1 c hcache
  | cyclicCache n j r _ => cases heff
  | cyclicTimer n =>
    cases heff
    refine ⟨⟨rfl, rfl, rfl, rfl⟩, fun input hi => ?_⟩
    obtain ⟨topic, ht, hk⟩ := hc input.1 input.2 (mem_received hi)
    exact ⟨topic, ht, hk⟩
  | intersection n j r connection settings seqNr o hconn hset hin hch htopic hseq hsrc hkind =>
    cases heff
    refine ⟨⟨r, settings, hin, by rw [hch]; exact hset, htopic, hsrc, hkind⟩, fun input hi => ?_⟩
    rw [hin] at hi
    cases List.mem_singleton.mp hi
    obtain ⟨topic, ht, hk⟩ := he
    refine ⟨topic, ?_, hk⟩
    rw [hch]
    simp only [Node.settings, NodeSettings.inputTopics, List.getElem?_map] at ht
    exact ht
  | command n r => cases heff

theorem Fires.reads {benchmarkMode : Bool} {timestamp : UInt64} {node node' : Node} {event : NodeEvent}
    {o : Output} (h : Fires benchmarkMode timestamp node event node' (.publish o)) :
    node.readsTimestamp event = true := by
  generalize heff : Effect.publish o = effect at h
  cases h with
  | cyclicCache n j r _ => cases heff
  | command n r => cases heff
  | _ => rfl

/-! ## Pending actions -/

def Action.publication? : Action → Option Publication
  | .publish p => some p
  | .emit _ => none

theorem outputActions_publications (sys : System) (s : State) (i : Nat) (nodeName : Bytes) (timestamp : UInt64)
    (o : Output) : (outputActions sys s i nodeName timestamp o).filterMap Action.publication? =
      [publication sys s i nodeName timestamp o] := by
  unfold outputActions
  cases o.kind <;> cases outputRecord nodeName timestamp o <;> rfl

theorem mem_outputActions_publish {sys : System} {s : State} {i : Nat} {nodeName : Bytes} {timestamp : UInt64}
    {o : Output} {p : Publication} (h : Action.publish p ∈ outputActions sys s i nodeName timestamp o) :
    p = publication sys s i nodeName timestamp o := by
  have hmem := List.mem_filterMap.mpr ⟨_, h, (rfl : (Action.publish p).publication? = some p)⟩
  rw [outputActions_publications] at hmem
  exact List.mem_singleton.mp hmem

def Assembled (s : State) (p : Publication) : Prop :=
  p ∈ s.published ∨ ∃ (i : Nat) (process : Process), s.processes[i]? = some process ∧ .publish p ∈ process.pending

theorem mem_perform_publish {sys : System} {s : State} {i : Nat} {nodeName : Bytes} {timestamp : UInt64}
    {effect : Effect} {p : Publication} (h : Action.publish p ∈ (perform sys s i nodeName timestamp effect).1) :
    ∃ o, effect = .publish o ∧ p = publication sys s i nodeName timestamp o := by
  cases effect with
  | silent => cases h
  | publish o => exact ⟨o, rfl, mem_outputActions_publish h⟩
  | consume sequence input => simp [perform] at h

theorem assembled_start {sys : System} {s s' : State} {i : Nat} {event : Event} {now : UInt64}
    (h : start sys s i event now = some s') {p : Publication} (hp : Assembled s' p) :
    Assembled s p ∨ ∃ process nodeEvent node o, s.processes[i]? = some process ∧
      resolveEvent s process.node.settings event = some nodeEvent ∧
      Fires sys.benchmarkMode now process.node nodeEvent node (.publish o) ∧
      p = publication sys s i process.node.settings.nodeName now o := by
  obtain ⟨process, nodeEvent, node, effect, hproc, _, hev, hcall, rfl⟩ := start_cases h
  have hfires := callback_fires hcall
  rcases hp with hp | ⟨j, q, hq, hmem⟩
  · exact Or.inl (Or.inl hp)
  · rcases getElem?_set_cases hq with ⟨_, rfl⟩ | ⟨_, hq⟩
    · obtain ⟨o, rfl, rfl⟩ := mem_perform_publish hmem
      exact Or.inr ⟨process, nodeEvent, node, o, hproc, hev, hfires, by rw [hfires.settings]⟩
    · exact Or.inl (Or.inr ⟨j, q, hq, hmem⟩)

theorem assembled_act {sys : System} {s s' : State} {i : Nat} {now : UInt64} (h : act sys s i now = some s')
    {p : Publication} (hp : Assembled s' p) : Assembled s p := by
  obtain ⟨node, callback, rest, ⟨p', hproc, rfl⟩ | ⟨e, hproc, rfl⟩⟩ := act_cases h
  · rcases hp with hp | ⟨j, q, hq, hmem⟩
    · rcases List.mem_append.mp hp with hp | hp
      · exact Or.inl hp
      · cases List.mem_singleton.mp hp
        exact Or.inr ⟨i, _, hproc, List.mem_cons_self ..⟩
    · rcases getElem?_set_cases hq with ⟨_, rfl⟩ | ⟨_, hq⟩
      · exact Or.inr ⟨i, _, hproc, List.mem_cons_of_mem _ hmem⟩
      · exact Or.inr ⟨j, q, hq, hmem⟩
  · rcases hp with hp | ⟨j, q, hq, hmem⟩
    · exact Or.inl hp
    · rcases getElem?_set_cases hq with ⟨_, rfl⟩ | ⟨_, hq⟩
      · exact Or.inr ⟨i, _, hproc, List.mem_cons_of_mem _ hmem⟩
      · exact Or.inr ⟨j, q, hq, hmem⟩

/-! ## The invariant of a run -/

structure Inv (sys : System) (s : State) : Prop where
  nodes : s.processes.map (·.node.settings) = sys.nodes
  cached : ∀ (i : Nat) (process : Process), s.processes[i]? = some process → Cached s.published process.node
  pending : ∀ (i : Nat) (process : Process), s.processes[i]? = some process →
    ∀ p, Action.publish p ∈ process.pending → p.node = i ∧ Built sys s.published p
  log : Log sys s.published

theorem Inv.settings {sys : System} {s : State} (h : Inv sys s) {i : Nat} {process : Process}
    (hp : s.processes[i]? = some process) : sys.nodes[i]? = some process.node.settings := by
  rw [← h.nodes, List.getElem?_map, hp]; rfl

theorem map_settings_set {processes : List Process} {i : Nat} {process : Process} (process' : Process)
    (hp : processes[i]? = some process) (h : process'.node.settings = process.node.settings) :
    (processes.set i process').map (·.node.settings) = processes.map (·.node.settings) := by
  refine List.ext_getElem? fun j => ?_
  rw [List.getElem?_map, List.getElem?_map, List.getElem?_set]
  split
  · rename_i hij
    subst hij
    have hlt := (List.getElem?_eq_some_iff.mp hp).1
    rw [if_pos hlt, hp, Option.map_some, Option.map_some, h]
  · rfl

theorem Inv.knownEvent {s : State} {settings : NodeSettings} {event : Event} {nodeEvent : NodeEvent}
    (h : resolveEvent s settings event = some nodeEvent) : KnownEvent s.published settings nodeEvent := by
  cases nodeEvent with
  | timer => exact trivial
  | message j r =>
    obtain ⟨q, hq, hm, ht⟩ := resolveEvent_message h
    exact ⟨q.topic, ht, q, hq, hm, rfl⟩

theorem inv_start {sys : System} {s s' : State} {i : Nat} {event : Event} {now : UInt64} (hi : Inv sys s)
    (h : start sys s i event now = some s') : Inv sys s' := by
  obtain ⟨process, nodeEvent, node, effect, hproc, _, hev, hcall, rfl⟩ := start_cases h
  have hfires := callback_fires hcall
  have hknown := Inv.knownEvent hev
  have hcached := hi.cached i process hproc
  refine ⟨?_, ?_, ?_, hi.log⟩
  · simp only
    rw [map_settings_set _ hproc hfires.settings]; exact hi.nodes
  · intro j q hq
    rcases getElem?_set_cases hq with ⟨_, rfl⟩ | ⟨_, hq⟩
    · exact hfires.cached hcached hknown
    · exact hi.cached j q hq
  · intro j q hq p hp
    rcases getElem?_set_cases hq with ⟨rfl, rfl⟩ | ⟨_, hq⟩
    · obtain ⟨o, rfl, rfl⟩ := mem_perform_publish hp
      obtain ⟨hwired, hinputs⟩ := hfires.publish hcached hknown
      refine ⟨rfl, process.node.settings, o, hi.settings hproc, hwired, hinputs, s, ?_⟩
      rw [hfires.settings]; rfl
    · exact hi.pending j q hq p hp

theorem inv_act {sys : System} {s s' : State} {i : Nat} {now : UInt64} (hi : Inv sys s)
    (h : act sys s i now = some s') : Inv sys s' := by
  obtain ⟨node, callback, rest, ⟨p, hproc, rfl⟩ | ⟨e, hproc, rfl⟩⟩ := act_cases h
  · refine ⟨?_, ?_, ?_, ?_⟩
    · simp only
      rw [map_settings_set ⟨node, callback, rest⟩ hproc rfl]; exact hi.nodes
    · intro j q hq
      rcases getElem?_set_cases hq with ⟨_, rfl⟩ | ⟨_, hq⟩
      · exact (hi.cached i ⟨node, callback, .publish p :: rest⟩ hproc).mono _
      · exact (hi.cached j q hq).mono _
    · intro j q hq p' hp'
      rcases getElem?_set_cases hq with ⟨rfl, rfl⟩ | ⟨_, hq⟩
      · have := hi.pending j _ hproc p' (List.mem_cons_of_mem _ hp')
        exact ⟨this.1, this.2.mono _⟩
      · have := hi.pending j q hq p' hp'
        exact ⟨this.1, this.2.mono _⟩
    · exact hi.log.snoc (hi.pending i _ hproc p (List.mem_cons_self ..)).2
  · refine ⟨?_, ?_, ?_, hi.log⟩
    · simp only
      rw [map_settings_set ⟨node, callback, rest⟩ hproc rfl]; exact hi.nodes
    · intro j q hq
      rcases getElem?_set_cases hq with ⟨_, rfl⟩ | ⟨_, hq⟩
      · exact hi.cached i ⟨node, callback, .emit e :: rest⟩ hproc
      · exact hi.cached j q hq
    · intro j q hq p' hp'
      rcases getElem?_set_cases hq with ⟨rfl, rfl⟩ | ⟨_, hq⟩
      · exact hi.pending j _ hproc p' (List.mem_cons_of_mem _ hp')
      · exact hi.pending j q hq p' hp'

theorem create_settings (settings : NodeSettings) : (Node.create settings).settings = settings := by
  cases settings <;> rfl

theorem create_cacheAt (settings : NodeSettings) (j : Nat) : (Node.create settings).cacheAt j = none := by
  cases settings with
  | fusion s =>
    match j with
    | 0 => rfl
    | 1 => rfl
    | _ + 2 => rfl
  | cyclic s =>
    simp only [Node.create, Node.cacheAt, List.getElem?_map]
    cases s.inputs[j]? <;> rfl
  | _ => rfl

theorem inv_init (sys : System) : Inv sys (initialState sys) := by
  have hproc : ∀ (i : Nat) (process : Process), (initialState sys).processes[i]? = some process →
      ∃ settings, process = { node := .create settings } := by
    intro i process hp
    simp only [initialState, List.getElem?_map] at hp
    obtain ⟨settings, _, rfl⟩ := Option.map_eq_some_iff.mp hp
    exact ⟨settings, rfl⟩
  refine ⟨?_, ?_, ?_, ?_⟩
  · simp only [initialState, List.map_map]
    conv_rhs => rw [← List.map_id sys.nodes]
    exact List.map_congr_left fun settings _ => create_settings settings
  · intro i process hp j r hr
    obtain ⟨settings, rfl⟩ := hproc i process hp
    rw [create_cacheAt] at hr; cases hr
  · intro i process hp p hm
    obtain ⟨settings, rfl⟩ := hproc i process hp
    cases hm
  · intro k p hk; cases hk

theorem inv_step {sys : System} (s : State) (e : Step) (s' : State) (hi : Inv sys s) (h : step sys s e = some s') :
    Inv sys s' := by
  cases e with
  | start i event now => exact inv_start hi h
  | act i now => exact inv_act hi h

/-- **Every run's log is built from itself**, in any interleaving. -/
theorem inv_run {sys : System} {steps : List Step} {s : State} (h : run sys steps = some s) : Inv sys s :=
  run_invariant inv_step steps (inv_init sys) h

/-! ## Records -/

def Emitted (s : State) (e : LogEntry) : Prop :=
  e ∈ s.emitted ∨ ∃ (i : Nat) (process : Process), s.processes[i]? = some process ∧ .emit e ∈ process.pending

/-- An entry's inputs are logged messages from before its callback started, the
record names exactly these, and a sink record copies the source of its input. -/
def KnownEntry (log : List Publication) (e : LogEntry) : Prop :=
  e.before ≤ log.length ∧ ∃ rs : List Received, e.inputs = rs.map (·.publication) ∧
    e.record.inputIdentities = rs.map (fun r => provenanceIdentity r.message) ∧
    (∀ r ∈ rs, r.publication < e.before ∧ ∃ q, log[r.publication]? = some q ∧ q.message = r.message) ∧
    ∀ node sequence timestampNs input origin, e.record = .sink node sequence timestampNs input origin →
      ∃ r, rs = [r] ∧ origin = provenanceSource r.message

theorem KnownEntry.mono {log : List Publication} {e : LogEntry} (h : KnownEntry log e) (more : List Publication) :
    KnownEntry (log ++ more) e := by
  obtain ⟨hb, rs, hin, hid, hrs, hsink⟩ := h
  refine ⟨by simp only [List.length_append]; omega, rs, hin, hid, fun r hr => ?_, hsink⟩
  obtain ⟨hlt, q, hq, hm⟩ := hrs r hr
  exact ⟨hlt, q, by rw [List.getElem?_append_left (List.getElem?_eq_some_iff.mp hq).1]; exact hq, hm⟩

theorem KnownEntry.stamp {log : List Publication} {e : LogEntry} (h : KnownEntry log e) (now : UInt64) :
    KnownEntry log { e with record := e.record.stamp now } := by
  obtain ⟨hb, rs, hin, hid, hrs, hsink⟩ := h
  refine ⟨hb, rs, hin, ?_, hrs, ?_⟩
  · rw [← hid]; cases e.record <;> rfl
  · intro node sequence timestampNs input origin he
    cases hr : e.record with
    | sink node' sequence' t' input' origin' =>
      rw [hr] at he
      cases he
      exact hsink _ _ _ _ _ hr
    | source => rw [hr] at he; cases he
    | link => rw [hr] at he; cases he

theorem Fires.consume {benchmarkMode : Bool} {timestamp : UInt64} {node node' : Node} {event : NodeEvent}
    {sequence : UInt32} {r : Received} (h : Fires benchmarkMode timestamp node event node' (.consume sequence r)) :
    event = .message 0 r ∧ ∃ n : Command, node = .command n ∧ sequence = UInt32.ofNat n.sinkSequenceNumber := by
  generalize heff : Effect.consume sequence r = effect at h
  cases h with
  | command n r' => cases heff; exact ⟨rfl, n, rfl, rfl⟩
  | _ => cases heff

theorem mem_outputActions_emit {sys : System} {s : State} {i : Nat} {nodeName : Bytes} {timestamp : UInt64}
    {o : Output} {e : LogEntry} (h : Action.emit e ∈ outputActions sys s i nodeName timestamp o) :
    ∃ record, outputRecord nodeName timestamp o = some record ∧
      e = ⟨record, i, s.started, o.inputs.map (·.2.publication), s.published.length⟩ := by
  have hemit : Action.emit e ∈ ((outputRecord nodeName timestamp o).map fun record =>
      Action.emit ⟨record, i, s.started, o.inputs.map (·.2.publication), s.published.length⟩).toList := by
    unfold outputActions at h
    split at h
    · rcases List.mem_append.mp h with h | h
      · exact h
      · simp at h
    · rcases List.mem_cons.mp h with h | h
      · cases h
      · exact h
  rw [Option.mem_toList] at hemit
  obtain ⟨record, hr, he⟩ := Option.map_eq_some_iff.mp hemit
  cases he
  exact ⟨record, hr, rfl⟩

theorem outputRecord_inputs {timestamp : UInt64} {settings : NodeSettings} {o : Output} {nodeName : Bytes}
    {record : Record} (hw : Wired timestamp settings o) (h : outputRecord nodeName timestamp o = some record) :
    record.inputIdentities = o.inputs.map (fun input => provenanceIdentity input.2.message) ∧
      ∀ node sequence timestampNs input origin, record ≠ .sink node sequence timestampNs input origin := by
  unfold outputRecord at h
  cases hk : o.kind with
  | source kind =>
    simp only [hk] at h
    split at h
    · cases h
      refine ⟨?_, fun _ _ _ _ _ h => by cases h⟩
      cases settings with
      | sensor s => rw [hw.1]; rfl
      | transform s => obtain ⟨_, _, _, _, _, hk'⟩ := hw; rw [hk] at hk'; cases hk'
      | fusion s => obtain ⟨_, _, _, _, _, _, hk'⟩ := hw; rw [hk] at hk'; cases hk'
      | cyclic s => obtain ⟨_, _, _, hk'⟩ := hw; rw [hk] at hk'; cases hk'
      | intersection s => obtain ⟨_, _, _, _, _, _, hk'⟩ := hw; rw [hk] at hk'; cases hk'
      | command s => exact hw.elim
    · cases h
  | link timer =>
    simp only [hk, Option.some.injEq] at h
    subst h
    refine ⟨?_, fun _ _ _ _ _ h => by cases h⟩
    simp only [Record.inputIdentities, linkInputs, List.map_map, Function.comp_def]

/-- The entries a callback makes: the record of its output, or that of the message it consumed. -/
theorem emitted_from {sys : System} {s s' : State} {i : Nat} {event : Event} {now : UInt64} (hi : Inv sys s)
    (h : start sys s i event now = some s') {e : LogEntry} (he : Emitted s' e) :
    Emitted s e ∨
    (∃ settings o record, Wired now settings o ∧ KnownInputs s.published settings o ∧
      outputRecord settings.nodeName now o = some record ∧
      e = ⟨record, i, s.started, o.inputs.map (·.2.publication), s.published.length⟩) ∨
    ∃ (settings : CommandSettings) (sequence : UInt32) (r : Received), sys.nodes[i]? = some (.command settings) ∧
      Known s.published settings.inputTopic r ∧
      e = ⟨.sink settings.nodeName sequence 0 (provenanceIdentity r.message) (provenanceSource r.message),
        i, s.started, [r.publication], s.published.length⟩ := by
  obtain ⟨process, nodeEvent, node, effect, hproc, _, hev, hcall, rfl⟩ := start_cases h
  have hfires := callback_fires hcall
  have hevent := Inv.knownEvent hev
  rcases he with he | ⟨j, q, hq, hmem⟩
  · exact Or.inl (Or.inl he)
  · rcases getElem?_set_cases hq with ⟨_, rfl⟩ | ⟨_, hq⟩
    · right
      cases effect with
      | silent => cases hmem
      | publish o =>
        left
        obtain ⟨hwired, hknown⟩ := hfires.publish (hi.cached i process hproc) hevent
        obtain ⟨record, hrec, rfl⟩ := mem_outputActions_emit hmem
        exact ⟨process.node.settings, o, record, hwired, hknown, hfires.settings ▸ hrec, rfl⟩
      | consume sequence r =>
        right
        have hsettings := hfires.settings
        obtain ⟨rfl, n, hn, _⟩ := hfires.consume
        have hnode := hi.settings hproc
        rw [hn] at hevent hnode hsettings
        obtain ⟨topic, htopic, hknown⟩ := hevent
        cases Option.some.inj htopic
        cases List.mem_singleton.mp hmem
        rw [hsettings]
        exact ⟨n.settings, sequence, r, hnode, hknown, rfl⟩
    · exact Or.inl (Or.inr ⟨j, q, hq, hmem⟩)

theorem emitted_start {sys : System} {s s' : State} {i : Nat} {event : Event} {now : UInt64} (hi : Inv sys s)
    (h : start sys s i event now = some s') {e : LogEntry} (he : Emitted s' e) :
    Emitted s e ∨ KnownEntry s.published e := by
  rcases emitted_from hi h he with he | ⟨settings, o, record, hwired, hknown, hrec, rfl⟩ |
    ⟨settings, sequence, r, _, ⟨q, hq, hm, _⟩, rfl⟩
  · exact Or.inl he
  · obtain ⟨hid, hsink⟩ := outputRecord_inputs hwired hrec
    refine Or.inr ⟨Nat.le_refl _, o.inputs.map Prod.snd, by simp only [List.map_map]; rfl, ?_, fun r hr => ?_, ?_⟩
    · rw [hid, List.map_map]; rfl
    · obtain ⟨input, hin, rfl⟩ := List.mem_map.mp hr
      obtain ⟨topic, _, q, hq, hm, _⟩ := hknown input hin
      exact ⟨(List.getElem?_eq_some_iff.mp hq).1, q, hq, hm⟩
    · exact fun _ _ _ _ _ h => absurd h (hsink _ _ _ _ _)
  · refine Or.inr ⟨Nat.le_refl _, [r], rfl, rfl, fun r' hr => ?_, fun _ _ _ _ _ h => ?_⟩
    · cases List.mem_singleton.mp hr
      exact ⟨(List.getElem?_eq_some_iff.mp hq).1, q, hq, hm⟩
    · cases h
      exact ⟨r, rfl, rfl⟩

theorem emitted_act {sys : System} {s s' : State} {i : Nat} {now : UInt64} (h : act sys s i now = some s')
    {e : LogEntry} (he : Emitted s' e) :
    Emitted s e ∨ ∃ e', Emitted s e' ∧ e = { e' with record := e'.record.stamp now } := by
  obtain ⟨node, callback, rest, ⟨p', hproc, rfl⟩ | ⟨e', hproc, rfl⟩⟩ := act_cases h
  · rcases he with he | ⟨j, q, hq, hmem⟩
    · exact Or.inl (Or.inl he)
    · rcases getElem?_set_cases hq with ⟨_, rfl⟩ | ⟨_, hq⟩
      · exact Or.inl (Or.inr ⟨i, _, hproc, List.mem_cons_of_mem _ hmem⟩)
      · exact Or.inl (Or.inr ⟨j, q, hq, hmem⟩)
  · rcases he with he | ⟨j, q, hq, hmem⟩
    · rcases List.mem_append.mp he with he | he
      · exact Or.inl (Or.inl he)
      · exact Or.inr ⟨e', Or.inr ⟨i, _, hproc, List.mem_cons_self ..⟩, List.mem_singleton.mp he⟩
    · rcases getElem?_set_cases hq with ⟨_, rfl⟩ | ⟨_, hq⟩
      · exact Or.inl (Or.inr ⟨i, _, hproc, List.mem_cons_of_mem _ hmem⟩)
      · exact Or.inl (Or.inr ⟨j, q, hq, hmem⟩)

theorem published_grows {sys : System} {s s' : State} {e : Step} (h : step sys s e = some s') :
    ∃ more, s'.published = s.published ++ more := by
  cases e with
  | start i event now =>
    obtain ⟨_, _, _, _, _, _, _, _, rfl⟩ := start_cases h
    exact ⟨[], (List.append_nil _).symm⟩
  | act i now =>
    obtain ⟨_, _, _, ⟨p, _, rfl⟩ | ⟨_, _, rfl⟩⟩ := act_cases h
    · exact ⟨[p], rfl⟩
    · exact ⟨[], (List.append_nil _).symm⟩

/-- What holds of an entry when it is made, and does not depend on what is
published later or on the time of the entry, holds of all entries. -/
theorem emitted_run {sys : System} {P : List Publication → LogEntry → Prop}
    (hmono : ∀ log e, P log e → ∀ more, P (log ++ more) e)
    (hstamp : ∀ log e, P log e → ∀ now, P log { e with record := e.record.stamp now })
    (hstart : ∀ s i event now s', Inv sys s → start sys s i event now = some s' → ∀ e, Emitted s' e →
      Emitted s e ∨ P s.published e)
    {steps : List Step} {s : State} (h : run sys steps = some s) : ∀ e, Emitted s e → P s.published e := by
  refine (run_invariant (P := fun s => Inv sys s ∧ ∀ e, Emitted s e → P s.published e) ?_ steps
    ⟨inv_init sys, ?_⟩ h).2
  · rintro s step s' ⟨hi, hall⟩ h
    refine ⟨inv_step s step s' hi h, fun e he => ?_⟩
    obtain ⟨more, hmore⟩ := published_grows h
    rw [hmore]
    cases step with
    | start i event now =>
      rcases hstart s i event now s' hi h e he with he | he
      · exact hmono _ e (hall e he) more
      · exact hmono _ e he more
    | act i now =>
      rcases emitted_act h he with he | ⟨e', he', rfl⟩
      · exact hmono _ e (hall e he) more
      · exact hstamp _ _ (hmono _ e' (hall e' he') more) now
  · intro e he
    rcases he with he | ⟨i, process, hp, he⟩
    · cases he
    · simp only [initialState, List.getElem?_map] at hp
      obtain ⟨settings, _, rfl⟩ := Option.map_eq_some_iff.mp hp
      cases he

theorem records_emitted {sys : System} {steps : List Step} {s : State} (h : run sys steps = some s) :
    ∀ e ∈ s.records, e ∈ s.emitted := by
  refine run_invariant (P := fun s => ∀ e ∈ s.records, e ∈ s.emitted) (fun s step s' hs h => ?_) steps
    (List.forall_mem_nil _) h
  cases step with
  | start i event now =>
    obtain ⟨_, _, _, _, _, _, _, _, rfl⟩ := start_cases h
    exact hs
  | act i now =>
    obtain ⟨_, _, _, ⟨p, _, rfl⟩ | ⟨e', _, rfl⟩⟩ := act_cases h
    · exact hs
    · intro e he
      simp only at he
      split at he
      · rcases List.mem_append.mp he with he | he
        · exact List.mem_append_left _ (hs e he)
        · exact List.mem_append_right _ he
      · exact List.mem_append_left _ (hs e he)

theorem entries_run {sys : System} {steps : List Step} {s : State} (h : run sys steps = some s) :
    ∀ e, Emitted s e → KnownEntry s.published e :=
  emitted_run (fun _ _ he more => he.mono more) (fun _ _ he now => he.stamp now)
    (fun _ _ _ _ _ hi hs _ he => emitted_start hi hs he) h

/-! ## Timestamps -/

def Increasing (s : State) : Prop := s.clock.Pairwise (· < ·)

instance (s : State) : Decidable (Increasing s) := inferInstanceAs (Decidable (s.clock.Pairwise (· < ·)))

/-- An assembled message has a timestamp that was read, later than those of its inputs. -/
def TimedInv (s : State) : Prop :=
  ∀ p, Assembled s p → p.timestamp ∈ s.clock ∧
    ∀ k ∈ p.inputs, ∃ q, s.published[k]? = some q ∧ q.timestamp < p.timestamp

theorem clock_grows {sys : System} {s s' : State} {e : Step} (h : step sys s e = some s') :
    ∃ more, s'.clock = s.clock ++ more := by
  cases e with
  | start i event now =>
    obtain ⟨process, nodeEvent, _, _, _, _, _, _, rfl⟩ := start_cases h
    simp only
    split
    · exact ⟨[now], rfl⟩
    · exact ⟨[], (List.append_nil _).symm⟩
  | act i now =>
    obtain ⟨_, _, _, ⟨p, _, rfl⟩ | ⟨e, _, rfl⟩⟩ := act_cases h
    · exact ⟨[], (List.append_nil _).symm⟩
    · simp only
      split
      · exact ⟨[], (List.append_nil _).symm⟩
      · exact ⟨[now], rfl⟩

theorem increasing_back {sys : System} (s : State) (e : Step) (s' : State) (h : step sys s e = some s')
    (hq : Increasing s') : Increasing s := by
  obtain ⟨more, hmore⟩ := clock_grows h
  rw [Increasing, hmore] at hq
  exact (List.pairwise_append.mp hq).1

theorem timed_grows {s s' : State} {p : Publication} {more : List Publication} {reads : List UInt64}
    (hpub : s'.published = s.published ++ more) (hclock : s'.clock = s.clock ++ reads)
    (h : p.timestamp ∈ s.clock ∧ ∀ k ∈ p.inputs, ∃ q, s.published[k]? = some q ∧ q.timestamp < p.timestamp) :
    p.timestamp ∈ s'.clock ∧ ∀ k ∈ p.inputs, ∃ q, s'.published[k]? = some q ∧ q.timestamp < p.timestamp := by
  refine ⟨by rw [hclock]; exact List.mem_append_left _ h.1, fun k hk => ?_⟩
  obtain ⟨q, hq, hlt⟩ := h.2 k hk
  exact ⟨q, by rw [hpub, List.getElem?_append_left (List.getElem?_eq_some_iff.mp hq).1]; exact hq, hlt⟩

theorem timed_step {sys : System} {s s' : State} {e : Step} (hi : Inv sys s) (ht : TimedInv s)
    (h : step sys s e = some s') (hq : Increasing s') : TimedInv s' := by
  intro p hp
  obtain ⟨more, hmore⟩ := published_grows h
  obtain ⟨reads, hreads⟩ := clock_grows h
  cases e with
  | act i now => exact timed_grows hmore hreads (ht p (assembled_act h hp))
  | start i event now =>
    rcases assembled_start h hp with hp | ⟨process, nodeEvent, node, o, hproc, hev, hfires, rfl⟩
    · exact timed_grows hmore hreads (ht p hp)
    · -- the new timestamp is read after those of everything published
      have hclock : s'.clock = s.clock ++ [now] ∧ s'.published = s.published := by
        obtain ⟨process', nodeEvent', _, _, hproc', _, hev', _, rfl⟩ := start_cases h
        cases hproc.symm.trans hproc'
        cases hev.symm.trans hev'
        exact ⟨if_pos hfires.reads, rfl⟩
      rw [Increasing, hclock.1] at hq
      refine ⟨by rw [hclock.1]; exact List.mem_append_right _ (List.mem_singleton_self _), fun k hk => ?_⟩
      obtain ⟨input, hin, rfl⟩ := List.mem_map.mp hk
      obtain ⟨_, _, q, hk, _⟩ := (hfires.publish (hi.cached i process hproc) (Inv.knownEvent hev)).2 input hin
      refine ⟨q, by rw [hclock.2]; exact hk, ?_⟩
      exact (List.pairwise_append.mp hq).2.2 _ (ht q (Or.inl (List.mem_of_getElem? hk))).1 _
        (List.mem_singleton_self _)

theorem timed_run {sys : System} {steps : List Step} {s : State} (h : run sys steps = some s) (hq : Increasing s) :
    ∀ p ∈ s.published, ∀ k ∈ p.inputs, ∃ q, s.published[k]? = some q ∧ q.timestamp < p.timestamp := by
  have hinit : TimedInv (initialState sys) := by
    rintro p (hp | ⟨i, process, hproc, hp⟩)
    · cases hp
    · simp only [initialState, List.getElem?_map] at hproc
      obtain ⟨settings, _, rfl⟩ := Option.map_eq_some_iff.mp hproc
      cases hp
  have := run_invariant_under (P := fun s => Inv sys s ∧ TimedInv s) (Q := Increasing) increasing_back
    (fun s e s' hq hs h => ⟨inv_step s e s' hs.1 h, timed_step hs.1 hs.2 h hq⟩) steps ⟨inv_init sys, hinit⟩ h hq
  exact fun p hp => (this.1.2 p (Or.inl hp)).2

end ReferenceSystem
