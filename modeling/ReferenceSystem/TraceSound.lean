import Mathlib.Algebra.Group.Nat.Defs
import ReferenceSystem.SystemSound
import Mathlib.Data.List.Range
import Mathlib.Data.List.Count
import Mathlib.Data.List.Infix

/-!
# Integrity of the provenance trace

Callbacks of one node do not overlap, so a node's records and its messages are
two readings of one sequence: with what a running callback still has to do
appended, they list the same callbacks, identities and sources in the same
order (`Traced.described`), and the sequence numbers of a channel are 0, 1, 2,
and so on. Both facts hold in every interleaving; while no counter wraps,
identities are therefore unique and records join across nodes.
-/

namespace ReferenceSystem

/-! ## Unique keys from unique keys per class -/

theorem nodup_filterMap_of_classes {α β γ : Type} [DecidableEq γ] {f : α → Option β} {g : α → γ} : ∀ {l : List α},
    (∀ x ∈ l, ∀ y ∈ l, ∀ b, f x = some b → f y = some b → g x = g y) →
    (∀ c, ((l.filter (g · = c)).filterMap f).Nodup) → (l.filterMap f).Nodup
  | [], _, _ => List.nodup_nil
  | x :: l, hg, h => by
    have hrest : (l.filterMap f).Nodup := by
      refine nodup_filterMap_of_classes
        (fun y hy z hz => hg y (List.mem_cons_of_mem _ hy) z (List.mem_cons_of_mem _ hz)) fun c => ?_
      refine (h c).sublist (List.Sublist.filterMap f ?_)
      exact List.Sublist.filter _ (List.sublist_cons_self x l)
    rw [List.filterMap_cons]
    cases hx : f x with
    | none => exact hrest
    | some b =>
      refine List.nodup_cons.mpr ⟨fun hmem => ?_, hrest⟩
      obtain ⟨y, hy, hyb⟩ := List.mem_filterMap.mp hmem
      have hxy := hg x (List.mem_cons_self ..) y (List.mem_cons_of_mem _ hy) b hx hyb
      have hclass := h (g x)
      rw [List.filter_cons_of_pos (by simp), List.filterMap_cons, hx] at hclass
      refine (List.nodup_cons.mp hclass).1 (List.mem_filterMap.mpr ⟨y, ?_, hyb⟩)
      exact List.mem_filter.mpr ⟨hy, by simpa using hxy.symm⟩

theorem nodup_ofNat_range {n : Nat} (h : n ≤ 2 ^ 32) : ((List.range n).map UInt32.ofNat).Nodup := by
  refine List.Nodup.map_on (fun a ha b hb hab => ?_) List.nodup_range
  have ha' : a < 2 ^ 32 := (List.mem_range.mp ha).trans_le h
  have hb' : b < 2 ^ 32 := (List.mem_range.mp hb).trans_le h
  have := congrArg UInt32.toNat hab
  rwa [UInt32.toNat_ofNat_of_lt' ha', UInt32.toNat_ofNat_of_lt' hb'] at this

/-! ## Counters -/

namespace Node

def outputCount : Node → Nat → Nat
  | sensor n, 0 => n.sequenceNumber
  | transform n, 0 => n.sequenceNumber
  | fusion n, 0 => n.sequenceNumber
  | cyclic n, 0 => n.sequenceNumber
  | intersection n, c => (n.connections[c]?.map (·.sequenceNumber)).getD 0
  | _, _ => 0

def sinkCount : Node → Nat
  | command n => n.sinkSequenceNumber
  | _ => 0

/-- All that a node counts up, by number of increments; the connections of an
intersection are numbered as they are added. -/
def counters : Node → List Nat
  | sensor n => [n.sequenceNumber]
  | transform n => [n.sequenceNumber]
  | fusion n => [n.sequenceNumber]
  | cyclic n => [n.sequenceNumber]
  | intersection n => n.settings.connections.length :: n.connections.map (·.sequenceNumber)
  | command n => [n.sinkSequenceNumber]

theorem outputCount_le {n : Node} {bound : Nat} (h : ∀ c ∈ n.counters, c ≤ bound) (channel : Nat) :
    n.outputCount channel ≤ bound := by
  cases n with
  | intersection n =>
    simp only [outputCount]
    cases hc : n.connections[channel]? with
    | none => exact Nat.zero_le _
    | some connection =>
      exact h _ (List.mem_cons_of_mem _ (List.mem_map_of_mem (List.mem_of_getElem? hc)))
  | command n => exact Nat.zero_le _
  | _ n =>
    cases channel with
    | zero => exact h _ (List.mem_singleton_self _)
    | succ channel => exact Nat.zero_le _

theorem sinkCount_le {n : Node} {bound : Nat} (h : ∀ c ∈ n.counters, c ≤ bound) : n.sinkCount ≤ bound := by
  cases n with
  | command n => exact h _ (List.mem_singleton_self _)
  | _ => exact Nat.zero_le _

end Node

/-- No counter has performed more than 2^32 increments. -/
def NoWrap (s : State) : Prop := ∀ process ∈ s.processes, ∀ c ∈ process.node.counters, c ≤ 2 ^ 32

instance (s : State) : Decidable (NoWrap s) :=
  inferInstanceAs (Decidable (∀ process ∈ s.processes, ∀ c ∈ process.node.counters, c ≤ 2 ^ 32))

def Effect.outputs : Effect → List Nat
  | .publish o => [o.channel]
  | _ => []

theorem Fires.outputCount {benchmarkMode : Bool} {timestamp : UInt64} {node node' : Node} {event : NodeEvent}
    {effect : Effect} (h : Fires benchmarkMode timestamp node event node' effect) (c : Nat) :
    node'.outputCount c = node.outputCount c + effect.outputs.count c := by
  cases h with
  | fusionCache n r => cases c <;> rfl
  | fusionWait n r _ => cases c <;> rfl
  | cyclicCache n j r _ => cases c <;> rfl
  | command n r => rfl
  | intersection n j r connection settings seqNr o hconn hset hin hch =>
    simp only [Node.outputCount, Effect.outputs, hch, List.count_singleton, List.getElem?_set, beq_iff_eq]
    by_cases hjc : j = c
    · subst hjc
      obtain ⟨hlt, hget⟩ := List.getElem?_eq_some_iff.mp hconn
      simp [hlt, hget]
    · simp [hjc]
  | fusionTrigger n r c' a b o hcache ha hb hin hch =>
    cases c <;> simp [Node.outputCount, Effect.outputs, hch]
  | _ n =>
    cases c <;> simp [Node.outputCount, Effect.outputs, Sensor.timerCallback, Transform.inputCallback,
      Cyclic.timerCallback]

theorem Fires.sequence {benchmarkMode : Bool} {timestamp : UInt64} {node node' : Node} {event : NodeEvent}
    {o : Output} (h : Fires benchmarkMode timestamp node event node' (.publish o)) :
    o.sequence = UInt32.ofNat (node.outputCount o.channel) := by
  generalize heff : Effect.publish o = effect at h
  cases h with
  | sensor n => cases heff; rfl
  | transform n r => cases heff; rfl
  | cyclicTimer n => cases heff; rfl
  | fusionTrigger n r c a b o hcache ha hb hin hch htopic hseq =>
    cases heff; rw [hseq, hch]; rfl
  | intersection n j r connection settings seqNr o hconn hset hin hch htopic hseq =>
    cases heff; simp only [hseq, hch, Node.outputCount, hconn, Option.map_some, Option.getD_some]
  | _ => cases heff

theorem Fires.sinkCount {benchmarkMode : Bool} {timestamp : UInt64} {node node' : Node} {event : NodeEvent}
    {effect : Effect} (h : Fires benchmarkMode timestamp node event node' effect) :
    node'.sinkCount = node.sinkCount + (match effect with | .consume .. => 1 | _ => 0) := by
  cases h <;> rfl

/-! ## Two readings of one sequence -/

/-- The identity a source or link record describes, with its source. -/
def Record.description : Record → Option (ProvenanceMessage × ProvenanceSource)
  | .source node sequence kind timestampNs => some (⟨node, sequence, 0⟩, ⟨kind, sequence, timestampNs⟩)
  | .link node sequence channel _ _ origin _ => some (⟨node, sequence, channel⟩, origin)
  | .sink .. => none

theorem Record.describes_eq (r : Record) : r.describes = r.description.map Prod.fst := by
  cases r <;> rfl

def LogEntry.trace (e : LogEntry) : Option (Nat × ProvenanceMessage × ProvenanceSource) :=
  e.record.description.map (e.callback, ·)

def Publication.trace (p : Publication) : Nat × ProvenanceMessage × ProvenanceSource :=
  (p.callback, provenanceIdentity p.message, provenanceSource p.message)

def Action.entry? : Action → Option LogEntry
  | .publish _ => none
  | .emit e => some e

def outputs (s : State) (i : Nat) (process : Process) : List Publication :=
  s.published.filter (·.node = i) ++ process.pending.filterMap Action.publication?

def entries (s : State) (i : Nat) (process : Process) : List LogEntry :=
  s.records.filter (·.node = i) ++ process.pending.filterMap Action.entry?

/-- A sensor records before it publishes, every other node afterwards. -/
def InOrder (settings : NodeSettings) (pending : List Action) : Prop :=
  (∃ a, settings = .sensor a ∧ ∀ e, .emit e ∈ pending → e.record.isSource = true) ∨
  ((∀ a, settings ≠ .sensor a) ∧ (pending = [] ∨ (∃ e, pending = [.emit e]) ∨
    ∃ p e, pending = [.publish p, .emit e] ∧ e.trace ≠ none))

structure Traced (s : State) (i : Nat) (process : Process) : Prop where
  sequences : ∀ c, ((outputs s i process).filter (·.channel = c)).map (·.sequence) =
    (List.range (process.node.outputCount c)).map UInt32.ofNat
  described : (entries s i process).filterMap LogEntry.trace = (outputs s i process).map Publication.trace
  sinks : (entries s i process).filterMap (·.record.sinkKey) =
    (List.range process.node.sinkCount).map fun n => (process.node.settings.nodeName, UInt32.ofNat n)
  own : ∀ e, .emit e ∈ process.pending → e.node = i ∧ e.callback = process.callback
  inOrder : InOrder process.node.settings process.pending

def OwnedBy (processes : List Process) (e : LogEntry) : Prop :=
  ∃ process, processes[e.node]? = some process ∧ ∀ a, process.node.settings = .sensor a → e.record.isSource = true

/-- The invariant of the trace, over all nodes. -/
structure TraceInv (s : State) : Prop where
  traced : ∀ (i : Nat) (process : Process), s.processes[i]? = some process → Traced s i process
  owned : ∀ e ∈ s.records, OwnedBy s.processes e

/-! ## Starting a callback -/

theorem Record.stamp_description (r : Record) (now : UInt64) : (r.stamp now).description = r.description := by
  cases r <;> rfl

theorem Record.stamp_sinkKey (r : Record) (now : UInt64) : (r.stamp now).sinkKey = r.sinkKey := by
  cases r <;> rfl

theorem Record.stamp_isSource (r : Record) (now : UInt64) : (r.stamp now).isSource = r.isSource := by
  cases r <;> rfl

theorem outputActions_entries (sys : System) (s : State) (i : Nat) (nodeName : Bytes) (timestamp : UInt64)
    (o : Output) : (outputActions sys s i nodeName timestamp o).filterMap Action.entry? =
      (outputRecord nodeName timestamp o).toList.map fun record =>
        ⟨record, i, s.started, o.inputs.map (·.2.publication), s.published.length⟩ := by
  unfold outputActions
  cases o.kind <;> cases outputRecord nodeName timestamp o <;> rfl

structure Describes (settings : NodeSettings) (p : Publication) (record : Record) : Prop where
  description : record.description = some (provenanceIdentity p.message, provenanceSource p.message)
  noSink : record.sinkKey = none
  isSource : record.isSource = true ↔ ∃ a, settings = .sensor a

theorem outputRecord_describes {timestamp : UInt64} {settings : NodeSettings} {o : Output}
    (hw : Wired timestamp settings o) (hkind : ∀ a, settings = .sensor a → a.sourceKind ≠ 0) (sys : System)
    (s : State) (i : Nat) (nodeName : Bytes) :
    ∃ record, outputRecord nodeName timestamp o = some record ∧
      Describes settings (publication sys s i nodeName timestamp o) record := by
  have hlink : ∀ timer, o.kind = .link timer → (∀ a, settings ≠ .sensor a) →
      ∃ record, outputRecord nodeName timestamp o = some record ∧
        Describes settings (publication sys s i nodeName timestamp o) record := fun timer hk hs =>
    ⟨.link nodeName o.sequence (UInt32.ofNat o.channel) 0 (linkInputs o.inputs) o.source timer,
      by simp only [outputRecord, hk], rfl, rfl, ⟨fun h => (by cases h), fun ⟨a, ha⟩ => absurd ha (hs a)⟩⟩
  cases settings with
  | sensor a =>
    obtain ⟨_, hch, _, hsource, hk⟩ := hw
    refine ⟨.source nodeName o.sequence a.sourceKind timestamp, ?_, ?_, rfl, ⟨fun _ => ⟨a, rfl⟩, fun _ => rfl⟩⟩
    · simp only [outputRecord, hk, if_pos (hkind a rfl)]
    · show some _ = some (ProvenanceMessage.mk nodeName o.sequence (UInt32.ofNat o.channel), o.source)
      rw [hch, hsource]; rfl
  | transform a => obtain ⟨_, _, _, _, _, hk⟩ := hw; exact hlink _ hk (fun _ h => by cases h)
  | fusion a => obtain ⟨_, _, _, _, _, _, hk⟩ := hw; exact hlink _ hk (fun _ h => by cases h)
  | cyclic a => obtain ⟨_, _, _, hk⟩ := hw; exact hlink _ hk (fun _ h => by cases h)
  | intersection a => obtain ⟨_, _, _, _, _, _, hk⟩ := hw; exact hlink _ hk (fun _ h => by cases h)
  | command a => exact hw.elim

theorem inOrder_output {timestamp : UInt64} {settings : NodeSettings} {o : Output} (hw : Wired timestamp settings o)
    (hkind : ∀ a, settings = .sensor a → a.sourceKind ≠ 0) (sys : System) (s : State) (i : Nat) (nodeName : Bytes) :
    InOrder settings (outputActions sys s i nodeName timestamp o) := by
  obtain ⟨record, hrec, hdesc⟩ := outputRecord_describes hw hkind sys s i nodeName
  by_cases hsensor : ∃ a, settings = .sensor a
  · left
    obtain ⟨a, rfl⟩ := hsensor
    refine ⟨a, rfl, fun e he => ?_⟩
    obtain ⟨record', hrec', rfl⟩ := mem_outputActions_emit he
    cases hrec.symm.trans hrec'
    exact hdesc.isSource.mpr ⟨a, rfl⟩
  · right
    refine ⟨fun a ha => hsensor ⟨a, ha⟩, Or.inr (Or.inr ?_)⟩
    have hk : ∃ timer, o.kind = .link timer := by
      cases settings with
      | sensor a => exact absurd ⟨a, rfl⟩ hsensor
      | transform a => obtain ⟨_, _, _, _, _, hk⟩ := hw; exact ⟨_, hk⟩
      | fusion a => obtain ⟨_, _, _, _, _, _, hk⟩ := hw; exact ⟨_, hk⟩
      | cyclic a => obtain ⟨_, _, _, hk⟩ := hw; exact ⟨_, hk⟩
      | intersection a => obtain ⟨_, _, _, _, _, _, hk⟩ := hw; exact ⟨_, hk⟩
      | command a => exact hw.elim
    obtain ⟨timer, hk⟩ := hk
    refine ⟨_, _, by simp only [outputActions, hk, hrec]; rfl, ?_⟩
    simp [LogEntry.trace, hdesc.description]

section
variable {sys : System} {s : State} {i : Nat} {process : Process} {event : NodeEvent} {now : UInt64} {node : Node}
  {effect : Effect}

theorem Traced.start (h : Traced s i process) (hidle : process.pending = []) (hcached : Cached s.published process.node)
    (hevent : KnownEvent s.published process.node.settings event)
    (hkind : ∀ a, process.node.settings = .sensor a → a.sourceKind ≠ 0)
    (hfires : Fires sys.benchmarkMode now process.node event node effect) (s' : State)
    (hpub : s'.published = s.published) (hrecs : s'.records = s.records) :
    Traced s' i ⟨node, s.started, (perform sys s i node.settings.nodeName now effect).1⟩ := by
  obtain ⟨hseq, hdesc, hsinks, _, _⟩ := h
  simp only [outputs, entries, hidle, List.filterMap_nil, List.append_nil] at hseq hdesc hsinks
  have hset := hfires.settings
  have hcount := hfires.outputCount
  have hsink := hfires.sinkCount
  cases effect with
  | silent =>
    simp only [Effect.outputs, List.count_nil, Nat.add_zero] at hcount
    simp only [Nat.add_zero] at hsink
    refine ⟨fun c => ?_, ?_, ?_, fun e he => (by cases he), ?_⟩
    · simp only [outputs, hpub, perform, List.filterMap_nil, List.append_nil, hcount]; exact hseq c
    · simp only [outputs, entries, hpub, hrecs, perform, List.filterMap_nil, List.append_nil]; exact hdesc
    · simp only [entries, hrecs, perform, List.filterMap_nil, List.append_nil, hsink, hset]; exact hsinks
    · by_cases hsensor : ∃ a, node.settings = .sensor a
      · obtain ⟨a, ha⟩ := hsensor
        exact Or.inl ⟨a, ha, fun e he => (by cases he)⟩
      · exact Or.inr ⟨fun a ha => hsensor ⟨a, ha⟩, Or.inl rfl⟩
  | consume sequence r =>
    obtain ⟨_, n, hn, hsq⟩ := hfires.consume
    simp only [Effect.outputs, List.count_nil, Nat.add_zero] at hcount
    refine ⟨fun c => ?_, ?_, ?_, fun e he => ?_, ?_⟩
    · simp only [outputs, hpub, perform, List.filterMap_cons, List.filterMap_nil, Action.publication?, List.append_nil,
        hcount]
      exact hseq c
    · simp only [outputs, entries, hpub, hrecs, perform, List.filterMap_append, List.filterMap_cons, List.filterMap_nil,
        Action.publication?, Action.entry?, List.append_nil, hdesc]
      exact List.append_nil _
    · simp only [entries, hrecs, perform, List.filterMap_append, List.filterMap_cons, List.filterMap_nil,
        Action.entry?, hsinks, hsink, List.range_succ, List.map_append, hset]
      rw [hsq, hn]; rfl
    · cases List.mem_singleton.mp he; exact ⟨rfl, rfl⟩
    · refine Or.inr ⟨fun a ha => ?_, Or.inr (Or.inl ⟨_, rfl⟩)⟩
      rw [hset, hn] at ha; cases ha
  | publish o =>
    obtain ⟨hwired, _⟩ := hfires.publish hcached hevent
    obtain ⟨record, hrec, hdes⟩ := outputRecord_describes hwired hkind sys s i node.settings.nodeName
    have hentries := outputActions_entries sys s i node.settings.nodeName now o
    rw [hrec] at hentries
    have hpubs := outputActions_publications sys s i node.settings.nodeName now o
    simp only [Nat.add_zero] at hsink
    refine ⟨fun c => ?_, ?_, ?_, fun e he => ?_, ?_⟩
    · simp only [outputs, hpub, perform, hpubs, List.filter_append, List.map_append, hseq, hcount, Effect.outputs]
      by_cases hc : o.channel = c
      · subst hc
        simp [publication, hfires.sequence, List.range_succ]
      · simp [publication, hc]
    · simp only [outputs, entries, hpub, hrecs, perform, hpubs, hentries, List.filterMap_append, List.map_append, hdesc]
      simp [LogEntry.trace, hdes.description, Publication.trace, publication]
    · simp only [entries, hrecs, perform, hentries, List.filterMap_append, hsinks, hsink]
      simp [hdes.noSink, hset]
    · obtain ⟨_, _, rfl⟩ := mem_outputActions_emit he; exact ⟨rfl, rfl⟩
    · rw [hset]; exact inOrder_output hwired hkind sys s i _

end

/-! ## The invariant of the trace -/

theorem filter_snoc_eq {α : Type} {l : List α} {a : α} {f : α → Nat} {i : Nat} (h : f a = i) :
    (l ++ [a]).filter (f · = i) = l.filter (f · = i) ++ [a] := by
  rw [List.filter_append, List.filter_cons_of_pos (by simpa using h), List.filter_nil]

theorem filter_snoc_ne {α : Type} {l : List α} {a : α} {f : α → Nat} {i : Nat} (h : f a ≠ i) :
    (l ++ [a]).filter (f · = i) = l.filter (f · = i) := by
  rw [List.filter_append, List.filter_cons_of_neg (by simpa using h), List.filter_nil, List.append_nil]

theorem InOrder.tail {settings : NodeSettings} {a : Action} {rest : List Action} (h : InOrder settings (a :: rest)) :
    InOrder settings rest := by
  rcases h with ⟨b, hb, hall⟩ | ⟨hs, h | ⟨e, h⟩ | ⟨p, e, h, _⟩⟩
  · exact Or.inl ⟨b, hb, fun e he => hall e (List.mem_cons_of_mem _ he)⟩
  · cases h
  · cases h; exact Or.inr ⟨hs, Or.inl rfl⟩
  · cases h; exact Or.inr ⟨hs, Or.inr (Or.inl ⟨e, rfl⟩)⟩

theorem Traced.congr {s s' : State} {i : Nat} {process process' : Process} (h : Traced s i process)
    (hnode : process'.node = process.node) (hcb : process'.callback = process.callback)
    (hsub : ∀ e, .emit e ∈ process'.pending → .emit e ∈ process.pending)
    (horder : InOrder process.node.settings process'.pending) (hout : outputs s' i process' = outputs s i process)
    (htrace : (entries s' i process').filterMap LogEntry.trace = (entries s i process).filterMap LogEntry.trace)
    (hsink : (entries s' i process').filterMap (·.record.sinkKey) =
      (entries s i process).filterMap (·.record.sinkKey)) : Traced s' i process' := by
  refine ⟨fun c => ?_, ?_, ?_, fun e he => ?_, ?_⟩
  · rw [hout, hnode]; exact h.sequences c
  · rw [htrace, hout]; exact h.described
  · rw [hsink, hnode]; exact h.sinks
  · rw [hcb]; exact h.own e (hsub e he)
  · rw [hnode]; exact horder

theorem entries_emit {β : Type} {f : LogEntry → Option β} {s s' : State} {i callback : Nat} {node : Node}
    {rest : List Action} {e e' : LogEntry} (hrec : s'.records = s.records ++ [e']) (hown : e'.node = i)
    (hf : f e' = f e) : (entries s' i ⟨node, callback, rest⟩).filterMap f =
      (entries s i ⟨node, callback, .emit e :: rest⟩).filterMap f := by
  simp only [entries, hrec, filter_snoc_eq hown, List.filterMap_cons, Action.entry?, List.filterMap_append,
    List.filterMap_nil, hf, List.append_assoc]
  cases f e <;> rfl

theorem entries_other {s s' : State} {j : Nat} {process : Process} (e' : LogEntry)
    (hrec : s'.records = s.records ++ [e']) (hne : e'.node ≠ j) : entries s' j process = entries s j process := by
  simp only [entries, hrec, filter_snoc_ne hne]

theorem OwnedBy.set {processes : List Process} {i : Nat} {process : Process} {e : LogEntry}
    (h : OwnedBy processes e) (hproc : processes[i]? = some process) (process' : Process)
    (hset : process'.node.settings = process.node.settings) : OwnedBy (processes.set i process') e := by
  obtain ⟨q, hq, hsrc⟩ := h
  by_cases hei : e.node = i
  · rw [hei] at hq
    cases hproc.symm.trans hq
    have hlt := (List.getElem?_eq_some_iff.mp hproc).1
    exact ⟨process', by simp only [hei, List.getElem?_set, hlt, ite_true], fun a ha => hsrc a (hset ▸ ha)⟩
  · exact ⟨q, by simp only [List.getElem?_set, Ne.symm hei, ite_false]; exact hq, hsrc⟩

theorem traceInv_start {sys : System} {s s' : State} {i : Nat} {event : Event} {now : UInt64}
    (hkinds : ∀ a, .sensor a ∈ sys.nodes → a.sourceKind ≠ 0) (hi : Inv sys s) (ht : TraceInv s)
    (h : start sys s i event now = some s') : TraceInv s' := by
  obtain ⟨process, nodeEvent, node, effect, hproc, hidle, hev, hcall, rfl⟩ := start_cases h
  have hfires := callback_fires hcall
  have hkind : ∀ a, process.node.settings = .sensor a → a.sourceKind ≠ 0 := fun a ha =>
    hkinds a (ha ▸ List.mem_of_getElem? (hi.settings hproc))
  constructor
  · intro j q hq
    rcases getElem?_set_cases hq with ⟨rfl, rfl⟩ | ⟨_, hq⟩
    · exact (ht.traced j process hproc).start hidle (hi.cached j process hproc) (Inv.knownEvent hev) hkind hfires _
        rfl rfl
    · exact (ht.traced j q hq).congr rfl rfl (fun _ h => h) (ht.traced j q hq).inOrder rfl rfl rfl
  · exact fun e he => (ht.owned e he).set hproc _ hfires.settings

theorem traceInv_act {sys : System} {s s' : State} {i : Nat} {now : UInt64} (hout : sys.structuredOutput = true)
    (hi : Inv sys s) (ht : TraceInv s) (h : act sys s i now = some s') : TraceInv s' := by
  obtain ⟨node, callback, rest, ⟨p, hproc, rfl⟩ | ⟨e, hproc, rfl⟩⟩ := act_cases h
  · have hown : p.node = i := (hi.pending i _ hproc p (List.mem_cons_self ..)).1
    have htraced := ht.traced i _ hproc
    have hlt := (List.getElem?_eq_some_iff.mp hproc).1
    constructor
    · intro j q hq
      rcases getElem?_set_cases hq with ⟨rfl, rfl⟩ | ⟨hji, hq⟩
      · refine htraced.congr rfl rfl (fun _ he => List.mem_cons_of_mem _ he) htraced.inOrder.tail ?_ rfl rfl
        simp only [outputs, filter_snoc_eq hown, List.filterMap_cons, Action.publication?, List.append_assoc,
          List.singleton_append]
      · have hj := ht.traced j q hq
        refine hj.congr rfl rfl (fun _ he => he) hj.inOrder ?_ rfl rfl
        simp only [outputs, filter_snoc_ne (f := Publication.node) (fun e => hji (e.symm.trans hown))]
    · exact fun e he => (ht.owned e he).set hproc _ rfl
  · have htraced := ht.traced i _ hproc
    have hown : e.node = i := (htraced.own e (List.mem_cons_self ..)).1
    have hlt := (List.getElem?_eq_some_iff.mp hproc).1
    constructor
    · intro j q hq
      simp only [hout, ite_true] at hq ⊢
      rcases getElem?_set_cases hq with ⟨rfl, rfl⟩ | ⟨hji, hq⟩
      · refine htraced.congr rfl rfl (fun _ he => List.mem_cons_of_mem _ he) htraced.inOrder.tail rfl ?_ ?_
        · refine entries_emit rfl hown ?_
          simp only [LogEntry.trace, Record.stamp_description]
        · exact entries_emit rfl hown (Record.stamp_sinkKey _ _)
      · have hj := ht.traced j q hq
        have hne : e.node ≠ j := fun he => hji (he.symm.trans hown)
        refine hj.congr rfl rfl (fun _ he => he) hj.inOrder rfl ?_ ?_
        · rw [entries_other { e with record := e.record.stamp now } (s := s) rfl hne]
        · rw [entries_other { e with record := e.record.stamp now } (s := s) rfl hne]
    · intro e' he'
      simp only [hout, ite_true] at he'
      rcases List.mem_append.mp he' with he' | he'
      · exact (ht.owned e' he').set hproc _ rfl
      · cases List.mem_singleton.mp he'
        refine ⟨⟨node, callback, rest⟩, by simp only [hown, List.getElem?_set, hlt, ite_true], fun a ha => ?_⟩
        rw [Record.stamp_isSource]
        rcases htraced.inOrder with ⟨_, _, hall⟩ | ⟨hs, _⟩
        · exact hall e (List.mem_cons_self ..)
        · exact absurd ha (hs a)

theorem traceInv_init (sys : System) : TraceInv (initialState sys) := by
  constructor
  · intro i process hp
    simp only [initialState, List.getElem?_map] at hp
    obtain ⟨settings, _, rfl⟩ := Option.map_eq_some_iff.mp hp
    have hcount : ∀ c, (Node.create settings).outputCount c = 0 := by
      intro c
      cases settings with
      | intersection a =>
        simp only [Node.create, Node.outputCount, List.getElem?_map]
        cases a.connections[c]? <;> rfl
      | command a => rfl
      | _ => cases c <;> rfl
    have hsink : (Node.create settings).sinkCount = 0 := by cases settings <;> rfl
    refine ⟨fun c => ?_, rfl, ?_, fun e he => (by cases he), ?_⟩
    · simp only [hcount]; rfl
    · simp only [hsink]; rfl
    · by_cases hsensor : ∃ a, (Node.create settings).settings = .sensor a
      · obtain ⟨a, ha⟩ := hsensor
        exact Or.inl ⟨a, ha, fun e he => (by cases he)⟩
      · exact Or.inr ⟨fun a ha => hsensor ⟨a, ha⟩, Or.inl rfl⟩
  · intro e he; cases he

theorem traceInv_run {sys : System} (hkinds : ∀ a, .sensor a ∈ sys.nodes → a.sourceKind ≠ 0)
    (hout : sys.structuredOutput = true) {steps : List Step} {s : State} (h : run sys steps = some s) :
    TraceInv s := by
  refine (run_invariant (P := fun s => Inv sys s ∧ TraceInv s) ?_ steps ⟨inv_init sys, traceInv_init sys⟩ h).2
  rintro s e s' ⟨hi, ht⟩ hs
  refine ⟨inv_step s e s' hi hs, ?_⟩
  cases e with
  | start i event now => exact traceInv_start hkinds hi ht hs
  | act i now => exact traceInv_act hout hi ht hs

def Finished (s : State) (q : Publication) : Prop :=
  ∀ process, s.processes[q.node]? = some process → process.callback = q.callback → process.pending = []

/-! ## Unique identities -/

theorem Wired.channel_lt {timestamp : UInt64} {settings : NodeSettings} {o : Output}
    (h : Wired timestamp settings o) : o.channel < settings.outputTopics.length := by
  cases settings with
  | sensor a => obtain ⟨_, hc, _⟩ := h; rw [hc]; exact Nat.one_pos
  | transform a => obtain ⟨_, _, hc, _⟩ := h; rw [hc]; exact Nat.one_pos
  | fusion a => obtain ⟨_, _, _, hc, _⟩ := h; rw [hc]; exact Nat.one_pos
  | cyclic a => obtain ⟨hc, _⟩ := h; rw [hc]; exact Nat.one_pos
  | intersection a =>
    obtain ⟨_, _, _, hc, _⟩ := h
    rw [NodeSettings.outputTopics, List.length_map]; exact (List.getElem?_eq_some_iff.mp hc).1
  | command a => exact h.elim

theorem Built.identity {sys : System} {log : List Publication} {p : Publication} (h : Built sys log p) :
    ∃ settings, sys.nodes[p.node]? = some settings ∧ p.channel < settings.outputTopics.length ∧
      provenanceIdentity p.message = ⟨settings.nodeName, p.sequence, UInt32.ofNat p.channel⟩ := by
  obtain ⟨settings, o, hnode, hwired, _, s, heq⟩ := h
  refine ⟨settings, hnode, ?_, ?_⟩
  · rw [heq]; exact hwired.channel_lt
  · rw [heq]; rfl

theorem Node.channels_le {n : Node} (h : ∀ c ∈ n.counters, c ≤ 2 ^ 32) : n.settings.outputTopics.length ≤ 2 ^ 32 := by
  cases n with
  | intersection n =>
    simp only [Node.settings, NodeSettings.outputTopics, List.length_map]
    exact h _ (List.mem_cons_self ..)
  | _ => simp [Node.settings, NodeSettings.outputTopics]

section
variable {sys : System} {s : State} (hnames : (sys.nodes.map NodeSettings.nodeName).Nodup) (hi : Inv sys s)
  (ht : TraceInv s) (hwrap : NoWrap s)

include hi in
theorem mem_outputs {i : Nat} {process : Process} (hproc : s.processes[i]? = some process) {p : Publication}
    (hp : p ∈ outputs s i process) : p.node = i ∧ Built sys s.published p := by
  rcases List.mem_append.mp hp with hp | hp
  · obtain ⟨hp, hn⟩ := List.mem_filter.mp hp
    exact ⟨of_decide_eq_true hn, hi.log.built hp⟩
  · obtain ⟨action, ha, he⟩ := List.mem_filterMap.mp hp
    cases action with
    | publish q => cases he; exact hi.pending i process hproc p ha
    | emit e => cases he

include hi ht hwrap in
theorem outputs_nodup {i : Nat} {process : Process} (hproc : s.processes[i]? = some process) :
    ((outputs s i process).map fun p => provenanceIdentity p.message).Nodup := by
  have hcounts := hwrap process (List.mem_of_getElem? hproc)
  have hid : ∀ p ∈ outputs s i process, p.channel < 2 ^ 32 ∧
      provenanceIdentity p.message = ⟨process.node.settings.nodeName, p.sequence, UInt32.ofNat p.channel⟩ := by
    intro p hp
    obtain ⟨hn, hb⟩ := mem_outputs hi hproc hp
    obtain ⟨settings, hs, hch, hid⟩ := hb.identity
    rw [hn] at hs
    cases hs.symm.trans (hi.settings hproc)
    exact ⟨hch.trans_le (Node.channels_le hcounts), hid⟩
  rw [← List.filterMap_eq_map]
  refine nodup_filterMap_of_classes (g := Publication.channel) (fun x hx y hy b hxb hyb => ?_) fun c => ?_
  · have h : provenanceIdentity x.message = provenanceIdentity y.message := Option.some.inj (hxb.trans hyb.symm)
    rw [(hid x hx).2, (hid y hy).2, ProvenanceMessage.mk.injEq] at h
    have := congrArg UInt32.toNat h.2.2
    rwa [UInt32.toNat_ofNat_of_lt' (hid x hx).1, UInt32.toNat_ofNat_of_lt' (hid y hy).1] at this
  · rw [List.filterMap_eq_map]
    have hseq : (((outputs s i process).filter (·.channel = c)).map (·.sequence)).Nodup := by
      rw [(ht.traced i process hproc).sequences c]
      exact nodup_ofNat_range (Node.outputCount_le hcounts c)
    refine List.Nodup.map_on (fun x hx y hy hxy => List.inj_on_of_nodup_map hseq hx hy ?_) hseq.of_map
    rw [(hid x (List.mem_filter.mp hx).1).2, (hid y (List.mem_filter.mp hy).1).2, ProvenanceMessage.mk.injEq] at hxy
    exact hxy.2.1

include ht in
theorem entries_describes {i : Nat} {process : Process} (hproc : s.processes[i]? = some process) :
    (entries s i process).filterMap (·.record.describes) =
      (outputs s i process).map fun p => provenanceIdentity p.message := by
  have h := congrArg (List.map fun t : Nat × ProvenanceMessage × ProvenanceSource => t.2.1)
    (ht.traced i process hproc).described
  rw [List.map_filterMap, List.map_map] at h
  refine Eq.trans (List.filterMap_congr fun e _ => ?_) h
  rw [Record.describes_eq, LogEntry.trace, Option.map_map]
  rfl

include ht in
theorem mem_entries {e : LogEntry} (he : e ∈ s.records) :
    ∃ process, s.processes[e.node]? = some process ∧ e ∈ entries s e.node process := by
  obtain ⟨process, hproc, _⟩ := ht.owned e he
  exact ⟨process, hproc, List.mem_append_left _ (List.mem_filter.mpr ⟨he, decide_eq_true rfl⟩)⟩

include hi ht in
theorem describes_output {e : LogEntry} (he : e ∈ s.records) {id : ProvenanceMessage}
    (hid : e.record.describes = some id) :
    ∃ settings, sys.nodes[e.node]? = some settings ∧ id.name = settings.nodeName := by
  obtain ⟨process, hproc, hentry⟩ := mem_entries ht he
  have hmem : id ∈ (entries s e.node process).filterMap (·.record.describes) := List.mem_filterMap.mpr ⟨e, hentry, hid⟩
  rw [entries_describes ht hproc] at hmem
  obtain ⟨p, hp, rfl⟩ := List.mem_map.mp hmem
  obtain ⟨hn, hb⟩ := mem_outputs hi hproc hp
  obtain ⟨settings, hs, _, hname⟩ := hb.identity
  exact ⟨settings, hn ▸ hs, by rw [hname]⟩

theorem sublist_entries (s : State) (i : Nat) (process : Process) :
    (s.records.filter (·.node = i)).Sublist (entries s i process) :=
  List.sublist_append_left _ _

include ht in
theorem records_absent {i : Nat} (h : s.processes[i]? = none) : s.records.filter (·.node = i) = [] := by
  refine List.filter_eq_nil_iff.mpr fun e he hn => ?_
  obtain ⟨process, hp, _⟩ := ht.owned e he
  rw [of_decide_eq_true hn, h] at hp; cases hp

include hnames ht in
/-- A key that tells the node and is unique within each node is unique. -/
theorem records_nodup {β : Type} {key : Record → Option β} {name : β → Bytes}
    (hkey : ∀ e ∈ s.records, ∀ b, key e.record = some b →
      ∃ settings, sys.nodes[e.node]? = some settings ∧ name b = settings.nodeName)
    (hentries : ∀ (i : Nat) (process : Process), s.processes[i]? = some process →
      ((entries s i process).filterMap fun e => key e.record).Nodup) :
    (s.records.filterMap fun e => key e.record).Nodup := by
  refine nodup_filterMap_of_classes (g := LogEntry.node) (fun x hx y hy b hxb hyb => ?_) fun i => ?_
  · obtain ⟨a, ha, hna⟩ := hkey x hx b hxb
    obtain ⟨a', ha', hna'⟩ := hkey y hy b hyb
    exact node_inj hnames ha ha' (hna.symm.trans hna')
  · cases hproc : s.processes[i]? with
    | none => rw [records_absent ht hproc]; exact List.nodup_nil
    | some process => exact (hentries i process hproc).sublist (List.Sublist.filterMap _ (sublist_entries s i process))

include hnames hi ht hwrap in
theorem describes_nodup : (s.records.filterMap (·.record.describes)).Nodup := by
  refine records_nodup hnames ht (fun e he id hid => describes_output hi ht he hid) fun i process hproc => ?_
  rw [entries_describes ht hproc]
  exact outputs_nodup hi ht hwrap hproc

include hi ht in
theorem sinkKey_name {e : LogEntry} (he : e ∈ s.records) {key : Bytes × UInt32} (hkey : e.record.sinkKey = some key) :
    ∃ settings, sys.nodes[e.node]? = some settings ∧ key.1 = settings.nodeName := by
  obtain ⟨process, hproc, hentry⟩ := mem_entries ht he
  have hmem : key ∈ (entries s e.node process).filterMap (·.record.sinkKey) := List.mem_filterMap.mpr ⟨e, hentry, hkey⟩
  rw [(ht.traced e.node process hproc).sinks] at hmem
  obtain ⟨n, _, rfl⟩ := List.mem_map.mp hmem
  exact ⟨_, hi.settings hproc, rfl⟩

include hnames hi ht hwrap in
theorem sinkKey_nodup : (s.records.filterMap (·.record.sinkKey)).Nodup := by
  refine records_nodup hnames ht (fun e he key hkey => sinkKey_name hi ht he hkey) fun i process hproc => ?_
  rw [(ht.traced i process hproc).sinks]
  refine List.Nodup.of_map Prod.snd ?_
  rw [List.map_map]
  exact nodup_ofNat_range (Node.sinkCount_le (hwrap process (List.mem_of_getElem? hproc)))

include hnames hi ht hwrap in
theorem identity_nodup : (s.published.map fun p => provenanceIdentity p.message).Nodup := by
  rw [← List.filterMap_eq_map]
  refine nodup_filterMap_of_classes (g := Publication.node) (fun x hx y hy id hxi hyi => ?_) fun i => ?_
  · obtain ⟨a, ha, _, hia⟩ := (hi.log.built hx).identity
    obtain ⟨b, hb, _, hib⟩ := (hi.log.built hy).identity
    have h : provenanceIdentity x.message = provenanceIdentity y.message := Option.some.inj (hxi.trans hyi.symm)
    rw [hia, hib, ProvenanceMessage.mk.injEq] at h
    exact node_inj hnames ha hb h.1
  · rw [List.filterMap_eq_map]
    cases hproc : s.processes[i]? with
    | none =>
      have : s.published.filter (·.node = i) = [] := by
        refine List.filter_eq_nil_iff.mpr fun p hp hn => ?_
        obtain ⟨a, ha, _⟩ := (hi.log.built hp).identity
        rw [of_decide_eq_true hn, ← hi.nodes, List.getElem?_map, hproc] at ha; cases ha
      rw [this]; exact List.nodup_nil
    | some process =>
      exact (outputs_nodup hi ht hwrap hproc).sublist (List.Sublist.map _ (List.sublist_append_left _ _))

include hi ht in
theorem described_of_finished {q : Publication} (hq : q ∈ s.published) (hfin : Finished s q) :
    ∃ e ∈ s.records, e.record.describes = some (provenanceIdentity q.message) := by
  obtain ⟨a, ha, _⟩ := (hi.log.built hq).identity
  rw [← hi.nodes, List.getElem?_map] at ha
  obtain ⟨process, hproc, _⟩ := Option.map_eq_some_iff.mp ha
  have htraced := ht.traced q.node process hproc
  have hmem : q.trace ∈ (outputs s q.node process).map Publication.trace :=
    List.mem_map_of_mem (List.mem_append_left _ (List.mem_filter.mpr ⟨hq, by simp⟩))
  rw [← htraced.described] at hmem
  obtain ⟨e, he, htrace⟩ := List.mem_filterMap.mp hmem
  obtain ⟨d, hd, hde⟩ := Option.map_eq_some_iff.mp htrace
  have hcb : e.callback = q.callback := congrArg Prod.fst hde
  have hdes : e.record.describes = some (provenanceIdentity q.message) := by
    rw [Record.describes_eq, hd]
    exact congrArg some (congrArg (·.2.1) hde)
  rcases List.mem_append.mp he with he | he
  · exact ⟨e, (List.mem_filter.mp he).1, hdes⟩
  · obtain ⟨action, haction, hentry⟩ := List.mem_filterMap.mp he
    cases action with
    | publish p => cases hentry
    | emit e' =>
      cases hentry
      have hidle := hfin process hproc ((htraced.own e haction).2.symm.trans hcb)
      rw [hidle] at haction; cases haction

include ht in
theorem link_published {e : LogEntry} (he : e ∈ s.records) {t : Nat × ProvenanceMessage × ProvenanceSource}
    (htrace : e.trace = some t) (hlink : e.record.isSource = false) : ∃ p ∈ s.published, p.trace = t := by
  obtain ⟨process, hproc, hsensor⟩ := ht.owned e he
  have htraced := ht.traced e.node process hproc
  have hdesc := htraced.described
  have hmem : t ∈ (s.records.filter (·.node = e.node)).filterMap LogEntry.trace :=
    List.mem_filterMap.mpr ⟨e, List.mem_filter.mpr ⟨he, by simp⟩, htrace⟩
  -- what is written is a part of what is published
  have hpart : t ∈ (s.published.filter (·.node = e.node)).map Publication.trace := by
    rcases htraced.inOrder with ⟨a, ha, _⟩ | ⟨_, h | ⟨e', h⟩ | ⟨p, e', h, hsome⟩⟩
    · rw [hsensor a ha] at hlink; cases hlink
    · simp only [entries, outputs, h, List.filterMap_nil, List.append_nil] at hdesc
      rwa [hdesc] at hmem
    · simp only [entries, outputs, h, List.filterMap_cons, List.filterMap_nil, List.append_nil, List.filterMap_append,
        Action.publication?, Action.entry?] at hdesc
      rw [← hdesc]; exact List.mem_append_left _ hmem
    · obtain ⟨t', ht'⟩ := Option.ne_none_iff_exists'.mp hsome
      simp only [entries, outputs, h, List.filterMap_cons, List.filterMap_nil, List.filterMap_append,
        Action.publication?, Action.entry?, ht', List.map_append, List.map_cons, List.map_nil] at hdesc
      rwa [(List.append_inj' hdesc rfl).1] at hmem
  obtain ⟨p, hp, rfl⟩ := List.mem_map.mp hpart
  exact ⟨p, (List.mem_filter.mp hp).1, rfl⟩

end

theorem countP_describes {records : List LogEntry} (h : (records.filterMap (·.record.describes)).Nodup)
    {id : ProvenanceMessage} (he : ∃ e ∈ records, e.record.describes = some id) :
    records.countP (·.record.describes = some id) = 1 := by
  obtain ⟨e, he, hid⟩ := he
  have hcount := List.count_eq_one_of_mem h (List.mem_filterMap.mpr ⟨e, he, hid⟩)
  rw [List.count_filterMap] at hcount
  rw [← hcount]
  exact List.countP_congr fun e _ => by simp

/-- **Trace integrity** in every interleaving in which no counter wraps. -/
theorem trace_integrity {sys : System} {steps : List Step} {s : State}
    (hnames : (sys.nodes.map NodeSettings.nodeName).Nodup) (hkinds : ∀ a, .sensor a ∈ sys.nodes → a.sourceKind ≠ 0)
    (hout : sys.structuredOutput = true) (h : run sys steps = some s) (hwrap : NoWrap s) :
    ((s.records.filterMap (·.record.describes)).Nodup ∧ (s.records.filterMap (·.record.sinkKey)).Nodup) ∧
    (∀ e ∈ s.records, ∀ id ∈ e.record.inputIdentities,
      ∃ k q, k < e.before ∧ s.published[k]? = some q ∧ provenanceIdentity q.message = id ∧
        (Finished s q → s.records.countP (·.record.describes = some id) = 1)) ∧
    (∀ e ∈ s.records, ∀ node sequence channel timestampNs inputs origin timer,
      e.record = .link node sequence channel timestampNs inputs origin timer →
      (∃ p ∈ s.published, provenanceIdentity p.message = ⟨node, sequence, channel⟩) ∧
      ∀ p ∈ s.published, provenanceIdentity p.message = ⟨node, sequence, channel⟩ →
        origin = provenanceSource p.message) ∧
    ∀ e ∈ s.records, ∀ node sequence timestampNs input origin,
      e.record = .sink node sequence timestampNs input origin →
      ∀ p ∈ s.published, provenanceIdentity p.message = input → origin = provenanceSource p.message := by
  have hi := inv_run h
  have ht := traceInv_run hkinds hout h
  have hdes := describes_nodup hnames hi ht hwrap
  have hid := identity_nodup hnames hi ht hwrap
  have hentries := fun e he => entries_run h e (Or.inl (records_emitted h e he))
  refine ⟨⟨hdes, sinkKey_nodup hnames hi ht hwrap⟩, fun e he id hmem => ?_, ?_, ?_⟩
  · obtain ⟨_, rs, _, hids, hrs, _⟩ := hentries e he
    rw [hids] at hmem
    obtain ⟨r, hr, rfl⟩ := List.mem_map.mp hmem
    obtain ⟨hlt, q, hq, hm⟩ := hrs r hr
    refine ⟨r.publication, q, hlt, hq, by rw [hm], fun hfin => countP_describes hdes ?_⟩
    rw [← hm]; exact described_of_finished hi ht (List.mem_of_getElem? hq) hfin
  · intro e he node sequence channel timestampNs inputs origin timer hrec
    have htrace : e.trace = some (e.callback, ⟨node, sequence, channel⟩, origin) := by
      rw [LogEntry.trace, hrec]; rfl
    obtain ⟨p, hp, hpt⟩ := link_published ht he htrace (by rw [hrec]; rfl)
    simp only [Publication.trace, Prod.mk.injEq] at hpt
    refine ⟨⟨p, hp, hpt.2.1⟩, fun p' hp' hid' => ?_⟩
    rw [List.inj_on_of_nodup_map hid hp' hp (hid'.trans hpt.2.1.symm)]
    exact hpt.2.2.symm
  · intro e he node sequence timestampNs input origin hrec p' hp' hid'
    obtain ⟨_, rs, _, hids, hrs, hsink⟩ := hentries e he
    obtain ⟨r, rfl, rfl⟩ := hsink _ _ _ _ _ hrec
    obtain ⟨_, q, hq, hm⟩ := hrs r (List.mem_singleton_self r)
    have hinput : [input] = [provenanceIdentity r.message] := by rw [hrec] at hids; exact hids
    have hsame : provenanceIdentity p'.message = provenanceIdentity q.message := by
      rw [hid', hm]; exact (List.cons.inj hinput).1
    rw [List.inj_on_of_nodup_map hid hp' (List.mem_of_getElem? hq) hsame, hm]

/-- Both lidars fire at once, and the fusion node is still about to write its
link record when the command node consumes its message. -/
def lidarInterleaving : List Step := [
  .start 1 .timer 10, .start 0 .timer 11, .act 0 12, .act 1 13, .act 1 14, .start 2 (.deliver 1 0) 15, .act 0 16,
  .start 2 (.deliver 0 1) 17, .act 2 18, .start 3 (.deliver 0 2) 19, .act 3 20, .act 2 21]

theorem lidarInterleaving_trace : ∃ s, run lidarSystem lidarInterleaving = some s ∧ s.records.length = 4 ∧
    (s.records.filterMap (·.record.describes)).Nodup ∧
    ∀ e ∈ s.records, ∀ id ∈ e.record.inputIdentities, ∃ q ∈ s.published, provenanceIdentity q.message = id := by
  have hsome : ((run lidarSystem lidarInterleaving).map fun s => (s.records.length, decide (NoWrap s))) =
      some (4, true) := by decide
  obtain ⟨s, hs, hpair⟩ := Option.map_eq_some_iff.mp hsome
  rw [Prod.mk.injEq, decide_eq_true_eq] at hpair
  have hkinds : ∀ a, .sensor a ∈ lidarSystem.nodes → a.sourceKind ≠ 0 := by
    intro a ha
    simp only [lidarSystem, List.mem_cons, List.not_mem_nil, or_false, NodeSettings.sensor.injEq, reduceCtorEq] at ha
    rcases ha with rfl | rfl <;> decide
  obtain ⟨⟨hdes, _⟩, hinputs, _⟩ := trace_integrity (by decide) hkinds rfl hs hpair.2
  refine ⟨s, hs, hpair.1, hdes, fun e he id hid => ?_⟩
  obtain ⟨_, q, _, hq, hqid, _⟩ := hinputs e he id hid
  exact ⟨q, List.mem_of_getElem? hq, hqid⟩

end ReferenceSystem
