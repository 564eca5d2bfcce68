import ReferenceSystem.AtomicSound
import ReferenceSystem.TraceSound
import Mathlib.Algebra.BigOperators.Group.Finset.Piecewise

/-!
# Interleaved and atomic runs

Callbacks of different nodes overlap, but a message appears at one moment.
When every callback is moved to the moment of its message, or to its start if
it has none, the callbacks form an atomic run with the same log. What a
callback emits after that moment is known in the atomic run already, with the
time of the later step; a source record that is emitted before it is not.
-/

namespace ReferenceSystem

/-! ## The overflow count -/

/-- A change of a message that only adds to the count passed along. -/
def Counting (f : Message × Nat → Message × Nat) : Prop := ∀ m n, f (m, n) = ((f (m, 0)).1, n + (f (m, 0)).2)

theorem Counting.comp {f g : Message × Nat → Message × Nat} (hf : Counting f) (hg : Counting g) :
    Counting fun st => g (f st) := by
  intro m n
  simp only
  rw [hf m n, hg (f (m, 0)).1 (n + (f (m, 0)).2), ← Prod.mk.eta (p := f (m, 0)), hg (f (m, 0)).1 (f (m, 0)).2,
    Nat.add_assoc]

theorem Counting.foldl {α : Type} {f : Message × Nat → α → Message × Nat} (hf : ∀ x, Counting fun st => f st x) :
    ∀ xs : List α, Counting fun st => xs.foldl f st
  | [] => fun _ n => by simp
  | x :: xs => (hf x).comp (Counting.foldl hf xs)

theorem absorb_counting (source : Message) : ∀ is : List Nat, Counting (absorb source is)
  | [] => fun _ n => by simp [absorb]
  | i :: is => by
    intro m n
    simp only [absorb]
    split
    · split
      · simp
      · exact absorb_counting source is _ n
    · split
      · exact absorb_counting source is _ n
      · exact absorb_counting source is _ n

theorem merge_counting (benchmarkMode : Bool) (source : Message) :
    Counting (mergeHistoryIntoSample benchmarkMode source) := by
  intro m n
  unfold mergeHistoryIntoSample
  cases benchmarkMode with
  | true => simp
  | false => exact absorb_counting source _ _ n

theorem setSample_counting (benchmarkMode : Bool) (nodeName : Bytes) (sequenceNumber droppedSamples : UInt32)
    (timestamp : UInt64) : Counting (setSample benchmarkMode nodeName sequenceNumber droppedSamples timestamp) := by
  intro m n
  unfold setSample
  grind

/-- The message does not depend on the count, and the count grows by the same amount. -/
theorem assemble_counting (benchmarkMode : Bool) (nodeName : Bytes) (timestamp : UInt64) (o : Output) (n : Nat) :
    assemble benchmarkMode nodeName timestamp o n = ((assemble benchmarkMode nodeName timestamp o 0).1,
      n + (assemble benchmarkMode nodeName timestamp o 0).2) := by
  have hall := (Counting.foldl (fun input : Nat × Received => merge_counting benchmarkMode input.2.message) o.inputs).comp
    (setSample_counting benchmarkMode nodeName o.sequence o.dropped timestamp) default n
  unfold assemble
  simp only [hall]

/-! ## Up to the order of the callbacks -/

def Publication.content (p : Publication) : Publication := { p with callback := 0 }

def LogEntry.content (e : LogEntry) : LogEntry := { e with callback := 0, before := 0 }

def Action.content : Action → Action
  | .publish p => .publish p.content
  | .emit e => .emit e.content

/-- What one node has written so far. -/
def recordsOf (s : State) (i : Nat) : List LogEntry := (s.records.filter (·.node = i)).map LogEntry.content

def Step.callback? (i : Nat) : Step → Option (Event × UInt64)
  | .start j event now => if j = i then some (event, now) else none
  | .act .. => none

/-- The callbacks of one node, in the order of their starts. -/
def callbacksOf (i : Nat) (steps : List Step) : List (Event × UInt64) := steps.filterMap (Step.callback? i)

def AtomicStep.start (a : AtomicStep) : Step := .start a.node a.event a.now

def LogEntry.stamp (now : UInt64) (e : LogEntry) : LogEntry := { e with record := e.record.stamp now }

def written (sys : System) (now : UInt64) (es : List LogEntry) : List LogEntry :=
  if sys.structuredOutput then es.map (LogEntry.stamp now) else []

theorem written_source {sys : System} (now : UInt64) {es : List LogEntry} (h : ∀ e ∈ es, e.record.isSource = true) :
    written sys now es = if sys.structuredOutput then es else [] := by
  unfold written
  congr 1
  refine (List.map_congr_left fun e he => ?_).trans (List.map_id es)
  obtain ⟨record, node, callback, inputs, before⟩ := e
  cases record with
  | source => rfl
  | link => cases h _ he
  | sink => cases h _ he

theorem written_append (sys : System) (now : UInt64) (es es' : List LogEntry) :
    written sys now (es ++ es') = written sys now es ++ written sys now es' := by
  unfold written
  cases sys.structuredOutput <;> simp

def outputEntry (i : Nat) (nodeName : Bytes) (timestamp : UInt64) (o : Output) : Option LogEntry :=
  (outputRecord nodeName timestamp o).map fun record => ⟨record, i, 0, o.inputs.map (·.2.publication), 0⟩

/-- What a callback writes before it publishes. -/
def earlyEntries (i : Nat) (nodeName : Bytes) (timestamp : UInt64) (o : Output) : List LogEntry :=
  match o.kind with
  | .source _ => (outputEntry i nodeName timestamp o).toList
  | .link _ => []

def lateEntries (i : Nat) (nodeName : Bytes) (timestamp : UInt64) (o : Output) : List LogEntry :=
  match o.kind with
  | .source _ => []
  | .link _ => (outputEntry i nodeName timestamp o).toList

def outputPublication (sys : System) (i : Nat) (nodeName : Bytes) (timestamp : UInt64) (o : Output) : Publication :=
  (publication sys (initialState sys) i nodeName timestamp o).content

theorem publication_content (sys : System) (s : State) (i : Nat) (nodeName : Bytes) (timestamp : UInt64) (o : Output) :
    (publication sys s i nodeName timestamp o).content = outputPublication sys i nodeName timestamp o := by
  simp only [outputPublication, publication, Publication.content, Publication.mk.injEq, true_and]
  rw [assemble_counting, assemble_counting _ _ _ _ (initialState sys).metadataOverflowCount]

theorem outputActions_content (sys : System) (s : State) (i : Nat) (nodeName : Bytes) (timestamp : UInt64)
    (o : Output) : (outputActions sys s i nodeName timestamp o).map Action.content =
      (earlyEntries i nodeName timestamp o).map .emit ++ .publish (outputPublication sys i nodeName timestamp o) ::
        (lateEntries i nodeName timestamp o).map .emit := by
  rw [← publication_content sys s]
  unfold outputActions earlyEntries lateEntries outputEntry
  cases o.kind <;> cases outputRecord nodeName timestamp o <;> rfl

theorem earlyEntries_source (i : Nat) (nodeName : Bytes) (timestamp : UInt64) (o : Output) :
    ∀ e ∈ earlyEntries i nodeName timestamp o, e.record.isSource = true ∧ e.node = i := by
  intro e he
  unfold earlyEntries outputEntry outputRecord at he
  grind [Record.isSource]

theorem lateEntries_node {i : Nat} {nodeName : Bytes} {timestamp : UInt64} {o : Output} :
    (lateEntries i nodeName timestamp o).length ≤ 1 ∧ ∀ e ∈ lateEntries i nodeName timestamp o, e.node = i := by
  unfold lateEntries outputEntry outputRecord
  grind

/-! ## A callback without interruption -/

theorem recordsOf_emit {sys : System} {s t : State} {i : Nat} {e : LogEntry} {now : UInt64} (hnode : e.node = i)
    (h : t.records =
      if sys.structuredOutput then s.records ++ [{ e with record := e.record.stamp now }] else s.records) :
    recordsOf t i = recordsOf s i ++ written sys now [e.content] ∧ ∀ j, j ≠ i → recordsOf t j = recordsOf s j := by
  unfold recordsOf written
  rw [h]
  cases sys.structuredOutput with
  | false => simp
  | true =>
    constructor
    · simp [hnode, LogEntry.stamp, LogEntry.content]
    · intro j hj
      simp [hnode, Ne.symm hj]

theorem acts_all (sys : System) {i : Nat} {node : Node} {callback : Nat} (now : UInt64) :
    ∀ (pending : List Action) (t : State), t.processes[i]? = some ⟨node, callback, pending⟩ →
      (∀ e, .emit e ∈ pending.map Action.content → e.node = i) →
      ∃ u, runSteps (step sys) t (List.replicate pending.length (.act i now)) = some u ∧
        u.processes = t.processes.set i ⟨node, callback, []⟩ ∧
        u.published.map Publication.content =
          t.published.map Publication.content ++ (pending.map Action.content).filterMap Action.publication? ∧
        recordsOf u i = recordsOf t i ++ written sys now ((pending.map Action.content).filterMap Action.entry?) ∧
        (∀ j, j ≠ i → recordsOf u j = recordsOf t j) ∧ u.metadataOverflowCount = t.metadataOverflowCount := by
  intro pending
  induction pending with
  | nil =>
    intro t ht _
    refine ⟨t, rfl, ?_, by simp, by simp [written], fun _ _ => rfl, rfl⟩
    obtain ⟨hi, hget⟩ := List.getElem?_eq_some_iff.mp ht
    rw [← hget, List.set_getElem_self]
  | cons action rest ih =>
    intro t ht hnode
    have hi : i < t.processes.length := (List.getElem?_eq_some_iff.mp ht).1
    have hrest : ∀ e, .emit e ∈ rest.map Action.content → e.node = i :=
      fun e he => hnode e (List.mem_cons_of_mem _ he)
    cases action with
    | publish p =>
      obtain ⟨u, hu, hprocs, hpub, hrec, hothers, hcount⟩ := ih
        { t with processes := t.processes.set i ⟨node, callback, rest⟩, published := t.published ++ [p] }
        (List.getElem?_set_self hi) hrest
      refine ⟨u, runSteps_cons.mpr ⟨_, ?_, hu⟩, ?_, ?_, hrec, hothers, hcount⟩
      · simp [step, act, ht]
      · rw [hprocs, List.set_set]
      · rw [hpub]; simp [Action.content, Action.publication?]
    | emit e =>
      let v : State := { t with
        processes := t.processes.set i ⟨node, callback, rest⟩
        emitted := t.emitted ++ [{ e with record := e.record.stamp now }]
        records := if sys.structuredOutput then t.records ++ [{ e with record := e.record.stamp now }] else t.records
        clock := if e.record.isSource then t.clock else t.clock ++ [now] }
      obtain ⟨u, hu, hprocs, hpub, hrec, hothers, hcount⟩ := ih v (List.getElem?_set_self hi) hrest
      obtain ⟨hown, hkept⟩ := recordsOf_emit (s := t) (t := v) (e := e) (hnode e.content (List.mem_cons_self ..)) rfl
      refine ⟨u, runSteps_cons.mpr ⟨v, ?_, hu⟩, ?_, ?_, ?_, fun j hj => (hothers j hj).trans (hkept j hj), hcount⟩
      · simp [step, act, ht, v]
      · rw [hprocs, List.set_set]
      · exact hpub
      · rw [hrec, hown, List.append_assoc, ← written_append]
        rfl

/-- The steps of an uninterrupted callback from an idle state. -/
theorem atomicStep_total {sys : System} {a : State} {i : Nat} {q : Process} {event : Event} {now : UInt64}
    {nodeEvent : NodeEvent} {node : Node} {effect : Effect} (hidle : Idle a) (hq : a.processes[i]? = some q)
    (hevent : resolveEvent a q.node.settings event = some nodeEvent)
    (hcall : q.node.callback sys.benchmarkMode now nodeEvent = some (node, effect)) (emitNs : UInt64)
    {acts : List Action} (hacts : (perform sys a i node.settings.nodeName now effect).1 = acts)
    (hnode : ∀ e, .emit e ∈ acts.map Action.content → e.node = i) :
    ∃ u, atomicStep sys a ⟨i, event, now, emitNs⟩ = some u ∧
      u.processes = a.processes.set i ⟨node, a.started, []⟩ ∧
      u.published.map Publication.content =
        a.published.map Publication.content ++ (acts.map Action.content).filterMap Action.publication? ∧
      recordsOf u i = recordsOf a i ++ written sys emitNs ((acts.map Action.content).filterMap Action.entry?) ∧
      (∀ j, j ≠ i → recordsOf u j = recordsOf a j) ∧
      u.metadataOverflowCount = (perform sys a i node.settings.nodeName now effect).2 := by
  have hi : i < a.processes.length := (List.getElem?_eq_some_iff.mp hq).1
  have hstart : ∃ t, start sys a i event now = some t ∧ t.processes = a.processes.set i ⟨node, a.started, acts⟩ ∧
      t.published = a.published ∧ t.records = a.records ∧
      t.metadataOverflowCount = (perform sys a i node.settings.nodeName now effect).2 := by
    unfold start
    simp only [hq, hidle i q hq, ne_eq, not_true_eq_false, if_false, hevent, hcall, hacts]
    exact ⟨_, rfl, rfl, rfl, rfl, rfl⟩
  obtain ⟨t, ht, hprocs, hpub, hrec, hcount⟩ := hstart
  have hown : t.processes[i]? = some ⟨node, a.started, acts⟩ := by
    rw [hprocs]; exact List.getElem?_set_self hi
  obtain ⟨u, hu, hprocs', hpub', hrec', hothers, hcount'⟩ := acts_all sys emitNs acts t hown hnode
  refine ⟨u, ?_, by rw [hprocs', hprocs, List.set_set], by rw [hpub', hpub], ?_, fun j hj => ?_, hcount'.trans hcount⟩
  · refine Option.bind_eq_some_iff.mpr ⟨t, ht, ?_⟩
    simpa only [remaining, hown, Option.map_some, Option.getD_some] using hu
  · rw [hrec']; simp only [recordsOf, hrec]
  · rw [hothers j hj]; simp only [recordsOf, hrec]

/-- A delivery resolves to the same message in every log with the same contents, and in longer ones. -/
theorem resolveEvent_content {s t : State} {settings : NodeSettings} {event : Event} {nodeEvent : NodeEvent}
    (hlog : s.published.map Publication.content <+: t.published.map Publication.content)
    (h : resolveEvent s settings event = some nodeEvent) : resolveEvent t settings event = some nodeEvent := by
  cases event with
  | timer => exact h
  | deliver subscription k =>
    simp only [resolveEvent] at h ⊢
    cases hp : s.published[k]? with
    | none => simp [hp] at h
    | some p =>
      have hc : (t.published.map Publication.content)[k]? = some p.content := by
        obtain ⟨more, hmore⟩ := hlog
        have hold : (s.published.map Publication.content)[k]? = some p.content := by rw [List.getElem?_map, hp]; rfl
        rw [← hmore, List.getElem?_append_left (List.getElem?_eq_some_iff.mp hold).1, hold]
      rw [List.getElem?_map] at hc
      obtain ⟨p', hp', hsame⟩ := Option.map_eq_some_iff.mp hc
      have htopic : p'.topic = p.topic := (congrArg Publication.topic hsame :)
      have hmessage : p'.message = p.message := (congrArg Publication.message hsame :)
      simp only [hp, hp', htopic, hmessage] at h ⊢
      exact h

/-! ## The atomic run of a run -/

/-- One node as a run leaves it. -/
structure View where
  process : Option Process
  records : List LogEntry
  callbacks : List (Event × UInt64)

def view (s : State) (steps : List Step) (i : Nat) : View := ⟨s.processes[i]?, recordsOf s i, callbacksOf i steps⟩

/-- Node `i` in a run (`v`) and in its atomic run (`w`, in the state `a`). A
callback whose message is published, or that has none, is over in the atomic
run, where what it still has to write carries the time `emitNs`; any other has
not started there and is owed with what it adds to the overflow count. -/
inductive CallbackPhase (sys : System) (a : State) (emitNs : UInt64) (i : Nat) (v w : View) : Nat → Prop
  | committed (process q : Process) (late : List LogEntry) : v.process = some process → w.process = some q →
      q.node = process.node → process.pending.map Action.content = late.map .emit → late.length ≤ 1 →
      (∀ e ∈ late, e.node = i) → w.records = v.records ++ written sys emitNs late → w.callbacks = v.callbacks →
      CallbackPhase sys a emitNs i v w 0
  | opened (process q : Process) (event : Event) (now : UInt64) (nodeEvent : NodeEvent) (o : Output)
      (done todo : List LogEntry) : v.process = some process → w.process = some q →
      resolveEvent a q.node.settings event = some nodeEvent →
      q.node.callback sys.benchmarkMode now nodeEvent = some (process.node, .publish o) →
      earlyEntries i process.node.settings.nodeName now o = done ++ todo →
      process.pending.map Action.content = todo.map .emit ++
        .publish (outputPublication sys i process.node.settings.nodeName now o) ::
          (lateEntries i process.node.settings.nodeName now o).map .emit →
      v.records = w.records ++ written sys emitNs done → v.callbacks = w.callbacks ++ [(event, now)] →
      CallbackPhase sys a emitNs i v w (assemble sys.benchmarkMode process.node.settings.nodeName now o 0).2

theorem CallbackPhase.mono {sys : System} {a b : State} {emitNs : UInt64} {i : Nat} {v w : View} {owed : Nat}
    (hlog : a.published.map Publication.content <+: b.published.map Publication.content)
    (h : CallbackPhase sys a emitNs i v w owed) : CallbackPhase sys b emitNs i v w owed := by
  cases h with
  | committed process q late hv hw hnode hpend hlen hown hrec hcalls =>
    exact .committed process q late hv hw hnode hpend hlen hown hrec hcalls
  | opened process q event now nodeEvent o done todo hv hw hevent hcall hearly hpend hrec hcalls =>
    exact .opened process q event now nodeEvent o done todo hv hw (resolveEvent_content hlog hevent) hcall hearly
      hpend hrec hcalls

/-- The atomic run `atomics` to `a` does the same as the run `steps` to `s`, up to the open callbacks. -/
structure Reduces (sys : System) (emitNs : Nat → UInt64) (steps : List Step) (s : State) (atomics : List AtomicStep)
    (a : State) (owed : Nat → Nat) : Prop where
  run : atomicRun sys atomics = some a
  idle : Idle a
  published : a.published.map Publication.content = s.published.map Publication.content
  phase : ∀ i < s.processes.length,
    CallbackPhase sys a (emitNs i) i (view s steps i) (view a (atomics.map AtomicStep.start) i) (owed i)
  count : s.metadataOverflowCount = a.metadataOverflowCount + ∑ i ∈ Finset.range s.processes.length, owed i

theorem callbacksOf_snoc (i : Nat) (steps : List Step) (e : Step) :
    callbacksOf i (steps ++ [e]) = callbacksOf i steps ++ (e.callback? i).toList := by
  rw [callbacksOf, List.filterMap_append, List.filterMap_cons]
  cases Step.callback? i e <;> rfl

theorem sum_update (owed : Nat → Nat) {n i : Nat} (hi : i < n) (k : Nat) :
    (∑ j ∈ Finset.range n, Function.update owed i k j) + owed i = (∑ j ∈ Finset.range n, owed j) + k := by
  have hmem : i ∈ Finset.range n := Finset.mem_range.mpr hi
  rw [Finset.sum_update_of_mem hmem, Finset.sdiff_singleton_eq_erase, ← Finset.add_sum_erase _ _ hmem]
  omega

section
variable {sys : System} {emitNs : Nat → UInt64} {steps : List Step} {s : State} {atomics : List AtomicStep} {a : State}
  {owed : Nat → Nat}

/-- A step of one node leaves the phases of the others alone. -/
theorem Reduces.update (h : Reduces sys emitNs steps s atomics a owed) {emitNs' : Nat → UInt64} {steps' : List Step}
    {s' : State} {atomics' : List AtomicStep} {b : State} {i k : Nat} (hi : i < s.processes.length)
    (htimes : ∀ j, j ≠ i → emitNs' j = emitNs j) (hlen : s'.processes.length = s.processes.length)
    (hleft : ∀ j, j ≠ i → view s' steps' j = view s steps j) (hrun : atomicRun sys atomics' = some b) (hidle : Idle b)
    (hright : ∀ j, j ≠ i → view b (atomics'.map AtomicStep.start) j = view a (atomics.map AtomicStep.start) j)
    (hgrows : a.published.map Publication.content <+: b.published.map Publication.content)
    (hpub : b.published.map Publication.content = s'.published.map Publication.content)
    (hphase : CallbackPhase sys b (emitNs' i) i (view s' steps' i) (view b (atomics'.map AtomicStep.start) i) k)
    (hcount : s'.metadataOverflowCount + owed i + a.metadataOverflowCount =
      s.metadataOverflowCount + k + b.metadataOverflowCount) :
    Reduces sys emitNs' steps' s' atomics' b (Function.update owed i k) := by
  refine ⟨hrun, hidle, hpub, fun j hj => ?_, ?_⟩
  · by_cases hij : j = i
    · subst hij
      rw [Function.update_self]; exact hphase
    · rw [Function.update_of_ne hij, htimes j hij, hleft j hij, hright j hij]
      exact (h.phase j (hlen ▸ hj)).mono hgrows
  · have hsum := sum_update owed hi k
    have hbefore := h.count
    rw [hlen]
    omega

/-- One more uninterrupted callback. -/
theorem Reduces.commit (h : Reduces sys emitNs steps s atomics a owed) {i : Nat} {q : Process} {event : Event}
    {now : UInt64} {nodeEvent : NodeEvent} {node : Node} {effect : Effect} (hq : a.processes[i]? = some q)
    (hevent : resolveEvent a q.node.settings event = some nodeEvent)
    (hcall : q.node.callback sys.benchmarkMode now nodeEvent = some (node, effect)) {acts : List Action}
    (hacts : (perform sys a i node.settings.nodeName now effect).1.map Action.content = acts)
    (hnode : ∀ e, .emit e ∈ acts → e.node = i) :
    ∃ b, atomicRun sys (atomics ++ [AtomicStep.mk i event now (emitNs i)]) = some b ∧ Idle b ∧
      b.published.map Publication.content =
        a.published.map Publication.content ++ acts.filterMap Action.publication? ∧
      (∀ j, j ≠ i → view b ((atomics ++ [AtomicStep.mk i event now (emitNs i)]).map AtomicStep.start) j =
        view a (atomics.map AtomicStep.start) j) ∧
      view b ((atomics ++ [AtomicStep.mk i event now (emitNs i)]).map AtomicStep.start) i =
        ⟨some ⟨node, a.started, []⟩, recordsOf a i ++ written sys (emitNs i) (acts.filterMap Action.entry?),
          callbacksOf i (atomics.map AtomicStep.start) ++ [(event, now)]⟩ ∧
      b.metadataOverflowCount = (perform sys a i node.settings.nodeName now effect).2 := by
  subst hacts
  obtain ⟨b, hb, hprocs, hpub, hrec, hothers, hcount⟩ :=
    atomicStep_total h.idle hq hevent hcall (emitNs i) rfl hnode
  have hi : i < a.processes.length := (List.getElem?_eq_some_iff.mp hq).1
  have hcalls : ∀ j, callbacksOf j ((atomics ++ [AtomicStep.mk i event now (emitNs i)]).map AtomicStep.start) =
      callbacksOf j (atomics.map AtomicStep.start) ++ if i = j then [(event, now)] else [] := by
    intro j
    rw [List.map_append, List.map_singleton, callbacksOf_snoc]
    simp only [AtomicStep.start, Step.callback?]
    split
    · rfl
    · simp
  refine ⟨b, ?_, ?_, hpub, fun j hj => ?_, ?_, hcount⟩
  · rw [atomicRun, runSteps_append]
    exact Option.bind_eq_some_iff.mpr ⟨a, h.run, runSteps_cons.mpr ⟨b, hb, rfl⟩⟩
  · intro j process hj
    rw [hprocs] at hj
    rcases getElem?_set_cases hj with ⟨_, rfl⟩ | ⟨_, hj⟩
    · rfl
    · exact h.idle j process hj
  · simp only [view, hcalls, hprocs, hothers j hj, List.getElem?_set_ne (Ne.symm hj), if_neg (Ne.symm hj),
      List.append_nil]
  · simp only [view, hcalls, hprocs, hrec, List.getElem?_set_self hi, if_true]

theorem Reduces.idle_phase (h : Reduces sys emitNs steps s atomics a owed) {i : Nat} {process : Process}
    (hproc : s.processes[i]? = some process) (hpend : process.pending = []) :
    ∃ q, a.processes[i]? = some q ∧ q.node = process.node ∧ recordsOf a i = recordsOf s i ∧
      callbacksOf i (atomics.map AtomicStep.start) = callbacksOf i steps ∧ owed i = 0 := by
  have hphase := h.phase i (List.getElem?_eq_some_iff.mp hproc).1
  generalize owed i = k at hphase ⊢
  cases hphase with
  | committed process' q late hv hw hnode hlate _ _ hrec hcalls =>
    cases hproc.symm.trans hv
    rw [hpend] at hlate
    have hnone : late = [] := List.map_eq_nil_iff.mp hlate.symm
    subst hnone
    refine ⟨q, hw, hnode, hrec.trans ?_, hcalls, rfl⟩
    simp [view, written]
  | opened process' q event now nodeEvent o done todo hv _ _ _ _ hacts =>
    cases hproc.symm.trans hv
    rw [hpend] at hacts
    simp at hacts

/-- A callback without a message has at most one entry to write. -/
theorem perform_quiet (sys : System) (i : Nat) (nodeName : Bytes) (now : UInt64) {effect : Effect}
    (h : ∀ o, effect ≠ .publish o) :
    ∃ late : List LogEntry, late.length ≤ 1 ∧ (∀ e ∈ late, e.node = i) ∧
      ∀ t, (perform sys t i nodeName now effect).1.map Action.content = late.map .emit ∧
        (perform sys t i nodeName now effect).2 = t.metadataOverflowCount := by
  cases effect with
  | silent => exact ⟨[], by simp, by simp, fun t => ⟨rfl, rfl⟩⟩
  | publish o => exact absurd rfl (h o)
  | consume sequence input =>
    exact ⟨[⟨.sink nodeName sequence 0 (provenanceIdentity input.message) (provenanceSource input.message), i, 0,
      [input.publication], 0⟩], by simp, by simp, fun t => ⟨rfl, rfl⟩⟩

theorem filterMap_emit (es : List LogEntry) : (es.map Action.emit).filterMap Action.publication? = [] ∧
    (es.map Action.emit).filterMap Action.entry? = es := by
  constructor
  · induction es with
    | nil => rfl
    | cons e es ih => exact ih
  · induction es with
    | nil => rfl
    | cons e es ih => exact congrArg (e :: ·) ih

theorem mem_map_emit {es : List LogEntry} {e : LogEntry} : Action.emit e ∈ es.map Action.emit ↔ e ∈ es := by
  simp

theorem reduces_start {s' : State} {i : Nat} {event : Event} {now : UInt64} (hstart : start sys s i event now = some s')
    (h : Reduces sys emitNs steps s atomics a owed) :
    ∃ atomics' a' owed', Reduces sys emitNs (steps ++ [.start i event now]) s' atomics' a' owed' := by
  obtain ⟨process, nodeEvent, node, effect, hproc, hpend, hevent, hcall, rfl⟩ := start_cases hstart
  have hi : i < s.processes.length := (List.getElem?_eq_some_iff.mp hproc).1
  obtain ⟨q, hq, hnode, hrec, hcalls, howed⟩ := h.idle_phase hproc hpend
  have hleft : ∀ j, callbacksOf j (steps ++ [.start i event now]) =
      callbacksOf j steps ++ if i = j then [(event, now)] else [] := by
    intro j
    rw [callbacksOf_snoc]
    simp only [Step.callback?]
    split
    · rfl
    · simp
  rw [← hnode] at hevent hcall
  have hevent' : resolveEvent a q.node.settings event = some nodeEvent :=
    resolveEvent_content (by rw [h.published]) hevent
  by_cases hpublishes : ∃ o, effect = .publish o
  · obtain ⟨o, rfl⟩ := hpublishes
    have hnext : (s.processes.set i ⟨node, s.started, outputActions sys s i node.settings.nodeName now o⟩)[i]? =
        some ⟨node, s.started, outputActions sys s i node.settings.nodeName now o⟩ := List.getElem?_set_self hi
    refine ⟨atomics, a, _, h.update hi (fun _ _ => rfl) (List.length_set ..) (fun j hj => ?_) h.run h.idle
      (fun _ _ => rfl) List.prefix_rfl h.published (.opened _ q event now nodeEvent o []
        (earlyEntries i node.settings.nodeName now o) hnext hq hevent' hcall rfl (outputActions_content ..) ?_ ?_) ?_⟩
    · simp only [view, hleft, List.getElem?_set_ne (Ne.symm hj), if_neg (Ne.symm hj), List.append_nil, recordsOf]
    · simp only [view, written, List.map_nil, ite_self, List.append_nil, hrec]; rfl
    · simp only [view, hleft, if_true, hcalls]
    · simp only [perform, howed]
      rw [assemble_counting]
      omega
  · -- nothing is published: the callback is over in the atomic run
    have hquiet : ∀ o, effect ≠ .publish o := fun o ho => hpublishes ⟨o, ho⟩
    obtain ⟨late, hlen, hlate, hperform⟩ := perform_quiet sys i node.settings.nodeName now hquiet
    obtain ⟨b, hrun, hidle, hpub, hothers, hown, hcount⟩ := h.commit hq hevent' hcall (hperform a).1
      fun e he => hlate e (mem_map_emit.mp he)
    rw [(filterMap_emit late).1, List.append_nil] at hpub
    rw [(filterMap_emit late).2] at hown
    refine ⟨_, b, _, h.update (k := 0) hi (fun _ _ => rfl) (List.length_set ..) (fun j hj => ?_) hrun hidle hothers
      (by rw [hpub]) (hpub.trans h.published) ?_ ?_⟩
    · simp only [view, hleft, List.getElem?_set_ne (Ne.symm hj), if_neg (Ne.symm hj), List.append_nil, recordsOf]
    · rw [hown]
      refine .committed ⟨node, s.started, _⟩ ⟨node, a.started, []⟩ late ?_ rfl rfl (hperform s).1 hlen hlate ?_ ?_
      · exact List.getElem?_set_self hi
      · rw [hrec]; rfl
      · simp only [view, hleft, if_true, hcalls]
    · simp only [hcount, (hperform a).2, (hperform s).2, howed]

theorem callbacksOf_act (j i : Nat) (steps : List Step) (now : UInt64) :
    callbacksOf j (steps ++ [.act i now]) = callbacksOf j steps := by
  rw [callbacksOf_snoc]
  exact List.append_nil _

theorem reduces_publish {i : Nat} {node : Node} {callback : Nat} {p : Publication} {rest : List Action}
    (now : UInt64) (hproc : s.processes[i]? = some ⟨node, callback, .publish p :: rest⟩)
    (h : Reduces sys emitNs steps s atomics a owed) :
    ∃ atomics' a' owed', Reduces sys emitNs (steps ++ [.act i now])
      { s with processes := s.processes.set i ⟨node, callback, rest⟩, published := s.published ++ [p] }
      atomics' a' owed' := by
  have hi : i < s.processes.length := (List.getElem?_eq_some_iff.mp hproc).1
  have hphase := h.phase i hi
  generalize howed : owed i = k at hphase
  cases hphase with
  | committed process q late hv _ _ hlate =>
    -- after its message a callback has only entries left
    cases hproc.symm.trans hv
    cases late <;> cases hlate
  | opened process q event at' nodeEvent o done todo hv hq hevent hcall hearly hpend hrec hcalls =>
    cases hproc.symm.trans hv
    cases todo with
    | cons e todo => cases hpend
    | nil =>
      obtain ⟨hp, hlate⟩ := List.cons.inj hpend
      have hpc : p.content = outputPublication sys i node.settings.nodeName at' o := Action.publish.inj hp
      obtain ⟨b, hrun, hidle, hpub, hothers, hown, hcount⟩ := h.commit hq hevent hcall
        (outputActions_content sys a i node.settings.nodeName at' o) (fun e he => by
          rcases List.mem_append.mp he with he | he
          · exact (earlyEntries_source _ _ _ _ e (mem_map_emit.mp he)).2
          · rcases List.mem_cons.mp he with he | he
            · cases he
            · exact lateEntries_node.2 e (mem_map_emit.mp he))
      simp only [List.filterMap_append, List.filterMap_cons, Action.publication?, Action.entry?, filterMap_emit,
        List.nil_append] at hpub hown
      refine ⟨_, b, _, h.update (k := 0) hi (fun _ _ => rfl) (List.length_set ..) (fun j hj => ?_) hrun hidle hothers
        ⟨_, hpub.symm⟩ ?_ ?_ ?_⟩
      · simp only [view, callbacksOf_act, List.getElem?_set_ne (Ne.symm hj), recordsOf]
      · rw [hpub, h.published, List.map_append, List.map_singleton, hpc]
      · rw [hown]
        refine .committed ⟨node, callback, rest⟩ ⟨node, a.started, []⟩ _ ?_ rfl rfl hlate lateEntries_node.1
          lateEntries_node.2 ?_ ?_
        · exact List.getElem?_set_self hi
        · rw [hearly, List.append_nil, written_append, ← List.append_assoc]
          exact congrArg (· ++ _) hrec.symm
        · exact hcalls.symm.trans (callbacksOf_act i i steps now).symm
      · rw [hcount, howed]
        simp only [perform]
        rw [assemble_counting _ _ _ _ a.metadataOverflowCount]
        omega

theorem reduces_emit {s' : State} {i : Nat} {node : Node} {callback : Nat} {e : LogEntry} {rest : List Action}
    {now : UInt64} (hproc : s.processes[i]? = some ⟨node, callback, .emit e :: rest⟩)
    (hprocs : s'.processes = s.processes.set i ⟨node, callback, rest⟩) (hpub : s'.published = s.published)
    (hcount : s'.metadataOverflowCount = s.metadataOverflowCount)
    (hrecords : s'.records =
      if sys.structuredOutput then s.records ++ [{ e with record := e.record.stamp now }] else s.records)
    (h : Reduces sys (Function.update emitNs i now) steps s atomics a owed) :
    ∃ atomics' a' owed', Reduces sys emitNs (steps ++ [.act i now]) s' atomics' a' owed' := by
  have hi : i < s.processes.length := (List.getElem?_eq_some_iff.mp hproc).1
  have htimes : ∀ j, j ≠ i → emitNs j = Function.update emitNs i now j :=
    fun j hj => (Function.update_of_ne hj ..).symm
  have hnext : s'.processes[i]? = some ⟨node, callback, rest⟩ := by
    rw [hprocs, List.getElem?_set_self hi]
  have hphase := h.phase i hi
  rw [Function.update_self] at hphase
  generalize howed : owed i = k at hphase
  have hstep : ∀ k', e.node = i → k' = owed i →
      CallbackPhase sys a (emitNs i) i (view s' (steps ++ [.act i now]) i)
        (view a (atomics.map AtomicStep.start) i) k' →
      ∃ atomics' a' owed', Reduces sys emitNs (steps ++ [.act i now]) s' atomics' a' owed' := by
    intro k' hnode hk hnew
    obtain ⟨_, hothers⟩ := recordsOf_emit hnode hrecords
    refine ⟨atomics, a, _, h.update hi htimes (by rw [hprocs, List.length_set]) (fun j hj => ?_) h.run h.idle
      (fun _ _ => rfl) List.prefix_rfl (by rw [h.published, hpub]) hnew (by rw [hcount, hk])⟩
    simp only [view, callbacksOf_act, hprocs, List.getElem?_set_ne (Ne.symm hj), hothers j hj]
  cases hphase with
  | committed process q late hv hq hnode hlate hlen hown hrec hcalls =>
    cases hproc.symm.trans hv
    obtain ⟨e', late, rfl⟩ : ∃ e' es, late = e' :: es := by
      cases late with
      | nil => cases hlate
      | cons e' es => exact ⟨e', es, rfl⟩
    obtain ⟨he, hrest⟩ := List.cons.inj hlate
    have hlast : late = [] := List.length_eq_zero_iff.mp (by simpa using hlen)
    subst hlast
    cases Action.emit.inj he
    have hnode' : e.node = i := hown e.content (List.mem_singleton_self _)
    refine hstep 0 hnode' howed.symm (.committed ⟨node, callback, rest⟩ q [] hnext hq hnode hrest (Nat.zero_le 1)
      (List.forall_mem_nil _) ?_ ?_)
    · simp only [view, (recordsOf_emit hnode' hrecords).1] at hrec ⊢
      simpa [written] using hrec
    · simp only [view, callbacksOf_act] at hcalls ⊢
      exact hcalls
  | opened process q event at' nodeEvent o done todo hv hq hevent hcall hearly hpend hrec hcalls =>
    cases hproc.symm.trans hv
    obtain ⟨e', todo, rfl⟩ : ∃ e' es, todo = e' :: es := by
      cases todo with
      | nil => cases hpend
      | cons e' es => exact ⟨e', es, rfl⟩
    obtain ⟨he, hrest⟩ := List.cons.inj hpend
    cases Action.emit.inj he
    have hsource := earlyEntries_source i node.settings.nodeName at' o
    rw [hearly] at hsource
    have hnode' : e.node = i := (hsource e.content (by simp)).2
    refine hstep _ hnode' howed.symm (.opened ⟨node, callback, rest⟩ q event at' nodeEvent o (done ++ [e.content]) todo
      hnext hq hevent hcall (by rw [hearly, List.append_assoc]; rfl) hrest ?_ ?_)
    · -- a source record has the time of its message, whenever it is emitted
      have hdone : ∀ d ∈ done ++ [e.content], d.record.isSource = true := by
        intro d hd
        refine (hsource d ?_).1
        simp only [List.mem_append, List.mem_cons] at hd ⊢
        tauto
      simp only [view, (recordsOf_emit hnode' hrecords).1] at hrec ⊢
      rw [hrec, List.append_assoc, ← written_append, written_source _ hdone, written_source _ hdone]
    · simp only [view, callbacksOf_act] at hcalls ⊢
      exact hcalls

end

theorem reduces_step {sys : System} {steps : List Step} {s s' : State} {e : Step} (hstep : step sys s e = some s')
    (h : ∀ emitNs, ∃ atomics a owed, Reduces sys emitNs steps s atomics a owed) (emitNs : Nat → UInt64) :
    ∃ atomics a owed, Reduces sys emitNs (steps ++ [e]) s' atomics a owed := by
  cases e with
  | start i event now =>
    obtain ⟨_, _, _, hr⟩ := h emitNs
    exact reduces_start hstep hr
  | act i now =>
    obtain ⟨node, callback, rest, ⟨p, hproc, rfl⟩ | ⟨e, hproc, rfl⟩⟩ := act_cases hstep
    · obtain ⟨_, _, _, hr⟩ := h emitNs
      exact reduces_publish now hproc hr
    · obtain ⟨_, _, _, hr⟩ := h (Function.update emitNs i now)
      exact reduces_emit hproc rfl rfl rfl rfl hr

theorem reduces_init (sys : System) (emitNs : Nat → UInt64) :
    Reduces sys emitNs [] (initialState sys) [] (initialState sys) fun _ => 0 := by
  refine ⟨rfl, fun i process hp => ?_, rfl, fun i hi => ?_, by simp⟩
  · simp only [initialState, List.getElem?_map] at hp
    obtain ⟨settings, _, rfl⟩ := Option.map_eq_some_iff.mp hp
    rfl
  · have hproc : (initialState sys).processes[i]? = some ((initialState sys).processes[i]) := List.getElem?_eq_getElem hi
    refine .committed _ _ [] hproc hproc rfl ?_ (Nat.zero_le 1) (List.forall_mem_nil _) ?_ rfl
    · simp [initialState]
    · simp [view, written]

theorem reduces_run {sys : System} {steps : List Step} {s : State} (h : run sys steps = some s) :
    ∀ emitNs, ∃ atomics a owed, Reduces sys emitNs steps s atomics a owed := by
  induction steps using List.reverseRecOn generalizing s with
  | nil =>
    cases h
    exact fun emitNs => ⟨_, _, _, reduces_init sys emitNs⟩
  | append_singleton steps e ih =>
    rw [run, runSteps_append] at h
    obtain ⟨t, ht, hlast⟩ := Option.bind_eq_some_iff.mp h
    obtain ⟨u, hu, hdone⟩ := runSteps_cons.mp hlast
    cases hdone
    exact reduces_step hu (ih ht)

/-- Every run has an atomic run that publishes the same messages in the same
order, and in which each node that is not in a callback has run the same
callbacks, is in the same state and has written the same. -/
theorem run_has_atomicRun {sys : System} {steps : List Step} {s : State} (h : run sys steps = some s) :
    ∃ atomics a, atomicRun sys atomics = some a ∧
      a.published.map Publication.content = s.published.map Publication.content ∧
      (∀ i process, s.processes[i]? = some process → process.pending = [] →
        (∃ q, a.processes[i]? = some q ∧ q.node = process.node) ∧ recordsOf a i = recordsOf s i ∧
          callbacksOf i (atomics.map AtomicStep.start) = callbacksOf i steps) ∧
      (Idle s → a.metadataOverflowCount = s.metadataOverflowCount) := by
  obtain ⟨atomics, a, owed, hr⟩ := reduces_run h fun _ => 0
  refine ⟨atomics, a, hr.run, hr.published, fun i process hproc hpend => ?_, fun hidle => ?_⟩
  · obtain ⟨q, hq, hnode, hrec, hcalls, _⟩ := hr.idle_phase hproc hpend
    exact ⟨⟨q, hq, hnode⟩, hrec, hcalls⟩
  · have hnone : ∀ i ∈ Finset.range s.processes.length, owed i = 0 := by
      intro i hi
      have hproc := List.getElem?_eq_getElem (Finset.mem_range.mp hi)
      obtain ⟨_, _, _, _, _, howed⟩ := hr.idle_phase hproc (hidle i _ hproc)
      exact howed
    rw [hr.count, Finset.sum_eq_zero hnone, Nat.add_zero]

theorem lidarInterleaving_atomic : ∃ s atomics a, run lidarSystem lidarInterleaving = some s ∧
    atomicRun lidarSystem atomics = some a ∧ s.published.length = 3 ∧
    a.published.map Publication.content = s.published.map Publication.content := by
  have hsome : (run lidarSystem lidarInterleaving).map (fun s => s.published.length) = some 3 := by decide
  obtain ⟨s, hs, hlen⟩ := Option.map_eq_some_iff.mp hsome
  obtain ⟨atomics, a, ha, hpub, _⟩ := run_has_atomicRun hs
  exact ⟨s, atomics, a, hs, ha, hlen, hpub⟩

end ReferenceSystem
