import ReferenceSystem.ReductionSound

/-!
# What the nodes consume

A node answers an event from what was delivered to it before, whatever the
other nodes do: a transform or an intersection from the message itself, a
fusion from it and the last message on its second input, and a cyclic node
from the last message on each input since its last timer. `answer` says so
over the events alone, and the nodes are proved to follow it in every run.
-/

namespace ReferenceSystem

/-! ## Deliveries -/

def Event.delivered? (j : Nat) : Event → Option Nat
  | .timer => none
  | .deliver subscription k => if subscription = j then some k else none

/-- The last message delivered on subscription `j`. -/
def lastDelivered (j : Nat) (past : List Event) : Option Nat := (past.filterMap (Event.delivered? j)).getLast?

/-- What has been delivered since the last timer. -/
def sinceTimer (past : List Event) : List Event :=
  past.foldl (fun since event => if event = .timer then [] else since ++ [event]) []

/-- The channel on which a node publishes when `event` follows `past`, and the
positions of the messages it consumes. -/
def answer : NodeSettings → List Event → Event → Option (Nat × List Nat)
  | .sensor _, _, .timer => some (0, [])
  | .transform _, _, .deliver _ k => some (0, [k])
  | .fusion _, past, .deliver 0 k => (lastDelivered 1 past).map fun k₁ => (0, [k, k₁])
  | .cyclic s, past, .timer =>
    some (0, (List.range s.inputs.length).filterMap fun j => lastDelivered j (sinceTimer past))
  | .intersection _, _, .deliver j k => some (j, [k])
  | _, _, _ => none

def answers (settings : NodeSettings) (events : List Event) : List (Nat × List Nat) :=
  (List.range events.length).filterMap fun n => events[n]?.bind (answer settings (events.take n))

theorem lastDelivered_snoc (j : Nat) (past : List Event) (event : Event) :
    lastDelivered j (past ++ [event]) = (event.delivered? j).or (lastDelivered j past) := by
  unfold lastDelivered
  rw [List.filterMap_append, List.getLast?_append, List.filterMap_cons]
  cases event.delivered? j <;> rfl

theorem sinceTimer_snoc (past : List Event) (event : Event) :
    sinceTimer (past ++ [event]) = if event = .timer then [] else sinceTimer past ++ [event] := by
  rw [sinceTimer, List.foldl_append]; rfl

theorem answers_snoc (settings : NodeSettings) (past : List Event) (event : Event) :
    answers settings (past ++ [event]) = answers settings past ++ (answer settings past event).toList := by
  unfold answers
  rw [List.length_append, List.length_singleton, List.range_succ, List.filterMap_append]
  congr 1
  · refine List.filterMap_congr fun n hn => ?_
    have hn := List.mem_range.mp hn
    rw [List.getElem?_append_left hn, List.take_append_of_le_length (Nat.le_of_lt hn)]
  · rw [List.filterMap_cons, List.getElem?_append_right (Nat.le_refl _), List.take_left, Nat.sub_self]
    simp only [List.getElem?_cons_zero, Option.bind_some]
    cases answer settings past event <;> rfl

/-! ## The caches -/

/-- What the caches of a node hold after `past`. -/
def expected : NodeSettings → List Event → Nat → Option Nat
  | .fusion _, past, 0 => lastDelivered 0 past
  | .fusion _, past, 1 => lastDelivered 1 past
  | .cyclic _, past, j => lastDelivered j (sinceTimer past)
  | _, _, _ => none

structure Remembers (node : Node) (past : List Event) : Prop where
  cached : ∀ j, (node.cacheAt j).map (·.publication) = expected node.settings past j
  sized : ∀ n, node = .cyclic n → n.subscriptions.length = n.settings.inputs.length

theorem zipIdx_filterMap {α β : Type} (f : α → Nat → Option β) : ∀ (l : List α) (i : Nat),
    (l.zipIdx i).filterMap (fun p => f p.1 p.2) = (List.range l.length).filterMap fun j => l[j]?.bind (f · (i + j))
  | [], _ => rfl
  | a :: l, i => by
    rw [List.zipIdx_cons, List.filterMap_cons, zipIdx_filterMap f l (i + 1), List.length_cons,
      List.range_succ_eq_map, List.filterMap_cons, List.filterMap_map]
    have hrest : ((fun j => (a :: l)[j]?.bind (f · (i + j))) ∘ Nat.succ) = fun j => l[j]?.bind (f · (i + 1 + j)) := by
      funext j
      simp only [Function.comp_apply, Nat.succ_eq_add_one, List.getElem?_cons_succ]
      rw [Nat.add_assoc, Nat.add_comm 1 j]
    rw [hrest]
    rfl

theorem received_eq (n : Cyclic) : n.received =
    (List.range n.subscriptions.length).filterMap fun j => ((Node.cyclic n).cacheAt j).map (j, ·) := by
  unfold Cyclic.received
  rw [zipIdx_filterMap fun (sub : Subscription) j => sub.cache.map (j, ·)]
  refine List.filterMap_congr fun j _ => ?_
  simp only [Node.cacheAt, Nat.zero_add]
  cases n.subscriptions[j]? <;> rfl

/-! ## One callback -/

def Effect.consumption : Effect → Option (Nat × List Nat)
  | .publish o => some (o.channel, o.inputs.map (·.2.publication))
  | _ => none

inductive Resolves : Event → NodeEvent → Prop
  | timer : Resolves .timer .timer
  | deliver (j : Nat) (r : Received) : Resolves (.deliver j r.publication) (.message j r)

theorem resolveEvent_resolves {s : State} {settings : NodeSettings} {event : Event} {nodeEvent : NodeEvent}
    (h : resolveEvent s settings event = some nodeEvent) : Resolves event nodeEvent := by
  unfold resolveEvent at h
  split at h
  · cases h; exact .timer
  · split at h
    · cases h
    · split at h
      · cases h; exact .deliver _ ⟨_, _⟩
      · cases h

theorem Fires.consumption {benchmarkMode : Bool} {timestamp : UInt64} {node node' : Node} {nodeEvent : NodeEvent}
    {effect : Effect} (h : Fires benchmarkMode timestamp node nodeEvent node' effect) {past : List Event}
    (hm : Remembers node past) {event : Event} (he : Resolves event nodeEvent) :
    effect.consumption = answer node.settings past event := by
  cases h with
  | sensor n => cases he; rfl
  | transform n r => cases he; rfl
  | command n r => cases he; rfl
  | fusionCache n r => cases he; rfl
  | cyclicCache n j r hj => cases he; rfl
  | fusionWait n r hnone =>
    cases he
    have hlast := hm.cached 1
    simp only [Node.cacheAt, hnone, Option.map_none, expected, Node.settings] at hlast
    simp only [answer, Node.settings, ← hlast, Effect.consumption, Option.map_none]
  | fusionTrigger n r c a b o hcache _ _ hin hch =>
    cases he
    have hlast := hm.cached 1
    simp only [Node.cacheAt, hcache, Option.map_some, expected, Node.settings] at hlast
    simp only [answer, Node.settings, ← hlast, Effect.consumption, Option.map_some, hin, hch, List.map_cons,
      List.map_nil]
  | intersection n j r connection settings seqNr o _ _ hin hch =>
    cases he
    simp only [answer, Node.settings, Effect.consumption, hin, hch, List.map_cons, List.map_nil]
  | cyclicTimer n =>
    cases he
    simp only [answer, Node.settings, Effect.consumption, Cyclic.timerCallback, received_eq, hm.sized n rfl,
      List.map_filterMap]
    congr 3
    funext j
    have hlast := hm.cached j
    simp only [expected, Node.settings] at hlast
    rw [← hlast, Option.map_map]
    rfl

theorem Fires.remembers {benchmarkMode : Bool} {timestamp : UInt64} {node node' : Node} {nodeEvent : NodeEvent}
    {effect : Effect} (h : Fires benchmarkMode timestamp node nodeEvent node' effect) {past : List Event}
    (hm : Remembers node past) {event : Event} (he : Resolves event nodeEvent) :
    Remembers node' (past ++ [event]) := by
  refine ⟨fun j => ?_, fun n hn => ?_⟩
  · have hold := hm.cached j
    rw [h.settings]
    cases h with
    | sensor n => rfl
    | transform n r => rfl
    | command n r => rfl
    | intersection n j' r connection settings seqNr o => rfl
    | fusionCache n r =>
      cases he
      match j with
      | 0 =>
        simp only [expected, Node.settings, lastDelivered_snoc, Event.delivered?] at hold ⊢
        exact hold
      | 1 => simp [expected, Node.settings, lastDelivered_snoc, Event.delivered?, Node.cacheAt]
      | _ + 2 => rfl
    | fusionWait n r hnone =>
      cases he
      match j with
      | 0 => simp [expected, Node.settings, lastDelivered_snoc, Event.delivered?, Node.cacheAt]
      | 1 =>
        simp only [expected, Node.settings, lastDelivered_snoc, Event.delivered?] at hold ⊢
        exact hold
      | _ + 2 => rfl
    | fusionTrigger n r c a b o hcache ha hb =>
      cases he
      match j with
      | 0 => simp [expected, Node.settings, lastDelivered_snoc, Event.delivered?, Node.cacheAt, ha]
      | 1 =>
        simp only [expected, Node.settings, lastDelivered_snoc, Event.delivered?, Node.cacheAt, hcache, hb] at hold ⊢
        exact hold
      | _ + 2 => rfl
    | cyclicCache n j' r hj =>
      cases he
      simp only [expected, Node.settings, sinceTimer_snoc, reduceCtorEq, if_false, lastDelivered_snoc,
        Event.delivered?, Node.cacheAt, Cyclic.inputCallback, List.getElem?_modify] at hold ⊢
      by_cases hjj : j' = j
      · subst hjj
        simp [List.getElem?_eq_getElem hj]
      · rw [← hold]
        simp only [hjj, if_false]
        cases n.subscriptions[j]? <;> rfl
    | cyclicTimer n =>
      cases he
      simp only [expected, Node.settings, sinceTimer_snoc, if_true, Node.cacheAt, Cyclic.timerCallback,
        List.map_map, List.getElem?_map]
      cases n.subscriptions[j]? with
      | none => rfl
      | some sub => simp [drain_cache, lastDelivered]
  · cases h with
    | cyclicCache n₀ j r hj =>
      cases hn
      rw [Cyclic.inputCallback, List.length_modify]
      exact hm.sized n₀ rfl
    | cyclicTimer n₀ =>
      cases hn
      simp only [Cyclic.timerCallback, List.length_map]
      exact hm.sized n₀ rfl
    | _ => cases hn

/-! ## Runs -/

def eventsOf (i : Nat) (steps : List Step) : List Event := (callbacksOf i steps).map Prod.fst

theorem eventsOf_act (j i : Nat) (steps : List Step) (now : UInt64) :
    eventsOf j (steps ++ [.act i now]) = eventsOf j steps := by
  rw [eventsOf, callbacksOf_act]; rfl

theorem eventsOf_start (j i : Nat) (steps : List Step) (event : Event) (now : UInt64) :
    eventsOf j (steps ++ [.start i event now]) = eventsOf j steps ++ if i = j then [event] else [] := by
  rw [eventsOf, callbacksOf_snoc, List.map_append]
  congr 1
  simp only [Step.callback?]
  split <;> rfl

def Publication.consumption (p : Publication) : Nat × List Nat := (p.channel, p.inputs)

/-- A node has answered the events of its callbacks, and remembers them. -/
structure Answers (s : State) (steps : List Step) (i : Nat) (process : Process) : Prop where
  remembers : Remembers process.node (eventsOf i steps)
  answered : (outputs s i process).map Publication.consumption = answers process.node.settings (eventsOf i steps)

theorem perform_consumption (sys : System) (s : State) (i : Nat) (nodeName : Bytes) (now : UInt64) (effect : Effect) :
    ((perform sys s i nodeName now effect).1.filterMap Action.publication?).map Publication.consumption =
      effect.consumption.toList := by
  cases effect with
  | publish o => rw [perform, outputActions_publications]; rfl
  | _ => rfl

theorem answers_step {sys : System} {s s' : State} {steps : List Step} {e : Step} (hinv : Inv sys s)
    (h : ∀ i process, s.processes[i]? = some process → Answers s steps i process) (hstep : step sys s e = some s') :
    ∀ i process, s'.processes[i]? = some process → Answers s' (steps ++ [e]) i process := by
  intro j q hq
  cases e with
  | start i event now =>
    obtain ⟨process, nodeEvent, node, effect, hproc, hpend, hevent, hcall, rfl⟩ := start_cases hstep
    rcases getElem?_set_cases hq with ⟨rfl, rfl⟩ | ⟨hj, hq⟩
    · obtain ⟨hm, ho⟩ := h j process hproc
      have hfires := callback_fires hcall
      have hresolves := resolveEvent_resolves hevent
      refine ⟨?_, ?_⟩
      · rw [eventsOf_start, if_pos rfl]
        exact hfires.remembers hm hresolves
      · rw [eventsOf_start, if_pos rfl, hfires.settings, answers_snoc, ← ho, ← hfires.consumption hm hresolves,
          ← perform_consumption sys s j node.settings.nodeName now effect]
        simp [outputs, hpend, hfires.settings]
    · have hsame : eventsOf j (steps ++ [.start i event now]) = eventsOf j steps := by
        rw [eventsOf_start, if_neg (Ne.symm hj), List.append_nil]
      obtain ⟨hm, ho⟩ := h j q hq
      exact ⟨by rw [hsame]; exact hm, by rw [hsame]; exact ho⟩
  | act i now =>
    obtain ⟨node, callback, rest, ⟨p, hproc, rfl⟩ | ⟨e, hproc, rfl⟩⟩ := act_cases hstep
    · have hnode := (hinv.pending i _ hproc p (List.mem_cons_self ..)).1
      rcases getElem?_set_cases hq with ⟨rfl, rfl⟩ | ⟨hj, hq⟩
      · obtain ⟨hm, ho⟩ := h j _ hproc
        refine ⟨by rw [eventsOf_act]; exact hm, ?_⟩
        rw [eventsOf_act, ← ho]
        simp [outputs, hnode, Action.publication?]
      · obtain ⟨hm, ho⟩ := h j q hq
        refine ⟨by rw [eventsOf_act]; exact hm, ?_⟩
        rw [eventsOf_act, ← ho]
        have hne : p.node ≠ j := fun e => hj (e.symm.trans hnode)
        simp [outputs, hne]
    · rcases getElem?_set_cases hq with ⟨rfl, rfl⟩ | ⟨_, hq⟩
      · obtain ⟨hm, ho⟩ := h j _ hproc
        exact ⟨by rw [eventsOf_act]; exact hm, by rw [eventsOf_act]; exact ho⟩
      · obtain ⟨hm, ho⟩ := h j q hq
        exact ⟨by rw [eventsOf_act]; exact hm, by rw [eventsOf_act]; exact ho⟩

theorem answers_init (sys : System) : ∀ i process, (initialState sys).processes[i]? = some process →
    Answers (initialState sys) [] i process := by
  intro i process hp
  simp only [initialState, List.getElem?_map] at hp
  obtain ⟨settings, _, rfl⟩ := Option.map_eq_some_iff.mp hp
  refine ⟨⟨fun j => ?_, fun n hn => ?_⟩, rfl⟩
  · rw [create_cacheAt, create_settings]
    cases settings with
    | fusion s => rcases j with _ | _ | j <;> rfl
    | _ => rfl
  · cases settings with
    | cyclic s => cases hn; exact List.length_map ..
    | _ => cases hn

/-- In every interleaving the messages of a node are its answers to the events
it has been given, in their order. -/
theorem run_answers {sys : System} {steps : List Step} {s : State} (h : run sys steps = some s) {i : Nat}
    {process : Process} (hproc : s.processes[i]? = some process) :
    (outputs s i process).map Publication.consumption = answers process.node.settings (eventsOf i steps) := by
  have key : ∀ i process, s.processes[i]? = some process → Answers s steps i process := by
    clear hproc process i
    induction steps using List.reverseRecOn generalizing s with
    | nil => cases h; exact answers_init sys
    | append_singleton steps e ih =>
      rw [run, runSteps_append] at h
      obtain ⟨t, ht, hlast⟩ := Option.bind_eq_some_iff.mp h
      obtain ⟨u, hu, hdone⟩ := runSteps_cons.mp hlast
      cases hdone
      exact answers_step (inv_run ht) (ih ht) hu
  exact (key i process hproc).answered

theorem lidarInterleaving_answers : ∃ s process, run lidarSystem lidarInterleaving = some s ∧
    s.processes[2]? = some process ∧
    (outputs s 2 process).map Publication.consumption = answers process.node.settings [.deliver 1 0, .deliver 0 1] := by
  have hsome : ((run lidarSystem lidarInterleaving).bind fun s => s.processes[2]?).isSome = true := by decide
  obtain ⟨process, hp⟩ := Option.isSome_iff_exists.mp hsome
  obtain ⟨s, hs, hproc⟩ := Option.bind_eq_some_iff.mp hp
  exact ⟨s, process, hs, hproc, run_answers hs hproc⟩

end ReferenceSystem
