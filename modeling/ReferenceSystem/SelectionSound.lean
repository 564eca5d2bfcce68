import ReferenceSystem.Best
import ReferenceSystem.Selection

/-!
# What a selection by priority takes

The scan of a kind finds the first of its callbacks with the highest priority
among those of groups that can be taken from, and the comparison of the kinds
the first such callback of all. The group is the one of the last kind that had
a candidate.
-/

namespace ReferenceSystem

/-! ## Candidates -/

structure Candidate where
  kind : Kind
  entity : Executable
  group : CallbackGroup
  deriving DecidableEq, Repr

def Candidate.priority (x : Candidate) : Int := x.entity.callbackPriority

def Context.candidate (c : Context) (k : Kind) (e : Executable) : Option Candidate :=
  (getGroupByEntity k e c.weakGroupsToNodes).bind fun group =>
    if c.canBeTakenFrom group.id then some ⟨k, e, group⟩ else none

def Context.scan {η : Type} (c : Context) (k : Kind) (byHandle : η → Option Executable) (handles : List η) :
    List Candidate :=
  handles.filterMap fun handle => (byHandle handle).bind (c.candidate k)

/-- The ready timers on which `call` is invoked. -/
def Context.callable (c : Context) (m : MemoryStrategy) : List Candidate :=
  c.scan .timer (getEntityByHandle .timer · c.weakGroupsToNodes) m.timerHandles

/-- The callbacks of a kind that a selection may take, in the order of their handles. -/
def Context.eligible (c : Context) (m : MemoryStrategy) : Kind → List Candidate
  | .timer => (c.callable m).filter fun x => !c.canceled x.entity.handle
  | .subscription => c.scan .subscription (getEntityByHandle .subscription · c.weakGroupsToNodes) m.subscriptionHandles
  | .service => c.scan .service (getEntityByHandle .service · c.weakGroupsToNodes) m.serviceHandles
  | .client => c.scan .client (getEntityByHandle .client · c.weakGroupsToNodes) m.clientHandles
  | .waitable => c.scan .waitable some m.waitableHandles

/-- All of them, in the order timer, subscription, service, client, waitable. -/
def Context.candidates (c : Context) (m : MemoryStrategy) : List Candidate :=
  c.eligible m .timer ++ c.eligible m .subscription ++ c.eligible m .service ++ c.eligible m .client ++
    c.eligible m .waitable

/-- The first candidate of the highest priority. -/
def Context.first (c : Context) (m : MemoryStrategy) : Option Candidate :=
  bestOf Candidate.priority none (c.candidates m)

def Context.firstOf (c : Context) (m : MemoryStrategy) (k : Kind) : Option Candidate :=
  bestOf Candidate.priority none (c.eligible m k)

/-- The first candidate of the highest priority of the last kind that has one. -/
def Context.lastProbed (c : Context) (m : MemoryStrategy) : Option Candidate :=
  c.firstOf m .waitable <|> c.firstOf m .client <|> c.firstOf m .service <|> c.firstOf m .subscription <|>
    c.firstOf m .timer

def priorityOf (best : Option Candidate) : Int := best.elim (-1) Candidate.priority

/-! ## Fields of an executable -/

namespace AnyExecutable

theorem ext_entity {a b : AnyExecutable} (he : ∀ k, a.entity k = b.entity k)
    (hg : a.callbackGroup = b.callbackGroup) (hn : a.nodeBase = b.nodeBase) (hd : a.data = b.data) : a = b := by
  cases a; cases b
  have h1 := he .timer; have h2 := he .subscription; have h3 := he .service
  have h4 := he .client; have h5 := he .waitable
  simp only [entity] at h1 h2 h3 h4 h5
  simp only at hg hn hd
  subst h1 h2 h3 h4 h5 hg hn hd
  rfl

@[simp] theorem entity_setEntity (a : AnyExecutable) (k k' : Kind) (e : Option Executable) :
    (a.setEntity k e).entity k' = if k' = k then e else a.entity k' := by
  cases k <;> cases k' <;> rfl

@[simp] theorem callbackGroup_setEntity (a : AnyExecutable) (k : Kind) (e : Option Executable) :
    (a.setEntity k e).callbackGroup = a.callbackGroup := by cases k <;> rfl

@[simp] theorem nodeBase_setEntity (a : AnyExecutable) (k : Kind) (e : Option Executable) :
    (a.setEntity k e).nodeBase = a.nodeBase := by cases k <;> rfl

@[simp] theorem data_setEntity (a : AnyExecutable) (k : Kind) (e : Option Executable) :
    (a.setEntity k e).data = a.data := by cases k <;> rfl

section
variable (a : AnyExecutable) (k : Kind) (e : Executable) (g : CallbackGroup) (m : WeakCallbackGroupsToNodesMap)

@[simp] theorem entity_take (k' : Kind) :
    (a.take k e g m).entity k' = if k' = k then some e else a.entity k' :=
  entity_setEntity a k k' (some e)

@[simp] theorem data_take : (a.take k e g m).data = a.data := data_setEntity a k (some e)

theorem take_take (e' : Executable) (g' : CallbackGroup) :
    (a.take k e g m).take k e' g' m = a.take k e' g' m := by
  refine ext_entity (fun k' => ?_) rfl rfl ?_
  · simp only [entity_take]; split <;> rfl
  · simp only [data_take]

end

theorem foldl_clear (losers : List Kind) (a : AnyExecutable) :
    (∀ k, (losers.foldl (fun a loser => a.setEntity loser none) a).entity k =
      if k ∈ losers then none else a.entity k) ∧
    (losers.foldl (fun a loser => a.setEntity loser none) a).callbackGroup = a.callbackGroup ∧
    (losers.foldl (fun a loser => a.setEntity loser none) a).nodeBase = a.nodeBase ∧
    (losers.foldl (fun a loser => a.setEntity loser none) a).data = a.data := by
  induction losers generalizing a with
  | nil => exact ⟨fun k => by simp, rfl, rfl, rfl⟩
  | cons loser losers ih =>
    obtain ⟨he, hg, hn, hd⟩ := ih (a.setEntity loser none)
    refine ⟨fun k => ?_, ?_, ?_, ?_⟩
    · rw [List.foldl_cons, he k, entity_setEntity]
      by_cases hk : k = loser
      · simp [hk]
      · simp [hk]
    · rw [List.foldl_cons, hg, callbackGroup_setEntity]
    · rw [List.foldl_cons, hn, nodeBase_setEntity]
    · rw [List.foldl_cons, hd, data_setEntity]

def takeBest (a : AnyExecutable) (best : Option Candidate) (m : WeakCallbackGroupsToNodesMap) : AnyExecutable :=
  best.elim a fun x => a.take x.kind x.entity x.group m

end AnyExecutable

/-! ## One scan -/

section
variable {c : Context} (hc : c.callbackPriorityEnabled = true)

theorem scan_kind {η : Type} {k : Kind} {byHandle : η → Option Executable} {handles : List η} {x : Candidate}
    (hx : x ∈ c.scan k byHandle handles) : x.kind = k := by
  obtain ⟨handle, _, h⟩ := List.mem_filterMap.mp hx
  obtain ⟨e, _, h⟩ := Option.bind_eq_some_iff.mp h
  obtain ⟨g, _, h⟩ := Option.bind_eq_some_iff.mp h
  split at h
  · cases h; rfl
  · cases h

theorem takeBest_step {a : AnyExecutable} {k : Kind} (ha : a.entity k = none) {best best' : Option Candidate}
    (hk : ∀ x ∈ best, x.kind = k) (e : Executable) (g : CallbackGroup) (m : WeakCallbackGroupsToNodesMap)
    (hbest : bestOf Candidate.priority best [⟨k, e, g⟩] = best') :
    (∀ x ∈ best', x.kind = k) ∧
    (((a.takeBest best m).entity k = none ∨ e.callbackPriority > priorityOf best) ∧
        e.callbackPriority = priorityOf best' ∧ (a.takeBest best m).take k e g m = a.takeBest best' m ∨
      ¬ ((a.takeBest best m).entity k = none ∨ e.callbackPriority > priorityOf best) ∧ best' = best) := by
  cases best with
  | none =>
    cases hbest
    exact ⟨fun x hx => by cases hx; rfl, Or.inl ⟨Or.inl ha, rfl, rfl⟩⟩
  | some y =>
    obtain ⟨_, e', g'⟩ := y
    cases hk _ rfl
    rw [bestOf_some_cons, bestOf_nil] at hbest
    split at hbest
    · rename_i hlt
      cases hbest
      exact ⟨fun x hx => by cases hx; rfl, Or.inl ⟨Or.inr hlt, rfl, AnyExecutable.take_take a _ e' g' m e g⟩⟩
    · rename_i hlt
      cases hbest
      refine ⟨hk, Or.inr ⟨?_, rfl⟩⟩
      rintro (h | h)
      · simp [AnyExecutable.takeBest] at h
      · exact hlt h

theorem scan_cons {η : Type} (k : Kind) (byHandle : η → Option Executable) (handle : η) (handles : List η) :
    c.scan k byHandle (handle :: handles) =
      ((byHandle handle).bind (c.candidate k)).toList ++ c.scan k byHandle handles := by
  rw [Context.scan, List.filterMap_cons]
  cases (byHandle handle).bind (c.candidate k) <;> rfl

include hc in
/-- **The scan of a kind** takes the best of its candidates. -/
theorem getNextLoop_takes {η : Type} (k : Kind) (byHandle : η → Option Executable) {a : AnyExecutable}
    (ha : a.entity k = none) : ∀ (handles : List η) (best : Option Candidate), (∀ x ∈ best, x.kind = k) →
    (getNextLoop c k byHandle handles (priorityOf best) (a.takeBest best c.weakGroupsToNodes)).1 =
      a.takeBest (bestOf Candidate.priority best (c.scan k byHandle handles)) c.weakGroupsToNodes
  | [], best, _ => by rw [getNextLoop, Context.scan, List.filterMap_nil, bestOf_nil]
  | handle :: handles, best, hk => by
    have ih := getNextLoop_takes k byHandle ha handles
    rw [scan_cons, getNextLoop]
    cases hb : byHandle handle with
    | none => exact ih best hk
    | some e =>
      simp only [Option.bind_some, Context.candidate]
      cases hg : getGroupByEntity k e c.weakGroupsToNodes with
      | none => exact ih best hk
      | some g =>
        cases hf : c.canBeTakenFrom g.id with
        | false => simpa [hf] using ih best hk
        | true =>
          simp only [hf, hc, Option.bind_some, Bool.not_true, Bool.false_eq_true, if_false, if_true,
            Option.toList_some]
          rw [← bestOf_bestOf]
          obtain ⟨hk', ⟨hcond, hp, ht⟩ | ⟨hcond, hb'⟩⟩ := takeBest_step ha hk e g c.weakGroupsToNodes rfl
          · rw [if_pos hcond, hp, ht, ih _ hk']
          · rw [if_neg hcond, hb', ih best hk]

include hc in
/-- **The scan of the timers** also calls each timer that it could take. -/
theorem getNextTimerLoop_takes {a : AnyExecutable} (ha : a.timer = none) :
    ∀ (handles : List Nat) (best : Option Candidate), (∀ x ∈ best, x.kind = .timer) →
    let r := getNextTimerLoop c handles (priorityOf best) (a.takeBest best c.weakGroupsToNodes)
    let called := c.scan .timer (getEntityByHandle .timer · c.weakGroupsToNodes) handles
    r.1 = a.takeBest (bestOf Candidate.priority best (called.filter fun x => !c.canceled x.entity.handle))
      c.weakGroupsToNodes ∧
    r.2.2 = called.map fun x => ⟨x.entity.handle, !c.canceled x.entity.handle⟩
  | [], best, _ => ⟨by rw [getNextTimerLoop, Context.scan, List.filterMap_nil, List.filter_nil, bestOf_nil], rfl⟩
  | handle :: handles, best, hk => by
    have ih := getNextTimerLoop_takes ha handles
    simp only
    rw [scan_cons, getNextTimerLoop]
    cases hb : getEntityByHandle .timer handle c.weakGroupsToNodes with
    | none => exact ih best hk
    | some e =>
      simp only [Option.bind_some, Context.candidate]
      cases hg : getGroupByEntity .timer e c.weakGroupsToNodes with
      | none => exact ih best hk
      | some g =>
        cases hf : c.canBeTakenFrom g.id with
        | false => simpa [hf] using ih best hk
        | true =>
          cases hcan : c.canceled e.handle with
          | true => simpa [hf, hcan] using ih best hk
          | false =>
            simp only [hf, hc, hcan, Option.bind_some, Bool.not_true, Bool.not_false, Bool.false_eq_true,
              if_false, if_true, Option.toList_some, List.singleton_append, List.filter_cons, List.map_cons]
            rw [bestOf_cons]
            obtain ⟨hk', ⟨hcond, hp, ht⟩ | ⟨hcond, hb'⟩⟩ :=
              takeBest_step (k := .timer) ha hk e g c.weakGroupsToNodes rfl
            · obtain ⟨ih1, ih2⟩ := ih _ hk'
              change (a.takeBest best _).timer = none ∨ _ at hcond
              rw [if_pos hcond, hp, ht]
              exact ⟨ih1, congrArg _ ih2⟩
            · obtain ⟨ih1, ih2⟩ := ih best hk
              change ¬ ((a.takeBest best _).timer = none ∨ _) at hcond
              rw [if_neg hcond, hb']
              exact ⟨ih1, congrArg _ ih2⟩

end

/-! ## The comparison of the kinds -/

/-- The fields once the kinds so far are compared: the callback of one
candidate with the group of another. -/
def chosen (m : WeakCallbackGroupsToNodesMap) (best last : Option Candidate) : AnyExecutable :=
  { best.elim ({} : AnyExecutable) fun x => ({} : AnyExecutable).setEntity x.kind (some x.entity) with
    callbackGroup := last.map (·.group)
    nodeBase := last.bind fun x => getNodeByGroup x.group m }

section
variable {m : WeakCallbackGroupsToNodesMap} {best last new : Option Candidate}

@[simp] theorem entity_chosen (m : WeakCallbackGroupsToNodesMap) (best last : Option Candidate) (k : Kind) :
    (chosen m best last).entity k = best.bind fun x => if k = x.kind then some x.entity else none := by
  cases best with
  | none => cases k <;> rfl
  | some x =>
    refine (AnyExecutable.entity_setEntity {} x.kind k (some x.entity)).trans ?_
    rw [Option.bind_some]
    split
    · rfl
    · cases k <;> rfl

@[simp] theorem callbackGroup_chosen : (chosen m best last).callbackGroup = last.map (·.group) := rfl

@[simp] theorem data_chosen : (chosen m best last).data = none := by
  cases best with
  | none => rfl
  | some x => exact AnyExecutable.data_setEntity {} x.kind (some x.entity)

theorem takeBest_empty : ({} : AnyExecutable).takeBest best m = chosen m best best := by
  cases best <;> rfl

theorem chosen_none {k : Kind} (hbest : ∀ x ∈ best, x.kind ≠ k) : (chosen m best last).entity k = none := by
  rw [entity_chosen]
  cases best with
  | none => rfl
  | some x => rw [Option.bind_some, if_neg (hbest x rfl).symm]

/-- **The comparison of a kind**: the better callback, the newer group. -/
theorem keepHighest_chosen {k : Kind} {losers : List Kind} (last new : Option Candidate) (hk : k ∉ losers)
    (hbest : ∀ x ∈ best, x.kind ∈ losers) (hnew : ∀ x ∈ new, x.kind = k ∧ 0 ≤ x.priority) :
    keepHighest k losers (priorityOf best) ((chosen m best last).takeBest new m) =
      (chosen m (bestOf Candidate.priority best new.toList) (new <|> last),
        priorityOf (bestOf Candidate.priority best new.toList)) := by
  have hnone : (chosen m best last).entity k = none :=
    chosen_none fun x hx hxk => hk (hxk ▸ hbest x hx)
  cases new with
  | none =>
    have hb : (chosen m best last).takeBest none m = chosen m best last := rfl
    rw [keepHighest, hb, hnone, Option.toList_none, bestOf_nil]
    rfl
  | some x =>
    obtain ⟨hxk, hx0⟩ := hnew x rfl
    obtain ⟨k', e, g⟩ := x
    obtain rfl : k = k' := hxk.symm
    change 0 ≤ e.callbackPriority at hx0
    have hentity : ((chosen m best last).takeBest (some ⟨k, e, g⟩) m).entity k = some e := by
      simp [AnyExecutable.takeBest]
    rw [keepHighest, hentity, Option.toList_some]
    dsimp only
    by_cases hlt : priorityOf best < e.callbackPriority
    · have hb : bestOf Candidate.priority best [⟨k, e, g⟩] = some ⟨k, e, g⟩ := by
        cases best with
        | none => rfl
        | some y => rw [bestOf_some_cons, bestOf_nil]; exact congrArg some (if_pos hlt)
      rw [if_pos hlt, hb]
      refine Prod.ext (AnyExecutable.ext_entity (fun k' => ?_) ?_ ?_ ?_) rfl
      · rw [(AnyExecutable.foldl_clear losers _).1 k', entity_chosen, Option.bind_some]
        simp only [AnyExecutable.takeBest, Option.elim_some, AnyExecutable.entity_take, entity_chosen]
        split
        · rename_i hk'
          have hne : k' ≠ k := fun h => hk (h ▸ hk')
          rw [if_neg hne]
        · rename_i hk'
          split
          · rfl
          · cases best with
            | none => rfl
            | some y =>
              have hne : k' ≠ y.kind := fun h => hk' (h ▸ hbest y rfl)
              rw [Option.bind_some, if_neg hne]
      · exact (AnyExecutable.foldl_clear losers _).2.1
      · exact (AnyExecutable.foldl_clear losers _).2.2.1
      · rw [(AnyExecutable.foldl_clear losers _).2.2.2, data_chosen]
        exact (AnyExecutable.data_take _ _ _ _ _).trans data_chosen
    · cases best with
      | none => exact absurd (show (-1 : Int) < e.callbackPriority by omega) hlt
      | some y =>
        have hb : bestOf Candidate.priority (some y) [⟨k, e, g⟩] = some y := by
          rw [bestOf_some_cons, bestOf_nil]; exact congrArg some (if_neg hlt)
        rw [if_neg hlt, hb]
        refine Prod.ext (AnyExecutable.ext_entity (fun k' => ?_) ?_ ?_ ?_) rfl
        · simp only [AnyExecutable.takeBest, Option.elim_some, AnyExecutable.entity_setEntity,
            AnyExecutable.entity_take, entity_chosen]
          split
          · rename_i hk'
            have hne : k' ≠ y.kind := fun h => hk (hk' ▸ h ▸ hbest y rfl)
            rw [Option.bind_some, if_neg hne]
          · rfl
        · exact AnyExecutable.callbackGroup_setEntity _ _ _
        · exact AnyExecutable.nodeBase_setEntity _ _ _
        · rw [AnyExecutable.data_setEntity, data_chosen]
          exact (AnyExecutable.data_take _ _ _ _ _).trans data_chosen

end

section
variable {c : Context} {m : MemoryStrategy} (hc : c.callbackPriorityEnabled = true)
  (hn : ∀ x ∈ c.candidates m, 0 ≤ x.priority)

theorem eligible_candidates {k : Kind} {x : Candidate} (hx : x ∈ c.eligible m k) : x ∈ c.candidates m := by
  unfold Context.candidates
  simp only [List.mem_append]
  cases k <;> simp [hx]

theorem eligible_kind {k : Kind} {x : Candidate} (hx : x ∈ c.eligible m k) : x.kind = k := by
  cases k with
  | timer => exact scan_kind (List.mem_filter.mp hx).1
  | subscription | service | client | waitable => exact scan_kind hx

theorem firstOf_eligible {k : Kind} {x : Candidate} (hx : x ∈ c.firstOf m k) : x ∈ c.eligible m k :=
  mem_of_best hx

include hc hn in
theorem probe_chosen {η : Type} {k : Kind} {losers : List Kind} {byHandle : η → Option Executable}
    {handles : List η} (he : c.eligible m k = c.scan k byHandle handles) (hk : k ∉ losers)
    {best : Option Candidate} (last : Option Candidate) (hbest : ∀ x ∈ best, x.kind ∈ losers) :
    keepHighest k losers (priorityOf best)
      (getNextLoop c k byHandle handles (-1) (chosen c.weakGroupsToNodes best last)).1 =
        (chosen c.weakGroupsToNodes (bestOf Candidate.priority best (c.eligible m k)) (c.firstOf m k <|> last),
          priorityOf (bestOf Candidate.priority best (c.eligible m k))) := by
  have hnone : (chosen c.weakGroupsToNodes best last).entity k = none :=
    chosen_none fun x hx hxk => hk (hxk ▸ hbest x hx)
  have hscan := getNextLoop_takes hc k byHandle hnone handles none (by simp)
  rw [← he] at hscan
  have hkeep := keepHighest_chosen (m := c.weakGroupsToNodes) last (c.firstOf m k) hk hbest
    fun x hx => ⟨eligible_kind (firstOf_eligible hx), hn x (eligible_candidates (firstOf_eligible hx))⟩
  rw [Context.firstOf, bestOf_toList] at hkeep
  exact (congrArg _ hscan).trans hkeep

theorem bestOf_kind {k : Kind} {losers : List Kind} {best : Option Candidate} (hbest : ∀ x ∈ best, x.kind ∈ losers) :
    ∀ x ∈ bestOf Candidate.priority best (c.eligible m k), x.kind ∈ losers ++ [k] := by
  intro x hx
  rw [List.mem_append, List.mem_singleton]
  rcases bestOf_mem hx with h | h
  · exact Or.inl (hbest x h)
  · exact Or.inr (eligible_kind h)

theorem firstOf_timer_priority : (chosen c.weakGroupsToNodes (c.firstOf m .timer) (c.firstOf m .timer)).timer.elim
    (-1) (·.callbackPriority) = priorityOf (c.firstOf m .timer) := by
  have h := entity_chosen c.weakGroupsToNodes (c.firstOf m .timer) (c.firstOf m .timer) .timer
  refine (congrArg (Option.elim · (-1) (·.callbackPriority)) h).trans ?_
  cases hf : c.firstOf m .timer with
  | none => rfl
  | some x => rw [Option.bind_some, if_pos (eligible_kind (firstOf_eligible hf)).symm]; rfl

theorem first_bestOf : bestOf Candidate.priority (bestOf Candidate.priority (bestOf Candidate.priority
    (bestOf Candidate.priority (c.firstOf m .timer) (c.eligible m .subscription)) (c.eligible m .service))
    (c.eligible m .client)) (c.eligible m .waitable) = c.first m := by
  have h : c.firstOf m .timer = bestOf Candidate.priority none (c.eligible m .timer) := rfl
  simp only [h, bestOf_bestOf, Context.first, Context.candidates, List.append_assoc]

include hc hn in
/-- **A selection by priority** takes the first callback of the highest
priority, with the group of the last kind that it probed successfully. -/
theorem getHighestPriority_chosen :
    let r := getHighestPriority c { memoryStrategy := m }
    r.1.anyExecutable = (chosen c.weakGroupsToNodes (c.first m) (c.lastProbed m)).takeData ∧
    r.2 = priorityOf (c.first m) ∧
    r.1.calls = (c.callable m).map fun x => ⟨x.entity.handle, !c.canceled x.entity.handle⟩ := by
  obtain ⟨ht, hcalls⟩ := getNextTimerLoop_takes hc (a := {}) rfl m.timerHandles none (by simp)
  have e1 : (getNextTimerLoop c m.timerHandles (-1) {}).1 =
      chosen c.weakGroupsToNodes (c.firstOf m .timer) (c.firstOf m .timer) := ht.trans takeBest_empty
  have k1 : ∀ x ∈ c.firstOf m .timer, x.kind ∈ [Kind.timer] := fun x hx => by
    simp [eligible_kind (firstOf_eligible hx)]
  have e2 := probe_chosen hc hn (k := .subscription) rfl (by decide) (c.firstOf m .timer) k1
  have k2 := bestOf_kind (c := c) (m := m) (k := .subscription) k1
  have e3 := probe_chosen hc hn (k := .service) rfl (by decide)
    (c.firstOf m .subscription <|> c.firstOf m .timer) k2
  have k3 := bestOf_kind (c := c) (m := m) (k := .service) k2
  have e4 := probe_chosen hc hn (k := .client) rfl (by decide)
    (c.firstOf m .service <|> c.firstOf m .subscription <|> c.firstOf m .timer) k3
  have k4 := bestOf_kind (c := c) (m := m) (k := .client) k3
  have e5 := probe_chosen hc hn (k := .waitable) rfl (by decide)
    (c.firstOf m .client <|> c.firstOf m .service <|> c.firstOf m .subscription <|> c.firstOf m .timer) k4
  simp only [List.cons_append, List.nil_append] at e3 e4 e5
  simp only [getHighestPriority, getNextTimer, getNextSubscription, getNextService, getNextClient,
    getNextWaitable, e1, firstOf_timer_priority, e2, e3, e4, e5, first_bestOf]
  exact ⟨rfl, trivial, hcalls⟩

end

/-! ## The callback returned and the group marked -/

def NonNegative (weakGroupsToNodes : WeakCallbackGroupsToNodesMap) : Prop :=
  ∀ pair ∈ weakGroupsToNodes, ∀ group ∈ pair.1, ∀ k, ∀ e ∈ group.ptrs k, 0 ≤ e.callbackPriority

section
variable {c : Context} {m : MemoryStrategy}

theorem getGroupByEntity_found {k : Kind} {e : Executable} {w : WeakCallbackGroupsToNodesMap} {g : CallbackGroup}
    (h : getGroupByEntity k e w = some g) : (∃ node, (some g, some node) ∈ w) ∧ e ∈ g.ptrs k := by
  obtain ⟨⟨group, node⟩, hmem, hsome⟩ := List.exists_of_findSome?_eq_some h
  obtain ⟨g', rfl, hsome⟩ := Option.bind_eq_some_iff.mp hsome
  obtain ⟨n, rfl, hsome⟩ := Option.bind_eq_some_iff.mp hsome
  split at hsome
  · rename_i hin
    cases hsome
    exact ⟨⟨n, hmem⟩, hin⟩
  · cases hsome

theorem scan_found {η : Type} {k : Kind} {byHandle : η → Option Executable} {handles : List η} {x : Candidate}
    (hx : x ∈ c.scan k byHandle handles) :
    ∃ handle ∈ handles, byHandle handle = some x.entity ∧ (∃ node, (some x.group, some node) ∈ c.weakGroupsToNodes) ∧
      x.entity ∈ x.group.ptrs x.kind ∧ c.canBeTakenFrom x.group.id = true := by
  obtain ⟨handle, hmem, h⟩ := List.mem_filterMap.mp hx
  obtain ⟨e, hb, h⟩ := Option.bind_eq_some_iff.mp h
  obtain ⟨g, hg, h⟩ := Option.bind_eq_some_iff.mp h
  split at h
  · rename_i hf
    cases h
    exact ⟨handle, hmem, hb, (getGroupByEntity_found hg).1, (getGroupByEntity_found hg).2, hf⟩
  · cases h

theorem candidates_eligible {x : Candidate} (hx : x ∈ c.candidates m) : ∃ k, x ∈ c.eligible m k := by
  simp only [Context.candidates, List.mem_append] at hx
  rcases hx with (((h | h) | h) | h) | h
  exacts [⟨_, h⟩, ⟨_, h⟩, ⟨_, h⟩, ⟨_, h⟩, ⟨_, h⟩]

theorem candidates_found {x : Candidate} (hx : x ∈ c.candidates m) :
    (∃ node, (some x.group, some node) ∈ c.weakGroupsToNodes) ∧ x.entity ∈ x.group.ptrs x.kind ∧
      c.canBeTakenFrom x.group.id = true := by
  obtain ⟨k, hk⟩ := candidates_eligible hx
  cases k with
  | timer =>
    obtain ⟨_, _, _, h⟩ := scan_found (List.mem_filter.mp hk).1
    exact h
  | subscription | service | client | waitable =>
    obtain ⟨_, _, _, h⟩ := scan_found hk
    exact h

theorem NonNegative.candidates (hn : NonNegative c.weakGroupsToNodes) :
    ∀ x ∈ c.candidates m, 0 ≤ x.priority := by
  intro x hx
  obtain ⟨⟨node, hmem⟩, hin, _⟩ := candidates_found hx
  exact hn _ hmem _ rfl _ _ hin

theorem lastProbed_candidates {y : Candidate} (hy : c.lastProbed m = some y) : y ∈ c.candidates m := by
  have hk : ∃ k, c.firstOf m k = some y := by
    simp only [Context.lastProbed, Option.orElse_eq_orElse, Option.orElse_eq_or, Option.or_eq_some_iff] at hy
    rcases hy with h | ⟨_, h | ⟨_, h | ⟨_, h | ⟨_, h⟩⟩⟩⟩
    exacts [⟨_, h⟩, ⟨_, h⟩, ⟨_, h⟩, ⟨_, h⟩, ⟨_, h⟩]
  obtain ⟨k, hk⟩ := hk
  exact eligible_candidates (firstOf_eligible hk)

theorem lastProbed_none : c.lastProbed m = none ↔ c.candidates m = [] := by
  simp only [Context.lastProbed, Option.orElse_eq_orElse, Option.orElse_eq_or, Option.or_eq_none_iff,
    Context.firstOf, best_eq_none, Context.candidates, List.append_eq_nil_iff]
  constructor
  · rintro ⟨h5, h4, h3, h2, h1⟩; exact ⟨⟨⟨⟨h1, h2⟩, h3⟩, h4⟩, h5⟩
  · rintro ⟨⟨⟨⟨h1, h2⟩, h3⟩, h4⟩, h5⟩; exact ⟨h5, h4, h3, h2, h1⟩

@[simp] theorem entity_takeData (a : AnyExecutable) (k : Kind) : a.takeData.entity k = a.entity k := by
  unfold AnyExecutable.takeData
  split
  · rfl
  · cases k <;> rfl

@[simp] theorem callbackGroup_takeData (a : AnyExecutable) : a.takeData.callbackGroup = a.callbackGroup := by
  unfold AnyExecutable.takeData
  split <;> rfl

/-- What a call of `get_next_ready_executable_from_map` leaves when nothing is eligible. -/
structure NothingReady (c : Context) (m : MemoryStrategy) (r : NextReady) : Prop where
  none_eligible : c.candidates m = []
  success : r.success = false
  anyExecutable : r.selection.anyExecutable = {}
  canBeTakenFrom : r.canBeTakenFrom = c.canBeTakenFrom

/-- What it leaves when it takes `x`, having probed `y` last. -/
structure Taken (c : Context) (m : MemoryStrategy) (x y : Candidate) (r : NextReady) : Prop where
  first : c.first m = some x
  last : c.lastProbed m = some y
  success : r.success = true
  entity : ∀ k, r.selection.anyExecutable.entity k = if k = x.kind then some x.entity else none
  callbackGroup : r.selection.anyExecutable.callbackGroup = some y.group
  canBeTakenFrom : r.canBeTakenFrom =
    if y.group.type = .mutuallyExclusive then storeFlag c.canBeTakenFrom y.group.id false else c.canBeTakenFrom

theorem takeGroup_known {s : Selection} {g : CallbackGroup} {node : Option Nat}
    (hs : s.anyExecutable.callbackGroup = some g) (hg : (some g, node) ∈ c.weakGroupsToNodes) :
    takeGroup c true s = ⟨true, s,
      if g.type = .mutuallyExclusive then storeFlag c.canBeTakenFrom g.id false else c.canBeTakenFrom⟩ := by
  have hany : (c.weakGroupsToNodes.any fun pair => pair.1.map (·.id) = some g.id) = true :=
    List.any_eq_true.mpr ⟨_, hg, by simp⟩
  unfold takeGroup
  simp only [hs]
  rw [if_pos hany]

/-- **A call with priorities**: nothing, or the first eligible callback of the
highest priority with the group of the last kind that had one. -/
theorem nextReady_cases (hc : c.callbackPriorityEnabled = true) (hn : NonNegative c.weakGroupsToNodes) :
    let r := getNextReadyExecutableFromMap c { memoryStrategy := m }
    (NothingReady c m r ∨ ∃ x y, Taken c m x y r) ∧
      r.selection.calls = (c.callable m).map fun x => ⟨x.entity.handle, !c.canceled x.entity.handle⟩ := by
  obtain ⟨hany, hp, hcalls⟩ := getHighestPriority_chosen hc (m := m) hn.candidates
  have hr : getNextReadyExecutableFromMap c { memoryStrategy := m } =
      takeGroup c (0 ≤ (getHighestPriority c { memoryStrategy := m }).2)
        (getHighestPriority c { memoryStrategy := m }).1 := by
    rw [getNextReadyExecutableFromMap, if_pos hc]
  rw [hr, hp]
  cases hf : c.first m with
  | none =>
    have hnil : c.candidates m = [] := best_eq_none.mp hf
    rw [hf, lastProbed_none.mpr hnil] at hany
    exact ⟨Or.inl ⟨hnil, rfl, hany, rfl⟩, hcalls⟩
  | some x =>
    have hx : x ∈ c.candidates m := mem_of_best hf
    obtain ⟨y, hy⟩ : ∃ y, c.lastProbed m = some y := by
      rw [← Option.ne_none_iff_exists', ne_eq, lastProbed_none]
      exact List.ne_nil_of_mem hx
    obtain ⟨⟨node, hmem⟩, _⟩ := candidates_found (lastProbed_candidates hy)
    have hg : (getHighestPriority c { memoryStrategy := m }).1.anyExecutable.callbackGroup = some y.group := by
      rw [hany, callbackGroup_takeData, callbackGroup_chosen, hy]; rfl
    have h0 : 0 ≤ priorityOf (some x) := hn.candidates x hx
    rw [decide_eq_true h0, takeGroup_known hg hmem]
    refine ⟨Or.inr ⟨x, y, hf, hy, rfl, fun k => ?_, hg, rfl⟩, hcalls⟩
    rw [hany, entity_takeData, entity_chosen, hf, Option.bind_some]

/-! ## Timers -/

/-- Every timer that a call has called is the one that it returns. -/
def CallsOnlyReturned (r : NextReady) : Prop :=
  ∀ call ∈ r.selection.calls, r.success = true ∧
    r.selection.anyExecutable.timer.map (·.handle) = some call.handle

instance {r : NextReady} : Decidable (CallsOnlyReturned r) :=
  inferInstanceAs (Decidable (∀ call ∈ r.selection.calls, r.success = true ∧
    r.selection.anyExecutable.timer.map (·.handle) = some call.handle))

/-- The eligible timers are at most one, and no eligible callback of another kind has a higher priority. -/
def Context.TimerFirst (c : Context) (m : MemoryStrategy) : Prop :=
  ∀ t ∈ c.eligible m .timer, (∀ u ∈ c.eligible m .timer, u.entity.handle = t.entity.handle) ∧
    ∀ k, k ≠ .timer → ∀ x ∈ c.eligible m k, x.priority ≤ t.priority

instance : Decidable (c.TimerFirst m) :=
  inferInstanceAs (Decidable (∀ t ∈ c.eligible m .timer,
    (∀ u ∈ c.eligible m .timer, u.entity.handle = t.entity.handle) ∧
      ∀ k, k ≠ .timer → ∀ x ∈ c.eligible m k, x.priority ≤ t.priority))

/-- Moreover, no ready timer of a group that can be taken from is cancelled. -/
def Context.TimerAlone (c : Context) (m : MemoryStrategy) : Prop :=
  (∀ t ∈ c.callable m, c.canceled t.entity.handle = false) ∧ c.TimerFirst m

instance : Decidable (c.TimerAlone m) :=
  inferInstanceAs (Decidable ((∀ t ∈ c.callable m, c.canceled t.entity.handle = false) ∧ c.TimerFirst m))

theorem getEntityByHandle_handle {k : Kind} {handle : Nat} {w : WeakCallbackGroupsToNodesMap} {e : Executable}
    (h : getEntityByHandle k handle w = some e) : e.handle = handle := by
  obtain ⟨⟨group, node⟩, _, hsome⟩ := List.exists_of_findSome?_eq_some h
  obtain ⟨g, rfl, hsome⟩ := Option.bind_eq_some_iff.mp hsome
  simpa using List.find?_some hsome

theorem callable_entity {t u : Candidate} (ht : t ∈ c.callable m) (hu : u ∈ c.callable m)
    (h : u.entity.handle = t.entity.handle) : u.entity = t.entity := by
  obtain ⟨a, _, ha, _⟩ := scan_found ht
  obtain ⟨b, _, hb, _⟩ := scan_found hu
  have hab : b = a := by
    rw [← getEntityByHandle_handle ha, ← getEntityByHandle_handle hb, h]
  subst hab
  exact Option.some.inj (hb.symm.trans ha)

theorem eligible_of_kind {x : Candidate} (hx : x ∈ c.candidates m) : x ∈ c.eligible m x.kind := by
  obtain ⟨k, hk⟩ := candidates_eligible hx
  exact eligible_kind hk ▸ hk

theorem eligible_timer {x : Candidate} :
    x ∈ c.eligible m .timer ↔ x ∈ c.callable m ∧ c.canceled x.entity.handle = false := by
  simp [Context.eligible]

theorem first_timer {x : Candidate} (hx : c.firstOf m .timer = some x)
    (h : ∀ k, k ≠ .timer → ∀ y ∈ c.eligible m k, y.priority ≤ x.priority) : c.first m = some x := by
  rw [← first_bestOf, hx, bestOf_self (h _ (by decide)), bestOf_self (h _ (by decide)),
    bestOf_self (h _ (by decide)), bestOf_self (h _ (by decide))]

theorem TimerFirst.first {t : Candidate} (h : c.TimerFirst m) (ht : t ∈ c.eligible m .timer) :
    ∃ x ∈ c.eligible m .timer, c.first m = some x ∧ x.entity.handle = t.entity.handle := by
  obtain ⟨hsame, hle⟩ := h t ht
  obtain ⟨x, hx⟩ : ∃ x, c.firstOf m .timer = some x := exists_best ht
  have hpx : t.priority ≤ x.priority := le_best hx t ht
  exact ⟨x, firstOf_eligible hx, first_timer hx fun k hk z hz => (hle k hk z hz).trans hpx,
    hsame x (firstOf_eligible hx)⟩

theorem le_taken_timer {x t : Candidate} (hx : c.first m = some x) (hkind : x.kind = .timer)
    (ht : t ∈ c.eligible m .timer) (h : x.entity.handle = t.entity.handle) :
    x ∈ c.eligible m .timer ∧ ∀ k, ∀ z ∈ c.eligible m k, z.priority ≤ t.priority := by
  have hxe : x ∈ c.eligible m .timer := hkind ▸ eligible_of_kind (mem_of_best hx)
  refine ⟨hxe, fun k z hz => ?_⟩
  have hle := le_best hx z (eligible_candidates hz)
  have hentity := callable_entity (eligible_timer.mp ht).1 (eligible_timer.mp hxe).1 h
  rwa [Candidate.priority, Candidate.priority, hentity] at hle

theorem callsOnlyReturned_iff (hc : c.callbackPriorityEnabled = true) (hn : NonNegative c.weakGroupsToNodes) :
    CallsOnlyReturned (getNextReadyExecutableFromMap c { memoryStrategy := m }) ↔ c.TimerAlone m := by
  obtain ⟨hcases, hcalls⟩ := nextReady_cases hc hn (m := m)
  constructor
  · intro hret
    -- a call shows that the callback taken is the timer that was called
    have htimer : ∀ u ∈ c.callable m, ∃ x, c.first m = some x ∧ x.kind = .timer ∧
        x.entity.handle = u.entity.handle := by
      intro u hu
      obtain ⟨hs, hmap⟩ := hret ⟨u.entity.handle, !c.canceled u.entity.handle⟩
        (hcalls ▸ List.mem_map.mpr ⟨u, hu, rfl⟩)
      obtain ⟨timer, htimer, hhandle⟩ := Option.map_eq_some_iff.mp hmap
      rcases hcases with hnone | ⟨x, y, htaken⟩
      · exact absurd hs (by simp [hnone.success])
      have hentity := (htaken.entity .timer).symm.trans htimer
      split at hentity
      · rename_i hkind
        cases hentity
        exact ⟨x, htaken.first, hkind.symm, hhandle⟩
      · cases hentity
    have hlive : ∀ t ∈ c.callable m, c.canceled t.entity.handle = false := by
      intro t ht
      obtain ⟨x, hx, hkind, hhandle⟩ := htimer t ht
      have hxe : x ∈ c.eligible m .timer := hkind ▸ eligible_of_kind (mem_of_best hx)
      exact hhandle ▸ (eligible_timer.mp hxe).2
    refine ⟨hlive, fun t ht => ?_⟩
    obtain ⟨x, hx, hkind, hhandle⟩ := htimer t (eligible_timer.mp ht).1
    refine ⟨fun u hu => ?_, fun k _ => (le_taken_timer hx hkind ht hhandle).2 k⟩
    obtain ⟨x', hx', _, hhandle'⟩ := htimer u (eligible_timer.mp hu).1
    cases hx.symm.trans hx'
    exact hhandle'.symm.trans hhandle
  · rintro ⟨hlive, hfirst⟩ call hcall
    rw [hcalls] at hcall
    obtain ⟨u, hu, rfl⟩ := List.mem_map.mp hcall
    obtain ⟨x, hxe, hx, hhandle⟩ := TimerFirst.first hfirst (eligible_timer.mpr ⟨hu, hlive u hu⟩)
    rcases hcases with hnone | ⟨x', y, htaken⟩
    · rw [Context.first, hnone.none_eligible] at hx
      cases hx
    · cases hx.symm.trans htaken.first
      have htimer := (htaken.entity .timer).trans (if_pos (eligible_kind hxe).symm)
      exact ⟨htaken.success, Option.map_eq_some_iff.mpr ⟨x.entity, htimer, hhandle⟩⟩

end

end ReferenceSystem
