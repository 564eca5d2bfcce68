import ReferenceSystem.DefaultExecutor
import ReferenceSystem.ExecutorSound
import ReferenceSystem.Pick
import ReferenceSystem.PrioritySound

/-!
# Nothing that is ready is dropped

Without callback priorities a try takes the first eligible callback and leaves
the handles after it, so what a wait has found is executed before the next
wait, each callback once. A handle goes without being executed only if its
callback, its group or its node is no longer alive.
-/

namespace ReferenceSystem

/-! ## A try as a search of the queues -/

def Context.verdict {η : Type} (c : Context) (k : Kind) (byHandle : η → Option Executable) (handle : η) :
    Verdict Candidate :=
  match (byHandle handle).bind fun e => (getGroupByEntity k e c.weakGroupsToNodes).map fun g => (e, g) with
  | none => .dropped
  | some (e, g) =>
    if !c.canBeTakenFrom g.id || (k = .timer && c.canceled e.handle) then .stays else .taken ⟨k, e, g⟩

/-- What the search of a kind picks, and the handles that it leaves. -/
def Context.search (c : Context) (m : MemoryStrategy) : Kind → Option Candidate × List Nat
  | .waitable =>
    ((pick (c.verdict .waitable some) m.waitableHandles).1,
      (pick (c.verdict .waitable some) m.waitableHandles).2.map (·.handle))
  | k => pick (c.verdict k (getEntityByHandle k · c.weakGroupsToNodes)) (m.handles k)

def Kind.rank : Kind → Nat
  | .timer => 0
  | .subscription => 1
  | .service => 2
  | .client => 3
  | .waitable => 4

section
variable {c : Context}

theorem verdict_taken {η : Type} {k : Kind} {byHandle : η → Option Executable} {handle : η} :
    (c.verdict k byHandle handle).taken? =
      ((byHandle handle).bind (c.candidate k)).filter fun x => !(k = .timer && c.canceled x.entity.handle) := by
  unfold Context.verdict
  cases hb : byHandle handle with
  | none => rfl
  | some e =>
    simp only [Option.bind_some, Context.candidate]
    cases hg : getGroupByEntity k e c.weakGroupsToNodes with
    | none => rfl
    | some g =>
      cases hf : c.canBeTakenFrom g.id with
      | false => simp [hf, Verdict.taken?]
      | true =>
        by_cases hk : k = .timer
        · cases hcan : c.canceled e.handle <;> simp [hf, hk, hcan, Verdict.taken?, Option.filter]
        · simp [hf, hk, Verdict.taken?, Option.filter]

theorem scan_verdict {η : Type} {k : Kind} (hk : k ≠ .timer) (byHandle : η → Option Executable) (handles : List η) :
    handles.filterMap (fun handle => (c.verdict k byHandle handle).taken?) = c.scan k byHandle handles := by
  refine List.filterMap_congr fun handle _ => ?_
  rw [verdict_taken]
  cases (byHandle handle).bind (c.candidate k) <;> simp [hk, Option.filter]

/-- The search of a kind picks the first callback of it that is eligible. -/
theorem search_fst (m : MemoryStrategy) (k : Kind) : (c.search m k).1 = (c.eligible m k).head? := by
  cases k with
  | timer =>
    have hfilter : ∀ l : List Nat, (c.scan .timer (getEntityByHandle .timer · c.weakGroupsToNodes) l).filter
        (fun x => !c.canceled x.entity.handle) = l.filterMap fun handle =>
          (c.verdict .timer (getEntityByHandle .timer · c.weakGroupsToNodes) handle).taken? := by
      intro l
      rw [Context.scan, List.filter_filterMap]
      refine List.filterMap_congr fun handle _ => ?_
      rw [verdict_taken]
      simp
    exact (pick_fst _).trans (congrArg List.head? (hfilter _).symm)
  | subscription => exact (pick_fst _).trans (congrArg List.head? (scan_verdict (k := .subscription) (by simp) _ _))
  | service => exact (pick_fst _).trans (congrArg List.head? (scan_verdict (k := .service) (by simp) _ _))
  | client => exact (pick_fst _).trans (congrArg List.head? (scan_verdict (k := .client) (by simp) _ _))
  | waitable =>
    exact (pick_fst (f := c.verdict .waitable some) m.waitableHandles).trans
      (congrArg List.head? (scan_verdict (by simp) _ _))

variable (hc : c.callbackPriorityEnabled = false)
include hc

theorem getNextLoop_rest {η : Type} {k : Kind} (hk : k ≠ .timer) (byHandle : η → Option Executable)
    (highestPriority : Int) (a : AnyExecutable) : ∀ handles : List η,
    (getNextLoop c k byHandle handles highestPriority a).2 = (pick (c.verdict k byHandle) handles).2
  | [] => rfl
  | handle :: handles => by
    have ih := getNextLoop_rest hk byHandle highestPriority a handles
    rw [getNextLoop]
    cases hb : byHandle handle with
    | none =>
      rw [pick_dropped (by simp [Context.verdict, hb])]
      exact ih
    | some e =>
      simp only
      cases hg : getGroupByEntity k e c.weakGroupsToNodes with
      | none =>
        rw [pick_dropped (by simp [Context.verdict, hb, hg])]
        exact ih
      | some g =>
        cases hf : c.canBeTakenFrom g.id with
        | false =>
          rw [pick_stays (by simp [Context.verdict, hb, hg, hf])]
          simpa [hf] using ih
        | true =>
          have htaken : c.verdict k byHandle handle = .taken ⟨k, e, g⟩ := by
            simp [Context.verdict, hb, hg, hf, hk]
          rw [pick_taken htaken]
          simp [hf, hc]

theorem getNextTimerLoop_rest (highestPriority : Int) (a : AnyExecutable) : ∀ handles : List Nat,
    (getNextTimerLoop c handles highestPriority a).2.1 =
      (pick (c.verdict .timer (getEntityByHandle .timer · c.weakGroupsToNodes)) handles).2 ∧
    ((getNextTimerLoop c handles highestPriority a).2.2.filter (·.returned)).map (·.handle) =
      (pick (c.verdict .timer (getEntityByHandle .timer · c.weakGroupsToNodes)) handles).1.toList.map (·.entity.handle)
  | [] => ⟨rfl, rfl⟩
  | handle :: handles => by
    have ih := getNextTimerLoop_rest highestPriority a handles
    rw [getNextTimerLoop]
    cases hb : getEntityByHandle .timer handle c.weakGroupsToNodes with
    | none =>
      rw [pick_dropped (by simp [Context.verdict, hb])]
      exact ih
    | some e =>
      simp only
      cases hg : getGroupByEntity .timer e c.weakGroupsToNodes with
      | none =>
        rw [pick_dropped (by simp [Context.verdict, hb, hg])]
        exact ih
      | some g =>
        cases hf : c.canBeTakenFrom g.id with
        | false =>
          rw [pick_stays (by simp [Context.verdict, hb, hg, hf])]
          simpa [hf] using ih
        | true =>
          cases hcan : c.canceled e.handle with
          | true =>
            rw [pick_stays (by simp [Context.verdict, hb, hg, hcan])]
            simpa [hf, hcan] using ih
          | false =>
            have htaken : c.verdict .timer (getEntityByHandle .timer · c.weakGroupsToNodes) handle =
                .taken ⟨.timer, e, g⟩ := by
              simp [Context.verdict, hb, hg, hf, hcan]
            rw [pick_taken htaken]
            simp [hf, hc]

/-- The handles of the kinds up to the one that is taken have been searched. -/
theorem getFirst_rest (m : MemoryStrategy) :
    (∀ k, (getFirst c { memoryStrategy := m }).1.memoryStrategy.handles k =
      if ∀ x ∈ (c.candidates m).head?, k.rank ≤ x.kind.rank then (c.search m k).2 else m.handles k) ∧
    ((getFirst c { memoryStrategy := m }).1.calls.filter (·.returned)).map (·.handle) =
      (c.eligible m .timer).head?.toList.map (·.entity.handle) := by
  have htimer : (getNextTimerLoop c m.timerHandles (-1) {}).1 =
      chosen c.weakGroupsToNodes (c.eligible m .timer).head? (c.eligible m .timer).head? := by
    rw [getNextTimerLoop_first hc, takeBest_empty]; rfl
  obtain ⟨hrest, hcalls⟩ := getNextTimerLoop_rest hc (-1) {} m.timerHandles
  have hpicked : (pick (c.verdict .timer (getEntityByHandle .timer · c.weakGroupsToNodes)) m.timerHandles).1 =
      (c.eligible m .timer).head? := search_fst m .timer
  rw [hpicked] at hcalls
  have hsub := probe_first hc (m := m) (k := .subscription) rfl
  have hser := probe_first hc (m := m) (k := .service) rfl
  have hcli := probe_first hc (m := m) (k := .client) rfl
  have hwai := probe_first hc (m := m) (k := .waitable) rfl
  have hsub' := getNextLoop_rest hc (k := .subscription) (by simp)
    (getEntityByHandle .subscription · c.weakGroupsToNodes) (-1) {} m.subscriptionHandles
  have hser' := getNextLoop_rest hc (k := .service) (by simp)
    (getEntityByHandle .service · c.weakGroupsToNodes) (-1) {} m.serviceHandles
  have hcli' := getNextLoop_rest hc (k := .client) (by simp)
    (getEntityByHandle .client · c.weakGroupsToNodes) (-1) {} m.clientHandles
  have hwai' := getNextLoop_rest hc (k := .waitable) (by simp) some (-1) {} m.waitableHandles
  have hempty : chosen c.weakGroupsToNodes none none = {} := rfl
  have hfield : ∀ {k : Kind} {x : Candidate} {l : List Candidate}, c.eligible m k = x :: l →
      (chosen c.weakGroupsToNodes (some x) (some x)).entity k = some x.entity := by
    intro k x l h
    rw [entity_chosen, Option.bind_some, if_pos (eligible_kind (h ▸ List.mem_cons_self ..)).symm]
  have hkind : ∀ {k : Kind} {x : Candidate} {l : List Candidate}, c.eligible m k = x :: l → x.kind = k :=
    fun h => eligible_kind (h ▸ List.mem_cons_self ..)
  unfold getFirst getNextTimer getNextSubscription getNextService getNextClient getNextWaitable Context.candidates
  simp only [htimer]
  cases h₁ : c.eligible m .timer with
  | cons x l =>
    have hsome : (chosen c.weakGroupsToNodes (some x) (some x)).timer = some x.entity := hfield h₁
    rw [h₁] at hcalls
    refine ⟨fun k => ?_, ?_⟩
    · cases k <;> simp [hsome, hkind h₁, MemoryStrategy.handles, Kind.rank, Context.search, hrest]
    · simp [hsome, hcalls]
  | nil =>
    rw [h₁] at hcalls
    simp only [List.head?_nil, hempty, hsub]
    cases h₂ : c.eligible m .subscription with
    | cons x l =>
      have hsome : (chosen c.weakGroupsToNodes (some x) (some x)).subscription = some x.entity := hfield h₂
      refine ⟨fun k => ?_, ?_⟩
      · cases k <;> simp [hsome, hkind h₂, MemoryStrategy.handles, Kind.rank, Context.search, hrest, hsub']
      · simp [hsome, hcalls]
    | nil =>
      simp only [List.head?_nil, hempty, hser]
      cases h₃ : c.eligible m .service with
      | cons x l =>
        have hsome : (chosen c.weakGroupsToNodes (some x) (some x)).service = some x.entity := hfield h₃
        refine ⟨fun k => ?_, ?_⟩
        · cases k <;> simp [hsome, hkind h₃, MemoryStrategy.handles, Kind.rank, Context.search, hrest, hsub', hser']
        · simp [hsome, hcalls]
      | nil =>
        simp only [List.head?_nil, hempty, hcli]
        cases h₄ : c.eligible m .client with
        | cons x l =>
          have hsome : (chosen c.weakGroupsToNodes (some x) (some x)).client = some x.entity := hfield h₄
          refine ⟨fun k => ?_, ?_⟩
          · cases k <;>
              simp [hsome, hkind h₄, MemoryStrategy.handles, Kind.rank, Context.search, hrest, hsub', hser', hcli']
          · simp [hsome, hcalls]
        | nil =>
          simp only [List.head?_nil, hempty, hwai]
          cases h₅ : c.eligible m .waitable with
          | cons x l =>
            have hsome : (chosen c.weakGroupsToNodes (some x) (some x)).waitable = some x.entity := hfield h₅
            refine ⟨fun k => ?_, ?_⟩
            · cases k <;>
                simp [hsome, hkind h₅, MemoryStrategy.handles, Kind.rank, Context.search, hrest, hsub', hser', hcli',
                  hwai']
            · simp [hsome, hcalls]
          | nil =>
            refine ⟨fun k => ?_, ?_⟩
            · cases k <;>
                simp [hempty, MemoryStrategy.handles, Context.search, hrest, hsub', hser', hcli', hwai']
            · simp [hempty, hcalls]

end

theorem getFirst_waitables {c : Context} (hc : c.callbackPriorityEnabled = false) (m : MemoryStrategy) :
    (getFirst c { memoryStrategy := m }).1.memoryStrategy.waitableHandles.Sublist m.waitableHandles := by
  have hloop := fun a => getNextLoop_rest hc (k := .waitable) (by simp) some (-1) a m.waitableHandles
  unfold getFirst getNextTimer getNextSubscription getNextService getNextClient getNextWaitable
  simp only
  split
  · exact List.Sublist.refl _
  split
  · exact List.Sublist.refl _
  split
  · exact List.Sublist.refl _
  split
  · exact List.Sublist.refl _
  split
  · simp only [hloop]
    exact pick_sublist _
  · simp only [hloop]
    exact pick_sublist _

/-- What a call without priorities does that takes `x`, if anything. -/
structure TakesFirst (c : Context) (m : MemoryStrategy) (x : Option Candidate) (r : NextReady) : Prop where
  first : (c.candidates m).head? = x
  success : r.success = x.isSome
  entity : ∀ k, r.selection.anyExecutable.entity k = x.bind fun x => if k = x.kind then some x.entity else none
  callbackGroup : r.selection.anyExecutable.callbackGroup = x.map (·.group)
  nothing : x = none → r.selection.anyExecutable = {}
  canBeTakenFrom : r.canBeTakenFrom = x.elim c.canBeTakenFrom fun x =>
    if x.group.type = .mutuallyExclusive then storeFlag c.canBeTakenFrom x.group.id false else c.canBeTakenFrom
  handles : ∀ k, r.selection.memoryStrategy.handles k =
    if ∀ x' ∈ x, k.rank ≤ x'.kind.rank then (c.search m k).2 else m.handles k
  waitables : r.selection.memoryStrategy.waitableHandles.Sublist m.waitableHandles
  calls : (r.selection.calls.filter (·.returned)).map (·.handle) =
    (x.filter (·.kind = .timer)).toList.map (·.entity.handle)

section
variable {c : Context}

theorem timer_first (m : MemoryStrategy) :
    ((c.candidates m).head?.filter (·.kind = .timer)).toList = (c.eligible m .timer).head?.toList := by
  unfold Context.candidates
  cases h : c.eligible m .timer with
  | cons x l => simp [eligible_kind (h ▸ List.mem_cons_self ..), Option.filter]
  | nil =>
    cases hx : ([] ++ c.eligible m .subscription ++ c.eligible m .service ++ c.eligible m .client ++
      c.eligible m .waitable).head? with
    | none => rfl
    | some x =>
      have hne : x.kind ≠ .timer := by
        have hmem := List.mem_of_mem_head? hx
        simp only [List.nil_append, List.mem_append] at hmem
        rcases hmem with ((hmem | hmem) | hmem) | hmem <;> simp [eligible_kind hmem]
      simp [hne, Option.filter]

/-- The first candidate of all is picked by the search of its kind, and the kinds before it have none. -/
theorem first_searched {m : MemoryStrategy} :
    (∀ x, (c.candidates m).head? = some x → (c.search m x.kind).1 = some x ∧
      ∀ k, k.rank < x.kind.rank → (c.search m k).1 = none) ∧
    ((c.candidates m).head? = none → ∀ k, (c.search m k).1 = none) := by
  simp only [search_fst]
  constructor
  · intro x hx
    have hkind : ∀ {k : Kind}, (c.eligible m k).head? = some x → x.kind = k :=
      fun h => eligible_kind (List.mem_of_mem_head? h)
    unfold Context.candidates at hx
    simp only [List.head?_append, Option.or_eq_some_iff, Option.or_eq_none_iff] at hx
    rcases hx with (((hx | ⟨h1, hx⟩) | ⟨⟨h1, h2⟩, hx⟩) | ⟨⟨⟨h1, h2⟩, h3⟩, hx⟩) | ⟨⟨⟨⟨h1, h2⟩, h3⟩, h4⟩, hx⟩
    all_goals
      rw [hkind hx]
      refine ⟨hx, fun k hk => ?_⟩
      cases k <;> first | assumption | exact absurd hk (by decide)
  · intro hnone
    rw [List.head?_eq_none_iff] at hnone
    simp only [Context.candidates, List.append_eq_nil_iff] at hnone
    obtain ⟨⟨⟨⟨h1, h2⟩, h3⟩, h4⟩, h5⟩ := hnone
    intro k
    cases k <;> simp [*]

variable (hc : c.callbackPriorityEnabled = false)
include hc

/-- **A call without priorities** takes the first eligible callback, marks its
group and leaves the handles of the kinds after it. -/
theorem nextReady_takesFirst (m : MemoryStrategy) :
    TakesFirst c m (c.candidates m).head? (getNextReadyExecutableFromMap c { memoryStrategy := m }) := by
  obtain ⟨hsuccess, hany⟩ := getFirst_chosen hc m
  obtain ⟨hrest, hcalls⟩ := getFirst_rest hc m
  rw [← timer_first] at hcalls
  have hwaitables := getFirst_waitables hc m
  have hr : getNextReadyExecutableFromMap c { memoryStrategy := m } =
      takeGroup c (getFirst c { memoryStrategy := m }).2 (getFirst c { memoryStrategy := m }).1 := by
    unfold getNextReadyExecutableFromMap
    simp [hc]
  rw [hr]
  cases hcand : c.candidates m with
  | nil =>
    rw [hcand] at hsuccess hany hrest hcalls
    have hfail : takeGroup c (getFirst c { memoryStrategy := m }).2 (getFirst c { memoryStrategy := m }).1 =
        ⟨false, (getFirst c { memoryStrategy := m }).1, c.canBeTakenFrom⟩ := by
      rw [hsuccess]; rfl
    have hempty : (getFirst c { memoryStrategy := m }).1.anyExecutable = {} := hany
    rw [hfail]
    refine ⟨by rw [hcand], rfl, fun k => ?_, ?_, fun _ => hempty, rfl, hrest, hwaitables, hcalls⟩
    · rw [hempty]
      cases k <;> rfl
    · rw [hempty]
      rfl
  | cons x l =>
    rw [hcand] at hsuccess hany hrest hcalls
    obtain ⟨⟨node, hmem⟩, _⟩ := candidates_found (c := c) (m := m) (hcand ▸ List.mem_cons_self ..)
    have hg : (getFirst c { memoryStrategy := m }).1.anyExecutable.callbackGroup = some x.group := by
      rw [hany, callbackGroup_takeData, callbackGroup_chosen]; rfl
    have htrue : (getFirst c { memoryStrategy := m }).2 = true := by rw [hsuccess]; rfl
    rw [htrue, takeGroup_known hg hmem]
    refine ⟨by rw [hcand], rfl, fun k => ?_, hg, by simp, rfl, hrest, hwaitables, hcalls⟩
    rw [hany, entity_takeData, entity_chosen]

end

/-! ## Handles and what they reach -/

/-- The callback with this handle, its group and its node are alive. -/
def Alive.Reaches (alive : Alive) (reg : Registry) (k : Kind) (handle : Nat) : Prop :=
  ∃ p ∈ reg.groups, (∃ e ∈ p.1.ptrs k, e.handle = handle) ∧ alive.group p.1.id = true ∧ alive.node p.2 = true ∧
    alive.entity k handle = true

section
variable {reg : Registry} {i : Sight} {enabled : Bool} {flags : Nat → Bool} {m : MemoryStrategy}

theorem Registry.eq_of_handle {p q : CallbackGroup × Nat} (hp : p ∈ reg.groups) (hq : q ∈ reg.groups) {k : Kind}
    {e f : Executable} (he : e ∈ p.1.ptrs k) (hf : f ∈ q.1.ptrs k) (h : e.handle = f.handle) : p = q ∧ e = f := by
  have hpq : p = q := by
    by_contra hne
    exact (reg.group_apart hp hq hne).2 k e he f hf h
  subst hpq
  exact ⟨rfl, List.inj_on_of_nodup_map (reg.nodup p hp k) he hf h⟩

/-- The group is found through the entity, and the entity through the handle. -/
theorem locked_entity {p : CallbackGroup × Nat} (hp : p ∈ reg.groups) {k : Kind} {e : Executable}
    (he : e ∈ p.1.ptrs k) (hgroup : i.alive.group p.1.id = true) (hnode : i.alive.node p.2 = true)
    (hentity : i.alive.entity k e.handle = true) :
    getEntityByHandle k e.handle (reg.weakGroupsToNodes i.alive) = some e ∧
      getGroupByEntity k e (reg.weakGroupsToNodes i.alive) = some (p.1.restrict i.alive) := by
  have hmem : (some (p.1.restrict i.alive), some p.2) ∈ reg.weakGroupsToNodes i.alive :=
    List.mem_map.mpr ⟨p, hp, by rw [if_pos hgroup, if_pos hnode]⟩
  have hin : e ∈ (p.1.restrict i.alive).ptrs k := by
    rw [ptrs_restrict]
    exact List.mem_filter.mpr ⟨he, hentity⟩
  constructor
  · have hsome : (getEntityByHandle k e.handle (reg.weakGroupsToNodes i.alive)).isSome = true := by
      refine List.findSome?_isSome_iff.mpr ⟨_, hmem, ?_⟩
      rw [Option.bind_some, List.find?_isSome]
      exact ⟨e, hin, by simp⟩
    obtain ⟨f, hf⟩ := Option.isSome_iff_exists.mp hsome
    obtain ⟨⟨g, node⟩, hpair, hfind⟩ := List.exists_of_findSome?_eq_some hf
    obtain ⟨g, rfl, hfind⟩ := Option.bind_eq_some_iff.mp hfind
    obtain ⟨q, hq, _, _, hsub⟩ := locked_group hpair
    have hfin := hsub k f (List.mem_of_find?_eq_some hfind)
    rw [hf, (reg.eq_of_handle hq hp hfin he (getEntityByHandle_handle hf)).2]
  · have hsome : (getGroupByEntity k e (reg.weakGroupsToNodes i.alive)).isSome = true := by
      refine List.findSome?_isSome_iff.mpr ⟨_, hmem, ?_⟩
      rw [Option.bind_some, Option.bind_some, if_pos hin]
      rfl
    obtain ⟨g, hg⟩ := Option.isSome_iff_exists.mp hsome
    obtain ⟨⟨node, hpair⟩, hein⟩ := getGroupByEntity_found hg
    obtain ⟨q, hq, heq⟩ := List.mem_map.mp hpair
    have hfst := congrArg Prod.fst heq
    simp only at hfst
    split at hfst
    · cases hfst
      rw [ptrs_restrict] at hein
      rw [hg, (reg.eq_of_handle hq hp (List.mem_filter.mp hein).1 he rfl).1]
    · cases hfst

theorem search_of_ne {c : Context} {k : Kind} (hk : k ≠ .waitable) :
    c.search m k = pick (c.verdict k (getEntityByHandle k · c.weakGroupsToNodes)) (m.handles k) := by
  cases k with
  | waitable => exact absurd rfl hk
  | timer | subscription | service | client => rfl

theorem search_sublist {c : Context} (k : Kind) : (c.search m k).2.Sublist (m.handles k) := by
  by_cases hk : k = .waitable
  · subst hk
    exact (pick_sublist _).map _
  · rw [search_of_ne hk]
    exact pick_sublist _

theorem entity_callbacks {a : AnyExecutable} {x : Option Candidate}
    (h : ∀ k, a.entity k = x.bind fun x => if k = x.kind then some x.entity else none) :
    a.callbacks = x.toList.map fun x => (x.kind, x.entity.handle) := by
  cases x with
  | none =>
    unfold AnyExecutable.callbacks
    simp [h]
  | some x => exact callbacks_taken h

/-- The ready waitables are entities of the executor. -/
def MemoryStrategy.Known (m : MemoryStrategy) (reg : Registry) : Prop :=
  ∀ e ∈ m.waitableHandles, ∃ p ∈ reg.groups, e ∈ p.1.waitablePtrs

theorem verdict_entity {c : Context} {η : Type} {k : Kind} {byHandle : η → Option Executable} {handle : η}
    {x : Candidate} (h : c.verdict k byHandle handle = .taken x) : x.kind = k ∧ byHandle handle = some x.entity := by
  have htaken := Verdict.taken?_eq_some.mpr h
  rw [verdict_taken] at htaken
  obtain ⟨e, he, hx⟩ := Option.bind_eq_some_iff.mp (Option.filter_eq_some_iff.mp htaken).1
  obtain ⟨g, _, hx⟩ := Option.bind_eq_some_iff.mp hx
  split at hx
  · cases hx
    exact ⟨rfl, he⟩
  · cases hx

theorem verdict_stays {c : Context} {η : Type} {k : Kind} {byHandle : η → Option Executable} {handle : η}
    (hfree : ∀ g, c.canBeTakenFrom g = true) (h : (c.verdict k byHandle handle).isStays = true) :
    k = .timer ∧ ∃ e, byHandle handle = some e ∧ c.canceled e.handle = true := by
  unfold Context.verdict at h
  cases hb : byHandle handle with
  | none => simp [hb, Verdict.isStays] at h
  | some e =>
    cases hg : getGroupByEntity k e c.weakGroupsToNodes with
    | none => simp [hb, hg, Verdict.isStays] at h
    | some g =>
      by_cases hcan : k = .timer ∧ c.canceled e.handle = true
      · exact ⟨hcan.1, e, rfl, hcan.2⟩
      · simp [hb, hg, hfree, hcan, Verdict.isStays] at h

theorem verdict_found {c : Context} {η : Type} {k : Kind} {byHandle : η → Option Executable} {handle : η}
    {e : Executable} {g : CallbackGroup} (he : byHandle handle = some e)
    (hg : getGroupByEntity k e c.weakGroupsToNodes = some g) : c.verdict k byHandle handle ≠ .dropped := by
  unfold Context.verdict
  rw [he, Option.bind_some, hg, Option.map_some]
  simp only
  split <;> simp

theorem verdict_dropped {k : Kind} {handle : Nat} :
    ((i.context enabled reg flags).verdict k (getEntityByHandle k · (reg.weakGroupsToNodes i.alive)) handle = .dropped →
      ¬ i.alive.Reaches reg k handle) ∧
    ∀ e, e.handle = handle → (∃ p ∈ reg.groups, e ∈ p.1.ptrs k) →
      (i.context enabled reg flags).verdict k some e = .dropped → ¬ i.alive.Reaches reg k handle := by
  constructor
  · rintro h ⟨p, hp, ⟨e, he, rfl⟩, hgroup, hnode, hentity⟩
    obtain ⟨hfind, hgroupOf⟩ := locked_entity hp he hgroup hnode hentity
    exact verdict_found hfind hgroupOf h
  · rintro e rfl ⟨q, hq, heq⟩ h ⟨p, hp, ⟨f, hf, hfe⟩, hgroup, hnode, hentity⟩
    obtain ⟨rfl, rfl⟩ := reg.eq_of_handle hp hq hf heq hfe
    obtain ⟨_, hgroupOf⟩ := locked_entity hp hf hgroup hnode hentity
    exact verdict_found rfl hgroupOf h

/-- What leaves a queue is taken, or is no longer alive. -/
theorem search_removed (enabled : Bool) (hm : m.Known reg) {k : Kind} {handle : Nat} (h : handle ∈ m.handles k) :
    handle ∈ ((i.context enabled reg flags).search m k).2 ∨ ¬ i.alive.Reaches reg k handle ∨
      ∃ x, ((i.context enabled reg flags).search m k).1 = some x ∧ x.entity.handle = handle := by
  by_cases hk : k = .waitable
  · subst hk
    obtain ⟨e, he, rfl⟩ := List.mem_map.mp h
    rcases pick_removed (f := (i.context enabled reg flags).verdict .waitable some) he with hin | hdrop | ⟨x, hx, htaken⟩
    · exact Or.inl (List.mem_map_of_mem hin)
    · exact Or.inr (Or.inl (verdict_dropped.2 e rfl (hm e he) hdrop))
    · exact Or.inr (Or.inr ⟨x, hx, by cases (verdict_entity htaken).2; rfl⟩)
  · rw [search_of_ne hk]
    rcases pick_removed h with hin | hdrop | ⟨x, hx, htaken⟩
    · exact Or.inl hin
    · exact Or.inr (Or.inl (verdict_dropped.1 hdrop))
    · exact Or.inr (Or.inr ⟨x, hx, getEntityByHandle_handle (verdict_entity htaken).2⟩)

/-- What is taken leaves its queue. -/
theorem search_picked {c : Context} {k : Kind} (hnodup : (m.handles k).Nodup) {x : Candidate}
    (hx : (c.search m k).1 = some x) :
    x.kind = k ∧ x.entity.handle ∈ m.handles k ∧ x.entity.handle ∉ (c.search m k).2 := by
  by_cases hk : k = .waitable
  · subst hk
    obtain ⟨e, he, htaken, hgone⟩ := pick_gone (hnodup.of_map _) hx
    obtain ⟨hkind, hentity⟩ := verdict_entity htaken
    cases hentity
    refine ⟨hkind, List.mem_map_of_mem he, fun hin => hgone ?_⟩
    obtain ⟨f, hf, hfe⟩ := List.mem_map.mp hin
    exact List.inj_on_of_nodup_map hnodup ((pick_sublist _).subset hf) he hfe ▸ hf
  · rw [search_of_ne hk] at hx ⊢
    obtain ⟨handle, hin, htaken, hgone⟩ := pick_gone hnodup hx
    obtain ⟨hkind, hentity⟩ := verdict_entity htaken
    rw [getEntityByHandle_handle hentity]
    exact ⟨hkind, hin, hgone⟩

/-- What a search that takes nothing leaves is a cancelled timer, if no group is in use. -/
theorem search_stays {c : Context} (hfree : ∀ g, c.canBeTakenFrom g = true) {k : Kind} {handle : Nat}
    (hnone : (c.search m k).1 = none) (h : handle ∈ (c.search m k).2) : k = .timer ∧ c.canceled handle = true := by
  by_cases hk : k = .waitable
  · subst hk
    have hrest := (pick_none (f := c.verdict .waitable some) hnone).2
    obtain ⟨e, he, _⟩ := List.mem_map.mp h
    rw [hrest] at he
    cases (verdict_stays hfree (List.mem_filter.mp he).2).1
  · rw [search_of_ne hk] at hnone h
    rw [(pick_none hnone).2] at h
    obtain ⟨hkind, e, he, hcan⟩ := verdict_stays hfree (List.mem_filter.mp h).2
    rw [getEntityByHandle_handle he] at hcan
    exact ⟨hkind, hcan⟩

end

/-! ## What happens to what a wait has found -/

def Window.taken (w : Window) : List (Kind × Nat) := w.tries.flatMap (·.taken)

/-- The handles that a wait has found, with those left of them: the others were
taken, each once, or were not alive at a try. -/
structure Window.Accounts (reg : Registry) (w : Window) (m : MemoryStrategy) : Prop where
  known : m.Known reg
  nodup : ∀ k, (w.found.handles k).Nodup
  left : ∀ k, (m.handles k).Sublist (w.found.handles k)
  once : w.taken.Nodup
  taken : ∀ k handle, (k, handle) ∈ w.taken → handle ∈ w.found.handles k ∧ handle ∉ m.handles k
  gone : ∀ k, ∀ handle ∈ w.found.handles k, handle ∈ m.handles k ∨ (k, handle) ∈ w.taken ∨
    ∃ t ∈ w.tries, ¬ t.sight.alive.Reaches reg k handle

def takenBy (x : Option Candidate) : List (Kind × Nat) := x.toList.map fun x => (x.kind, x.entity.handle)

def Window.try (w : Window) (i : Sight) (x : Option Candidate) : Window :=
  { w with tries := w.tries ++ [⟨i, takenBy x⟩] }

section
variable {reg : Registry} {w : Window} {m : MemoryStrategy} {i : Sight} {enabled : Bool} {flags : Nat → Bool}
variable {x : Option Candidate} {r : NextReady}

theorem taken_try : (w.try i x).taken = w.taken ++ takenBy x := by
  unfold Window.taken Window.try
  rw [List.flatMap_append]
  simp

theorem rank_injective {k k' : Kind} (h : k.rank = k'.rank) : k = k' := by
  cases k <;> cases k' <;> first | rfl | cases h

/-- What a try leaves of each kind. -/
theorem TakesFirst.left {c : Context} (h : TakesFirst c m x r) (k : Kind) :
    (r.selection.memoryStrategy.handles k).Sublist (m.handles k) := by
  rw [h.handles]
  split
  · exact search_sublist k
  · exact List.Sublist.refl _

theorem TakesFirst.picked {c : Context} (h : TakesFirst c m x r) (hnodup : ∀ k, (m.handles k).Nodup) {k : Kind}
    {handle : Nat} (hmem : (k, handle) ∈ takenBy x) :
    handle ∈ m.handles k ∧ handle ∉ r.selection.memoryStrategy.handles k := by
  cases x with
  | none => cases hmem
  | some x =>
    cases List.mem_singleton.mp hmem
    obtain ⟨hpick, _⟩ := first_searched.1 x h.first
    obtain ⟨_, hin, hgone⟩ := search_picked (hnodup x.kind) hpick
    refine ⟨hin, ?_⟩
    rw [h.handles, if_pos (by simp)]
    exact hgone

theorem TakesFirst.removed (hm : m.Known reg) (h : TakesFirst (i.context enabled reg flags) m x r) {k : Kind}
    {handle : Nat} (hin : handle ∈ m.handles k) : handle ∈ r.selection.memoryStrategy.handles k ∨
      (k, handle) ∈ takenBy x ∨ ¬ i.alive.Reaches reg k handle := by
  rw [h.handles]
  split
  · rename_i hrank
    rcases search_removed (i := i) enabled hm hin with hin | hdead | ⟨y, hy, hhandle⟩
    · exact Or.inl hin
    · exact Or.inr (Or.inr hdead)
    · refine Or.inr (Or.inl ?_)
      cases x with
      | none =>
        rw [first_searched.2 h.first k] at hy
        cases hy
      | some x =>
        obtain ⟨hpick, hbefore⟩ := first_searched.1 x h.first
        rcases Nat.lt_or_eq_of_le (hrank x rfl) with hlt | heq
        · rw [hbefore k hlt] at hy
          cases hy
        · cases rank_injective heq
          cases hpick.symm.trans hy
          exact List.mem_singleton.mpr (by rw [← hhandle])
  · exact Or.inl hin

/-- A try keeps the account. -/
theorem Window.Accounts.try (hw : w.Accounts reg m) (h : TakesFirst (i.context enabled reg flags) m x r) :
    (w.try i x).Accounts reg r.selection.memoryStrategy where
  known e he := hw.known e (h.waitables.subset he)
  nodup := hw.nodup
  left k := (h.left k).trans (hw.left k)
  once := by
    rw [taken_try]
    refine List.nodup_append.mpr ⟨hw.once, ?_, fun a ha b hb hab => ?_⟩
    · unfold takenBy
      cases x <;> simp
    · subst hab
      exact (hw.taken a.1 a.2 ha).2 (h.picked (fun k => (hw.left k).nodup (hw.nodup k)) hb).1
  taken k handle hmem := by
    rw [taken_try] at hmem
    rcases List.mem_append.mp hmem with hmem | hmem
    · obtain ⟨hfound, hgone⟩ := hw.taken k handle hmem
      exact ⟨hfound, fun hin => hgone ((h.left k).subset hin)⟩
    · obtain ⟨hin, hgone⟩ := h.picked (fun k => (hw.left k).nodup (hw.nodup k)) hmem
      exact ⟨(hw.left k).subset hin, hgone⟩
  gone k handle hin := by
    rw [taken_try]
    rcases hw.gone k handle hin with hin | hmem | ⟨t, ht, hdead⟩
    · rcases h.removed hw.known hin with hin | hmem | hdead
      · exact Or.inl hin
      · exact Or.inr (Or.inl (List.mem_append_right _ hmem))
      · exact Or.inr (Or.inr ⟨_, List.mem_append_right _ (List.mem_singleton_self _), hdead⟩)
    · exact Or.inr (Or.inl (List.mem_append_left _ hmem))
    · exact Or.inr (Or.inr ⟨t, List.mem_append_left _ ht, hdead⟩)

/-- Every handle that the wait has found was taken, or was not alive at a try,
or is that of a timer that was cancelled at the last one. -/
def Window.Complete (reg : Registry) (w : Window) : Prop :=
  ∀ k, ∀ handle ∈ w.found.handles k, (k, handle) ∈ w.taken ∨
    (∃ t ∈ w.tries, ¬ t.sight.alive.Reaches reg k handle) ∨
    k = .timer ∧ ∃ t, w.tries.getLast? = some t ∧ t.sight.canceled handle = true

/-- After a try that takes nothing the account is closed. -/
theorem Window.Accounts.complete (hw : w.Accounts reg m) (hfree : ∀ g, flags g = true)
    (h : TakesFirst (i.context enabled reg flags) m none r) : (w.try i none).Complete reg := by
  intro k handle hin
  rcases (hw.try h).gone k handle hin with hleft | hmem | hdead
  · refine Or.inr (Or.inr ?_)
    rw [h.handles, if_pos (by simp)] at hleft
    obtain ⟨hkind, hcan⟩ := search_stays hfree (first_searched.2 h.first k) hleft
    exact ⟨hkind, _, List.getLast?_append_cons .., hcan⟩
  · exact Or.inl hmem
  · exact Or.inr (Or.inl hdead)

theorem mem_collectKind {k : Kind} {alive : Alive} {e : Executable}
    (h : e ∈ collectKind k (reg.weakGroupsToNodes alive) flags) :
    ∃ p ∈ reg.groups, e ∈ p.1.ptrs k ∧ alive.group p.1.id = true ∧ alive.node p.2 = true ∧
      alive.entity k e.handle = true := by
  obtain ⟨pair, hpair, he⟩ := List.mem_flatMap.mp h
  obtain ⟨p, hp, rfl⟩ := List.mem_map.mp hpair
  cases hgroup : alive.group p.1.id with
  | false => simp [hgroup] at he
  | true =>
    cases hnode : alive.node p.2 with
    | false => simp [hnode] at he
    | true =>
      simp only [hgroup, hnode, if_true] at he
      split at he
      · rw [ptrs_restrict] at he
        obtain ⟨hin, halive⟩ := List.mem_filter.mp he
        exact ⟨p, hp, hin, hgroup, hnode, halive⟩
      · cases he

theorem handles_collected (k : Kind) (alive : Alive) (ready : Kind → Nat → Bool) :
    ((collectEntities (reg.weakGroupsToNodes alive) flags).removeNullHandles ready).handles k =
      ((collectKind k (reg.weakGroupsToNodes alive) flags).map (·.handle)).filter (ready k) := by
  cases k with
  | waitable => exact (List.filter_map ..).symm
  | timer | subscription | service | client => rfl

/-- What a wait finds are distinct entities of the executor. -/
theorem accounts_found (alive : Alive) (ready : Kind → Nat → Bool) :
    ({ found := (collectEntities (reg.weakGroupsToNodes alive) flags).removeNullHandles ready } : Window).Accounts reg
      ((collectEntities (reg.weakGroupsToNodes alive) flags).removeNullHandles ready) where
  known e he := by
    obtain ⟨p, hp, hin, _⟩ := mem_collectKind (List.mem_filter.mp he).1
    exact ⟨p, hp, hin⟩
  nodup k := by
    rw [handles_collected]
    exact (collectKind_nodup k alive flags).filter _
  left _ := List.Sublist.refl _
  once := List.nodup_nil
  taken k handle h := by cases h
  gone k handle h := Or.inl h

end

/-! ## Runs of the single-threaded executor -/

def timersOf (callbacks : List (Kind × Nat)) : List Nat := (callbacks.filter (·.1 = .timer)).map Prod.snd

/-- The state after a try that takes `x`, and its execution. -/
def Spin.tried (s : Spin) (i : Sight) (x : Option Candidate) (m : MemoryStrategy) (spinning : Bool) : Spin :=
  { s with
    memoryStrategy := m
    consumed := s.consumed ++ timersOf (takenBy x)
    executed := if spinning then s.executed ++ takenBy x else s.executed
    window := s.window.try i x }

/-- What a pass is made of: tries, and a wait after a try that takes nothing. -/
inductive PassStep (reg : Registry) (i : Pass) (s : Spin) : Spin → Prop
  | tried (sight : Sight) (x : Option Candidate) (r : NextReady) (hsight : sight = i.first ∨ sight = i.second)
      (h : TakesFirst (sight.context false reg s.canBeTakenFrom) s.memoryStrategy x r) :
      PassStep reg i s (s.tried sight x r.selection.memoryStrategy i.spinningBeforeExecute)
  | waited (r : NextReady) (h : TakesFirst (i.first.context false reg s.canBeTakenFrom) s.memoryStrategy none r) :
      PassStep reg i s (waitForWork reg (s.tried i.first none r.selection.memoryStrategy i.spinningBeforeExecute)
        i.collected i.ready)

section
variable {reg : Registry} {s s' : Spin} {i : Pass}

theorem timersOf_append (l l' : List (Kind × Nat)) : timersOf (l ++ l') = timersOf l ++ timersOf l' := by
  unfold timersOf
  rw [List.filter_append, List.map_append]

theorem timersOf_taken (x : Option Candidate) :
    (x.filter (·.kind = .timer)).toList.map (·.entity.handle) = timersOf (takenBy x) := by
  cases x with
  | none => rfl
  | some x =>
    by_cases hk : x.kind = .timer
    · simp [timersOf, takenBy, Option.filter, hk]
    · simp [timersOf, takenBy, Option.filter, hk]

theorem takeGroup_selection (c : Context) (success : Bool) (m : Selection) : (takeGroup c success m).selection = m := by
  unfold takeGroup
  split
  · split <;> rfl
  · rfl

/-- A group that is marked by a try is released after it. -/
theorem takeGroup_released {c : Context} (hfree : c.canBeTakenFrom = fun _ => true) (success : Bool) (m : Selection) :
    m.anyExecutable.release (takeGroup c success m).canBeTakenFrom = fun _ => true := by
  unfold takeGroup AnyExecutable.release
  rw [hfree]
  cases m.anyExecutable.callbackGroup with
  | none => cases success <;> rfl
  | some g =>
    funext g'
    by_cases hg : g' = g.id
    · simp [storeFlag, hg]
    · cases success with
      | false => simp [storeFlag, hg]
      | true =>
        simp only [storeFlag, hg, if_false]
        split
        · split
          · exact if_neg hg
          · rfl
        · rfl

theorem nextReady_released {c : Context} (hfree : c.canBeTakenFrom = fun _ => true) (m : Selection) :
    (getNextReadyExecutableFromMap c m).selection.anyExecutable.release
      (getNextReadyExecutableFromMap c m).canBeTakenFrom = fun _ => true := by
  unfold getNextReadyExecutableFromMap
  split <;> simp only [takeGroup_selection] <;> exact takeGroup_released hfree _ _

theorem getNextReady_tried (reg : Registry) (hfree : s.canBeTakenFrom = fun _ => true) (sight : Sight) :
    ∃ x r, TakesFirst (sight.context false reg s.canBeTakenFrom) s.memoryStrategy x r ∧
      (getNextReadyExecutable false reg s sight {}).success = x.isSome ∧
      (∀ spinning, (getNextReadyExecutable false reg s sight {}).execute spinning =
        s.tried sight x r.selection.memoryStrategy spinning) ∧
      (x = none → (getNextReadyExecutable false reg s sight {}).anyExecutable = {} ∧
        ∀ spinning, (getNextReadyExecutable false reg s sight {}).spin =
          s.tried sight x r.selection.memoryStrategy spinning) := by
  have h := nextReady_takesFirst (c := sight.context false reg s.canBeTakenFrom) rfl s.memoryStrategy
  have hreleased := (nextReady_released (c := sight.context false reg s.canBeTakenFrom) hfree
    { memoryStrategy := s.memoryStrategy }).trans hfree.symm
  have hcalls := h.calls
  rw [timersOf_taken] at hcalls
  have hsuccess := h.success
  have hcallbacks := entity_callbacks h.entity
  have hnothing := h.nothing
  have hflags := h.canBeTakenFrom
  refine ⟨_, _, h, hsuccess, fun spinning => ?_, fun hnone => ⟨hnothing hnone, fun spinning => ?_⟩⟩
  · unfold Next.execute getNextReadyExecutable Spin.tried Window.try
    simp only [hreleased, hcalls, hsuccess, hcallbacks]
    cases ((sight.context false reg s.canBeTakenFrom).candidates s.memoryStrategy).head? with
    | none => cases spinning <;> simp [takenBy]
    | some x => cases spinning <;> simp [takenBy]
  · unfold getNextReadyExecutable Spin.tried Window.try
    rw [hnone] at hcalls hsuccess hflags
    simp only [hcalls, hsuccess, hflags, hnone]
    cases spinning <;> simp [takenBy, Sight.context]

theorem PassStep.free {t : Spin} (h : PassStep reg i s t) : t.canBeTakenFrom = s.canBeTakenFrom := by
  cases h <;> rfl

/-- **A pass** is one try, or one that takes nothing, a wait and possibly another try. -/
theorem spinPass_steps (hfree : s.canBeTakenFrom = fun _ => true) (h : spinPass false reg s i = some s') :
    PassStep reg i s s' ∨ ∃ t, PassStep reg i s t ∧ PassStep reg i t s' := by
  obtain ⟨x, r, hfirst, hsuccess, hexecute, hnothing⟩ := getNextReady_tried reg hfree i.first
  unfold spinPass getNextExecutable at h
  simp only [Bool.false_eq_true, if_false, hsuccess, Option.some.injEq] at h
  cases x with
  | some x =>
    rw [Option.isSome_some, if_pos rfl, hexecute] at h
    exact Or.inl (h ▸ .tried i.first (some x) r (Or.inl rfl) hfirst)
  | none =>
    obtain ⟨hany, hspin⟩ := hnothing rfl
    rw [Option.isSome_none, if_neg (by simp), hany, hspin i.spinningBeforeExecute] at h
    have hwait := PassStep.waited (i := i) r hfirst
    cases hspinning : i.spinningAfterWait with
    | false =>
      rw [hspinning] at h
      exact Or.inl (h ▸ hwait)
    | true =>
      rw [hspinning] at h
      obtain ⟨y, r', hsecond, _, hexecute', _⟩ := getNextReady_tried reg (hwait.free.trans hfree) i.second
      rw [Bool.not_true, if_neg (by simp), hexecute'] at h
      exact Or.inr ⟨_, hwait, h ▸ .tried i.second y r' (Or.inr rfl) hsecond⟩

/-- An invariant of the tries and waits is one of a run. -/
theorem spin_invariant {P : Spin → Prop} {C : Pass → Prop}
    (hstep : ∀ s i s', s.canBeTakenFrom = (fun _ => true) → C i → P s → PassStep reg i s s' → P s')
    (passes : List Pass) (hpasses : ∀ i ∈ passes, C i) (h0 : P {}) {s : Spin}
    (hrun : runSteps (spinPass false reg) {} passes = some s) : P s := by
  have hinv : s.canBeTakenFrom = (fun _ => true) ∧ P s := by
    refine run_invariant_meeting (P := fun s => s.canBeTakenFrom = (fun _ => true) ∧ P s) (C := fun _ i => C i)
      ?_ passes ⟨rfl, h0⟩ (stepsMeet_of_mem passes _ fun i hi _ => hpasses i hi) hrun
    rintro s i s' ⟨hfree, hp⟩ hi hpass
    rcases spinPass_steps hfree hpass with h | ⟨t, h, h'⟩
    · exact ⟨h.free.trans hfree, hstep s i s' hfree hi hp h⟩
    · have hfree' := h.free.trans hfree
      exact ⟨h'.free.trans hfree', hstep t i s' hfree' hi (hstep s i t hfree hi hp h) h'⟩
  exact hinv.2

/-- What each wait has found is accounted for. -/
structure Spin.Accounts (reg : Registry) (s : Spin) : Prop where
  current : s.window.Accounts reg s.memoryStrategy
  past : ∀ w ∈ s.windows, (∃ m, w.Accounts reg m) ∧ w.Complete reg

theorem Spin.Accounts.step (hfree : s.canBeTakenFrom = fun _ => true) (h : s.Accounts reg)
    (hstep : PassStep reg i s s') : s'.Accounts reg := by
  cases hstep with
  | tried sight x r _ htry => exact ⟨h.current.try htry, h.past⟩
  | waited r htry =>
    refine ⟨accounts_found i.collected i.ready, fun w hw => ?_⟩
    rcases List.mem_append.mp hw with hw | hw
    · exact h.past w hw
    · cases List.mem_singleton.mp hw
      exact ⟨⟨_, h.current.try htry⟩, h.current.complete (fun g => by rw [hfree]) htry⟩

theorem accounts_empty : ({} : Window).Accounts reg {} where
  known e he := by cases he
  nodup k := by cases k <;> exact List.nodup_nil
  left k := List.Sublist.refl _
  once := List.nodup_nil
  taken k handle h := by cases h
  gone k handle h := Or.inl h

end

/-- **Nothing that is ready is dropped**: in every run of the single-threaded
executor without priorities, from one wait to the next each callback that was
found ready is taken once and nothing else is; one that is not taken was not
alive at a try in between, or is a timer that was cancelled at the last. -/
theorem ready_taken_once (reg : Registry) (passes : List Pass) (s : Spin)
    (hrun : runSteps (spinPass false reg) {} passes = some s) :
    (∀ w ∈ s.windows ++ [s.window], w.taken.Nodup ∧
      ∀ k handle, (k, handle) ∈ w.taken → handle ∈ w.found.handles k) ∧
    ∀ w ∈ s.windows, w.Complete reg := by
  have hinv : s.Accounts reg := by
    refine spin_invariant (C := fun _ => True) (fun s i s' hfree _ h hstep => h.step hfree hstep) passes
      (fun _ _ => trivial) ⟨accounts_empty, List.forall_mem_nil _⟩ hrun
  refine ⟨fun w hw => ?_, fun w hw => (hinv.past w hw).2⟩
  have haccounts : ∃ m, w.Accounts reg m := by
    rcases List.mem_append.mp hw with hw | hw
    · exact (hinv.past w hw).1
    · cases List.mem_singleton.mp hw
      exact ⟨_, hinv.current⟩
  obtain ⟨m, hm⟩ := haccounts
  exact ⟨hm.once, fun k handle hmem => (hm.taken k handle hmem).1⟩

/-- Two timers and a subscription are found; the second timer is destroyed by the first. -/
def destroyedTimer : List Pass :=
  let sight : Sight := { alive := { entity := fun k handle => !(k = .timer && handle = 2) } }
  [{ ready := fun _ handle => handle ∈ [1, 2, 3] }, { first := sight },
    { first := sight, collected := sight.alive, second := sight }]

theorem destroyedTimer_taken : ∃ s, runSteps (spinPass false timersAndSubscription) {} destroyedTimer = some s ∧
    s.windows.map Window.taken = [[], [(.timer, 1), (.subscription, 3)]] ∧
    ∀ w ∈ s.windows, w.Complete timersAndSubscription := by
  have hrun : (runSteps (spinPass false timersAndSubscription) {} destroyedTimer).any
      (fun s => s.windows.map Window.taken = [[], [(.timer, 1), (.subscription, 3)]]) := by decide
  obtain ⟨s, hs, htaken⟩ := (Option.any_eq_true _ _).mp hrun
  exact ⟨s, hs, of_decide_eq_true htaken, (ready_taken_once timersAndSubscription destroyedTimer s hs).2⟩

/-! ## Timers -/

def Spin.taken (s : Spin) : List (Kind × Nat) := (s.windows ++ [s.window]).flatMap Window.taken

section
variable {reg : Registry} {s s' : Spin} {i : Pass}

theorem PassStep.taken (h : PassStep reg i s s') : ∃ x, s'.taken = s.taken ++ takenBy x ∧
    s'.consumed = s.consumed ++ timersOf (takenBy x) ∧
    s'.executed = if i.spinningBeforeExecute then s.executed ++ takenBy x else s.executed := by
  have htry : ∀ {sight x m b}, (s.tried sight x m b).taken = s.taken ++ takenBy x := by
    intro sight x m b
    unfold Spin.taken Spin.tried
    simp only [List.flatMap_append, List.flatMap_singleton, taken_try, List.append_assoc]
  cases h with
  | tried sight x r => exact ⟨x, htry, rfl, rfl⟩
  | waited r =>
    refine ⟨none, ?_, rfl, rfl⟩
    rw [← htry]
    unfold Spin.taken waitForWork
    rw [List.flatMap_append, List.flatMap_singleton]
    exact List.append_nil _

end

/-- **No expiry is lost**: without priorities the timers whose expiries are
consumed are those taken, in order, and unless the executor is stopped between
a selection and its execution they are those executed. -/
theorem default_timers_executed (reg : Registry) (passes : List Pass) (s : Spin)
    (hrun : runSteps (spinPass false reg) {} passes = some s) :
    s.consumed = timersOf s.taken ∧ s.executed.Sublist s.taken ∧
    ((∀ i ∈ passes, i.spinningBeforeExecute = true) → s.executed = s.taken) := by
  refine ⟨?_, ?_, fun hpasses => ?_⟩
  · refine spin_invariant (P := fun s => s.consumed = timersOf s.taken) (C := fun _ => True) ?_ passes
      (fun _ _ => trivial) rfl hrun
    intro s i s' _ _ hs hstep
    obtain ⟨x, htaken, hconsumed, _⟩ := hstep.taken
    rw [htaken, hconsumed, hs, timersOf_append]
  · refine spin_invariant (P := fun s => s.executed.Sublist s.taken) (C := fun _ => True) ?_ passes
      (fun _ _ => trivial) (List.Sublist.refl _) hrun
    intro s i s' _ _ hs hstep
    obtain ⟨x, htaken, _, hexecuted⟩ := hstep.taken
    rw [htaken, hexecuted]
    split
    · exact hs.append (List.Sublist.refl _)
    · exact hs.trans (List.sublist_append_left _ _)
  · refine spin_invariant (P := fun s => s.executed = s.taken) (C := fun i => i.spinningBeforeExecute = true) ?_ passes
      hpasses rfl hrun
    intro s i s' _ hi hs hstep
    obtain ⟨x, htaken, _, hexecuted⟩ := hstep.taken
    rw [htaken, hexecuted, hs, if_pos hi]

/-- Of two timers that are ready together both are called and both are executed. -/
theorem bothTimers_executed : ∃ s, runSteps (spinPass false timersAndSubscription) {}
    [{ ready := fun _ handle => handle ∈ [1, 2] }, {}] = some s ∧ s.consumed = [1, 2] ∧ s.executed = s.taken := by
  have hrun : (runSteps (spinPass false timersAndSubscription) {}
      [{ ready := fun _ handle => handle ∈ [1, 2] }, {}]).any (fun s => s.consumed = [1, 2]) := by decide
  obtain ⟨s, hs, hconsumed⟩ := (Option.any_eq_true _ _).mp hrun
  exact ⟨s, hs, of_decide_eq_true hconsumed, (default_timers_executed timersAndSubscription _ s hs).2.2 (by simp)⟩

/-! ## Where nothing is created, destroyed or cancelled -/

/-- The callbacks of a set of live objects that a wait finds ready, in the order
of the kinds, groups and additions. -/
def Registry.readyCallbacks (reg : Registry) (alive : Alive) (ready : Kind → Nat → Bool) : List (Kind × Nat) :=
  kinds.flatMap fun k => (reg.groups.flatMap fun p =>
    if alive.group p.1.id && alive.node p.2 then
      ((p.1.ptrs k).filter fun e => ready k e.handle && alive.entity k e.handle).map fun e => (k, e.handle)
    else [])

section
variable {reg : Registry} {alive : Alive} {m : MemoryStrategy}

/-- Every handle can be taken. -/
def MemoryStrategy.Live (m : MemoryStrategy) (reg : Registry) (alive : Alive) : Prop :=
  ∀ k, ∀ handle ∈ m.handles k, alive.Reaches reg k handle

theorem verdict_live {c : Context} {η : Type} {k : Kind} {byHandle : η → Option Executable} {handle : η}
    (hfree : ∀ g, c.canBeTakenFrom g = true) (hcan : ∀ timer, c.canceled timer = false)
    (h : c.verdict k byHandle handle ≠ .dropped) : ∃ x, c.verdict k byHandle handle = .taken x := by
  cases hv : c.verdict k byHandle handle with
  | dropped => exact absurd hv h
  | stays =>
    obtain ⟨_, e, _, hcanceled⟩ := verdict_stays hfree (by rw [hv]; rfl)
    rw [hcan] at hcanceled
    cases hcanceled
  | taken x => exact ⟨x, rfl⟩

/-- The search of a kind takes the first handle of it. -/
theorem search_live (hm : m.Known reg) (hlive : m.Live reg alive) {c : Context}
    (hc : c = (Sight.mk alive fun _ => false).context false reg fun _ => true) (k : Kind) :
    (c.search m k).1.map (fun x => (x.kind, x.entity.handle)) = (m.handles k).head?.map (fun handle => (k, handle)) ∧
      (c.search m k).2 = (m.handles k).tail := by
  have hfree : ∀ g, c.canBeTakenFrom g = true := fun g => by rw [hc]; rfl
  have hcan : ∀ timer, c.canceled timer = false := fun timer => by rw [hc]; rfl
  by_cases hk : k = .waitable
  · subst hk
    have htaken : ∀ e ∈ m.waitableHandles, ∃ x, c.verdict .waitable some e = .taken x := by
      refine fun e he => verdict_live hfree hcan fun hdrop => ?_
      rw [hc] at hdrop
      exact verdict_dropped.2 e rfl (hm e he) hdrop (hlive .waitable _ (List.mem_map_of_mem he))
    simp only [Context.search, MemoryStrategy.handles, pick_head htaken, List.map_tail, List.head?_map]
    cases hl : m.waitableHandles with
    | nil => simp
    | cons e l =>
      obtain ⟨x, hx⟩ := htaken e (hl ▸ List.mem_cons_self ..)
      obtain ⟨hkind, hentity⟩ := verdict_entity hx
      cases hentity
      simp [hx, Verdict.taken?, hkind]
  · have htaken : ∀ handle ∈ m.handles k, ∃ x,
        c.verdict k (getEntityByHandle k · c.weakGroupsToNodes) handle = .taken x := by
      refine fun handle hin => verdict_live hfree hcan fun hdrop => ?_
      rw [hc] at hdrop
      exact verdict_dropped.1 hdrop (hlive k handle hin)
    rw [search_of_ne hk, pick_head htaken]
    cases hl : m.handles k with
    | nil => exact ⟨rfl, rfl⟩
    | cons handle l =>
      obtain ⟨x, hx⟩ := htaken handle (hl ▸ List.mem_cons_self ..)
      obtain ⟨hkind, hentity⟩ := verdict_entity hx
      simp [hx, Verdict.taken?, hkind, getEntityByHandle_handle hentity]

/-- The head of the queue is taken, and the rest of it is left. -/
theorem queue_live {x : Option Candidate} {r : NextReady} (hm : m.Known reg) (hlive : m.Live reg alive)
    (h : TakesFirst ((Sight.mk alive fun _ => false).context false reg fun _ => true) m x r) :
    m.queue = takenBy x ++ r.selection.memoryStrategy.queue ∧ (x = none → m.queue = []) := by
  have hsearch := search_live hm hlive rfl
  have hhandles := h.handles
  cases x with
  | none =>
    have hnil : ∀ k, m.handles k = [] := by
      intro k
      have hk := (hsearch k).1
      rw [first_searched.2 h.first k] at hk
      cases hl : m.handles k with
      | nil => rfl
      | cons a l => rw [hl] at hk; cases hk
    have hrest : ∀ k, r.selection.memoryStrategy.handles k = [] := by
      intro k
      rw [hhandles, if_pos (by simp), (hsearch k).2, hnil]
      rfl
    simp [MemoryStrategy.queue, hnil, hrest, takenBy]
  | some x =>
    refine ⟨?_, by simp⟩
    obtain ⟨hpick, hbefore⟩ := first_searched.1 x h.first
    have hcons : ∃ l, m.handles x.kind = x.entity.handle :: l := by
      have hhead := (hsearch x.kind).1
      rw [hpick] at hhead
      cases hl : m.handles x.kind with
      | nil => rw [hl] at hhead; cases hhead
      | cons a l =>
        rw [hl] at hhead
        simp only [Option.map_some, List.head?_cons, Option.some.injEq, Prod.mk.injEq] at hhead
        exact ⟨l, by rw [hhead.2]⟩
    have hnil : ∀ k, k.rank < x.kind.rank → m.handles k = [] := by
      intro k hk
      have hnone := (hsearch k).1
      rw [hbefore k hk] at hnone
      cases hl : m.handles k with
      | nil => rfl
      | cons a l => rw [hl] at hnone; cases hnone
    have hrest : ∀ k, r.selection.memoryStrategy.handles k =
        if k.rank ≤ x.kind.rank then (m.handles k).tail else m.handles k := by
      intro k
      rw [hhandles]
      simp only [Option.mem_some_iff, forall_eq', (hsearch k).2]
    obtain ⟨l, hl⟩ := hcons
    unfold MemoryStrategy.queue
    simp only [hrest, takenBy]
    obtain ⟨k, e, g⟩ := x
    have h1 := hnil .timer
    have h2 := hnil .subscription
    have h3 := hnil .service
    have h4 := hnil .client
    cases k <;> simp_all [kinds, Kind.rank]

theorem queue_found (ready : Kind → Nat → Bool) :
    ((collectEntities (reg.weakGroupsToNodes alive) fun _ => true).removeNullHandles ready).queue =
      reg.readyCallbacks alive ready := by
  unfold MemoryStrategy.queue Registry.readyCallbacks
  refine List.flatMap_congr fun k _ => ?_
  rw [handles_collected]
  unfold collectKind Registry.weakGroupsToNodes
  rw [List.flatMap_map, List.map_flatMap, List.filter_flatMap, List.map_flatMap]
  refine List.flatMap_congr fun p _ => ?_
  cases alive.group p.1.id with
  | false => simp
  | true =>
    cases alive.node p.2 with
    | false => simp
    | true =>
      simp only [if_true, Bool.and_self, ptrs_restrict]
      rw [List.filter_map, List.map_map, List.filter_filter]
      rfl

end

/-- Nothing is created or destroyed, no timer is cancelled, and the executor is not stopped before an execution. -/
def Pass.Steady (i : Pass) (alive : Alive) : Prop :=
  i.first = ⟨alive, fun _ => false⟩ ∧ i.collected = alive ∧ i.second = ⟨alive, fun _ => false⟩ ∧
    i.spinningBeforeExecute = true

/-- A part of a run that has waited in the windows `ws` before the current one
and executed `ex`: what was executed and what is queued are all that was found. -/
structure Spin.InOrder (reg : Registry) (alive : Alive) (ws : List Window) (ex : List (Kind × Nat)) (s : Spin) : Prop where
  known : s.memoryStrategy.Known reg
  live : s.memoryStrategy.Live reg alive
  executed : ex ++ s.memoryStrategy.queue = (ws ++ [s.window]).flatMap fun w => w.found.queue
  current : s.window.taken ++ s.memoryStrategy.queue = s.window.found.queue
  past : ∀ w ∈ ws, w.taken = w.found.queue

section
variable {reg : Registry} {alive : Alive} {s s' : Spin} {i : Pass} {ws : List Window} {ex : List (Kind × Nat)}

theorem Spin.InOrder.tried (h : s.InOrder reg alive ws ex) {x : Option Candidate} {r : NextReady}
    (htry : TakesFirst ((Sight.mk alive fun _ => false).context false reg fun _ => true) s.memoryStrategy x r) :
    (s.tried ⟨alive, fun _ => false⟩ x r.selection.memoryStrategy true).InOrder reg alive ws (ex ++ takenBy x) := by
  obtain ⟨hqueue, _⟩ := queue_live h.known h.live htry
  refine ⟨fun e he => h.known e (htry.waitables.subset he),
    fun k handle hin => h.live k handle ((htry.left k).subset hin), ?_, ?_, h.past⟩
  · have hexecuted := h.executed
    rw [hqueue, ← List.append_assoc, List.flatMap_append, List.flatMap_singleton] at hexecuted
    rw [List.flatMap_append, List.flatMap_singleton]
    exact hexecuted
  · have htaken : (s.window.try ⟨alive, fun _ => false⟩ x).taken = s.window.taken ++ takenBy x := taken_try
    change (s.window.try ⟨alive, fun _ => false⟩ x).taken ++ r.selection.memoryStrategy.queue = _
    rw [htaken, List.append_assoc, ← hqueue]
    exact h.current

theorem live_found (ready : Kind → Nat → Bool) {flags : Nat → Bool} :
    ((collectEntities (reg.weakGroupsToNodes alive) flags).removeNullHandles ready).Live reg alive := by
  intro k handle hin
  rw [handles_collected] at hin
  obtain ⟨e, he, rfl⟩ := List.mem_map.mp (List.mem_filter.mp hin).1
  obtain ⟨p, hp, hptrs, hgroup, hnode, hentity⟩ := mem_collectKind he
  exact ⟨p, hp, ⟨e, hptrs, rfl⟩, hgroup, hnode, hentity⟩

/-- A wait, whatever is still queued. -/
theorem inOrder_wait (s : Spin) (ready : Kind → Nat → Bool) :
    (waitForWork reg s alive ready).InOrder reg alive [] [] :=
  ⟨(accounts_found alive ready).known, live_found ready, (List.append_nil _).symm, rfl, List.forall_mem_nil _⟩

theorem Spin.InOrder.waited (h : s.InOrder reg alive ws ex) (hempty : s.memoryStrategy.queue = [])
    (ready : Kind → Nat → Bool) : (waitForWork reg s alive ready).InOrder reg alive (ws ++ [s.window]) ex := by
  have hwait : (waitForWork reg s alive ready).InOrder reg alive [] [] := inOrder_wait s ready
  have hexecuted := h.executed
  have hcurrent := h.current
  rw [hempty, List.append_nil] at hexecuted hcurrent
  refine ⟨hwait.known, hwait.live, ?_, hwait.current, fun w hw => ?_⟩
  · rw [List.flatMap_append, ← hexecuted]
    exact congrArg (ex ++ ·) hwait.executed
  · rcases List.mem_append.mp hw with hw | hw
    · exact h.past w hw
    · cases List.mem_singleton.mp hw
      exact hcurrent

theorem waitForWork_found (hfree : s.canBeTakenFrom = fun _ => true) (ready : Kind → Nat → Bool) :
    (waitForWork reg s alive ready).window.found.queue = reg.readyCallbacks alive ready := by
  unfold waitForWork
  rw [hfree]
  exact queue_found ready

/-- The initial window has found nothing, the others what was ready at their waits. -/
def Spin.Waits (reg : Registry) (alive : Alive) (passes : List Pass) (s : Spin) : Prop :=
  ∀ w ∈ s.windows ++ [s.window], w.found.queue = [] ∨ ∃ i ∈ passes, w.found.queue = reg.readyCallbacks alive i.ready

theorem PassStep.inOrder {passes : List Pass} (hfree : s.canBeTakenFrom = fun _ => true) (hi : i ∈ passes)
    (hsteady : i.Steady alive) (h : s.InOrder reg alive s.windows s.executed ∧ s.Waits reg alive passes)
    (hstep : PassStep reg i s s') : s'.InOrder reg alive s'.windows s'.executed ∧ s'.Waits reg alive passes := by
  obtain ⟨hfirst, hcollected, hsecond, hspinning⟩ := hsteady
  obtain ⟨hin, hwaits⟩ := h
  have htried : ∀ (sight : Sight) (x : Option Candidate) (m : MemoryStrategy),
      (s.tried sight x m i.spinningBeforeExecute).Waits reg alive passes := by
    intro sight x m w hw
    rcases List.mem_append.mp hw with hw | hw
    · exact hwaits w (List.mem_append_left _ hw)
    · cases List.mem_singleton.mp hw
      exact hwaits s.window (List.mem_append_right _ (List.mem_singleton_self _))
  cases hstep with
  | tried sight x r hsight htry =>
    have hsight : sight = ⟨alive, fun _ => false⟩ := by
      rcases hsight with h | h
      · exact h.trans hfirst
      · exact h.trans hsecond
    refine ⟨?_, htried sight x _⟩
    rw [hfree, hsight] at htry
    rw [hsight, hspinning]
    exact hin.tried htry
  | waited r htry =>
    have hbefore := htried i.first none r.selection.memoryStrategy
    rw [hfree, hfirst] at htry
    rw [hfirst, hspinning] at hbefore ⊢
    rw [hcollected]
    obtain ⟨hqueue, hnil⟩ := queue_live hin.known hin.live htry
    have hempty : r.selection.memoryStrategy.queue = [] := hqueue.symm.trans (hnil rfl)
    have htaken := hin.tried htry
    rw [show s.executed ++ takenBy none = s.executed from List.append_nil _] at htaken
    refine ⟨?_, fun w hw => ?_⟩
    · have hwaited := htaken.waited hempty i.ready
      simpa [waitForWork, Spin.tried, takenBy] using hwaited
    · rcases List.mem_append.mp hw with hw | hw
      · exact hbefore w hw
      · cases List.mem_singleton.mp hw
        exact Or.inr ⟨i, hi, waitForWork_found hfree i.ready⟩

theorem inOrder_empty : ({} : Spin).InOrder reg alive [] [] :=
  ⟨fun e he => absurd he List.not_mem_nil, fun k _ hin => absurd hin (by cases k <;> exact List.not_mem_nil), rfl, rfl,
    List.forall_mem_nil _⟩

end

/-- **What is ready is executed in order**: in every run without priorities in
which nothing is created, destroyed or cancelled and the executor is not stopped
before an execution, what was executed and what is still to be are all that the
waits have found, in the order of the kinds, groups and additions, and each wait
comes when everything found by the one before it was executed. -/
theorem ready_executed_in_order (reg : Registry) (alive : Alive) (passes : List Pass)
    (hpasses : ∀ i ∈ passes, i.Steady alive) (s : Spin) (hrun : runSteps (spinPass false reg) {} passes = some s) :
    s.executed ++ s.memoryStrategy.queue = (s.windows ++ [s.window]).flatMap (fun w => w.found.queue) ∧
    (∀ w ∈ s.windows, w.taken = w.found.queue) ∧
    ∀ w ∈ s.windows ++ [s.window], w.found.queue = [] ∨ ∃ i ∈ passes, w.found.queue = reg.readyCallbacks alive i.ready := by
  have hinv : s.InOrder reg alive s.windows s.executed ∧ s.Waits reg alive passes := by
    refine spin_invariant (P := fun s => s.InOrder reg alive s.windows s.executed ∧ s.Waits reg alive passes)
      (C := fun i => i ∈ passes ∧ i.Steady alive)
      (fun s i s' hfree hi h hstep => hstep.inOrder hfree hi.1 hi.2 h) passes (fun i hi => ⟨hi, hpasses i hi⟩)
      ⟨inOrder_empty, fun w hw => ?_⟩ hrun
    cases List.mem_singleton.mp hw
    exact Or.inl rfl
  exact ⟨hinv.1.executed, hinv.1.past, hinv.2⟩

def allReady : Pass := { ready := fun _ _ => true }

/-- One callback a pass, and then all of them again. -/
theorem allReady_executed : ∃ s, runSteps (spinPass false timersAndSubscription) {} (List.replicate 4 allReady) = some s ∧
    s.executed = [(.timer, 1), (.timer, 2), (.subscription, 3), (.timer, 1)] ∧
    s.executed ++ s.memoryStrategy.queue = (s.windows ++ [s.window]).flatMap (fun w => w.found.queue) := by
  have hrun : (runSteps (spinPass false timersAndSubscription) {} (List.replicate 4 allReady)).any
      (fun s => s.executed = [(.timer, 1), (.timer, 2), (.subscription, 3), (.timer, 1)]) := by decide
  obtain ⟨s, hs, hexecuted⟩ := (Option.any_eq_true _ _).mp hrun
  refine ⟨s, hs, of_decide_eq_true hexecuted,
    (ready_executed_in_order timersAndSubscription {} (List.replicate 4 allReady) (fun i hi => ?_) s hs).1⟩
  rw [List.eq_of_mem_replicate hi]
  exact ⟨rfl, rfl, rfl, rfl⟩

end ReferenceSystem
