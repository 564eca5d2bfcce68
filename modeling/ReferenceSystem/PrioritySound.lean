import ReferenceSystem.SelectionSound

/-!
# Selection with and without priorities

Without priorities the first eligible callback is taken, in the order of the
kinds and then of the handles. With priorities it is the first among those of
the highest priority in the same order, so equal priorities select alike.
-/

namespace ReferenceSystem

/-! ## Without priorities -/

section
variable {c : Context} (hc : c.callbackPriorityEnabled = false)
include hc

theorem getNextLoop_first {η : Type} (k : Kind) (byHandle : η → Option Executable) (highestPriority : Int)
    (a : AnyExecutable) : ∀ handles : List η,
    (getNextLoop c k byHandle handles highestPriority a).1 =
      a.takeBest (c.scan k byHandle handles).head? c.weakGroupsToNodes
  | [] => rfl
  | handle :: handles => by
    have ih := getNextLoop_first k byHandle highestPriority a handles
    rw [scan_cons, getNextLoop]
    cases hb : byHandle handle with
    | none => exact ih
    | some e =>
      simp only [Option.bind_some, Context.candidate]
      cases hg : getGroupByEntity k e c.weakGroupsToNodes with
      | none => exact ih
      | some g =>
        cases hf : c.canBeTakenFrom g.id with
        | false => simpa [hf] using ih
        | true => simp [hf, hc, AnyExecutable.takeBest]

theorem getNextTimerLoop_first (highestPriority : Int) (a : AnyExecutable) : ∀ handles : List Nat,
    (getNextTimerLoop c handles highestPriority a).1 =
      a.takeBest ((c.scan .timer (getEntityByHandle .timer · c.weakGroupsToNodes) handles).filter
        fun x => !c.canceled x.entity.handle).head? c.weakGroupsToNodes
  | [] => rfl
  | handle :: handles => by
    have ih := getNextTimerLoop_first highestPriority a handles
    rw [scan_cons, getNextTimerLoop]
    cases hb : getEntityByHandle .timer handle c.weakGroupsToNodes with
    | none => exact ih
    | some e =>
      simp only [Option.bind_some, Context.candidate]
      cases hg : getGroupByEntity .timer e c.weakGroupsToNodes with
      | none => exact ih
      | some g =>
        cases hf : c.canBeTakenFrom g.id with
        | false => simpa [hf] using ih
        | true =>
          cases hcan : c.canceled e.handle with
          | true => simpa [hf, hcan] using ih
          | false => simp [hf, hc, hcan, AnyExecutable.takeBest]

theorem probe_first {η : Type} {k : Kind} {byHandle : η → Option Executable} {handles : List η} {m : MemoryStrategy}
    (he : c.eligible m k = c.scan k byHandle handles) :
    (getNextLoop c k byHandle handles (-1) {}).1 =
      chosen c.weakGroupsToNodes (c.eligible m k).head? (c.eligible m k).head? := by
  rw [getNextLoop_first hc, he, takeBest_empty]

theorem getFirst_chosen (m : MemoryStrategy) :
    (getFirst c { memoryStrategy := m }).2 = !(c.candidates m).isEmpty ∧
    (getFirst c { memoryStrategy := m }).1.anyExecutable =
      (chosen c.weakGroupsToNodes (c.candidates m).head? (c.candidates m).head?).takeData := by
  have htimer : (getNextTimerLoop c m.timerHandles (-1) {}).1 =
      chosen c.weakGroupsToNodes (c.eligible m .timer).head? (c.eligible m .timer).head? := by
    rw [getNextTimerLoop_first hc, takeBest_empty]; rfl
  have hsub := probe_first hc (m := m) (k := .subscription) rfl
  have hser := probe_first hc (m := m) (k := .service) rfl
  have hcli := probe_first hc (m := m) (k := .client) rfl
  have hwai := probe_first hc (m := m) (k := .waitable) rfl
  have hempty : chosen c.weakGroupsToNodes none none = {} := rfl
  have hfield : ∀ {k : Kind} {x : Candidate} {l : List Candidate}, c.eligible m k = x :: l →
      (chosen c.weakGroupsToNodes (some x) (some x)).entity k = some x.entity := by
    intro k x l h
    rw [entity_chosen, Option.bind_some, if_pos (eligible_kind (h ▸ List.mem_cons_self ..)).symm]
  have hdata : ∀ {k : Kind} {x : Candidate} {l : List Candidate}, c.eligible m k = x :: l → k ≠ .waitable →
      (chosen c.weakGroupsToNodes (some x) (some x)).takeData = chosen c.weakGroupsToNodes (some x) (some x) := by
    intro k x l h hk
    have hnone : (chosen c.weakGroupsToNodes (some x) (some x)).entity .waitable = none := by
      rw [entity_chosen, Option.bind_some, eligible_kind (h ▸ List.mem_cons_self ..), if_neg hk.symm]
    have hnone : (chosen c.weakGroupsToNodes (some x) (some x)).waitable = none := hnone
    rw [AnyExecutable.takeData, hnone]
  unfold getFirst getNextTimer getNextSubscription getNextService getNextClient getNextWaitable Context.candidates
  simp only [htimer]
  cases h₁ : c.eligible m .timer with
  | cons x l =>
    have hsome : (chosen c.weakGroupsToNodes (some x) (some x)).timer = some x.entity := hfield h₁
    simp [hsome, hdata h₁]
  | nil =>
    simp only [List.head?_nil, hempty, hsub]
    cases h₂ : c.eligible m .subscription with
    | cons x l =>
      have hsome : (chosen c.weakGroupsToNodes (some x) (some x)).subscription = some x.entity := hfield h₂
      simp [hsome, hdata h₂]
    | nil =>
      simp only [List.head?_nil, hempty, hser]
      cases h₃ : c.eligible m .service with
      | cons x l =>
        have hsome : (chosen c.weakGroupsToNodes (some x) (some x)).service = some x.entity := hfield h₃
        simp [hsome, hdata h₃]
      | nil =>
        simp only [List.head?_nil, hempty, hcli]
        cases h₄ : c.eligible m .client with
        | cons x l =>
          have hsome : (chosen c.weakGroupsToNodes (some x) (some x)).client = some x.entity := hfield h₄
          simp [hsome, hdata h₄]
        | nil =>
          simp only [List.head?_nil, hempty, hwai]
          cases h₅ : c.eligible m .waitable with
          | cons x l =>
            have hsome : (chosen c.weakGroupsToNodes (some x) (some x)).waitable = some x.entity := hfield h₅
            simp [hsome]
          | nil => simp [hempty, AnyExecutable.takeData]

/-- **A call without priorities** takes the first eligible callback. -/
theorem nextReady_first (m : MemoryStrategy) :
    let r := getNextReadyExecutableFromMap c { memoryStrategy := m }
    (r.success = true ↔ c.candidates m ≠ []) ∧
    ∀ k, r.selection.anyExecutable.entity k =
      (c.candidates m).head?.bind fun x => if k = x.kind then some x.entity else none := by
  obtain ⟨hsuccess, hany⟩ := getFirst_chosen hc m
  have hr : getNextReadyExecutableFromMap c { memoryStrategy := m } =
      takeGroup c (getFirst c { memoryStrategy := m }).2 (getFirst c { memoryStrategy := m }).1 := by
    unfold getNextReadyExecutableFromMap
    simp [hc]
  have hsel : ∀ success s, (takeGroup c success s).selection = s := by
    intro success s
    unfold takeGroup
    split
    · split <;> rfl
    · rfl
  simp only [hr, hsel, hany, hsuccess, entity_takeData, entity_chosen]
  cases hcand : c.candidates m with
  | nil => simp [takeGroup]
  | cons x l =>
    obtain ⟨⟨node, hmem⟩, _⟩ := candidates_found (c := c) (m := m) (hcand ▸ List.mem_cons_self ..)
    have hg : (getFirst c { memoryStrategy := m }).1.anyExecutable.callbackGroup = some x.group := by
      rw [hany, callbackGroup_takeData, callbackGroup_chosen, hcand]; rfl
    simp [takeGroup_known hg hmem]

end

/-! ## With priorities -/

/-- **The highest priority is selected**: a call succeeds exactly if something
is eligible, and takes one callback of the highest priority, the first of these
in the order of the kinds and handles; with equal priorities this is the
callback that is taken without priorities. -/
theorem highest_priority_selected {c : Context} (hc : c.callbackPriorityEnabled = true)
    (hn : NonNegative c.weakGroupsToNodes) (m : MemoryStrategy) :
    let r := getNextReadyExecutableFromMap c { memoryStrategy := m }
    (r.success = true ↔ c.candidates m ≠ []) ∧
    (r.success = true → ∃ x before after, c.candidates m = before ++ x :: after ∧
      (∀ k, r.selection.anyExecutable.entity k = if k = x.kind then some x.entity else none) ∧
      (∀ y ∈ before, y.priority < x.priority) ∧ ∀ y ∈ after, y.priority ≤ x.priority) ∧
    ((∀ x ∈ c.candidates m, ∀ y ∈ c.candidates m, x.priority = y.priority) → ∀ k,
      r.selection.anyExecutable.entity k =
        (getNextReadyExecutableFromMap { c with callbackPriorityEnabled := false }
          { memoryStrategy := m }).selection.anyExecutable.entity k) := by
  intro r
  have hfirst := (nextReady_first (c := { c with callbackPriorityEnabled := false }) rfl m).2
  rcases (nextReady_cases hc hn (m := m)).1 with hnone | ⟨x, y, htaken⟩
  · have hfalse : r.success = false := hnone.success
    refine ⟨?_, ?_, ?_⟩
    · simp [hfalse, hnone.none_eligible]
    · simp [hfalse]
    · intro _ k
      have hnil : ({ c with callbackPriorityEnabled := false } : Context).candidates m = [] := hnone.none_eligible
      have hempty : r.selection.anyExecutable = {} := hnone.anyExecutable
      rw [hfirst k, hnil, hempty]
      cases k <;> rfl
  · have htrue : r.success = true := htaken.success
    obtain ⟨before, after, hsplit, hlt, hle⟩ := best_split htaken.first
    refine ⟨?_, fun _ => ⟨x, before, after, hsplit, htaken.entity, hlt, hle⟩, ?_⟩
    · simp [htrue, hsplit]
    · intro hequal k
      have hbefore : before = [] := by
        apply List.eq_nil_iff_forall_not_mem.mpr
        intro z hz
        have hz' : z ∈ c.candidates m := by rw [hsplit]; exact List.mem_append_left _ hz
        exact absurd (hequal z hz' x (mem_of_best htaken.first)) (ne_of_lt (hlt z hz))
      have hhead : ({ c with callbackPriorityEnabled := false } : Context).candidates m = x :: after := by
        rw [hbefore, List.nil_append] at hsplit
        exact hsplit
      rw [hfirst k, hhead]
      exact htaken.entity k

/-- A cancelled timer, a ready one, and two subscriptions of a higher priority. -/
def mixedGroup : CallbackGroup where
  id := 0
  type := .mutuallyExclusive
  timerPtrs := [⟨1, 9⟩, ⟨2, 3⟩]
  subscriptionPtrs := [⟨3, 5⟩, ⟨4, 5⟩]

def mixedContext : Context where
  callbackPriorityEnabled := true
  weakGroupsToNodes := [(some mixedGroup, some 0)]
  canBeTakenFrom := fun _ => true
  canceled := fun handle => handle = 1

def mixedHandles : MemoryStrategy := { timerHandles := [1, 2], subscriptionHandles := [3, 4] }

theorem mixedContext_selected :
    (getNextReadyExecutableFromMap mixedContext { memoryStrategy := mixedHandles }).success = true ∧
    (getNextReadyExecutableFromMap mixedContext { memoryStrategy := mixedHandles }).selection.anyExecutable.subscription =
      some ⟨3, 5⟩ := by
  have hn : NonNegative mixedContext.weakGroupsToNodes := by
    intro pair hpair group hgroup
    cases List.mem_singleton.mp hpair
    cases hgroup
    decide
  obtain ⟨hsuccess, _⟩ := highest_priority_selected rfl hn mixedHandles
  exact ⟨hsuccess.mpr (by decide), by decide⟩

end ReferenceSystem
