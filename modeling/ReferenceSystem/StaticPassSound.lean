import ReferenceSystem.StaticSound

/-!
# What a pass of the static executor executes

The slots of the wait set belong to the handles of the memory strategy, which
takes the callback groups that came with a node first; the executable list takes
them last. A slot is used for the executable of the same index.
-/

namespace ReferenceSystem

/-! ## Slots and executables -/

section
variable {k : Kind} {w : StaticWorld}

end

/-! ## The collected lists -/

section
variable {c : Nat → Bool} {w : StaticWorld} {m : WeakGroupsToNodes} {k : Kind}

end

section
variable {c : Nat → Bool} {w : StaticWorld} {m : WeakGroupsToNodes} {k : Kind}

/-- The entities of a callback group that their owners still have. -/
def StaticWorld.owned (w : StaticWorld) (k : Kind) (group : Nat) : List Nat :=
  ((w.created k).filter fun a => a.group = group && !w.released k a.handle).map (·.handle)

end

theorem Joins.valid {w : StaticWorld} {g n : Nat} (h : w.Joins g n) : w.valid (g, n) = true := by
  obtain ⟨_, hexp, a, ha, rfl, _⟩ := h
  simp [StaticWorld.valid, hexp, groupsOf_alive a ha]

/-- A step that does not make the collector collect while none of the given nodes has news. -/
def Unnoticed (registered : Nat → Prop) : StaticStep → Prop
  | .init _ => False
  | .destroy => False
  | .pass _ r => ∀ n, registered n → r.triggered n = false
  | _ => True

theorem collectorIsReady_eq_false {w : StaticWorld} (h : StaticInv w) {r : Ready}
    (hr : ∀ n ∈ w.collector.weakNodesToGuardConditions, r.triggered n = false) : collectorIsReady r w = false := by
  refine List.any_eq_false.mpr fun p hp => ?_
  have hlookup : w.collector.weakNodesToGuardConditions[p.1]? = some p.2 :=
    Std.TreeMap.mem_toList_iff_getElem?_eq_some.mp hp
  have hown := h.own _ _ hlookup
  rw [hown, hr p.1 (mem_iff_exists.mpr ⟨p.2, hlookup⟩)]
  simp

theorem unnoticed_step {w w' : StaticWorld} {a : StaticStep} {registered : Nat → Prop} (h : StaticInv w)
    (hreg : ∀ n ∈ w.collector.weakNodesToGuardConditions, registered n) (ha : Unnoticed registered a)
    (hstep : staticStep w a = some w') : w.collector.SameLists w'.collector ∧
      ∀ n ∈ w'.collector.weakNodesToGuardConditions, n ∈ w.collector.weakNodesToGuardConditions := by
  cases staticStep_does h hstep with
  | shared => exact ⟨.refl _, fun _ hn => hn⟩
  | create => exact ⟨.refl _, fun _ hn => hn⟩
  | release => exact ⟨.refl _, fun _ hn => hn⟩
  | quiet _ _ _ hquiet => exact ⟨hquiet.lists, hquiet.guards⟩
  | init => exact ha.elim
  | wait => exact ⟨.refl _, fun _ hn => hn⟩
  | rebuild _ hready =>
    rw [collectorIsReady_eq_false h fun n hn => ha n (hreg n hn)] at hready
    cases hready
  | destroy => exact ha.elim

theorem unnoticed_run {v w' : StaticWorld} {after : List StaticStep} (h : StaticInv v)
    (hafter : runSteps staticStep v after = some w')
    (hquiet : ∀ a ∈ after, Unnoticed (· ∈ v.collector.weakNodesToGuardConditions) a) :
    StaticInv w' ∧ v.collector.SameLists w'.collector ∧
      ∀ n ∈ w'.collector.weakNodesToGuardConditions, n ∈ v.collector.weakNodesToGuardConditions :=
  run_invariant_meeting (P := fun u => StaticInv u ∧ v.collector.SameLists u.collector ∧
      ∀ n ∈ u.collector.weakNodesToGuardConditions, n ∈ v.collector.weakNodesToGuardConditions)
    (C := fun _ a => Unnoticed (· ∈ v.collector.weakNodesToGuardConditions) a)
    (fun u a u' hu hmeet hs => by
      obtain ⟨hlists, hguards⟩ := unnoticed_step hu.1 hu.2.2 hmeet hs
      exact ⟨staticInv_step hu.1 hs, hu.2.1.trans hlists, fun n hn => hu.2.2 n (hguards n hn)⟩) after
    ⟨h, .refl _, fun _ hn => hn⟩ (stepsMeet_of_mem _ _ fun a ha _ => hquiet a ha) hafter

/-- Whatever is called, and whoever comes or goes: until the executor starts to
spin again, or a node that is registered now has news, a pass executes only what
is in the list now, and collects nothing. -/
theorem pass_frozen {before after : List StaticStep} {w w' : StaticWorld} (h : staticRun before = some w)
    (hafter : runSteps staticStep w after = some w')
    (hquiet : ∀ a ∈ after, Unnoticed (· ∈ w.collector.weakNodesToGuardConditions) a) (spinOnce : Bool) {r : Ready}
    (hr : ∀ n ∈ w.collector.weakNodesToGuardConditions, r.triggered n = false) :
    (executeReadyExecutables spinOnce r w').1 = w' ∧
      ∀ x ∈ (executeReadyExecutables spinOnce r w').2.1, ∃ k handle, x = .entity k handle ∧
        handle ∈ w.collector.execList.entities k := by
  obtain ⟨hinv, hlists, hguards⟩ := unnoticed_run (staticInv_run h) hafter hquiet
  have hready := collectorIsReady_eq_false hinv fun n hn => hr n (hguards n hn)
  have hlog : ∀ x ∈ readyExecutables r w', ∃ k handle, x = .entity k handle ∧
      handle ∈ w.collector.execList.entities k := by
    unfold readyExecutables
    rw [hlists.execList]
    intro x hx
    rcases List.mem_append.mp hx with hx | hx
    · obtain ⟨k, _, hx⟩ := List.mem_flatMap.mp hx
      obtain ⟨handle, hhandle, rfl⟩ := List.mem_map.mp hx
      refine ⟨k, handle, rfl, ?_⟩
      obtain ⟨⟨a, b⟩, hp, hsome⟩ := List.mem_filterMap.mp hhandle
      split at hsome
      · cases hsome
        rw [hlists.execList] at hp
        exact (List.of_mem_zip hp).1
      · cases hsome
    · obtain ⟨handle, hhandle, rfl⟩ := List.mem_map.mp hx
      exact ⟨.waitable, handle, rfl, List.mem_of_mem_filter hhandle⟩
  unfold executeReadyExecutables
  simp only [hready, Bool.and_false, Bool.false_eq_true, if_false]
  split
  · exact ⟨rfl, fun x hx => hlog x (List.mem_of_mem_take hx)⟩
  · exact ⟨rfl, hlog⟩

/-- A node that is added while the executor spins has no callback executed, although it is in the list of nodes. -/
theorem mixedGroups_frozen : ∃ w w', staticRun (mixedGroups ++ [.init fun _ => true]) = some w ∧
    runSteps staticStep w [.shared (.createCallbackGroup { id := 2, node := 8 }),
      .createEntity .subscription { handle := 12, group := 2 }, .addNode 8 true] = some w' ∧
    8 ∈ w'.collector.weakNodes ∧
    ∀ x ∈ (executeReadyExecutables false { waitSet := fun _ _ => true, triggered := fun n => n == 8 } w').2.1,
      ∃ k handle, x = .entity k handle ∧ handle ∈ w.collector.execList.entities k := by
  have hsome : ((staticRun (mixedGroups ++ [.init fun _ => true])).bind fun w =>
      (runSteps staticStep w [.shared (.createCallbackGroup { id := 2, node := 8 }),
        .createEntity .subscription { handle := 12, group := 2 }, .addNode 8 true]).map fun w' =>
      decide (w.collector.weakNodesToGuardConditions.toList = [(7, 7)] ∧ 8 ∈ w'.collector.weakNodes)) = some true := by
    decide
  obtain ⟨w, hw, hrest⟩ := Option.bind_eq_some_iff.mp hsome
  obtain ⟨w', hw', hstate⟩ := Option.map_eq_some_iff.mp hrest
  obtain ⟨hreg, hadded⟩ := of_decide_eq_true hstate
  have hseven : ∀ n ∈ w.collector.weakNodesToGuardConditions, (n == 8) = false := by
    intro n hn
    obtain ⟨m, hm⟩ := mem_iff_exists.mp hn
    have hmem := Std.TreeMap.mem_toList_iff_getElem?_eq_some.mpr hm
    rw [hreg, List.mem_singleton] at hmem
    cases hmem
    rfl
  refine ⟨w, w', hw, hw', hadded, (pass_frozen hw hw' (fun a ha => ?_) false hseven).2⟩
  simp only [List.mem_cons, List.not_mem_nil, or_false] at ha
  rcases ha with rfl | rfl | rfl <;> trivial

/-! ## Passes after a collection -/

/-- A step with which the entities are collected, and the world they are collected in. -/
inductive Collects (w : StaticWorld) : StaticStep → (Nat → Bool) → StaticWorld → Prop
  -- the old list is gone by then
  | init (c : Nat → Bool) : Collects w (.init c) c w.clearExecList
  -- with `spin_once` only if nothing was executed before
  | pass {spinOnce : Bool} {r : Ready} : (spinOnce = true → readyExecutables r w = []) →
      w.collector.execList.collector = true → collectorIsReady r w = true →
      Collects w (.pass spinOnce r) r.canBeTakenFrom w

theorem Collects.rebuilt {w u v : StaticWorld} {a : StaticStep} {c : Nat → Bool} (h : StaticInv w)
    (hc : Collects w a c u) (hstep : staticStep w a = some v) : StaticInv u ∧ ∃ v', Rebuilt c u v' ∧ v'.shared = v.shared ∧
      (∀ k, v'.collector.map k = v.collector.map k) ∧ v'.collector.weakNodes = v.collector.weakNodes ∧
      v'.collector.weakNodesToGuardConditions = v.collector.weakNodesToGuardConditions ∧
      v'.collector.execList = v.collector.execList ∧ v'.collector.memoryStrategy = v.collector.memoryStrategy := by
  obtain ⟨called, hcall, rfl⟩ := Option.map_eq_some_iff.mp hstep
  cases hc with
  | init =>
    have hcleared : StaticInv w.clearExecList := h.congr rfl rfl (fun k => by cases k <;> rfl) rfl rfl rfl h.room
    obtain ⟨v', heq, hv'⟩ := collectorExecute_rebuilt hcleared c
    cases hcall
    simp only [collectorInit, heq]
    exact ⟨hcleared, v', hv', rfl, fun k => by cases k <;> rfl, rfl, rfl, rfl, rfl⟩
  | @pass spinOnce r hfirst hcollector hready =>
    simp only [staticCall] at hcall
    split at hcall
    · cases hcall
      obtain ⟨v', heq, hv'⟩ := collectorExecute_rebuilt h r.canBeTakenFrom
      have hnone : (spinOnce && !(readyExecutables r w).isEmpty) = false := by
        cases spinOnce with
        | false => rfl
        | true => rw [hfirst rfl]; rfl
      unfold executeReadyExecutables
      simp only [hnone, Bool.false_eq_true, if_false, hcollector, hready, Bool.and_true, if_true, heq]
      exact ⟨h, v', hv', rfl, fun _ => rfl, rfl, rfl, rfl, rfl⟩
    · cases hcall

/-- After a collection the callback groups are alive, with nodes that are alive
and registered, and no automatic callback group of its nodes is free. -/
theorem collects_complete {steps : List StaticStep} {w u v : StaticWorld} {a : StaticStep} {c : Nat → Bool}
    (h : staticRun steps = some w) (hcollects : Collects w a c u) (hstep : staticStep w a = some v) :
    (∀ k, ∀ g n : Nat, (v.collector.map k)[g]? = some n → v.shared.groupExpired g = false ∧
      v.shared.nodeExpired n = false ∧ n ∈ v.collector.weakNodesToGuardConditions) ∧
    ∀ n ∈ v.collector.weakNodes, v.shared.nodeExpired n = false → ∀ g ∈ v.shared.groupsOf n,
      g.automaticallyAddToExecutorWithNode = true → v.shared.groupHasExecutor g.id = true := by
  obtain ⟨hu, v', hv', hshared, hmap, hnodes, hguards, _⟩ := hcollects.rebuilt (staticInv_run h) hstep
  have hworld := hv'.shared
  rw [← hshared, ← hnodes, ← hguards]
  refine ⟨fun k g n hg => ?_, fun n hn hexp g hg hauto => ?_⟩
  · rw [← hmap] at hg
    have hreg := (hv'.inv.known k g n hg).resolve_right (by rw [hv'.newNodes]; exact List.not_mem_nil)
    have hvalid : u.valid (g, n) = true := by
      cases k with
      | itself => exact ((hv'.itself g n).mp hg).2
      | node => exact (hv'.fresh g n hg).elim And.right fun hnew => Joins.valid hnew.2
    simp only [StaticWorld.valid, Bool.and_eq_true, Bool.not_eq_true'] at hvalid
    rw [hworld]
    exact ⟨hvalid.1, hvalid.2, hreg⟩
  · rw [hworld] at hexp hg
    rw [hv'.weakNodes] at hn
    cases hfree : u.shared.groupHasExecutor g.id with
    | true => exact (hv'.marked g.id).mpr (Or.inl hfree)
    | false => exact (hv'.marked g.id).mpr (Or.inr (hv'.complete n hn g.id ⟨hfree, hexp, g, hg, rfl, hauto⟩))

theorem mixedGroups_collected : ∃ w v, staticRun mixedGroups = some w ∧ staticStep w (.init fun _ => true) = some v ∧
    ∀ k, ∀ g n : Nat, (v.collector.map k)[g]? = some n → v.shared.groupExpired g = false ∧
      v.shared.nodeExpired n = false ∧ n ∈ v.collector.weakNodesToGuardConditions := by
  have hsome : ((staticRun mixedGroups).bind fun w => staticStep w (.init fun _ => true)).isSome = true := by decide
  obtain ⟨v, hv⟩ := Option.isSome_iff_exists.mp hsome
  obtain ⟨w, hw, hv⟩ := Option.bind_eq_some_iff.mp hv
  exact ⟨w, v, hw, hv, (collects_complete hw (.init _) hv).1⟩

end ReferenceSystem
