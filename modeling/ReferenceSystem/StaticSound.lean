import ReferenceSystem.StaticExecutor
import ReferenceSystem.LifeSound

/-!
# What the static executor waits for

The collector of a static executor over every sequence of calls, on it and on
the other executors of the context: which callback groups it has, which nodes
are registered with it, and what a pass executes.
-/

namespace ReferenceSystem

/-! ## Fields -/

namespace StaticCollector

theorem map_setMap (c : StaticCollector) (k k' : AddedBy) (m : WeakGroupsToNodes) :
    (c.setMap k m).map k' = if k' = k then m else c.map k' := by
  cases k <;> cases k' <;> rfl

/-- What a pass works on. -/
structure SameLists (c c' : StaticCollector) : Prop where
  execList : c'.execList = c.execList
  memoryStrategy : c'.memoryStrategy = c.memoryStrategy
  waitSetGuardConditions : c'.waitSetGuardConditions = c.waitSetGuardConditions
  initialized : c'.initialized = c.initialized

theorem SameLists.refl (c : StaticCollector) : SameLists c c := ⟨rfl, rfl, rfl, rfl⟩

theorem SameLists.trans {a b c : StaticCollector} (h : SameLists a b) (h' : SameLists b c) : SameLists a c :=
  ⟨h'.execList.trans h.execList, h'.memoryStrategy.trans h.memoryStrategy,
    h'.waitSetGuardConditions.trans h.waitSetGuardConditions, h'.initialized.trans h.initialized⟩

end StaticCollector

/-! ## The invariant -/

/-- The callback groups and nodes of the static executor are marked as added and
in no other executor; the nodes of its callback groups are registered, or will
be; and the wait set has room for those registered. -/
structure StaticInv (w : StaticWorld) : Prop where
  associated : Associated w.shared
  orphan : ∀ k g, g ∈ w.collector.map k → OrphanGroup w.shared g
  apart : ∀ g k k', g ∈ w.collector.map k → g ∈ w.collector.map k' → k = k'
  orphanNode : ∀ n ∈ w.collector.weakNodes, Orphan w.shared n
  nodup : w.collector.weakNodes.Nodup
  distinct : ∀ k, ((w.created k).map (·.handle)).Nodup
  known : ∀ k, ∀ g n : Nat, (w.collector.map k)[g]? = some n →
    n ∈ w.collector.weakNodesToGuardConditions ∨ n ∈ w.collector.newNodes
  own : ∀ n m : Nat, w.collector.weakNodesToGuardConditions[n]? = some m → m = n
  room : w.collector.initialized = true →
    w.collector.weakNodesToGuardConditions.size ≤ w.collector.waitSetGuardConditions

/-- A change of the lists only. -/
theorem StaticInv.congr {w w' : StaticWorld} (h : StaticInv w) (hshared : w'.shared = w.shared)
    (hcreated : w'.created = w.created) (hmap : ∀ k, w'.collector.map k = w.collector.map k)
    (hnodes : w'.collector.weakNodes = w.collector.weakNodes)
    (hguards : w'.collector.weakNodesToGuardConditions = w.collector.weakNodesToGuardConditions)
    (hnew : w'.collector.newNodes = w.collector.newNodes)
    (hroom : w'.collector.initialized = true →
      w.collector.weakNodesToGuardConditions.size ≤ w'.collector.waitSetGuardConditions) : StaticInv w' := by
  refine ⟨hshared ▸ h.associated, fun k g hg => ?_, fun g k k' hk hk' => ?_, fun n hn => ?_, hnodes ▸ h.nodup,
    hcreated ▸ h.distinct, fun k g n hg => ?_, fun n m hm => ?_, fun hinit => ?_⟩
  · rw [hshared]; exact h.orphan k g (hmap k ▸ hg)
  · exact h.apart g k k' (hmap k ▸ hk) (hmap k' ▸ hk')
  · rw [hshared]; exact h.orphanNode n (hnodes ▸ hn)
  · rw [hguards, hnew]; exact h.known k g n (hmap k ▸ hg)
  · exact h.own n m (hguards ▸ hm)
  · rw [hguards]; exact hroom hinit

theorem StaticInv.free {w : StaticWorld} (h : StaticInv w) {g : Nat} (hg : w.shared.groupHasExecutor g = false) :
    (∀ k, g ∉ w.collector.map k) ∧ ∀ e, g ∉ (w.shared.executors e).weakGroupsToNodes := by
  refine ⟨fun k hk => ?_, fun e he => ?_⟩
  · rw [(h.orphan k g hk).1] at hg; cases hg
  · rw [h.associated.taken e g he] at hg; cases hg

theorem OrphanGroup.flag {w : Association} {a : Nat} (h : OrphanGroup w a) {f : Nat → Bool} (hf : f a = true) :
    OrphanGroup { w with groupHasExecutor := f } a :=
  ⟨hf, h.2⟩

theorem Associated.flagGroups {w : Association} (h : Associated w) {f : Nat → Bool}
    (hf : ∀ e, ∀ g ∈ (w.executors e).weakGroupsToNodes, f g = true) : Associated { w with groupHasExecutor := f } :=
  ⟨h.split, h.guarded, fun e g hg => hf e g hg, h.unique, h.nodup, h.nodeTaken, h.nodeUnique⟩

/-! ## Adding a callback group -/

def StaticWorld.isNew (w : StaticWorld) (node : Nat) : Bool := !w.hasNode node .itself && !w.hasNode node .node

/-- A free callback group is added. -/
def StaticWorld.added (w : StaticWorld) (g n : Nat) (k : AddedBy) : StaticWorld :=
  (w.flagGroup g true).setCollector { w.collector.setMap k ((w.collector.map k).insertIfNew g n) with
    newNodes := if w.isNew n then w.collector.newNodes ++ [n] else w.collector.newNodes }

theorem added_map (w : StaticWorld) (g n : Nat) (k k' : AddedBy) :
    (w.added g n k).collector.map k' = if k' = k then (w.collector.map k).insertIfNew g n else w.collector.map k' := by
  cases k <;> cases k' <;> rfl

theorem added_guards (w : StaticWorld) (g n : Nat) (k : AddedBy) :
    (w.added g n k).collector.weakNodesToGuardConditions = w.collector.weakNodesToGuardConditions ∧
      (w.added g n k).collector.weakNodes = w.collector.weakNodes ∧
      (w.added g n k).collector.newNodes = (if w.isNew n then w.collector.newNodes ++ [n] else w.collector.newNodes) ∧
      w.collector.SameLists (w.added g n k).collector := by
  cases k <;> exact ⟨rfl, rfl, rfl, ⟨rfl, rfl, rfl, rfl⟩⟩

theorem added_lookup {w : StaticWorld} (h : StaticInv w) {g : Nat} (hg : w.shared.groupHasExecutor g = false) (n : Nat)
    (k k' : AddedBy) (a m : Nat) : ((w.added g n k).collector.map k')[a]? = some m ↔
      (k' = k ∧ a = g ∧ m = n) ∨ (w.collector.map k')[a]? = some m := by
  rw [added_map]
  have hnot := (h.free hg).1
  by_cases hk : k' = k
  · subst hk
    rw [if_pos rfl, insertIfNew_new (hnot k')]
    by_cases ha : g = a
    · subst ha
      have hnone : (w.collector.map k')[g]? = none := Std.TreeMap.getElem?_eq_none (hnot k')
      simp [hnone, eq_comm]
    · simp [ha, Ne.symm ha]
  · simp [hk]

theorem staticAddToMap_eq {w : StaticWorld} (h : StaticInv w) (g n : Nat) (k : AddedBy) :
    staticAddToMap g n k w = if w.shared.groupHasExecutor g then (w, .error .groupHasExecutor)
      else (w.added g n k, .ok (w.isNew n)) := by
  unfold staticAddToMap
  cases hflag : w.shared.groupHasExecutor g with
  | true => rfl
  | false =>
    have hnot : g ∉ (w.flagGroup g true).collector.map k := (h.free hflag).1 k
    simp only [Bool.false_eq_true, if_false, hnot]
    have hnew : (!(w.flagGroup g true).hasNode n .itself && !(w.flagGroup g true).hasNode n .node) = w.isNew n := rfl
    rw [hnew]
    unfold StaticWorld.added
    cases hn : w.isNew n <;> cases k <;> rfl

theorem StaticInv.added {w : StaticWorld} (h : StaticInv w) {g n : Nat} (hg : w.shared.groupHasExecutor g = false)
    (hn : w.shared.nodeExpired n = false) (k : AddedBy) : StaticInv (w.added g n k) := by
  obtain ⟨hguards, hnodes, hnew, hlists⟩ := added_guards w g n k
  obtain ⟨hnot, hnone⟩ := h.free hg
  have hlookup := added_lookup h hg n k
  have hmem : ∀ k' a, a ∈ (w.added g n k).collector.map k' → (k' = k ∧ a = g) ∨ a ∈ w.collector.map k' := by
    intro k' a ha
    obtain ⟨m, hm⟩ := mem_iff_exists.mp ha
    rcases (hlookup k' a m).mp hm with ⟨hk, ha, _⟩ | hold
    · exact Or.inl ⟨hk, ha⟩
    · exact Or.inr (mem_iff_exists.mpr ⟨m, hold⟩)
  refine ⟨?_, fun k' a ha => ?_, fun a k₁ k₂ h₁ h₂ => ?_, fun m hm => ?_, ?_, h.distinct, fun k' a m hm => ?_,
    fun m b hb => ?_, fun hinit => ?_⟩
  · exact h.associated.flagGroups fun e a ha => storeFlag_true (h.associated.taken e a ha)
  · rcases hmem k' a ha with ⟨_, rfl⟩ | hold
    · exact ⟨storeFlag_self .., hnone⟩
    · exact (h.orphan k' a hold).flag (storeFlag_true (h.orphan k' a hold).1)
  · rcases hmem k₁ a h₁ with ⟨hk₁, hag⟩ | hold₁ <;> rcases hmem k₂ a h₂ with ⟨hk₂, hag'⟩ | hold₂
    · exact hk₁.trans hk₂.symm
    · exact absurd (hag ▸ hold₂) (hnot k₂)
    · exact absurd (hag' ▸ hold₁) (hnot k₁)
    · exact h.apart a k₁ k₂ hold₁ hold₂
  · exact h.orphanNode m (hnodes ▸ hm)
  · rw [hnodes]; exact h.nodup
  · rw [hguards, hnew]
    have hkept : ∀ b, b ∈ w.collector.newNodes →
        b ∈ (if w.isNew n then w.collector.newNodes ++ [n] else w.collector.newNodes) := by
      intro b hb
      split
      · exact List.mem_append_left _ hb
      · exact hb
    rcases (hlookup k' a m).mp hm with ⟨_, _, rfl⟩ | hold
    · by_cases hisNew : w.isNew m
      · rw [if_pos hisNew]
        exact Or.inr (List.mem_append_right _ (List.mem_singleton_self m))
      · rw [if_neg hisNew]
        unfold StaticWorld.isNew StaticWorld.hasNode at hisNew
        simp only [Bool.and_eq_true, Bool.not_eq_true', not_and_or, Bool.not_eq_false] at hisNew
        rcases hisNew with hin | hin <;> obtain ⟨b, hb⟩ := (hasNode_eq_true hn _).mp hin
        · exact h.known _ b m hb
        · exact h.known _ b m hb
    · exact (h.known k' a m hold).imp id (hkept m)
  · exact h.own m b (hguards ▸ hb)
  · rw [hguards, hlists.waitSetGuardConditions]
    exact h.room (hlists.initialized ▸ hinit)

/-! ## Adding the callback groups of a node -/

/-- What is kept by adding free automatic callback groups of a list is kept by the loop, which does not throw. -/
theorem staticAddGroups_keeps {P : StaticWorld → Prop} {n : Nat} : ∀ {gs : List CreatedGroup} {w : StaticWorld},
    (∀ v, P v → StaticInv v) →
    (∀ g ∈ gs, ∀ v, P v → g.automaticallyAddToExecutorWithNode = true → v.shared.groupHasExecutor g.id = false →
      P (v.added g.id n .node)) →
    P w → ∃ v isNew, staticAddGroups n gs w = (v, .ok isNew) ∧ P v
  | [], w, _, _, h => ⟨w, false, rfl, h⟩
  | g :: gs, w, hinv, hstep, h => by
    have hrest := fun a ha => hstep a (List.mem_cons_of_mem _ ha)
    rw [staticAddGroups]
    by_cases hfree : g.automaticallyAddToExecutorWithNode && !w.shared.groupHasExecutor g.id
    · rw [if_pos hfree]
      simp only [Bool.and_eq_true, Bool.not_eq_true'] at hfree
      have hadded := hstep g (List.mem_cons_self ..) w h hfree.1 hfree.2
      obtain ⟨v, isNew, heq, hv⟩ := staticAddGroups_keeps hinv hrest hadded
      rw [staticAddToMap_eq (hinv w h), hfree.2]
      simp only [Bool.false_eq_true, if_false, heq]
      exact ⟨v, _, rfl, hv⟩
    · rw [if_neg hfree]
      exact staticAddGroups_keeps hinv hrest h

theorem staticAddFromNodes_keeps {P : StaticWorld → Prop} (expired : Nat → Bool) :
    ∀ {ns : List Nat} {w : StaticWorld}, (∀ v, P v → StaticInv v ∧ v.shared.nodeExpired = expired) →
    (∀ n ∈ ns, expired n = false → ∀ v, P v → ∀ u, P u → ∀ g ∈ v.shared.groupsOf n,
      g.automaticallyAddToExecutorWithNode = true → u.shared.groupHasExecutor g.id = false → P (u.added g.id n .node)) →
    P w → ∃ v, staticAddFromNodes ns w = (v, none) ∧ P v
  | [], w, _, _, h => ⟨w, rfl, h⟩
  | n :: ns, w, hinv, hstep, h => by
    have hrest := fun a ha => hstep a (List.mem_cons_of_mem _ ha)
    rw [staticAddFromNodes]
    by_cases hexp : w.shared.nodeExpired n
    · rw [if_pos hexp]
      exact staticAddFromNodes_keeps expired hinv hrest h
    · rw [if_neg hexp]
      have halive : expired n = false := by
        rw [← (hinv w h).2]; exact Bool.eq_false_iff.mpr hexp
      obtain ⟨v, isNew, heq, hv⟩ := staticAddGroups_keeps (n := n) (fun u hu => (hinv u hu).1)
        (fun g hg u hu hauto hfree => hstep n (List.mem_cons_self ..) halive w h u hu g hg hauto hfree) h
      simp only [heq]
      exact staticAddFromNodes_keeps expired hinv hrest hv

/-- A callback group is free, and goes with a node that is alive. -/
def StaticWorld.Joins (w : StaticWorld) (g n : Nat) : Prop :=
  w.shared.groupHasExecutor g = false ∧ w.shared.nodeExpired n = false ∧
    ∃ c ∈ w.shared.groupsOf n, c.id = g ∧ c.automaticallyAddToExecutorWithNode = true

/-- Nodes and callback groups are as they were, and callback groups that were
free have been added with the given nodes. -/
structure Grew (ns : List Nat) (w v : StaticWorld) : Prop where
  inv : StaticInv v
  created : v.created = w.created
  released : v.released = w.released
  shared : v.shared = { w.shared with groupHasExecutor := v.shared.groupHasExecutor }
  weakNodes : v.collector.weakNodes = w.collector.weakNodes
  guards : v.collector.weakNodesToGuardConditions = w.collector.weakNodesToGuardConditions
  newNodes : ∀ n ∈ w.collector.newNodes, n ∈ v.collector.newNodes
  lists : w.collector.SameLists v.collector
  itself : v.collector.map .itself = w.collector.map .itself
  kept : ∀ g n : Nat, (w.collector.map .node)[g]? = some n → (v.collector.map .node)[g]? = some n
  fresh : ∀ g n : Nat, (v.collector.map .node)[g]? = some n →
    (w.collector.map .node)[g]? = some n ∨ n ∈ ns ∧ w.Joins g n
  flagged : ∀ g, v.shared.groupHasExecutor g = true ↔
    w.shared.groupHasExecutor g = true ∨ g ∈ v.collector.map .node

theorem Grew.refl {w : StaticWorld} (h : StaticInv w) (ns : List Nat) : Grew ns w w :=
  ⟨h, rfl, rfl, rfl, rfl, rfl, fun _ hn => hn, .refl _, rfl, fun _ _ hg => hg, fun _ _ hg => Or.inl hg,
    fun g => ⟨Or.inl, fun ho => ho.elim id fun hin => (h.orphan .node g hin).1⟩⟩

theorem Grew.add {ns : List Nat} {w v : StaticWorld} (h : Grew ns w v) {g : CreatedGroup} {n : Nat}
    (hfree : v.shared.groupHasExecutor g.id = false) (hns : n ∈ ns) (hn : w.shared.nodeExpired n = false)
    (hg : g ∈ w.shared.groupsOf n) (hauto : g.automaticallyAddToExecutorWithNode = true) :
    Grew ns w (v.added g.id n .node) := by
  obtain ⟨hguards, hnodes, hnew, hlists⟩ := added_guards v g.id n .node
  have hn' : v.shared.nodeExpired n = false := by rw [h.shared]; exact hn
  have hlookup := added_lookup h.inv hfree n .node
  have hbefore : w.shared.groupHasExecutor g.id = false :=
    Bool.eq_false_iff.mpr fun htrue => Bool.eq_false_iff.mp hfree ((h.flagged g.id).mpr (Or.inl htrue))
  refine ⟨h.inv.added hfree hn' .node, h.created, h.released, ?_, hnodes.trans h.weakNodes, hguards.trans h.guards,
    fun m hm => ?_, h.lists.trans hlists, ?_, fun a m hm => ?_, fun a m hm => ?_, fun a => ?_⟩
  · rw [show (v.added g.id n .node).shared = { v.shared with
      groupHasExecutor := storeFlag v.shared.groupHasExecutor g.id true } from rfl, h.shared]
  · rw [hnew]
    split
    · exact List.mem_append_left _ (h.newNodes m hm)
    · exact h.newNodes m hm
  · rw [added_map, if_neg (by simp)]
    exact h.itself
  · exact (hlookup .node a m).mpr (Or.inr (h.kept a m hm))
  · rcases (hlookup .node a m).mp hm with ⟨_, rfl, rfl⟩ | hold
    · exact Or.inr ⟨hns, hbefore, hn, g, hg, rfl, hauto⟩
    · exact h.fresh a m hold
  · have hmem : a ∈ (v.added g.id n .node).collector.map .node ↔ a = g.id ∨ a ∈ v.collector.map .node := by
      rw [mem_iff_exists, mem_iff_exists]
      simp only [hlookup, true_and, exists_or, exists_eq_right]
    change storeFlag v.shared.groupHasExecutor g.id true a = true ↔ _
    rw [hmem]
    by_cases ha : a = g.id
    · subst ha
      exact ⟨fun _ => Or.inr (Or.inl rfl), fun _ => storeFlag_self ..⟩
    · rw [storeFlag_ne ha, h.flagged a]
      simp only [ha, false_or]

theorem grew_groups {w : StaticWorld} (h : StaticInv w) {n : Nat} (hn : w.shared.nodeExpired n = false) :
    ∃ v isNew, staticAddGroups n (w.shared.groupsOf n) w = (v, .ok isNew) ∧ Grew [n] w v :=
  staticAddGroups_keeps (fun _ hv => hv.inv)
    (fun _ hg _ hv hauto hfree => hv.add hfree (List.mem_singleton_self n) hn hg hauto) (.refl h [n])

theorem grew_nodes {w : StaticWorld} (h : StaticInv w) :
    ∃ v, staticAddFromNodes w.collector.weakNodes w = (v, none) ∧ Grew w.collector.weakNodes w v := by
  refine staticAddFromNodes_keeps w.shared.nodeExpired
    (fun v hv => ⟨hv.inv, by rw [hv.shared]⟩) (fun n hn hexp v hv u hu g hg hauto hfree => ?_) (.refl h _)
  have hgroups : v.shared.groupsOf n = w.shared.groupsOf n := by
    rw [hv.shared]; rfl
  exact hu.add hfree hn hexp (hgroups ▸ hg) hauto

theorem staticAddGroups_marks {n : Nat} : ∀ {gs : List CreatedGroup} {w v : StaticWorld} {isNew : Bool}, StaticInv w →
    w.shared.nodeExpired n = false → staticAddGroups n gs w = (v, .ok isNew) →
    (∀ a, w.shared.groupHasExecutor a = true → v.shared.groupHasExecutor a = true) ∧
      ∀ g ∈ gs, g.automaticallyAddToExecutorWithNode = true → v.shared.groupHasExecutor g.id = true
  | [], w, v, _, _, _, heq => by
    cases heq
    exact ⟨fun _ ha => ha, List.forall_mem_nil _⟩
  | g :: gs, w, v, isNew, h, hn, heq => by
    rw [staticAddGroups] at heq
    by_cases hfree : g.automaticallyAddToExecutorWithNode && !w.shared.groupHasExecutor g.id
    · rw [if_pos hfree] at heq
      simp only [Bool.and_eq_true, Bool.not_eq_true'] at hfree
      rw [staticAddToMap_eq h, hfree.2] at heq
      simp only [Bool.false_eq_true, if_false] at heq
      obtain ⟨u, b, hu, _⟩ : ∃ u b, staticAddGroups n gs (w.added g.id n .node) = (u, .ok b) ∧
          (StaticInv u ∧ u.shared.nodeExpired n = false) :=
        staticAddGroups_keeps (fun _ hv => hv.1) (fun _ _ v hv _ hf => ⟨hv.1.added hf hv.2 .node, hv.2⟩)
          ⟨h.added hfree.2 hn .node, hn⟩
      rw [hu] at heq
      cases heq
      obtain ⟨hkept, hall⟩ := staticAddGroups_marks (h.added hfree.2 hn .node) hn hu
      refine ⟨fun a ha => hkept a (storeFlag_true ha), List.forall_mem_cons.mpr ⟨fun _ => ?_, hall⟩⟩
      exact hkept g.id (storeFlag_self ..)
    · rw [if_neg hfree] at heq
      simp only [Bool.and_eq_true, Bool.not_eq_true', not_and, Bool.not_eq_false] at hfree
      obtain ⟨hkept, hall⟩ := staticAddGroups_marks h hn heq
      exact ⟨hkept, List.forall_mem_cons.mpr ⟨fun hauto => hkept g.id (hfree hauto), hall⟩⟩

theorem staticAddFromNodes_marks : ∀ {ns : List Nat} {w v : StaticWorld}, StaticInv w →
    staticAddFromNodes ns w = (v, none) →
    (∀ a, w.shared.groupHasExecutor a = true → v.shared.groupHasExecutor a = true) ∧
      ∀ n ∈ ns, w.shared.nodeExpired n = false → ∀ g ∈ w.shared.groupsOf n,
        g.automaticallyAddToExecutorWithNode = true → v.shared.groupHasExecutor g.id = true
  | [], w, v, _, heq => by
    cases heq
    exact ⟨fun _ ha => ha, List.forall_mem_nil _⟩
  | n :: ns, w, v, h, heq => by
    rw [staticAddFromNodes] at heq
    by_cases hexp : w.shared.nodeExpired n
    · rw [if_pos hexp] at heq
      obtain ⟨hkept, hall⟩ := staticAddFromNodes_marks h heq
      exact ⟨hkept, List.forall_mem_cons.mpr ⟨fun halive => absurd (hexp.symm.trans halive) (by simp), hall⟩⟩
    · rw [if_neg hexp] at heq
      have halive := Bool.eq_false_iff.mpr hexp
      obtain ⟨u, b, hu, hgrew⟩ := grew_groups h halive
      rw [hu] at heq
      obtain ⟨hkept, hall⟩ := staticAddFromNodes_marks hgrew.inv heq
      obtain ⟨hmarked, hgroups⟩ := staticAddGroups_marks h halive hu
      have hsame : ∀ m, u.shared.groupsOf m = w.shared.groupsOf m := by
        intro m
        rw [hgrew.shared]; rfl
      refine ⟨fun a ha => hkept a (hmarked a ha), List.forall_mem_cons.mpr ⟨fun _ g hg hauto => ?_, fun m hm hm' g hg => ?_⟩⟩
      · exact hkept g.id (hgroups g hg hauto)
      · exact hall m hm (by rw [hgrew.shared]; exact hm') g (hsame m ▸ hg)

/-! ## Removing a callback group -/

def StaticWorld.removed (w : StaticWorld) (g n : Nat) (k : AddedBy) : StaticWorld :=
  let u := w.setCollector (w.collector.setMap k ((w.collector.map k).erase g))
  if u.isNew n then
    u.setCollector { u.collector with weakNodesToGuardConditions := w.collector.weakNodesToGuardConditions.erase n }
  else u

theorem removed_lookup (w : StaticWorld) (g n : Nat) (k k' : AddedBy) (a m : Nat) :
    ((w.removed g n k).collector.map k')[a]? = some m ↔ (w.collector.map k')[a]? = some m ∧ ¬ (k' = k ∧ a = g) := by
  have hmap : (w.removed g n k).collector.map k' = if k' = k then (w.collector.map k).erase g else w.collector.map k' := by
    rw [← StaticCollector.map_setMap]
    unfold StaticWorld.removed
    simp only
    split <;> cases k' <;> rfl
  rw [hmap]
  by_cases hk : k' = k
  · subst hk
    rw [if_pos rfl, erase_some]
    exact ⟨fun hm => ⟨hm.2, fun ha => hm.1 ha.2.symm⟩, fun hm => ⟨fun ha => hm.2 ⟨rfl, ha.symm⟩, hm.1⟩⟩
  · simp [hk]

/-- The node of the last callback group to go is not registered any more. -/
theorem removed_rest (w : StaticWorld) (g n : Nat) (k : AddedBy) :
    (w.removed g n k).shared = w.shared ∧ (w.removed g n k).created = w.created ∧
      (w.removed g n k).released = w.released ∧ (w.removed g n k).collector.weakNodes = w.collector.weakNodes ∧
      (w.removed g n k).collector.newNodes = w.collector.newNodes ∧ w.collector.SameLists (w.removed g n k).collector := by
  unfold StaticWorld.removed
  simp only
  split <;> cases k <;> exact ⟨rfl, rfl, rfl, rfl, rfl, ⟨rfl, rfl, rfl, rfl⟩⟩

theorem removed_guards (w : StaticWorld) (g n : Nat) (k : AddedBy) :
    (w.removed g n k).collector.weakNodesToGuardConditions = w.collector.weakNodesToGuardConditions ∨
      (w.removed g n k).collector.weakNodesToGuardConditions = w.collector.weakNodesToGuardConditions.erase n ∧
        (w.removed g n k).isNew n = true := by
  unfold StaticWorld.removed
  simp only
  split
  · rename_i hnew
    refine Or.inr ⟨rfl, ?_⟩
    rw [← hnew]
    rfl
  · left
    cases k <;> rfl

theorem staticRemoveFromMap_cases (w : StaticWorld) (group : Option Nat) (k : AddedBy) :
    (∃ error, staticRemoveFromMap group k w = (w, .error error)) ∨
      ∃ g n left, group = some g ∧ (w.collector.map k)[g]? = some n ∧ w.shared.nodeExpired n = false ∧
        staticRemoveFromMap group k w = (w.removed g n k, .ok left) := by
  unfold staticRemoveFromMap
  split
  · exact Or.inl ⟨_, rfl⟩
  · rename_i g n hfound
    obtain ⟨a, rfl, hlookup⟩ := Option.bind_eq_some_iff.mp hfound
    obtain ⟨m, hm, heq⟩ := Option.map_eq_some_iff.mp hlookup
    cases heq
    by_cases hexp : w.shared.nodeExpired n
    · rw [if_pos hexp]
      exact Or.inl ⟨_, rfl⟩
    · rw [if_neg hexp]
      refine Or.inr ⟨g, n, (w.setCollector (w.collector.setMap k ((w.collector.map k).erase g))).isNew n, rfl, hm,
        Bool.eq_false_iff.mpr hexp, ?_⟩
      unfold StaticWorld.removed StaticWorld.isNew
      simp only
      split
      · rename_i hnew
        rw [hnew]
        cases k <;> rfl
      · rename_i hnew
        rw [Bool.eq_false_iff.mpr hnew]

theorem StaticInv.removed {w : StaticWorld} (h : StaticInv w) {g n : Nat} (hn : w.shared.nodeExpired n = false)
    (k : AddedBy) : StaticInv (w.removed g n k) := by
  obtain ⟨hshared, hcreated, _, hnodes, hnew, hlists⟩ := removed_rest w g n k
  have hlookup := removed_lookup w g n k
  have hguards := removed_guards w g n k
  have hmem : ∀ k' a, a ∈ (w.removed g n k).collector.map k' → a ∈ w.collector.map k' := by
    intro k' a ha
    obtain ⟨m, hm⟩ := mem_iff_exists.mp ha
    exact mem_iff_exists.mpr ⟨m, ((hlookup k' a m).mp hm).1⟩
  refine ⟨hshared ▸ h.associated, fun k' a ha => ?_, fun a k₁ k₂ h₁ h₂ => h.apart a k₁ k₂ (hmem k₁ a h₁) (hmem k₂ a h₂),
    fun m hm => ?_, hnodes ▸ h.nodup, hcreated ▸ h.distinct, fun k' a m hm => ?_, fun m b hb => ?_, fun hinit => ?_⟩
  · rw [hshared]; exact h.orphan k' a (hmem k' a ha)
  · rw [hshared]; exact h.orphanNode m (hnodes ▸ hm)
  · rw [hnew]
    refine (h.known k' a m ((hlookup k' a m).mp hm).1).imp (fun hreg => ?_) id
    rcases hguards with hguards | ⟨hguards, hgone⟩
    · rw [hguards]; exact hreg
    · rw [hguards, Std.TreeMap.mem_erase]
      refine ⟨fun heq => ?_, hreg⟩
      cases Nat.compare_eq_eq.mp heq
      have hn' : (w.removed g n k).shared.nodeExpired n = false := by rw [hshared]; exact hn
      unfold StaticWorld.isNew StaticWorld.hasNode at hgone
      simp only [Bool.and_eq_true, Bool.not_eq_true'] at hgone
      have hno : ∀ k'', (w.removed g n k).shared.hasNode n ((w.removed g n k).collector.map k'') = false := by
        intro k''
        cases k''
        · exact hgone.1
        · exact hgone.2
      have hyes := (hasNode_eq_true hn' ((w.removed g n k).collector.map k')).mpr ⟨a, hm⟩
      rw [hno k'] at hyes; cases hyes
  · rcases hguards with hguards | ⟨hguards, _⟩
    · exact h.own m b (hguards ▸ hb)
    · rw [hguards, erase_some] at hb
      exact h.own m b hb.2
  · rw [hlists.waitSetGuardConditions]
    refine Nat.le_trans ?_ (h.room (hlists.initialized ▸ hinit))
    rcases hguards with hguards | ⟨hguards, _⟩
    · rw [hguards]
    · rw [hguards]; exact Std.TreeMap.size_erase_le

/-- Callback groups and guard conditions have only gone. -/
structure Shrunk (w v : StaticWorld) : Prop where
  inv : StaticInv v
  shared : v.shared = w.shared
  created : v.created = w.created
  released : v.released = w.released
  weakNodes : v.collector.weakNodes = w.collector.weakNodes
  newNodes : v.collector.newNodes = w.collector.newNodes
  lists : w.collector.SameLists v.collector
  map : ∀ k, ∀ g n : Nat, (v.collector.map k)[g]? = some n → (w.collector.map k)[g]? = some n
  guards : ∀ n, n ∈ v.collector.weakNodesToGuardConditions → n ∈ w.collector.weakNodesToGuardConditions
  -- the node of a guard condition that has gone is alive
  erased : ∀ n, n ∈ w.collector.weakNodesToGuardConditions → w.shared.nodeExpired n = true →
    n ∈ v.collector.weakNodesToGuardConditions

theorem Shrunk.refl {w : StaticWorld} (h : StaticInv w) : Shrunk w w :=
  ⟨h, rfl, rfl, rfl, rfl, rfl, .refl _, fun _ _ _ hm => hm, fun _ hn => hn, fun _ hn _ => hn⟩

theorem Shrunk.trans {u v w : StaticWorld} (h : Shrunk u v) (h' : Shrunk v w) : Shrunk u w :=
  ⟨h'.inv, h'.shared.trans h.shared, h'.created.trans h.created, h'.released.trans h.released,
    h'.weakNodes.trans h.weakNodes, h'.newNodes.trans h.newNodes, h.lists.trans h'.lists,
    fun k g n hm => h.map k g n (h'.map k g n hm), fun n hn => h.guards n (h'.guards n hn),
    fun n hn hexp => h'.erased n (h.erased n hn hexp) (by rw [h.shared]; exact hexp)⟩

theorem shrunk_removed {w : StaticWorld} (h : StaticInv w) {g n : Nat} (hn : w.shared.nodeExpired n = false)
    (k : AddedBy) : Shrunk w (w.removed g n k) := by
  obtain ⟨hshared, hcreated, hreleased, hnodes, hnew, hlists⟩ := removed_rest w g n k
  refine ⟨h.removed hn k, hshared, hcreated, hreleased, hnodes, hnew, hlists,
    fun k' a m hm => ((removed_lookup w g n k k' a m).mp hm).1, fun m hm => ?_, fun m hm hexp => ?_⟩
  · rcases removed_guards w g n k with hguards | ⟨hguards, _⟩
    · exact hguards ▸ hm
    · rw [hguards] at hm; exact Std.TreeMap.mem_of_mem_erase hm
  · rcases removed_guards w g n k with hguards | ⟨hguards, _⟩
    · rw [hguards]; exact hm
    · rw [hguards, Std.TreeMap.mem_erase]
      refine ⟨fun heq => ?_, hm⟩
      cases Nat.compare_eq_eq.mp heq
      rw [hn] at hexp; cases hexp

theorem staticRemoveFromMap_shrunk {w : StaticWorld} (h : StaticInv w) (group : Option Nat) (k : AddedBy) :
    Shrunk w (staticRemoveFromMap group k w).1 := by
  rcases staticRemoveFromMap_cases w group k with ⟨error, heq⟩ | ⟨g, n, left, _, _, hn, heq⟩
  · rw [heq]; exact .refl h
  · rw [heq]; exact shrunk_removed h hn k

theorem staticRemoveGroups_shrunk : ∀ (gs : List Nat) {w : StaticWorld}, StaticInv w →
    Shrunk w (staticRemoveGroups gs w).1
  | [], w, h => .refl h
  | g :: gs, w, h => by
    have hnext := staticRemoveFromMap_shrunk h (if w.shared.groupExpired g then none else some g) .node
    rw [staticRemoveGroups]
    split
    · rename_i v left heq
      rw [heq] at hnext
      exact hnext.trans (staticRemoveGroups_shrunk gs hnext.inv)
    · rename_i v error heq
      rw [heq] at hnext
      exact hnext

/-! ## Nodes -/

theorem StaticInv.flagNode {w : StaticWorld} (h : StaticInv w) {f : Nat → Bool}
    (hothers : ∀ e, ∀ n ∈ (w.shared.executors e).weakNodes, f n = true) (hown : ∀ n ∈ w.collector.weakNodes, f n = true) :
    StaticInv { w with shared := { w.shared with nodeHasExecutor := f } } :=
  ⟨h.associated.flagNode hothers, h.orphan, h.apart, fun n hn => ⟨hown n hn, (h.orphanNode n hn).2⟩, h.nodup, h.distinct,
    h.known, h.own, h.room⟩

theorem StaticInv.setNodes {w : StaticWorld} (h : StaticInv w) {ns : List Nat} (hnodup : ns.Nodup)
    (hns : ∀ n ∈ ns, Orphan w.shared n) : StaticInv (w.setCollector { w.collector with weakNodes := ns }) :=
  ⟨h.associated, fun k g hg => h.orphan k g (by cases k <;> exact hg),
    fun g k k' hk hk' => h.apart g k k' (by cases k <;> exact hk) (by cases k' <;> exact hk'), hns, hnodup, h.distinct,
    fun k g n hg => h.known k g n (by cases k <;> exact hg), h.own, h.room⟩

theorem collectorAddNode_cases {w : StaticWorld} (h : StaticInv w) {n : Nat} (hn : w.shared.nodeExpired n = false) :
    collectorAddNode n w = (w, .error .nodeHasStaticExecutor) ∨
      w.shared.nodeHasExecutor n = false ∧ ∃ v isNew, Grew [n] (w.flagNode n true) v ∧
        collectorAddNode n w = (v.setCollector { v.collector with weakNodes := v.collector.weakNodes ++ [n] }, .ok isNew) := by
  unfold collectorAddNode
  cases hfree : w.shared.nodeHasExecutor n with
  | true => exact Or.inl rfl
  | false =>
    have hmarked : StaticInv (w.flagNode n true) :=
      h.flagNode (fun e m hm => storeFlag_true (h.associated.nodeTaken e m hm))
        fun m hm => storeFlag_true (h.orphanNode m hm).1
    obtain ⟨v, isNew, heq, hgrew⟩ := grew_groups hmarked hn
    refine Or.inr ⟨rfl, v, isNew, hgrew, ?_⟩
    simp only [Bool.false_eq_true, if_false, heq]

theorem collectorAddNode_inv {w : StaticWorld} (h : StaticInv w) {n : Nat} (hn : w.shared.nodeExpired n = false) :
    StaticInv (collectorAddNode n w).1 := by
  rcases collectorAddNode_cases h hn with heq | ⟨hfree, v, isNew, hgrew, heq⟩
  · rw [heq]; exact h
  · rw [heq]
    have hnot : n ∉ w.collector.weakNodes := by
      intro hmem
      rw [(h.orphanNode n hmem).1] at hfree; cases hfree
    have hnodes : v.collector.weakNodes = w.collector.weakNodes := hgrew.weakNodes
    have hshared := hgrew.shared
    refine hgrew.inv.setNodes ?_ fun m hm => ?_
    · rw [hnodes]
      refine List.nodup_append.mpr ⟨h.nodup, List.nodup_singleton _, ?_⟩
      rintro a ha b hb rfl
      exact hnot (List.mem_singleton.mp hb ▸ ha)
    · rcases List.mem_append.mp hm with hm | hm
      · exact hgrew.inv.orphanNode m hm
      · cases List.mem_singleton.mp hm
        refine ⟨?_, fun e he => ?_⟩
        · rw [hshared]; exact storeFlag_self ..
        · rw [hshared] at he
          rw [h.associated.nodeTaken e n he] at hfree; cases hfree

/-- Removing a node takes it from the list, and goes on to its callback groups. -/
theorem collectorRemoveNode_cases {w : StaticWorld} (h : StaticInv w) (n : Nat) :
    collectorRemoveNode n w = (w, .ok false) ∨
      n ∈ w.collector.weakNodes ∧ ∃ v,
        Shrunk (w.setCollector { w.collector with weakNodes := w.collector.weakNodes.erase n }) v ∧
        (collectorRemoveNode n w = (v.flagNode n false, .ok true) ∨
          ∃ error, collectorRemoveNode n w = (v, .error error)) := by
  unfold collectorRemoveNode
  by_cases hflag : w.shared.nodeHasExecutor n
  · by_cases hin : n ∈ w.collector.weakNodes
    · simp only [hflag, Bool.not_true, Bool.false_eq_true, if_false, hin, not_true_eq_false]
      have hdropped : StaticInv (w.setCollector { w.collector with weakNodes := w.collector.weakNodes.erase n }) :=
        h.setNodes (h.nodup.erase n) fun m hm => h.orphanNode m (List.mem_of_mem_erase hm)
      have hshrunk := staticRemoveGroups_shrunk
        ((w.collector.weakGroupsToNodesAssociatedWithExecutor.toList.filter fun p => p.2 = n).map Prod.fst) hdropped
      refine Or.inr ⟨trivial, _, hshrunk, ?_⟩
      split
      · rename_i v heq
        exact Or.inl (by rw [heq])
      · rename_i v error heq
        exact Or.inr ⟨error, by rw [heq]⟩
    · simp [hin]
  · simp [hflag]

theorem collectorRemoveNode_inv {w : StaticWorld} (h : StaticInv w) (n : Nat) :
    StaticInv (collectorRemoveNode n w).1 := by
  rcases collectorRemoveNode_cases h n with heq | ⟨hin, v, hshrunk, heq | ⟨error, heq⟩⟩
  · rw [heq]; exact h
  · rw [heq]
    have hshared := hshrunk.shared
    have hnodes : v.collector.weakNodes = w.collector.weakNodes.erase n := hshrunk.weakNodes
    have hne : ∀ m, m ∈ v.collector.weakNodes → m ≠ n := by
      rintro m hm rfl
      rw [hnodes] at hm
      exact h.nodup.not_mem_erase hm
    refine hshrunk.inv.flagNode (fun e m hm => ?_) fun m hm => ?_
    · rw [hshared] at hm ⊢
      refine (storeFlag_ne ?_).trans (h.associated.nodeTaken e m hm)
      rintro rfl
      exact (h.orphanNode m hin).2 e hm
    · exact (storeFlag_ne (hne m hm)).trans (hshrunk.inv.orphanNode m hm).1
  · rw [heq]; exact hshrunk.inv

/-! ## Collecting -/

theorem eraseAll_lookup {g n : Nat} : ∀ (ps : List (Nat × Nat)) (m : WeakGroupsToNodes),
    (ps.foldl (fun m p => m.erase p.1) m)[g]? = some n ↔ m[g]? = some n ∧ ∀ p ∈ ps, p.1 ≠ g
  | [], m => by simp
  | p :: ps, m => by
    rw [List.foldl_cons, eraseAll_lookup ps, erase_some, List.forall_mem_cons]
    exact ⟨fun ⟨⟨hp, hm⟩, hps⟩ => ⟨hm, hp, hps⟩, fun ⟨hm, hp, hps⟩ => ⟨⟨hp, hm⟩, hps⟩⟩

theorem cleanUp_lookup (w : StaticWorld) (k k' : AddedBy) (g n : Nat) :
    ((w.cleanUp k).collector.map k')[g]? = some n ↔
      (w.collector.map k')[g]? = some n ∧ (k' = k → w.valid (g, n) = true) := by
  unfold StaticWorld.cleanUp StaticWorld.setCollector
  rw [StaticCollector.map_setMap]
  by_cases hk : k' = k
  · subst hk
    rw [if_pos rfl, eraseAll_lookup]
    refine and_congr_right fun hm => ⟨fun h _ => ?_, fun h p hp heq => ?_⟩
    · cases hvalid : w.valid (g, n) with
      | true => rfl
      | false =>
        refine absurd rfl (h (g, n) (List.mem_filter.mpr ⟨?_, by simp [hvalid]⟩))
        exact Std.TreeMap.mem_toList_iff_getElem?_eq_some.mpr hm
    · obtain ⟨hp, hinvalid⟩ := List.mem_filter.mp hp
      have hlookup : (w.collector.map k')[p.1]? = some p.2 := Std.TreeMap.mem_toList_iff_getElem?_eq_some.mp hp
      rw [heq, hm] at hlookup
      cases hlookup
      rw [show p = (g, p.2) from Prod.ext heq rfl, h rfl] at hinvalid
      cases hinvalid
  · simp [hk]

theorem StaticInv.cleanUp {w : StaticWorld} (h : StaticInv w) (k : AddedBy) : StaticInv (w.cleanUp k) := by
  have hlookup : ∀ k', ∀ g n : Nat, ((w.cleanUp k).collector.map k')[g]? = some n → (w.collector.map k')[g]? = some n :=
    fun k' g n hg => ((cleanUp_lookup w k k' g n).mp hg).1
  have hmem : ∀ k' g, g ∈ (w.cleanUp k).collector.map k' → g ∈ w.collector.map k' := by
    intro k' g hg
    obtain ⟨n, hn⟩ := mem_iff_exists.mp hg
    exact mem_iff_exists.mpr ⟨n, hlookup k' g n hn⟩
  have hrest : (w.cleanUp k).collector.weakNodes = w.collector.weakNodes ∧
      (w.cleanUp k).collector.weakNodesToGuardConditions = w.collector.weakNodesToGuardConditions ∧
      (w.cleanUp k).collector.newNodes = w.collector.newNodes ∧ w.collector.SameLists (w.cleanUp k).collector := by
    cases k <;> exact ⟨rfl, rfl, rfl, ⟨rfl, rfl, rfl, rfl⟩⟩
  obtain ⟨hnodes, hguards, hnew, hlists⟩ := hrest
  exact ⟨h.associated, fun k' g hg => h.orphan k' g (hmem k' g hg),
    fun g k₁ k₂ h₁ h₂ => h.apart g k₁ k₂ (hmem k₁ g h₁) (hmem k₂ g h₂), fun n hn => h.orphanNode n (hnodes ▸ hn),
    hnodes ▸ h.nodup, h.distinct, fun k' g n hg => by rw [hguards, hnew]; exact h.known k' g n (hlookup k' g n hg),
    fun n m hm => h.own n m (hguards ▸ hm), fun hinit => by
      rw [hguards, hlists.waitSetGuardConditions]; exact h.room (hlists.initialized ▸ hinit)⟩

theorem fillMemoryStrategy_lookup (c : Nat → Bool) (w : StaticWorld) (k : AddedBy) (g n : Nat) :
    ((fillMemoryStrategy c w).collector.map k)[g]? = some n ↔
      (w.collector.map k)[g]? = some n ∧ w.valid (g, n) = true := by
  have hmap : (fillMemoryStrategy c w).collector.map k = ((w.cleanUp .node).cleanUp .itself).collector.map k := by
    cases k <;> rfl
  rw [hmap, cleanUp_lookup, cleanUp_lookup]
  have hvalid : (w.cleanUp .node).valid (g, n) = w.valid (g, n) := rfl
  rw [hvalid]
  cases k <;> simp

theorem StaticInv.fillMemoryStrategy {w : StaticWorld} (h : StaticInv w) (c : Nat → Bool) :
    StaticInv (fillMemoryStrategy c w) :=
  ((h.cleanUp .node).cleanUp .itself).congr rfl rfl (fun k => by cases k <;> rfl) rfl rfl rfl
    ((h.cleanUp .node).cleanUp .itself).room

/-- The guard conditions after those of the new nodes have been put in. -/
theorem register_foldl (expired : Nat → Bool) : ∀ (ns : List Nat) (m : Std.TreeMap Nat Nat),
    (∀ n, n ∈ ns.foldl (fun m node => if expired node then m else m.insert node node) m ↔
      n ∈ m ∨ n ∈ ns ∧ expired n = false) ∧
    ((∀ n b : Nat, m[n]? = some b → b = n) →
      ∀ n b : Nat, (ns.foldl (fun m node => if expired node then m else m.insert node node) m)[n]? = some b → b = n) ∧
    (ns.foldl (fun m node => if expired node then m else m.insert node node) m).size ≤ m.size + ns.length
  | [], m => ⟨fun n => by simp, fun h => h, by simp⟩
  | a :: ns, m => by
    rw [List.foldl_cons]
    obtain ⟨hmem, hown, hsize⟩ := register_foldl expired ns (if expired a then m else m.insert a a)
    refine ⟨fun n => ?_, fun hm => hown fun n b hb => ?_, ?_⟩
    · rw [hmem, List.mem_cons]
      cases hexp : expired a with
      | true =>
        simp only [if_true]
        constructor
        · exact Or.imp id fun hn => ⟨Or.inr hn.1, hn.2⟩
        · rintro (hn | ⟨rfl | hn, hexp'⟩)
          · exact Or.inl hn
          · rw [hexp] at hexp'; cases hexp'
          · exact Or.inr ⟨hn, hexp'⟩
      | false =>
        simp only [Bool.false_eq_true, if_false, Std.TreeMap.mem_insert, Nat.compare_eq_eq]
        constructor
        · rintro ((rfl | hn) | hn)
          · exact Or.inr ⟨Or.inl rfl, hexp⟩
          · exact Or.inl hn
          · exact Or.inr ⟨Or.inr hn.1, hn.2⟩
        · rintro (hn | ⟨rfl | hn, hexp'⟩)
          · exact Or.inl (Or.inr hn)
          · exact Or.inl (Or.inl rfl)
          · exact Or.inr ⟨hn, hexp'⟩
    · split at hb
      · exact hm n b hb
      · rw [Std.TreeMap.getElem?_insert] at hb
        split at hb
        · rename_i han
          cases hb
          exact Nat.compare_eq_eq.mp han
        · exact hm n b hb
    · refine hsize.trans ?_
      rw [List.length_cons]
      split
      · omega
      · have hinsert := Std.TreeMap.size_insert_le (t := m) (k := a) (v := a)
        omega

/-- What the collector has when it has collected its entities again. -/
structure Rebuilt (c : Nat → Bool) (w v : StaticWorld) : Prop where
  inv : StaticInv v
  created : v.created = w.created
  released : v.released = w.released
  shared : v.shared = { w.shared with groupHasExecutor := v.shared.groupHasExecutor }
  weakNodes : v.collector.weakNodes = w.collector.weakNodes
  initialized : v.collector.initialized = w.collector.initialized
  newNodes : v.collector.newNodes = []
  guards : ∀ n, n ∈ w.collector.weakNodesToGuardConditions → n ∈ v.collector.weakNodesToGuardConditions
  room : v.collector.weakNodesToGuardConditions.size ≤ v.collector.waitSetGuardConditions
  itself : ∀ g n : Nat, (v.collector.map .itself)[g]? = some n ↔
    (w.collector.map .itself)[g]? = some n ∧ w.valid (g, n) = true
  kept : ∀ g n : Nat, (w.collector.map .node)[g]? = some n → w.valid (g, n) = true → (v.collector.map .node)[g]? = some n
  fresh : ∀ g n : Nat, (v.collector.map .node)[g]? = some n →
    (w.collector.map .node)[g]? = some n ∧ w.valid (g, n) = true ∨ n ∈ w.collector.weakNodes ∧ w.Joins g n
  complete : ∀ n ∈ w.collector.weakNodes, ∀ g, w.Joins g n → g ∈ v.collector.map .node
  marked : ∀ g, v.shared.groupHasExecutor g = true ↔
    w.shared.groupHasExecutor g = true ∨ g ∈ v.collector.map .node
  memoryStrategy : ∀ k, v.collector.memoryStrategy.entities k =
    staticCollectEntities c w.clearHandles (w.collector.map .node) k ++
      staticCollectEntities c w.clearHandles (w.collector.map .itself) k
  -- the memory strategy has its waitables by then
  execList : ∀ k, v.collector.execList.entities k =
    staticCollectEntities c (fillMemoryStrategy c w).clearExecList (v.collector.map .itself) k ++
      staticCollectEntities c (fillMemoryStrategy c w).clearExecList (v.collector.map .node) k
  collector : v.collector.execList.collector = true

theorem staticCollectEntities_congr {c : Nat → Bool} {u w : StaticWorld} (hcreated : u.created = w.created)
    (hreleased : u.released = w.released) (hgroups : u.shared.groupExpired = w.shared.groupExpired)
    (hnodes : u.shared.nodeExpired = w.shared.nodeExpired) (hlists : w.collector.SameLists u.collector)
    (m : WeakGroupsToNodes) (k : Kind) : staticCollectEntities c u m k = staticCollectEntities c w m k := by
  unfold staticCollectEntities StaticWorld.ptrs StaticWorld.alive StaticWorld.valid
  rw [hcreated, hreleased, hgroups, hnodes, hlists.execList, hlists.memoryStrategy]

theorem valid_node {w : StaticWorld} {g n : Nat} (h : w.valid (g, n) = true) : w.shared.nodeExpired n = false := by
  simp only [StaticWorld.valid, Bool.and_eq_true, Bool.not_eq_true'] at h
  exact h.2

theorem cleared_lookup (c : Nat → Bool) (w : StaticWorld) (k : AddedBy) (g n : Nat) :
    ((fillMemoryStrategy c w).clearExecList.collector.map k)[g]? = some n ↔
      (w.collector.map k)[g]? = some n ∧ w.valid (g, n) = true := by
  have hmap : (fillMemoryStrategy c w).clearExecList.collector.map k = (fillMemoryStrategy c w).collector.map k := by
    cases k <;> rfl
  rw [hmap]
  exact fillMemoryStrategy_lookup c w k g n

/-- Filling the memory strategy touches the maps and the lists only. -/
theorem cleared_rest (c : Nat → Bool) (w : StaticWorld) :
    (fillMemoryStrategy c w).clearExecList.created = w.created ∧
    (fillMemoryStrategy c w).clearExecList.released = w.released ∧
    (fillMemoryStrategy c w).clearExecList.shared = w.shared ∧
    (fillMemoryStrategy c w).clearExecList.collector.weakNodes = w.collector.weakNodes := by
  simp only [StaticWorld.clearExecList, fillMemoryStrategy, StaticWorld.cleanUp, StaticWorld.clearHandles,
    StaticWorld.setCollector, true_and]
  rfl

theorem joins_cleared {c : Nat → Bool} {w : StaticWorld} {g n : Nat} :
    (fillMemoryStrategy c w).clearExecList.Joins g n ↔ w.Joins g n := by
  unfold StaticWorld.Joins
  rw [(cleared_rest c w).2.2.1]

theorem staticInv_cleared {w : StaticWorld} (h : StaticInv w) (c : Nat → Bool) :
    StaticInv (fillMemoryStrategy c w).clearExecList := by
  have hfilled := h.fillMemoryStrategy c
  exact hfilled.congr rfl rfl (fun k => by cases k <;> rfl) rfl rfl rfl hfilled.room

/-- Every node that the collector speaks of by then is alive. -/
theorem Grew.alive {ns : List Nat} {c : Nat → Bool} {w u : StaticWorld}
    (h : Grew ns (fillMemoryStrategy c w).clearExecList u) {k : AddedBy} {g n : Nat}
    (hg : (u.collector.map k)[g]? = some n) : u.shared.nodeExpired n = false := by
  rw [h.shared]
  cases k with
  | itself =>
    rw [h.itself] at hg
    exact valid_node ((cleared_lookup c w .itself g n).mp hg).2
  | node =>
    rcases h.fresh g n hg with hg | ⟨_, hjoin⟩
    · exact valid_node ((cleared_lookup c w .node g n).mp hg).2
    · exact hjoin.2.1

/-- The executables of the groups are listed, and the new nodes registered. -/
def StaticWorld.refilled (u : StaticWorld) (c : Nat → Bool) : StaticWorld :=
  registerNewNodes (prepareWaitSet (u.setCollector { u.collector with
    execList :=
      { entities := fun k =>
          staticCollectEntities c u (u.collector.map .itself) k ++ staticCollectEntities c u (u.collector.map .node) k
        collector := true } }))

theorem refilled_map (u : StaticWorld) (c : Nat → Bool) (k : AddedBy) :
    (u.refilled c).collector.map k = u.collector.map k := by
  cases k <;> rfl

theorem refilled_entities (u : StaticWorld) (c : Nat → Bool) (k : Kind) :
    (u.refilled c).collector.execList.entities k =
      staticCollectEntities c u (u.collector.map .itself) k ++ staticCollectEntities c u (u.collector.map .node) k :=
  rfl

theorem refilled_guards (u : StaticWorld) (c : Nat → Bool) :
    (∀ n, n ∈ (u.refilled c).collector.weakNodesToGuardConditions ↔
      n ∈ u.collector.weakNodesToGuardConditions ∨ n ∈ u.collector.newNodes ∧ u.shared.nodeExpired n = false) ∧
    ((∀ n b : Nat, u.collector.weakNodesToGuardConditions[n]? = some b → b = n) →
      ∀ n b : Nat, (u.refilled c).collector.weakNodesToGuardConditions[n]? = some b → b = n) ∧
    (u.refilled c).collector.weakNodesToGuardConditions.size ≤ (u.refilled c).collector.waitSetGuardConditions :=
  register_foldl u.shared.nodeExpired u.collector.newNodes u.collector.weakNodesToGuardConditions

theorem StaticInv.refilled {u : StaticWorld} (h : StaticInv u) (c : Nat → Bool)
    (halive : ∀ k, ∀ g n : Nat, (u.collector.map k)[g]? = some n → u.shared.nodeExpired n = false) :
    StaticInv (u.refilled c) := by
  obtain ⟨hmem, hown, hsize⟩ := refilled_guards u c
  refine ⟨h.associated, fun k g hg => ?_, fun g k k' hk hk' => ?_, h.orphanNode, h.nodup, h.distinct,
    fun k g n hg => Or.inl ?_, hown h.own, fun _ => hsize⟩
  · rw [refilled_map] at hg
    exact h.orphan k g hg
  · rw [refilled_map] at hk hk'
    exact h.apart g k k' hk hk'
  · rw [refilled_map] at hg
    exact (hmem n).mpr ((h.known k g n hg).imp id fun hnew => ⟨hnew, halive k g n hg⟩)

theorem collectorExecute_eq {c : Nat → Bool} {w u : StaticWorld}
    (h : staticAddFromNodes (fillMemoryStrategy c w).clearExecList.collector.weakNodes
      (fillMemoryStrategy c w).clearExecList = (u, none)) : collectorExecute c w = (u.refilled c, none) := by
  unfold collectorExecute fillExecutableList
  simp only [h]
  rfl

/-- The callback groups that were free are in the map of those added with their node. -/
theorem Grew.complete {c : Nat → Bool} {w u : StaticWorld} (hinv : StaticInv w)
    (hu : staticAddFromNodes w.collector.weakNodes (fillMemoryStrategy c w).clearExecList = (u, none))
    (h : Grew w.collector.weakNodes (fillMemoryStrategy c w).clearExecList u) {g n : Nat}
    (hn : n ∈ w.collector.weakNodes) (hjoin : w.Joins g n) : g ∈ u.collector.map .node := by
  obtain ⟨hfree, hexp, a, ha, rfl, hauto⟩ := hjoin
  have hmarked := (staticAddFromNodes_marks (staticInv_cleared hinv c) hu).2 n hn hexp a ha hauto
  rcases (h.flagged a.id).mp hmarked with hwas | hin
  · rw [(cleared_rest c w).2.2.1, hfree] at hwas
    cases hwas
  · exact hin

theorem Grew.collects {ns : List Nat} {w u : StaticWorld} (h : Grew ns w u) (c : Nat → Bool) (m : WeakGroupsToNodes)
    (k : Kind) : staticCollectEntities c u m k = staticCollectEntities c w m k :=
  staticCollectEntities_congr h.created h.released (by rw [h.shared]) (by rw [h.shared]) h.lists m k

theorem collectorExecute_rebuilt {w : StaticWorld} (h : StaticInv w) (c : Nat → Bool) :
    ∃ v, collectorExecute c w = (v, none) ∧ Rebuilt c w v := by
  obtain ⟨u, hu, hgrew⟩ := grew_nodes (staticInv_cleared h c)
  have hmem := (refilled_guards u c).1
  have hold := cleared_lookup c w
  obtain ⟨hcreated, hreleased, hshared, hnodes⟩ := cleared_rest c w
  have hflags := hgrew.shared
  rw [hshared] at hflags
  refine ⟨u.refilled c, collectorExecute_eq hu, ?_⟩
  exact {
    inv := hgrew.inv.refilled c fun k g n hg => hgrew.alive hg
    created := hgrew.created.trans hcreated
    released := hgrew.released.trans hreleased
    shared := hflags
    weakNodes := hgrew.weakNodes.trans hnodes
    initialized := hgrew.lists.initialized
    newNodes := rfl
    guards := fun n hn => (hmem n).mpr (Or.inl (by rw [hgrew.guards]; exact hn))
    room := (refilled_guards u c).2.2
    itself := fun g n => by
      rw [refilled_map, hgrew.itself]
      exact hold .itself g n
    kept := fun g n hg hvalid => by
      rw [refilled_map]
      exact hgrew.kept g n ((hold .node g n).mpr ⟨hg, hvalid⟩)
    fresh := fun g n hg => by
      rw [refilled_map] at hg
      exact (hgrew.fresh g n hg).imp (hold .node g n).mp (And.imp_right joins_cleared.mp)
    complete := fun n hn g hjoin => by
      rw [refilled_map]
      exact hgrew.complete h hu hn hjoin
    marked := fun g => by
      rw [refilled_map]
      exact hgrew.flagged g
    memoryStrategy := fun k => congrArg (fun l : ExecutableList => l.entities k) hgrew.lists.memoryStrategy
    execList := fun k => by
      rw [refilled_entities, refilled_map, refilled_map, hgrew.collects, hgrew.collects]
    collector := rfl }

/-! ## Steps -/

/-- What the calls of the static executor can change, its destruction apart. -/
structure Changed (w v : StaticWorld) : Prop where
  nodeExpired : v.shared.nodeExpired = w.shared.nodeExpired
  executors : v.shared.executors = w.shared.executors
  flags : ∀ g, w.shared.groupHasExecutor g = true → v.shared.groupHasExecutor g = true
  map : ∀ k g, g ∈ v.collector.map k → g ∈ w.collector.map k ∨ w.shared.groupHasExecutor g = false
  guards : ∀ n, n ∈ w.collector.weakNodesToGuardConditions → w.shared.nodeExpired n = true →
    n ∈ v.collector.weakNodesToGuardConditions

theorem Changed.refl (w : StaticWorld) : Changed w w :=
  ⟨rfl, rfl, fun _ hg => hg, fun _ _ hg => Or.inl hg, fun _ hn _ => hn⟩

theorem Changed.trans {u v w : StaticWorld} (h : Changed u v) (h' : Changed v w) : Changed u w := by
  refine ⟨h'.nodeExpired.trans h.nodeExpired, h'.executors.trans h.executors, fun g hg => h'.flags g (h.flags g hg),
    fun k g hg => ?_, fun n hn hexp => h'.guards n (h.guards n hn hexp) (by rw [h.nodeExpired]; exact hexp)⟩
  rcases h'.map k g hg with hg | hfree
  · exact h.map k g hg
  · exact Or.inr (Bool.eq_false_iff.mpr fun htrue => Bool.eq_false_iff.mp hfree (h.flags g htrue))

/-- The flag of a node, its list and the lists of a pass do not matter here. -/
theorem Changed.congr {w v : StaticWorld} (hexp : v.shared.nodeExpired = w.shared.nodeExpired)
    (hexec : v.shared.executors = w.shared.executors) (hflags : v.shared.groupHasExecutor = w.shared.groupHasExecutor)
    (hmap : ∀ k, v.collector.map k = w.collector.map k)
    (hguards : v.collector.weakNodesToGuardConditions = w.collector.weakNodesToGuardConditions) : Changed w v :=
  ⟨hexp, hexec, fun _ hg => hflags ▸ hg, fun k _ hg => Or.inl (hmap k ▸ hg), fun _ hn _ => hguards ▸ hn⟩

theorem changed_added {w : StaticWorld} (h : StaticInv w) {g : Nat} (hg : w.shared.groupHasExecutor g = false) (n : Nat)
    (k : AddedBy) : Changed w (w.added g n k) := by
  refine ⟨rfl, rfl, fun a ha => storeFlag_true ha, fun k' a ha => ?_, fun m hm _ => by
    rw [(added_guards w g n k).1]; exact hm⟩
  obtain ⟨m, hm⟩ := mem_iff_exists.mp ha
  rcases (added_lookup h hg n k k' a m).mp hm with ⟨_, rfl, _⟩ | hold
  · exact Or.inr hg
  · exact Or.inl (mem_iff_exists.mpr ⟨m, hold⟩)

theorem Grew.changed {ns : List Nat} {w v : StaticWorld} (h : Grew ns w v) : Changed w v := by
  have hshared := h.shared
  refine ⟨by rw [hshared], by rw [hshared], fun g hg => (h.flagged g).mpr (Or.inl hg), fun k g hg => ?_,
    fun n hn _ => by rw [h.guards]; exact hn⟩
  cases k with
  | itself => exact Or.inl (h.itself ▸ hg)
  | node =>
    obtain ⟨n, hn⟩ := mem_iff_exists.mp hg
    exact (h.fresh g n hn).imp (fun hold => mem_iff_exists.mpr ⟨n, hold⟩) fun hjoin => hjoin.2.1

theorem Shrunk.changed {w v : StaticWorld} (h : Shrunk w v) : Changed w v := by
  have hshared := h.shared
  refine ⟨by rw [hshared], by rw [hshared], fun g hg => by rw [hshared]; exact hg, fun k g hg => ?_, h.erased⟩
  obtain ⟨n, hn⟩ := mem_iff_exists.mp hg
  exact Or.inl (mem_iff_exists.mpr ⟨n, h.map k g n hn⟩)

theorem Rebuilt.changed {c : Nat → Bool} {w v : StaticWorld} (h : Rebuilt c w v) : Changed w v := by
  have hshared := h.shared
  refine ⟨by rw [hshared], by rw [hshared], fun g hg => (h.marked g).mpr (Or.inl hg), fun k g hg => ?_,
    fun n hn _ => h.guards n hn⟩
  obtain ⟨n, hn⟩ := mem_iff_exists.mp hg
  cases k with
  | itself => exact Or.inl (mem_iff_exists.mpr ⟨n, ((h.itself g n).mp hn).1⟩)
  | node =>
    exact (h.fresh g n hn).imp (fun hold => mem_iff_exists.mpr ⟨n, hold.1⟩) fun hjoin => hjoin.2.1

/-- A pass leaves everything as it is, or collects the entities again. -/
theorem executeReadyExecutables_cases {w : StaticWorld} (h : StaticInv w) (spinOnce : Bool) (r : Ready) :
    (executeReadyExecutables spinOnce r w).1 = w ∨ collectorIsReady r w = true ∧
      ∃ v, collectorExecute r.canBeTakenFrom w = (v, none) ∧ Rebuilt r.canBeTakenFrom w v ∧
        (executeReadyExecutables spinOnce r w).1 = v ∧ (executeReadyExecutables spinOnce r w).2.2 = none := by
  unfold executeReadyExecutables
  simp only
  split
  · exact Or.inl rfl
  · split
    · rename_i hready
      obtain ⟨v, heq, hv⟩ := collectorExecute_rebuilt h r.canBeTakenFrom
      simp only [heq]
      exact Or.inr ⟨(Bool.and_eq_true_iff.mp hready).2, v, rfl, hv, rfl, trivial⟩
    · exact Or.inl rfl

theorem interrupt_collector (w : StaticWorld) (notify : Bool) :
    (w.interrupt notify).shared = w.shared ∧ (w.interrupt notify).created = w.created ∧
      (w.interrupt notify).released = w.released ∧
      (∀ k, (w.interrupt notify).collector.map k = w.collector.map k) ∧
      (w.interrupt notify).collector.weakNodes = w.collector.weakNodes ∧
      (w.interrupt notify).collector.weakNodesToGuardConditions = w.collector.weakNodesToGuardConditions ∧
      (w.interrupt notify).collector.newNodes = w.collector.newNodes ∧
      w.collector.SameLists (w.interrupt notify).collector := by
  cases notify
  · exact ⟨rfl, rfl, rfl, fun _ => rfl, rfl, rfl, rfl, .refl _⟩
  · exact ⟨rfl, rfl, rfl, fun k => by cases k <;> rfl, rfl, rfl, rfl, ⟨rfl, rfl, rfl, rfl⟩⟩

theorem interrupt_changed (w : StaticWorld) (notify : Bool) : Changed w (w.interrupt notify) := by
  obtain ⟨hshared, _, _, hmap, _, hguards, _⟩ := interrupt_collector w notify
  exact .congr (by rw [hshared]) (by rw [hshared]) (by rw [hshared]) hmap hguards

theorem StaticInv.interrupt {w : StaticWorld} (h : StaticInv w) (notify : Bool) : StaticInv (w.interrupt notify) := by
  obtain ⟨hshared, hcreated, _, hmap, hnodes, hguards, hnew, hlists⟩ := interrupt_collector w notify
  exact h.congr hshared hcreated hmap hnodes hguards hnew fun hinit => by
    rw [hlists.waitSetGuardConditions]; exact h.room (hlists.initialized ▸ hinit)

/-- The calls of the static executor, but for waiting and destruction, leave the
lists of a pass alone and register nobody. -/
structure Quiet (w v : StaticWorld) : Prop where
  inv : StaticInv v
  changed : Changed w v
  lists : w.collector.SameLists v.collector
  guards : ∀ n, n ∈ v.collector.weakNodesToGuardConditions → n ∈ w.collector.weakNodesToGuardConditions

theorem Quiet.refl {w : StaticWorld} (h : StaticInv w) : Quiet w w := ⟨h, .refl w, .refl _, fun _ hn => hn⟩

theorem Quiet.interrupt {w v : StaticWorld} (h : Quiet w v) (notify : Bool) : Quiet w (v.interrupt notify) := by
  obtain ⟨_, _, _, _, _, hguards, _, hlists⟩ := interrupt_collector v notify
  exact ⟨h.inv.interrupt notify, h.changed.trans (interrupt_changed v notify), h.lists.trans hlists,
    fun n hn => h.guards n (hguards ▸ hn)⟩

theorem Quiet.called {w : StaticWorld} {called : StaticCalled} (h : Quiet w called.1) (notify : Bool) :
    Quiet w (StaticCalled.interrupt called notify).1 := by
  unfold StaticCalled.interrupt
  split
  · exact h.interrupt _
  · exact h

theorem quiet_add {w : StaticWorld} (h : StaticInv w) {n : Nat} (hn : w.shared.nodeExpired n = false) (g : Nat)
    (k : AddedBy) : Quiet w (staticAddToMap g n k w).1 := by
  rw [staticAddToMap_eq h]
  cases hg : w.shared.groupHasExecutor g with
  | true => exact .refl h
  | false =>
    obtain ⟨hguards, _, _, hlists⟩ := added_guards w g n k
    exact ⟨h.added hg hn k, changed_added h hg n k, hlists, fun m hm => hguards ▸ hm⟩

theorem quiet_remove {w : StaticWorld} (h : StaticInv w) (group : Option Nat) (k : AddedBy) :
    Quiet w (staticRemoveFromMap group k w).1 := by
  have hshrunk := staticRemoveFromMap_shrunk h group k
  exact ⟨hshrunk.inv, hshrunk.changed, hshrunk.lists, hshrunk.guards⟩

theorem quiet_addNode {w : StaticWorld} (h : StaticInv w) {n : Nat} (hn : w.shared.nodeExpired n = false) :
    Quiet w (collectorAddNode n w).1 := by
  refine ⟨collectorAddNode_inv h hn, ?_, ?_, ?_⟩ <;>
    rcases collectorAddNode_cases h hn with heq | ⟨_, v, isNew, hgrew, heq⟩ <;> rw [heq]
  · exact .refl w
  · have hflag : Changed w (w.flagNode n true) := .congr rfl rfl rfl (fun _ => rfl) rfl
    exact (hflag.trans hgrew.changed).trans (.congr rfl rfl rfl (fun k => by cases k <;> rfl) rfl)
  · exact .refl _
  · have hlists : w.collector.SameLists v.collector := hgrew.lists
    exact hlists.trans ⟨rfl, rfl, rfl, rfl⟩
  · exact fun _ hm => hm
  · have hguards : v.collector.weakNodesToGuardConditions = w.collector.weakNodesToGuardConditions := hgrew.guards
    exact fun m hm => hguards ▸ hm

theorem quiet_removeNode {w : StaticWorld} (h : StaticInv w) (n : Nat) (notify : Bool) :
    Quiet w (staticRemoveNode n notify w).1 := by
  have hinv := collectorRemoveNode_inv h n
  have hquiet : Quiet w (collectorRemoveNode n w).1 := by
    rcases collectorRemoveNode_cases h n with heq | ⟨_, v, hshrunk, heq⟩
    · rw [heq]; exact .refl h
    · have hdropped : Changed w (w.setCollector { w.collector with weakNodes := w.collector.weakNodes.erase n }) :=
        .congr rfl rfl rfl (fun k => by cases k <;> rfl) rfl
      have hlists : w.collector.SameLists v.collector := by
        have hlists := hshrunk.lists
        exact ⟨hlists.execList, hlists.memoryStrategy, hlists.waitSetGuardConditions, hlists.initialized⟩
      have hchanged := hdropped.trans hshrunk.changed
      rcases heq with heq | ⟨error, heq⟩ <;> rw [heq] at hinv ⊢
      · exact ⟨hinv, hchanged.trans (.congr rfl rfl rfl (fun _ => rfl) rfl), hlists, hshrunk.guards⟩
      · exact ⟨hinv, hchanged, hlists, hshrunk.guards⟩
  unfold staticRemoveNode
  split <;> rename_i v _ heq <;> rw [heq] at hquiet
  · exact hquiet.interrupt notify
  · exact hquiet
  · exact hquiet

/-- What a step can do. -/
inductive StepDoes (w : StaticWorld) : StaticStep → StaticWorld → Prop
  | shared {a : AssociationStep} {s : Association} : associationStep w.shared a = some s →
      StepDoes w (.shared a) { w with shared := s }
  | create {k : Kind} {c : CreatedEntity} : (w.created k).all (fun d => d.handle != c.handle) = true →
      StepDoes w (.createEntity k c) { w with created := Function.update w.created k (w.created k ++ [c]) }
  | release (k : Kind) (handle : Nat) : StepDoes w (.releaseEntity k handle)
      { w with released := Function.update w.released k (storeFlag (w.released k) handle true) }
  | quiet {a : StaticStep} {v : StaticWorld} : (∀ c, a ≠ .init c) → (∀ b r, a ≠ .pass b r) → a ≠ .destroy →
      Quiet w v → StepDoes w a v
  | init {c : Nat → Bool} {v : StaticWorld} : Rebuilt c w.clearExecList v →
      StepDoes w (.init c) (v.setCollector { v.collector with initialized := true })
  | wait (spinOnce : Bool) (r : Ready) : StepDoes w (.pass spinOnce r) w
  | rebuild (spinOnce : Bool) {r : Ready} {v : StaticWorld} : collectorIsReady r w = true →
      Rebuilt r.canBeTakenFrom w v → StepDoes w (.pass spinOnce r) v
  | destroy : StepDoes w .destroy (staticDestroy w)

theorem staticStep_does {w w' : StaticWorld} {a : StaticStep} (h : StaticInv w) (hstep : staticStep w a = some w') :
    StepDoes w a w' := by
  obtain ⟨called, hcall, rfl⟩ := Option.map_eq_some_iff.mp hstep
  cases a with
  | shared a =>
    obtain ⟨s, hs, rfl⟩ := Option.map_eq_some_iff.mp hcall
    exact .shared (Option.map_eq_some_iff.mpr ⟨s, hs, rfl⟩)
  | createEntity k c =>
    simp only [staticCall] at hcall
    split at hcall
    · rename_i hnew
      cases hcall
      exact .create (Bool.and_eq_true_iff.mp hnew).2
    · cases hcall
  | releaseEntity k handle => cases hcall; exact .release k handle
  | setTrigger count fails =>
    cases hcall
    have hinv : StaticInv { w with triggerFails := storeFlag w.triggerFails count fails } :=
      h.congr rfl rfl (fun _ => rfl) rfl rfl rfl h.room
    exact .quiet (by simp) (by simp) (by simp) ⟨hinv, .congr rfl rfl rfl (fun _ => rfl) rfl, .refl _, fun _ hn => hn⟩
  | addNode n notify =>
    simp only [staticCall] at hcall
    split at hcall
    · cases hcall
    · rename_i hexp
      cases hcall
      exact .quiet (by simp) (by simp) (by simp) ((quiet_addNode h (Bool.eq_false_iff.mpr hexp)).called notify)
  | removeNode n notify =>
    simp only [staticCall] at hcall
    split at hcall
    · cases hcall
    · cases hcall
      exact .quiet (by simp) (by simp) (by simp) (quiet_removeNode h n notify)
  | addCallbackGroup g n notify =>
    simp only [staticCall] at hcall
    split at hcall
    · rename_i hheld
      cases hcall
      have hexp := (Bool.and_eq_true_iff.mp hheld).2
      exact .quiet (by simp) (by simp) (by simp)
        ((quiet_add h ((Bool.not_eq_true' _).mp hexp) g .itself).called notify)
    · cases hcall
  | removeCallbackGroup g notify =>
    simp only [staticCall] at hcall
    split at hcall
    · cases hcall
      exact .quiet (by simp) (by simp) (by simp) ((quiet_remove h (some g) .itself).called notify)
    · cases hcall
  | init c =>
    cases hcall
    have hcleared : StaticInv w.clearExecList := h.congr rfl rfl (fun k => by cases k <;> rfl) rfl rfl rfl h.room
    obtain ⟨v, heq, hv⟩ := collectorExecute_rebuilt hcleared c
    simp only [collectorInit, heq]
    exact .init hv
  | pass spinOnce r =>
    simp only [staticCall] at hcall
    split at hcall
    · cases hcall
      rcases executeReadyExecutables_cases h spinOnce r with hsame | ⟨hready, v, _, hv, hw', _⟩
      · rw [hsame]; exact .wait spinOnce r
      · rw [hw']; exact .rebuild spinOnce hready hv
    · cases hcall
  | destroy => cases hcall; exact .destroy

theorem OrphanGroup.shared {w w' : Association} {a : AssociationStep} {g : Nat} (h : OrphanGroup w g)
    (hassoc : Associated w) (hstep : associationStep w a = some w') : OrphanGroup w' g := by
  obtain ⟨s, hs, hlife⟩ := group_life hassoc hstep (show GroupStands w g .orphaned from h)
  cases hlife
  exact hs

/-- A step is a call of another executor, a change or the destruction. -/
theorem staticStep_cases {w w' : StaticWorld} {a : StaticStep} (h : StaticInv w) (hstep : staticStep w a = some w') :
    (∃ b s, a = .shared b ∧ associationStep w.shared b = some s ∧ w' = { w with shared := s }) ∨
      (a ≠ .destroy ∧ Changed w w') ∨ a = .destroy ∧ w' = staticDestroy w := by
  cases staticStep_does h hstep with
  | shared hs => exact Or.inl ⟨_, _, rfl, hs, rfl⟩
  | create => exact Or.inr (Or.inl ⟨by simp, .congr rfl rfl rfl (fun _ => rfl) rfl⟩)
  | release => exact Or.inr (Or.inl ⟨by simp, .congr rfl rfl rfl (fun _ => rfl) rfl⟩)
  | quiet _ _ hd hquiet => exact Or.inr (Or.inl ⟨hd, hquiet.changed⟩)
  | init hv =>
    have hcleared : Changed w w.clearExecList := .congr rfl rfl rfl (fun k => by cases k <;> rfl) rfl
    exact Or.inr (Or.inl ⟨by simp, (hcleared.trans hv.changed).trans
      (.congr rfl rfl rfl (fun k => by cases k <;> rfl) rfl)⟩)
  | wait => exact Or.inr (Or.inl ⟨by simp, .refl w⟩)
  | rebuild _ _ hv => exact Or.inr (Or.inl ⟨by simp, hv.changed⟩)
  | destroy => exact Or.inr (Or.inr ⟨rfl, rfl⟩)

theorem staticInv_step {w w' : StaticWorld} {a : StaticStep} (h : StaticInv w) (hstep : staticStep w a = some w') :
    StaticInv w' := by
  cases staticStep_does h hstep with
  | shared hs =>
    exact ⟨associated_step h.associated hs, fun k g hg => (h.orphan k g hg).shared h.associated hs, h.apart,
      fun n hn => orphan_step h.associated (h.orphanNode n hn) hs, h.nodup, h.distinct, h.known, h.own, h.room⟩
  | @create k c hnew =>
    refine ⟨h.associated, h.orphan, h.apart, h.orphanNode, h.nodup, fun k' => ?_, h.known, h.own, h.room⟩
    by_cases hk : k' = k
    · subst hk
      simp only [Function.update_self, List.map_append, List.map_cons, List.map_nil]
      refine List.nodup_append.mpr ⟨h.distinct k', List.nodup_singleton _, ?_⟩
      rintro a ha b hb rfl
      obtain ⟨d, hd, heq⟩ := List.mem_map.mp ha
      have hne := List.all_eq_true.mp hnew d hd
      rw [heq, List.mem_singleton.mp hb] at hne
      simp at hne
    · simp only [Function.update_of_ne hk]
      exact h.distinct k'
  | release => exact ⟨h.associated, h.orphan, h.apart, h.orphanNode, h.nodup, h.distinct, h.known, h.own, h.room⟩
  | quiet _ _ _ hquiet => exact hquiet.inv
  | init hv =>
    exact hv.inv.congr rfl rfl (fun k => by cases k <;> rfl) rfl rfl rfl fun _ => hv.room
  | wait => exact h
  | rebuild _ _ hv => exact hv.inv
  | destroy =>
    refine ⟨⟨h.associated.split, h.associated.guarded, fun e g hg => ?_, h.associated.unique, h.associated.nodup,
      fun e n hn => ?_, h.associated.nodeUnique⟩, fun k g hg => ?_, fun g k k' hg => ?_, fun n hn => absurd hn List.not_mem_nil,
      List.nodup_nil, h.distinct, fun k g n hg => ?_, fun n m hm => ?_, fun hinit => by cases hinit⟩
    · have hnot : ∀ k, g ∉ w.collector.map k := fun k hk => (h.orphan k g hk).2 e hg
      simp [staticDestroy, hnot .itself, hnot .node, h.associated.taken e g hg]
    · have hnot : n ∉ w.collector.weakNodes := fun hmem => (h.orphanNode n hmem).2 e hn
      simp [staticDestroy, hnot, h.associated.nodeTaken e n hn]
    · cases k <;> exact absurd hg Std.TreeMap.not_mem_emptyc
    · cases k <;> exact absurd hg Std.TreeMap.not_mem_emptyc
    · cases k <;> simp [staticDestroy, StaticCollector.map] at hg
    · simp [staticDestroy] at hm

theorem staticInv_init : StaticInv {} := by
  refine ⟨associated_init, fun k g hg => ?_, fun g k k' hg => ?_, fun n hn => absurd hn List.not_mem_nil, List.nodup_nil,
    fun _ => List.nodup_nil, fun k g n hg => ?_, fun n m hm => ?_, fun hinit => by cases hinit⟩
  · cases k <;> exact absurd hg Std.TreeMap.not_mem_emptyc
  · cases k <;> exact absurd hg Std.TreeMap.not_mem_emptyc
  · cases k <;> simp [StaticCollector.map] at hg
  · simp at hm

theorem staticInv_run {steps : List StaticStep} {w : StaticWorld} (h : staticRun steps = some w) : StaticInv w :=
  run_invariant (fun _ _ _ => staticInv_step) steps staticInv_init h

/-! ## One executor of either kind -/

/-- One node with two callback groups, of which the second is added by itself. -/
def mixedGroups : List StaticStep := [
  .shared (.createCallbackGroup { id := 0, node := 7 }),
  .shared (.createCallbackGroup { id := 1, node := 7, automaticallyAddToExecutorWithNode := false }),
  .createEntity .subscription { handle := 10, group := 0 }, .createEntity .subscription { handle := 11, group := 1 },
  .addNode 7 true, .addCallbackGroup 1 7 true]

/-- A callback group of the static executor is marked, in one of its maps and in
no other executor, one of another executor is so likewise; and so are nodes. -/
theorem executors_of_both_kinds {steps : List StaticStep} {w : StaticWorld} (h : staticRun steps = some w) :
    (∀ k g, g ∈ w.collector.map k → w.shared.groupHasExecutor g = true ∧
      (∀ k', g ∈ w.collector.map k' → k' = k) ∧ ∀ e, g ∉ (w.shared.executors e).weakGroupsToNodes) ∧
    (∀ e, ∀ g ∈ (w.shared.executors e).weakGroupsToNodes, w.shared.groupHasExecutor g = true ∧
      (∃! k, g ∈ (w.shared.executors e).map k) ∧ (∀ k, g ∉ w.collector.map k) ∧
      ∀ e', g ∈ (w.shared.executors e').weakGroupsToNodes → e' = e) ∧
    (∀ n ∈ w.collector.weakNodes, w.shared.nodeHasExecutor n = true ∧ ∀ e, n ∉ (w.shared.executors e).weakNodes) ∧
    ∀ e, ∀ n ∈ (w.shared.executors e).weakNodes, w.shared.nodeHasExecutor n = true ∧ n ∉ w.collector.weakNodes ∧
      ∀ e', n ∈ (w.shared.executors e').weakNodes → e' = e := by
  have hinv := staticInv_run h
  have hassoc := hinv.associated
  refine ⟨fun k g hg => ?_, fun e g hg => ?_, hinv.orphanNode, fun e n hn => ?_⟩
  · exact ⟨(hinv.orphan k g hg).1, fun k' hk' => hinv.apart g k' k hk' hg, (hinv.orphan k g hg).2⟩
  · obtain ⟨k, hk⟩ := ((hassoc.split e).mem_iff g).mp hg
    refine ⟨hassoc.taken e g hg, ⟨k, hk, fun k' hk' => (hassoc.split e).apart g k' k hk' hk⟩,
      fun k hk => (hinv.orphan k g hk).2 e hg, fun e' he' => hassoc.unique e' e g he' hg⟩
  · exact ⟨hassoc.nodeTaken e n hn, fun hin => (hinv.orphanNode n hin).2 e hn,
      fun e' he' => hassoc.nodeUnique e' e n he' hn⟩

theorem mixedGroups_executors : ∃ w, staticRun mixedGroups = some w ∧
    ∀ k g, g ∈ w.collector.map k → w.shared.groupHasExecutor g = true ∧
      (∀ k', g ∈ w.collector.map k' → k' = k) ∧ ∀ e, g ∉ (w.shared.executors e).weakGroupsToNodes := by
  have hsome : (staticRun mixedGroups).isSome = true := by decide
  obtain ⟨w, hw⟩ := Option.isSome_iff_exists.mp hsome
  exact ⟨w, hw, (executors_of_both_kinds hw).1⟩

/-! ## Callback groups that are lost -/

/-- Marked as added, and in no executor of either kind. -/
def Lost (w : StaticWorld) (g : Nat) : Prop :=
  OrphanGroup w.shared g ∧ ∀ k, g ∉ w.collector.map k

theorem Lost.changed {w v : StaticWorld} {g : Nat} (h : Lost w g) (hchanged : Changed w v) : Lost v g := by
  refine ⟨⟨hchanged.flags g h.1.1, by rw [hchanged.executors]; exact h.1.2⟩, fun k hk => ?_⟩
  rcases hchanged.map k g hk with hin | hfree
  · exact h.2 k hin
  · rw [h.1.1] at hfree; cases hfree

theorem lost_step {w w' : StaticWorld} {a : StaticStep} {g : Nat} (h : StaticInv w) (hlost : Lost w g)
    (hstep : staticStep w a = some w') : Lost w' g := by
  rcases staticStep_cases h hstep with ⟨b, s, rfl, hs, rfl⟩ | ⟨_, hchanged⟩ | ⟨rfl, rfl⟩
  · exact ⟨hlost.1.shared h.associated hs, hlost.2⟩
  · exact hlost.changed hchanged
  · refine ⟨⟨?_, hlost.1.2⟩, fun k => by cases k <;> exact Std.TreeMap.not_mem_emptyc⟩
    simp [staticDestroy, hlost.2 .itself, hlost.2 .node, hlost.1.1]

/-- Whatever takes a callback group from the static executor, but for its
destruction, leaves the mark, so no executor ever has it again. -/
theorem removed_group_lost {before after : List StaticStep} {w v w' : StaticWorld} {a : StaticStep} {g : Nat}
    (h : staticRun before = some w) (hin : ∃ k, g ∈ w.collector.map k) (hstep : staticStep w a = some v)
    (ha : a ≠ .destroy) (hout : ∀ k, g ∉ v.collector.map k) (hafter : runSteps staticStep v after = some w') :
    ((∀ k, g ∉ w'.collector.map k) ∧ ∀ e, g ∉ (w'.shared.executors e).weakGroupsToNodes) ∧
      (∀ n k, staticAddToMap g n k w' = (w', .error .groupHasExecutor)) ∧
      ∀ e n k notify, addCallbackGroupToMap e g n k notify w'.shared = (w'.shared, some .groupHasExecutor) := by
  have hinv := staticInv_run h
  obtain ⟨k, hk⟩ := hin
  have horphan := hinv.orphan k g hk
  have hlost : Lost v g := by
    refine ⟨?_, hout⟩
    rcases staticStep_cases hinv hstep with ⟨b, s, rfl, _, rfl⟩ | ⟨_, hchanged⟩ | ⟨rfl, _⟩
    · exact absurd hk (hout k)
    · exact ⟨hchanged.flags g horphan.1, by rw [hchanged.executors]; exact horphan.2⟩
    · exact absurd rfl ha
  have hlast : StaticInv w' ∧ Lost w' g :=
    run_invariant (P := fun u => StaticInv u ∧ Lost u g)
      (fun u a u' hu hs => ⟨staticInv_step hu.1 hs, lost_step hu.1 hu.2 hs⟩) after ⟨staticInv_step hinv hstep, hlost⟩ hafter
  refine ⟨⟨hlast.2.2, hlast.2.1.2⟩, fun n k => ?_, fun e n k notify => ?_⟩
  · rw [staticAddToMap_eq hlast.1, hlast.2.1.1, if_pos rfl]
  · rw [addCallbackGroupToMap_eq hlast.1.associated, if_pos hlast.2.1.1]

/-- The node is removed and added again, without its callback group. -/
theorem mixedGroups_lost : ∃ w v w', staticRun mixedGroups = some w ∧ staticStep w (.removeNode 7 true) = some v ∧
    runSteps staticStep v [.addNode 7 true] = some w' ∧ 7 ∈ w'.collector.weakNodes ∧ ∀ k, 0 ∉ w'.collector.map k := by
  have hsome : ((staticRun mixedGroups).bind fun w => (staticStep w (.removeNode 7 true)).bind fun v =>
      (runSteps staticStep v [.addNode 7 true]).map fun w' => decide (0 ∈ w.collector.map .node ∧
        0 ∉ v.collector.map .node ∧ 0 ∉ v.collector.map .itself ∧ 7 ∈ w'.collector.weakNodes)) = some true := by decide
  obtain ⟨w, hw, hrest⟩ := Option.bind_eq_some_iff.mp hsome
  obtain ⟨v, hv, hrest⟩ := Option.bind_eq_some_iff.mp hrest
  obtain ⟨w', hw', hstate⟩ := Option.map_eq_some_iff.mp hrest
  obtain ⟨hin, hnode, hitself, hadded⟩ := of_decide_eq_true hstate
  have hout : ∀ k, 0 ∉ v.collector.map k := fun k => by cases k <;> assumption
  exact ⟨w, v, w', hw, hv, hw', hadded, (removed_group_lost hw ⟨.node, hin⟩ hv (by simp) hout hw').1.1⟩

/-! ## Registered nodes -/

theorem registered_step {w w' : StaticWorld} {a : StaticStep} {n : Nat} (h : StaticInv w)
    (hreg : n ∈ w.collector.weakNodesToGuardConditions) (hexp : w.shared.nodeExpired n = true)
    (hstep : staticStep w a = some w') (ha : a ≠ .destroy) :
    n ∈ w'.collector.weakNodesToGuardConditions ∧ w'.shared.nodeExpired n = true := by
  rcases staticStep_cases h hstep with ⟨b, s, rfl, hs, rfl⟩ | ⟨_, hchanged⟩ | ⟨rfl, _⟩
  · refine ⟨hreg, ?_⟩
    rcases expired_step h.associated hs with ⟨m, _, rfl⟩ | hages
    · exact storeFlag_true hexp
    · exact (congrFun hages.nodes n).trans hexp
  · exact ⟨hchanged.guards n hreg hexp, by rw [hchanged.nodeExpired]; exact hexp⟩
  · exact absurd rfl ha

theorem canWait_eq_false {w : StaticWorld} (h : StaticInv w) {n : Nat} (hreg : n ∈ w.collector.weakNodesToGuardConditions)
    (hexp : w.shared.nodeExpired n = true) : w.canWait = false := by
  obtain ⟨m, hm⟩ := mem_iff_exists.mp hreg
  cases h.own n m hm
  refine Bool.eq_false_iff.mpr fun htrue => ?_
  have hall := (Bool.and_eq_true_iff.mp htrue).1
  have hnot := List.all_eq_true.mp hall (n, n) (Std.TreeMap.mem_toList_iff_getElem?_eq_some.mpr hm)
  simp [hexp] at hnot

/-- The wait set is always large enough, so that a wait is possible exactly while
every registered node is alive; and once a node was released while it was
registered, none is possible until the executor is destroyed. -/
theorem canWait_iff_registered {steps : List StaticStep} {w : StaticWorld} (h : staticRun steps = some w)
    (hinit : w.collector.initialized = true) :
    w.collector.weakNodesToGuardConditions.size ≤ w.collector.waitSetGuardConditions ∧
    (w.canWait = true ↔ ∀ n ∈ w.collector.weakNodesToGuardConditions, w.shared.nodeExpired n = false) ∧
      (w.canWait = false → ∀ after w', runSteps staticStep w after = some w' → (∀ a ∈ after, a ≠ .destroy) →
        w'.canWait = false) := by
  have hinv := staticInv_run h
  have hiff : w.canWait = true ↔ ∀ n ∈ w.collector.weakNodesToGuardConditions, w.shared.nodeExpired n = false := by
    constructor
    · intro htrue n hn
      cases hexp : w.shared.nodeExpired n with
      | false => rfl
      | true => rw [canWait_eq_false hinv hn hexp] at htrue; cases htrue
    · intro hall
      refine Bool.and_eq_true_iff.mpr ⟨List.all_eq_true.mpr fun p hp => ?_, decide_eq_true (hinv.room hinit)⟩
      have hlookup : w.collector.weakNodesToGuardConditions[p.1]? = some p.2 :=
        Std.TreeMap.mem_toList_iff_getElem?_eq_some.mp hp
      rw [hinv.own _ _ hlookup, hall p.1 (mem_iff_exists.mpr ⟨p.2, hlookup⟩)]
      rfl
  refine ⟨hinv.room hinit, hiff, fun hfalse after w' hafter hnot => ?_⟩
  have hex : ∃ n ∈ w.collector.weakNodesToGuardConditions, w.shared.nodeExpired n = true := by
    refine Classical.byContradiction fun hno => ?_
    rw [hiff.mpr fun n hn => Bool.eq_false_iff.mpr fun hexp => hno ⟨n, hn, hexp⟩] at hfalse
    cases hfalse
  obtain ⟨n, hreg, hexp⟩ := hex
  have hlast := run_invariant_meeting (P := fun u => StaticInv u ∧ n ∈ u.collector.weakNodesToGuardConditions ∧
      u.shared.nodeExpired n = true) (C := fun _ a => a ≠ .destroy)
    (fun u a u' hu hmeet hs => ⟨staticInv_step hu.1 hs, registered_step hu.1 hu.2.1 hu.2.2 hs hmeet⟩) after
    ⟨hinv, hreg, hexp⟩ (stepsMeet_of_mem _ _ fun a ha _ => hnot a ha) hafter
  exact canWait_eq_false hlast.1 hlast.2.1 hlast.2.2

theorem mixedGroups_released : ∃ w, staticRun (mixedGroups ++ [.init fun _ => true, .shared (.releaseNode 7)]) = some w ∧
    w.canWait = false ∧ ¬ ∀ n ∈ w.collector.weakNodesToGuardConditions, w.shared.nodeExpired n = false := by
  have hsome : ((staticRun (mixedGroups ++ [.init fun _ => true, .shared (.releaseNode 7)])).map fun w =>
      (w.collector.initialized, w.canWait)) = some (true, false) := by decide
  obtain ⟨w, hw, hstate⟩ := Option.map_eq_some_iff.mp hsome
  obtain ⟨hinit, hwait⟩ := Prod.mk.inj hstate
  refine ⟨w, hw, hwait, fun hall => ?_⟩
  rw [(canWait_iff_registered hw hinit).2.1.mpr hall] at hwait
  cases hwait

end ReferenceSystem
