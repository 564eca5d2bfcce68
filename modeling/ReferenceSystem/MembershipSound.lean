import ReferenceSystem.Membership

/-!
# Every callback group in one executor

The maps of an executor and the flags of nodes and callback groups, over every
sequence of calls on any number of executors.
-/

namespace ReferenceSystem

/-! ## The maps of one executor -/

@[simp] theorem interrupt_map (x : ExecutorMaps) (notify : Bool) (k : AddedBy) : (x.interrupt notify).map k = x.map k := by
  cases notify <;> cases k <;> rfl

@[simp] theorem interrupt_weakNodes (x : ExecutorMaps) (notify : Bool) :
    (x.interrupt notify).weakNodes = x.weakNodes := by
  cases notify <;> rfl

@[simp] theorem interrupt_weakGroupsToNodes (x : ExecutorMaps) (notify : Bool) :
    (x.interrupt notify).weakGroupsToNodes = x.weakGroupsToNodes := by
  cases notify <;> rfl

@[simp] theorem interrupt_guardConditions (x : ExecutorMaps) (notify : Bool) :
    (x.interrupt notify).guardConditions = x.guardConditions ∧
      (x.interrupt notify).weakGroupsToGuardConditions = x.weakGroupsToGuardConditions := by
  cases notify <;> exact ⟨rfl, rfl⟩

theorem interrupt_triggered (x : ExecutorMaps) (notify : Bool) :
    (x.interrupt notify).triggered = x.triggered + notify.toNat := by
  cases notify <;> rfl

/-- The guard conditions to wait for are the executor's own and those of the map. -/
structure ExecutorMaps.Guarded (x : ExecutorMaps) : Prop where
  nodup : x.guardConditions.Nodup
  mem_iff : ∀ c, c ∈ x.guardConditions ↔
    c = .shutdown ∨ c = .interrupt ∨ ∃ g : Nat, c = .notify g ∧ g ∈ x.weakGroupsToGuardConditions
  own : ∀ (g : Nat) c, x.weakGroupsToGuardConditions[g]? = some c → c = .notify g

/-- The map of all callback groups is the disjoint union of the two others. -/
structure ExecutorMaps.Split (x : ExecutorMaps) : Prop where
  union : ∀ g n : Nat, x.weakGroupsToNodes[g]? = some n ↔ ∃ k, (x.map k)[g]? = some n
  apart : ∀ (g : Nat) (k k' : AddedBy), g ∈ x.map k → g ∈ x.map k' → k = k'

theorem mem_iff_exists {β : Type} {m : Std.TreeMap Nat β} {g : Nat} : g ∈ m ↔ ∃ n, m[g]? = some n := by
  rw [Std.TreeMap.mem_iff_isSome_getElem?, Option.isSome_iff_exists]

theorem insertIfNew_new {m : WeakGroupsToNodes} {g : Nat} (h : g ∉ m) (n a : Nat) :
    (m.insertIfNew g n)[a]? = if g = a then some n else m[a]? := by
  rw [Std.TreeMap.getElem?_insertIfNew]
  simp [h]

theorem erase_some {β : Type} {m : Std.TreeMap Nat β} {g a : Nat} {b : β} :
    (m.erase g)[a]? = some b ↔ g ≠ a ∧ m[a]? = some b := by
  rw [Std.TreeMap.getElem?_erase]
  by_cases h : g = a
  · simp [h]
  · simp [h]

theorem ExecutorMaps.Split.mem_iff {x : ExecutorMaps} (h : x.Split) (g : Nat) :
    g ∈ x.weakGroupsToNodes ↔ ∃ k, g ∈ x.map k := by
  simp only [mem_iff_exists, h.union]
  exact exists_comm

/-! ## Inserting and erasing a callback group -/

theorem insertGroup_map (x : ExecutorMaps) (k k' : AddedBy) (g n : Nat) (contextValid notify : Bool) :
    (x.insertGroup k g n contextValid notify).map k' = if k' = k then (x.map k).insertIfNew g n else x.map k' := by
  cases k <;> cases k' <;> cases contextValid <;> cases notify <;> rfl

@[simp] theorem insertGroup_weakNodes (x : ExecutorMaps) (k : AddedBy) (g n : Nat) (contextValid notify : Bool) :
    (x.insertGroup k g n contextValid notify).weakNodes = x.weakNodes := by
  cases k <;> cases contextValid <;> cases notify <;> rfl

theorem insertGroup_all (x : ExecutorMaps) (k : AddedBy) (g n : Nat) (contextValid notify : Bool) :
    (x.insertGroup k g n contextValid notify).weakGroupsToNodes = x.weakGroupsToNodes.insertIfNew g n := by
  cases k <;> cases contextValid <;> cases notify <;> rfl

theorem insertGroup_guards (x : ExecutorMaps) (k : AddedBy) (g n : Nat) (contextValid notify : Bool) :
    (x.insertGroup k g n contextValid notify).weakGroupsToGuardConditions =
        (if contextValid then x.weakGroupsToGuardConditions.insert g (.notify g) else x.weakGroupsToGuardConditions) ∧
      (x.insertGroup k g n contextValid notify).guardConditions =
        if contextValid then addGuardCondition x.guardConditions (.notify g) else x.guardConditions := by
  cases k <;> cases contextValid <;> cases notify <;> exact ⟨rfl, rfl⟩

theorem insertGroup_triggered (x : ExecutorMaps) (k : AddedBy) (g n : Nat) (contextValid notify : Bool) :
    (x.insertGroup k g n contextValid notify).triggered = x.triggered + notify.toNat := by
  cases k <;> cases contextValid <;> cases notify <;> rfl

theorem eraseGroup_map (x : ExecutorMaps) (k k' : AddedBy) (g : Nat) :
    (x.eraseGroup k g).map k' = if k' = k then (x.map k).erase g else x.map k' := by
  cases k <;> cases k' <;> rfl

@[simp] theorem eraseGroup_weakNodes (x : ExecutorMaps) (k : AddedBy) (g : Nat) :
    (x.eraseGroup k g).weakNodes = x.weakNodes := by
  cases k <;> rfl

theorem eraseGroup_all (x : ExecutorMaps) (k : AddedBy) (g : Nat) :
    (x.eraseGroup k g).weakGroupsToNodes = x.weakGroupsToNodes.erase g := by
  cases k <;> rfl

theorem eraseGroup_guards (x : ExecutorMaps) (k : AddedBy) (g : Nat) :
    (x.eraseGroup k g).weakGroupsToGuardConditions = x.weakGroupsToGuardConditions ∧
      (x.eraseGroup k g).guardConditions = x.guardConditions := by
  cases k <;> exact ⟨rfl, rfl⟩

@[simp] theorem eraseGroup_triggered (x : ExecutorMaps) (k : AddedBy) (g : Nat) :
    (x.eraseGroup k g).triggered = x.triggered := by
  cases k <;> rfl

theorem ExecutorMaps.Split.insertGroup {x : ExecutorMaps} (h : x.Split) {g : Nat} (hg : g ∉ x.weakGroupsToNodes)
    (k : AddedBy) (n : Nat) (contextValid notify : Bool) : (x.insertGroup k g n contextValid notify).Split := by
  have hnone : ∀ k, g ∉ x.map k := fun k hk => hg ((h.mem_iff g).mpr ⟨k, hk⟩)
  have hlookup : ∀ (k' : AddedBy) (a b : Nat), ((x.insertGroup k g n contextValid notify).map k')[a]? = some b ↔
      (k' = k ∧ g = a ∧ b = n) ∨ (x.map k')[a]? = some b := by
    intro k' a b
    rw [insertGroup_map]
    by_cases hk : k' = k
    · subst hk
      rw [if_pos rfl, insertIfNew_new (hnone k')]
      by_cases ha : g = a
      · subst ha
        have hold : (x.map k')[g]? = none := Std.TreeMap.getElem?_eq_none (hnone k')
        simp [hold, eq_comm]
      · simp [ha]
    · simp [hk]
  refine ⟨fun a b => ?_, fun a k₁ k₂ h₁ h₂ => ?_⟩
  · rw [insertGroup_all, insertIfNew_new hg]
    simp only [hlookup]
    by_cases ha : g = a
    · subst ha
      have hold : ∀ k', (x.map k')[g]? = none := fun k' => Std.TreeMap.getElem?_eq_none (hnone k')
      simp [hold, eq_comm]
    · simp [ha, h.union]
  · obtain ⟨b₁, h₁⟩ := mem_iff_exists.mp h₁
    obtain ⟨b₂, h₂⟩ := mem_iff_exists.mp h₂
    rcases (hlookup k₁ a b₁).mp h₁ with ⟨rfl, rfl, rfl⟩ | hold₁
    · rcases (hlookup k₂ g b₂).mp h₂ with ⟨rfl, _⟩ | hold₂
      · rfl
      · exact absurd (mem_iff_exists.mpr ⟨b₂, hold₂⟩) (hnone k₂)
    · rcases (hlookup k₂ a b₂).mp h₂ with ⟨rfl, rfl, rfl⟩ | hold₂
      · exact absurd (mem_iff_exists.mpr ⟨b₁, hold₁⟩) (hnone k₁)
      · exact h.apart a k₁ k₂ (mem_iff_exists.mpr ⟨b₁, hold₁⟩) (mem_iff_exists.mpr ⟨b₂, hold₂⟩)

theorem ExecutorMaps.Split.eraseGroup {x : ExecutorMaps} (h : x.Split) {k : AddedBy} {g : Nat} (hg : g ∈ x.map k) :
    (x.eraseGroup k g).Split := by
  have hlookup : ∀ (k' : AddedBy) (a b : Nat), ((x.eraseGroup k g).map k')[a]? = some b ↔
      g ≠ a ∧ (x.map k')[a]? = some b := by
    intro k' a b
    rw [eraseGroup_map]
    by_cases hk : k' = k
    · subst hk
      rw [if_pos rfl, erase_some]
    · rw [if_neg hk]
      refine ⟨fun hb => ⟨?_, hb⟩, And.right⟩
      rintro rfl
      exact hk (h.apart g k' k (mem_iff_exists.mpr ⟨b, hb⟩) hg)
  refine ⟨fun a b => ?_, fun a k₁ k₂ h₁ h₂ => ?_⟩
  · rw [eraseGroup_all, erase_some, h.union]
    simp only [hlookup, exists_and_left]
  · obtain ⟨b₁, h₁⟩ := mem_iff_exists.mp h₁
    obtain ⟨b₂, h₂⟩ := mem_iff_exists.mp h₂
    exact h.apart a k₁ k₂ (mem_iff_exists.mpr ⟨b₁, ((hlookup k₁ a b₁).mp h₁).2⟩)
      (mem_iff_exists.mpr ⟨b₂, ((hlookup k₂ a b₂).mp h₂).2⟩)

theorem mem_addGuardCondition {cs : List GuardCondition} {c d : GuardCondition} :
    d ∈ addGuardCondition cs c ↔ d ∈ cs ∨ d = c := by
  unfold addGuardCondition
  split
  · exact ⟨Or.inl, fun h => h.elim id fun e => e ▸ ‹_›⟩
  · rw [List.mem_append, List.mem_singleton]

theorem ExecutorMaps.Guarded.insertGroup {x : ExecutorMaps} (h : x.Guarded) (k : AddedBy) (g n : Nat)
    (contextValid notify : Bool) : (x.insertGroup k g n contextValid notify).Guarded := by
  obtain ⟨hmap, hlist⟩ := insertGroup_guards x k g n contextValid notify
  refine ⟨?_, fun c => ?_, fun a c ha => ?_⟩
  · rw [hlist]
    cases contextValid with
    | false => exact h.nodup
    | true =>
      simp only [if_true, addGuardCondition]
      split
      · exact h.nodup
      · exact List.nodup_append.mpr ⟨h.nodup, List.nodup_singleton _, by
          rintro a ha b hb rfl
          exact ‹_ ∉ _› (List.mem_singleton.mp hb ▸ ha)⟩
  · rw [hlist, hmap]
    cases contextValid with
    | false => exact h.mem_iff c
    | true =>
      simp only [if_true, mem_addGuardCondition, h.mem_iff, Std.TreeMap.mem_insert, Nat.compare_eq_eq]
      constructor
      · rintro ((h | h | ⟨a, rfl, ha⟩) | rfl)
        · exact Or.inl h
        · exact Or.inr (Or.inl h)
        · exact Or.inr (Or.inr ⟨a, rfl, Or.inr ha⟩)
        · exact Or.inr (Or.inr ⟨g, rfl, Or.inl rfl⟩)
      · rintro (h | h | ⟨a, rfl, rfl | ha⟩)
        · exact Or.inl (Or.inl h)
        · exact Or.inl (Or.inr (Or.inl h))
        · exact Or.inr rfl
        · exact Or.inl (Or.inr (Or.inr ⟨a, rfl, ha⟩))
  · rw [hmap] at ha
    cases contextValid with
    | false => exact h.own a c ha
    | true =>
      simp only [if_true, Std.TreeMap.getElem?_insert, Nat.compare_eq_eq] at ha
      split at ha
      · rename_i hga
        cases ha
        rw [hga]
      · exact h.own a c ha

/-! ## Dropping a guard condition -/

theorem dropGuardCondition_map (x : ExecutorMaps) (g : Nat) (k : AddedBy) : (x.dropGuardCondition g).map k = x.map k := by
  unfold ExecutorMaps.dropGuardCondition
  split <;> cases k <;> rfl

theorem dropGuardCondition_all (x : ExecutorMaps) (g : Nat) :
    (x.dropGuardCondition g).weakGroupsToNodes = x.weakGroupsToNodes ∧ (x.dropGuardCondition g).weakNodes = x.weakNodes := by
  unfold ExecutorMaps.dropGuardCondition
  split <;> exact ⟨rfl, rfl⟩

@[simp] theorem dropGuardCondition_triggered (x : ExecutorMaps) (g : Nat) :
    (x.dropGuardCondition g).triggered = x.triggered := by
  unfold ExecutorMaps.dropGuardCondition
  split <;> rfl

theorem dropGuardCondition_guards {x : ExecutorMaps} (h : x.Guarded) (g : Nat) :
    (x.dropGuardCondition g).guardConditions = x.guardConditions.erase (.notify g) ∧
      ∀ (a : Nat) c, (x.dropGuardCondition g).weakGroupsToGuardConditions[a]? = some c ↔
        g ≠ a ∧ x.weakGroupsToGuardConditions[a]? = some c := by
  unfold ExecutorMaps.dropGuardCondition
  split
  · rename_i hnone
    refine ⟨?_, fun a c => ⟨fun hc => ⟨?_, hc⟩, And.right⟩⟩
    · rw [List.erase_of_not_mem]
      intro hmem
      rcases (h.mem_iff _).mp hmem with hc | hc | ⟨a, hc, ha⟩
      · cases hc
      · cases hc
      · cases hc
        obtain ⟨c, hc⟩ := mem_iff_exists.mp ha
        rw [hnone] at hc; cases hc
    · rintro rfl
      rw [hnone] at hc; cases hc
  · rename_i c hc
    cases h.own g c hc
    exact ⟨rfl, fun a c => erase_some⟩

theorem ExecutorMaps.Guarded.dropGuardCondition {x : ExecutorMaps} (h : x.Guarded) (g : Nat) :
    (x.dropGuardCondition g).Guarded := by
  obtain ⟨hlist, hmap⟩ := dropGuardCondition_guards h g
  refine ⟨by rw [hlist]; exact h.nodup.erase _, fun c => ?_, fun a c ha => h.own a c ((hmap a c).mp ha).2⟩
  rw [hlist, h.nodup.mem_erase_iff, h.mem_iff]
  simp only [mem_iff_exists, hmap]
  constructor
  · rintro ⟨hne, h | h | ⟨a, rfl, b, hb⟩⟩
    · exact Or.inl h
    · exact Or.inr (Or.inl h)
    · exact Or.inr (Or.inr ⟨a, rfl, b, fun e => hne (e ▸ rfl), hb⟩)
  · rintro (rfl | rfl | ⟨a, rfl, b, hne, hb⟩)
    · exact ⟨by simp, Or.inl rfl⟩
    · exact ⟨by simp, Or.inr (Or.inl rfl)⟩
    · refine ⟨fun e => hne ?_, Or.inr (Or.inr ⟨a, rfl, b, hb⟩)⟩
      cases e; rfl

/-- Dropping an invalid callback group erases it from every map. -/
theorem dropInvalid_map (x : ExecutorMaps) (g : Nat) (k : AddedBy) :
    (x.dropInvalid g).map k = (x.map k).erase g := by
  unfold ExecutorMaps.dropInvalid
  cases k <;> simp only [ExecutorMaps.map]
  · exact dropGuardCondition_map _ g .itself
  · exact dropGuardCondition_map _ g .node

theorem dropInvalid_all (x : ExecutorMaps) (g : Nat) :
    (x.dropInvalid g).weakGroupsToNodes = x.weakGroupsToNodes.erase g ∧ (x.dropInvalid g).weakNodes = x.weakNodes := by
  unfold ExecutorMaps.dropInvalid
  simp only [dropGuardCondition_all, and_self]

theorem ExecutorMaps.Split.dropInvalid {x : ExecutorMaps} (h : x.Split) (g : Nat) : (x.dropInvalid g).Split := by
  refine ⟨fun a b => ?_, fun a k₁ k₂ h₁ h₂ => ?_⟩
  · simp only [(dropInvalid_all x g).1, dropInvalid_map, erase_some, h.union, exists_and_left]
  · rw [dropInvalid_map, Std.TreeMap.mem_erase] at h₁ h₂
    exact h.apart a k₁ k₂ h₁.2 h₂.2

theorem ExecutorMaps.Guarded.dropInvalid {x : ExecutorMaps} (h : x.Guarded) (g : Nat) : (x.dropInvalid g).Guarded := by
  have hsame : ({ x with
      weakGroupsToNodesAssociatedWithExecutor := x.weakGroupsToNodesAssociatedWithExecutor.erase g
      weakGroupsAssociatedWithExecutorToNodes :=
        x.weakGroupsAssociatedWithExecutorToNodes.erase g } : ExecutorMaps).Guarded := ⟨h.nodup, h.mem_iff, h.own⟩
  have hdropped := hsame.dropGuardCondition g
  exact ⟨hdropped.nodup, hdropped.mem_iff, hdropped.own⟩

/-! ## All executors -/

/-- The maps of every executor are in order, and what is in an executor is
marked as such and in no other one. -/
structure Associated (w : Association) : Prop where
  split : ∀ e, (w.executors e).Split
  guarded : ∀ e, (w.executors e).Guarded
  taken : ∀ e g, g ∈ (w.executors e).weakGroupsToNodes → w.groupHasExecutor g = true
  unique : ∀ e e' g, g ∈ (w.executors e).weakGroupsToNodes → g ∈ (w.executors e').weakGroupsToNodes → e = e'
  nodup : ∀ e, (w.executors e).weakNodes.Nodup
  nodeTaken : ∀ e n, n ∈ (w.executors e).weakNodes → w.nodeHasExecutor n = true
  nodeUnique : ∀ e e' n, n ∈ (w.executors e).weakNodes → n ∈ (w.executors e').weakNodes → e = e'

/-- A change of one executor and of the flags. -/
theorem Associated.set {w : Association} (h : Associated w) {e : Nat} {x : ExecutorMaps} (hsplit : x.Split)
    (hguarded : x.Guarded) (hnodup : x.weakNodes.Nodup) {groupHasExecutor nodeHasExecutor : Nat → Bool}
    (hgroups : ∀ g ∈ x.weakGroupsToNodes, groupHasExecutor g = true ∧
      ∀ e', g ∈ (w.executors e').weakGroupsToNodes → e' = e)
    (hkept : ∀ e', e' ≠ e → ∀ g ∈ (w.executors e').weakGroupsToNodes, groupHasExecutor g = true)
    (hnodes : ∀ n ∈ x.weakNodes, nodeHasExecutor n = true ∧ ∀ e', n ∈ (w.executors e').weakNodes → e' = e)
    (hkeptNodes : ∀ e', e' ≠ e → ∀ n ∈ (w.executors e').weakNodes, nodeHasExecutor n = true) :
    Associated { w with
      groupHasExecutor, nodeHasExecutor, executors := Function.update w.executors e x } := by
  have hcases : ∀ e', Function.update w.executors e x e' = x ∧ e' = e ∨
      Function.update w.executors e x e' = w.executors e' ∧ e' ≠ e := by
    intro e'
    by_cases he : e' = e
    · subst he
      exact Or.inl ⟨Function.update_self .., rfl⟩
    · exact Or.inr ⟨Function.update_of_ne he .., he⟩
  refine ⟨fun e' => ?_, fun e' => ?_, fun e' g hg => ?_, fun e₁ e₂ g h₁ h₂ => ?_, fun e' => ?_, fun e' n hn => ?_,
    fun e₁ e₂ n h₁ h₂ => ?_⟩
  · rcases hcases e' with ⟨he, _⟩ | ⟨he, _⟩ <;> simp only [he]
    · exact hsplit
    · exact h.split e'
  · rcases hcases e' with ⟨he, _⟩ | ⟨he, _⟩ <;> simp only [he]
    · exact hguarded
    · exact h.guarded e'
  · rcases hcases e' with ⟨he, _⟩ | ⟨he, hne⟩ <;> simp only [he] at hg
    · exact (hgroups g hg).1
    · exact hkept e' hne g hg
  · rcases hcases e₁ with ⟨he₁, rfl⟩ | ⟨he₁, hne₁⟩ <;> rcases hcases e₂ with ⟨he₂, rfl⟩ | ⟨he₂, hne₂⟩ <;>
      simp only [he₁] at h₁ <;> simp only [he₂] at h₂
    · rfl
    · exact ((hgroups g h₁).2 e₂ h₂).symm
    · exact (hgroups g h₂).2 e₁ h₁
    · exact h.unique e₁ e₂ g h₁ h₂
  · rcases hcases e' with ⟨he, _⟩ | ⟨he, _⟩ <;> simp only [he]
    · exact hnodup
    · exact h.nodup e'
  · rcases hcases e' with ⟨he, _⟩ | ⟨he, hne⟩ <;> simp only [he] at hn
    · exact (hnodes n hn).1
    · exact hkeptNodes e' hne n hn
  · rcases hcases e₁ with ⟨he₁, rfl⟩ | ⟨he₁, hne₁⟩ <;> rcases hcases e₂ with ⟨he₂, rfl⟩ | ⟨he₂, hne₂⟩ <;>
      simp only [he₁] at h₁ <;> simp only [he₂] at h₂
    · rfl
    · exact ((hnodes n h₁).2 e₂ h₂).symm
    · exact (hnodes n h₂).2 e₁ h₁
    · exact h.nodeUnique e₁ e₂ n h₁ h₂

theorem storeFlag_true {f : Nat → Bool} {i j : Nat} (h : f j = true) : storeFlag f i true j = true := by
  unfold storeFlag
  split
  · rfl
  · exact h

theorem storeFlag_self (f : Nat → Bool) (i : Nat) (b : Bool) : storeFlag f i b i = b := by simp [storeFlag]

theorem storeFlag_ne {f : Nat → Bool} {i j : Nat} {b : Bool} (h : j ≠ i) : storeFlag f i b j = f j := by
  simp [storeFlag, h]

/-- What adding and removing callback groups leaves alone. -/
structure SameNodes (w w' : Association) : Prop where
  callbackGroups : w'.callbackGroups = w.callbackGroups
  groupExpired : w'.groupExpired = w.groupExpired
  nodeExpired : w'.nodeExpired = w.nodeExpired
  nodeHasExecutor : w'.nodeHasExecutor = w.nodeHasExecutor
  contextValid : w'.contextValid = w.contextValid
  triggerFails : w'.triggerFails = w.triggerFails
  weakNodes : ∀ e, (w'.executors e).weakNodes = (w.executors e).weakNodes

theorem SameNodes.refl (w : Association) : SameNodes w w := ⟨rfl, rfl, rfl, rfl, rfl, rfl, fun _ => rfl⟩

theorem SameNodes.trans {u v w : Association} (h : SameNodes u v) (h' : SameNodes v w) : SameNodes u w :=
  ⟨h'.callbackGroups.trans h.callbackGroups, h'.groupExpired.trans h.groupExpired, h'.nodeExpired.trans h.nodeExpired,
    h'.nodeHasExecutor.trans h.nodeHasExecutor, h'.contextValid.trans h.contextValid,
    h'.triggerFails.trans h.triggerFails, fun e => (h'.weakNodes e).trans (h.weakNodes e)⟩

/-- What holds until a call of the loop throws holds, with what was thrown, of the loop. -/
theorem forEach_spec {α : Type} {P : Association → Option AssociationError → Prop} {f : α → Association → Called} :
    ∀ {as : List α} {w : Association}, (∀ a ∈ as, ∀ w, P w none → P (f a w).1 (f a w).2) → P w none →
      P (forEach f as w).1 (forEach f as w).2
  | [], _, _, h => h
  | a :: as, w, hstep, h => by
    have hnext := hstep a (List.mem_cons_self ..) w h
    rw [forEach]
    split
    · rename_i w' hw
      rw [hw] at hnext
      exact forEach_spec (fun b hb => hstep b (List.mem_cons_of_mem _ hb)) hnext
    · rename_i w' error hw
      rw [hw] at hnext
      exact hnext

theorem forEach_keeps {α : Type} {P : Association → Prop} {f : α → Association → Called} {as : List α}
    {w : Association} (hstep : ∀ a ∈ as, ∀ w, P w → P (f a w).1) (h : P w) : P (forEach f as w).1 :=
  forEach_spec (P := fun v _ => P v) hstep h

/-! ## Triggers -/

/-- The triggers of the interrupt guard condition of `e` between two states have
worked, or the last of them has failed. -/
inductive Triggered (w w' : Association) (e : Nat) (notify : Bool) (failure : AssociationError) :
    Option AssociationError → Prop
  | worked : (w.executors e).triggered ≤ (w'.executors e).triggered →
      (∀ n, (w.executors e).triggered ≤ n → n < (w'.executors e).triggered → w.triggerFails e n = false) →
      Triggered w w' e notify failure none
  | failed (n : Nat) : notify = true → (w.executors e).triggered ≤ n → (w'.executors e).triggered = n + 1 →
      w.triggerFails e n = true → Triggered w w' e notify failure (some failure)

theorem Triggered.same {w w' : Association} {e : Nat} {notify : Bool} {failure : AssociationError}
    (h : (w'.executors e).triggered = (w.executors e).triggered) : Triggered w w' e notify failure none :=
  .worked (Nat.le_of_eq h.symm) fun _ hle hlt => absurd hlt (Nat.not_lt.mpr (h ▸ hle))

theorem Triggered.once {w w' : Association} {e : Nat} {notify : Bool} {failure : AssociationError}
    (h : (w'.executors e).triggered = (w.executors e).triggered + notify.toNat) :
    Triggered w w' e notify failure (w.interruptError e notify failure) := by
  unfold Association.interruptError
  cases notify with
  | false => exact .same h
  | true =>
    cases hfails : w.triggerFails e (w.executors e).triggered with
    | true => exact .failed _ rfl (Nat.le_refl _) h hfails
    | false =>
      refine .worked (by rw [h]; exact Nat.le_add_right ..) fun n hle hlt => ?_
      have hn : n = (w.executors e).triggered := by
        simp only [Bool.toNat_true] at h
        omega
      rw [hn]; exact hfails

theorem Triggered.trans {u v w : Association} {e : Nat} {notify : Bool} {failure : AssociationError}
    {error : Option AssociationError} (h : Triggered u v e notify failure none)
    (h' : Triggered v w e notify failure error) (hsame : v.triggerFails = u.triggerFails) :
    Triggered u w e notify failure error := by
  cases h with
  | worked hle hworked =>
    cases h' with
    | worked hle' hworked' =>
      refine .worked (hle.trans hle') fun n hn hn' => ?_
      by_cases hv : n < (v.executors e).triggered
      · exact hworked n hn hv
      · rw [← hsame]; exact hworked' n (Nat.le_of_not_lt hv) hn'
    | failed n hnotify hn hw hfails => exact .failed n hnotify (hle.trans hn) hw (hsame ▸ hfails)

/-- A callback group that is free is in no map, so that only the trigger can fail. -/
theorem addCallbackGroupToMap_eq {w : Association} (h : Associated w) (e g n : Nat) (k : AddedBy) (notify : Bool) :
    addCallbackGroupToMap e g n k notify w =
      if w.groupHasExecutor g then (w, some .groupHasExecutor)
      else ({ w with
        groupHasExecutor := storeFlag w.groupHasExecutor g true
        executors := Function.update w.executors e
          ((w.executors e).insertGroup k g n w.contextValid notify) }, w.interruptError e notify .triggerOnAdd) := by
  unfold addCallbackGroupToMap
  by_cases hg : w.groupHasExecutor g = true
  · rw [if_pos hg, if_pos hg]
  · have hnot : g ∉ (w.executors e).map k := fun hmem => hg (h.taken e g (((h.split e).mem_iff g).mpr ⟨k, hmem⟩))
    rw [if_neg hg, if_neg hg]
    simp only [if_neg hnot]
    rfl

theorem addCallbackGroupToMap_associated {w : Association} (h : Associated w) (e g n : Nat) (k : AddedBy)
    (notify : Bool) : Associated (addCallbackGroupToMap e g n k notify w).1 ∧
      SameNodes w (addCallbackGroupToMap e g n k notify w).1 := by
  rw [addCallbackGroupToMap_eq h]
  split
  · exact ⟨h, .refl w⟩
  · rename_i hg
    have hnot : ∀ e', g ∉ (w.executors e').weakGroupsToNodes := fun e' hmem => hg (h.taken e' g hmem)
    refine ⟨h.set ((h.split e).insertGroup (hnot e) k n _ _) ((h.guarded e).insertGroup k g n _ _) ?_ ?_ ?_ ?_ ?_,
      rfl, rfl, rfl, rfl, rfl, rfl, fun e' => ?_⟩
    · rw [insertGroup_weakNodes]; exact h.nodup e
    · intro a ha
      rw [insertGroup_all, Std.TreeMap.mem_insertIfNew, Nat.compare_eq_eq] at ha
      rcases ha with rfl | ha
      · exact ⟨storeFlag_self .., fun e' he' => absurd he' (hnot e')⟩
      · exact ⟨storeFlag_true (h.taken e a ha), fun e' he' => h.unique e' e a he' ha⟩
    · exact fun e' _ a ha => storeFlag_true (h.taken e' a ha)
    · intro m hm
      rw [insertGroup_weakNodes] at hm
      exact ⟨h.nodeTaken e m hm, fun e' he' => h.nodeUnique e' e m he' hm⟩
    · exact fun e' _ m hm => h.nodeTaken e' m hm
    · by_cases he : e' = e
      · subst he
        simp only [Function.update_self, insertGroup_weakNodes]
      · simp only [Function.update_of_ne he]

/-- What the loops over the callback groups of nodes come to from `w`. -/
structure AddedFrom (w : Association) (e : Nat) (notify : Bool) (v : Association)
    (error : Option AssociationError) : Prop where
  associated : Associated v
  same : SameNodes w v
  triggered : Triggered w v e notify .triggerOnAdd error

theorem AddedFrom.refl {w : Association} (h : Associated w) (e : Nat) (notify : Bool) : AddedFrom w e notify w none :=
  ⟨h, .refl w, .same rfl⟩

theorem AddedFrom.trans {u v w : Association} {e : Nat} {notify : Bool} {error : Option AssociationError}
    (h : AddedFrom u e notify v none) (h' : AddedFrom v e notify w error) : AddedFrom u e notify w error :=
  ⟨h'.associated, h.same.trans h'.same, h.triggered.trans h'.triggered h.same.triggerFails⟩

theorem addWithNode_ok {w : Association} (h : Associated w) (e n : Nat) (notify : Bool) (g : CreatedGroup) :
    AddedFrom w e notify (addWithNode e n notify g w).1 (addWithNode e n notify g w).2 := by
  unfold addWithNode
  split
  · rename_i hfree
    simp only [Bool.and_eq_true, Bool.not_eq_true'] at hfree
    obtain ⟨hassoc, hsame⟩ := addCallbackGroupToMap_associated h e g.id n .node notify
    refine ⟨hassoc, hsame, ?_⟩
    rw [addCallbackGroupToMap_eq h, hfree.2]
    refine .once ?_
    simp only [Bool.false_eq_true, if_false, Function.update_self, insertGroup_triggered]
  · exact .refl h e notify

theorem addWithNode_all {w : Association} (h : Associated w) (e n : Nat) (notify : Bool) (gs : List CreatedGroup) :
    AddedFrom w e notify (forEach (addWithNode e n notify) gs w).1 (forEach (addWithNode e n notify) gs w).2 :=
  forEach_spec (fun g _ _ hv => hv.trans (addWithNode_ok hv.associated e n notify g)) (.refl h e notify)

/-- The flag of a node has no meaning for the maps. -/
theorem Associated.flagNode {w : Association} (h : Associated w) {f : Nat → Bool}
    (hkept : ∀ e, ∀ n ∈ (w.executors e).weakNodes, f n = true) : Associated { w with nodeHasExecutor := f } :=
  ⟨h.split, h.guarded, h.taken, h.unique, h.nodup, fun e n hn => hkept e n hn, h.nodeUnique⟩

theorem Associated.setNodes {w : Association} (h : Associated w) {e : Nat} {ns : List Nat} (hnodup : ns.Nodup)
    (hnodes : ∀ n ∈ ns, w.nodeHasExecutor n = true ∧ ∀ e', n ∈ (w.executors e').weakNodes → e' = e) :
    Associated (w.setExecutor e { w.executors e with weakNodes := ns }) :=
  h.set (x := { w.executors e with weakNodes := ns }) ⟨(h.split e).union, (h.split e).apart⟩
    ⟨(h.guarded e).nodup, (h.guarded e).mem_iff, (h.guarded e).own⟩ hnodup
    (fun g hg => ⟨h.taken e g hg, fun e' he' => h.unique e' e g he' hg⟩) (fun e' _ g hg => h.taken e' g hg) hnodes
    (fun e' _ m hm => h.nodeTaken e' m hm)

def Association.markNode (w : Association) (n : Nat) (b : Bool) : Association :=
  { w with nodeHasExecutor := storeFlag w.nodeHasExecutor n b }

theorem addNode_eq (e n : Nat) (notify : Bool) (w : Association) : addNode e n notify w =
    if w.nodeHasExecutor n then (w, some .nodeHasExecutor)
    else match forEach (addWithNode e n notify) (w.groupsOf n) (w.markNode n true) with
      | (v, none) => (v.setExecutor e { v.executors e with weakNodes := (v.executors e).weakNodes ++ [n] }, none)
      | (v, some error) => (v, some error) := rfl

/-- Adding a free node: `v` is the state with its callback groups in the maps,
up to the one whose trigger has failed. -/
theorem addNode_free {w : Association} (h : Associated w) {n : Nat} (hfree : w.nodeHasExecutor n = false) (e : Nat)
    (notify : Bool) : ∃ v error, forEach (addWithNode e n notify) (w.groupsOf n) (w.markNode n true) = (v, error) ∧
      AddedFrom (w.markNode n true) e notify v error ∧
      addNode e n notify w =
        (match error with
          | none => v.setExecutor e { v.executors e with weakNodes := (v.executors e).weakNodes ++ [n] }
          | some _ => v, error) := by
  have hmarked : Associated (w.markNode n true) := h.flagNode fun e' m hm => storeFlag_true (h.nodeTaken e' m hm)
  have hadded := addWithNode_all hmarked e n notify (w.groupsOf n)
  rw [addNode_eq, hfree]
  generalize forEach (addWithNode e n notify) (w.groupsOf n) (w.markNode n true) = result at hadded ⊢
  obtain ⟨v, error⟩ := result
  cases error <;> exact ⟨v, _, rfl, hadded, rfl⟩

theorem addNode_associated {w : Association} (h : Associated w) (e n : Nat) (notify : Bool) :
    Associated (addNode e n notify w).1 := by
  cases hfree : w.nodeHasExecutor n with
  | true =>
    rw [addNode_eq, if_pos hfree]
    exact h
  | false =>
    have hnot : ∀ e', n ∉ (w.executors e').weakNodes := by
      intro e' hmem
      rw [h.nodeTaken e' n hmem] at hfree; cases hfree
    obtain ⟨v, error, _, ⟨hassoc, hsame, _⟩, heq⟩ := addNode_free h hfree e notify
    rw [heq]
    have hweak : ∀ e', (v.executors e').weakNodes = (w.executors e').weakNodes := hsame.weakNodes
    cases error with
    | some error => exact hassoc
    | none =>
      refine hassoc.setNodes ?_ fun m hm => ?_
      · rw [hweak]
        refine List.nodup_append.mpr ⟨h.nodup e, List.nodup_singleton _, ?_⟩
        rintro a ha b hb rfl
        exact hnot e (List.mem_singleton.mp hb ▸ ha)
      · rcases List.mem_append.mp hm with hm | hm
        · exact ⟨hassoc.nodeTaken e m hm, fun e' he' => hassoc.nodeUnique e' e m he' hm⟩
        · cases List.mem_singleton.mp hm
          refine ⟨by rw [hsame.nodeHasExecutor]; exact storeFlag_self .., fun e' he' => ?_⟩
          rw [hweak] at he'
          exact absurd he' (hnot e')

/-! ## Removing -/

/-- What the removal of `g`, whose node is `n`, makes of the maps; only with the
last callback group of the node the interrupt guard condition is triggered, and
then that may have failed. -/
structure ExecutorMaps.Removed (x : ExecutorMaps) (k : AddedBy) (g n : Nat) (notify : Bool)
    (failure : Option AssociationError) (y : ExecutorMaps) (error : Option AssociationError) : Prop where
  map : ∀ k', y.map k' = (x.eraseGroup k g).map k'
  all : y.weakGroupsToNodes = x.weakGroupsToNodes.erase g
  weakNodes : y.weakNodes = x.weakNodes
  guards : ((∃ k', ∃ a : Nat, a ≠ g ∧ (x.map k')[a]? = some n) ∧ y.guardConditions = x.guardConditions ∧
      y.weakGroupsToGuardConditions = x.weakGroupsToGuardConditions ∧ y.triggered = x.triggered ∧ error = none) ∨
    ((∀ k', ∀ a : Nat, (x.map k')[a]? = some n → a = g) ∧
      y.guardConditions = (x.dropGuardCondition g).guardConditions ∧
      y.weakGroupsToGuardConditions = (x.dropGuardCondition g).weakGroupsToGuardConditions ∧
      y.triggered = x.triggered + notify.toNat ∧ error = failure)

theorem hasNode_eq_true {w : Association} {n : Nat} (hn : w.nodeExpired n = false) (m : WeakGroupsToNodes) :
    w.hasNode n m = true ↔ ∃ a : Nat, m[a]? = some n := by
  unfold Association.hasNode
  simp only [List.any_eq_true, Bool.and_eq_true, Bool.not_eq_true', beq_iff_eq]
  constructor
  · rintro ⟨⟨a, b⟩, hmem, _, rfl⟩
    exact ⟨a, Std.TreeMap.mem_toList_iff_getElem?_eq_some.mp hmem⟩
  · rintro ⟨a, ha⟩
    exact ⟨(a, n), Std.TreeMap.mem_toList_iff_getElem?_eq_some.mpr ha, hn, rfl⟩

theorem dropGuardCondition_eraseGroup (x : ExecutorMaps) (k : AddedBy) (g : Nat) :
    ((x.eraseGroup k g).dropGuardCondition g).guardConditions = (x.dropGuardCondition g).guardConditions ∧
      ((x.eraseGroup k g).dropGuardCondition g).weakGroupsToGuardConditions =
        (x.dropGuardCondition g).weakGroupsToGuardConditions := by
  obtain ⟨hmap, hlist⟩ := eraseGroup_guards x k g
  unfold ExecutorMaps.dropGuardCondition
  rw [hmap]
  split <;> simp [hmap, hlist]

theorem removeCallbackGroupFromMap_cases {w : Association} (h : Associated w) (e : Nat) (group : Option Nat)
    (k : AddedBy) (notify : Bool) :
    ((∀ g n, group = some g → ((w.executors e).map k)[g]? = some n → w.nodeExpired n = true) ∧
      ∃ error, (error = .groupNotAssociated ∨ error = .nodeDeleted) ∧
        removeCallbackGroupFromMap e group k notify w = (w, some error)) ∨
    ∃ g n y error, group = some g ∧ ((w.executors e).map k)[g]? = some n ∧ w.nodeExpired n = false ∧
      (w.executors e).Removed k g n notify (w.interruptError e notify .triggerOnRemove) y error ∧
      removeCallbackGroupFromMap e group k notify w =
        ({ w with groupHasExecutor := storeFlag w.groupHasExecutor g false
                  executors := Function.update w.executors e y }, error) := by
  cases group with
  | none =>
    refine Or.inl ⟨fun g n hg => ?_, .groupNotAssociated, Or.inl rfl, rfl⟩
    cases hg
  | some g =>
    cases hg : ((w.executors e).map k)[g]? with
    | none =>
      refine Or.inl ⟨fun g' n hg' hn => ?_, .groupNotAssociated, Or.inl rfl, ?_⟩
      · cases hg'
        rw [hg] at hn; cases hn
      · simp only [removeCallbackGroupFromMap, hg]
    | some n =>
      cases hn : w.nodeExpired n with
      | true =>
        refine Or.inl ⟨fun g' n' hg' hn' => ?_, .nodeDeleted, Or.inr rfl, ?_⟩
        · cases hg'
          rw [hg] at hn'; cases hn'
          exact hn
        · simp only [removeCallbackGroupFromMap, hg, hn, if_true]
      | false =>
        have hlookup : ∀ k' a, (((w.executors e).eraseGroup k g).map k')[a]? = some n ↔
            a ≠ g ∧ ((w.executors e).map k')[a]? = some n := by
          intro k' a
          rw [eraseGroup_map]
          by_cases hk : k' = k
          · subst hk
            rw [if_pos rfl, erase_some, ne_comm]
          · rw [if_neg hk]
            refine ⟨fun ha => ⟨?_, ha⟩, And.right⟩
            rintro rfl
            exact hk ((h.split e).apart a k' k (mem_iff_exists.mpr ⟨n, ha⟩) (mem_iff_exists.mpr ⟨n, hg⟩))
        have hleft : (!w.hasNode n (((w.executors e).eraseGroup k g).map .node) &&
            !w.hasNode n (((w.executors e).eraseGroup k g).map .itself)) = true ↔
            ∀ k', ∀ a : Nat, ((w.executors e).map k')[a]? = some n → a = g := by
          rw [Bool.and_eq_true, Bool.not_eq_true', Bool.not_eq_true', ← Bool.not_eq_true, ← Bool.not_eq_true,
            hasNode_eq_true hn, hasNode_eq_true hn]
          simp only [hlookup, not_exists, not_and]
          constructor
          · rintro ⟨hnode, hitself⟩ k' a ha
            by_contra hne
            cases k' with
            | itself => exact hitself a hne ha
            | node => exact hnode a hne ha
          · exact fun hall => ⟨fun a hne ha => hne (hall .node a ha), fun a hne ha => hne (hall .itself a ha)⟩
        have heq : removeCallbackGroupFromMap e (some g) k notify w =
            if !w.hasNode n (((w.executors e).eraseGroup k g).map .node) &&
              !w.hasNode n (((w.executors e).eraseGroup k g).map .itself) then
              ({ w with
                groupHasExecutor := storeFlag w.groupHasExecutor g false
                executors := Function.update w.executors e
                  ((((w.executors e).eraseGroup k g).dropGuardCondition g).interrupt notify) },
                w.interruptError e notify .triggerOnRemove)
            else ({ w with
              groupHasExecutor := storeFlag w.groupHasExecutor g false
              executors := Function.update w.executors e ((w.executors e).eraseGroup k g) }, none) := by
          simp only [removeCallbackGroupFromMap, hg, hn]
          rfl
        obtain ⟨hguards, hguardMap⟩ := dropGuardCondition_eraseGroup (w.executors e) k g
        by_cases hall : ∀ k', ∀ a : Nat, ((w.executors e).map k')[a]? = some n → a = g
        · refine Or.inr ⟨g, n, _, _, rfl, hg, hn, ⟨fun k' => ?_, ?_, ?_, Or.inr ⟨hall, ?_, ?_, ?_, rfl⟩⟩,
            heq.trans (if_pos (hleft.mpr hall))⟩
          · rw [interrupt_map, dropGuardCondition_map]
          · rw [interrupt_weakGroupsToNodes, (dropGuardCondition_all ..).1, eraseGroup_all]
          · rw [interrupt_weakNodes, (dropGuardCondition_all ..).2, eraseGroup_weakNodes]
          · rw [(interrupt_guardConditions ..).1, hguards]
          · rw [(interrupt_guardConditions ..).2, hguardMap]
          · rw [interrupt_triggered, dropGuardCondition_triggered, eraseGroup_triggered]
        · have hother : ∃ k', ∃ a : Nat, a ≠ g ∧ ((w.executors e).map k')[a]? = some n := by
            simp only [not_forall] at hall
            obtain ⟨k', a, ha, hne⟩ := hall
            exact ⟨k', a, hne, ha⟩
          exact Or.inr ⟨g, n, _, _, rfl, hg, hn, ⟨fun _ => rfl, eraseGroup_all .., eraseGroup_weakNodes ..,
            Or.inl ⟨hother, (eraseGroup_guards ..).2, (eraseGroup_guards ..).1, eraseGroup_triggered .., rfl⟩⟩,
            heq.trans (if_neg fun hcond => hall (hleft.mp hcond))⟩

theorem ExecutorMaps.Removed.split {x y : ExecutorMaps} {k : AddedBy} {g n : Nat} {notify : Bool}
    {failure error : Option AssociationError} (h : x.Removed k g n notify failure y error)
    (hx : x.Split) (hg : g ∈ x.map k) : y.Split := by
  have herased := hx.eraseGroup hg
  refine ⟨fun a b => ?_, fun a k₁ k₂ h₁ h₂ => ?_⟩
  · rw [h.all, ← eraseGroup_all x k, herased.union]
    simp only [h.map]
  · rw [h.map] at h₁ h₂
    exact herased.apart a k₁ k₂ h₁ h₂

theorem ExecutorMaps.Removed.guarded {x y : ExecutorMaps} {k : AddedBy} {g n : Nat} {notify : Bool}
    {failure error : Option AssociationError} (h : x.Removed k g n notify failure y error)
    (hx : x.Guarded) : y.Guarded := by
  have hdropped := hx.dropGuardCondition g
  rcases h.guards with ⟨_, hlist, hmap, _⟩ | ⟨_, hlist, hmap, _⟩
  · exact ⟨by rw [hlist]; exact hx.nodup, by rw [hlist, hmap]; exact hx.mem_iff, by rw [hmap]; exact hx.own⟩
  · exact ⟨by rw [hlist]; exact hdropped.nodup, by rw [hlist, hmap]; exact hdropped.mem_iff,
      by rw [hmap]; exact hdropped.own⟩

theorem removeCallbackGroupFromMap_associated {w : Association} (h : Associated w) (e : Nat) (group : Option Nat)
    (k : AddedBy) (notify : Bool) : Associated (removeCallbackGroupFromMap e group k notify w).1 ∧
      SameNodes w (removeCallbackGroupFromMap e group k notify w).1 := by
  rcases removeCallbackGroupFromMap_cases h e group k notify with
    ⟨_, error, _, heq⟩ | ⟨g, n, y, error, _, hg, _, hy, heq⟩
  · rw [heq]; exact ⟨h, .refl w⟩
  · rw [heq]
    have hmem : g ∈ (w.executors e).map k := mem_iff_exists.mpr ⟨n, hg⟩
    have hall : g ∈ (w.executors e).weakGroupsToNodes := ((h.split e).mem_iff g).mpr ⟨k, hmem⟩
    have hkeep : ∀ e' a, a ≠ g → a ∈ (w.executors e').weakGroupsToNodes →
        storeFlag w.groupHasExecutor g false a = true := fun e' a ha hmem => by
      rw [storeFlag_ne ha]; exact h.taken e' a hmem
    refine ⟨h.set (hy.split (h.split e) hmem) (hy.guarded (h.guarded e)) ?_ ?_ ?_ ?_ ?_, rfl, rfl, rfl, rfl, rfl, rfl,
      fun e' => ?_⟩
    · rw [hy.weakNodes]; exact h.nodup e
    · intro a ha
      rw [hy.all, Std.TreeMap.mem_erase] at ha
      have hne : a ≠ g := fun heq => ha.1 (Nat.compare_eq_eq.mpr heq.symm)
      exact ⟨hkeep e a hne ha.2, fun e' he' => h.unique e' e a he' ha.2⟩
    · intro e' he' a ha
      refine hkeep e' a ?_ ha
      rintro rfl
      exact he' (h.unique e' e a ha hall)
    · intro m hm
      rw [hy.weakNodes] at hm
      exact ⟨h.nodeTaken e m hm, fun e' he' => h.nodeUnique e' e m he' hm⟩
    · exact fun e' _ m hm => h.nodeTaken e' m hm
    · by_cases he : e' = e
      · subst he
        simp only [Function.update_self, hy.weakNodes]
      · simp only [Function.update_of_ne he]

theorem removeWithNode_all {w : Association} (h : Associated w) (e : Nat) (notify : Bool) (gs : List Nat) :
    Associated (forEach (removeWithNode e notify) gs w).1 ∧ SameNodes w (forEach (removeWithNode e notify) gs w).1 := by
  refine forEach_keeps (P := fun v => Associated v ∧ SameNodes w v) (fun g _ v hv => ?_) ⟨h, .refl w⟩
  obtain ⟨hassoc, hsame⟩ := removeCallbackGroupFromMap_associated hv.1 e
    (if v.groupExpired g then none else some g) .node notify
  exact ⟨hassoc, hv.2.trans hsame⟩

def Association.dropNode (w : Association) (e n : Nat) : Association :=
  w.setExecutor e { w.executors e with weakNodes := (w.executors e).weakNodes.filter (· ≠ n) }

def Association.groupsWithNode (w : Association) (e n : Nat) : List Nat :=
  ((w.executors e).weakGroupsToNodesAssociatedWithExecutor.toList.filter fun p => p.2 = n).map Prod.fst

theorem removeNode_eq (e n : Nat) (notify : Bool) (w : Association) : removeNode e n notify w =
    if !w.nodeHasExecutor n then (w, some .nodeNotAssociated)
    else if n ∉ (w.executors e).weakNodes then (w, some .nodeNotInExecutor)
    else match forEach (removeWithNode e notify) (w.groupsWithNode e n) (w.dropNode e n) with
      | (v, none) => (v.markNode n false, none)
      | (v, some error) => (v, some error) := rfl

theorem Associated.dropNode {w : Association} (h : Associated w) (e n : Nat) : Associated (w.dropNode e n) := by
  refine h.setNodes ((h.nodup e).filter _) fun m hm => ?_
  have hm := (List.mem_filter.mp hm).1
  exact ⟨h.nodeTaken e m hm, fun e' he' => h.nodeUnique e' e m he' hm⟩

theorem not_mem_dropNode {w : Association} (h : Associated w) {e n : Nat} (hn : n ∈ (w.executors e).weakNodes)
    (e' : Nat) : n ∉ ((w.dropNode e n).executors e').weakNodes := by
  intro hmem
  unfold Association.dropNode Association.setExecutor at hmem
  by_cases he : e' = e
  · subst he
    simp only [Function.update_self, List.mem_filter, decide_eq_true_eq] at hmem
    exact hmem.2 rfl
  · simp only [Function.update_of_ne he] at hmem
    exact he (h.nodeUnique e' e n hmem hn)

theorem removeNode_associated {w : Association} (h : Associated w) (e n : Nat) (notify : Bool) :
    Associated (removeNode e n notify w).1 := by
  rw [removeNode_eq]
  split
  · exact h
  · split
    · exact h
    · rename_i hin
      have hnot := not_mem_dropNode h (not_not.mp hin)
      obtain ⟨hassoc, hsame⟩ := removeWithNode_all (h.dropNode e n) e notify (w.groupsWithNode e n)
      generalize forEach (removeWithNode e notify) (w.groupsWithNode e n) (w.dropNode e n) = result at hassoc hsame ⊢
      obtain ⟨v, error⟩ := result
      cases error with
      | some error => exact hassoc
      | none =>
        refine hassoc.flagNode fun e' m hm => ?_
        have hmn : m ≠ n := by
          rintro rfl
          rw [hsame.weakNodes] at hm
          exact hnot e' hm
        rw [storeFlag_ne hmn]
        exact hassoc.nodeTaken e' m hm

/-! ## Waiting and destruction -/

theorem addFromNodes_ok {w : Association} (h : Associated w) (e : Nat) :
    AddedFrom w e true (addCallbackGroupsFromNodesAssociatedToExecutor e w).1
      (addCallbackGroupsFromNodesAssociatedToExecutor e w).2 := by
  refine forEach_spec (fun n _ v hv => ?_) (.refl h e true)
  split
  · exact hv
  · exact hv.trans (addWithNode_all hv.associated e n true (v.groupsOf n))

theorem dropInvalid_foldl {x : ExecutorMaps} (hsplit : x.Split) (hguarded : x.Guarded) : ∀ gs : List Nat,
    (gs.foldl ExecutorMaps.dropInvalid x).Split ∧ (gs.foldl ExecutorMaps.dropInvalid x).Guarded ∧
      (gs.foldl ExecutorMaps.dropInvalid x).weakNodes = x.weakNodes ∧
      ∀ a b : Nat, (gs.foldl ExecutorMaps.dropInvalid x).weakGroupsToNodes[a]? = some b ↔
        a ∉ gs ∧ x.weakGroupsToNodes[a]? = some b := by
  intro gs
  induction gs generalizing x with
  | nil => exact ⟨hsplit, hguarded, rfl, fun a b => by simp⟩
  | cons g gs ih =>
    obtain ⟨h₁, h₂, h₃, h₄⟩ := ih (hsplit.dropInvalid g) (hguarded.dropInvalid g)
    refine ⟨h₁, h₂, h₃.trans (dropInvalid_all x g).2, fun a b => ?_⟩
    rw [List.foldl_cons, h₄, (dropInvalid_all x g).1, erase_some, List.mem_cons, not_or, ne_comm]
    tauto

/-- `v` is the state with the new callback groups of the nodes, up to the one whose trigger has failed. -/
theorem prepareWait_ok {w : Association} (h : Associated w) (e : Nat) : ∃ v error, AddedFrom w e true v error ∧
    addCallbackGroupsFromNodesAssociatedToExecutor e w = (v, error) ∧
    prepareWait e w =
      (match error with
        | none => v.setExecutor e ((v.invalidGroups e).foldl ExecutorMaps.dropInvalid (v.executors e))
        | some _ => v, error) := by
  have hadded := addFromNodes_ok h e
  unfold prepareWait
  generalize addCallbackGroupsFromNodesAssociatedToExecutor e w = result at hadded ⊢
  obtain ⟨v, error⟩ := result
  cases error <;> exact ⟨v, _, hadded, rfl, rfl⟩

theorem prepareWait_associated {w : Association} (h : Associated w) (e : Nat) : Associated (prepareWait e w).1 := by
  obtain ⟨v, error, ⟨hassoc, _, _⟩, _, heq⟩ := prepareWait_ok h e
  rw [heq]
  cases error with
  | some error => exact hassoc
  | none =>
    obtain ⟨hsplit, hguarded, hnodes, hall⟩ := dropInvalid_foldl (hassoc.split e) (hassoc.guarded e) (v.invalidGroups e)
    have hmem : ∀ g, g ∈ ((v.invalidGroups e).foldl ExecutorMaps.dropInvalid (v.executors e)).weakGroupsToNodes →
        g ∈ (v.executors e).weakGroupsToNodes := by
      intro g hg
      obtain ⟨n, hn⟩ := mem_iff_exists.mp hg
      exact mem_iff_exists.mpr ⟨n, ((hall g n).mp hn).2⟩
    refine hassoc.set hsplit hguarded (by rw [hnodes]; exact hassoc.nodup e) (fun g hg => ?_)
      (fun e' _ g hg => hassoc.taken e' g hg) (fun m hm => ?_) (fun e' _ m hm => hassoc.nodeTaken e' m hm)
    · exact ⟨hassoc.taken e g (hmem g hg), fun e' he' => hassoc.unique e' e g he' (hmem g hg)⟩
    · rw [hnodes] at hm
      exact ⟨hassoc.nodeTaken e m hm, fun e' he' => hassoc.nodeUnique e' e m he' hm⟩

theorem split_empty : ({} : ExecutorMaps).Split := by
  refine ⟨fun g n => ?_, fun g k k' hk => ?_⟩
  · simp [ExecutorMaps.map]
    rintro (_ | _) <;> simp
  · cases k <;> exact absurd hk Std.TreeMap.not_mem_emptyc

theorem guarded_empty : ({} : ExecutorMaps).Guarded := by
  refine ⟨by decide, fun c => ?_, fun g c hc => ?_⟩
  · simp
  · simp at hc

theorem destroy_associated {w : Association} (h : Associated w) (e : Nat) : Associated (destroy e w) := by
  refine h.set (x := {}) split_empty guarded_empty List.nodup_nil (fun g hg => ?_) (fun e' he' g hg => ?_)
    (fun n hn => absurd hn List.not_mem_nil) (fun e' he' n hn => ?_)
  · exact absurd hg Std.TreeMap.not_mem_emptyc
  · have hnot : ¬ (g ∈ (w.executors e).weakGroupsToNodes ∧ w.groupExpired g = false) :=
      fun hmem => he' (h.unique e' e g hg hmem.1)
    simp only [hnot, if_false, h.taken e' g hg]
  · have hnot : ¬ (n ∈ (w.executors e).weakNodes ∧ w.nodeExpired n = false) :=
      fun hmem => he' (h.nodeUnique e' e n hn hmem.1)
    simp only [hnot, if_false, h.nodeTaken e' n hn]

/-! ## Runs -/

theorem associated_step {w w' : Association} {a : AssociationStep} (h : Associated w)
    (hstep : associationStep w a = some w') : Associated w' := by
  obtain ⟨called, hcall, rfl⟩ := Option.map_eq_some_iff.mp hstep
  cases a with
  | createCallbackGroup g =>
    simp only [call] at hcall
    split at hcall
    · cases hcall
    · cases hcall; exact ⟨h.split, h.guarded, h.taken, h.unique, h.nodup, h.nodeTaken, h.nodeUnique⟩
  | releaseGroup g =>
    simp only [call] at hcall
    split at hcall
    · cases hcall; exact ⟨h.split, h.guarded, h.taken, h.unique, h.nodup, h.nodeTaken, h.nodeUnique⟩
    · cases hcall
  | releaseNode n =>
    cases hcall; exact ⟨h.split, h.guarded, h.taken, h.unique, h.nodup, h.nodeTaken, h.nodeUnique⟩
  | shutdown =>
    cases hcall; exact ⟨h.split, h.guarded, h.taken, h.unique, h.nodup, h.nodeTaken, h.nodeUnique⟩
  | setTrigger e count fails =>
    cases hcall; exact ⟨h.split, h.guarded, h.taken, h.unique, h.nodup, h.nodeTaken, h.nodeUnique⟩
  | addNode e n notify =>
    simp only [call] at hcall
    split at hcall
    · cases hcall
    · cases hcall; exact addNode_associated h e n notify
  | removeNode e n notify =>
    simp only [call] at hcall
    split at hcall
    · cases hcall
    · cases hcall; exact removeNode_associated h e n notify
  | addCallbackGroup e g n notify =>
    simp only [call] at hcall
    split at hcall
    · cases hcall; exact (addCallbackGroupToMap_associated h e g n .itself notify).1
    · cases hcall
  | removeCallbackGroup e g notify =>
    simp only [call] at hcall
    split at hcall
    · cases hcall; exact (removeCallbackGroupFromMap_associated h e (some g) .itself notify).1
    · cases hcall
  | prepareWait e => cases hcall; exact prepareWait_associated h e
  | destroy e => cases hcall; exact destroy_associated h e

theorem associated_init : Associated {} :=
  ⟨fun _ => split_empty, fun _ => guarded_empty, fun _ _ hg => absurd hg Std.TreeMap.not_mem_emptyc,
    fun _ _ _ hg => absurd hg Std.TreeMap.not_mem_emptyc, fun _ => List.nodup_nil,
    fun _ _ hn => absurd hn List.not_mem_nil, fun _ _ _ hn => absurd hn List.not_mem_nil⟩

theorem associated_of_run {steps : List AssociationStep} {w : Association} (h : associationRun steps = some w) :
    Associated w :=
  run_invariant (fun _ _ _ => associated_step) steps associated_init h

/-- In every sequence of calls a callback group is in one executor at most, and
there in one of the two maps; a node is in one executor at most; and a guard
condition is waited for once, and only if it is in the map of them. -/
theorem executors_disjoint {steps : List AssociationStep} {w : Association} (h : associationRun steps = some w) :
    (∀ e e' g, g ∈ (w.executors e).weakGroupsToNodes → g ∈ (w.executors e').weakGroupsToNodes → e = e') ∧
    (∀ e, ∀ g n : Nat, (w.executors e).weakGroupsToNodes[g]? = some n ↔ ∃ k, ((w.executors e).map k)[g]? = some n) ∧
    (∀ e k k' g, g ∈ (w.executors e).map k → g ∈ (w.executors e).map k' → k = k') ∧
    (∀ e e' n, n ∈ (w.executors e).weakNodes → n ∈ (w.executors e').weakNodes → e = e') ∧
    ∀ e, (w.executors e).guardConditions.Nodup ∧
      ∀ g, .notify g ∈ (w.executors e).guardConditions ↔ g ∈ (w.executors e).weakGroupsToGuardConditions := by
  have hassoc := associated_of_run h
  refine ⟨hassoc.unique, fun e => (hassoc.split e).union, fun e k k' g => (hassoc.split e).apart g k k',
    hassoc.nodeUnique, fun e => ⟨(hassoc.guarded e).nodup, fun g => ?_⟩⟩
  rw [(hassoc.guarded e).mem_iff]
  constructor
  · rintro (hc | hc | ⟨a, hc, ha⟩)
    · cases hc
    · cases hc
    · cases hc; exact ha
  · exact fun hg => Or.inr (Or.inr ⟨g, rfl, hg⟩)

theorem twoGroups_disjoint : ∃ w, associationRun twoGroups = some w ∧
    ∀ e e' g, g ∈ (w.executors e).weakGroupsToNodes → g ∈ (w.executors e').weakGroupsToNodes → e = e' := by
  have hsome : (associationRun twoGroups).isSome = true := by decide
  obtain ⟨w, hw⟩ := Option.isSome_iff_exists.mp hsome
  exact ⟨w, hw, (executors_disjoint hw).1⟩

end ReferenceSystem
