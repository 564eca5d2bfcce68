import ReferenceSystem.RemovalSound

/-!
# The life of a callback group

Over every sequence of calls on any number of executors: how a callback group
comes into an executor and leaves it, when it is lost, and what an executor has
when it waits.
-/

namespace ReferenceSystem

/-! ## Standings -/

/-- Where a callback group stands: it may be added, it is in one executor, or
it is in none and marked as added. -/
inductive Standing where
  | free
  | within (e : Nat)
  | orphaned

def OrphanGroup (w : Association) (g : Nat) : Prop :=
  w.groupHasExecutor g = true ∧ ∀ e, g ∉ (w.executors e).weakGroupsToNodes

def GroupStands (w : Association) (g : Nat) : Standing → Prop
  | .free => w.groupHasExecutor g = false ∧ ∀ e, g ∉ (w.executors e).weakGroupsToNodes
  | .within e => g ∈ (w.executors e).weakGroupsToNodes
  | .orphaned => OrphanGroup w g

def GroupInvalid (w : Association) (g : Nat) : Prop :=
  w.groupExpired g = true ∨ ∃ e, ∃ n : Nat, (w.executors e).weakGroupsToNodes[g]? = some n ∧ w.nodeExpired n = true

/-- What one call can do to a callback group. -/
inductive Life (invalid : Prop) : Standing → Standing → Prop
  | stay (s : Standing) : Life invalid s s
  | add (e : Nat) : Life invalid .free (.within e)
  | remove (e : Nat) : Life invalid (.within e) .free
  | lose (e : Nat) : invalid → Life invalid (.within e) .orphaned

theorem groupStands_exists (w : Association) (g : Nat) : ∃ s, GroupStands w g s := by
  by_cases hin : ∃ e, g ∈ (w.executors e).weakGroupsToNodes
  · obtain ⟨e, he⟩ := hin
    exact ⟨.within e, he⟩
  · have hnot : ∀ e, g ∉ (w.executors e).weakGroupsToNodes := fun e he => hin ⟨e, he⟩
    cases hflag : w.groupHasExecutor g with
    | false => exact ⟨.free, hflag, hnot⟩
    | true => exact ⟨.orphaned, hflag, hnot⟩

theorem groupStands_unique {w : Association} (h : Associated w) {g : Nat} {s s' : Standing} (hs : GroupStands w g s)
    (hs' : GroupStands w g s') : s = s' := by
  cases s <;> cases s'
  · rfl
  · exact absurd hs' (hs.2 _)
  · exact absurd (hs.1.symm.trans hs'.1) (by simp)
  · exact absurd hs (hs'.2 _)
  · rw [h.unique _ _ g hs hs']
  · exact absurd hs (hs'.2 _)
  · exact absurd (hs'.1.symm.trans hs.1) (by simp)
  · exact absurd hs' (hs.2 _)
  · rfl

/-- A callback group stands as before when its flag and its membership are the same. -/
theorem GroupStands.congr {w w' : Association} {g : Nat} {s : Standing} (h : GroupStands w g s)
    (hflag : w'.groupHasExecutor g = w.groupHasExecutor g)
    (hmem : ∀ e, g ∈ (w'.executors e).weakGroupsToNodes ↔ g ∈ (w.executors e).weakGroupsToNodes) :
    GroupStands w' g s := by
  cases s with
  | free => exact ⟨hflag.trans h.1, fun e he => h.2 e ((hmem e).mp he)⟩
  | within e => exact (hmem e).mpr h
  | orphaned => exact ⟨hflag.trans h.1, fun e he => h.2 e ((hmem e).mp he)⟩

theorem mem_update {w : Association} {e e' g : Nat} {x : ExecutorMaps}
    (hx : g ∈ x.weakGroupsToNodes ↔ g ∈ (w.executors e).weakGroupsToNodes) :
    g ∈ (Function.update w.executors e x e').weakGroupsToNodes ↔ g ∈ (w.executors e').weakGroupsToNodes := by
  by_cases he : e' = e
  · subst he
    rw [Function.update_self]; exact hx
  · rw [Function.update_of_ne he]

theorem stands_add {w : Association} (h : Associated w) (e g n : Nat) (k : AddedBy) (notify : Bool) {a : Nat}
    {s : Standing} (hs : GroupStands w a s) :
    GroupStands (addCallbackGroupToMap e g n k notify w).1 a s ∨
      s = .free ∧ GroupStands (addCallbackGroupToMap e g n k notify w).1 a (.within e) := by
  rw [addCallbackGroupToMap_eq h]
  split
  · exact Or.inl hs
  · rename_i hfree
    by_cases ha : a = g
    · subst ha
      have hsfree : s = .free := by
        cases s with
        | free => rfl
        | within e' => exact absurd (h.taken e' a hs) hfree
        | orphaned => exact absurd hs.1 hfree
      refine Or.inr ⟨hsfree, ?_⟩
      simp only [GroupStands, Function.update_self, insertGroup_all, Std.TreeMap.mem_insertIfNew, Nat.compare_eq_eq,
        true_or]
    · refine Or.inl (hs.congr (storeFlag_ne ha) fun e' => mem_update ?_)
      rw [insertGroup_all, Std.TreeMap.mem_insertIfNew, Nat.compare_eq_eq]
      exact or_iff_right fun hga => ha hga.symm

theorem stands_remove {w : Association} (h : Associated w) (e : Nat) (group : Option Nat) (k : AddedBy) (notify : Bool)
    {a : Nat} {s : Standing} (hs : GroupStands w a s) :
    GroupStands (removeCallbackGroupFromMap e group k notify w).1 a s ∨
      s = .within e ∧ GroupStands (removeCallbackGroupFromMap e group k notify w).1 a .free := by
  rcases removeCallbackGroupFromMap_cases h e group k notify with ⟨_, error, _, heq⟩ | ⟨g, n, y, error, _, hg, _, hy, heq⟩
  · rw [heq]
    exact Or.inl hs
  · rw [heq]
    have hin : g ∈ (w.executors e).weakGroupsToNodes := ((h.split e).mem_iff g).mpr ⟨k, mem_iff_exists.mpr ⟨n, hg⟩⟩
    by_cases ha : a = g
    · subst ha
      refine Or.inr ⟨groupStands_unique h hs hin, storeFlag_self .., fun e' he' => ?_⟩
      by_cases he : e' = e
      · subst he
        simp only [Function.update_self, hy.all, Std.TreeMap.mem_erase] at he'
        exact he'.1 (Nat.compare_eq_eq.mpr rfl)
      · simp only [Function.update_of_ne he] at he'
        exact he (h.unique e' e a he' hin)
    · refine Or.inl (hs.congr (storeFlag_ne ha) fun e' => mem_update ?_)
      rw [hy.all, Std.TreeMap.mem_erase]
      exact and_iff_right fun hga => ha (Nat.compare_eq_eq.mp hga).symm

theorem lookup_add {w : Association} (h : Associated w) (e g n : Nat) (k : AddedBy) (notify : Bool) {e' a m : Nat}
    (hm : ((addCallbackGroupToMap e g n k notify w).1.executors e').weakGroupsToNodes[a]? = some m) :
    (w.executors e').weakGroupsToNodes[a]? = some m ∨ a = g ∧ m = n := by
  rw [addCallbackGroupToMap_eq h] at hm
  split at hm
  · exact Or.inl hm
  · by_cases he : e' = e
    · subst he
      simp only [Function.update_self, insertGroup_all, Std.TreeMap.getElem?_insertIfNew, Nat.compare_eq_eq] at hm
      split at hm
      · rename_i hga
        cases hm
        exact Or.inr ⟨hga.1.symm, rfl⟩
      · exact Or.inl hm
    · simp only [Function.update_of_ne he] at hm
      exact Or.inl hm

theorem lookup_kept {w : Association} (h : Associated w) (e g n : Nat) (k : AddedBy) (notify : Bool) {e' a m : Nat}
    (hm : (w.executors e').weakGroupsToNodes[a]? = some m) :
    ((addCallbackGroupToMap e g n k notify w).1.executors e').weakGroupsToNodes[a]? = some m := by
  rw [addCallbackGroupToMap_eq h]
  split
  · exact hm
  · by_cases he : e' = e
    · subst he
      simp only [Function.update_self, insertGroup_all, Std.TreeMap.getElem?_insertIfNew, Nat.compare_eq_eq]
      rw [if_neg]
      · exact hm
      · rintro ⟨rfl, hnot⟩
        exact hnot (mem_iff_exists.mpr ⟨m, hm⟩)
    · simp only [Function.update_of_ne he]
      exact hm

theorem lookup_remove {w : Association} (h : Associated w) (e : Nat) (group : Option Nat) (k : AddedBy) (notify : Bool)
    {e' a m : Nat}
    (hm : ((removeCallbackGroupFromMap e group k notify w).1.executors e').weakGroupsToNodes[a]? = some m) :
    (w.executors e').weakGroupsToNodes[a]? = some m := by
  rcases removeCallbackGroupFromMap_cases h e group k notify with ⟨_, error, _, heq⟩ | ⟨g, n, y, error, _, _, _, hy, heq⟩
  · rwa [heq] at hm
  · rw [heq] at hm
    by_cases he : e' = e
    · subst he
      simp only [Function.update_self, hy.all, erase_some] at hm
      exact hm.2
    · simp only [Function.update_of_ne he] at hm
      exact hm

/-- What the loop that adds the callback groups of the node `n` does to one callback group. -/
structure Grown (w v : Association) (e a : Nat) (s : Standing) : Prop where
  associated : Associated v
  same : SameNodes w v
  stands : GroupStands v a s ∨ s = .free ∧ GroupStands v a (.within e)
  lookup : ∀ e' m : Nat, (v.executors e').weakGroupsToNodes[a]? = some m →
    (w.executors e').weakGroupsToNodes[a]? = some m ∨ w.groupExpired a = false ∧ w.nodeExpired m = false
  kept : ∀ e' m : Nat, (w.executors e').weakGroupsToNodes[a]? = some m →
    (v.executors e').weakGroupsToNodes[a]? = some m

theorem Grown.refl {w : Association} (h : Associated w) (e : Nat) {a : Nat} {s : Standing} (hs : GroupStands w a s) :
    Grown w w e a s :=
  ⟨h, .refl w, Or.inl hs, fun _ _ hm => Or.inl hm, fun _ _ hm => hm⟩

theorem addWithNode_cases (e n : Nat) (notify : Bool) (g : CreatedGroup) (w : Association) :
    addWithNode e n notify g w = (w, none) ∨
      addWithNode e n notify g w = addCallbackGroupToMap e g.id n .node notify w := by
  unfold addWithNode
  split
  · exact Or.inr rfl
  · exact Or.inl rfl

theorem grown_add {w v : Association} {e a n : Nat} {s : Standing} (h : Grown w v e a s) (hn : w.nodeExpired n = false)
    {g : CreatedGroup} (hg : w.groupExpired g.id = false) (notify : Bool) :
    Grown w (addWithNode e n notify g v).1 e a s := by
  rcases addWithNode_cases e n notify g v with heq | heq
  · rw [heq]
    exact h
  · rw [heq]
    obtain ⟨hassoc, hsame⟩ := addCallbackGroupToMap_associated h.associated e g.id n .node notify
    refine ⟨hassoc, h.same.trans hsame, ?_, fun e' m hm => ?_, fun e' m hm => ?_⟩
    · rcases h.stands with hs | ⟨hfree, hs⟩
      · exact stands_add h.associated e g.id n .node notify hs
      · rcases stands_add h.associated e g.id n .node notify hs with hs' | ⟨hne, _⟩
        · exact Or.inr ⟨hfree, hs'⟩
        · cases hne
    · rcases lookup_add h.associated e g.id n .node notify hm with hold | ⟨rfl, rfl⟩
      · exact h.lookup e' m hold
      · exact Or.inr ⟨hg, hn⟩
    · exact lookup_kept h.associated e g.id n .node notify (h.kept e' m hm)

theorem grown_all {w v : Association} {e a n : Nat} {s : Standing} (h : Grown w v e a s)
    (hn : w.nodeExpired n = false) (notify : Bool) {gs : List CreatedGroup}
    (hgs : ∀ g ∈ gs, w.groupExpired g.id = false) : Grown w (forEach (addWithNode e n notify) gs v).1 e a s :=
  forEach_keeps (P := fun v => Grown w v e a s) (fun _ hg _ hv => grown_add hv hn (hgs _ hg) notify) h

theorem groupsOf_alive {w : Association} {n : Nat} : ∀ g ∈ w.groupsOf n, w.groupExpired g.id = false := by
  intro g hg
  have hkept := (List.mem_filter.mp hg).2
  simp only [Bool.and_eq_true, Bool.not_eq_true'] at hkept
  exact hkept.2

theorem stands_removeAll {w : Association} (h : Associated w) (e : Nat) (notify : Bool) (gs : List Nat) {a : Nat}
    {s : Standing} (hs : GroupStands w a s) :
    GroupStands (forEach (removeWithNode e notify) gs w).1 a s ∨
      s = .within e ∧ GroupStands (forEach (removeWithNode e notify) gs w).1 a .free := by
  refine (forEach_keeps (P := fun v => Associated v ∧ (GroupStands v a s ∨ s = .within e ∧ GroupStands v a .free))
    (fun g _ v hv => ⟨(removeCallbackGroupFromMap_associated hv.1 ..).1, ?_⟩) ⟨h, Or.inl hs⟩).2
  rcases hv.2 with hs | ⟨hwithin, hs⟩
  · exact stands_remove hv.1 e _ .node notify hs
  · rcases stands_remove hv.1 e (if v.groupExpired g then none else some g) .node notify hs with hs' | ⟨hne, _⟩
    · exact Or.inr ⟨hwithin, hs'⟩
    · cases hne

theorem grown_prepare {w : Association} (h : Associated w) (e : Nat) {a : Nat} {s : Standing} (hs : GroupStands w a s) :
    Grown w (addCallbackGroupsFromNodesAssociatedToExecutor e w).1 e a s := by
  refine forEach_keeps (P := fun v => Grown w v e a s) (fun n _ v hv => ?_) (.refl h e hs)
  split
  · exact hv
  · rename_i hn
    refine grown_all hv (by rw [← hv.same.nodeExpired]; simpa using hn) true fun g hg => ?_
    rw [← hv.same.groupExpired]
    exact groupsOf_alive g hg

theorem GroupStands.setNodes {w : Association} {a : Nat} {s : Standing} (h : GroupStands w a s) (e : Nat)
    (ns : List Nat) : GroupStands (w.setExecutor e { w.executors e with weakNodes := ns }) a s :=
  h.congr rfl fun _ => mem_update Iff.rfl

theorem mem_invalidGroups {w : Association} {e g : Nat} : g ∈ w.invalidGroups e ↔
    ∃ n : Nat, (w.executors e).weakGroupsToNodes[g]? = some n ∧ (w.groupExpired g = true ∨ w.nodeExpired n = true) := by
  unfold Association.invalidGroups
  simp only [List.mem_map, List.mem_filter, Bool.or_eq_true, Prod.exists, exists_and_right, exists_eq_right]
  simp only [Std.TreeMap.mem_toList_iff_getElem?_eq_some]

/-! ## One call -/

section
variable {w v : Association} {e n g : Nat} {s : Standing}

theorem life_add (h : GroupStands v g s ∨ s = .free ∧ GroupStands v g (.within e)) :
    ∃ s', GroupStands v g s' ∧ Life (GroupInvalid w g) s s' := by
  rcases h with hs | ⟨rfl, hs⟩
  · exact ⟨s, hs, .stay s⟩
  · exact ⟨.within e, hs, .add e⟩

theorem life_remove (h : GroupStands v g s ∨ s = .within e ∧ GroupStands v g .free) :
    ∃ s', GroupStands v g s' ∧ Life (GroupInvalid w g) s s' := by
  rcases h with hs | ⟨rfl, hs⟩
  · exact ⟨s, hs, .stay s⟩
  · exact ⟨.free, hs, .remove e⟩

theorem life_addNode (h : Associated w) (hn : w.nodeExpired n = false) (notify : Bool) (hs : GroupStands w g s) :
    ∃ s', GroupStands (addNode e n notify w).1 g s' ∧ Life (GroupInvalid w g) s s' := by
  cases hfree : w.nodeHasExecutor n with
  | true =>
    rw [addNode_eq, if_pos hfree]
    exact ⟨s, hs, .stay s⟩
  | false =>
    have hmarked : Associated (w.markNode n true) := h.flagNode fun e' m hm => storeFlag_true (h.nodeTaken e' m hm)
    obtain ⟨v, error, hv, _, heq⟩ := addNode_free h hfree e notify
    have hsame : GroupStands (w.markNode n true) g s := hs.congr rfl fun _ => Iff.rfl
    have hgrown := grown_all (Grown.refl hmarked e hsame) hn notify (groupsOf_alive (w := w) (n := n))
    rw [hv] at hgrown
    rw [heq]
    obtain ⟨s', hs', hlife⟩ := life_add (w := w) hgrown.stands
    refine ⟨s', ?_, hlife⟩
    cases error with
    | none => exact hs'.setNodes e _
    | some error => exact hs'

theorem life_removeNode (h : Associated w) (notify : Bool) (hs : GroupStands w g s) :
    ∃ s', GroupStands (removeNode e n notify w).1 g s' ∧ Life (GroupInvalid w g) s s' := by
  rw [removeNode_eq]
  split
  · exact ⟨s, hs, .stay s⟩
  · split
    · exact ⟨s, hs, .stay s⟩
    · have hremoved := stands_removeAll (h.dropNode e n) e notify (w.groupsWithNode e n) (hs.setNodes e _)
      generalize forEach (removeWithNode e notify) (w.groupsWithNode e n) (w.dropNode e n) = result at hremoved ⊢
      obtain ⟨v, error⟩ := result
      obtain ⟨s', hs', hlife⟩ := life_remove (w := w) hremoved
      refine ⟨s', ?_, hlife⟩
      cases error with
      | none => exact hs'.congr rfl fun _ => Iff.rfl
      | some error => exact hs'

/-- A wait drops the callback groups that have expired, or whose node has. -/
theorem life_prepareWait (h : Associated w) (hs : GroupStands w g s) :
    ∃ s', GroupStands (prepareWait e w).1 g s' ∧ Life (GroupInvalid w g) s s' := by
  obtain ⟨v, error, ⟨hv, hsame, _⟩, hadd, heq⟩ := prepareWait_ok h e
  have hgrown := grown_prepare h e hs
  rw [hadd] at hgrown
  rw [heq]
  cases error with
  | some error => exact life_add hgrown.stands
  | none =>
    have hall := (dropInvalid_foldl (hv.split e) (hv.guarded e) (v.invalidGroups e)).2.2.2
    by_cases hdropped : g ∈ v.invalidGroups e
    · obtain ⟨n, hn, hinvalid⟩ := mem_invalidGroups.mp hdropped
      rw [hsame.groupExpired, hsame.nodeExpired] at hinvalid
      have hold : (w.executors e).weakGroupsToNodes[g]? = some n := by
        rcases hgrown.lookup e n hn with hold | ⟨halive, hnode⟩
        · exact hold
        · rw [halive, hnode] at hinvalid
          simp at hinvalid
      have hwithin : s = .within e := groupStands_unique h hs (mem_iff_exists.mpr ⟨n, hold⟩)
      subst hwithin
      refine ⟨.orphaned, ⟨hv.taken e g (mem_iff_exists.mpr ⟨n, hn⟩), fun e' he' => ?_⟩,
        .lose e (hinvalid.imp id fun hnode => ⟨e, n, hold, hnode⟩)⟩
      unfold Association.setExecutor at he'
      by_cases he : e' = e
      · subst he
        simp only [Function.update_self] at he'
        obtain ⟨m, hm⟩ := mem_iff_exists.mp he'
        exact ((hall g m).mp hm).1 hdropped
      · simp only [Function.update_of_ne he] at he'
        exact he (hv.unique e' e g he' (mem_iff_exists.mpr ⟨n, hn⟩))
    · obtain ⟨s', hs', hlife⟩ := life_add (w := w) hgrown.stands
      refine ⟨s', hs'.congr rfl fun e' => mem_update ?_, hlife⟩
      simp only [mem_iff_exists, hall, hdropped, not_false_eq_true, true_and]

theorem life_destroy (h : Associated w) (hs : GroupStands w g s) :
    ∃ s', GroupStands (destroy e w) g s' ∧ Life (GroupInvalid w g) s s' := by
  by_cases hin : g ∈ (w.executors e).weakGroupsToNodes
  · have hwithin : s = .within e := groupStands_unique h hs hin
    subst hwithin
    have hgone : ∀ e', g ∉ ((destroy e w).executors e').weakGroupsToNodes := by
      intro e' he'
      simp only [destroy] at he'
      by_cases he : e' = e
      · subst he
        simp only [Function.update_self] at he'
        exact Std.TreeMap.not_mem_emptyc he'
      · simp only [Function.update_of_ne he] at he'
        exact he (h.unique e' e g he' hin)
    cases hexp : w.groupExpired g with
    | false => exact ⟨.free, ⟨by simp [destroy, hin, hexp], hgone⟩, .remove e⟩
    | true => exact ⟨.orphaned, ⟨by simp [destroy, hexp, h.taken e g hin], hgone⟩, .lose e (Or.inl hexp)⟩
  · refine ⟨s, hs.congr ?_ fun e' => mem_update ?_, .stay s⟩
    · simp [destroy, hin]
    · exact ⟨fun hmem => absurd hmem Std.TreeMap.not_mem_emptyc, fun hmem => absurd hmem hin⟩

end

/-- One call takes every callback group one way along its life, and loses it
only if it or its node has expired. -/
theorem group_life {w w' : Association} {a : AssociationStep} (h : Associated w)
    (hstep : associationStep w a = some w') {g : Nat} {s : Standing} (hs : GroupStands w g s) :
    ∃ s', GroupStands w' g s' ∧ Life (GroupInvalid w g) s s' := by
  obtain ⟨called, hcall, rfl⟩ := Option.map_eq_some_iff.mp hstep
  cases a with
  | createCallbackGroup g' =>
    simp only [call] at hcall
    split at hcall <;> cases hcall
    exact ⟨s, hs.congr rfl fun _ => Iff.rfl, .stay s⟩
  | releaseGroup g' =>
    simp only [call] at hcall
    split at hcall <;> cases hcall
    exact ⟨s, hs.congr rfl fun _ => Iff.rfl, .stay s⟩
  | releaseNode | shutdown | setTrigger =>
    cases hcall
    exact ⟨s, hs.congr rfl fun _ => Iff.rfl, .stay s⟩
  | addNode e n notify =>
    simp only [call] at hcall
    split at hcall <;> cases hcall
    rename_i hn
    exact life_addNode h (Bool.not_eq_true _ ▸ hn) notify hs
  | removeNode e n notify =>
    simp only [call] at hcall
    split at hcall <;> cases hcall
    exact life_removeNode h notify hs
  | addCallbackGroup e g' n notify =>
    simp only [call] at hcall
    split at hcall <;> cases hcall
    exact life_add (stands_add h e g' n .itself notify hs)
  | removeCallbackGroup e g' notify =>
    simp only [call] at hcall
    split at hcall <;> cases hcall
    exact life_remove (stands_remove h e (some g') .itself notify hs)
  | prepareWait e =>
    cases hcall
    exact life_prepareWait h hs
  | destroy e =>
    cases hcall
    exact life_destroy h hs

/-- Every callback group is free, in one executor or orphaned, and one of these
only; and a call takes it from one to the other only along its life. -/
theorem callback_group_life {steps : List AssociationStep} {w w' : Association} {a : AssociationStep}
    (h : associationRun steps = some w) (hstep : associationStep w a = some w') (g : Nat) :
    (∃! s, GroupStands w g s) ∧
      ∀ s s', GroupStands w g s → GroupStands w' g s' → Life (GroupInvalid w g) s s' := by
  have hassoc := associated_of_run h
  refine ⟨?_, fun s s' hs hs' => ?_⟩
  · obtain ⟨s, hs⟩ := groupStands_exists w g
    exact ⟨s, hs, fun t ht => groupStands_unique hassoc ht hs⟩
  · obtain ⟨t, ht, hlife⟩ := group_life hassoc hstep hs
    exact groupStands_unique (associated_step hassoc hstep) hs' ht ▸ hlife

theorem twoGroups_life : ∃ w w' s, associationRun twoGroups = some w ∧
    associationStep w (.removeNode 0 7 true) = some w' ∧ GroupStands w' 0 s ∧ Life (GroupInvalid w 0) (.within 0) s := by
  have hsome : ((associationRun twoGroups).bind fun w => (associationStep w (.removeNode 0 7 true)).map fun _ =>
      decide (0 ∈ (w.executors 0).weakGroupsToNodes)) = some true := by decide
  obtain ⟨w, hw, hrest⟩ := Option.bind_eq_some_iff.mp hsome
  obtain ⟨w', hw', hin⟩ := Option.map_eq_some_iff.mp hrest
  obtain ⟨s, hs⟩ := groupStands_exists w' 0
  have hmem : 0 ∈ (w.executors 0).weakGroupsToNodes := of_decide_eq_true hin
  have hwithin : GroupStands w 0 (.within 0) := hmem
  exact ⟨w, w', s, hw, hw', hs, (callback_group_life hw hw' 0).2 _ _ hwithin hs⟩

/-- A callback group that a wait drops because its node has expired is never in an executor again. -/
theorem dropped_group_orphans {before after : List AssociationStep} {w w' : Association}
    (h : associationRun before = some w) {e g n : Nat} (hg : (w.executors e).weakGroupsToNodes[g]? = some n)
    (hn : w.nodeExpired n = true) (hok : (prepareWait e w).2 = none)
    (hafter : runSteps associationStep w (.prepareWait e :: after) = some w') :
    (∀ e', g ∉ (w'.executors e').weakGroupsToNodes) ∧ ∀ e' n' k notify,
      (addCallbackGroupToMap e' g n' k notify w').2 = some .groupHasExecutor := by
  have hassoc := associated_of_run h
  obtain ⟨v, hv, hrest⟩ := runSteps_cons.mp hafter
  have hwithin : GroupStands w g (.within e) := mem_iff_exists.mpr ⟨n, hg⟩
  have hdropped : OrphanGroup v g := by
    obtain ⟨u, error, ⟨hu, hsame, _⟩, hadd, heq⟩ := prepareWait_ok hassoc e
    have hgrown := grown_prepare hassoc e hwithin
    rw [hadd] at hgrown
    have hcall : (prepareWait e w).1 = v := Option.some.inj hv
    rw [heq] at hcall hok
    subst hcall
    cases hok
    have hkept := hgrown.kept e n hg
    have hin : g ∈ (u.executors e).weakGroupsToNodes := mem_iff_exists.mpr ⟨n, hkept⟩
    have hinvalid : g ∈ u.invalidGroups e :=
      mem_invalidGroups.mpr ⟨n, hkept, Or.inr (by rw [hsame.nodeExpired]; exact hn)⟩
    have hall := (dropInvalid_foldl (hu.split e) (hu.guarded e) (u.invalidGroups e)).2.2.2
    refine ⟨hu.taken e g hin, fun e' he' => ?_⟩
    unfold Association.setExecutor at he'
    by_cases he : e' = e
    · subst he
      simp only [Function.update_self] at he'
      obtain ⟨m, hm⟩ := mem_iff_exists.mp he'
      exact ((hall g m).mp hm).1 hinvalid
    · simp only [Function.update_of_ne he] at he'
      exact he (hu.unique e' e g he' hin)
  have hlast : Associated w' ∧ OrphanGroup w' g :=
    run_invariant (P := fun u => Associated u ∧ OrphanGroup u g)
      (fun u a u' hu hstep => ⟨associated_step hu.1 hstep, by
        obtain ⟨s, hs, hlife⟩ := group_life hu.1 hstep (show GroupStands u g .orphaned from hu.2)
        cases hlife
        exact hs⟩) after ⟨associated_step hassoc hv, hdropped⟩ hrest
  exact ⟨hlast.2.2, fun e' n' k notify => by rw [addCallbackGroupToMap_eq hlast.1, if_pos hlast.2.1]⟩

theorem releasedNode_orphans : ∃ w w', associationRun (twoGroups ++ [.releaseNode 7]) = some w ∧
    runSteps associationStep w [.prepareWait 0] = some w' ∧ ∀ e, 0 ∉ (w'.executors e).weakGroupsToNodes := by
  have hsome : ((associationRun (twoGroups ++ [.releaseNode 7])).map fun w => decide (
      (w.executors 0).weakGroupsToNodes[0]? = some 7 ∧ w.nodeExpired 7 = true ∧
      (prepareWait 0 w).2 = none ∧ (runSteps associationStep w [.prepareWait 0]).isSome = true)) = some true := by decide
  obtain ⟨w, hw, hstate⟩ := Option.map_eq_some_iff.mp hsome
  obtain ⟨hin, hn, hok, hrun⟩ := of_decide_eq_true hstate
  obtain ⟨w', hw'⟩ := Option.isSome_iff_exists.mp hrun
  exact ⟨w, w', hw, hw', (dropped_group_orphans hw hin hn hok hw').1⟩

/-! ## Nodes that outlive their callback groups -/

/-- A node is released only when the callback groups that executors have of it are. -/
def OutlivesGroups (w : Association) : AssociationStep → Prop
  | .releaseNode n => ∀ e, ∀ g : Nat, (w.executors e).weakGroupsToNodes[g]? = some n → w.groupExpired g = true
  | _ => True

theorem setNodes_all (w : Association) (e : Nat) (ns : List Nat) (e' : Nat) :
    ((w.setExecutor e { w.executors e with weakNodes := ns }).executors e').weakGroupsToNodes =
      (w.executors e').weakGroupsToNodes := by
  unfold Association.setExecutor
  by_cases he : e' = e
  · subst he
    simp only [Function.update_self]
  · simp only [Function.update_of_ne he]

theorem lookup_removeAll {w : Association} (h : Associated w) (e : Nat) (notify : Bool) (gs : List Nat) {e' g m : Nat}
    (hm : ((forEach (removeWithNode e notify) gs w).1.executors e').weakGroupsToNodes[g]? = some m) :
    (w.executors e').weakGroupsToNodes[g]? = some m :=
  (forEach_keeps (P := fun v => Associated v ∧ ∀ e' g m : Nat, (v.executors e').weakGroupsToNodes[g]? = some m →
      (w.executors e').weakGroupsToNodes[g]? = some m)
    (fun _ _ _ hv => ⟨(removeCallbackGroupFromMap_associated hv.1 ..).1, fun _ _ _ hm =>
      hv.2 _ _ _ (lookup_remove hv.1 _ _ .node notify hm)⟩) ⟨h, fun _ _ _ hm => hm⟩).2 e' g m hm

/-- Callback groups stay expired, and an executor gets no callback group of an expired node. -/
structure Ages (w v : Association) : Prop where
  groups : ∀ g, w.groupExpired g = true → v.groupExpired g = true
  nodes : v.nodeExpired = w.nodeExpired
  lookup : ∀ e, ∀ g m : Nat, (v.executors e).weakGroupsToNodes[g]? = some m →
    (w.executors e).weakGroupsToNodes[g]? = some m ∨ w.nodeExpired m = false

section
variable {w v : Association} {e n : Nat}

theorem Ages.refl (w : Association) : Ages w w := ⟨fun _ hg => hg, rfl, fun _ _ _ hm => Or.inl hm⟩

theorem ages_of_same (hsame : SameNodes w v) (hlookup : ∀ e, ∀ g m : Nat,
    (v.executors e).weakGroupsToNodes[g]? = some m →
      (w.executors e).weakGroupsToNodes[g]? = some m ∨ w.nodeExpired m = false) : Ages w v :=
  ⟨fun g hg => by rw [hsame.groupExpired]; exact hg, hsame.nodeExpired, hlookup⟩

theorem Ages.setNodes (h : Ages w v) (e : Nat) (ns : List Nat) :
    Ages w (v.setExecutor e { v.executors e with weakNodes := ns }) := by
  refine ⟨h.groups, h.nodes, fun e' g m hm => h.lookup e' g m ?_⟩
  rwa [setNodes_all] at hm

theorem ages_addNode (h : Associated w) (hn : w.nodeExpired n = false) (notify : Bool) :
    Ages w (addNode e n notify w).1 := by
  cases hfree : w.nodeHasExecutor n with
  | true =>
    rw [addNode_eq, if_pos hfree]
    exact .refl w
  | false =>
    have hmarked : Associated (w.markNode n true) := h.flagNode fun e' m hm => storeFlag_true (h.nodeTaken e' m hm)
    obtain ⟨v, error, hv, ⟨_, hsame, _⟩, heq⟩ := addNode_free h hfree e notify
    have hages : Ages (w.markNode n true) v := by
      refine ages_of_same hsame fun e' g m hm => ?_
      obtain ⟨s, hs⟩ := groupStands_exists (w.markNode n true) g
      have hgrown := grown_all (Grown.refl hmarked e hs) hn notify (groupsOf_alive (w := w) (n := n))
      rw [hv] at hgrown
      exact (hgrown.lookup e' m hm).imp id And.right
    have hages' : Ages w v := ⟨hages.groups, hages.nodes, hages.lookup⟩
    rw [heq]
    cases error with
    | some error => exact hages'
    | none => exact hages'.setNodes e _

theorem ages_removeNode (h : Associated w) (notify : Bool) : Ages w (removeNode e n notify w).1 := by
  rw [removeNode_eq]
  split
  · exact .refl w
  · split
    · exact .refl w
    · have hdrop := h.dropNode e n
      obtain ⟨_, hsame⟩ := removeWithNode_all hdrop e notify (w.groupsWithNode e n)
      have hlookup := @lookup_removeAll _ hdrop e notify (w.groupsWithNode e n)
      generalize forEach (removeWithNode e notify) (w.groupsWithNode e n) (w.dropNode e n) = result at hsame hlookup ⊢
      obtain ⟨v, error⟩ := result
      have hages : Ages w v :=
        ⟨fun g hg => by rw [hsame.groupExpired]; exact hg, hsame.nodeExpired,
          fun e' g m hm => Or.inl (setNodes_all w e _ e' ▸ hlookup hm)⟩
      cases error with
      | none => exact ⟨hages.groups, hages.nodes, hages.lookup⟩
      | some error => exact hages

theorem ages_prepareWait (h : Associated w) : Ages w (prepareWait e w).1 := by
  obtain ⟨v, error, ⟨hv, hsame, _⟩, hadd, heq⟩ := prepareWait_ok h e
  have hages : Ages w v := by
    refine ages_of_same hsame fun e' g m hm => ?_
    obtain ⟨s, hs⟩ := groupStands_exists w g
    have hgrown := grown_prepare h e hs
    rw [hadd] at hgrown
    exact (hgrown.lookup e' m hm).imp id And.right
  rw [heq]
  cases error with
  | some error => exact hages
  | none =>
    refine ⟨hages.groups, hages.nodes, fun e' g m hm => hages.lookup e' g m ?_⟩
    have hall := (dropInvalid_foldl (hv.split e) (hv.guarded e) (v.invalidGroups e)).2.2.2
    unfold Association.setExecutor at hm
    by_cases he : e' = e
    · subst he
      simp only [Function.update_self] at hm
      exact ((hall g m).mp hm).2
    · simpa only [Function.update_of_ne he] using hm

theorem ages_destroy (w : Association) (e : Nat) : Ages w (destroy e w) := by
  refine ⟨fun _ hg => hg, rfl, fun e' g m hm => ?_⟩
  simp only [destroy] at hm
  by_cases he : e' = e
  · subst he
    simp at hm
  · simp only [Function.update_of_ne he] at hm
    exact Or.inl hm

/-- Only the release of a node makes one expire. -/
theorem expired_step {w' : Association} {a : AssociationStep} (h : Associated w) (hstep : associationStep w a = some w') :
    (∃ n, a = .releaseNode n ∧ w' = { w with nodeExpired := storeFlag w.nodeExpired n true }) ∨ Ages w w' := by
  obtain ⟨called, hcall, rfl⟩ := Option.map_eq_some_iff.mp hstep
  cases a with
  | createCallbackGroup g' =>
    simp only [call] at hcall
    split at hcall <;> cases hcall
    exact Or.inr ⟨fun _ hg => hg, rfl, fun _ _ _ hm => Or.inl hm⟩
  | releaseGroup g' =>
    simp only [call] at hcall
    split at hcall <;> cases hcall
    exact Or.inr ⟨fun _ hg => storeFlag_true hg, rfl, fun _ _ _ hm => Or.inl hm⟩
  | releaseNode n =>
    cases hcall
    exact Or.inl ⟨n, rfl, rfl⟩
  | shutdown | setTrigger =>
    cases hcall
    exact Or.inr ⟨fun _ hg => hg, rfl, fun _ _ _ hm => Or.inl hm⟩
  | addNode e n notify =>
    simp only [call] at hcall
    split at hcall <;> cases hcall
    rename_i hn
    exact Or.inr (ages_addNode h (Bool.not_eq_true _ ▸ hn) notify)
  | removeNode e n notify =>
    simp only [call] at hcall
    split at hcall <;> cases hcall
    exact Or.inr (ages_removeNode h notify)
  | addCallbackGroup e g' n notify =>
    simp only [call] at hcall
    split at hcall <;> cases hcall
    rename_i hargs
    simp only [Bool.and_eq_true, Bool.not_eq_true'] at hargs
    refine Or.inr (ages_of_same (addCallbackGroupToMap_associated h e g' n .itself notify).2 fun e' g m hm => ?_)
    rcases lookup_add h e g' n .itself notify hm with hold | ⟨_, rfl⟩
    · exact Or.inl hold
    · exact Or.inr hargs.2
  | removeCallbackGroup e g' notify =>
    simp only [call] at hcall
    split at hcall <;> cases hcall
    exact Or.inr (ages_of_same (removeCallbackGroupFromMap_associated h e (some g') .itself notify).2
      fun e' g m hm => Or.inl (lookup_remove h e (some g') .itself notify hm))
  | prepareWait e =>
    cases hcall
    exact Or.inr (ages_prepareWait h)
  | destroy e =>
    cases hcall
    exact Or.inr (ages_destroy w e)

end

theorem expired_kept {w w' : Association} {a : AssociationStep} (h : Associated w)
    (hstep : associationStep w a = some w') {g : Nat} (hg : w.groupExpired g = true) : w'.groupExpired g = true := by
  rcases expired_step h hstep with ⟨n, rfl, rfl⟩ | hages
  · exact hg
  · exact hages.groups g hg

/-- While nodes outlive the callback groups that executors have of them, a
callback group is marked as added exactly if it is in an executor. -/
theorem flags_exact {steps : List AssociationStep} {w : Association} (h : associationRun steps = some w)
    (hsteps : StepsMeet associationStep OutlivesGroups {} steps) {g : Nat} (hg : w.groupExpired g = false) :
    w.groupHasExecutor g = true ↔ ∃ e, g ∈ (w.executors e).weakGroupsToNodes := by
  have hinv : Associated w ∧
      (∀ e, ∀ g n : Nat, (w.executors e).weakGroupsToNodes[g]? = some n →
        w.groupExpired g = true ∨ w.nodeExpired n = false) ∧
      ∀ g, w.groupExpired g = false → ¬ OrphanGroup w g := by
    refine run_invariant_meeting (P := fun v => Associated v ∧
        (∀ e, ∀ g n : Nat, (v.executors e).weakGroupsToNodes[g]? = some n →
          v.groupExpired g = true ∨ v.nodeExpired n = false) ∧
        ∀ g, v.groupExpired g = false → ¬ OrphanGroup v g) (fun v a v' hv hmeet hstep => ?_) steps
      ⟨associated_init, fun e g n hn => by simp at hn, fun g _ ho => by cases ho.1⟩ hsteps h
    obtain ⟨hassoc, hvalid, hnone⟩ := hv
    have hassoc' := associated_step hassoc hstep
    refine ⟨hassoc', fun e g n hn => ?_, fun g hg ho => ?_⟩
    · rcases expired_step hassoc hstep with ⟨n', rfl, rfl⟩ | hages
      · by_cases hnn : n = n'
        · subst hnn
          exact Or.inl (hmeet e g hn)
        · exact (hvalid e g n hn).imp id fun hexp => (storeFlag_ne hnn).trans hexp
      · rcases hages.lookup e g n hn with hold | hexp
        · exact (hvalid e g n hold).imp (hages.groups g) fun hexp => by rw [hages.nodes]; exact hexp
        · exact Or.inr (by rw [hages.nodes]; exact hexp)
    · have halive : v.groupExpired g = false := by
        cases hexp : v.groupExpired g with
        | false => rfl
        | true =>
          rw [expired_kept hassoc hstep hexp] at hg; cases hg
      obtain ⟨s, hs⟩ := groupStands_exists v g
      obtain ⟨s', hs', hlife⟩ := group_life hassoc hstep hs
      cases groupStands_unique hassoc' hs' (show GroupStands v' g .orphaned from ho)
      cases hlife with
      | stay => exact hnone g halive hs
      | lose e hinvalid =>
        rcases hinvalid with hexp | ⟨e', n, hn, hexp⟩
        · rw [halive] at hexp; cases hexp
        · rcases hvalid e' g n hn with hg' | hn'
          · rw [halive] at hg'; cases hg'
          · rw [hexp] at hn'; cases hn'
  constructor
  · intro hflag
    obtain ⟨s, hs⟩ := groupStands_exists w g
    cases s with
    | free => exact absurd (hs.1.symm.trans hflag) (by simp)
    | within e => exact ⟨e, hs⟩
    | orphaned => exact absurd hs (hinv.2.2 g hg)
  · rintro ⟨e, he⟩
    exact hinv.1.taken e g he

theorem twoGroups_flags : ∃ w, associationRun twoGroups = some w ∧
    (w.groupHasExecutor 0 = true ↔ ∃ e, 0 ∈ (w.executors e).weakGroupsToNodes) := by
  have hsome : ((associationRun twoGroups).map fun w => w.groupExpired 0) = some false := by decide
  obtain ⟨w, hw, halive⟩ := Option.map_eq_some_iff.mp hsome
  refine ⟨w, hw, flags_exact hw (stepsMeet_of_mem _ _ fun a ha _ => ?_) halive⟩
  simp only [twoGroups, List.mem_cons, List.not_mem_nil, or_false] at ha
  rcases ha with rfl | rfl | rfl <;> trivial

/-! ## After a wait -/

end ReferenceSystem
