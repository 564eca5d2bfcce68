import ReferenceSystem.MembershipSound

/-!
# Removing nodes and callback groups

What a call leaves behind that throws, what `remove_node` takes from an executor,
and which nodes are lost: a node that could not be removed is in no executor and
cannot be added to one again.
-/

namespace ReferenceSystem

/-! ## The effect of removing a node -/

theorem forEach_append {α : Type} (f : α → Association → Called) (bs : List α) : ∀ (as : List α) (w : Association),
    forEach f (as ++ bs) w = match forEach f as w with
      | (v, none) => forEach f bs v
      | (v, some error) => (v, some error)
  | [], w => rfl
  | a :: as, w => by
    rw [List.cons_append, forEach, forEach]
    split
    · exact forEach_append f bs as _
    · rfl

/-- What is left of the maps when `gs`, added with the node `n`, are removed. -/
structure RemovedAll (w : Association) (e n : Nat) (gs : List Nat) (v : Association) : Prop where
  same : SameNodes w v
  others : ∀ e', e' ≠ e → v.executors e' = w.executors e'
  map : ∀ k, ∀ a b : Nat, ((v.executors e).map k)[a]? = some b ↔
    ((w.executors e).map k)[a]? = some b ∧ (k = .node → a ∉ gs)
  flags : ∀ g, v.groupHasExecutor g = if g ∈ gs then false else w.groupHasExecutor g
  guards : ((∃ k, ∃ a : Nat, ((v.executors e).map k)[a]? = some n) →
      (v.executors e).guardConditions = (w.executors e).guardConditions) ∧
    ((∀ k, ∀ a : Nat, ((v.executors e).map k)[a]? ≠ some n) →
      (v.executors e).guardConditions = gs.getLast?.elim (w.executors e).guardConditions
        fun g => (w.executors e).guardConditions.erase (.notify g))

/-- Only with the last callback group of the node `n` the interrupt guard condition is triggered. -/
inductive LastTriggers (w v : Association) (e n : Nat) (notify : Bool) (gs : List Nat) : Option AssociationError → Prop
  | others : gs = [] ∨ (∃ k, ∃ a : Nat, ((v.executors e).map k)[a]? = some n) →
      (v.executors e).triggered = (w.executors e).triggered → LastTriggers w v e n notify gs none
  | last : gs ≠ [] → (∀ k, ∀ a : Nat, ((v.executors e).map k)[a]? ≠ some n) →
      (v.executors e).triggered = (w.executors e).triggered + notify.toNat →
      LastTriggers w v e n notify gs (w.interruptError e notify .triggerOnRemove)

theorem LastTriggers.triggered {w v : Association} {e n : Nat} {notify : Bool} {gs : List Nat}
    {error : Option AssociationError} (h : LastTriggers w v e n notify gs error) :
    Triggered w v e notify .triggerOnRemove error := by
  cases h with
  | others _ hsame => exact .same hsame
  | last _ _ hcount => exact .once hcount

theorem removeWithNode_ok {w : Association} (h : Associated w) {e n g : Nat} (hn : w.nodeExpired n = false)
    (hg : ((w.executors e).map .node)[g]? = some n) (halive : w.groupExpired g = false) (notify : Bool) :
    ∃ v error, removeWithNode e notify g w = (v, error) ∧ Associated v ∧ RemovedAll w e n [g] v ∧
      LastTriggers w v e n notify [g] error := by
  have hkeeps := removeCallbackGroupFromMap_associated h e (some g) .node notify
  have heq : removeWithNode e notify g w = removeCallbackGroupFromMap e (some g) .node notify w := by
    rw [removeWithNode, halive]; rfl
  rw [heq]
  rcases removeCallbackGroupFromMap_cases h e (some g) .node notify with
    ⟨hfail, _⟩ | ⟨g', n', y, error, hg', hn', _, hy, hres⟩
  · rw [hfail g n rfl hg] at hn; cases hn
  · cases hg'
    cases hg.symm.trans hn'
    -- the callback groups of the node that are left
    have hleft : ∀ k, ∀ a : Nat, (y.map k)[a]? = some n ↔ a ≠ g ∧ ((w.executors e).map k)[a]? = some n := by
      intro k a
      rw [hy.map, eraseGroup_map]
      by_cases hk : k = .node
      · subst hk
        rw [if_pos rfl, erase_some, ne_comm]
      · rw [if_neg hk]
        refine ⟨fun ha => ⟨?_, ha⟩, And.right⟩
        rintro rfl
        exact hk ((h.split e).apart a k .node (mem_iff_exists.mpr ⟨n, ha⟩) (mem_iff_exists.mpr ⟨n, hg⟩))
    rw [hres] at hkeeps ⊢
    refine ⟨_, _, rfl, hkeeps.1, ⟨hkeeps.2, fun e' he => Function.update_of_ne he .., fun k a b => ?_, fun a => ?_, ?_, ?_⟩,
      ?_⟩
    · simp only [Function.update_self, hy.map, eraseGroup_map]
      by_cases hk : k = .node
      · subst hk
        rw [if_pos rfl, erase_some, List.mem_singleton, ne_comm]
        tauto
      · simp [hk]
    · simp only [List.mem_singleton, storeFlag]
    · rintro ⟨k, a, ha⟩
      simp only [Function.update_self] at ha ⊢
      rcases hy.guards with ⟨_, hlist, _⟩ | ⟨hall, _⟩
      · exact hlist
      · obtain ⟨hne, ha⟩ := (hleft k a).mp ha
        exact absurd (hall k a ha) hne
    · intro hnone
      simp only [Function.update_self] at hnone ⊢
      rcases hy.guards with ⟨⟨k, a, hother⟩, _⟩ | ⟨_, hlist, _⟩
      · exact absurd ((hleft k a).mpr hother) (hnone k a)
      · rw [hlist]
        exact (dropGuardCondition_guards (h.guarded e) g).1
    · rcases hy.guards with ⟨⟨k, a, hother⟩, _, _, hcount, rfl⟩ | ⟨hall, _, _, hcount, rfl⟩
      · refine .others (Or.inr ⟨k, a, ?_⟩) (by simpa using hcount)
        simpa using (hleft k a).mpr hother
      · refine .last (List.cons_ne_nil _ _) (fun k a ha => ?_) (by simpa using hcount)
        obtain ⟨hne, ha⟩ := (hleft k a).mp (by simpa using ha)
        exact hne (hall k a ha)

theorem removeLoop_ok {e n : Nat} (notify : Bool) : ∀ (gs : List Nat) {w : Association}, Associated w →
    w.nodeExpired n = false → gs.Nodup →
    (∀ g ∈ gs, ((w.executors e).map .node)[g]? = some n ∧ w.groupExpired g = false) →
    ∃ v error, forEach (removeWithNode e notify) gs w = (v, error) ∧ Associated v ∧ RemovedAll w e n gs v ∧
      LastTriggers w v e n notify gs error
  | [], w, h, _, _, _ =>
    ⟨w, none, rfl, h, ⟨.refl w, fun _ _ => rfl, fun _ _ _ => by simp, fun _ => by simp, fun _ => rfl, fun _ => rfl⟩,
      .others (Or.inl rfl) rfl⟩
  | g :: gs, w, h, hn, hnodup, hgs => by
    obtain ⟨hg, halive⟩ := hgs g (List.mem_cons_self ..)
    obtain ⟨hnot, hrest⟩ := List.nodup_cons.mp hnodup
    obtain ⟨v, error, hv, hassoc, hone, hlast⟩ := removeWithNode_ok h hn hg halive notify
    cases gs with
    | nil =>
      refine ⟨v, error, ?_, hassoc, hone, hlast⟩
      rw [forEach, hv]
      cases error <;> rfl
    | cons g' gs =>
      have hgs' : ∀ a ∈ g' :: gs, ((v.executors e).map .node)[a]? = some n ∧ v.groupExpired a = false := by
        intro a ha
        obtain ⟨ha', halive'⟩ := hgs a (List.mem_cons_of_mem _ ha)
        refine ⟨(hone.map .node a n).mpr ⟨ha', fun _ hmem => ?_⟩, by rw [hone.same.groupExpired]; exact halive'⟩
        cases List.mem_singleton.mp hmem
        exact hnot ha
      -- a callback group of the node is still there when `g` is removed
      have hmore := (hgs' g' (List.mem_cons_self ..)).1
      obtain ⟨hnone, hcount⟩ : error = none ∧ (v.executors e).triggered = (w.executors e).triggered := by
        cases hlast with
        | others _ hcount => exact ⟨rfl, hcount⟩
        | last _ hall => exact absurd hmore (hall .node g')
      obtain ⟨u, error', hu, hassoc', hall, hlast'⟩ :=
        removeLoop_ok notify (g' :: gs) hassoc (by rw [hone.same.nodeExpired]; exact hn) hrest hgs'
      refine ⟨u, error', by rw [forEach, hv, hnone]; exact hu, hassoc', ⟨hone.same.trans hall.same,
        fun e' he => (hall.others e' he).trans (hone.others e' he), fun k a b => ?_, fun a => ?_, ?_, ?_⟩, ?_⟩
      · simp only [hall.map, hone.map, List.mem_cons, List.not_mem_nil]
        tauto
      · rw [hall.flags, hone.flags]
        simp only [List.mem_cons, List.not_mem_nil, or_false]
        by_cases ha : a = g' ∨ a ∈ gs
        · simp [ha]
        · simp [ha]
      · rintro ⟨k, a, ha⟩
        rw [hall.guards.1 ⟨k, a, ha⟩]
        exact hone.guards.1 ⟨k, a, ((hall.map k a n).mp ha).1⟩
      · intro hnone
        rw [hall.guards.2 hnone, hone.guards.1 ⟨.node, g', hmore⟩, List.getLast?_cons (a := g)]
        rw [List.getLast?_eq_some_getLast (List.cons_ne_nil g' gs)]
        rfl
      · have hsame : v.interruptError e notify .triggerOnRemove = w.interruptError e notify .triggerOnRemove := by
          rw [Association.interruptError, hcount, hone.same.triggerFails]; rfl
        cases hlast' with
        | others hleft hcount' => exact .others (Or.inr (hleft.resolve_left (List.cons_ne_nil _ _))) (hcount'.trans hcount)
        | last _ hall' hcount' => exact hsame ▸ .last (List.cons_ne_nil _ _) hall' (hcount ▸ hcount')

theorem mem_groupsWithNode {w : Association} {e n g : Nat} :
    g ∈ w.groupsWithNode e n ↔ ((w.executors e).map .node)[g]? = some n := by
  unfold Association.groupsWithNode
  simp only [List.mem_map, List.mem_filter, decide_eq_true_eq, Prod.exists, exists_and_right, exists_eq_right]
  exact Std.TreeMap.mem_toList_iff_getElem?_eq_some

theorem groupsWithNode_ordered (w : Association) (e n : Nat) : (w.groupsWithNode e n).Pairwise (· < ·) := by
  unfold Association.groupsWithNode
  rw [List.pairwise_map]
  refine List.Pairwise.filter _ ?_
  exact Std.TreeMap.ordered_keys_toList.imp fun h => Nat.compare_eq_lt.mp h

theorem removeLoop_stuck {e n : Nat} (notify : Bool) : ∀ (gs : List Nat) {w : Association}, Associated w →
    w.nodeExpired n = false → gs.Nodup → (∀ g ∈ gs, ((w.executors e).map .node)[g]? = some n) →
    (∃ g ∈ gs, w.groupExpired g = true) → (forEach (removeWithNode e notify) gs w).2 = some .groupNotAssociated
  | [], _, _, _, _, _, hex => by
    obtain ⟨_, hmem, _⟩ := hex
    cases hmem
  | g :: gs, w, h, hn, hnodup, hgs, hex => by
    obtain ⟨hnot, hrest⟩ := List.nodup_cons.mp hnodup
    cases halive : w.groupExpired g with
    | true =>
      have hfail : removeWithNode e notify g w = (w, some .groupNotAssociated) := by
        rw [removeWithNode, halive]; rfl
      rw [forEach, hfail]
    | false =>
      obtain ⟨v, error, hv, hassoc, hone, hlast⟩ := removeWithNode_ok h hn (hgs g (List.mem_cons_self ..)) halive notify
      have hgs' : ∀ a ∈ gs, ((v.executors e).map .node)[a]? = some n := by
        intro a ha
        refine (hone.map .node a n).mpr ⟨hgs a (List.mem_cons_of_mem _ ha), fun _ hmem => ?_⟩
        cases List.mem_singleton.mp hmem
        exact hnot ha
      obtain ⟨a, ha, hexp⟩ := hex
      have hrest' : a ∈ gs := by
        refine (List.mem_cons.mp ha).resolve_left ?_
        rintro rfl
        rw [halive] at hexp; cases hexp
      cases hlast with
      | last _ hnone => exact absurd (hgs' a hrest') (hnone .node a)
      | others =>
        rw [forEach, hv]
        exact removeLoop_stuck notify gs hassoc (by rw [hone.same.nodeExpired]; exact hn) hrest hgs'
          ⟨a, hrest', by rw [hone.same.groupExpired]; exact hexp⟩

/-- A node is removed, unless one of the callback groups added with it has expired,
but for its mark when the trigger has failed. -/
theorem removeNode_cases {w : Association} (h : Associated w) {e n : Nat} (hin : n ∈ (w.executors e).weakNodes)
    (hn : w.nodeExpired n = false) (notify : Bool) :
    ((∀ g ∈ w.groupsWithNode e n, w.groupExpired g = false) ∧ ∃ v error, Associated v ∧
      RemovedAll (w.dropNode e n) e n (w.groupsWithNode e n) v ∧
      LastTriggers (w.dropNode e n) v e n notify (w.groupsWithNode e n) error ∧
      removeNode e n notify w = (match error with | none => v.markNode n false | some _ => v, error)) ∨
    ((∃ g ∈ w.groupsWithNode e n, w.groupExpired g = true) ∧ ∃ v, SameNodes (w.dropNode e n) v ∧
      removeNode e n notify w = (v, some .groupNotAssociated)) := by
  have hloop : removeNode e n notify w =
      match forEach (removeWithNode e notify) (w.groupsWithNode e n) (w.dropNode e n) with
        | (v, none) => (v.markNode n false, none)
        | (v, some error) => (v, some error) := by
    have hunfold := removeNode_eq e n notify w
    rw [h.nodeTaken e n hin, if_neg (by simp), if_neg (not_not.mpr hin)] at hunfold
    exact hunfold
  have hmaps : ((w.dropNode e n).executors e).map .node = (w.executors e).map .node := by
    unfold Association.dropNode Association.setExecutor
    simp only [Function.update_self, ExecutorMaps.map]
  have hgs : ∀ g ∈ w.groupsWithNode e n, (((w.dropNode e n).executors e).map .node)[g]? = some n := by
    intro g hg
    rw [hmaps]; exact mem_groupsWithNode.mp hg
  have hnodup : (w.groupsWithNode e n).Nodup := (groupsWithNode_ordered w e n).imp Nat.ne_of_lt
  have hdrop := h.dropNode e n
  by_cases hall : ∀ g ∈ w.groupsWithNode e n, w.groupExpired g = false
  · obtain ⟨v, error, hv, hassoc, hremoved, hlast⟩ :=
      removeLoop_ok notify _ hdrop hn hnodup fun g hg => ⟨hgs g hg, hall g hg⟩
    refine Or.inl ⟨hall, v, error, hassoc, hremoved, hlast, ?_⟩
    rw [hloop, hv]
    cases error <;> rfl
  · have hex : ∃ g ∈ w.groupsWithNode e n, w.groupExpired g = true := by simpa using hall
    have hstuck := removeLoop_stuck notify _ hdrop hn hnodup hgs hex
    have hsame := (removeWithNode_all hdrop e notify (w.groupsWithNode e n)).2
    refine Or.inr ⟨hex, _, hsame, ?_⟩
    rw [hloop, ← Prod.mk.eta (p := forEach (removeWithNode e notify) (w.groupsWithNode e n) (w.dropNode e n)), hstuck]

/-! ## Calls that throw -/

section
variable {steps : List AssociationStep} {w : Association} {e n : Nat}

theorem dropNode_maps (w : Association) (e n : Nat) (k : AddedBy) :
    ((w.dropNode e n).executors e).map k = (w.executors e).map k := by
  unfold Association.dropNode Association.setExecutor
  cases k <;> simp only [Function.update_self, ExecutorMaps.map]

/-- The trigger that `remove_node` may make: with the last callback group of the node. -/
def LastFails (w : Association) (e n : Nat) (notify : Bool) : Prop :=
  notify = true ∧ (∃ g : Nat, ((w.executors e).map .node)[g]? = some n) ∧
    (∀ g : Nat, ((w.executors e).map .itself)[g]? ≠ some n) ∧ w.triggerFails e (w.executors e).triggered = true

theorem lastTriggers_eq_none {v : Association} {notify : Bool} {error : Option AssociationError}
    (hremoved : RemovedAll (w.dropNode e n) e n (w.groupsWithNode e n) v)
    (hlast : LastTriggers (w.dropNode e n) v e n notify (w.groupsWithNode e n) error) :
    error = none ↔ ¬ LastFails w e n notify := by
  have hleft : ∀ k, ∀ a : Nat, ((v.executors e).map k)[a]? = some n ↔ k = .itself ∧ ((w.executors e).map k)[a]? = some n := by
    intro k a
    rw [hremoved.map, dropNode_maps, mem_groupsWithNode]
    cases k <;> simp
  have hcount : (w.dropNode e n).interruptError e notify .triggerOnRemove = w.interruptError e notify .triggerOnRemove := by
    unfold Association.interruptError Association.dropNode Association.setExecutor
    simp only [Function.update_self]
  cases hlast with
  | others hothers _ =>
    refine iff_of_true rfl ?_
    rintro ⟨_, ⟨g, hg⟩, hnone, _⟩
    rcases hothers with hnil | ⟨k, a, ha⟩
    · have hmem := mem_groupsWithNode.mpr hg
      rw [hnil] at hmem; cases hmem
    · obtain ⟨rfl, ha⟩ := (hleft k a).mp ha
      exact hnone a ha
  | last hne hnone _ =>
    obtain ⟨g, hg⟩ := List.exists_mem_of_ne_nil _ hne
    have hitself : ∀ a : Nat, ((w.executors e).map .itself)[a]? ≠ some n :=
      fun a ha => hnone .itself a ((hleft .itself a).mpr ⟨rfl, ha⟩)
    rw [hcount]
    unfold Association.interruptError
    constructor
    · rintro herror ⟨rfl, _, _, hfails⟩
      simp [hfails] at herror
    · intro hnot
      rw [if_neg]
      intro hfails
      obtain ⟨hnotify, hfails⟩ := Bool.and_eq_true_iff.mp hfails
      exact hnot ⟨hnotify, ⟨g, mem_groupsWithNode.mp hg⟩, hitself, hfails⟩

/-- `remove_node` takes exactly the callback groups that were added with the
node, or throws: when one of them has expired, or when rcl fails the trigger that
comes with the last of them, which leaves only the mark of the node. -/
theorem removeNode_exact (h : associationRun steps = some w) (hin : n ∈ (w.executors e).weakNodes)
    (hn : w.nodeExpired n = false) (notify : Bool) :
    ((removeNode e n notify w).2 = none ↔
      (∀ g : Nat, ((w.executors e).map .node)[g]? = some n → w.groupExpired g = false) ∧ ¬ LastFails w e n notify) ∧
    ((∀ g : Nat, ((w.executors e).map .node)[g]? = some n → w.groupExpired g = false) →
      ∀ v, v = (removeNode e n notify w).1 →
      (v.executors e).weakNodes = (w.executors e).weakNodes.filter (· ≠ n) ∧
      (∀ k, ∀ g m : Nat, ((v.executors e).map k)[g]? = some m ↔
        ((w.executors e).map k)[g]? = some m ∧ ¬ (k = .node ∧ m = n)) ∧
      (∀ e', e' ≠ e → v.executors e' = w.executors e') ∧
      (∀ g, v.groupHasExecutor g = true ↔ w.groupHasExecutor g = true ∧ ((w.executors e).map .node)[g]? ≠ some n) ∧
      ∀ m, v.nodeHasExecutor m = true ↔
        w.nodeHasExecutor m = true ∧ (m = n → (removeNode e n notify w).2 ≠ none)) := by
  rcases removeNode_cases (associated_of_run h) hin hn notify with
    ⟨hall, v, error, _, hremoved, hlast, heq⟩ | ⟨⟨g, hg, hexp⟩, v, _, heq⟩
  · rw [heq]
    have hall' : ∀ g : Nat, ((w.executors e).map .node)[g]? = some n → w.groupExpired g = false :=
      fun g hg => hall g (mem_groupsWithNode.mpr hg)
    refine ⟨(lastTriggers_eq_none hremoved hlast).trans (and_iff_right hall').symm, fun _ u hu => ?_⟩
    have hsame : u.executors = v.executors ∧ u.groupHasExecutor = v.groupHasExecutor := by
      rw [hu]
      cases error <;> exact ⟨rfl, rfl⟩
    rw [hsame.1, hsame.2]
    refine ⟨?_, fun k g m => ?_, fun e' he => ?_, fun g => ?_, fun m => ?_⟩
    · rw [hremoved.same.weakNodes]
      unfold Association.dropNode Association.setExecutor
      simp only [Function.update_self]
    · refine (hremoved.map k g m).trans ?_
      rw [dropNode_maps, mem_groupsWithNode]
      constructor
      · rintro ⟨hm, hnot⟩
        refine ⟨hm, ?_⟩
        rintro ⟨rfl, rfl⟩
        exact hnot rfl hm
      · rintro ⟨hm, hnot⟩
        refine ⟨hm, ?_⟩
        rintro rfl hgn
        exact hnot ⟨rfl, Option.some.inj (hm.symm.trans hgn)⟩
    · exact (hremoved.others e' he).trans (Function.update_of_ne he ..)
    · have hflag : v.groupHasExecutor g = if g ∈ w.groupsWithNode e n then false else w.groupHasExecutor g :=
        hremoved.flags g
      simp only [hflag, mem_groupsWithNode]
      split <;> simp_all
    · have hnode : v.nodeHasExecutor = w.nodeHasExecutor := hremoved.same.nodeHasExecutor
      cases error with
      | some error => simp [hu, hnode]
      | none =>
        simp only [hu, Association.markNode, hnode, storeFlag]
        split <;> simp_all
  · rw [heq]
    have hexpired : ¬ ∀ g : Nat, ((w.executors e).map .node)[g]? = some n → w.groupExpired g = false := by
      intro hall
      rw [hall g (mem_groupsWithNode.mp hg)] at hexp
      cases hexp
    exact ⟨⟨fun hnone => absurd hnone (by simp), fun hall => absurd hall.1 hexpired⟩, fun hall => absurd hall hexpired⟩

/-- Of the callback groups removed with a node, only the one that comes last
loses its guard condition, and that only if the node has no other one left. -/
theorem removeNode_guardConditions (h : associationRun steps = some w) (hin : n ∈ (w.executors e).weakNodes)
    (hn : w.nodeExpired n = false) {notify : Bool} (hok : (removeNode e n notify w).2 = none) (c : GuardCondition) :
    c ∈ ((removeNode e n notify w).1.executors e).guardConditions ↔ c ∈ (w.executors e).guardConditions ∧
      ((∃ g : Nat, ((w.executors e).map .itself)[g]? = some n) ∨
        ∀ g, c = .notify g → ((w.executors e).map .node)[g]? = some n →
          ∃ g', g < g' ∧ ((w.executors e).map .node)[g']? = some n) := by
  have hassoc := associated_of_run h
  rcases removeNode_cases hassoc hin hn notify with ⟨_, v, error, _, hremoved, _, heq⟩ | ⟨_, v, _, heq⟩
  swap
  · rw [heq] at hok; cases hok
  rw [heq] at hok ⊢
  cases hok
  have hbefore : ((w.dropNode e n).executors e).guardConditions = (w.executors e).guardConditions := by
    unfold Association.dropNode Association.setExecutor
    simp only [Function.update_self]
  have hguards := hremoved.guards
  rw [hbefore] at hguards
  have hleft : ∀ k, ∀ a : Nat, ((v.executors e).map k)[a]? = some n ↔ k = .itself ∧ ((w.executors e).map k)[a]? = some n := by
    intro k a
    rw [hremoved.map, dropNode_maps, mem_groupsWithNode]
    cases k <;> simp
  change c ∈ (v.executors e).guardConditions ↔ _
  by_cases hitself : ∃ g : Nat, ((w.executors e).map .itself)[g]? = some n
  · obtain ⟨g, hg⟩ := hitself
    rw [hguards.1 ⟨.itself, g, (hleft .itself g).mpr ⟨rfl, hg⟩⟩]
    exact ⟨fun hc => ⟨hc, Or.inl ⟨g, hg⟩⟩, And.left⟩
  · rw [hguards.2 fun k a ha => hitself ⟨a, by
      obtain ⟨rfl, ha⟩ := (hleft k a).mp ha
      exact ha⟩]
    have hordered := groupsWithNode_ordered w e n
    cases hlast : (w.groupsWithNode e n).getLast? with
    | none =>
      have hnil : w.groupsWithNode e n = [] := List.getLast?_eq_none_iff.mp hlast
      refine ⟨fun hc => ⟨hc, Or.inr fun g _ hg => ?_⟩, And.left⟩
      have hmem := mem_groupsWithNode.mpr hg
      rw [hnil] at hmem; cases hmem
    | some last =>
      obtain ⟨before, hsplit⟩ := List.getLast?_eq_some_iff.mp hlast
      have hlastMem : ((w.executors e).map .node)[last]? = some n :=
        mem_groupsWithNode.mp (by rw [hsplit]; exact List.mem_append_right _ (List.mem_singleton_self _))
      have hmax : ∀ g : Nat, ((w.executors e).map .node)[g]? = some n → g ≠ last → g < last := by
        intro g hg hne
        have hmem := mem_groupsWithNode.mpr hg
        rw [hsplit] at hordered hmem
        rcases List.mem_append.mp hmem with hmem | hmem
        · exact (List.pairwise_append.mp hordered).2.2 g hmem last (List.mem_singleton_self _)
        · exact absurd (List.mem_singleton.mp hmem) hne
      simp only [Option.elim_some, (hassoc.guarded e).nodup.mem_erase_iff]
      constructor
      · rintro ⟨hne, hc⟩
        refine ⟨hc, Or.inr fun g hcg hg => ⟨last, hmax g hg ?_, hlastMem⟩⟩
        rintro rfl
        exact hne hcg
      · rintro ⟨hc, hstay | hstay⟩
        · exact absurd hstay hitself
        · refine ⟨fun hcl => ?_, hc⟩
          obtain ⟨g', hlt, hg'⟩ := hstay last hcl hlastMem
          rcases eq_or_ne g' last with rfl | hne
          · omega
          · have hlt' := hmax g' hg' hne
            omega

end

theorem twoGroups_state : ∃ w, associationRun twoGroups = some w ∧ 7 ∈ (w.executors 0).weakNodes ∧
    w.nodeExpired 7 = false ∧ (removeNode 0 7 true w).2 = none ∧
    .notify 0 ∈ (w.executors 0).guardConditions ∧ ((w.executors 0).map .node).toList = [(0, 7), (1, 7)] := by
  have hsome : ((associationRun twoGroups).map fun w => decide (7 ∈ (w.executors 0).weakNodes ∧
      w.nodeExpired 7 = false ∧ (removeNode 0 7 true w).2 = none ∧
      .notify 0 ∈ (w.executors 0).guardConditions ∧ ((w.executors 0).map .node).toList = [(0, 7), (1, 7)])) =
      some true := by decide
  obtain ⟨w, hw, hstate⟩ := Option.map_eq_some_iff.mp hsome
  exact ⟨w, hw, of_decide_eq_true hstate⟩

theorem twoGroups_removal : ∃ w, associationRun twoGroups = some w ∧
    ((removeNode 0 7 true w).2 = none ↔
      (∀ g : Nat, ((w.executors 0).map .node)[g]? = some 7 → w.groupExpired g = false) ∧ ¬ LastFails w 0 7 true) := by
  obtain ⟨w, hw, hin, hn, _⟩ := twoGroups_state
  exact ⟨w, hw, (removeNode_exact hw hin hn true).1⟩

theorem twoGroups_guardConditions : ∃ w, associationRun twoGroups = some w ∧
    (.notify 0 ∈ ((removeNode 0 7 true w).1.executors 0).guardConditions ↔
      .notify 0 ∈ (w.executors 0).guardConditions ∧ ((∃ g : Nat, ((w.executors 0).map .itself)[g]? = some 7) ∨
        ∀ g, .notify 0 = GuardCondition.notify g → ((w.executors 0).map .node)[g]? = some 7 →
          ∃ g', g < g' ∧ ((w.executors 0).map .node)[g']? = some 7)) := by
  obtain ⟨w, hw, hin, hn, hok, _⟩ := twoGroups_state
  exact ⟨w, hw, removeNode_guardConditions hw hin hn hok (.notify 0)⟩

/-! ## Orphans -/

/-- A node that is marked as added and is in no executor. -/
def Orphan (w : Association) (n : Nat) : Prop :=
  w.nodeHasExecutor n = true ∧ ∀ e, n ∉ (w.executors e).weakNodes

theorem Orphan.same {w w' : Association} {n : Nat} (h : Orphan w n) (hsame : SameNodes w w') : Orphan w' n :=
  ⟨by rw [hsame.nodeHasExecutor]; exact h.1, fun e => by rw [hsame.weakNodes]; exact h.2 e⟩

theorem Orphan.setNodes {w : Association} {n : Nat} (h : Orphan w n) (e : Nat) {x : ExecutorMaps}
    (hx : n ∉ x.weakNodes) : Orphan (w.setExecutor e x) n := by
  refine ⟨h.1, fun e' hmem => ?_⟩
  unfold Association.setExecutor at hmem
  by_cases he : e' = e
  · subst he
    simp only [Function.update_self] at hmem
    exact hx hmem
  · simp only [Function.update_of_ne he] at hmem
    exact h.2 e' hmem

theorem orphan_step {w w' : Association} {n : Nat} {a : AssociationStep} (hassoc : Associated w) (h : Orphan w n)
    (hstep : associationStep w a = some w') : Orphan w' n := by
  obtain ⟨called, hcall, rfl⟩ := Option.map_eq_some_iff.mp hstep
  cases a with
  | createCallbackGroup g =>
    simp only [call] at hcall
    split at hcall <;> cases hcall
    exact h
  | releaseGroup g =>
    simp only [call] at hcall
    split at hcall <;> cases hcall
    exact h
  | releaseNode m => cases hcall; exact h
  | shutdown => cases hcall; exact h
  | setTrigger e count fails => cases hcall; exact h
  | addNode e m notify =>
    simp only [call] at hcall
    split at hcall <;> cases hcall
    cases hfree : w.nodeHasExecutor m with
    | true =>
      rw [addNode_eq, if_pos hfree]
      exact h
    | false =>
      have hne : n ≠ m := by
        rintro rfl
        rw [h.1] at hfree; cases hfree
      have hmarked : Orphan (w.markNode m true) n := ⟨storeFlag_true h.1, h.2⟩
      obtain ⟨v, error, _, hadded, heq⟩ := addNode_free hassoc hfree e notify
      have hv := hmarked.same hadded.same
      rw [heq]
      cases error with
      | some error => exact hv
      | none =>
        refine hv.setNodes e fun hmem => ?_
        rcases List.mem_append.mp hmem with hmem | hmem
        · exact hv.2 e hmem
        · exact hne (List.mem_singleton.mp hmem)
  | removeNode e m notify =>
    simp only [call] at hcall
    split at hcall <;> cases hcall
    rw [removeNode_eq]
    split
    · exact h
    · split
      · exact h
      · rename_i hin
        have hne : n ≠ m := by
          rintro rfl
          exact h.2 e (not_not.mp hin)
        have hdrop : Orphan (w.dropNode e m) n := h.setNodes e fun hmem => h.2 e (List.mem_filter.mp hmem).1
        have hsame := (removeWithNode_all (hassoc.dropNode e m) e notify (w.groupsWithNode e m)).2
        generalize forEach (removeWithNode e notify) (w.groupsWithNode e m) (w.dropNode e m) = result at hsame ⊢
        obtain ⟨v, error⟩ := result
        cases error with
        | some error => exact hdrop.same hsame
        | none =>
          have hv := hdrop.same hsame
          exact ⟨(storeFlag_ne hne).trans hv.1, hv.2⟩
  | addCallbackGroup e g m notify =>
    simp only [call] at hcall
    split at hcall <;> cases hcall
    exact h.same (addCallbackGroupToMap_associated hassoc e g m .itself notify).2
  | removeCallbackGroup e g notify =>
    simp only [call] at hcall
    split at hcall <;> cases hcall
    exact h.same (removeCallbackGroupFromMap_associated hassoc e (some g) .itself notify).2
  | prepareWait e =>
    cases hcall
    obtain ⟨v, error, ⟨hv, hsame, _⟩, _, heq⟩ := prepareWait_ok hassoc e
    rw [heq]
    cases error with
    | some error => exact h.same hsame
    | none =>
      have hnodes := (dropInvalid_foldl (hv.split e) (hv.guarded e) (v.invalidGroups e)).2.2.1
      exact (h.same hsame).setNodes e (by rw [hnodes]; exact (h.same hsame).2 e)
  | destroy e =>
    cases hcall
    refine ⟨?_, fun e' hmem => ?_⟩
    · simp only [destroy, h.2 e, false_and, if_false, h.1]
    · simp only [destroy] at hmem
      by_cases he : e' = e
      · subst he
        simp only [Function.update_self] at hmem
        exact List.not_mem_nil hmem
      · simp only [Function.update_of_ne he] at hmem
        exact h.2 e' hmem

/-- A node whose removal threw is in no executor and is never added to one again. -/
theorem failed_removal_orphans {before after : List AssociationStep} {w w' : Association}
    (h : associationRun before = some w) {e n : Nat} (hin : n ∈ (w.executors e).weakNodes)
    (hn : w.nodeExpired n = false) {notify : Bool} (hthrow : (removeNode e n notify w).2 ≠ none)
    (hafter : runSteps associationStep (removeNode e n notify w).1 after = some w') :
    (∀ e', n ∉ (w'.executors e').weakNodes) ∧ ∀ e' notify',
      (addNode e' n notify' w').2 = some .nodeHasExecutor ∧
      (removeNode e' n notify' w').2 = some .nodeNotInExecutor := by
  have hassoc := associated_of_run h
  have horphan : Orphan (removeNode e n notify w).1 n := by
    have hdrop : Orphan (w.dropNode e n) n := ⟨hassoc.nodeTaken e n hin, not_mem_dropNode hassoc hin⟩
    rcases removeNode_cases hassoc hin hn notify with ⟨_, v, error, _, hremoved, _, heq⟩ | ⟨_, v, hsame, heq⟩
    · rw [heq] at hthrow ⊢
      cases error with
      | none => exact absurd rfl hthrow
      | some error => exact hdrop.same hremoved.same
    · rw [heq]
      exact hdrop.same hsame
  have hlast : Associated w' ∧ Orphan w' n :=
    run_invariant (P := fun v => Associated v ∧ Orphan v n)
      (fun v a v' hv hstep => ⟨associated_step hv.1 hstep, orphan_step hv.1 hv.2 hstep⟩) after
      ⟨removeNode_associated hassoc e n notify, horphan⟩ hafter
  refine ⟨hlast.2.2, fun e' notify' => ⟨?_, ?_⟩⟩
  · rw [addNode_eq, if_pos hlast.2.1]
  · rw [removeNode_eq, hlast.2.1, if_neg (by simp), if_pos (hlast.2.2 e')]

/-- The first callback group is gone before the node is removed. -/
theorem releasedGroup_orphans : ∃ w w', associationRun (twoGroups ++ [.releaseGroup 0]) = some w ∧
    runSteps associationStep (removeNode 0 7 true w).1 [.addNode 1 7 true] = some w' ∧
    ∀ e, 7 ∉ (w'.executors e).weakNodes := by
  have hsome : ((associationRun (twoGroups ++ [.releaseGroup 0])).map fun w => decide (7 ∈ (w.executors 0).weakNodes ∧
      w.nodeExpired 7 = false ∧ (removeNode 0 7 true w).2 ≠ none ∧
      (runSteps associationStep (removeNode 0 7 true w).1 [.addNode 1 7 true]).isSome = true)) = some true := by decide
  obtain ⟨w, hw, hstate⟩ := Option.map_eq_some_iff.mp hsome
  obtain ⟨hin, hn, hthrow, hrun⟩ := of_decide_eq_true hstate
  obtain ⟨w', hw'⟩ := Option.isSome_iff_exists.mp hrun
  exact ⟨w, w', hw, hw', (failed_removal_orphans hw hin hn hthrow hw').1⟩

end ReferenceSystem
