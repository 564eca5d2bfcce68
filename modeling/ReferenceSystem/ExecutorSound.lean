import Mathlib.Data.List.Nodup
import Mathlib.Data.List.Pairwise
import ReferenceSystem.Executor
import ReferenceSystem.SelectionSound

/-!
# Exclusion and timer activations

A group that is marked belongs to one thread until that thread releases it,
whatever is selected. Callbacks of a mutually exclusive group exclude each
other when the marked group is the group of the callback taken. A timer's
expiries match its executions when a selection that calls a timer takes it.
-/

namespace ReferenceSystem

/-! ## Groups found at run time -/

section
variable {reg : Registry}

def Registry.NonNegative (reg : Registry) : Prop :=
  ∀ p ∈ reg.groups, ∀ k, ∀ e ∈ p.1.ptrs k, 0 ≤ e.callbackPriority

instance : Decidable reg.NonNegative :=
  inferInstanceAs (Decidable (∀ p ∈ reg.groups, ∀ k, ∀ e ∈ p.1.ptrs k, 0 ≤ e.callbackPriority))

theorem Registry.group_apart {p q : CallbackGroup × Nat} (hp : p ∈ reg.groups) (hq : q ∈ reg.groups) (hne : p ≠ q) :
    p.1.id ≠ q.1.id ∧ ∀ k, ∀ e ∈ p.1.ptrs k, ∀ f ∈ q.1.ptrs k, e.handle ≠ f.handle := by
  have : Std.Symm fun p q : CallbackGroup × Nat => p.1.id ≠ q.1.id ∧
      ∀ k, ∀ e ∈ p.1.ptrs k, ∀ f ∈ q.1.ptrs k, e.handle ≠ f.handle :=
    ⟨fun _ _ hab => ⟨hab.1.symm, fun k e he f hf => (hab.2 k f hf e he).symm⟩⟩
  exact reg.apart.forall hp hq hne

theorem Registry.eq_of_id {p q : CallbackGroup × Nat} (hp : p ∈ reg.groups) (hq : q ∈ reg.groups)
    (h : p.1.id = q.1.id) : p = q := by
  by_contra hne
  exact (reg.group_apart hp hq hne).1 h

theorem Registry.eq_of_entity {p q : CallbackGroup × Nat} (hp : p ∈ reg.groups) (hq : q ∈ reg.groups) {k : Kind}
    {e : Executable} (hep : e ∈ p.1.ptrs k) (heq : e ∈ q.1.ptrs k) : p = q := by
  by_contra hne
  exact (reg.group_apart hp hq hne).2 k e hep e heq rfl

theorem ptrs_restrict (g : CallbackGroup) (alive : Alive) (k : Kind) :
    (g.restrict alive).ptrs k = (g.ptrs k).filter fun e => alive.entity k e.handle := by
  cases k <;> rfl

theorem locked_group {alive : Alive} {g : CallbackGroup} {node : Option Nat}
    (h : (some g, node) ∈ reg.weakGroupsToNodes alive) :
    ∃ p ∈ reg.groups, p.1.id = g.id ∧ p.1.type = g.type ∧ ∀ k, ∀ e ∈ g.ptrs k, e ∈ p.1.ptrs k := by
  obtain ⟨p, hp, he⟩ := List.mem_map.mp h
  have hg := congrArg Prod.fst he
  simp only at hg
  split at hg
  · cases hg
    refine ⟨p, hp, rfl, rfl, fun k e hmem => ?_⟩
    rw [ptrs_restrict] at hmem
    exact (List.mem_filter.mp hmem).1
  · cases hg

theorem Registry.NonNegative.locked (hn : reg.NonNegative) (alive : Alive) :
    ReferenceSystem.NonNegative (reg.weakGroupsToNodes alive) := by
  rintro ⟨_, node⟩ hpair g hg k e he
  cases hg
  obtain ⟨p, hp, _, _, hsub⟩ := locked_group hpair
  exact hn p hp k e (hsub k e he)

end

/-! ## Marked groups -/

def Busy (s : MultiThreaded) (t : Nat) (a : AnyExecutable) : Prop :=
  s.threads[t]? = some (.selected a) ∨ s.threads[t]? = some (.executing a)

/-- What the marks of the groups guarantee in every reachable state. -/
structure Guarded (reg : Registry) (s : MultiThreaded) : Prop where
  -- a group in use is one of the executor's
  known : ∀ t a g, Busy s t a → a.callbackGroup = some g →
    ∃ p ∈ reg.groups, p.1.id = g.id ∧ p.1.type = g.type
  -- it is marked
  held : ∀ t a g, Busy s t a → a.callbackGroup = some g → g.type = .mutuallyExclusive →
    s.canBeTakenFrom g.id = false
  -- one thread uses it
  alone : ∀ t t' a a' g g', Busy s t a → Busy s t' a' → a.callbackGroup = some g → a'.callbackGroup = some g' →
    g.type = .mutuallyExclusive → g.id = g'.id → t = t'
  -- a failed selection holds no group
  discarded : ∀ (t : Nat) (a : AnyExecutable), s.threads[t]? = some (ThreadState.discarding a) → a.callbackGroup = none
  -- a selection holds one callback
  single : ∀ t a k k' e e', Busy s t a → a.entity k = some e → a.entity k' = some e' → k = k' ∧ e = e'

def Wakeup.next (w : Wakeup) (reg : Registry) (s : MultiThreaded) : NextReady :=
  getNextReadyExecutableFromMap (w.context reg s.canBeTakenFrom) { memoryStrategy := w.handles s }

/-- What a step of a thread needs, and where it leads. -/
inductive ThreadStepped (reg : Registry) (s : MultiThreaded) : ThreadStep → MultiThreaded → Prop
  | wait {t : Nat} {alive : Alive} (idle : s.threads[t]? = some .idle) (free : s.waitMutex = none)
      (spinning : s.spinning = true) : ThreadStepped reg s (.lock t alive)
        { s.setThread t .waiting with
          waitMutex := some t
          memoryStrategy := collectEntities (reg.weakGroupsToNodes alive) s.canBeTakenFrom }
  | leave {t : Nat} {alive : Alive} (idle : s.threads[t]? = some .idle) (free : s.waitMutex = none)
      (stopped : s.spinning = false) : ThreadStepped reg s (.lock t alive) (s.setThread t .returned)
  | select {t : Nat} {w : Wakeup} (waiting : s.threads[t]? = some .waiting) (held : s.waitMutex = some t)
      (spinning : s.spinning = true) : ThreadStepped reg s (.select t w)
        { s.setThread t (if (w.next reg s).success then .selected (w.next reg s).selection.anyExecutable
            else .discarding (w.next reg s).selection.anyExecutable) with
          waitMutex := none
          memoryStrategy := (w.next reg s).selection.memoryStrategy
          canBeTakenFrom := (w.next reg s).canBeTakenFrom }
  | nothing {t : Nat} {w : Wakeup} (waiting : s.threads[t]? = some .waiting) (held : s.waitMutex = some t)
      (stopped : s.spinning = false) : ThreadStepped reg s (.select t w)
        { s.setThread t (.discarding {}) with waitMutex := none, memoryStrategy := w.handles s }
  | execute {t : Nat} {a : AnyExecutable} (selected : s.threads[t]? = some (.selected a)) :
      ThreadStepped reg s (.execute t) (s.setThread t (if s.spinning then .executing a else .idle))
  | finish {t : Nat} {a : AnyExecutable} (executing : s.threads[t]? = some (.executing a)) :
      ThreadStepped reg s (.finish t) { s.setThread t .idle with canBeTakenFrom := a.release s.canBeTakenFrom }
  | discard {t : Nat} {a : AnyExecutable} (discarding : s.threads[t]? = some (.discarding a)) :
      ThreadStepped reg s (.discard t) { s.setThread t .idle with canBeTakenFrom := a.release s.canBeTakenFrom }
  | cancel : ThreadStepped reg s .cancel { s with spinning := false }

theorem threadStep_stepped {reg : Registry} {s s' : MultiThreaded} {e : ThreadStep}
    (h : threadStep reg s e = some s') : ThreadStepped reg s e s' := by
  cases e with
  | lock t alive =>
    simp only [threadStep] at h
    split at h
    · rename_i hcond
      cases hspinning : s.spinning with
      | true =>
        rw [if_pos hspinning] at h
        cases h
        exact .wait hcond.1 hcond.2 hspinning
      | false =>
        rw [if_neg (Bool.eq_false_iff.mp hspinning)] at h
        cases h
        exact .leave hcond.1 hcond.2 hspinning
    · cases h
  | select t w =>
    simp only [threadStep] at h
    split at h
    · rename_i hcond
      cases hspinning : s.spinning with
      | true =>
        rw [if_pos hspinning] at h
        cases h
        exact .select hcond.1 hcond.2 hspinning
      | false =>
        rw [if_neg (Bool.eq_false_iff.mp hspinning)] at h
        cases h
        exact .nothing hcond.1 hcond.2 hspinning
    · cases h
  | execute t =>
    simp only [threadStep] at h
    split at h
    · rename_i a ha
      cases h
      exact .execute ha
    · cases h
  | finish t =>
    simp only [threadStep] at h
    split at h
    · rename_i a ha
      cases h
      exact .finish ha
    · cases h
  | discard t =>
    simp only [threadStep] at h
    split at h
    · rename_i a ha
      cases h
      exact .discard ha
    · cases h
  | cancel =>
    cases h
    exact .cancel

/-- What a step does to the threads and the flags. -/
inductive StepEffect (reg : Registry) (s : MultiThreaded) (s' : MultiThreaded) : ThreadStep → Prop
  | move {e : ThreadStep} (t : Nat) (st : ThreadState) (threads : s'.threads = s.threads.set t st)
      (flags : s'.canBeTakenFrom = s.canBeTakenFrom)
      (busy : ∀ a, st = .selected a ∨ st = .executing a → s.threads[t]? = some (.selected a))
      (discarded : ∀ a, st = .discarding a → a = {}) : StepEffect reg s s' e
  | release {e : ThreadStep} (t : Nat) (a : AnyExecutable)
      (held : s.threads[t]? = some (.executing a) ∨ s.threads[t]? = some (.discarding a))
      (threads : s'.threads = s.threads.set t .idle)
      (flags : s'.canBeTakenFrom = a.release s.canBeTakenFrom) : StepEffect reg s s' e
  | select (t : Nat) (w : Wakeup) (spinning : s.spinning = true)
      (threads : s'.threads = s.threads.set t (if (w.next reg s).success then
        .selected (w.next reg s).selection.anyExecutable else .discarding (w.next reg s).selection.anyExecutable))
      (flags : s'.canBeTakenFrom = (w.next reg s).canBeTakenFrom) : StepEffect reg s s' (.select t w)
  | cancel {e : ThreadStep} (threads : s'.threads = s.threads) (flags : s'.canBeTakenFrom = s.canBeTakenFrom) :
      StepEffect reg s s' e

section
variable {reg : Registry} {s s' : MultiThreaded} {e : ThreadStep}

theorem threadStep_effect (h : threadStep reg s e = some s') : StepEffect reg s s' e := by
  cases threadStep_stepped h with
  | wait => exact .move _ .waiting rfl rfl (by simp) (by simp)
  | leave => exact .move _ .returned rfl rfl (by simp) (by simp)
  | select _ _ hspinning => exact .select _ _ hspinning rfl rfl
  | nothing => exact .move _ (.discarding {}) rfl rfl (by simp) (by simp)
  | execute ha =>
    refine .move _ _ rfl rfl (fun a' hst => ?_) (fun a' hst => ?_)
    · split at hst
      · rcases hst with hst | hst <;> cases hst
        exact ha
      · rcases hst with hst | hst <;> cases hst
    · split at hst <;> cases hst
  | finish ha => exact .release _ _ (Or.inl ha) rfl rfl
  | discard ha => exact .release _ _ (Or.inr ha) rfl rfl
  | cancel => exact .cancel rfl rfl

theorem busy_set {t t' : Nat} {st : ThreadState} {a : AnyExecutable} (hs : s'.threads = s.threads.set t st)
    (h : Busy s' t' a) : (t' = t ∧ (st = .selected a ∨ st = .executing a)) ∨ (t' ≠ t ∧ Busy s t' a) := by
  unfold Busy at h ⊢
  rw [hs] at h
  rcases h with h | h
  · rcases getElem?_set_cases h with ⟨rfl, hst⟩ | ⟨hne, h⟩
    · exact Or.inl ⟨rfl, Or.inl hst.symm⟩
    · exact Or.inr ⟨hne, Or.inl h⟩
  · rcases getElem?_set_cases h with ⟨rfl, hst⟩ | ⟨hne, h⟩
    · exact Or.inl ⟨rfl, Or.inr hst.symm⟩
    · exact Or.inr ⟨hne, Or.inr h⟩

/-- Threads become busy by a selection only. -/
theorem busy_step (he : StepEffect reg s s' e) {t : Nat} {a : AnyExecutable} (hb : Busy s' t a) :
    Busy s t a ∨ ∃ w, e = .select t w ∧ s.spinning = true ∧ (w.next reg s).success = true ∧
      a = (w.next reg s).selection.anyExecutable := by
  cases he with
  | move t₀ st hthreads _ hbusy _ =>
    rcases busy_set hthreads hb with ⟨rfl, hst⟩ | ⟨_, hb⟩
    · exact Or.inl (Or.inl (hbusy a hst))
    · exact Or.inl hb
  | release t₀ a₀ _ hthreads _ =>
    rcases busy_set hthreads hb with ⟨_, hst | hst⟩ | ⟨_, hb⟩
    · cases hst
    · cases hst
    · exact Or.inl hb
  | select t₀ w hspinning hthreads _ =>
    rcases busy_set hthreads hb with ⟨rfl, hst⟩ | ⟨_, hb⟩
    · refine Or.inr ⟨w, rfl, hspinning, ?_⟩
      split at hst
      · rename_i hs
        rcases hst with hst | hst <;> cases hst
        exact ⟨hs, rfl⟩
      · rcases hst with hst | hst <;> cases hst
    · exact Or.inl hb
  | cancel hthreads _ =>
    unfold Busy at hb ⊢
    rw [hthreads] at hb
    exact Or.inl hb

/-! ## One step -/

theorem Guarded.weaken (h : Guarded reg s) (hbusy : ∀ t a, Busy s' t a → Busy s t a)
    (hdiscard : ∀ (t : Nat) (a : AnyExecutable), s'.threads[t]? = some (ThreadState.discarding a) →
      a.callbackGroup = none)
    (hflags : ∀ t a g, Busy s' t a → a.callbackGroup = some g → g.type = .mutuallyExclusive →
      s'.canBeTakenFrom g.id = s.canBeTakenFrom g.id) : Guarded reg s' where
  known t a g hb := h.known t a g (hbusy t a hb)
  held t a g hb hg hm := (hflags t a g hb hg hm).trans (h.held t a g (hbusy t a hb) hg hm)
  alone t t' a a' g g' hb hb' := h.alone t t' a a' g g' (hbusy t a hb) (hbusy t' a' hb')
  discarded := hdiscard
  single t a k k' e e' hb := h.single t a k k' e e' (hbusy t a hb)

theorem Guarded.discarded_set (h : Guarded reg s) {t : Nat} {st : ThreadState}
    (hs : s'.threads = s.threads.set t st) (hst : ∀ a, st = .discarding a → a.callbackGroup = none) :
    ∀ (t' : Nat) (a : AnyExecutable), s'.threads[t']? = some (ThreadState.discarding a) → a.callbackGroup = none := by
  intro t' a ha
  rw [hs] at ha
  rcases getElem?_set_cases ha with ⟨_, he⟩ | ⟨_, ha⟩
  · exact hst a he.symm
  · exact h.discarded t' a ha

theorem Guarded.release (h : Guarded reg s) {t : Nat} {a : AnyExecutable}
    (held : s.threads[t]? = some (.executing a) ∨ s.threads[t]? = some (.discarding a))
    (threads : s'.threads = s.threads.set t .idle) (flags : s'.canBeTakenFrom = a.release s.canBeTakenFrom) :
    Guarded reg s' := by
  have hbusy : ∀ t' a', Busy s' t' a' → t' ≠ t ∧ Busy s t' a' := by
    intro t' a' hb
    rcases busy_set threads hb with ⟨_, hst | hst⟩ | hb
    · cases hst
    · cases hst
    · exact hb
  refine h.weaken (fun t' a' hb => (hbusy t' a' hb).2) (h.discarded_set threads (by simp)) ?_
  intro t' a' g' hb hg' hm
  rw [flags]
  unfold AnyExecutable.release
  cases hg : a.callbackGroup with
  | none => rfl
  | some g =>
    rcases held with hexec | hdis
    · refine if_neg fun hid => (hbusy t' a' hb).1 ?_
      exact h.alone t' t a' a g' g (hbusy t' a' hb).2 (Or.inr hexec) hg' hg hm hid
    · rw [h.discarded t a hdis] at hg
      cases hg

theorem next_cases (hn : reg.NonNegative) (w : Wakeup) :
    NothingReady (w.context reg s.canBeTakenFrom) (w.handles s) (w.next reg s) ∨
      ∃ x y, Taken (w.context reg s.canBeTakenFrom) (w.handles s) x y (w.next reg s) :=
  (nextReady_cases rfl (hn.locked w.alive)).1

theorem candidate_group {w : Wakeup} {m : MemoryStrategy} {x : Candidate}
    (hx : x ∈ (w.context reg s.canBeTakenFrom).candidates m) :
    ∃ p ∈ reg.groups, p.1.id = x.group.id ∧ p.1.type = x.group.type ∧ x.entity ∈ p.1.ptrs x.kind := by
  obtain ⟨⟨node, hmem⟩, hin, _⟩ := candidates_found hx
  obtain ⟨p, hp, hid, htype, hsub⟩ := locked_group hmem
  exact ⟨p, hp, hid, htype, hsub _ _ hin⟩

theorem Guarded.select (h : Guarded reg s) {t : Nat} {w : Wakeup} {x y : Candidate}
    (htaken : Taken (w.context reg s.canBeTakenFrom) (w.handles s) x y (w.next reg s))
    (threads : s'.threads = s.threads.set t (.selected (w.next reg s).selection.anyExecutable))
    (flags : s'.canBeTakenFrom = (w.next reg s).canBeTakenFrom) : Guarded reg s' := by
  have hy := lastProbed_candidates htaken.last
  have hfree : s.canBeTakenFrom y.group.id = true := (candidates_found hy).2.2
  have hbusy : ∀ {t' a}, Busy s' t' a →
      (t' = t ∧ a = (w.next reg s).selection.anyExecutable) ∨ (t' ≠ t ∧ Busy s t' a) := by
    intro t' a hb
    rcases busy_set threads hb with ⟨rfl, hst | hst⟩ | hb
    · cases hst; exact Or.inl ⟨rfl, rfl⟩
    · cases hst
    · exact Or.inr hb
  -- a group that another thread holds is marked, and `y`'s is not
  have hother : ∀ {t' a g}, Busy s t' a → a.callbackGroup = some g → g.type = .mutuallyExclusive →
      g.id ≠ y.group.id := by
    intro t' a g hb hg hm hid
    have hheld := h.held t' a g hb hg hm
    rw [hid, hfree] at hheld
    cases hheld
  have htype : ∀ {t' a g}, Busy s t' a → a.callbackGroup = some g → g.id = y.group.id → g.type = y.group.type := by
    intro t' a g hb hg hid
    obtain ⟨p, hp, hpid, hpt⟩ := h.known t' a g hb hg
    obtain ⟨q, hq, hqid, hqt, _⟩ := candidate_group hy
    rw [← hpt, ← hqt, reg.eq_of_id hp hq (hpid.trans (hid.trans hqid.symm))]
  refine ⟨?_, ?_, ?_, h.discarded_set threads (by simp), ?_⟩
  · intro t' a g hb hg
    rcases hbusy hb with ⟨_, rfl⟩ | ⟨_, hb⟩
    · cases htaken.callbackGroup.symm.trans hg
      obtain ⟨p, hp, hid, htype, _⟩ := candidate_group hy
      exact ⟨p, hp, hid, htype⟩
    · exact h.known t' a g hb hg
  · intro t' a g hb hg hm
    rw [flags, htaken.canBeTakenFrom]
    rcases hbusy hb with ⟨_, rfl⟩ | ⟨_, hb⟩
    · cases htaken.callbackGroup.symm.trans hg
      rw [if_pos hm]
      exact if_pos rfl
    · split
      · exact (if_neg (hother hb hg hm)).trans (h.held t' a g hb hg hm)
      · exact h.held t' a g hb hg hm
  · intro t₁ t₂ a₁ a₂ g₁ g₂ hb₁ hb₂ hg₁ hg₂ hm hid
    rcases hbusy hb₁ with ⟨rfl, rfl⟩ | ⟨_, hb₁⟩ <;> rcases hbusy hb₂ with ⟨rfl, rfl⟩ | ⟨_, hb₂⟩
    · rfl
    · cases htaken.callbackGroup.symm.trans hg₁
      exact absurd hid.symm (hother hb₂ hg₂ ((htype hb₂ hg₂ hid.symm).trans hm))
    · cases htaken.callbackGroup.symm.trans hg₂
      exact absurd hid (hother hb₁ hg₁ hm)
    · exact h.alone t₁ t₂ a₁ a₂ g₁ g₂ hb₁ hb₂ hg₁ hg₂ hm hid
  · intro t' a k k' e e' hb hk hk'
    rcases hbusy hb with ⟨_, rfl⟩ | ⟨_, hb⟩
    · rw [htaken.entity] at hk hk'
      split at hk <;> split at hk' <;> simp_all
    · exact h.single t' a k k' e e' hb hk hk'

theorem Guarded.step (hn : reg.NonNegative) (h : Guarded reg s) (he : StepEffect reg s s' e) : Guarded reg s' := by
  cases he with
  | move t st threads flags busy discarded =>
    refine h.weaken (fun t' a hb => ?_) (h.discarded_set threads fun a ha => by rw [discarded a ha]) ?_
    · rcases busy_set threads hb with ⟨rfl, hst⟩ | ⟨_, hb⟩
      · exact Or.inl (busy a hst)
      · exact hb
    · intro t' a g _ _ _
      rw [flags]
  | release t a held threads flags => exact h.release held threads flags
  | select t w _ threads flags =>
    rcases next_cases hn w with hnone | ⟨x, y, htaken⟩
    · rw [hnone.success, hnone.anyExecutable] at threads
      refine h.weaken (fun t' a hb => ?_) (h.discarded_set threads fun a ha => ?_) ?_
      · rcases busy_set threads hb with ⟨_, hst | hst⟩ | ⟨_, hb⟩
        · cases hst
        · cases hst
        · exact hb
      · cases ha
        rfl
      · intro t' a g _ _ _
        rw [flags, hnone.canBeTakenFrom]
        rfl
    · rw [htaken.success] at threads
      exact h.select htaken threads flags
  | cancel threads flags =>
    refine h.weaken (fun t a hb => ?_) (fun t a ha => h.discarded t a (threads ▸ ha)) ?_
    · unfold Busy at hb ⊢
      rwa [threads] at hb
    · intro t a g _ _ _
      rw [flags]

end

/-! ## Mutual exclusion -/

/-- The callback taken is of a reentrant group, or of the group that is marked:
the one of the best callback of the last kind that has an eligible one. -/
def Context.MarksTaken (c : Context) (m : MemoryStrategy) : Prop :=
  ∀ x ∈ c.first m, x.group.type = .mutuallyExclusive → ∀ y ∈ c.lastProbed m, y.group.id = x.group.id

instance {c : Context} {m : MemoryStrategy} : Decidable (c.MarksTaken m) :=
  inferInstanceAs (Decidable (∀ x ∈ c.first m, x.group.type = .mutuallyExclusive →
    ∀ y ∈ c.lastProbed m, y.group.id = x.group.id))

/-- While the executor spins: once stopped, it selects nothing. -/
def ThreadStep.MarksTaken (reg : Registry) (s : MultiThreaded) : ThreadStep → Prop
  | .select _ w => s.spinning = true → (w.context reg s.canBeTakenFrom).MarksTaken (w.handles s)
  | _ => True

instance {reg : Registry} {s : MultiThreaded} : ∀ e : ThreadStep, Decidable (e.MarksTaken reg s)
  | .select _ w => inferInstanceAs (Decidable (s.spinning = true → (w.context reg s.canBeTakenFrom).MarksTaken (w.handles s)))
  | .lock _ _ | .execute _ | .finish _ | .discard _ | .cancel => inferInstanceAs (Decidable True)

def HoldsOwn (reg : Registry) (s : MultiThreaded) : Prop :=
  ∀ t a k e p, Busy s t a → a.entity k = some e → p ∈ reg.groups → e ∈ p.1.ptrs k →
    p.1.type = .mutuallyExclusive → ∃ g, a.callbackGroup = some g ∧ g.id = p.1.id

section
variable {reg : Registry} {s s' : MultiThreaded} {e : ThreadStep}

theorem holdsOwn_step (hn : reg.NonNegative) (h : HoldsOwn reg s) (hmark : e.MarksTaken reg s)
    (he : StepEffect reg s s' e) : HoldsOwn reg s' := by
  intro t a k exec p hb hk hp hin hm
  rcases busy_step he hb with hb | ⟨w, rfl, hspinning, hs, rfl⟩
  · exact h t a k exec p hb hk hp hin hm
  rcases next_cases hn w with hnone | ⟨x, y, htaken⟩
  · rw [hnone.success] at hs
    cases hs
  rw [htaken.entity] at hk
  split at hk
  · rename_i hkind
    cases hk
    subst hkind
    obtain ⟨q, hq, hid, htype, hmem⟩ := candidate_group (mem_of_best htaken.first)
    cases reg.eq_of_entity hp hq hin hmem
    refine ⟨y.group, htaken.callbackGroup, ?_⟩
    exact (hmark hspinning x htaken.first (htype ▸ hm) y htaken.last).trans hid.symm
  · cases hk

theorem executing_busy {t : Nat} {k : Kind} {e : Executable} (h : s.executing t k = some e) :
    ∃ a, s.threads[t]? = some (.executing a) ∧ a.entity k = some e := by
  unfold MultiThreaded.executing at h
  split at h
  · exact ⟨_, by assumption, h⟩
  · cases h

theorem groupsExclusive_of_holdsOwn (hg : Guarded reg s) (ho : HoldsOwn reg s) : GroupsExclusive reg s := by
  intro p hp hm t t' k k' e e' hexec hexec' hin hin'
  obtain ⟨a, ha, hk⟩ := executing_busy hexec
  obtain ⟨a', ha', hk'⟩ := executing_busy hexec'
  obtain ⟨g, hga, hgid⟩ := ho t a k e p (Or.inr ha) hk hp hin hm
  obtain ⟨g', hga', hgid'⟩ := ho t' a' k' e' p (Or.inr ha') hk' hp hin' hm
  obtain ⟨q, hq, hqid, hqt⟩ := hg.known t a g (Or.inr ha) hga
  cases reg.eq_of_id hq hp (hqid.trans hgid)
  have ht := hg.alone t t' a a' g g' (Or.inr ha) (Or.inr ha') hga hga' (hqt ▸ hm) (hgid.trans hgid'.symm)
  subst ht
  cases ha.symm.trans ha'
  exact ⟨rfl, hg.single t a k k' e e' (Or.inr ha) hk hk'⟩

theorem not_busy_multiThreaded {n t : Nat} {a : AnyExecutable} : ¬ Busy (multiThreaded n) t a := by
  rintro (h | h) <;>
  · rw [multiThreaded, List.getElem?_replicate] at h
    split at h <;> cases h

theorem guarded_multiThreaded (n : Nat) : Guarded reg (multiThreaded n) where
  known _ _ _ hb := absurd hb not_busy_multiThreaded
  held _ _ _ hb := absurd hb not_busy_multiThreaded
  alone _ _ _ _ _ _ hb := absurd hb not_busy_multiThreaded
  discarded t a h := by
    rw [multiThreaded, List.getElem?_replicate] at h
    split at h <;> cases h
  single _ _ _ _ _ _ hb := absurd hb not_busy_multiThreaded

end

/-- **Mutual exclusion**: in every run whose selections mark the group of the
callback that they take, no two threads are in callbacks of one mutually
exclusive group. -/
theorem multiThreaded_exclusive (reg : Registry) (hn : reg.NonNegative) (numberOfThreads : Nat)
    (steps : List ThreadStep) (s : MultiThreaded)
    (hmeet : StepsMeet (threadStep reg) (fun s e => e.MarksTaken reg s) (multiThreaded numberOfThreads) steps)
    (hrun : runSteps (threadStep reg) (multiThreaded numberOfThreads) steps = some s) : GroupsExclusive reg s := by
  have hinv : Guarded reg s ∧ HoldsOwn reg s := by
    refine run_invariant_meeting (P := fun s => Guarded reg s ∧ HoldsOwn reg s) ?_ steps
      ⟨guarded_multiThreaded numberOfThreads, ?_⟩ hmeet hrun
    · intro s e s' hs hmark hstep
      have heffect := threadStep_effect hstep
      exact ⟨hs.1.step hn heffect, holdsOwn_step hn hs.2 hmark heffect⟩
    · intro t a k e p hb
      exact absurd hb not_busy_multiThreaded
  exact groupsExclusive_of_holdsOwn hinv.1 hinv.2

def timersAndSubscription : Registry where
  groups := [
    ({ id := 0, type := .mutuallyExclusive, timerPtrs := [⟨1, 5⟩, ⟨2, 4⟩] }, 0),
    ({ id := 1, type := .mutuallyExclusive, subscriptionPtrs := [⟨3, 3⟩] }, 1)]
  apart := by decide
  nodup := by decide

def takesUp (t : Nat) (handles : List Nat) : List ThreadStep :=
  [.lock t {}, .select t { ready := fun _ handle => handle ∈ handles }, .execute t]

/-- The first timer and the subscription are in execution together. -/
theorem separateGroups_exclusive :
    ∃ s, runSteps (threadStep timersAndSubscription) (multiThreaded 2) (takesUp 0 [1] ++ takesUp 1 [3]) = some s ∧
      s.executing 0 .timer = some ⟨1, 5⟩ ∧ s.executing 1 .subscription = some ⟨3, 3⟩ ∧
      GroupsExclusive timersAndSubscription s := by
  have hrun : (runSteps (threadStep timersAndSubscription) (multiThreaded 2) (takesUp 0 [1] ++ takesUp 1 [3])).any
      (fun s => s.executing 0 .timer = some ⟨1, 5⟩ ∧ s.executing 1 .subscription = some ⟨3, 3⟩) := by
    decide
  obtain ⟨s, hs, hexec⟩ := (Option.any_eq_true _ _).mp hrun
  obtain ⟨h0, h1⟩ := of_decide_eq_true hexec
  exact ⟨s, hs, h0, h1, multiThreaded_exclusive timersAndSubscription (by decide) 2 _ s (by decide) hs⟩

/-- The subscription loses to the first timer and leaves its group in place of
the timer's, so that another thread may take the second timer. -/
theorem bothTimers_overlap :
    timersAndSubscription.NonNegative ∧
      ∃ s, runSteps (threadStep timersAndSubscription) (multiThreaded 2) (takesUp 0 [1, 3] ++ takesUp 1 [2]) = some s ∧
        s.executing 0 .timer = some ⟨1, 5⟩ ∧ s.executing 1 .timer = some ⟨2, 4⟩ ∧
        ¬ GroupsExclusive timersAndSubscription s := by
  have hrun : (runSteps (threadStep timersAndSubscription) (multiThreaded 2)
      (takesUp 0 [1, 3] ++ takesUp 1 [2])).any
      (fun s => s.executing 0 .timer = some ⟨1, 5⟩ ∧ s.executing 1 .timer = some ⟨2, 4⟩) := by
    decide
  obtain ⟨s, hs, hexec⟩ := (Option.any_eq_true _ _).mp hrun
  obtain ⟨h0, h1⟩ := of_decide_eq_true hexec
  refine ⟨by decide, s, hs, h0, h1, fun hexcl => ?_⟩
  have h := hexcl _ (List.mem_cons_self ..) rfl 0 1 .timer .timer _ _ h0 h1 (by decide) (by decide)
  exact absurd h.1 (by decide)

/-! ## Timer activations -/

section
variable {reg : Registry}

def collectGroup (k : Kind) (alive : Alive) (canBeTakenFrom : Nat → Bool) (p : CallbackGroup × Nat) :
    List Executable :=
  collectKind k [(if alive.group p.1.id then some (p.1.restrict alive) else none,
    if alive.node p.2 then some p.2 else none)] canBeTakenFrom

theorem collectGroup_sublist (k : Kind) (alive : Alive) (canBeTakenFrom : Nat → Bool) (p : CallbackGroup × Nat) :
    (collectGroup k alive canBeTakenFrom p).Sublist (p.1.ptrs k) := by
  rw [collectGroup, collectKind, List.flatMap_singleton]
  split
  · rename_i g node heq
    have hg := congrArg Prod.fst heq
    simp only at hg
    split at hg
    · cases hg
      split
      · rw [ptrs_restrict]
        exact List.filter_sublist
      · exact List.nil_sublist _
    · cases hg
  · exact List.nil_sublist _

theorem collectKind_nodup (k : Kind) (alive : Alive) (canBeTakenFrom : Nat → Bool) :
    ((collectKind k (reg.weakGroupsToNodes alive) canBeTakenFrom).map (·.handle)).Nodup := by
  have hsub := fun p => (collectGroup_sublist k alive canBeTakenFrom p).map (·.handle)
  have hcollect : (collectKind k (reg.weakGroupsToNodes alive) canBeTakenFrom).map (·.handle) =
      reg.groups.flatMap fun p => (collectGroup k alive canBeTakenFrom p).map (·.handle) := by
    simp only [collectKind, Registry.weakGroupsToNodes, List.flatMap_map, List.map_flatMap, collectGroup,
      List.flatMap_singleton]
  rw [hcollect, List.nodup_flatMap]
  refine ⟨fun p hp => (hsub p).nodup (reg.nodup p hp k), reg.apart.imp fun {p q} hpq handle hp hq => ?_⟩
  obtain ⟨e, he, rfl⟩ := List.mem_map.mp ((hsub p).subset hp)
  obtain ⟨f, hf, hef⟩ := List.mem_map.mp ((hsub q).subset hq)
  exact hpq.2 k e he f hf hef.symm

theorem handles_nodup (i : SpinOnce) (s : SingleThreaded) : (i.handles reg s).timerHandles.Nodup :=
  (collectKind_nodup .timer i.collected s.canBeTakenFrom).filter _

theorem eligible_nodup {c : Context} {m : MemoryStrategy} (h : m.timerHandles.Nodup) :
    ((c.eligible m .timer).map (·.entity.handle)).Nodup := by
  have hcallable : ((c.callable m).map (·.entity.handle)).Nodup := by
    rw [Context.callable, Context.scan, List.map_filterMap]
    refine h.filterMap fun a a' b hb hb' => ?_
    have hhandle : ∀ {a b : Nat}, b ∈ Option.map (·.entity.handle) ((getEntityByHandle .timer a
        c.weakGroupsToNodes).bind (c.candidate .timer)) → a = b := by
      intro a b hb
      obtain ⟨x, hx, rfl⟩ := Option.map_eq_some_iff.mp hb
      obtain ⟨e, he, hx⟩ := Option.bind_eq_some_iff.mp hx
      obtain ⟨g, _, hx⟩ := Option.bind_eq_some_iff.mp hx
      split at hx
      · cases hx
        exact (getEntityByHandle_handle he).symm
      · cases hx
    exact (hhandle hb).trans (hhandle hb').symm
  exact (List.filter_sublist.map _).nodup hcallable

end

def Context.executes (c : Context) (m : MemoryStrategy) (spinning : Bool) : List (Kind × Nat) :=
  if spinning then (c.first m).toList.map fun x => (x.kind, x.entity.handle) else []

section
variable {c : Context} {m : MemoryStrategy}

theorem mem_executes {spinning : Bool} {k : Kind} {handle : Nat} : (k, handle) ∈ c.executes m spinning ↔
    spinning = true ∧ ∃ x, c.first m = some x ∧ x.kind = k ∧ x.entity.handle = handle := by
  unfold Context.executes
  cases spinning with
  | false => simp
  | true =>
    cases c.first m with
    | none => simp
    | some x => simp [eq_comm]

theorem executes_le (spinning : Bool) (timer : Nat) :
    (c.executes m spinning).count (.timer, timer) ≤ ((c.eligible m .timer).map (·.entity.handle)).count timer := by
  by_cases hmem : (Kind.timer, timer) ∈ c.executes m spinning
  · have hone : (c.executes m spinning).count (.timer, timer) ≤ 1 := by
      refine List.count_le_length.trans ?_
      unfold Context.executes
      split
      · cases c.first m <;> simp
      · exact Nat.zero_le _
    obtain ⟨_, x, hx, hkind, rfl⟩ := mem_executes.mp hmem
    have hxe := hkind ▸ eligible_of_kind (mem_of_best hx)
    exact hone.trans (List.one_le_count_iff.mpr (List.mem_map.mpr ⟨x, hxe, rfl⟩))
  · rw [List.count_eq_zero.mpr hmem]
    exact Nat.zero_le _

/-- A selection consumes what it executes exactly if its timer comes first and is executed. -/
theorem consumes_executes_iff (spinning : Bool) (h : ((c.eligible m .timer).map (·.entity.handle)).Nodup) :
    (∀ timer, ((c.eligible m .timer).map (·.entity.handle)).count timer =
      (c.executes m spinning).count (.timer, timer)) ↔
    c.TimerFirst m ∧ (c.eligible m .timer ≠ [] → spinning = true) := by
  constructor
  · intro hcount
    have htimer : ∀ t ∈ c.eligible m .timer, spinning = true ∧ ∃ x, c.first m = some x ∧ x.kind = .timer ∧
        x.entity.handle = t.entity.handle := by
      intro t ht
      refine mem_executes.mp (List.one_le_count_iff.mp ?_)
      rw [← hcount]
      exact List.one_le_count_iff.mpr (List.mem_map.mpr ⟨t, ht, rfl⟩)
    refine ⟨fun t ht => ?_, fun hne => ?_⟩
    · obtain ⟨_, x, hx, hkind, hhandle⟩ := htimer t ht
      refine ⟨fun u hu => ?_, fun k _ => (le_taken_timer hx hkind ht hhandle).2 k⟩
      obtain ⟨_, x', hx', _, hhandle'⟩ := htimer u hu
      cases hx.symm.trans hx'
      exact hhandle'.symm.trans hhandle
    · obtain ⟨t, ht⟩ := List.exists_mem_of_ne_nil _ hne
      exact (htimer t ht).1
  · rintro ⟨hfirst, hspin⟩ timer
    refine Nat.le_antisymm ?_ (executes_le spinning timer)
    by_cases hmem : timer ∈ (c.eligible m .timer).map (·.entity.handle)
    · refine (List.nodup_iff_count_le_one.mp h timer).trans (List.one_le_count_iff.mpr ?_)
      obtain ⟨t, ht, rfl⟩ := List.mem_map.mp hmem
      obtain ⟨x, hxe, hx, hhandle⟩ := TimerFirst.first hfirst ht
      exact mem_executes.mpr ⟨hspin (List.ne_nil_of_mem ht), x, hx, eligible_kind hxe, hhandle⟩
    · rw [List.count_eq_zero.mpr hmem]
      exact Nat.zero_le _

end

/-! ## Runs of the single-threaded executor -/

/-- The timer of a pass comes first, and the executor is not stopped before it executes it. -/
def SpinOnce.KeepsTimer (i : SpinOnce) (reg : Registry) (s : SingleThreaded) : Prop :=
  i.spinningAfterWait = true →
    (i.wakeup.context reg s.canBeTakenFrom).TimerFirst (i.handles reg s) ∧
      ((i.wakeup.context reg s.canBeTakenFrom).eligible (i.handles reg s) .timer ≠ [] →
        i.spinningBeforeExecute = true)

section
variable {reg : Registry} {s s' : SingleThreaded} {i : SpinOnce}

instance : Decidable (i.KeepsTimer reg s) :=
  inferInstanceAs (Decidable (_ = true → _ ∧ (_ ≠ [] → _ = true)))

theorem callbacks_taken {a : AnyExecutable} {x : Candidate}
    (h : ∀ k, a.entity k = if k = x.kind then some x.entity else none) :
    a.callbacks = [(x.kind, x.entity.handle)] := by
  unfold AnyExecutable.callbacks
  simp only [h]
  cases x.kind <;> rfl

/-- **One pass** consumes the expiries of the eligible timers and executes what it takes. -/
theorem spinOnce_effect (hn : reg.NonNegative) (hs : i.spinningAfterWait = true)
    (h : spinOnce reg s i = some s') :
    s'.consumed = s.consumed ++
      ((i.wakeup.context reg s.canBeTakenFrom).eligible (i.handles reg s) .timer).map (·.entity.handle) ∧
    s'.executed = s.executed ++
      (i.wakeup.context reg s.canBeTakenFrom).executes (i.handles reg s) i.spinningBeforeExecute := by
  obtain ⟨hcases, hcalls⟩ := nextReady_cases (c := i.wakeup.context reg s.canBeTakenFrom)
    (m := i.handles reg s) rfl (hn.locked i.wakeup.alive)
  simp only [spinOnce, hs, Bool.not_true, Bool.false_eq_true, if_false, Option.some.injEq] at h
  subst h
  constructor
  · simp only [hcalls]
    rw [List.filter_map, List.map_map]
    rfl
  · simp only [Context.executes]
    rcases hcases with hnone | ⟨x, y, htaken⟩
    · have hfirst : (i.wakeup.context reg s.canBeTakenFrom).first (i.handles reg s) = none := by
        rw [Context.first, hnone.none_eligible]
        rfl
      rw [hnone.success, hfirst]
      simp
    · rw [htaken.success, htaken.first, callbacks_taken htaken.entity]
      cases i.spinningBeforeExecute <;> simp

theorem spinOnce_balance (hn : reg.NonNegative) (h : spinOnce reg s i = some s')
    (hle : ∀ timer, s.executed.count (.timer, timer) ≤ s.consumed.count timer) :
    (∀ timer, s'.executed.count (.timer, timer) ≤ s'.consumed.count timer) ∧
    ((∀ timer, s'.consumed.count timer = s'.executed.count (.timer, timer)) ↔
      (∀ timer, s.consumed.count timer = s.executed.count (.timer, timer)) ∧ i.KeepsTimer reg s) := by
  cases hs : i.spinningAfterWait with
  | false =>
    have heq : s' = s := by
      rw [spinOnce, hs] at h
      exact (Option.some.inj h).symm
    subst heq
    exact ⟨hle, fun hc => ⟨hc, fun h => by rw [hs] at h; cases h⟩, fun hc => hc.1⟩
  | true =>
    obtain ⟨hconsumed, hexecuted⟩ := spinOnce_effect hn hs h
    simp only [hconsumed, hexecuted, List.count_append]
    have hpass := executes_le (c := i.wakeup.context reg s.canBeTakenFrom) (m := i.handles reg s)
      i.spinningBeforeExecute
    have hiff := consumes_executes_iff (c := i.wakeup.context reg s.canBeTakenFrom) (m := i.handles reg s)
      i.spinningBeforeExecute (eligible_nodup (handles_nodup i s))
    refine ⟨fun timer => Nat.add_le_add (hle timer) (hpass timer), fun hc => ?_, ?_⟩
    · refine ⟨fun timer => ?_, fun _ => hiff.mp fun timer => ?_⟩
      · have := hc timer; have := hle timer; have := hpass timer
        omega
      · have := hc timer; have := hle timer; have := hpass timer
        omega
    · rintro ⟨hc, hkeep⟩ timer
      rw [hc timer, hiff.mpr (hkeep hs) timer]

theorem spin_balance (hn : reg.NonNegative) : ∀ (passes : List SpinOnce) {s s' : SingleThreaded},
    runSteps (spinOnce reg) s passes = some s' →
    (∀ timer, s.executed.count (.timer, timer) ≤ s.consumed.count timer) →
    ((∀ timer, s'.consumed.count timer = s'.executed.count (.timer, timer)) ↔
      (∀ timer, s.consumed.count timer = s.executed.count (.timer, timer)) ∧
        StepsMeet (spinOnce reg) (fun s i => i.KeepsTimer reg s) s passes)
  | [], s, s', h, _ => by
    cases h
    exact ⟨fun hc => ⟨hc, trivial⟩, fun hc => hc.1⟩
  | i :: passes, s, s', h, hle => by
    obtain ⟨t, ht, hr⟩ := runSteps_cons.mp h
    obtain ⟨hle', hiff⟩ := spinOnce_balance hn ht hle
    rw [spin_balance hn passes hr hle', hiff, StepsMeet, ht, and_assoc]
    rfl

end

/-- **Timer activations**. A call with priorities calls no timer but the one it
returns exactly if the ready timers are alone and come first; and over a run of
the single-threaded executor each timer's expiries are its executions exactly
if in every pass the timer comes first and is executed. -/
theorem timer_activations (c : Context) (m : MemoryStrategy) (hc : c.callbackPriorityEnabled = true)
    (hn : NonNegative c.weakGroupsToNodes) (reg : Registry) (hreg : reg.NonNegative) (passes : List SpinOnce)
    (s : SingleThreaded) (hrun : runSteps (spinOnce reg) {} passes = some s) :
    (CallsOnlyReturned (getNextReadyExecutableFromMap c { memoryStrategy := m }) ↔ c.TimerAlone m) ∧
    ((∀ timer, s.consumed.count timer = s.executed.count (.timer, timer)) ↔
      StepsMeet (spinOnce reg) (fun s i => i.KeepsTimer reg s) {} passes) := by
  refine ⟨callsOnlyReturned_iff hc hn, ?_⟩
  rw [spin_balance hreg passes hrun (fun _ => Nat.le_refl 0)]
  exact and_iff_right fun _ => rfl

def readyPass (handles : List Nat) : SpinOnce := { wakeup := { ready := fun _ handle => handle ∈ handles } }

def firstSelection (handles : List Nat) : NextReady :=
  getNextReadyExecutableFromMap ((readyPass handles).wakeup.context timersAndSubscription fun _ => true)
    { memoryStrategy := (readyPass handles).handles timersAndSubscription {} }

/-- One timer at a time, and a timer before a subscription of a lower priority. -/
theorem singleTimers_kept :
    CallsOnlyReturned (firstSelection [1, 3]) ∧
      ∃ s, runSteps (spinOnce timersAndSubscription) {} [readyPass [1, 3], readyPass [2], readyPass [3]] = some s ∧
        s.consumed = [1, 2] ∧ ∀ timer, s.consumed.count timer = s.executed.count (.timer, timer) := by
  have hrun : (runSteps (spinOnce timersAndSubscription) {} [readyPass [1, 3], readyPass [2], readyPass [3]]).any
      (fun s => s.consumed = [1, 2]) := by decide
  obtain ⟨s, hs, hconsumed⟩ := (Option.any_eq_true _ _).mp hrun
  have hn : timersAndSubscription.NonNegative := by decide
  obtain ⟨hcall, hkept⟩ := timer_activations ((readyPass [1, 3]).wakeup.context timersAndSubscription fun _ => true)
    ((readyPass [1, 3]).handles timersAndSubscription {}) rfl (hn.locked _) timersAndSubscription hn _ s hs
  exact ⟨hcall.mpr (by decide), s, hs, of_decide_eq_true hconsumed, hkept.mpr (by decide)⟩

/-- Of two timers that are ready together both are called and one is executed. -/
theorem secondTimer_lost :
    timersAndSubscription.NonNegative ∧ ¬ CallsOnlyReturned (firstSelection [1, 2]) ∧
      ∃ s, runSteps (spinOnce timersAndSubscription) {} [readyPass [1, 2]] = some s ∧
        s.consumed.count 2 = 1 ∧ s.executed.count (.timer, 2) = 0 := by
  have hrun : (runSteps (spinOnce timersAndSubscription) {} [readyPass [1, 2]]).any
      (fun s => s.consumed.count 2 = 1 ∧ s.executed.count (.timer, 2) = 0) := by decide
  obtain ⟨s, hs, hcounts⟩ := (Option.any_eq_true _ _).mp hrun
  exact ⟨by decide, by decide, s, hs, of_decide_eq_true hcounts⟩

end ReferenceSystem
