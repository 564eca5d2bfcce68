import ReferenceSystem.DefaultSound

/-!
# Threads, with and without priorities

Whichever way callbacks are selected, a selection marks a group that was free
and takes callbacks of groups that were. Without priorities the group marked is
that of the callback, so mutually exclusive groups exclude. A group that is
marked when the executor is stopped before the execution is never released, in
this spin or a later one.
-/

namespace ReferenceSystem

/-! ## What a step of a thread does -/

/-- A step of some thread: `own` if selections mark the group of the callback
that they take, and `stopped` for a thread that does not execute what it has selected. -/
inductive ThreadEffect (reg : Registry) (own : Prop) (stopped : Nat → Prop) (s s' : MultiThreaded) : Prop
  | move (t : Nat) (st : ThreadState) (threads : s'.threads = s.threads.set t st)
      (flags : s'.canBeTakenFrom = s.canBeTakenFrom)
      (busy : ∀ a, st = .selected a ∨ st = .executing a → s.threads[t]? = some (.selected a))
      (discarded : ∀ a, st = .discarding a → a = {})
      (kept : ∀ a, Busy s t a → s.threads[t]? = some (.selected a) ∧ (st = .executing a ∨ stopped t))
  | release (t : Nat) (a : AnyExecutable)
      (held : s.threads[t]? = some (.executing a) ∨ s.threads[t]? = some (.discarding a))
      (threads : s'.threads = s.threads.set t .idle)
      (flags : s'.canBeTakenFrom = a.release s.canBeTakenFrom)
  | select (t : Nat) (a : AnyExecutable) (g : CallbackGroup) (threads : s'.threads = s.threads.set t (.selected a))
      (free : s.canBeTakenFrom g.id = true)
      (flags : s'.canBeTakenFrom =
        if g.type = .mutuallyExclusive then storeFlag s.canBeTakenFrom g.id false else s.canBeTakenFrom)
      (group : a.callbackGroup = some g)
      (known : ∃ p ∈ reg.groups, p.1.id = g.id ∧ p.1.type = g.type)
      (single : ∀ k k' e e', a.entity k = some e → a.entity k' = some e' → k = k' ∧ e = e')
      (entity : ∀ k e, a.entity k = some e →
        ∃ p ∈ reg.groups, e ∈ p.1.ptrs k ∧ s.canBeTakenFrom p.1.id = true ∧ (own → p.1.id = g.id))
      (before : s.threads[t]? = some .idle ∨ s.threads[t]? = some .waiting)
  | cancel (threads : s'.threads = s.threads) (flags : s'.canBeTakenFrom = s.canBeTakenFrom)

section
variable {reg : Registry} {s s' : MultiThreaded}

theorem not_busy_before {t : Nat} (hbefore : s.threads[t]? = some .idle ∨ s.threads[t]? = some .waiting)
    (a : AnyExecutable) : ¬ Busy s t a := by
  rintro (h | h) <;> rcases hbefore with hb | hb <;> cases hb.symm.trans h

theorem not_executed {t : Nat} {a b : AnyExecutable} (ha : s.threads[t]? = some (.selected a)) (hb : Busy s t b) :
    b = a := by
  rcases hb with hb | hb <;> cases ha.symm.trans hb
  rfl

theorem candidate_known {c : Context} (alive : Alive) (hc : c.weakGroupsToNodes = reg.weakGroupsToNodes alive)
    {m : MemoryStrategy} {x : Candidate} (hx : x ∈ c.candidates m) :
    ∃ p ∈ reg.groups, p.1.id = x.group.id ∧ p.1.type = x.group.type ∧ x.entity ∈ p.1.ptrs x.kind ∧
      c.canBeTakenFrom p.1.id = true := by
  obtain ⟨⟨node, hmem⟩, hin, hfree⟩ := candidates_found hx
  rw [hc] at hmem
  obtain ⟨p, hp, hid, htype, hsub⟩ := locked_group hmem
  exact ⟨p, hp, hid, htype, hsub _ _ hin, hid ▸ hfree⟩

theorem entity_single {a : AnyExecutable} {x : Candidate}
    (h : ∀ k, a.entity k = if k = x.kind then some x.entity else none) {k k' : Kind} {e e' : Executable}
    (hk : a.entity k = some e) (hk' : a.entity k' = some e') : k = k' ∧ e = e' := by
  rw [h] at hk hk'
  split at hk <;> split at hk' <;> simp_all

/-- Where the executor is stopped, what was selected is not executed. -/
theorem execute_effect {own : Prop} {t : Nat} {a : AnyExecutable} {E : Type} {e : E} {execute : Nat → E}
    (ha : s.threads[t]? = some (.selected a)) (he : e = execute t)
    (hthreads : s'.threads = s.threads.set t (if s.spinning then .executing a else .idle))
    (hflags : s'.canBeTakenFrom = s.canBeTakenFrom) :
    ThreadEffect reg own (fun t => s.spinning = false ∧ e = execute t) s s' := by
  refine .move t _ hthreads hflags (fun a' hst => ?_) (fun a' hst => ?_) (fun a' hb => ?_)
  · split at hst
    · rcases hst with hst | hst <;> cases hst
      exact ha
    · rcases hst with hst | hst <;> cases hst
  · split at hst <;> cases hst
  · cases not_executed ha hb
    refine ⟨ha, ?_⟩
    split
    · exact Or.inl rfl
    · rename_i hspinning
      exact Or.inr ⟨Bool.eq_false_iff.mpr hspinning, he⟩

/-- **A step with priorities**. -/
theorem threadStep_threads (hn : reg.NonNegative) {e : ThreadStep} (h : threadStep reg s e = some s') :
    ThreadEffect reg False (fun t => s.spinning = false ∧ e = .execute t) s s' := by
  cases threadStep_stepped h with
  | wait hidle =>
    exact .move _ .waiting rfl rfl (by simp) (by simp) fun a hb => absurd hb (not_busy_before (Or.inl hidle) a)
  | leave hidle =>
    exact .move _ .returned rfl rfl (by simp) (by simp) fun a hb => absurd hb (not_busy_before (Or.inl hidle) a)
  | @select t w hwaiting =>
    rcases next_cases (s := s) hn w with hnone | ⟨x, y, htaken⟩
    · refine .move t (.discarding {}) ?_ hnone.canBeTakenFrom (by simp) (by simp)
        fun a hb => absurd hb (not_busy_before (Or.inr hwaiting) a)
      simp [MultiThreaded.setThread, hnone.success, hnone.anyExecutable]
    · obtain ⟨p, hp, hid, htype, _⟩ := candidate_known w.alive rfl (lastProbed_candidates htaken.last)
      refine .select t (w.next reg s).selection.anyExecutable y.group ?_
        (candidates_found (lastProbed_candidates htaken.last)).2.2 htaken.canBeTakenFrom htaken.callbackGroup
        ⟨p, hp, hid, htype⟩ (fun k k' e e' => entity_single htaken.entity) (fun k e hk => ?_) (Or.inr hwaiting)
      · simp [MultiThreaded.setThread, htaken.success]
      · rw [htaken.entity] at hk
        split at hk
        · rename_i hkind
          cases hk
          obtain ⟨q, hq, _, _, hin, hfree⟩ := candidate_known w.alive rfl (mem_of_best htaken.first)
          exact ⟨q, hq, hkind ▸ hin, hfree, False.elim⟩
        · cases hk
  | nothing hwaiting =>
    exact .move _ (.discarding {}) rfl rfl (by simp) (by simp)
      fun a hb => absurd hb (not_busy_before (Or.inr hwaiting) a)
  | execute ha => exact execute_effect ha rfl rfl rfl
  | finish ha => exact .release _ _ (Or.inl ha) rfl rfl
  | discard ha => exact .release _ _ (Or.inr ha) rfl rfl
  | cancel => exact .cancel rfl rfl

/-- A try without priorities: a selection, or nothing that has to be released. -/
theorem select_effect {s s' : MultiThreaded} (sight : Sight) {t : Nat} {m : MemoryStrategy} {r : NextReady}
    (hr : r = getNextReadyExecutableFromMap (sight.context false reg s.canBeTakenFrom) { memoryStrategy := m })
    (hbefore : s.threads[t]? = some .idle ∨ s.threads[t]? = some .waiting) (failed : ThreadState)
    (hfailed : failed = .waiting ∨ failed = .discarding r.selection.anyExecutable)
    (hthreads : s'.threads = s.threads.set t (if r.success then .selected r.selection.anyExecutable else failed))
    (hflags : s'.canBeTakenFrom = r.canBeTakenFrom) {stopped : Nat → Prop} : ThreadEffect reg True stopped s s' := by
  have h := nextReady_takesFirst (c := sight.context false reg s.canBeTakenFrom) rfl m
  rw [← hr] at h
  cases hx : ((sight.context false reg s.canBeTakenFrom).candidates m).head? with
  | none =>
    rw [hx] at h
    have hfail : r.success = false := h.success
    rw [hfail] at hthreads
    have hempty := h.nothing rfl
    refine .move t failed hthreads (hflags.trans h.canBeTakenFrom) (fun a ha => ?_) (fun a ha => ?_)
      fun a hb => absurd hb (not_busy_before hbefore a)
    · rcases hfailed with rfl | rfl <;> rcases ha with ha | ha <;> cases ha
    · rcases hfailed with rfl | rfl
      · cases ha
      · cases ha
        exact hempty
  | some x =>
    rw [hx] at h
    have hok : r.success = true := h.success
    rw [hok] at hthreads
    have hmem : x ∈ (sight.context false reg s.canBeTakenFrom).candidates m := List.mem_of_mem_head? hx
    obtain ⟨p, hp, hid, htype, hin, hfree⟩ := candidate_known sight.alive rfl hmem
    have hentity : ∀ k, r.selection.anyExecutable.entity k = if k = x.kind then some x.entity else none := h.entity
    refine .select t r.selection.anyExecutable x.group hthreads (candidates_found hmem).2.2
      (hflags.trans h.canBeTakenFrom) h.callbackGroup ⟨p, hp, hid, htype⟩
      (fun k k' e e' => entity_single hentity) (fun k e hk => ?_) hbefore
    rw [hentity] at hk
    split at hk
    · rename_i hkind
      cases hk
      exact ⟨p, hp, hkind ▸ hin, hfree, fun _ => hid⟩
    · cases hk

/-- What a step without priorities needs, and where it leads. -/
inductive DefaultStepped (reg : Registry) (s : DefaultThreads) : DefaultStep → DefaultThreads → Prop
  | selectFirst {t : Nat} {sight : Sight} {next : NextReady} (idle : s.threads[t]? = some .idle)
      (free : s.waitMutex = none) (spinning : s.spinning = true)
      (tried : next = getNextReadyExecutableFromMap (sight.context false reg s.canBeTakenFrom)
        { memoryStrategy := s.memoryStrategy }) (success : next.success = true) :
      DefaultStepped reg s (.tryFirst t sight) { s with toMultiThreaded := s.toMultiThreaded.select t next }
  | wait {t : Nat} {sight : Sight} {next : NextReady} (idle : s.threads[t]? = some .idle)
      (free : s.waitMutex = none) (spinning : s.spinning = true)
      (tried : next = getNextReadyExecutableFromMap (sight.context false reg s.canBeTakenFrom)
        { memoryStrategy := s.memoryStrategy }) (success : next.success = false) :
      DefaultStepped reg s (.tryFirst t sight)
        { s.setThread t .waiting with
          waitMutex := some t
          memoryStrategy := next.selection.memoryStrategy
          collected := false }
  | leave {t : Nat} {sight : Sight} (idle : s.threads[t]? = some .idle) (free : s.waitMutex = none)
      (stopped : s.spinning = false) :
      DefaultStepped reg s (.tryFirst t sight) { s with toMultiThreaded := s.setThread t .returned }
  | collect {t : Nat} {alive : Alive} (waiting : s.threads[t]? = some .waiting) (held : s.waitMutex = some t)
      (before : s.collected = false) : DefaultStepped reg s (.collect t alive)
        { s with
          memoryStrategy := collectEntities (reg.weakGroupsToNodes alive) s.canBeTakenFrom
          collected := true }
  | selectSecond {t : Nat} {ready : Kind → Nat → Bool} {sight : Sight} {next : NextReady}
      (waiting : s.threads[t]? = some .waiting) (held : s.waitMutex = some t) (after : s.collected = true)
      (spinning : s.spinning = true)
      (tried : next = getNextReadyExecutableFromMap (sight.context false reg s.canBeTakenFrom)
        { memoryStrategy := s.memoryStrategy.removeNullHandles ready }) :
      DefaultStepped reg s (.trySecond t ready sight) { s with toMultiThreaded := s.toMultiThreaded.select t next }
  | nothing {t : Nat} {ready : Kind → Nat → Bool} {sight : Sight} (waiting : s.threads[t]? = some .waiting)
      (held : s.waitMutex = some t) (after : s.collected = true) (stopped : s.spinning = false) :
      DefaultStepped reg s (.trySecond t ready sight)
        { s.setThread t (.discarding {}) with
          waitMutex := none
          memoryStrategy := s.memoryStrategy.removeNullHandles ready
          collected := true }
  | execute {t : Nat} {a : AnyExecutable} (selected : s.threads[t]? = some (.selected a)) :
      DefaultStepped reg s (.execute t)
        { s with toMultiThreaded := s.setThread t (if s.spinning then .executing a else .idle) }
  | finish {t : Nat} {a : AnyExecutable} (executing : s.threads[t]? = some (.executing a)) :
      DefaultStepped reg s (.finish t)
        { s.setThread t .idle with canBeTakenFrom := a.release s.canBeTakenFrom, collected := s.collected }
  | discard {t : Nat} {a : AnyExecutable} (discarding : s.threads[t]? = some (.discarding a)) :
      DefaultStepped reg s (.discard t)
        { s.setThread t .idle with canBeTakenFrom := a.release s.canBeTakenFrom, collected := s.collected }
  | cancel : DefaultStepped reg s .cancel { s with spinning := false }

theorem defaultStep_stepped {s s' : DefaultThreads} {e : DefaultStep} (h : defaultStep reg s e = some s') :
    DefaultStepped reg s e s' := by
  cases e with
  | tryFirst t sight =>
    simp only [defaultStep] at h
    split at h
    · rename_i hcond
      cases hspinning : s.spinning with
      | true =>
        rw [if_pos hspinning] at h
        split at h
        · rename_i hok
          cases h
          exact .selectFirst hcond.1 hcond.2 hspinning rfl hok
        · rename_i hfail
          cases h
          exact .wait hcond.1 hcond.2 hspinning rfl (Bool.eq_false_iff.mpr hfail)
      | false =>
        rw [if_neg (Bool.eq_false_iff.mp hspinning)] at h
        cases h
        exact .leave hcond.1 hcond.2 hspinning
    · cases h
  | collect t alive =>
    simp only [defaultStep] at h
    split at h
    · rename_i hcond
      cases h
      exact .collect hcond.1 hcond.2.1 hcond.2.2
    · cases h
  | trySecond t ready sight =>
    simp only [defaultStep] at h
    split at h
    · rename_i hcond
      cases hspinning : s.spinning with
      | true =>
        rw [if_pos hspinning] at h
        cases h
        exact .selectSecond hcond.1 hcond.2.1 hcond.2.2 hspinning rfl
      | false =>
        rw [if_neg (Bool.eq_false_iff.mp hspinning)] at h
        cases h
        exact .nothing hcond.1 hcond.2.1 hcond.2.2 hspinning
    · cases h
  | execute t =>
    simp only [defaultStep] at h
    split at h
    · rename_i a ha
      cases h
      exact .execute ha
    · cases h
  | finish t =>
    simp only [defaultStep] at h
    split at h
    · rename_i a ha
      cases h
      exact .finish ha
    · cases h
  | discard t =>
    simp only [defaultStep] at h
    split at h
    · rename_i a ha
      cases h
      exact .discard ha
    · cases h
  | cancel =>
    cases h
    exact .cancel

/-- **A step without priorities**. -/
theorem defaultStep_threads {s s' : DefaultThreads} {e : DefaultStep} (h : defaultStep reg s e = some s') :
    ThreadEffect reg True (fun t => s.spinning = false ∧ e = .execute t) s.toMultiThreaded s'.toMultiThreaded := by
  cases defaultStep_stepped h with
  | @selectFirst t sight next hidle _ _ htried hok =>
    refine select_effect sight (m := s.memoryStrategy) htried (Or.inl hidle) .waiting (Or.inl rfl) ?_ rfl
    simp [MultiThreaded.select, MultiThreaded.setThread, hok]
  | @wait t sight next hidle _ _ htried hfail =>
    have hnothing := nextReady_takesFirst (c := sight.context false reg s.canBeTakenFrom) rfl s.memoryStrategy
    rw [← htried] at hnothing
    refine select_effect sight (m := s.memoryStrategy) htried (Or.inl hidle) .waiting (Or.inl rfl) ?_ ?_
    · rw [hfail]
      rfl
    · have hnone : ((sight.context false reg s.canBeTakenFrom).candidates s.memoryStrategy).head? = none := by
        rw [← Option.not_isSome_iff_eq_none, ← hnothing.success, hfail]
        exact Bool.false_ne_true
      have hflags := hnothing.canBeTakenFrom
      rw [hnone] at hflags
      exact hflags.symm
  | leave hidle =>
    exact .move _ .returned rfl rfl (by simp) (by simp) fun a hb => absurd hb (not_busy_before (Or.inl hidle) a)
  | collect => exact .cancel rfl rfl
  | @selectSecond t ready sight next hwaiting _ _ _ htried =>
    exact select_effect sight htried (Or.inr hwaiting) _ (Or.inr rfl) rfl rfl
  | nothing hwaiting =>
    exact .move _ (.discarding {}) rfl rfl (by simp) (by simp)
      fun a hb => absurd hb (not_busy_before (Or.inr hwaiting) a)
  | execute ha => exact execute_effect ha rfl rfl rfl
  | finish ha => exact .release _ _ (Or.inl ha) rfl rfl
  | discard ha => exact .release _ _ (Or.inr ha) rfl rfl
  | cancel => exact .cancel rfl rfl

end

/-! ## Exclusion -/

section
variable {reg : Registry} {own : Prop} {stopped : Nat → Prop} {s s' : MultiThreaded}

theorem busy_selected {t t' : Nat} {a b : AnyExecutable} (hs : s'.threads = s.threads.set t (.selected a))
    (h : Busy s' t' b) : (t' = t ∧ b = a) ∨ (t' ≠ t ∧ Busy s t' b) := by
  rcases busy_set hs h with ⟨rfl, hst | hst⟩ | hb
  · cases hst
    exact Or.inl ⟨rfl, rfl⟩
  · cases hst
  · exact Or.inr hb

/-- What the marks guarantee is kept, whichever way callbacks are selected. -/
theorem Guarded.effect (h : Guarded reg s) (he : ThreadEffect reg own stopped s s') : Guarded reg s' := by
  cases he with
  | move t st threads flags busy discarded _ =>
    refine h.weaken (fun t' a hb => ?_) (h.discarded_set threads fun a ha => by rw [discarded a ha]) ?_
    · rcases busy_set threads hb with ⟨rfl, hst⟩ | ⟨_, hb⟩
      · exact Or.inl (busy a hst)
      · exact hb
    · intro t' a g _ _ _
      rw [flags]
  | release t a held threads flags => exact h.release held threads flags
  | cancel threads flags =>
    refine h.weaken (fun t a hb => ?_) (fun t a ha => h.discarded t a (threads ▸ ha)) ?_
    · unfold Busy at hb ⊢
      rwa [threads] at hb
    · intro t a g _ _ _
      rw [flags]
  | select t a g threads free flags group known single _ _ =>
    -- a group that another thread holds is marked, and the one taken is not
    have hother : ∀ {t' b g'}, Busy s t' b → b.callbackGroup = some g' → g'.type = .mutuallyExclusive →
        g'.id ≠ g.id := by
      intro t' b g' hb hg hm hid
      have hheld := h.held t' b g' hb hg hm
      rw [hid, free] at hheld
      cases hheld
    have htype : ∀ {t' b g'}, Busy s t' b → b.callbackGroup = some g' → g'.id = g.id → g'.type = g.type := by
      intro t' b g' hb hg hid
      obtain ⟨p, hp, hpid, hpt⟩ := h.known t' b g' hb hg
      obtain ⟨q, hq, hqid, hqt⟩ := known
      rw [← hpt, ← hqt, reg.eq_of_id hp hq (hpid.trans (hid.trans hqid.symm))]
    refine ⟨fun t' b g' hb hg => ?_, fun t' b g' hb hg hm => ?_, ?_, h.discarded_set threads (by simp), ?_⟩
    · rcases busy_selected threads hb with ⟨_, rfl⟩ | ⟨_, hb⟩
      · cases group.symm.trans hg
        exact known
      · exact h.known t' b g' hb hg
    · rw [flags]
      rcases busy_selected threads hb with ⟨_, rfl⟩ | ⟨_, hb⟩
      · cases group.symm.trans hg
        rw [if_pos hm]
        exact if_pos rfl
      · split
        · exact (if_neg (hother hb hg hm)).trans (h.held t' b g' hb hg hm)
        · exact h.held t' b g' hb hg hm
    · intro t₁ t₂ a₁ a₂ g₁ g₂ hb₁ hb₂ hg₁ hg₂ hm hid
      rcases busy_selected threads hb₁ with ⟨rfl, rfl⟩ | ⟨_, hb₁⟩ <;>
        rcases busy_selected threads hb₂ with ⟨rfl, rfl⟩ | ⟨_, hb₂⟩
      · rfl
      · cases group.symm.trans hg₁
        exact absurd hid.symm (hother hb₂ hg₂ ((htype hb₂ hg₂ hid.symm).trans hm))
      · cases group.symm.trans hg₂
        exact absurd hid (hother hb₁ hg₁ hm)
      · exact h.alone t₁ t₂ a₁ a₂ g₁ g₂ hb₁ hb₂ hg₁ hg₂ hm hid
    · intro t' b k k' e e' hb hk hk'
      rcases busy_selected threads hb with ⟨_, rfl⟩ | ⟨_, hb⟩
      · exact single k k' e e' hk hk'
      · exact h.single t' b k k' e e' hb hk hk'

theorem HoldsOwn.effect (hown : own) (h : HoldsOwn reg s) (he : ThreadEffect reg own stopped s s') : HoldsOwn reg s' := by
  intro t b k e p hb hk hp hin hm
  cases he with
  | move t' st threads _ busy _ _ =>
    rcases busy_set threads hb with ⟨rfl, hst⟩ | ⟨_, hb⟩
    · exact h t b k e p (Or.inl (busy b hst)) hk hp hin hm
    · exact h t b k e p hb hk hp hin hm
  | release t' a _ threads _ =>
    rcases busy_set threads hb with ⟨_, hst | hst⟩ | ⟨_, hb⟩
    · cases hst
    · cases hst
    · exact h t b k e p hb hk hp hin hm
  | cancel threads _ =>
    unfold Busy at hb
    rw [threads] at hb
    exact h t b k e p hb hk hp hin hm
  | select t' a g threads _ _ group _ _ entity _ =>
    rcases busy_selected threads hb with ⟨_, rfl⟩ | ⟨_, hb⟩
    · obtain ⟨q, hq, hqin, _, hid⟩ := entity k e hk
      cases reg.eq_of_entity hp hq hin hqin
      exact ⟨g, group, (hid hown).symm⟩
    · exact h t b k e p hb hk hp hin hm

end

/-- **Mutual exclusion without priorities**: in every run of any number of
threads, no two of them are in callbacks of one mutually exclusive group. -/
theorem defaultThreads_exclusive (reg : Registry) (numberOfThreads : Nat) (steps : List DefaultStep)
    (s : DefaultThreads) (hrun : runSteps (defaultStep reg) (defaultThreads numberOfThreads) steps = some s) :
    GroupsExclusive reg s.toMultiThreaded := by
  have hinv : Guarded reg s.toMultiThreaded ∧ HoldsOwn reg s.toMultiThreaded := by
    refine run_invariant (P := fun s : DefaultThreads => Guarded reg s.toMultiThreaded ∧ HoldsOwn reg s.toMultiThreaded)
      (fun s e s' h hstep => ?_) steps ⟨guarded_multiThreaded numberOfThreads, ?_⟩ hrun
    · have heffect := defaultStep_threads hstep
      exact ⟨h.1.effect heffect, h.2.effect trivial heffect⟩
    · intro t a k e p hb
      exact absurd hb not_busy_multiThreaded
  exact groupsExclusive_of_holdsOwn hinv.1 hinv.2

/-- The steps of a thread that waits and executes what it takes. -/
def defaultTakesUp (t : Nat) (handles : List Nat) : List DefaultStep :=
  [.tryFirst t {}, .collect t {}, .trySecond t (fun _ handle => handle ∈ handles) {}, .execute t]

/-- While the first timer executes, the second thread takes the subscription and not the second timer. -/
theorem timerAndSubscription_exclusive : ∃ s, runSteps (defaultStep timersAndSubscription) (defaultThreads 2)
    (defaultTakesUp 0 [1, 2, 3] ++ [.tryFirst 1 {}, .execute 1]) = some s ∧
    s.executing 0 .timer = some ⟨1, 5⟩ ∧ s.executing 1 .subscription = some ⟨3, 3⟩ ∧
    s.memoryStrategy.timerHandles = [2] ∧ GroupsExclusive timersAndSubscription s.toMultiThreaded := by
  have hrun : (runSteps (defaultStep timersAndSubscription) (defaultThreads 2)
      (defaultTakesUp 0 [1, 2, 3] ++ [.tryFirst 1 {}, .execute 1])).any (fun s => s.executing 0 .timer = some ⟨1, 5⟩ ∧
        s.executing 1 .subscription = some ⟨3, 3⟩ ∧ s.memoryStrategy.timerHandles = [2]) := by
    decide
  obtain ⟨s, hs, hfacts⟩ := (Option.any_eq_true _ _).mp hrun
  obtain ⟨h0, h1, hleft⟩ := of_decide_eq_true hfacts
  exact ⟨s, hs, h0, h1, hleft, defaultThreads_exclusive timersAndSubscription 2 _ s hs⟩

/-! ## One spin after another -/

inductive SessionStep where
  | spin (numberOfThreads : Nat)
  | step (e : ThreadStep)

/-- `spin` may be called again when all threads of the one before have returned. -/
def sessionStep (reg : Registry) (s : MultiThreaded) : SessionStep → Option MultiThreaded
  | .spin numberOfThreads =>
    if ∀ state ∈ s.threads, state = .returned then
      some { s with spinning := true, threads := List.replicate numberOfThreads .idle }
    else none
  | .step e => threadStep reg s e

def MultiThreaded.Held (s : MultiThreaded) (g : Nat) : Prop :=
  ∃ t a group, Busy s t a ∧ a.callbackGroup = some group ∧ group.id = g

/-- A thread that has marked the group does not execute what it has selected. -/
def MultiThreaded.Abandons (s : MultiThreaded) (g : Nat) : SessionStep → Prop
  | .step (.execute t) => s.spinning = false ∧ ∃ a group, s.threads[t]? = some (.selected a) ∧
      a.callbackGroup = some group ∧ group.id = g
  | _ => False

section
variable {reg : Registry} {s s' : MultiThreaded} {e : SessionStep}

theorem not_busy_idle {numberOfThreads t : Nat} {a : AnyExecutable}
    (hs : s.threads = List.replicate numberOfThreads .idle) : ¬ Busy s t a := by
  rintro (h | h) <;>
  · rw [hs, List.getElem?_replicate] at h
    split at h <;> cases h

theorem not_busy_returned (hs : ∀ state ∈ s.threads, state = .returned) {t : Nat} {a : AnyExecutable} :
    ¬ Busy s t a := by
  rintro (h | h) <;> cases hs _ (List.mem_of_getElem? h)

/-- A step of a session is one of a thread, or starts threads where there were none. -/
theorem sessionStep_cases (hn : reg.NonNegative) (h : sessionStep reg s e = some s') :
    (∃ e', e = .step e' ∧ ThreadEffect reg False (fun t => s.spinning = false ∧ e' = .execute t) s s') ∨
      (∃ n, e = .spin n) ∧ (∀ t a, ¬ Busy s t a) ∧ (∀ t a, ¬ Busy s' t a) ∧
        (∀ (t : Nat) (a : AnyExecutable), s'.threads[t]? ≠ some (.discarding a)) ∧
        s'.canBeTakenFrom = s.canBeTakenFrom := by
  cases e with
  | step e => exact Or.inl ⟨e, rfl, threadStep_threads hn h⟩
  | spin n =>
    simp only [sessionStep] at h
    split at h
    · rename_i hreturned
      cases h
      refine Or.inr ⟨⟨n, rfl⟩, fun t a => not_busy_returned hreturned, fun t a => not_busy_idle rfl, fun t a ha => ?_, rfl⟩
      rw [List.getElem?_replicate] at ha
      split at ha <;> cases ha
    · cases h

theorem guarded_session (hn : reg.NonNegative) (hg : Guarded reg s) (h : sessionStep reg s e = some s') :
    Guarded reg s' := by
  rcases sessionStep_cases hn h with ⟨e', _, he⟩ | ⟨_, _, hidle, hdiscard, _⟩
  · exact hg.effect he
  · exact hg.weaken (fun t a hb => absurd hb (hidle t a)) (fun t a ha => absurd ha (hdiscard t a))
      fun t a g hb => absurd hb (hidle t a)

/-- The flag of a mutually exclusive group is cleared exactly while it is held, and after it was abandoned. -/
structure FlagExact (s : MultiThreaded) (g : Nat) (abandoned : Prop) : Prop where
  flag : s.canBeTakenFrom g = false ↔ s.Held g ∨ abandoned
  apart : abandoned → ¬ s.Held g

theorem busy_set_ne {t t' : Nat} {st : ThreadState} {a : AnyExecutable} (hs : s'.threads = s.threads.set t st)
    (hne : t' ≠ t) : Busy s' t' a ↔ Busy s t' a := by
  unfold Busy
  rw [hs, List.getElem?_set_ne (Ne.symm hne)]

theorem FlagExact.congr {g : Nat} {A : Prop} (h : FlagExact s g A) (hflag : s'.canBeTakenFrom g = s.canBeTakenFrom g)
    (hbusy : ∀ t a group, a.callbackGroup = some group → group.id = g → (Busy s' t a ↔ Busy s t a)) :
    FlagExact s' g A := by
  have hheld : s'.Held g ↔ s.Held g := by
    constructor
    · rintro ⟨t, a, group, hb, hg, hid⟩
      exact ⟨t, a, group, (hbusy t a group hg hid).mp hb, hg, hid⟩
    · rintro ⟨t, a, group, hb, hg, hid⟩
      exact ⟨t, a, group, (hbusy t a group hg hid).mpr hb, hg, hid⟩
  exact ⟨by rw [hflag, hheld]; exact h.flag, fun hA hh => h.apart hA (hheld.mp hh)⟩

theorem Guarded.sole {p : CallbackGroup × Nat} (hp : p ∈ reg.groups) (hm : p.1.type = .mutuallyExclusive)
    (hg : Guarded reg s) {t t' : Nat} {a a' : AnyExecutable} {group group' : CallbackGroup} (hb : Busy s t a)
    (hb' : Busy s t' a') (ha : a.callbackGroup = some group) (ha' : a'.callbackGroup = some group')
    (hid : group.id = p.1.id) (hid' : group'.id = p.1.id) : t = t' := by
  obtain ⟨q, hq, hqid, hqt⟩ := hg.known t a group hb ha
  cases reg.eq_of_id hq hp (hqid.trans hid)
  exact hg.alone t t' a a' group group' hb hb' ha ha' (hqt ▸ hm) (hid.trans hid'.symm)

/-- The step that abandons a group leaves its flag cleared and nobody to release it. -/
theorem FlagExact.abandoned {p : CallbackGroup × Nat} (hp : p ∈ reg.groups) (hm : p.1.type = .mutuallyExclusive)
    (hg : Guarded reg s) {A : Prop} (h : FlagExact s p.1.id A) (hstep : sessionStep reg s e = some s')
    (hab : s.Abandons p.1.id e) : FlagExact s' p.1.id (A ∨ s.Abandons p.1.id e) := by
  obtain ⟨t, rfl⟩ : ∃ t, e = .step (.execute t) := by
    unfold MultiThreaded.Abandons at hab
    split at hab
    · exact ⟨_, rfl⟩
    · exact hab.elim
  obtain ⟨hspinning, a, group, ha, hgroup, hid⟩ := id hab
  simp only [sessionStep, threadStep, ha, hspinning, Bool.false_eq_true, if_false, Option.some.injEq] at hstep
  subst hstep
  have hheld : s.Held p.1.id := ⟨t, a, group, Or.inl ha, hgroup, hid⟩
  refine ⟨⟨fun _ => Or.inr (Or.inr hab), fun _ => h.flag.mpr (Or.inl hheld)⟩, ?_⟩
  rintro _ ⟨t', a', group', hb', hgroup', hid'⟩
  rcases busy_set rfl hb' with ⟨_, hst | hst⟩ | ⟨hne, hb'⟩
  · cases hst
  · cases hst
  · exact hne (hg.sole hp hm hb' (Or.inl ha) hgroup' hgroup hid' hid)

theorem FlagExact.effect {p : CallbackGroup × Nat} (hp : p ∈ reg.groups) (hm : p.1.type = .mutuallyExclusive)
    {e : ThreadStep} (hg : Guarded reg s)
    (he : ThreadEffect reg False (fun t => s.spinning = false ∧ e = .execute t) s s') {A : Prop}
    (h : FlagExact s p.1.id A) (hab : ¬ s.Abandons p.1.id (.step e)) : FlagExact s' p.1.id A := by
  cases he with
  | move t st threads flags busy _ kept =>
    refine h.congr (by rw [flags]) fun t' a group hgroup hid => ?_
    by_cases ht : t' = t
    · subst ht
      constructor
      · intro hb
        rcases busy_set threads hb with ⟨_, hst⟩ | ⟨hne, _⟩
        · exact Or.inl (busy a hst)
        · exact absurd rfl hne
      · intro hb
        obtain ⟨hsel, hst | ⟨hspinning, rfl⟩⟩ := kept a hb
        · right
          rw [threads, hst, List.getElem?_set_self (List.getElem?_eq_some_iff.mp hsel).1]
        · exact absurd ⟨hspinning, a, group, hsel, hgroup, hid⟩ hab
    · exact busy_set_ne threads ht
  | release t a held threads flags =>
    have hidle : ∀ b, ¬ Busy s' t b := by
      intro b hb
      rcases busy_set threads hb with ⟨_, hst | hst⟩ | ⟨hne, _⟩
      · cases hst
      · cases hst
      · exact hne rfl
    by_cases hown : ∃ group, a.callbackGroup = some group ∧ group.id = p.1.id
    · obtain ⟨group, hgroup, hid⟩ := hown
      have hbusy : Busy s t a := by
        rcases held with hexec | hdiscard
        · exact Or.inr hexec
        · rw [hg.discarded t a hdiscard] at hgroup
          cases hgroup
      have hflag : s'.canBeTakenFrom p.1.id = true := by
        rw [flags]
        unfold AnyExecutable.release
        simp only [hgroup]
        exact if_pos hid.symm
      have hnot : ¬ s'.Held p.1.id := by
        rintro ⟨t', b, group', hb, hgroup', hid'⟩
        have hne : t' ≠ t := fun h => hidle b (h ▸ hb)
        exact hne (hg.sole hp hm ((busy_set_ne threads hne).mp hb) hbusy hgroup' hgroup hid' hid)
      have hA : ¬ A := fun hA => h.apart hA ⟨t, a, group, hbusy, hgroup, hid⟩
      refine ⟨?_, fun _ => hnot⟩
      rw [hflag]
      exact ⟨fun h => (by cases h), fun h => absurd h (not_or.mpr ⟨hnot, hA⟩)⟩
    · refine h.congr ?_ fun t' b group hgroup hid => ?_
      · rw [flags]
        unfold AnyExecutable.release
        cases hgroup : a.callbackGroup with
        | none => rfl
        | some group => exact if_neg fun hid => hown ⟨group, hgroup, hid.symm⟩
      · by_cases ht : t' = t
        · subst ht
          refine iff_of_false (hidle b) fun hb => hown ?_
          -- what it held is what it releases
          rcases held with hexec | hdiscard
          · rcases hb with hb | hb <;> cases hexec.symm.trans hb
            exact ⟨group, hgroup, hid⟩
          · rcases hb with hb | hb <;> cases hdiscard.symm.trans hb
        · exact busy_set_ne threads ht
  | select t a g threads free flags group known _ _ before =>
    by_cases hid : g.id = p.1.id
    · have htype : g.type = .mutuallyExclusive := by
        obtain ⟨q, hq, hqid, hqt⟩ := known
        cases reg.eq_of_id hq hp (hqid.trans hid)
        rw [← hqt, hm]
      have hnot : ¬ (s.Held p.1.id ∨ A) := by
        rw [← h.flag, ← hid, free]
        exact Bool.noConfusion
      have hlt : t < s.threads.length := by
        rcases before with hb | hb <;> exact (List.getElem?_eq_some_iff.mp hb).1
      have hheld : s'.Held p.1.id :=
        ⟨t, a, g, Or.inl (by rw [threads, List.getElem?_set_self hlt]), group, hid⟩
      refine ⟨iff_of_true ?_ (Or.inl hheld), fun hA => absurd (Or.inr hA) hnot⟩
      rw [flags, if_pos htype]
      exact if_pos hid.symm
    · refine h.congr ?_ fun t' b group' hgroup' hid' => ?_
      · rw [flags]
        split
        · exact if_neg fun h => hid h.symm
        · rfl
      · by_cases ht : t' = t
        · subst ht
          refine iff_of_false (fun hb => ?_) (not_busy_before before b)
          rcases busy_selected threads hb with ⟨_, rfl⟩ | ⟨hne, _⟩
          · cases group.symm.trans hgroup'
            exact hid hid'
          · exact hne rfl
        · exact busy_set_ne threads ht
  | cancel threads flags =>
    refine h.congr (by rw [flags]) fun t' a group _ _ => ?_
    unfold Busy
    rw [threads]

theorem FlagExact.step (hn : reg.NonNegative) {p : CallbackGroup × Nat} (hp : p ∈ reg.groups)
    (hm : p.1.type = .mutuallyExclusive) (hg : Guarded reg s) {A : Prop} (h : FlagExact s p.1.id A)
    (hstep : sessionStep reg s e = some s') : FlagExact s' p.1.id (A ∨ s.Abandons p.1.id e) := by
  rcases sessionStep_cases hn hstep with ⟨e', rfl, he⟩ | ⟨⟨n, rfl⟩, hidle, hidle', _, hflags⟩
  · by_cases hab : s.Abandons p.1.id (.step e')
    · exact h.abandoned hp hm hg hstep hab
    · rw [or_iff_left hab]
      exact h.effect hp hm hg he hab
  · have hA : (A ∨ s.Abandons p.1.id (.spin n)) = A := propext ⟨fun h => h.resolve_right id, Or.inl⟩
    have hnot : ∀ {u : MultiThreaded}, (∀ t a, ¬ Busy u t a) → ¬ u.Held p.1.id :=
      fun hu ⟨t, a, _, hb, _⟩ => hu t a hb
    rw [hA]
    refine ⟨?_, fun _ => hnot hidle'⟩
    rw [hflags, h.flag, or_iff_right (hnot hidle), or_iff_right (hnot hidle')]

theorem flagExact_session (hn : reg.NonNegative) {p : CallbackGroup × Nat} (hp : p ∈ reg.groups)
    (hm : p.1.type = .mutuallyExclusive) {steps : List SessionStep}
    (hrun : runSteps (sessionStep reg) (multiThreaded 0) steps = some s) : Guarded reg s ∧
      FlagExact s p.1.id (Happens (sessionStep reg) (·.Abandons p.1.id) (multiThreaded 0) steps) := by
  have hinv := run_happens (P := fun s A => Guarded reg s ∧ FlagExact s p.1.id A)
    (C := fun s e => MultiThreaded.Abandons s p.1.id e)
    (fun s A e s' h hstep => ⟨guarded_session hn h.1 hstep, h.2.step hn hp hm h.1 hstep⟩) steps (A := False)
    ⟨guarded_multiThreaded 0, ?_⟩ hrun
  · rw [false_or] at hinv
    exact hinv
  · refine ⟨iff_of_false Bool.noConfusion ?_, False.elim⟩
    rintro (⟨t, a, _, hb, _⟩ | h)
    · exact not_busy_multiThreaded hb
    · exact h

/-- Where the flag of a group is cleared, no callback of it is selected. -/
theorem unselected_step (hn : reg.NonNegative) {p : CallbackGroup × Nat} (hp : p ∈ reg.groups)
    (hflag : s.canBeTakenFrom p.1.id = false) (hstep : sessionStep reg s e = some s') {k : Kind} {exec : Executable}
    (hin : exec ∈ p.1.ptrs k) {t : Nat} {a : AnyExecutable} (hb : Busy s' t a) (hk : a.entity k = some exec) :
    Busy s t a := by
  rcases sessionStep_cases hn hstep with ⟨e', _, he⟩ | ⟨_, _, hidle, _⟩
  · cases he with
    | move t' st threads _ busy _ _ =>
      rcases busy_set threads hb with ⟨rfl, hst⟩ | ⟨_, hb⟩
      · exact Or.inl (busy a hst)
      · exact hb
    | release t' b _ threads _ =>
      rcases busy_set threads hb with ⟨_, hst | hst⟩ | ⟨_, hb⟩
      · cases hst
      · cases hst
      · exact hb
    | select t' b g threads _ _ _ _ _ entity _ =>
      rcases busy_selected threads hb with ⟨_, rfl⟩ | ⟨_, hb⟩
      · obtain ⟨q, hq, hqin, hfree, _⟩ := entity k exec hk
        cases reg.eq_of_entity hp hq hin hqin
        rw [hflag] at hfree
        cases hfree
      · exact hb
    | cancel threads _ =>
      unfold Busy at hb ⊢
      rwa [threads] at hb
  · exact absurd hb (hidle t a)

end

/-- **Abandoned groups**: over any number of spins of the multi-threaded
executor, the flag of a mutually exclusive group is cleared exactly while a
thread holds the group, and for ever after a thread that had marked it was
stopped before the execution; from then on no callback of it is selected. -/
theorem abandoned_groups (reg : Registry) (hn : reg.NonNegative) (p : CallbackGroup × Nat) (hp : p ∈ reg.groups)
    (hm : p.1.type = .mutuallyExclusive) (before after : List SessionStep) (u s : MultiThreaded)
    (hbefore : runSteps (sessionStep reg) (multiThreaded 0) before = some u)
    (hafter : runSteps (sessionStep reg) u after = some s) :
    (s.canBeTakenFrom p.1.id = false ↔
      s.Held p.1.id ∨ Happens (sessionStep reg) (·.Abandons p.1.id) (multiThreaded 0) (before ++ after)) ∧
    (Happens (sessionStep reg) (·.Abandons p.1.id) (multiThreaded 0) before →
      s.canBeTakenFrom p.1.id = false ∧
      ∀ t a k e, Busy s t a → a.entity k = some e → e ∈ p.1.ptrs k → Busy u t a) := by
  have hboth : runSteps (sessionStep reg) (multiThreaded 0) (before ++ after) = some s := by
    rw [runSteps_append, hbefore]
    exact hafter
  obtain ⟨_, hflag⟩ := flagExact_session hn hp hm hboth
  obtain ⟨hguarded, hflag₀⟩ := flagExact_session hn hp hm hbefore
  refine ⟨hflag.flag, fun habandoned => ?_⟩
  rw [eq_true habandoned] at hflag₀
  have hinv : Guarded reg s ∧ FlagExact s p.1.id True ∧
      ∀ t a k e, Busy s t a → a.entity k = some e → e ∈ p.1.ptrs k → Busy u t a := by
    refine run_invariant (P := fun s => Guarded reg s ∧ FlagExact s p.1.id True ∧
      ∀ t a k e, Busy s t a → a.entity k = some e → e ∈ p.1.ptrs k → Busy u t a) ?_ after
      ⟨hguarded, hflag₀, fun _ _ _ _ hb _ _ => hb⟩ hafter
    rintro s e s' ⟨hg, hf, hbusy⟩ hstep
    have hf' := hf.step hn hp hm hg hstep
    rw [true_or] at hf'
    refine ⟨guarded_session hn hg hstep, hf', fun t a k exec hb hk hin => hbusy t a k exec ?_ hk hin⟩
    exact unselected_step hn hp (hf.flag.mpr (Or.inr trivial)) hstep hin hb hk
  exact ⟨hinv.2.1.flag.mpr (Or.inr trivial), hinv.2.2⟩

/-- The first timer is selected when the executor is stopped; in the next spin the second timer is ready. -/
def stoppedSelection : List SessionStep :=
  [.spin 1, .step (.lock 0 {}), .step (.select 0 { ready := fun _ handle => handle = 1 }), .step .cancel,
    .step (.execute 0), .step (.lock 0 {})]

def nextSpin : List SessionStep :=
  [.spin 1, .step (.lock 0 {}), .step (.select 0 { ready := fun _ handle => handle = 2 }), .step (.discard 0)]

theorem stoppedSelection_abandoned : ∃ u s,
    runSteps (sessionStep timersAndSubscription) (multiThreaded 0) stoppedSelection = some u ∧
    runSteps (sessionStep timersAndSubscription) u nextSpin = some s ∧ s.canBeTakenFrom 0 = false := by
  have hrun : ((runSteps (sessionStep timersAndSubscription) (multiThreaded 0) stoppedSelection).bind fun u =>
      (runSteps (sessionStep timersAndSubscription) u nextSpin).map fun s => (u, s)).any
      (fun r => r.1.canBeTakenFrom 0 = false ∧ r.1.threads = [.returned]) := by decide
  obtain ⟨⟨u, s⟩, hboth, hfacts⟩ := (Option.any_eq_true _ _).mp hrun
  obtain ⟨hflag, hreturned⟩ := of_decide_eq_true hfacts
  obtain ⟨u, hu, hs⟩ := Option.bind_eq_some_iff.mp hboth
  obtain ⟨s, hs, heq⟩ := Option.map_eq_some_iff.mp hs
  cases heq
  have hthm := fun steps s hs => abandoned_groups timersAndSubscription (by decide) _ (List.mem_cons_self ..) rfl
    stoppedSelection steps u s hu hs
  have hnot : ¬ u.Held 0 := by
    rintro ⟨t, a, _, hb, _⟩
    exact not_busy_returned (by rw [hreturned]; simp) hb
  have habandoned := ((hthm [] u rfl).1.mp hflag).resolve_left hnot
  rw [List.append_nil] at habandoned
  exact ⟨u, s, hu, hs, ((hthm nextSpin s hs).2 habandoned).1⟩

end ReferenceSystem
