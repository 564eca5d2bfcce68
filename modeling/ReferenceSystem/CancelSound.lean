import ReferenceSystem.ThreadsSound

/-!
# Once stopped, all threads return

A thread that waits holds the mutex, and nothing else may be ready. The trigger
that `cancel` makes after it has cleared `spinning` is still there when that
thread waits, and nobody starts to wait any more. So each thread can go on
until it has returned, and has few steps left.
-/

namespace ReferenceSystem

/-! ## What a step does to its thread and to the mutex -/

structure Moves (s s' : MultiThreaded) (t : Nat) (old new : ThreadState) : Prop where
  before : s.threads[t]? = some old
  threads : s'.threads = s.threads.set t new
  spinning : s'.spinning = s.spinning
  mutex : old = .waiting ∧ new ≠ .waiting ∧ s.waitMutex = some t ∧ s'.waitMutex = none ∨
    old ≠ .waiting ∧ new = .waiting ∧ s.waitMutex = none ∧ s'.waitMutex = some t ∧ s.spinning = true ∨
    (old = .waiting ↔ new = .waiting) ∧ s'.waitMutex = s.waitMutex

/-- The mutex is held by the thread that waits. -/
def MutexHeld (s : MultiThreaded) : Prop := ∀ t, s.waitMutex = some t ↔ s.threads[t]? = some .waiting

/-- How many steps a thread still makes once the executor is stopped, if one that waits makes `waits`. -/
def ThreadState.remaining (waits : Nat) : ThreadState → Nat
  | .idle => 1
  | .waiting => waits
  | .selected _ | .executing _ | .discarding _ => 2
  | .returned => 0

def MultiThreaded.remaining (s : MultiThreaded) (waits t : Nat) : Nat :=
  match s.threads[t]? with
  | some state => state.remaining waits
  | none => 0

section
variable {s s' : MultiThreaded} {t : Nat} {old new : ThreadState}

/-- A step of a thread that neither starts nor ends a wait. -/
theorem moves_working (h : s.threads[t]? = some old) (hold : old ≠ .waiting) (hnew : new ≠ .waiting)
    (hthreads : s'.threads = s.threads.set t new) (hspinning : s'.spinning = s.spinning)
    (hmutex : s'.waitMutex = s.waitMutex) : Moves s s' t old new :=
  ⟨h, hthreads, hspinning, Or.inr (Or.inr ⟨by simp [hold, hnew], hmutex⟩)⟩

theorem Moves.self (h : Moves s s' t old new) : s'.threads[t]? = some new := by
  rw [h.threads]
  exact List.getElem?_set_self (List.getElem?_eq_some_iff.mp h.before).1

theorem Moves.other (h : Moves s s' t old new) {t' : Nat} (ht : t' ≠ t) : s'.threads[t']? = s.threads[t']? := by
  rw [h.threads, List.getElem?_set_ne (Ne.symm ht)]

theorem Moves.mutexHeld (h : Moves s s' t old new) (hs : MutexHeld s) : MutexHeld s' := by
  intro t'
  by_cases ht : t' = t
  · subst ht
    rw [h.self]
    rcases h.mutex with ⟨_, hnew, _, hfree⟩ | ⟨_, hnew, _, hheld, _⟩ | ⟨hsame, hmutex⟩
    · simp [hfree, hnew]
    · simp [hheld, hnew]
    · rw [hmutex, hs t', h.before]
      simp [hsame]
  · rw [h.other ht, ← hs t']
    rcases h.mutex with ⟨_, _, hheld, hfree⟩ | ⟨_, _, hfree, hheld, _⟩ | ⟨_, hmutex⟩
    · rw [hheld, hfree]
      simp [Ne.symm ht]
    · rw [hheld, hfree]
      simp [Ne.symm ht]
    · rw [hmutex]

/-- Once stopped, no thread starts to wait. -/
theorem Moves.waiting (h : Moves s s' t old new) (hs : s.spinning = false) {t' : Nat}
    (hw : s'.threads[t']? = some .waiting) : s.threads[t']? = some .waiting := by
  by_cases ht : t' = t
  · subst ht
    have hnew : new = .waiting := Option.some.inj (h.self.symm.trans hw)
    rcases h.mutex with ⟨_, hne, _⟩ | ⟨_, _, _, _, hspinning⟩ | ⟨hsame, _⟩
    · exact absurd hnew hne
    · rw [hs] at hspinning
      cases hspinning
    · rw [h.before, hsame.mpr hnew]
  · rw [← h.other ht]
    exact hw

theorem remaining_mono (state : ThreadState) {waits waits' : Nat} (h : waits' ≤ waits) :
    state.remaining waits' ≤ state.remaining waits := by
  cases state with
  | waiting => exact h
  | idle | selected | executing | discarding | returned => exact Nat.le_refl _

theorem remaining_le (s : MultiThreaded) {waits : Nat} (h : 2 ≤ waits) (t : Nat) : s.remaining waits t ≤ waits := by
  unfold MultiThreaded.remaining
  split
  · rename_i state _
    cases state <;> simp only [ThreadState.remaining] <;> omega
  · exact Nat.zero_le _

theorem Moves.remaining (h : Moves s s' t old new) {waits waits' : Nat} (hw : waits' ≤ waits)
    (hone : new.remaining waits' + 1 ≤ old.remaining waits) (t' : Nat) :
    s'.remaining waits' t' + (if t = t' then 1 else 0) ≤ s.remaining waits t' := by
  unfold MultiThreaded.remaining
  by_cases ht : t = t'
  · subst ht
    rw [if_pos rfl, h.self, h.before]
    exact hone
  · rw [if_neg ht, h.other (Ne.symm ht)]
    split
    · exact remaining_mono _ hw
    · exact Nat.le_refl _

end

/-! ## Loops that stop -/

/-- In a state of loop `l` a thread that waits makes `waits` steps until it has returned. -/
structure Stops {σ ε : Type} (l : ThreadLoop σ ε) (waits : σ → Nat) : Prop where
  atLeast : ∀ s, 2 ≤ waits s
  moves : ∀ s e s' t, l.thread e = some t → l.step s e = some s' →
    ∃ old new, Moves (l.threads s) (l.threads s') t old new ∧
      (l.returnsFromWait e = true → old = .waiting ∧ new ≠ .waiting) ∧
      ((l.threads s).spinning = false →
        waits s' ≤ waits s ∧ new.remaining (waits s') + 1 ≤ old.remaining (waits s))
  cancels : ∀ s e s', l.thread e = none → l.step s e = some s' → l.returnsFromWait e = false ∧
    l.threads s' = { l.threads s with spinning := false } ∧ waits s' = waits s
  enabled : ∀ s t state, (l.threads s).threads[t]? = some state → state ≠ .returned →
    (state = .idle → (l.threads s).waitMutex = none) → (state = .waiting → (l.threads s).waitMutex = some t) →
    ∃ e, l.thread e = some t ∧ (l.returnsFromWait e = true → state = .waiting) ∧ (l.step s e).isSome

section
variable {σ ε : Type} {l : ThreadLoop σ ε} {waits : σ → Nat}

theorem interruptStep_loop {s s' : Interruptible σ} {e : ε} {found : Bool}
    (h : interruptStep l s (.step e found) = some s') :
    l.step s.loop e = some s'.loop ∧ (l.returnsFromWait e = false → s'.triggered = (s.triggered || l.triggers e)) := by
  simp only [interruptStep] at h
  split at h
  · rename_i hreturns
    split at h
    · obtain ⟨loop, hloop, rfl⟩ := Option.map_eq_some_iff.mp h
      exact ⟨hloop, fun hnot => absurd hreturns (by simp [hnot])⟩
    · cases h
  · obtain ⟨loop, hloop, rfl⟩ := Option.map_eq_some_iff.mp h
    exact ⟨hloop, fun _ => rfl⟩

theorem Stops.mutexHeld (hl : Stops l waits) {s s' : Interruptible σ} {e : InterruptStep ε}
    (hs : MutexHeld (l.threads s.loop)) (h : interruptStep l s e = some s') : MutexHeld (l.threads s'.loop) := by
  cases e with
  | trigger =>
    cases h
    exact hs
  | step e found =>
    have hloop := (interruptStep_loop h).1
    cases ht : l.thread e with
    | none =>
      rw [(hl.cancels _ e _ ht hloop).2.1]
      exact hs
    | some t =>
      obtain ⟨old, new, hmoves, _⟩ := hl.moves _ e _ t ht hloop
      exact hmoves.mutexHeld hs

theorem Stops.mutexHeld_run (hl : Stops l waits) {steps : List (InterruptStep ε)} {s s' : Interruptible σ}
    (hs : MutexHeld (l.threads s.loop)) (hrun : runSteps (interruptStep l) s steps = some s') :
    MutexHeld (l.threads s'.loop) :=
  run_invariant (P := fun s : Interruptible σ => MutexHeld (l.threads s.loop))
    (fun _ _ _ hs hstep => hl.mutexHeld hs hstep) steps hs hrun

/-- Each step after the stop is one of those that its thread has left. -/
theorem Stops.step (hl : Stops l waits) {s s' : σ} {e : ε} (h : l.step s e = some s')
    (hs : (l.threads s).spinning = false) :
    (l.threads s').spinning = false ∧ ∀ t, (l.threads s').remaining (waits s') t +
      (if l.thread e = some t then 1 else 0) ≤ (l.threads s).remaining (waits s) t := by
  cases ht : l.thread e with
  | none =>
    obtain ⟨_, hthreads, hwaits⟩ := hl.cancels s e s' ht h
    rw [hthreads, hwaits]
    exact ⟨rfl, fun t => Nat.le_refl _⟩
  | some t =>
    obtain ⟨old, new, hmoves, _, hstopped⟩ := hl.moves s e s' t ht h
    obtain ⟨hle, hone⟩ := hstopped hs
    refine ⟨hmoves.spinning.trans hs, fun t' => ?_⟩
    simpa only [Option.some.injEq] using hmoves.remaining hle hone t'

theorem Stops.count (hl : Stops l waits) {steps : List (InterruptStep ε)} {s s' : Interruptible σ}
    (hs : (l.threads s.loop).spinning = false) (hrun : runSteps (interruptStep l) s steps = some s') (t : Nat) :
    steps.countP (fun e => e.thread l = some t) ≤ waits s.loop := by
  have hcount := run_count (P := fun s : Interruptible σ => (l.threads s.loop).spinning = false)
    (m := fun s => (l.threads s.loop).remaining (waits s.loop) t) (c := fun e => e.thread l = some t)
    (fun s e s' hs hstep => ?_) steps hs hrun
  · have hle := remaining_le (l.threads s.loop) (hl.atLeast s.loop) t
    omega
  · cases e with
    | trigger =>
      cases hstep
      exact ⟨hs, Nat.le_refl _⟩
    | step e found =>
      obtain ⟨hstopped, hcount⟩ := hl.step (interruptStep_loop hstep).1 hs
      have hone := hcount t
      refine ⟨hstopped, ?_⟩
      by_cases ht : l.thread e = some t
      · simpa [InterruptStep.thread, ht] using hone
      · simpa [InterruptStep.thread, ht] using hone

/-- The trigger is still there, or no thread waits. -/
def Wakes (l : ThreadLoop σ ε) (s : Interruptible σ) : Prop :=
  (l.threads s.loop).spinning = false ∧
    ∀ t : Nat, (l.threads s.loop).threads[t]? = some .waiting → s.triggered = true

theorem Stops.wakes (hl : Stops l waits) {s s' : Interruptible σ} {e : InterruptStep ε}
    (hmutex : MutexHeld (l.threads s.loop)) (hs : Wakes l s) (h : interruptStep l s e = some s') : Wakes l s' := by
  cases e with
  | trigger =>
    cases h
    exact ⟨hs.1, fun _ _ => rfl⟩
  | step e found =>
    obtain ⟨hloop, htriggered⟩ := interruptStep_loop h
    refine ⟨(hl.step hloop hs.1).1, fun t' hwaiting => ?_⟩
    cases ht : l.thread e with
    | none =>
      obtain ⟨hnot, hthreads, _⟩ := hl.cancels _ e _ ht hloop
      rw [hthreads] at hwaiting
      rw [htriggered hnot, hs.2 t' hwaiting, Bool.true_or]
    | some t =>
      obtain ⟨old, new, hmoves, hreturns, _⟩ := hl.moves _ e _ t ht hloop
      have hbefore := hmoves.waiting hs.1 hwaiting
      cases hr : l.returnsFromWait e with
      | false => rw [htriggered hr, hs.2 t' hbefore, Bool.true_or]
      | true =>
        -- the thread that returns from its wait was the only one
        obtain ⟨rfl, hnew⟩ := hreturns hr
        have hheld := ((hmutex t').mpr hbefore).symm.trans ((hmutex t).mpr hmoves.before)
        cases hheld
        exact absurd (Option.some.inj (hmoves.self.symm.trans hwaiting)) hnew

theorem Stops.wakes_run (hl : Stops l waits) : ∀ {steps : List (InterruptStep ε)} {s s' : Interruptible σ},
    MutexHeld (l.threads s.loop) → (l.threads s.loop).spinning = false →
    runSteps (interruptStep l) s steps = some s' → .trigger ∈ steps → Wakes l s'
  | e :: steps, s, s', hmutex, hs, hrun, hmem => by
    obtain ⟨u, hu, hrest⟩ := runSteps_cons.mp hrun
    have hmutex' := hl.mutexHeld hmutex hu
    cases e with
    | trigger =>
      have hwakes : Wakes l u := by
        cases hu
        exact ⟨hs, fun _ _ => rfl⟩
      refine (run_invariant (P := fun s => MutexHeld (l.threads s.loop) ∧ Wakes l s) (fun s e s' h hstep => ?_) steps
        ⟨hmutex', hwakes⟩ hrest).2
      exact ⟨hl.mutexHeld h.1 hstep, hl.wakes h.1 h.2 hstep⟩
    | step e found =>
      have hrest' : .trigger ∈ steps := (List.mem_cons.mp hmem).resolve_left (by simp)
      exact hl.wakes_run hmutex' (hl.step (interruptStep_loop hu).1 hs).1 hrest hrest'

/-- As long as some thread has not returned, some thread can go on, whatever is ready. -/
theorem Stops.progress (hl : Stops l waits) {s : Interruptible σ} (hmutex : MutexHeld (l.threads s.loop))
    (hs : Wakes l s) {state : ThreadState} (hmem : state ∈ (l.threads s.loop).threads) (hne : state ≠ .returned) :
    ∃ e t, l.thread e = some t ∧ (interruptStep l s (.step e false)).isSome := by
  have hgo : ∀ {t : Nat} {state : ThreadState}, (l.threads s.loop).threads[t]? = some state → state ≠ .returned →
      (state = .idle → (l.threads s.loop).waitMutex = none) →
      ∃ e t, l.thread e = some t ∧ (interruptStep l s (.step e false)).isSome := by
    intro t state ht hne hidle
    obtain ⟨e, he, hreturns, hsome⟩ := hl.enabled s.loop t state ht hne hidle
      fun hw => (hmutex t).mpr (hw ▸ ht)
    refine ⟨e, t, he, ?_⟩
    simp only [interruptStep]
    split
    · rename_i hr
      have hwaiting := hreturns hr
      subst hwaiting
      rw [hs.2 t ht, Bool.or_true, if_pos rfl, Option.isSome_map]
      exact hsome
    · rw [Option.isSome_map]
      exact hsome
  obtain ⟨t, ht⟩ := List.mem_iff_getElem?.mp hmem
  cases hfree : (l.threads s.loop).waitMutex with
  | none => exact hgo ht hne fun _ => hfree
  | some t' => exact hgo ((hmutex t').mp hfree) (by simp) (by simp)

end

/-! ## The two loops -/

section
variable {reg : Registry}

theorem threadStep_moves {s s' : MultiThreaded} {e : ThreadStep} {t : Nat} (ht : (priorityLoop reg).thread e = some t)
    (h : threadStep reg s e = some s') : ∃ old new, Moves s s' t old new ∧
      ((priorityLoop reg).returnsFromWait e = true → old = .waiting ∧ new ≠ .waiting) ∧
      (s.spinning = false → new.remaining 3 + 1 ≤ old.remaining 3) := by
  cases threadStep_stepped h with
  | wait hidle hfree hspinning =>
    cases ht
    exact ⟨.idle, .waiting, ⟨hidle, rfl, rfl, by simp [hfree, hspinning]⟩, by simp [priorityLoop], by simp [hspinning]⟩
  | leave hidle =>
    cases ht
    exact ⟨.idle, .returned, moves_working hidle (by simp) (by simp) rfl rfl rfl, by simp [priorityLoop],
      by simp [ThreadState.remaining]⟩
  | select hwaiting hheld hspinning =>
    cases ht
    refine ⟨.waiting, _, ⟨hwaiting, rfl, rfl, Or.inl ⟨rfl, ?_, hheld, rfl⟩⟩, fun _ => ⟨rfl, ?_⟩, by simp [hspinning]⟩
    · split <;> simp
    · split <;> simp
  | nothing hwaiting hheld =>
    cases ht
    exact ⟨.waiting, _, ⟨hwaiting, rfl, rfl, by simp [hheld]⟩, by simp, by simp [ThreadState.remaining]⟩
  | execute ha =>
    cases ht
    refine ⟨_, _, moves_working ha (by simp) ?_ rfl rfl rfl, by simp [priorityLoop], fun hs => ?_⟩
    · split <;> simp
    · simp [hs, ThreadState.remaining]
  | finish ha | discard ha =>
    cases ht
    exact ⟨_, _, moves_working ha (by simp) (by simp) rfl rfl rfl, by simp [priorityLoop], by simp [ThreadState.remaining]⟩
  | cancel => cases ht

theorem priorityLoop_stops (reg : Registry) : Stops (priorityLoop reg) fun _ => 3 where
  atLeast _ := by omega
  moves s e s' t ht h := by
    obtain ⟨old, new, hmoves, hreturns, hone⟩ := threadStep_moves ht h
    exact ⟨old, new, hmoves, hreturns, fun hs => ⟨Nat.le_refl _, hone hs⟩⟩
  cancels s e s' ht h := by
    cases e with
    | cancel =>
      cases h
      exact ⟨rfl, rfl, rfl⟩
    | lock | select | execute | finish | discard => cases ht
  enabled s t state ht hne hidle hwaiting := by
    change s.threads[t]? = some state at ht
    cases state with
    | idle =>
      refine ⟨.lock t {}, rfl, by simp [priorityLoop], ?_⟩
      have hfree : s.waitMutex = none := hidle rfl
      simp only [priorityLoop, threadStep, ht, hfree, and_self, if_true]
      split <;> rfl
    | waiting =>
      refine ⟨.select t { ready := fun _ _ => false }, rfl, fun _ => rfl, ?_⟩
      have hheld : s.waitMutex = some t := hwaiting rfl
      simp only [priorityLoop, threadStep, ht, hheld, and_self, if_true]
      split <;> rfl
    | selected a => exact ⟨.execute t, rfl, by simp [priorityLoop], by simp only [priorityLoop, threadStep, ht]; rfl⟩
    | executing a => exact ⟨.finish t, rfl, by simp [priorityLoop], by simp only [priorityLoop, threadStep, ht]; rfl⟩
    | discarding a => exact ⟨.discard t, rfl, by simp [priorityLoop], by simp only [priorityLoop, threadStep, ht]; rfl⟩
    | returned => exact absurd rfl hne

/-- How many steps a thread that waits still makes: it may not have collected the entities yet. -/
def DefaultThreads.waits (s : DefaultThreads) : Nat := if s.collected then 3 else 4

theorem defaultStep_moves {s s' : DefaultThreads} {e : DefaultStep} {t : Nat}
    (ht : (defaultLoop reg).thread e = some t) (h : defaultStep reg s e = some s') :
    ∃ old new, Moves s.toMultiThreaded s'.toMultiThreaded t old new ∧
      ((defaultLoop reg).returnsFromWait e = true → old = .waiting ∧ new ≠ .waiting) ∧
      (s.spinning = false → s'.waits ≤ s.waits ∧ new.remaining s'.waits + 1 ≤ old.remaining s.waits) := by
  cases defaultStep_stepped h with
  | selectFirst hidle hfree hspinning _ hok =>
    cases ht
    refine ⟨.idle, _, moves_working hidle (by simp) ?_ rfl rfl hfree.symm, by simp [defaultLoop], by simp [hspinning]⟩
    simp [hok]
  | wait hidle hfree hspinning =>
    cases ht
    exact ⟨.idle, .waiting, ⟨hidle, rfl, rfl, by simp [hfree, hspinning]⟩, by simp [defaultLoop], by simp [hspinning]⟩
  | leave hidle =>
    cases ht
    exact ⟨.idle, .returned, moves_working hidle (by simp) (by simp) rfl rfl rfl, by simp [defaultLoop],
      fun _ => ⟨Nat.le_refl _, by simp [ThreadState.remaining]⟩⟩
  | collect hwaiting _ hbefore =>
    cases ht
    refine ⟨.waiting, .waiting, ⟨hwaiting, ?_, rfl, by simp⟩, by simp [defaultLoop], fun _ => ?_⟩
    · obtain ⟨hlt, hat⟩ := List.getElem?_eq_some_iff.mp hwaiting
      rw [← hat, List.set_getElem_self]
    · simp [DefaultThreads.waits, ThreadState.remaining, hbefore]
  | selectSecond hwaiting hheld _ hspinning =>
    cases ht
    refine ⟨.waiting, _, ⟨hwaiting, rfl, rfl, Or.inl ⟨rfl, ?_, hheld, rfl⟩⟩, fun _ => ⟨rfl, ?_⟩, by simp [hspinning]⟩
    · split <;> simp
    · split <;> simp
  | nothing hwaiting hheld hafter =>
    cases ht
    refine ⟨.waiting, _, ⟨hwaiting, rfl, rfl, by simp [hheld]⟩, by simp, fun _ => ?_⟩
    simp [DefaultThreads.waits, ThreadState.remaining, hafter]
  | execute ha =>
    cases ht
    refine ⟨_, _, moves_working ha (by simp) ?_ rfl rfl rfl, by simp [defaultLoop], fun hs => ⟨Nat.le_refl _, ?_⟩⟩
    · split <;> simp
    · simp [hs, ThreadState.remaining]
  | finish ha | discard ha =>
    cases ht
    exact ⟨_, _, moves_working ha (by simp) (by simp) rfl rfl rfl, by simp [defaultLoop],
      fun _ => ⟨Nat.le_refl _, by simp [ThreadState.remaining]⟩⟩
  | cancel => cases ht

theorem defaultLoop_stops (reg : Registry) : Stops (defaultLoop reg) DefaultThreads.waits where
  atLeast s := by
    unfold DefaultThreads.waits
    split <;> omega
  moves s e s' t ht h := defaultStep_moves ht h
  cancels s e s' ht h := by
    cases e with
    | cancel =>
      cases h
      exact ⟨rfl, rfl, rfl⟩
    | tryFirst | collect | trySecond | execute | finish | discard => cases ht
  enabled s t state ht hne hidle hwaiting := by
    change s.threads[t]? = some state at ht
    cases state with
    | idle =>
      refine ⟨.tryFirst t {}, rfl, by simp [defaultLoop], ?_⟩
      have hfree : s.waitMutex = none := hidle rfl
      simp only [defaultLoop, defaultStep, ht, hfree, and_self, if_true]
      split
      · split <;> rfl
      · rfl
    | waiting =>
      have hheld : s.waitMutex = some t := hwaiting rfl
      cases hc : s.collected with
      | false =>
        refine ⟨.collect t {}, rfl, by simp [defaultLoop], ?_⟩
        simp only [defaultLoop, defaultStep, ht, hheld, hc, and_self, if_true]
        rfl
      | true =>
        refine ⟨.trySecond t (fun _ _ => false) {}, rfl, fun _ => rfl, ?_⟩
        simp only [defaultLoop, defaultStep, ht, hheld, hc, and_self, if_true]
        split <;> rfl
    | selected a => exact ⟨.execute t, rfl, by simp [defaultLoop], by simp only [defaultLoop, defaultStep, ht]; rfl⟩
    | executing a => exact ⟨.finish t, rfl, by simp [defaultLoop], by simp only [defaultLoop, defaultStep, ht]; rfl⟩
    | discarding a => exact ⟨.discard t, rfl, by simp [defaultLoop], by simp only [defaultLoop, defaultStep, ht]; rfl⟩
    | returned => exact absurd rfl hne

end

/-! ## After a cancel -/

/-- A thread makes at most `most` steps after `spinning` has been cleared; and
once the guard condition has been triggered after that, all threads have
returned or one of them can make a step, also where a wait finds nothing ready. -/
def ThreadLoop.Returns {σ ε : Type} (l : ThreadLoop σ ε) (start : σ) (most : Nat) : Prop :=
  ∀ (steps steps' : List (InterruptStep ε)) (s s' : Interruptible σ),
    runSteps (interruptStep l) { loop := start } steps = some s → (l.threads s.loop).spinning = false →
    runSteps (interruptStep l) s steps' = some s' →
      (∀ t, steps'.countP (fun e => e.thread l = some t) ≤ most) ∧
      (.trigger ∈ steps' → (∀ state ∈ (l.threads s'.loop).threads, state = .returned) ∨
        ∃ e t, l.thread e = some t ∧ (interruptStep l s' (.step e false)).isSome)

theorem Stops.returns {σ ε : Type} {l : ThreadLoop σ ε} {waits : σ → Nat} (hl : Stops l waits) {start : σ} {most : Nat}
    (hstart : MutexHeld (l.threads start)) (hmost : ∀ s, waits s ≤ most) : l.Returns start most := by
  intro steps steps' s s' hrun hstopped hrun'
  have hmutex := hl.mutexHeld_run (s := { loop := start }) hstart hrun
  refine ⟨fun t => Nat.le_trans (hl.count hstopped hrun' t) (hmost s.loop), fun htrigger => ?_⟩
  have hwakes := hl.wakes_run hmutex hstopped hrun' htrigger
  by_cases hall : ∀ state ∈ (l.threads s'.loop).threads, state = .returned
  · exact Or.inl hall
  · obtain ⟨state, hstate⟩ := Classical.not_forall.mp hall
    obtain ⟨hmem, hne⟩ := Classical.not_imp.mp hstate
    exact Or.inr (hl.progress (hl.mutexHeld_run hmutex hrun') hwakes hmem hne)

theorem mutexHeld_multiThreaded (numberOfThreads : Nat) : MutexHeld (multiThreaded numberOfThreads) := by
  intro t
  unfold multiThreaded
  simp [List.getElem?_replicate]

/-- **After a cancel** all threads return, with callback priorities and without them. -/
theorem cancel_returns (reg : Registry) (numberOfThreads : Nat) :
    (priorityLoop reg).Returns (multiThreaded numberOfThreads) 3 ∧
    (defaultLoop reg).Returns (defaultThreads numberOfThreads) 4 := by
  have hmutex := mutexHeld_multiThreaded numberOfThreads
  refine ⟨(priorityLoop_stops reg).returns hmutex fun s => Nat.le_refl _, (defaultLoop_stops reg).returns hmutex fun s => ?_⟩
  unfold DefaultThreads.waits
  split <;> omega

/-- One thread waits and one is at the mutex when the executor is stopped:
where nothing is ready they wait for the trigger. -/
theorem waitingThread_returns : ∃ s s', runSteps (interruptStep (priorityLoop timersAndSubscription))
    { loop := multiThreaded 2 } [.step (.lock 1 {}) false, .step .cancel false] = some s ∧
    (∀ w, interruptStep (priorityLoop timersAndSubscription) s (.step (.select 1 w) false) = none) ∧
    (∀ alive, interruptStep (priorityLoop timersAndSubscription) s (.step (.lock 0 alive) false) = none) ∧
    runSteps (interruptStep (priorityLoop timersAndSubscription)) s [.trigger] = some s' ∧
    ∃ e t, (priorityLoop timersAndSubscription).thread e = some t ∧
      (interruptStep (priorityLoop timersAndSubscription) s' (.step e false)).isSome := by
  have hrun : (runSteps (interruptStep (priorityLoop timersAndSubscription)) { loop := multiThreaded 2 }
      [.step (.lock 1 {}) false, .step .cancel false]).any
      (fun s => s.loop.spinning = false ∧ s.loop.threads = [.idle, .waiting] ∧ s.loop.waitMutex = some 1 ∧
        s.triggered = false) := by
    decide
  obtain ⟨s, hs, hfacts⟩ := (Option.any_eq_true _ _).mp hrun
  obtain ⟨hstopped, hthreads, hmutex, hnot⟩ := of_decide_eq_true hfacts
  have hreturns := ((cancel_returns timersAndSubscription 2).1 _ [.trigger] s { s with triggered := true } hs hstopped rfl).2
    (List.mem_cons_self ..)
  refine ⟨s, _, hs, fun w => ?_, fun alive => ?_, rfl, hreturns.resolve_left fun hall => ?_⟩
  · simp [interruptStep, priorityLoop, hnot]
  · simp [interruptStep, priorityLoop, threadStep, hmutex]
  · have hidle := hall .idle (by simp [priorityLoop, hthreads])
    cases hidle

/-- Without priorities four steps are possible: the thread that waits may not have collected the entities yet. -/
example : (runSteps (interruptStep (defaultLoop timersAndSubscription)) { loop := defaultThreads 1 }
    ([.step (.tryFirst 0 {}) false, .step .cancel false, .trigger] ++
      [.collect 0 {}, .trySecond 0 (fun _ _ => false) {}, .discard 0, .tryFirst 0 {}].map (.step · false))).isSome := by
  decide

end ReferenceSystem
