import ReferenceSystem.DefaultSound

/-!
# What `spin_some` and `spin_all` execute

Without priorities `spin_some` waits once and executes what that wait has
found, and `spin_all` goes on until a wait finds nothing. With priorities a try
takes every handle out of the queues, so `spin_some` executes one callback at
most and what else was ready is not executed by it.
-/

namespace ReferenceSystem

def SpinSome.waited (reg : Registry) (s : SpinSome) (i : SomePass) : Spin :=
  if s.workAvailable then s.spin else waitForWork reg s.spin i.collected i.ready

/-! ## Between two passes no group is in use -/

section
variable {enabled : Bool} {reg : Registry} {s : Spin}

theorem getNextReady_released (hfree : s.canBeTakenFrom = fun _ => true) (sight : Sight) (a : AnyExecutable)
    (spinning : Bool) : ((getNextReadyExecutable enabled reg s sight a).execute spinning).canBeTakenFrom = fun _ => true :=
  nextReady_released (c := sight.context enabled reg s.canBeTakenFrom) hfree
    { anyExecutable := a, memoryStrategy := s.memoryStrategy }

theorem takeGroup_failed {c : Context} {success : Bool} {m : Selection} (h : (takeGroup c success m).success = false) :
    (takeGroup c success m).canBeTakenFrom = c.canBeTakenFrom := by
  unfold takeGroup at h ⊢
  split
  · rename_i g hg
    rw [hg] at h
    simp only at h
    split at h
    · cases h
    · rename_i hnot
      rw [if_neg hnot]
  · rfl

theorem getNextReady_failed {sight : Sight} {a : AnyExecutable}
    (h : (getNextReadyExecutable enabled reg s sight a).success = false) :
    (getNextReadyExecutable enabled reg s sight a).spin.canBeTakenFrom = s.canBeTakenFrom := by
  unfold getNextReadyExecutable getNextReadyExecutableFromMap at h ⊢
  split at h
  · rename_i henabled
    simp only [henabled, if_true]
    exact takeGroup_failed h
  · rename_i henabled
    simp only [henabled]
    exact takeGroup_failed h

theorem release_free (a : AnyExecutable) : a.release (fun _ => true) = fun _ => true := by
  unfold AnyExecutable.release storeFlag
  split
  · rfl
  · simp

/-- The rest of `get_next_executable` after its first try. -/
theorem afterFirst_released {first : Next} {i : Pass} (spinning : Bool)
    (hreleased : (first.execute spinning).canBeTakenFrom = fun _ => true)
    (hfailed : first.success = false → first.spin.canBeTakenFrom = fun _ => true) :
    ((if first.success then first
      else
        let waited := waitForWork reg first.spin i.collected i.ready
        if !i.spinningAfterWait then ⟨false, first.anyExecutable, waited⟩
        else getNextReadyExecutable enabled reg waited i.second first.anyExecutable).execute spinning).canBeTakenFrom =
      fun _ => true := by
  split
  · exact hreleased
  · rename_i hnot
    have hwaited : (waitForWork reg first.spin i.collected i.ready).canBeTakenFrom = fun _ => true :=
      hfailed (Bool.eq_false_iff.mpr hnot)
    simp only
    split
    · unfold Next.execute
      simp only [hwaited]
      exact release_free _
    · exact getNextReady_released hwaited _ _ _

theorem spinPass_free {s' : Spin} {i : Pass} (hfree : s.canBeTakenFrom = fun _ => true)
    (h : spinPass enabled reg s i = some s') : s'.canBeTakenFrom = fun _ => true := by
  cases h
  refine afterFirst_released i.spinningBeforeExecute ?_ ?_
  · split
    · exact hfree
    · exact getNextReady_released hfree _ _ _
  · split
    · exact fun _ => hfree
    · exact fun hfail => (getNextReady_failed hfail).trans hfree

theorem waited_free {s : SpinSome} {i : SomePass} (hfree : s.spin.canBeTakenFrom = fun _ => true) :
    (s.waited reg i).canBeTakenFrom = fun _ => true := by
  unfold SpinSome.waited
  split
  · exact hfree
  · exact hfree

theorem spinSomePass_free {exhaustive : Bool} {s s' : SpinSome} {i : SomePass}
    (hfree : s.spin.canBeTakenFrom = fun _ => true) (h : spinSomePass enabled reg exhaustive s i = some s') :
    s'.spin.canBeTakenFrom = fun _ => true := by
  have hreleased : ((getNextReadyExecutable enabled reg (s.waited reg i) i.sight {}).execute
      i.spinningBeforeExecute).canBeTakenFrom = fun _ => true := getNextReady_released (waited_free hfree) _ _ _
  unfold SpinSome.waited at hreleased
  unfold spinSomePass at h
  simp only at h
  generalize (if s.workAvailable then s.spin else waitForWork reg s.spin i.collected i.ready) = waited at h hreleased
  split at h
  · cases h
  · split at h
    · cases h
      exact hfree
    · split at h
      · cases h
        exact hreleased
      · split at h
        · cases h
          exact hreleased
        · cases h
          exact hreleased

/-- A call that has returned makes no further pass. -/
theorem runSteps_returned {exhaustive : Bool} {s t : SpinSome} {passes : List SomePass} (ht : t.returned = true)
    (h : runSteps (spinSomePass enabled reg exhaustive) t passes = some s) : passes = [] ∧ s = t := by
  cases passes with
  | nil =>
    cases h
    exact ⟨rfl, rfl⟩
  | cons i rest =>
    obtain ⟨u, hu, _⟩ := runSteps_cons.mp h
    unfold spinSomePass at hu
    rw [ht] at hu
    cases hu

/-- No callback group is in use after any calls of the single-threaded executor. -/
theorem calls_free (calls : List SpinCall) (s : Spin) (h : runSteps spinCall {} calls = some s) :
    s.canBeTakenFrom = fun _ => true := by
  refine run_invariant (P := fun s => s.canBeTakenFrom = fun _ => true) (fun s call s' hfree hcall => ?_) calls rfl h
  cases call with
  | spin reg enabled passes => exact run_invariant (fun s i s' hfree hstep => spinPass_free hfree hstep) passes hfree hcall
  | spinSome reg enabled exhaustive passes =>
    obtain ⟨t, ht, rfl⟩ := Option.map_eq_some_iff.mp hcall
    exact run_invariant (P := fun s : SpinSome => s.spin.canBeTakenFrom = fun _ => true)
      (fun s i s' hfree hstep => spinSomePass_free hfree hstep) passes hfree ht

end

/-! ## A pass without priorities -/

/-- What a pass that goes on does: its try, and where that leaves the loop. -/
structure SomeStep (reg : Registry) (exhaustive : Bool) (s : SpinSome) (i : SomePass) (x : Option Candidate)
    (r : NextReady) (s' : SpinSome) : Prop where
  running : s.returned = false
  takes : TakesFirst (i.sight.context false reg s.spin.canBeTakenFrom) (s.waited reg i).memoryStrategy x r
  spin : s'.spin = (s.waited reg i).tried i.sight x r.selection.memoryStrategy i.spinningBeforeExecute
  workAvailable : s'.returned = false → s'.workAvailable = x.isSome
  returned : s'.returned = true ↔ x = none ∧ (s.workAvailable = true → exhaustive = false)

section
variable {reg : Registry} {exhaustive : Bool} {s s' : SpinSome} {i : SomePass}

/-- **A pass without priorities** returns without a try, or makes one. -/
theorem spinSomePass_cases (hfree : s.spin.canBeTakenFrom = fun _ => true)
    (h : spinSomePass false reg exhaustive s i = some s') :
    (i.goesOn = false ∧ s.returned = false ∧ s' = { s with returned := true }) ∨
      i.goesOn = true ∧ ∃ x r, SomeStep reg exhaustive s i x r s' := by
  have hflags : (s.waited reg i).canBeTakenFrom = fun _ => true := waited_free hfree
  obtain ⟨x, r, htakes, hsuccess, hexecute, _⟩ := getNextReady_tried reg hflags i.sight
  have hspin := hexecute i.spinningBeforeExecute
  rw [hflags, ← hfree] at htakes
  unfold SpinSome.waited at hsuccess hspin
  unfold spinSomePass at h
  cases hreturned : s.returned with
  | true => simp [hreturned] at h
  | false =>
    cases hgoes : i.goesOn with
    | false =>
      simp only [hreturned, hgoes, Bool.false_eq_true, if_false, Bool.not_false, if_true, Option.some.injEq] at h
      exact Or.inl ⟨rfl, rfl, h.symm⟩
    | true =>
      simp only [hreturned, hgoes, Bool.false_eq_true, if_false, Bool.not_true, hsuccess, hspin] at h
      refine Or.inr ⟨rfl, x, r, ?_⟩
      cases x with
      | some x =>
        cases h
        exact ⟨hreturned, htakes, rfl, fun _ => rfl, by simp⟩
      | none =>
        simp only [Option.isSome_none, Bool.false_eq_true, if_false] at h
        split at h
        · rename_i hreturns
          cases h
          refine ⟨hreturned, htakes, rfl, by simp, iff_of_true rfl ⟨rfl, fun hwork => ?_⟩⟩
          simpa [hwork] using hreturns
        · rename_i hgoesOn
          cases h
          refine ⟨hreturned, htakes, rfl, fun _ => rfl, iff_of_false (by simp) fun h => hgoesOn ?_⟩
          cases hwork : s.workAvailable with
          | false => rfl
          | true => simp [h.2 hwork]

end

/-! ## `spin_some` -/

section
variable {m m' : MemoryStrategy}

theorem mem_queue {k : Kind} {handle : Nat} : (k, handle) ∈ m.queue ↔ handle ∈ m.handles k := by
  unfold MemoryStrategy.queue
  cases k <;> simp [kinds]

theorem queue_sublist (h : ∀ k, (m'.handles k).Sublist (m.handles k)) : m'.queue.Sublist m.queue := by
  have hmap := fun k => (h k).map fun handle => (k, handle)
  unfold MemoryStrategy.queue
  simp only [kinds, List.flatMap_cons, List.flatMap_nil, List.append_nil]
  exact (hmap .timer).append ((hmap .subscription).append ((hmap .service).append ((hmap .client).append (hmap .waitable))))

/-- A try that takes something makes the queue shorter. -/
theorem TakesFirst.shorter {c : Context} {x : Candidate} {r : NextReady} (h : TakesFirst c m (some x) r)
    (hnodup : ∀ k, (m.handles k).Nodup) : r.selection.memoryStrategy.queue.length < m.queue.length := by
  obtain ⟨hin, hgone⟩ := h.picked hnodup (List.mem_singleton_self (x.kind, x.entity.handle))
  have hsub := queue_sublist h.left
  refine Nat.lt_of_le_of_ne hsub.length_le fun heq => hgone ?_
  rw [← mem_queue, hsub.eq_of_length heq]
  exact mem_queue.mpr hin

end

/-- How many passes a call still makes at most. -/
def SpinSome.left (s : SpinSome) : Nat := if s.returned then 0 else s.spin.memoryStrategy.queue.length + 1

/-- What one call has done since its wait. -/
structure Spun (reg : Registry) (start : Spin) (found : MemoryStrategy) (s : SpinSome) : Prop where
  free : s.spin.canBeTakenFrom = fun _ => true
  going : s.returned = false → s.workAvailable = true
  found : s.spin.window.found = found
  windows : s.spin.windows = start.windows ++ [start.window]
  accounts : s.spin.window.Accounts reg s.spin.memoryStrategy

def SpinSome.Executed (start : Spin) (s : SpinSome) : Prop :=
  s.spin.executed = start.executed ++ s.spin.window.taken

section
variable {reg : Registry} {start : Spin} {found : MemoryStrategy} {s s' : SpinSome}
variable {i : SomePass} {x : Option Candidate} {r : NextReady}

theorem left_returned (h : s.returned = true) : s.left = 0 := if_pos h

theorem left_running (h : s.returned = false) : s.left = s.spin.memoryStrategy.queue.length + 1 :=
  if_neg (Bool.eq_false_iff.mp h)

/-- A try, in a state that has what the call has found so far. -/
theorem Spun.tried (start : Spin) (hfree : s.spin.canBeTakenFrom = fun _ => true)
    (hwindows : (s.waited reg i).windows = start.windows ++ [start.window])
    (haccounts : (s.waited reg i).window.Accounts reg (s.waited reg i).memoryStrategy)
    (hstep : SomeStep reg false s i x r s') :
    Spun reg start (s.waited reg i).window.found s' ∧
      s'.left ≤ (s.waited reg i).memoryStrategy.queue.length ∧
      ((s.waited reg i).executed = start.executed ++ (s.waited reg i).window.taken →
        i.spinningBeforeExecute = true → s'.Executed start) ∧
      (s'.returned = true → s'.spin.window.Complete reg) := by
  have hspin := hstep.spin
  refine ⟨⟨?_, fun h => ?_, by rw [hspin]; rfl, by rw [hspin]; exact hwindows, ?_⟩, ?_, fun hexecuted h => ?_, fun h => ?_⟩
  · rw [hspin]
    exact waited_free hfree
  · rw [hstep.workAvailable h]
    cases x with
    | none => rw [hstep.returned.mpr ⟨rfl, fun _ => rfl⟩] at h; cases h
    | some x => rfl
  · rw [hspin]
    exact haccounts.try hstep.takes
  · cases x with
    | none =>
      rw [left_returned (hstep.returned.mpr ⟨rfl, fun _ => rfl⟩)]
      exact Nat.zero_le _
    | some x =>
      have hgoesOn : s'.returned = false := Bool.eq_false_iff.mpr fun h => by cases (hstep.returned.mp h).1
      rw [left_running hgoesOn, hspin]
      exact hstep.takes.shorter fun k => (haccounts.left k).nodup (haccounts.nodup k)
  · have htaken : ((s.waited reg i).window.try i.sight x).taken = _ := taken_try
    unfold SpinSome.Executed
    rw [hspin]
    unfold Spin.tried
    simp only [h, if_true, hexecuted, htaken, List.append_assoc]
  · have hnone := (hstep.returned.mp h).1
    have htakes := hstep.takes
    rw [hnone] at htakes
    rw [hspin, hnone]
    exact haccounts.complete (fun g => by rw [hfree]) htakes

theorem Spun.step (h : Spun reg start found s) (hstep : spinSomePass false reg false s i = some s') :
    Spun reg start found s' ∧ s'.left + 1 ≤ s.left ∧
      (s.Executed start → i.spinningBeforeExecute = true → s'.Executed start) ∧
      (i.goesOn = true → s'.returned = true → s'.spin.window.Complete reg) := by
  rcases spinSomePass_cases h.free hstep with ⟨hgoes, hrunning, rfl⟩ | ⟨hgoes, x, r, hsome⟩
  · refine ⟨⟨h.free, by simp, h.found, h.windows, h.accounts⟩, ?_, fun hexecuted _ => hexecuted, fun hall => ?_⟩
    · rw [left_returned rfl, left_running hrunning]
      omega
    · rw [hall] at hgoes
      cases hgoes
  · have hwaited : s.waited reg i = s.spin := by
      unfold SpinSome.waited
      rw [h.going hsome.running]
      rfl
    obtain ⟨hspun, hleft, hexecuted, hcomplete⟩ :=
      Spun.tried start h.free (hwaited.symm ▸ h.windows) (hwaited.symm ▸ h.accounts) hsome
    rw [hwaited] at hspun hleft hexecuted
    rw [h.found] at hspun
    refine ⟨hspun, ?_, hexecuted, fun _ => hcomplete⟩
    rw [left_running hsome.running]
    exact Nat.succ_le_succ hleft

end

/-- **`spin_some` without priorities** waits once at most; whatever is created or
destroyed meanwhile it takes each callback that the wait has found once at most
and nothing else, and ends after at most one pass more than that; if it is not
stopped, no callback that was found and is still there is left. -/
theorem spinSome_once (reg : Registry) (start : Spin) (hfree : start.canBeTakenFrom = fun _ => true)
    (passes : List SomePass) (s : SpinSome)
    (hrun : runSteps (spinSomePass false reg false) { spin := start } passes = some s) :
    s.spin = start ∧ passes.length ≤ 1 ∨
    s.spin.windows = start.windows ++ [start.window] ∧
    passes.length ≤ s.spin.window.found.queue.length + 1 ∧
    (s.spin.window.taken.Nodup ∧ ∀ k handle, (k, handle) ∈ s.spin.window.taken → handle ∈ s.spin.window.found.handles k) ∧
    ((∀ i ∈ passes, i.spinningBeforeExecute = true) → s.spin.executed = start.executed ++ s.spin.window.taken) ∧
    (s.returned = true → (∀ i ∈ passes, i.goesOn = true) → s.spin.window.Complete reg) := by
  cases passes with
  | nil =>
    cases hrun
    exact Or.inl ⟨rfl, Nat.zero_le _⟩
  | cons i rest =>
    obtain ⟨s₁, hfirst, hrest⟩ := runSteps_cons.mp hrun
    rcases spinSomePass_cases hfree hfirst with ⟨_, _, rfl⟩ | ⟨_, x, r, hsome⟩
    · obtain ⟨rfl, rfl⟩ := runSteps_returned rfl hrest
      exact Or.inl ⟨rfl, Nat.le_refl _⟩
    · right
      obtain ⟨hspun, hleft, hexecuted, hcomplete⟩ :=
        Spun.tried start hfree rfl (accounts_found i.collected i.ready) hsome
      have hend := run_invariant (fun s j s' h hstep => (h.step hstep).1) rest hspun hrest
      have hcount := run_count (m := SpinSome.left) (c := fun _ => true)
        (fun s j s' h hstep => ⟨(Spun.step h hstep).1, (Spun.step h hstep).2.1⟩) rest hspun hrest
      rw [List.countP_true] at hcount
      refine ⟨hend.windows, ?_, ⟨hend.accounts.once, fun k handle hmem => (hend.accounts.taken k handle hmem).1⟩,
        fun hall => ?_, fun hreturned hall => ?_⟩
      · rw [hend.found, List.length_cons]
        exact Nat.succ_le_succ ((Nat.le_add_right _ _).trans (hcount.trans hleft))
      · refine (run_invariant_meeting (P := fun s => Spun reg start _ s ∧ s.Executed start)
          (C := fun _ j => j.spinningBeforeExecute = true)
          (fun s j s' h hj hstep => ⟨(h.1.step hstep).1, (h.1.step hstep).2.2.1 h.2 hj⟩) rest
          ⟨hspun, hexecuted (List.append_nil _).symm (hall i (List.mem_cons_self ..))⟩
          (stepsMeet_of_mem rest s₁ fun j hj _ => hall j (List.mem_cons_of_mem _ hj)) hrest).2
      · refine (run_invariant_meeting (P := fun s => Spun reg start _ s ∧ (s.returned = true → s.spin.window.Complete reg))
          (C := fun _ j => j.goesOn = true)
          (fun s j s' h hj hstep => ⟨(h.1.step hstep).1, (h.1.step hstep).2.2.2 hj⟩) rest ⟨hspun, hcomplete⟩
          (stepsMeet_of_mem rest s₁ fun j hj _ => hall j (List.mem_cons_of_mem _ hj)) hrest).2 hreturned

/-- The first timer destroys the second one, and the subscription is executed in the same call. -/
def destroyedTimerSome : List SomePass :=
  let sight : Sight := { alive := { entity := fun k handle => !(k = .timer && handle = 2) } }
  [{ ready := fun _ _ => true }, { sight }, { sight }]

theorem destroyedTimerSome_once : ∃ s, runSteps (spinSomePass false timersAndSubscription false) {} destroyedTimerSome = some s ∧
    s.returned = true ∧ s.spin.executed = [(.timer, 1), (.subscription, 3)] ∧
    s.spin.window.Complete timersAndSubscription := by
  have hrun : (runSteps (spinSomePass false timersAndSubscription false) {} destroyedTimerSome).any
      (fun s => s.returned ∧ s.spin.executed = [(.timer, 1), (.subscription, 3)]) := by decide
  obtain ⟨s, hs, hfacts⟩ := (Option.any_eq_true _ _).mp hrun
  obtain ⟨hreturned, hexecuted⟩ := of_decide_eq_true hfacts
  refine ⟨s, hs, hreturned, hexecuted, ?_⟩
  rcases spinSome_once timersAndSubscription {} rfl destroyedTimerSome s hs with ⟨hstart, _⟩ | ⟨_, _, _, _, hcomplete⟩
  · rw [hstart] at hexecuted
    cases hexecuted
  · exact hcomplete hreturned (by decide)

/-! ## `spin_all` -/

def SomePass.Steady (i : SomePass) (alive : Alive) : Prop :=
  i.collected = alive ∧ i.sight = ⟨alive, fun _ => false⟩ ∧ i.spinningBeforeExecute = true

/-- What a call that has waited has found is executed in order, and when it waits
again nothing is left from before. -/
structure SpinSome.InOrder (reg : Registry) (alive : Alive) (exhaustive : Bool) (passes : List SomePass) (start : Spin)
    (ws : List Window) (ex : List (Kind × Nat)) (s : SpinSome) : Prop where
  windows : s.spin.windows = start.windows ++ start.window :: ws
  executed : s.spin.executed = start.executed ++ ex
  spin : s.spin.InOrder reg alive ws ex
  found : ∀ w ∈ ws ++ [s.spin.window], ∃ i ∈ passes, w.found.queue = reg.readyCallbacks alive i.ready
  free : s.spin.canBeTakenFrom = fun _ => true
  empty : s.workAvailable = false → s.spin.memoryStrategy.queue = []
  settled : s.returned = true → (∀ i ∈ passes, i.goesOn = true) →
    s.spin.memoryStrategy.queue = [] ∧ (exhaustive = true → s.spin.window.found.queue = [])

section
variable {reg : Registry} {alive : Alive} {exhaustive : Bool} {passes : List SomePass} {start : Spin}
variable {ws : List Window} {ex : List (Kind × Nat)} {s s' : SpinSome} {i : SomePass}

/-- A try, in a state that has what the call has found so far. -/
theorem SpinSome.InOrder.tried {x : Option Candidate} {r : NextReady} (hsteady : i.Steady alive)
    (hfree : s.spin.canBeTakenFrom = fun _ => true)
    (hwindows : (s.waited reg i).windows = start.windows ++ start.window :: ws)
    (hexecuted : (s.waited reg i).executed = start.executed ++ ex) (hwaited : (s.waited reg i).InOrder reg alive ws ex)
    (hfound : ∀ w ∈ ws ++ [(s.waited reg i).window], ∃ i ∈ passes, w.found.queue = reg.readyCallbacks alive i.ready)
    (hsome : SomeStep reg exhaustive s i x r s') :
    s'.InOrder reg alive exhaustive passes start ws (ex ++ takenBy x) := by
  obtain ⟨_, hsight, hspinning⟩ := hsteady
  have htakes := hsome.takes
  have hspin := hsome.spin
  rw [hsight, hfree] at htakes
  rw [hsight, hspinning] at hspin
  obtain ⟨hqueue, hnil⟩ := queue_live hwaited.known hwaited.live htakes
  have hempty : x = none → s'.spin.memoryStrategy.queue = [] := by
    rintro rfl
    rw [hspin]
    exact hqueue.symm.trans (hnil rfl)
  refine ⟨by rw [hspin]; exact hwindows, ?_, by rw [hspin]; exact hwaited.tried htakes, fun w hw => ?_,
    by rw [hspin]; exact waited_free hfree, fun hwork => ?_, fun hreturned _ => ?_⟩
  · rw [hspin, ← List.append_assoc, ← hexecuted]
    rfl
  · rcases List.mem_append.mp hw with hw | hw
    · exact hfound w (List.mem_append_left _ hw)
    · cases List.mem_singleton.mp hw
      rw [hspin]
      exact hfound (s.waited reg i).window (List.mem_append_right _ (List.mem_singleton_self _))
  · cases hreturned : s'.returned with
    | true => exact hempty (hsome.returned.mp hreturned).1
    | false =>
      rw [hsome.workAvailable hreturned] at hwork
      exact hempty (Option.not_isSome_iff_eq_none.mp (Bool.eq_false_iff.mp hwork))
  · obtain ⟨hnone, hexhaustive⟩ := hsome.returned.mp hreturned
    refine ⟨hempty hnone, fun hall => ?_⟩
    have hwork : s.workAvailable = false :=
      Bool.eq_false_iff.mpr fun hwork => by rw [hexhaustive hwork] at hall; cases hall
    have hlast : (s.waited reg i).window.found = (s.waited reg i).memoryStrategy := by
      unfold SpinSome.waited
      rw [hwork]
      rfl
    rw [hspin]
    exact (congrArg MemoryStrategy.queue hlast).trans (hnil hnone)

theorem SpinSome.InOrder.step (hi : i ∈ passes) (hsteady : i.Steady alive)
    (h : s.InOrder reg alive exhaustive passes start ws ex) (hstep : spinSomePass false reg exhaustive s i = some s') :
    ∃ ws' ex', s'.InOrder reg alive exhaustive passes start ws' ex' := by
  rcases spinSomePass_cases h.free hstep with ⟨hgoes, _, rfl⟩ | ⟨_, x, r, hsome⟩
  · refine ⟨ws, ex, h.windows, h.executed, h.spin, h.found, h.free, h.empty, fun _ hall => ?_⟩
    rw [hall i hi] at hgoes
    cases hgoes
  · cases hwork : s.workAvailable with
    | true =>
      have hwaited : s.waited reg i = s.spin := if_pos hwork
      exact ⟨ws, _, SpinSome.InOrder.tried hsteady h.free (hwaited ▸ h.windows) (hwaited ▸ h.executed) (hwaited ▸ h.spin)
        (hwaited ▸ h.found) hsome⟩
    | false =>
      -- the pass waits, and the window before it is complete
      have hwaited : s.waited reg i = waitForWork reg s.spin alive i.ready := by
        rw [← hsteady.1]
        exact if_neg (Bool.eq_false_iff.mp hwork)
      have hin := h.spin.waited (h.empty hwork) i.ready
      refine ⟨ws ++ [s.spin.window], _, SpinSome.InOrder.tried hsteady h.free ?_ ?_ (hwaited ▸ hin) (fun w hw => ?_) hsome⟩
      · rw [hwaited, ← List.cons_append, ← List.append_assoc, ← h.windows]
        rfl
      · rw [hwaited]
        exact h.executed
      · rcases List.mem_append.mp hw with hw | hw
        · exact h.found w hw
        · cases List.mem_singleton.mp hw
          rw [hwaited]
          exact ⟨i, hi, waitForWork_found h.free i.ready⟩

end

/-- **`spin_some` and `spin_all` in order**: after any calls, a call without
priorities in which nothing is created, destroyed or cancelled and that is not
stopped executes all that its waits have found, in order; nothing of it is left
once it has returned by itself, and the last wait of `spin_all` has found nothing.
What earlier calls have left in the queues is dropped by its first wait. -/
theorem spinSome_in_order (reg : Registry) (alive : Alive) (exhaustive : Bool) (calls : List SpinCall) (start : Spin)
    (hstart : runSteps spinCall {} calls = some start) (passes : List SomePass)
    (hpasses : ∀ i ∈ passes, i.Steady alive) (s : SpinSome)
    (hrun : runSteps (spinSomePass false reg exhaustive) { spin := start } passes = some s) :
    s.spin = start ∧ passes.length ≤ 1 ∨
    ∃ ws ex, s.spin.windows = start.windows ++ start.window :: ws ∧ s.spin.executed = start.executed ++ ex ∧
      ex ++ s.spin.memoryStrategy.queue = (ws ++ [s.spin.window]).flatMap (fun w => w.found.queue) ∧
      (∀ w ∈ ws ++ [s.spin.window], ∃ i ∈ passes, w.found.queue = reg.readyCallbacks alive i.ready) ∧
      (s.returned = true → (∀ i ∈ passes, i.goesOn = true) →
        s.spin.memoryStrategy.queue = [] ∧ (exhaustive = true → s.spin.window.found.queue = [])) := by
  have hfree := calls_free calls start hstart
  cases passes with
  | nil =>
    cases hrun
    exact Or.inl ⟨rfl, Nat.zero_le _⟩
  | cons i rest =>
    have hi : i ∈ i :: rest := List.mem_cons_self ..
    obtain ⟨s₁, hfirst, hrest⟩ := runSteps_cons.mp hrun
    rcases spinSomePass_cases hfree hfirst with ⟨_, _, rfl⟩ | ⟨_, x, r, hsome⟩
    · obtain ⟨rfl, rfl⟩ := runSteps_returned rfl hrest
      exact Or.inl ⟨rfl, Nat.le_refl _⟩
    · right
      have hwaited : SpinSome.waited reg { spin := start } i = waitForWork reg start alive i.ready := by
        rw [← (hpasses i hi).1]
        rfl
      have hin : ∃ ws ex, s₁.InOrder reg alive exhaustive (i :: rest) start ws ex := by
        have hwait : (SpinSome.waited reg { spin := start } i).InOrder reg alive [] [] :=
          hwaited ▸ inOrder_wait start i.ready
        refine ⟨[], _, SpinSome.InOrder.tried (hpasses i hi) hfree rfl (List.append_nil _).symm hwait (fun w hw => ?_) hsome⟩
        cases List.mem_singleton.mp hw
        rw [hwaited]
        exact ⟨i, hi, waitForWork_found hfree i.ready⟩
      obtain ⟨ws, ex, hend⟩ := run_invariant_meeting
        (P := fun s => ∃ ws ex, s.InOrder reg alive exhaustive (i :: rest) start ws ex) (C := fun _ j => j ∈ i :: rest)
        (fun s j s' ⟨ws, ex, h⟩ hj hstep => h.step hj (hpasses j hj) hstep) rest hin
        (stepsMeet_of_mem rest s₁ fun j hj _ => List.mem_cons_of_mem _ hj) hrest
      exact ⟨ws, ex, hend.windows, hend.executed, hend.spin.executed, hend.found, hend.settled⟩

/-- A call that `max_duration` ends with the second timer and the subscription still queued. -/
def outOfTime : SpinCall :=
  .spinSome timersAndSubscription false false [{ ready := fun _ _ => true }, { goesOn := false }]

/-- The second wait finds the subscription again, the third one nothing. -/
def readyAgain : List SomePass :=
  [{ ready := fun _ _ => true }, {}, {}, {}, { ready := fun _ handle => handle = 3 }, {}, {}]

theorem readyAgain_in_order : ∃ start s, runSteps spinCall {} [outOfTime] = some start ∧
    start.memoryStrategy.queue = [(.timer, 2), (.subscription, 3)] ∧
    runSteps (spinSomePass false timersAndSubscription true) { spin := start } readyAgain = some s ∧
    s.spin.executed = (.timer, 1) :: [(.timer, 1), (.timer, 2), (.subscription, 3), (.subscription, 3)] ∧
    s.spin.memoryStrategy.queue = [] := by
  have hrun : ((runSteps spinCall {} [outOfTime]).bind fun start =>
      (runSteps (spinSomePass false timersAndSubscription true) { spin := start } readyAgain).map fun s => (start, s)).any
      (fun r => r.1.memoryStrategy.queue = [(.timer, 2), (.subscription, 3)] ∧ r.2.returned ∧
        r.2.spin.executed = (.timer, 1) :: [(.timer, 1), (.timer, 2), (.subscription, 3), (.subscription, 3)]) := by
    decide
  obtain ⟨⟨start, s⟩, hboth, hfacts⟩ := (Option.any_eq_true _ _).mp hrun
  obtain ⟨hleft, hreturned, hexecuted⟩ := of_decide_eq_true hfacts
  obtain ⟨start, hstart, hs⟩ := Option.bind_eq_some_iff.mp hboth
  obtain ⟨s, hs, heq⟩ := Option.map_eq_some_iff.mp hs
  cases heq
  have hsteady : ∀ i ∈ readyAgain, i.Steady {} ∧ i.goesOn = true := by
    intro i hi
    simp only [readyAgain, List.mem_cons, List.not_mem_nil, or_false] at hi
    rcases hi with rfl | rfl | rfl | rfl | rfl | rfl | rfl <;> exact ⟨⟨rfl, rfl, rfl⟩, rfl⟩
  refine ⟨start, s, hstart, hleft, hs, hexecuted, ?_⟩
  rcases spinSome_in_order timersAndSubscription {} true [outOfTime] start hstart readyAgain
    (fun i hi => (hsteady i hi).1) s hs with ⟨_, hone⟩ | ⟨ws, ex, _, _, _, _, hend⟩
  · exact absurd hone (by decide)
  · exact (hend hreturned fun i hi => (hsteady i hi).2).1

/-! ## With priorities -/

section
variable {c : Context} (hc : c.callbackPriorityEnabled = true)
include hc

theorem getNextLoop_stays {η : Type} {k : Kind} (hk : k ≠ .timer) (byHandle : η → Option Executable) :
    ∀ (handles : List η) (highestPriority : Int) (a : AnyExecutable),
    (getNextLoop c k byHandle handles highestPriority a).2 = handles.filter fun h => (c.verdict k byHandle h).isStays
  | [], _, _ => rfl
  | handle :: handles, highestPriority, a => by
    have ih := getNextLoop_stays hk byHandle handles
    rw [getNextLoop, List.filter_cons]
    cases hb : byHandle handle with
    | none => simp [Context.verdict, hb, Verdict.isStays, ih]
    | some e =>
      simp only
      cases hg : getGroupByEntity k e c.weakGroupsToNodes with
      | none => simp [Context.verdict, hb, hg, Verdict.isStays, ih]
      | some g =>
        cases hf : c.canBeTakenFrom g.id with
        | false => simp [Context.verdict, hb, hg, hf, Verdict.isStays, ih]
        | true =>
          have htaken : c.verdict k byHandle handle = .taken ⟨k, e, g⟩ := by simp [Context.verdict, hb, hg, hf, hk]
          simp only [htaken, Verdict.isStays, hf, hc, Bool.not_true, Bool.false_eq_true, if_false, if_true]
          split
          · exact ih _ _
          · exact ih _ _

theorem getNextTimerLoop_stays : ∀ (handles : List Nat) (highestPriority : Int) (a : AnyExecutable),
    (getNextTimerLoop c handles highestPriority a).2.1 = handles.filter fun h =>
      (c.verdict .timer (getEntityByHandle .timer · c.weakGroupsToNodes) h).isStays
  | [], _, _ => rfl
  | handle :: handles, highestPriority, a => by
    have ih := getNextTimerLoop_stays handles
    rw [getNextTimerLoop, List.filter_cons]
    cases hb : getEntityByHandle .timer handle c.weakGroupsToNodes with
    | none => simp [Context.verdict, hb, Verdict.isStays, ih]
    | some e =>
      simp only
      cases hg : getGroupByEntity .timer e c.weakGroupsToNodes with
      | none => simp [Context.verdict, hb, hg, Verdict.isStays, ih]
      | some g =>
        cases hf : c.canBeTakenFrom g.id with
        | false => simp [Context.verdict, hb, hg, hf, Verdict.isStays, ih]
        | true =>
          cases hcan : c.canceled e.handle with
          | true => simp [Context.verdict, hb, hg, hf, hcan, Verdict.isStays, ih]
          | false =>
            have htaken : c.verdict .timer (getEntityByHandle .timer · c.weakGroupsToNodes) handle =
                .taken ⟨.timer, e, g⟩ := by
              simp [Context.verdict, hb, hg, hf, hcan]
            simp only [htaken, Verdict.isStays, hf, hc, Bool.not_true, Bool.false_eq_true, if_false, if_true]
            split
            · exact ih _ _
            · exact ih _ _

/-- **A call with priorities** leaves no handle where no group is in use and no timer cancelled. -/
theorem nextReady_empties (hfree : ∀ g, c.canBeTakenFrom g = true) (hcan : ∀ timer, c.canceled timer = false)
    (m : MemoryStrategy) (k : Kind) :
    (getNextReadyExecutableFromMap c { memoryStrategy := m }).selection.memoryStrategy.handles k = [] := by
  have hnil : ∀ {η : Type} {k : Kind} {byHandle : η → Option Executable} (handles : List η),
      handles.filter (fun h => (c.verdict k byHandle h).isStays) = [] := by
    intro η k byHandle handles
    refine List.filter_eq_nil_iff.mpr fun h _ hstays => ?_
    obtain ⟨_, e, _, hcanceled⟩ := verdict_stays hfree hstays
    rw [hcan] at hcanceled
    cases hcanceled
  have hsel : ∀ success s, (takeGroup c success s).selection = s := by
    intro success s
    unfold takeGroup
    split
    · split <;> rfl
    · rfl
  have htimer := fun p a => (getNextTimerLoop_stays hc m.timerHandles p a).trans (hnil _)
  have hsub := fun p a => (getNextLoop_stays hc (k := .subscription) (by simp)
    (getEntityByHandle .subscription · c.weakGroupsToNodes) m.subscriptionHandles p a).trans (hnil _)
  have hser := fun p a => (getNextLoop_stays hc (k := .service) (by simp)
    (getEntityByHandle .service · c.weakGroupsToNodes) m.serviceHandles p a).trans (hnil _)
  have hcli := fun p a => (getNextLoop_stays hc (k := .client) (by simp)
    (getEntityByHandle .client · c.weakGroupsToNodes) m.clientHandles p a).trans (hnil _)
  have hwai := fun p a => (getNextLoop_stays hc (k := .waitable) (by simp) some m.waitableHandles p a).trans (hnil _)
  unfold getNextReadyExecutableFromMap
  simp only [hc, if_true, hsel, getHighestPriority, getNextTimer, getNextSubscription, getNextService, getNextClient,
    getNextWaitable, htimer, hsub, hser, hcli, hwai]
  cases k <;> rfl

end

theorem candidates_nil {c : Context} {m : MemoryStrategy} (h : ∀ k, m.handles k = []) : c.candidates m = [] := by
  have h1 : m.timerHandles = [] := h .timer
  have h2 : m.subscriptionHandles = [] := h .subscription
  have h3 : m.serviceHandles = [] := h .service
  have h4 : m.clientHandles = [] := h .client
  have h5 : m.waitableHandles = [] := List.map_eq_nil_iff.mp (h .waitable)
  simp [Context.candidates, Context.eligible, Context.callable, Context.scan, h1, h2, h3, h4, h5]

section
variable {reg : Registry} {s : Spin}

/-- **A try with priorities** takes the first callback of the highest priority and no handle is left. -/
theorem getNextReady_highest (hn : reg.NonNegative) (hfree : s.canBeTakenFrom = fun _ => true) {sight : Sight}
    (hcan : ∀ timer, sight.canceled timer = false) (spinning : Bool) :
    let x := (sight.context true reg fun _ => true).first s.memoryStrategy
    let next := getNextReadyExecutable true reg s sight {}
    next.success = x.isSome ∧ (next.execute spinning).canBeTakenFrom = (fun _ => true) ∧
      (∀ k, (next.execute spinning).memoryStrategy.handles k = []) ∧ (next.execute spinning).windows = s.windows ∧
      (next.execute spinning).window = s.window.try sight x ∧
      (next.execute spinning).executed = if spinning then s.executed ++ takenBy x else s.executed := by
  intro x next
  have hempty := nextReady_empties (c := sight.context true reg fun _ => true) rfl (fun _ => rfl) hcan s.memoryStrategy
  have hcases := (nextReady_cases (c := sight.context true reg fun _ => true) (m := s.memoryStrategy) rfl
    (hn.locked sight.alive)).1
  have hnext : next = getNextReadyExecutable true reg s sight {} := rfl
  have hx : x = (sight.context true reg fun _ => true).first s.memoryStrategy := rfl
  unfold getNextReadyExecutable at hnext
  rw [hfree] at hnext
  rcases hcases with hnone | ⟨y, z, htaken⟩
  · have hxnone : x = none := by
      rw [hx, Context.first, hnone.none_eligible]
      rfl
    have hfail := hnone.success
    have hany := hnone.anyExecutable
    have hflags := hnone.canBeTakenFrom
    rw [hnext, hxnone]
    simp only [hfail, hany, hflags]
    refine ⟨rfl, rfl, hempty, rfl, rfl, ?_⟩
    cases spinning <;> simp [Next.execute, takenBy]
  · have hxsome : x = some y := htaken.first
    have hok := htaken.success
    have hreleased := nextReady_released (c := sight.context true reg fun _ => true) rfl
      { memoryStrategy := s.memoryStrategy }
    have hcallbacks := callbacks_taken htaken.entity
    rw [hnext, hxsome]
    unfold Next.execute
    simp only [hok, hreleased, hcallbacks]
    exact ⟨rfl, trivial, hempty, trivial, rfl, by simp [takenBy]⟩

/-- A pass with priorities. -/
theorem spinSomePass_highest {s s' : SpinSome} {i : SomePass} (hn : reg.NonNegative)
    (hfree : s.spin.canBeTakenFrom = fun _ => true) (hcan : ∀ timer, i.sight.canceled timer = false)
    (h : spinSomePass true reg false s i = some s') : s.returned = false ∧
      (s' = { s with returned := true } ∨
        let x := (i.sight.context true reg fun _ => true).first (s.waited reg i).memoryStrategy
        s'.returned = !x.isSome ∧ (s'.returned = false → s'.workAvailable = true) ∧
        s'.spin.canBeTakenFrom = (fun _ => true) ∧ (∀ k, s'.spin.memoryStrategy.handles k = []) ∧
        s'.spin.windows = (s.waited reg i).windows ∧ s'.spin.window = (s.waited reg i).window.try i.sight x ∧
        s'.spin.executed = if i.spinningBeforeExecute then (s.waited reg i).executed ++ takenBy x
          else (s.waited reg i).executed) := by
  obtain ⟨hsuccess, hfacts⟩ :=
    getNextReady_highest (s := s.waited reg i) hn (waited_free hfree) hcan i.spinningBeforeExecute
  unfold spinSomePass at h
  cases hreturned : s.returned with
  | true => simp [hreturned] at h
  | false =>
    refine ⟨rfl, ?_⟩
    cases hgoes : i.goesOn with
    | false =>
      simp only [hreturned, hgoes, Bool.false_eq_true, if_false, Bool.not_false, if_true, Option.some.injEq] at h
      exact Or.inl h.symm
    | true =>
      right
      simp only
      generalize (i.sight.context true reg fun _ => true).first (s.waited reg i).memoryStrategy = x at hsuccess hfacts ⊢
      unfold SpinSome.waited at hsuccess hfacts ⊢
      simp only [hreturned, hgoes, Bool.false_eq_true, if_false, Bool.not_true, hsuccess] at h
      cases x with
      | some x =>
        cases h
        exact ⟨rfl, fun _ => rfl, hfacts⟩
      | none =>
        simp only [Option.isSome_none, Bool.false_eq_true, if_false, Bool.not_false, Bool.or_true, if_true] at h
        cases h
        exact ⟨rfl, by simp, hfacts⟩

/-- Where no handle is left, the call ends with the next pass, and that takes nothing. -/
theorem emptied_highest {s t : SpinSome} {rest : List SomePass} (hn : reg.NonNegative)
    (hfree : t.spin.canBeTakenFrom = fun _ => true) (hempty : ∀ k, t.spin.memoryStrategy.handles k = [])
    (hwork : t.returned = false → t.workAvailable = true)
    (hcan : ∀ i ∈ rest, ∀ timer, i.sight.canceled timer = false)
    (h : runSteps (spinSomePass true reg false) t rest = some s) :
    rest.length ≤ 1 ∧ s.spin.windows = t.spin.windows ∧ s.spin.window.found = t.spin.window.found ∧
      s.spin.window.taken = t.spin.window.taken ∧ s.spin.executed = t.spin.executed := by
  cases rest with
  | nil =>
    cases h
    exact ⟨Nat.zero_le _, rfl, rfl, rfl, rfl⟩
  | cons i rest =>
    obtain ⟨u, hu, hrest⟩ := runSteps_cons.mp h
    obtain ⟨hrunning, rfl | hpass⟩ := spinSomePass_highest hn hfree (hcan i (List.mem_cons_self ..)) hu
    · obtain ⟨rfl, rfl⟩ := runSteps_returned rfl hrest
      exact ⟨Nat.le_refl _, rfl, rfl, rfl, rfl⟩
    · have hwaited : t.waited reg i = t.spin := by
        unfold SpinSome.waited
        rw [hwork hrunning]
        rfl
      have hnone : (i.sight.context true reg fun _ => true).first t.spin.memoryStrategy = none := by
        rw [Context.first, candidates_nil hempty]
        rfl
      simp only [hwaited, hnone] at hpass
      obtain ⟨hreturned, _, _, _, hwindows, hwindow, hexecuted⟩ := hpass
      obtain ⟨rfl, rfl⟩ := runSteps_returned hreturned hrest
      refine ⟨Nat.le_refl _, hwindows, by rw [hwindow]; rfl, ?_, ?_⟩
      · rw [hwindow, taken_try]
        exact List.append_nil _
      · rw [hexecuted]
        simp [takenBy]

end

/-- **`spin_some` with priorities** executes, after any calls, one callback at
most, the first of the highest priority that its wait has found: the others are
no longer in the queues when it tries again, and it returns. -/
theorem spinSome_highest (reg : Registry) (hn : reg.NonNegative) (calls : List SpinCall) (start : Spin)
    (hstart : runSteps spinCall {} calls = some start) (passes : List SomePass)
    (hcan : ∀ i ∈ passes, ∀ timer, i.sight.canceled timer = false) (s : SpinSome)
    (hrun : runSteps (spinSomePass true reg false) { spin := start } passes = some s) :
    s.spin = start ∧ passes.length ≤ 1 ∨
    passes.length ≤ 2 ∧ s.spin.windows = start.windows ++ [start.window] ∧
    ∃ i ∈ passes.head?,
      s.spin.window.taken = takenBy ((i.sight.context true reg fun _ => true).first s.spin.window.found) ∧
      s.spin.executed = start.executed ++ if i.spinningBeforeExecute then s.spin.window.taken else [] := by
  have hfree := calls_free calls start hstart
  cases passes with
  | nil =>
    cases hrun
    exact Or.inl ⟨rfl, Nat.zero_le _⟩
  | cons i rest =>
    obtain ⟨s₁, hfirst, hrest⟩ := runSteps_cons.mp hrun
    obtain ⟨_, rfl | ⟨hreturned, hwork, hfree₁, hempty, hwindows, hwindow, hexecuted⟩⟩ :=
      spinSomePass_highest hn hfree (hcan i (List.mem_cons_self ..)) hfirst
    · obtain ⟨rfl, rfl⟩ := runSteps_returned rfl hrest
      exact Or.inl ⟨rfl, Nat.le_refl _⟩
    · right
      -- the window and what was executed do not change after the first pass
      obtain ⟨hlength, hwindows', hfound', htaken', hexecuted'⟩ :=
        emptied_highest hn hfree₁ hempty hwork (fun j hj => hcan j (List.mem_cons_of_mem _ hj)) hrest
      have hfound : s₁.spin.window.found = (waitForWork reg start i.collected i.ready).memoryStrategy := by
        rw [hwindow]
        rfl
      have htaken : s₁.spin.window.taken =
          takenBy ((i.sight.context true reg fun _ => true).first (waitForWork reg start i.collected i.ready).memoryStrategy) := by
        rw [hwindow, taken_try]
        rfl
      refine ⟨Nat.succ_le_succ hlength, by rw [hwindows', hwindows]; rfl, i, rfl, ?_, ?_⟩
      · rw [htaken', hfound', hfound, htaken]
      · rw [hexecuted', hexecuted, htaken', htaken]
        split
        · rfl
        · exact (List.append_nil _).symm

/-- All three are ready; the first timer is executed, the others are dropped,
as are the two that an earlier call has left. -/
theorem firstTimer_highest : ∃ start s, runSteps spinCall {} [outOfTime] = some start ∧
    runSteps (spinSomePass true timersAndSubscription false) { spin := start } [{ ready := fun _ _ => true }, {}] = some s ∧
    s.returned = true ∧ s.spin.executed = [(.timer, 1), (.timer, 1)] ∧
    s.spin.executed = start.executed ++ s.spin.window.taken := by
  have hrun : ((runSteps spinCall {} [outOfTime]).bind fun start =>
      (runSteps (spinSomePass true timersAndSubscription false) { spin := start }
        [{ ready := fun _ _ => true }, {}]).map fun s => (start, s)).any
      (fun r => r.1.executed = [(.timer, 1)] ∧ r.2.returned ∧ r.2.spin.executed = [(.timer, 1), (.timer, 1)]) := by
    decide
  obtain ⟨⟨start, s⟩, hboth, hfacts⟩ := (Option.any_eq_true _ _).mp hrun
  obtain ⟨hbefore, hreturned, hexecuted⟩ := of_decide_eq_true hfacts
  obtain ⟨start, hstart, hs⟩ := Option.bind_eq_some_iff.mp hboth
  obtain ⟨s, hs, heq⟩ := Option.map_eq_some_iff.mp hs
  cases heq
  refine ⟨start, s, hstart, hs, hreturned, hexecuted, ?_⟩
  rcases spinSome_highest timersAndSubscription (by decide) [outOfTime] start hstart _ (by simp) s hs with
    ⟨hsame, _⟩ | ⟨_, _, i, hi, _, hone⟩
  · rw [hsame, hbefore] at hexecuted
    cases hexecuted
  · cases hi
    exact hone

end ReferenceSystem
