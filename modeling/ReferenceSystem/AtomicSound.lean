import ReferenceSystem.SystemSound

/-!
# Atomic runs

Between two callbacks no node has anything left to do, so a callback publishes
its message before any other one starts. With a strictly increasing clock the
log of an atomic run is therefore ordered by time.
-/

namespace ReferenceSystem

def Idle (s : State) : Prop := ∀ (i : Nat) (process : Process), s.processes[i]? = some process → process.pending = []

/-- The actions of one node leave the other nodes alone and publish what was pending, in order. -/
theorem acts_published {sys : System} {i : Nat} {now : UInt64} : ∀ (n : Nat) {t u : State} {process : Process},
    runSteps (step sys) t (List.replicate n (.act i now)) = some u → t.processes[i]? = some process →
    ∃ process', u.processes[i]? = some process' ∧ process.pending.length = process'.pending.length + n ∧
      u.published ++ process'.pending.filterMap Action.publication? =
        t.published ++ process.pending.filterMap Action.publication? ∧
      (∀ j, j ≠ i → u.processes[j]? = t.processes[j]?) ∧ ∃ more, u.clock = t.clock ++ more
  | 0, t, u, process, h, hp => by
    cases h
    exact ⟨process, hp, rfl, rfl, fun _ _ => rfl, [], (List.append_nil _).symm⟩
  | n + 1, t, u, process, h, hp => by
    rw [List.replicate_succ] at h
    obtain ⟨v, hv, hr⟩ := runSteps_cons.mp h
    have hi : i < t.processes.length := (List.getElem?_eq_some_iff.mp hp).1
    obtain ⟨reads, hreads⟩ := clock_grows hv
    obtain ⟨node, callback, rest, hact⟩ := act_cases hv
    -- the first pending action, then the others by induction
    have hfirst : ∃ action, process = ⟨node, callback, action :: rest⟩ ∧
        v.processes = t.processes.set i ⟨node, callback, rest⟩ ∧
        v.published = t.published ++ action.publication?.toList := by
      rcases hact with ⟨p, hproc, rfl⟩ | ⟨e, hproc, rfl⟩
      · cases hp.symm.trans hproc
        exact ⟨.publish p, rfl, rfl, rfl⟩
      · cases hp.symm.trans hproc
        exact ⟨.emit e, rfl, rfl, (List.append_nil _).symm⟩
    obtain ⟨action, rfl, hprocs, hpub⟩ := hfirst
    have hnext : v.processes[i]? = some ⟨node, callback, rest⟩ := by
      rw [hprocs, List.getElem?_set_self hi]
    obtain ⟨process', hp', hlen, heq, hothers, more, hmore⟩ := acts_published n hr hnext
    refine ⟨process', hp', ?_, ?_, ?_, reads ++ more, ?_⟩
    · simp only [List.length_cons] at hlen ⊢
      omega
    · rw [heq, hpub, List.append_assoc, List.filterMap_cons]
      cases action <;> rfl
    · intro j hj
      rw [hothers j hj, hprocs, List.getElem?_set_ne (Ne.symm hj)]
    · rw [hmore, hreads, List.append_assoc]

/-- A callback from an idle state ends in one, and publishes at most one message, with the time it has read. -/
theorem atomicStep_published {sys : System} {s u : State} {a : AtomicStep} (hidle : Idle s)
    (h : atomicStep sys s a = some u) : Idle u ∧ ∃ reads, u.clock = s.clock ++ reads ∧
      (u.published = s.published ∨
        ∃ p, u.published = s.published ++ [p] ∧ p.timestamp = a.now ∧ a.now ∈ reads) := by
  obtain ⟨t, ht, hacts⟩ := Option.bind_eq_some_iff.mp h
  obtain ⟨first, hfirst⟩ := clock_grows (e := .start a.node a.event a.now) ht
  obtain ⟨process, nodeEvent, node, effect, hproc, _, hev, hcall, rfl⟩ := start_cases ht
  have hi : a.node < s.processes.length := (List.getElem?_eq_some_iff.mp hproc).1
  have hstarted : (s.processes.set a.node ⟨node, s.started, (perform sys s a.node node.settings.nodeName a.now
      effect).1⟩)[a.node]? = some ⟨node, s.started, (perform sys s a.node node.settings.nodeName a.now effect).1⟩ :=
    List.getElem?_set_self hi
  obtain ⟨process', hp', hlen, hpub, hothers, more, hclock⟩ := acts_published _ hacts hstarted
  have hdone : process'.pending = [] := by
    simp only [remaining, hstarted, Option.map_some, Option.getD_some] at hlen
    exact List.length_eq_zero_iff.mp (by omega)
  rw [hdone, List.filterMap_nil, List.append_nil] at hpub
  refine ⟨fun j q hq => ?_, first ++ more, by rw [hclock, hfirst, List.append_assoc], ?_⟩
  · by_cases hj : j = a.node
    · subst hj
      cases hp'.symm.trans hq
      exact hdone
    · rw [hothers j hj] at hq
      simp only [List.getElem?_set_ne (Ne.symm hj)] at hq
      exact hidle j q hq
  · cases effect with
    | silent => exact Or.inl (hpub.trans (List.append_nil _))
    | consume sequence input => exact Or.inl (hpub.trans (List.append_nil _))
    | publish o =>
      simp only [perform, outputActions_publications] at hpub
      simp only [(callback_fires hcall).reads, if_true] at hfirst
      rw [← List.append_cancel_left hfirst]
      exact Or.inr ⟨_, hpub, rfl, List.mem_append_left _ (List.mem_singleton_self _)⟩

/-- The log is ordered by time, and all its times have been read. -/
structure Chronological (s : State) : Prop where
  idle : Idle s
  read : ∀ p ∈ s.published, p.timestamp ∈ s.clock
  ordered : s.published.Pairwise fun p q => p.timestamp < q.timestamp

theorem chronological_step {sys : System} (s : State) (a : AtomicStep) (u : State) (hclock : Increasing u)
    (h : Chronological s) (hstep : atomicStep sys s a = some u) : Chronological u := by
  obtain ⟨hidle, reads, hreads, hpub⟩ := atomicStep_published h.idle hstep
  have hread : ∀ p ∈ s.published, p.timestamp ∈ u.clock := by
    intro p hp
    rw [hreads]; exact List.mem_append_left _ (h.read p hp)
  rcases hpub with hpub | ⟨p, hpub, htime, hmem⟩
  · exact ⟨hidle, by rw [hpub]; exact hread, by rw [hpub]; exact h.ordered⟩
  · have hown : p.timestamp ∈ reads := htime ▸ hmem
    rw [Increasing, hreads] at hclock
    refine ⟨hidle, ?_, ?_⟩
    · rw [hpub]
      refine List.forall_mem_append.mpr ⟨hread, List.forall_mem_singleton.mpr ?_⟩
      rw [hreads]; exact List.mem_append_right _ hown
    · rw [hpub]
      refine List.pairwise_append.mpr ⟨h.ordered, List.pairwise_singleton _ _, fun q hq q' hq' => ?_⟩
      cases List.mem_singleton.mp hq'
      exact (List.pairwise_append.mp hclock).2.2 _ (h.read q hq) _ hown

theorem chronological_run {sys : System} {steps : List AtomicStep} {s : State} (h : atomicRun sys steps = some s)
    (hclock : Increasing s) : Chronological s := by
  have hinit : Chronological (initialState sys) := by
    refine ⟨fun i process hp => ?_, List.forall_mem_nil _, List.Pairwise.nil⟩
    simp only [initialState, List.getElem?_map] at hp
    obtain ⟨settings, _, rfl⟩ := Option.map_eq_some_iff.mp hp
    rfl
  have hback : ∀ (t : State) (a : AtomicStep) (u : State), atomicStep sys t a = some u → Increasing u → Increasing t := by
    intro t a u hstep hu
    obtain ⟨v, hv, hacts⟩ := Option.bind_eq_some_iff.mp hstep
    exact increasing_back t (.start a.node a.event a.now) v hv (run_backward increasing_back _ hacts hu)
  exact (run_invariant_under hback chronological_step steps hinit h hclock).1

theorem chronological_position {s : State} (h : Chronological s) {i j : Nat} {p q : Publication}
    (hp : s.published[i]? = some p) (hq : s.published[j]? = some q) : p.timestamp < q.timestamp ↔ i < j :=
  pairwise_position (P := fun _ => True) (h.ordered.imp fun hlt _ _ => hlt) hp hq trivial trivial

end ReferenceSystem
