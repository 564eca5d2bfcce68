import Mathlib.Init

/-!
# Runs of a partial step function

A step function `σ → ε → Option σ` is run along a list of steps. Invariants
and relations between the end points of a run follow from one step.
-/

namespace ReferenceSystem

section
variable {σ ε : Type} (step : σ → ε → Option σ)

def runSteps : σ → List ε → Option σ
  | s, [] => some s
  | s, e :: es => (step s e).bind fun s' => runSteps s' es

variable {step}

theorem runSteps_cons {s s' : σ} {e : ε} {es : List ε} :
    runSteps step s (e :: es) = some s' ↔ ∃ t, step s e = some t ∧ runSteps step t es = some s' :=
  Option.bind_eq_some_iff

theorem runSteps_append (es es' : List ε) : ∀ s, runSteps step s (es ++ es') =
    (runSteps step s es).bind fun t => runSteps step t es' := by
  induction es with
  | nil => intro s; rfl
  | cons e es ih =>
    intro s
    rw [List.cons_append, runSteps, runSteps]
    cases step s e with
    | none => rfl
    | some t => exact ih t

/-- An invariant of one step is an invariant of a run. -/
theorem run_invariant {P : σ → Prop} (hstep : ∀ s e s', P s → step s e = some s' → P s') :
    ∀ (es : List ε) {s s' : σ}, P s → runSteps step s es = some s' → P s'
  | [], s, s', hs, h => by cases h; exact hs
  | e :: es, s, s', hs, h => by
    obtain ⟨t, ht, hr⟩ := runSteps_cons.mp h
    exact run_invariant hstep es (hstep s e t hs ht) hr

/-- Each step of a run meets a condition in the state before it. -/
def StepsMeet (step : σ → ε → Option σ) (C : σ → ε → Prop) : σ → List ε → Prop
  | _, [] => True
  | s, e :: es => C s e ∧ (step s e).elim True fun s' => StepsMeet step C s' es

instance {C : σ → ε → Prop} [∀ s e, Decidable (C s e)] : ∀ s es, Decidable (StepsMeet step C s es)
  | _, [] => inferInstanceAs (Decidable True)
  | s, e :: es =>
    haveI : Decidable ((step s e).elim True fun s' => StepsMeet step C s' es) :=
      match step s e with
      | none => inferInstanceAs (Decidable True)
      | some s' => instDecidableStepsMeet s' es
    inferInstanceAs (Decidable (_ ∧ _))

theorem stepsMeet_of_forall {C : σ → ε → Prop} (h : ∀ s e, C s e) : ∀ (es : List ε) (s : σ), StepsMeet step C s es
  | [], _ => trivial
  | e :: es, s => by
    refine ⟨h s e, ?_⟩
    cases step s e with
    | none => trivial
    | some t => exact stepsMeet_of_forall h es t

theorem stepsMeet_of_mem {C : σ → ε → Prop} : ∀ (es : List ε) (s : σ), (∀ e ∈ es, ∀ s, C s e) → StepsMeet step C s es
  | [], _, _ => trivial
  | e :: es, s, h => by
    refine ⟨h e (List.mem_cons_self ..) s, ?_⟩
    cases step s e with
    | none => trivial
    | some t => exact stepsMeet_of_mem es t fun e he => h e (List.mem_cons_of_mem _ he)

/-- An invariant of the steps that meet a condition. -/
theorem run_invariant_meeting {P : σ → Prop} {C : σ → ε → Prop}
    (hstep : ∀ s e s', P s → C s e → step s e = some s' → P s') :
    ∀ (es : List ε) {s s' : σ}, P s → StepsMeet step C s es → runSteps step s es = some s' → P s'
  | [], s, s', hs, _, h => by cases h; exact hs
  | e :: es, s, s', hs, hm, h => by
    obtain ⟨t, ht, hr⟩ := runSteps_cons.mp h
    rw [StepsMeet, ht] at hm
    exact run_invariant_meeting hstep es (hstep s e t hs hm.1 ht) hm.2 hr

/-- A reflexive and transitive relation of one step holds along a run. -/
theorem run_relation {R : σ → σ → Prop} (hrefl : ∀ s, R s s) (htrans : ∀ a b c, R a b → R b c → R a c)
    (hstep : ∀ s e s', step s e = some s' → R s s') :
    ∀ (es : List ε) {s s' : σ}, runSteps step s es = some s' → R s s'
  | [], s, s', h => by cases h; exact hrefl s
  | e :: es, s, s', h => by
    obtain ⟨t, ht, hr⟩ := runSteps_cons.mp h
    exact htrans _ _ _ (hstep s e t ht) (run_relation hrefl htrans hstep es hr)

theorem run_backward {Q : σ → Prop} (hback : ∀ s e s', step s e = some s' → Q s' → Q s) :
    ∀ (es : List ε) {s s' : σ}, runSteps step s es = some s' → Q s' → Q s
  | [], s, s', h, hq => by cases h; exact hq
  | e :: es, s, s', h, hq => by
    obtain ⟨t, ht, hr⟩ := runSteps_cons.mp h
    exact hback s e t ht (run_backward hback es hr hq)

/-- An invariant that one step preserves only towards states satisfying `Q`,
when `Q` of a later state implies `Q` of the earlier ones. -/
theorem run_invariant_under {P Q : σ → Prop} (hback : ∀ s e s', step s e = some s' → Q s' → Q s)
    (hstep : ∀ s e s', Q s' → P s → step s e = some s' → P s') :
    ∀ (es : List ε) {s s' : σ}, P s → runSteps step s es = some s' → Q s' → P s' ∧ Q s
  | [], s, s', hs, h, hq => by cases h; exact ⟨hs, hq⟩
  | e :: es, s, s', hs, h, hq => by
    obtain ⟨t, ht, hr⟩ := runSteps_cons.mp h
    have hqt : Q t := run_backward hback es hr hq
    exact ⟨(run_invariant_under hback hstep es (hstep s e t hqt hs ht) hr hq).1, hback s e t ht hqt⟩

/-- Both restrictions at once: each step meets a condition, and the states satisfy `Q`. -/
theorem run_invariant_meeting_under {P Q : σ → Prop} {C : σ → ε → Prop}
    (hback : ∀ s e s', step s e = some s' → Q s' → Q s)
    (hstep : ∀ s e s', Q s' → C s e → P s → step s e = some s' → P s') :
    ∀ (es : List ε) {s s' : σ}, P s → StepsMeet step C s es → runSteps step s es = some s' → Q s' → P s'
  | [], s, s', hs, _, h, _ => by cases h; exact hs
  | e :: es, s, s', hs, hm, h, hq => by
    obtain ⟨t, ht, hr⟩ := runSteps_cons.mp h
    rw [StepsMeet, ht] at hm
    have hqt : Q t := run_backward hback es hr hq
    exact run_invariant_meeting_under hback hstep es (hstep s e t hqt hm.1 hs ht) hm.2 hr hq

/-- Some step of a run meets a condition in the state before it. -/
def Happens (step : σ → ε → Option σ) (C : σ → ε → Prop) : σ → List ε → Prop
  | _, [] => False
  | s, e :: es => C s e ∨ (step s e).elim False fun s' => Happens step C s' es

/-- An invariant that refers to whether a condition has been met so far. -/
theorem run_happens {P : σ → Prop → Prop} {C : σ → ε → Prop}
    (hstep : ∀ s A e s', P s A → step s e = some s' → P s' (A ∨ C s e)) :
    ∀ (es : List ε) {s s' : σ} {A : Prop}, P s A → runSteps step s es = some s' → P s' (A ∨ Happens step C s es)
  | [], s, s', A, hs, h => by
    cases h
    have hA : (A ∨ Happens step C s []) = A := propext ⟨fun h => h.resolve_right id, Or.inl⟩
    rw [hA]
    exact hs
  | e :: es, s, s', A, hs, h => by
    obtain ⟨t, ht, hr⟩ := runSteps_cons.mp h
    have hrest := run_happens hstep es (hstep s A e t hs ht) hr
    rw [or_assoc] at hrest
    rw [Happens, ht]
    exact hrest

/-- A measure that is decreased by steps of a kind, and increased by none, bounds how many of them a run has. -/
theorem run_count {P : σ → Prop} {m : σ → Nat} {c : ε → Bool}
    (hstep : ∀ s e s', P s → step s e = some s' → P s' ∧ m s' + (if c e then 1 else 0) ≤ m s) :
    ∀ (es : List ε) {s s' : σ}, P s → runSteps step s es = some s' → es.countP c + m s' ≤ m s
  | [], s, s', _, h => by cases h; exact Nat.le_of_eq (Nat.zero_add _)
  | e :: es, s, s', hs, h => by
    obtain ⟨t, ht, hr⟩ := runSteps_cons.mp h
    obtain ⟨hp, hfirst⟩ := hstep s e t hs ht
    have hrest := run_count hstep es hp hr
    rw [List.countP_cons]
    omega

end

/-! ## One process among several -/

theorem getElem?_set_cases {α : Type} {l : List α} {i j : Nat} {a b : α} (h : (l.set i a)[j]? = some b) :
    (j = i ∧ b = a) ∨ (j ≠ i ∧ l[j]? = some b) := by
  rw [List.getElem?_set] at h
  split at h
  · rename_i hij
    split at h
    · exact Or.inl ⟨hij.symm, (Option.some.inj h).symm⟩
    · cases h
  · rename_i hij; exact Or.inr ⟨fun e => hij e.symm, h⟩

theorem forall_mem_set {α : Type} {P : α → Prop} {l : List α} {i : Nat} {x : α} (h : ∀ y ∈ l, P y) (hx : P x) :
    ∀ y ∈ l.set i x, P y := by
  intro y hy
  rcases List.mem_or_eq_of_mem_set hy with hy | rfl
  · exact h y hy
  · exact hx

theorem getElem?_snoc_cases {α : Type} {l : List α} {j : Nat} {a b : α} (h : (l ++ [a])[j]? = some b) :
    (j = l.length ∧ b = a) ∨ (j < l.length ∧ l[j]? = some b) := by
  rcases Nat.lt_or_ge j l.length with hj | hj
  · rw [List.getElem?_append_left hj] at h; exact Or.inr ⟨hj, h⟩
  · rw [List.getElem?_append_right hj] at h
    obtain ⟨h0, he⟩ := List.getElem?_eq_some_iff.mp h
    rw [List.length_singleton] at h0
    have hj' : j = l.length := by omega
    subst hj'
    simp only [Nat.sub_self] at he
    exact Or.inl ⟨rfl, he.symm⟩

/-- Where the elements of a kind increase along a list, their order is that of their positions. -/
theorem pairwise_position {α β : Type} [LT β] [Std.Asymm (α := β) (· < ·)] {f : α → β} {P : α → Prop} {l : List α}
    (h : l.Pairwise fun a b => P a → P b → f a < f b) {i j : Nat} {a b : α} (ha : l[i]? = some a)
    (hb : l[j]? = some b) (hpa : P a) (hpb : P b) : f a < f b ↔ i < j := by
  obtain ⟨hi, rfl⟩ := List.getElem?_eq_some_iff.mp ha
  obtain ⟨hj, rfl⟩ := List.getElem?_eq_some_iff.mp hb
  have hlt := List.pairwise_iff_getElem.mp h
  constructor
  · intro hab
    refine Nat.lt_of_not_le fun hge => ?_
    rcases Nat.eq_or_lt_of_le hge with rfl | hji
    · exact Std.Asymm.asymm _ _ hab hab
    · exact Std.Asymm.asymm _ _ hab (hlt j i hj hi hji hpb hpa)
  · exact fun hij => hlt i j hi hj hij hpa hpb

/-- What the elements contribute, when one of them is replaced. -/
theorem filterMap_set_perm {α β : Type} (f : α → Option β) {l : List α} {i : Nat} {old : α} (new : α)
    (h : l[i]? = some old) : ((f old).toList ++ (l.set i new).filterMap f).Perm ((f new).toList ++ l.filterMap f) := by
  have hcons : ∀ (a : α) (l : List α), (a :: l).filterMap f = (f a).toList ++ l.filterMap f := by
    intro a l
    cases hf : f a <;> simp [hf]
  induction l generalizing i with
  | nil => cases h
  | cons a l ih =>
    cases i with
    | zero =>
      cases h
      rw [List.set_cons_zero, hcons, hcons]
      exact List.perm_append_comm_assoc ..
    | succ i =>
      rw [List.set_cons_succ, hcons, hcons]
      refine (List.perm_append_comm_assoc ..).trans (List.Perm.trans ?_ (List.perm_append_comm_assoc ..))
      exact (ih h).append_left _

end ReferenceSystem
