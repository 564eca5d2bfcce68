import ReferenceSystem.TrackingSound
import Mathlib.Data.List.Perm.Basic

/-!
# Callback handles

`TrackingWriter::Callback`, the guard that ends a callback when it is
destroyed. Objects are numbered in the order of their construction, and a
destroyed object leaves its number unused. A handle is moved, never copied; the
string that a move leaves behind is unspecified, so every move names one. The
calls of `end_callback` are kept in a log, as are the callbacks begun.
-/

namespace ReferenceSystem

/-- There is one writer, so a handle only has to know whether it points to it. -/
structure Callback where
  writer : Bool := false
  producer : Bytes := []
  token : Nat := 0
  deriving DecidableEq, Repr

structure HandleState where
  writer : TrackingWriter
  handles : List (Option Callback) := []
  begun : List (Bytes × Nat × Nat) := []
  ended : List (Bytes × Nat) := []

inductive HandleOp where
  | beginCallback (producer : Bytes) (entryNs : Nat)
  | construct
  | moveConstruct (other : Nat) (leftover : Bytes)
  | moveAssign (this other : Nat) (leftover : Bytes)
  | destroy (this : Nat)
  deriving DecidableEq, Repr

namespace HandleState

def handle (s : HandleState) (i : Nat) : Option Callback := s.handles[i]?.join

def setHandle (s : HandleState) (i : Nat) (c : Option Callback) : HandleState :=
  { s with handles := s.handles.set i c }

def finish (s : HandleState) (i : Nat) (c : Callback) : HandleState :=
  if c.writer then
    { s.setHandle i (some { c with writer := false }) with
      writer := s.writer.endCallback c.producer c.token
      ended := s.ended ++ [(c.producer, c.token)] }
  else s

def moved (c : Callback) (leftover : Bytes) : Callback := { c with writer := false, producer := leftover }

/-- An operation on an object that is not alive does not occur. -/
def step (s : HandleState) : HandleOp → Option HandleState
  | .beginCallback producer entryNs =>
    let begun := s.writer.beginCallback producer entryNs
    some { s with
      writer := begun.1
      handles := s.handles ++ [some ⟨true, producer, begun.2⟩]
      begun := s.begun ++ [(producer, begun.2, entryNs)] }
  | .construct => some { s with handles := s.handles ++ [some {}] }
  | .moveConstruct other leftover =>
    (s.handle other).map fun c =>
      let s' := s.setHandle other (some (moved c leftover))
      { s' with handles := s'.handles ++ [some c] }
  | .moveAssign this other leftover =>
    (s.handle this).bind fun c => (s.handle other).map fun d =>
      if this = other then s
      else ((s.finish this c).setHandle this (some d)).setHandle other (some (moved d leftover))
  | .destroy this => (s.handle this).map fun c => (s.finish this c).setHandle this none

def run (bootId instanceId : Bytes) (ops : List HandleOp) : Option HandleState :=
  runSteps step { writer := { bootId, instanceId } } ops

/-! ## What the handles hold -/

def heldBy : Option Callback → Option (Bytes × Nat)
  | some c => if c.writer then some (c.producer, c.token) else none
  | none => none

def held (s : HandleState) : List (Bytes × Nat) := s.handles.filterMap heldBy

def keys (s : HandleState) : List (Bytes × Nat) := s.begun.map fun b => (b.1, b.2.1)

/-- Every callback begun is held by one handle, or has been ended once; and the
active maps have what is held. -/
structure Owned (s : HandleState) : Prop where
  distinct : s.keys.Nodup
  shared : (s.held ++ s.ended).Perm s.keys
  known : ∀ b ∈ s.begun, b.2.1 ≤ (s.writer.state b.1).nextCallback
  tokens : ∀ p, ((s.writer.state p).active.map Prod.fst).Nodup
  active : ∀ p token entryNs, (token, entryNs) ∈ (s.writer.state p).active ↔
    (p, token, entryNs) ∈ s.begun ∧ (p, token) ∈ s.held

section
variable {s : HandleState} {i : Nat} {c : Callback}

theorem getElem?_of_handle (hc : s.handle i = some c) : s.handles[i]? = some (some c) := by
  unfold handle at hc
  cases h : s.handles[i]? with
  | none => rw [h] at hc; cases hc
  | some o => rw [h] at hc; rw [← hc]; rfl

theorem handle_setHandle_self (hc : s.handle i = some c) (new : Option Callback) : (s.setHandle i new).handle i = new := by
  have hi : i < s.handles.length := (List.getElem?_eq_some_iff.mp (getElem?_of_handle hc)).1
  unfold handle setHandle
  rw [List.getElem?_set_self hi]
  rfl

theorem handle_setHandle_ne {j : Nat} (h : j ≠ i) (new : Option Callback) : (s.setHandle i new).handle j = s.handle j := by
  unfold handle setHandle
  rw [List.getElem?_set_ne (Ne.symm h)]

theorem held_setHandle (hc : s.handle i = some c) (new : Option Callback) :
    ((heldBy (some c)).toList ++ (s.setHandle i new).held).Perm ((heldBy new).toList ++ s.held) :=
  filterMap_set_perm heldBy new (getElem?_of_handle hc)

theorem held_released (hc : s.handle i = some c) (hw : c.writer = false) (new : Option Callback) :
    (s.setHandle i new).held.Perm ((heldBy new).toList ++ s.held) := by
  have hperm := held_setHandle hc new
  have hnone : heldBy (some c) = none := by simp [heldBy, hw]
  rw [hnone] at hperm
  exact hperm

/-- A finished handle has no writer any more, and the others are as they were. -/
theorem handle_finish (hc : s.handle i = some c) :
    (∃ c', (s.finish i c).handle i = some c' ∧ c'.writer = false) ∧
      ∀ j, j ≠ i → (s.finish i c).handle j = s.handle j := by
  unfold finish
  cases hw : c.writer with
  | false =>
    rw [if_neg (by simp)]
    exact ⟨⟨c, hc, hw⟩, fun _ _ => rfl⟩
  | true =>
    rw [if_pos rfl]
    exact ⟨⟨_, handle_setHandle_self hc _, rfl⟩, fun j hj => handle_setHandle_ne hj _⟩

theorem Owned.held_nodup (h : Owned s) : (s.held ++ s.ended).Nodup := h.shared.nodup_iff.mpr h.distinct

theorem Owned.congr {s' : HandleState} (h : Owned s) (hwriter : s'.writer = s.writer) (hbegun : s'.begun = s.begun)
    (hended : s'.ended = s.ended) (hheld : s'.held.Perm s.held) : Owned s' := by
  have hkeys : s'.keys = s.keys := by
    unfold keys
    rw [hbegun]
  refine ⟨hkeys ▸ h.distinct, ?_, ?_, ?_, ?_⟩
  · rw [hkeys, hended]
    exact (hheld.append_right _).trans h.shared
  · rw [hwriter, hbegun]
    exact h.known
  · rw [hwriter]
    exact h.tokens
  · intro p token entryNs
    rw [hwriter, hbegun, hheld.mem_iff]
    exact h.active p token entryNs

theorem finish_holding (hw : c.writer = true) : s.finish i c =
    { s.setHandle i (some { c with writer := false }) with
      writer := s.writer.endCallback c.producer c.token
      ended := s.ended ++ [(c.producer, c.token)] } := by
  unfold HandleState.finish
  rw [if_pos hw]

theorem held_finish (hc : s.handle i = some c) (hw : c.writer = true) :
    ((c.producer, c.token) :: (s.finish i c).held).Perm s.held := by
  have hperm := held_setHandle hc (some { c with writer := false })
  have hown : heldBy (some c) = some (c.producer, c.token) := by simp [heldBy, hw]
  rw [hown] at hperm
  rw [finish_holding hw]
  exact hperm

/-- The ended callback is no longer held, by this or any other handle. -/
theorem Owned.mem_held_finish (h : Owned s) (hc : s.handle i = some c) (hw : c.writer = true) {b : Bytes × Nat} :
    b ∈ (s.finish i c).held ↔ b ∈ s.held ∧ b ≠ (c.producer, c.token) := by
  have hheld := held_finish hc hw
  have hnodup : ((c.producer, c.token) :: (s.finish i c).held).Nodup :=
    hheld.nodup_iff.mpr (List.nodup_append.mp h.held_nodup).1
  rw [← hheld.mem_iff, List.mem_cons]
  constructor
  · intro hmem
    exact ⟨Or.inr hmem, fun heq => (List.nodup_cons.mp hnodup).1 (heq ▸ hmem)⟩
  · rintro ⟨heq | hmem, hne⟩
    · exact absurd heq hne
    · exact hmem

theorem Owned.finish (h : Owned s) (hc : s.handle i = some c) : Owned (s.finish i c) := by
  cases hw : c.writer with
  | false =>
    unfold HandleState.finish
    rw [if_neg (by simp [hw])]
    exact h
  | true =>
    have hstate : ∀ p, (s.finish i c).writer.state p =
        if p = c.producer then
          { s.writer.state p with active := (s.writer.state p).active.filter (·.1 ≠ c.token) }
        else s.writer.state p := by
      intro p
      rw [finish_holding hw]
      exact s.writer.state_endCallback c.producer p c.token
    have hbegun : (s.finish i c).begun = s.begun := by rw [finish_holding hw]; rfl
    have hended : (s.finish i c).ended = s.ended ++ [(c.producer, c.token)] := by rw [finish_holding hw]
    have hkeys : (s.finish i c).keys = s.keys := by
      unfold keys
      rw [hbegun]
    refine ⟨hkeys ▸ h.distinct, ?_, ?_, ?_, ?_⟩
    · rw [hkeys, hended]
      refine List.Perm.trans ?_ (((held_finish hc hw).append_right s.ended).trans h.shared)
      rw [← List.append_assoc]
      exact List.perm_append_singleton _ _
    · intro b hb
      rw [hbegun] at hb
      rw [hstate]
      split
      · exact h.known b hb
      · exact h.known b hb
    · intro p
      rw [hstate]
      split
      · exact (h.tokens p).sublist (List.filter_sublist.map Prod.fst)
      · exact h.tokens p
    · intro p token entryNs
      rw [hbegun, h.mem_held_finish hc hw, hstate]
      by_cases hp : p = c.producer
      · rw [if_pos hp, List.mem_filter, h.active]
        simp [hp, and_assoc]
      · rw [if_neg hp, h.active]
        simp [hp]

theorem Owned.active_le (h : Owned s) (p : Bytes) :
    ∀ a ∈ (s.writer.state p).active, a.1 ≤ (s.writer.state p).nextCallback :=
  fun a ha => h.known (p, a.1, a.2) ((h.active p a.1 a.2).mp ha).1

/-- What a handle holds was begun, and is active. -/
theorem Owned.mem_active (h : Owned s) {p : Bytes} {token : Nat} :
    token ∈ (s.writer.state p).active.map Prod.fst ↔ (p, token) ∈ s.held := by
  rw [List.mem_map]
  constructor
  · rintro ⟨a, ha, rfl⟩
    exact ((h.active p a.1 a.2).mp ha).2
  · intro hheld
    have hkey : (p, token) ∈ s.keys := h.shared.mem_iff.mp (List.mem_append_left _ hheld)
    obtain ⟨b, hbegun, heq⟩ := List.mem_map.mp hkey
    obtain ⟨rfl, rfl⟩ := Prod.mk.inj heq
    exact ⟨(b.2.1, b.2.2), (h.active b.1 b.2.1 b.2.2).mpr ⟨hbegun, hheld⟩, rfl⟩

/-- The token of the next callback of a producer. -/
theorem Owned.token_fresh (h : Owned s) (producer : Bytes) :
    (producer, (s.writer.state producer).nextCallback + 1) ∉ s.keys := by
  intro hmem
  obtain ⟨b, hb, heq⟩ := List.mem_map.mp hmem
  have hknown := h.known b hb
  simp only [Prod.mk.injEq] at heq
  rw [heq.1, heq.2] at hknown
  omega

end

theorem Owned.begin {s s' : HandleState} (h : Owned s) {producer : Bytes} {entryNs : Nat}
    (hstep : s.step (.beginCallback producer entryNs) = some s') : Owned s' := by
  cases hstep
  have hstate := fun p => s.writer.state_beginCallback producer p entryNs (h.active_le producer)
  have htoken : (s.writer.beginCallback producer entryNs).2 = (s.writer.state producer).nextCallback + 1 := rfl
  have hfresh := htoken ▸ h.token_fresh producer
  have hkeys : (s.begun ++ [(producer, (s.writer.beginCallback producer entryNs).2, entryNs)]).map
      (fun b => (b.1, b.2.1)) = s.keys ++ [(producer, (s.writer.beginCallback producer entryNs).2)] := by
    rw [List.map_append]
    rfl
  have hheld : (s.handles ++ [some (Callback.mk true producer (s.writer.beginCallback producer entryNs).2)]).filterMap heldBy =
      s.held ++ [(producer, (s.writer.beginCallback producer entryNs).2)] := by
    rw [List.filterMap_append]
    rfl
  refine ⟨?_, ?_, ?_, ?_, ?_⟩
  · unfold keys
    rw [hkeys]
    exact List.nodup_append.mpr ⟨h.distinct, List.nodup_singleton _, fun a ha b hb hab =>
      hfresh (List.mem_singleton.mp hb ▸ hab ▸ ha)⟩
  · unfold keys held
    rw [hkeys, hheld, List.append_assoc]
    refine List.Perm.trans ?_ (h.shared.append_right _)
    rw [List.append_assoc]
    exact (List.perm_append_comm).append_left _
  · intro b hb
    rw [hstate]
    rcases List.mem_append.mp hb with hb | hb
    · have hknown := h.known b hb
      split
      · exact Nat.le_succ_of_le hknown
      · exact hknown
    · cases List.mem_singleton.mp hb
      rw [if_pos rfl]
      exact Nat.le_refl _
  · intro p
    rw [hstate]
    split
    · rw [List.map_append]
      refine List.nodup_append.mpr ⟨h.tokens p, List.nodup_singleton _, fun a ha b hb hab => ?_⟩
      obtain ⟨x, hx, rfl⟩ := List.mem_map.mp ha
      have hle := h.active_le p x hx
      rw [hab, List.mem_singleton.mp hb] at hle
      exact absurd hle (Nat.not_succ_le_self _)
    · exact h.tokens p
  · intro p token entry
    unfold held
    rw [hheld, hstate, List.mem_append, List.mem_append, List.mem_singleton, List.mem_singleton]
    by_cases hp : p = producer
    · subst hp
      rw [if_pos rfl, List.mem_append, List.mem_singleton, h.active, ← htoken]
      constructor
      · rintro (⟨hbegun, hheld⟩ | heq)
        · exact ⟨Or.inl hbegun, Or.inl hheld⟩
        · cases heq
          exact ⟨Or.inr rfl, Or.inr rfl⟩
      · rintro ⟨hbegun | heq, hheld⟩
        · rcases hheld with hheld | heq
          · exact Or.inl ⟨hbegun, hheld⟩
          · exact absurd (List.mem_map.mpr ⟨_, hbegun, heq⟩) hfresh
        · cases heq
          exact Or.inr rfl
    · rw [if_neg hp, h.active]
      simp [hp]

theorem Owned.step {s s' : HandleState} (h : Owned s) {op : HandleOp} (hstep : s.step op = some s') : Owned s' := by
  cases op with
  | beginCallback producer entryNs => exact h.begin hstep
  | construct =>
    cases hstep
    refine h.congr rfl rfl rfl ?_
    unfold held
    rw [List.filterMap_append]
    exact List.Perm.of_eq (List.append_nil _)
  | moveConstruct other leftover =>
    obtain ⟨c, hc, rfl⟩ := Option.map_eq_some_iff.mp hstep
    refine h.congr rfl rfl rfl ?_
    have hperm : ((heldBy (some c)).toList ++ (s.setHandle other (some (moved c leftover))).held).Perm s.held :=
      held_setHandle hc _
    refine List.Perm.trans ?_ hperm
    unfold held
    rw [List.filterMap_append]
    refine List.perm_append_comm.trans (List.Perm.append_right _ (List.Perm.of_eq ?_))
    cases hb : heldBy (some c) <;> simp [hb]
  | moveAssign this other leftover =>
    obtain ⟨c, hc, hrest⟩ := Option.bind_eq_some_iff.mp hstep
    obtain ⟨d, hd, rfl⟩ := Option.map_eq_some_iff.mp hrest
    by_cases hself : this = other
    · rw [if_pos hself]
      exact h
    · rw [if_neg hself]
      -- the held callback passes from one handle to the other
      obtain ⟨⟨c', hc', hreleased⟩, hothers⟩ := handle_finish hc
      refine (h.finish hc).congr rfl rfl rfl ?_
      have htaken := held_released hc' hreleased (some d)
      have hother : ((s.finish this c).setHandle this (some d)).handle other = some d := by
        rw [handle_setHandle_ne (Ne.symm hself), hothers other (Ne.symm hself), hd]
      have hgiven : ((heldBy (some d)).toList ++
          (((s.finish this c).setHandle this (some d)).setHandle other (some (moved d leftover))).held).Perm
          ((s.finish this c).setHandle this (some d)).held := held_setHandle hother _
      exact (List.perm_append_left_iff _).mp (hgiven.trans htaken)
  | destroy this =>
    obtain ⟨c, hc, rfl⟩ := Option.map_eq_some_iff.mp hstep
    obtain ⟨⟨c', hc', hreleased⟩, _⟩ := handle_finish hc
    exact (h.finish hc).congr rfl rfl rfl (held_released hc' hreleased none)

theorem owned_run {bootId instanceId : Bytes} {ops : List HandleOp} {s : HandleState}
    (h : run bootId instanceId ops = some s) : Owned s := by
  refine run_invariant (fun s op s' howned => howned.step) ops ?_ h
  refine ⟨List.nodup_nil, List.Perm.refl _, List.forall_mem_nil _, fun p => List.nodup_nil, fun p token entryNs => ?_⟩
  exact ⟨fun hmem => absurd hmem List.not_mem_nil, fun hmem => absurd hmem.1 List.not_mem_nil⟩

theorem mem_held {s : HandleState} {p : Bytes} {token : Nat} :
    (p, token) ∈ s.held ↔ ∃ (i : Nat) (c : Callback), s.handles[i]? = some (some c) ∧ c.writer = true ∧
      c.producer = p ∧ c.token = token := by
  unfold held
  rw [List.mem_filterMap]
  constructor
  · rintro ⟨o, ho, hheld⟩
    obtain ⟨i, hi⟩ := List.mem_iff_getElem?.mp ho
    cases o with
    | none => cases hheld
    | some c =>
      by_cases hw : c.writer = true
      · simp only [heldBy, hw, if_true, Option.some.injEq, Prod.mk.injEq] at hheld
        exact ⟨i, c, hi, hw, hheld⟩
      · simp [heldBy, hw] at hheld
  · rintro ⟨i, c, hi, hw, rfl, rfl⟩
    exact ⟨some c, List.mem_of_getElem? hi, by simp [heldBy, hw]⟩

end HandleState

/-- **Every callback begun is ended exactly once**: it is active as long as some
handle holds it, with the time it began at, and ends when that handle is assigned
to or destroyed. Tokens are counted without wrapping: a producer is taken to begin
fewer than 2^64 callbacks. -/
theorem callbacks_ended_once {bootId instanceId : Bytes} {ops : List HandleOp} {s : HandleState}
    (h : HandleState.run bootId instanceId ops = some s) :
    (∀ p, ((s.writer.state p).active.map Prod.fst).Nodup ∧
      (∀ token, token ∈ (s.writer.state p).active.map Prod.fst ↔
        ∃ (i : Nat) (c : Callback), s.handles[i]? = some (some c) ∧ c.writer = true ∧
          c.producer = p ∧ c.token = token) ∧
      ∀ token entryNs, (token, entryNs) ∈ (s.writer.state p).active ↔
        (p, token, entryNs) ∈ s.begun ∧ ∃ (i : Nat) (c : Callback), s.handles[i]? = some (some c) ∧ c.writer = true ∧
          c.producer = p ∧ c.token = token) ∧
    (s.begun.map fun b => (b.1, b.2.1)).Nodup ∧
    s.ended.Nodup ∧
    ((∀ handle ∈ s.handles, handle = none) →
      (∀ b ∈ s.begun, s.ended.count (b.1, b.2.1) = 1) ∧ ∀ p, (s.writer.state p).active = []) := by
  have howned := HandleState.owned_run h
  refine ⟨fun p => ⟨howned.tokens p, fun token => ?_, fun token entryNs => ?_⟩, howned.distinct,
    (List.nodup_append.mp howned.held_nodup).2.1, fun hdestroyed => ?_⟩
  · rw [← HandleState.mem_held, howned.mem_active]
  · rw [howned.active, HandleState.mem_held]
  · have hheld : s.held = [] := by
      refine List.filterMap_eq_nil_iff.mpr fun handle hhandle => ?_
      rw [hdestroyed handle hhandle]
      rfl
    have hshared := howned.shared
    rw [hheld, List.nil_append] at hshared
    refine ⟨fun b hb => ?_, fun p => ?_⟩
    · rw [hshared.count_eq]
      exact List.count_eq_one_of_mem howned.distinct (List.mem_map_of_mem hb)
    · refine List.eq_nil_iff_forall_not_mem.mpr fun a ha => ?_
      have hmem := ((howned.active p a.1 a.2).mp ha).2
      rw [hheld] at hmem
      exact absurd hmem List.not_mem_nil

/-- A handle is assigned over, moved out of and assigned to itself. -/
def handleMoves : List HandleOp := [
  .beginCallback (ascii "Fusion") 10, .beginCallback (ascii "Fusion") 20, .moveAssign 0 1 [], .moveAssign 0 0 [],
  .moveConstruct 0 (ascii "Fusion"), .construct, .moveAssign 3 2 [], .destroy 0, .destroy 3, .destroy 2, .destroy 1]

theorem handleMoves_ended : ∃ s, HandleState.run [] [] handleMoves = some s ∧
    s.ended = [(ascii "Fusion", 1), (ascii "Fusion", 2)] ∧ (s.writer.state (ascii "Fusion")).active = [] := by
  have hsome : ((HandleState.run [] [] handleMoves).map fun s => (s.handles, s.ended)) =
      some ([none, none, none, none], [(ascii "Fusion", 1), (ascii "Fusion", 2)]) := by decide
  obtain ⟨s, hs, hfacts⟩ := Option.map_eq_some_iff.mp hsome
  simp only [Prod.mk.injEq] at hfacts
  obtain ⟨_, _, _, hend⟩ := callbacks_ended_once hs
  have hdestroyed : ∀ handle ∈ s.handles, handle = none := by
    rw [hfacts.1]
    decide
  exact ⟨s, hs, hfacts.2, (hend hdestroyed).2 (ascii "Fusion")⟩

end ReferenceSystem
