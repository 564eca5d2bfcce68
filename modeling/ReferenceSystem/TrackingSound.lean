import ReferenceSystem.Tracking

/-!
# Delivery watermarks are safe

A callback that may still write was begun before its events were stamped, and
it is in the active map of its producer until it ends. A report therefore stays
below the entry time of everything that may still be written, and below all
clock reads to come. The clock is assumed to advance by at least `d` between
two reads; `d = 0` is a non-decreasing and `d = 1` a strictly increasing clock.
-/

namespace ReferenceSystem

/-! ## The writer -/

theorem throughNs_foldl (active : List (Nat × Nat)) : ∀ nowNs : Nat, throughNs active nowNs ≤ nowNs ∧
    ∀ callback ∈ active, throughNs active nowNs ≤ callback.2 := by
  induction active with
  | nil => exact fun nowNs => ⟨Nat.le_refl _, fun _ h => absurd h List.not_mem_nil⟩
  | cons a active ih =>
    intro nowNs
    have hstep : throughNs (a :: active) nowNs =
        throughNs active (if a.2 = 0 then 0 else min nowNs (a.2 - 1)) := rfl
    obtain ⟨hle, hall⟩ := ih (if a.2 = 0 then 0 else min nowNs (a.2 - 1))
    rw [hstep]
    have hbound : (if a.2 = 0 then 0 else min nowNs (a.2 - 1)) ≤ nowNs ∧
        (if a.2 = 0 then 0 else min nowNs (a.2 - 1)) ≤ a.2 := by
      split <;> omega
    refine ⟨hle.trans hbound.1, fun callback hc => ?_⟩
    rcases List.mem_cons.mp hc with rfl | hc
    · exact hle.trans hbound.2
    · exact hall callback hc

namespace TrackingWriter

theorem state_update (w : TrackingWriter) (producer p : Bytes) (f : ProducerState → ProducerState) :
    (w.update producer f).state p = if p = producer then f (w.state p) else w.state p := by
  unfold update state
  split
  · rename_i h; subst h; simp only [ite_true, Option.getD_some]
  · rename_i h; simp only [h, ite_false]

theorem state_write (w : TrackingWriter) (producer p : Bytes) (content : TrackingContent) :
    (w.write producer content).state p =
      if p = producer then { w.state p with nextRecord := (w.state p).nextRecord + 1 } else w.state p :=
  state_update w producer p fun s => { s with nextRecord := s.nextRecord + 1 }

theorem active_write (w : TrackingWriter) (producer p : Bytes) (content : TrackingContent) :
    ((w.write producer content).state p).active = (w.state p).active ∧
      ((w.write producer content).state p).nextCallback = (w.state p).nextCallback := by
  rw [state_write]
  split <;> exact ⟨rfl, rfl⟩

theorem state_register (w : TrackingWriter) (producer p : Bytes) :
    (w.registerProducer producer).state p = w.state p := by
  rw [registerProducer, state_update]
  split <;> rfl

theorem state_endCallback (w : TrackingWriter) (producer p : Bytes) (token : Nat) :
    (w.endCallback producer token).state p =
      if p = producer then { w.state p with active := (w.state p).active.filter (·.1 ≠ token) } else w.state p := by
  unfold endCallback
  cases hp : w.producers producer with
  | none =>
    by_cases h : p = producer
    · have : w.state p = {} := by rw [state, h, hp]; rfl
      rw [if_pos h, this]; rfl
    · rw [if_neg h]
  | some s => exact state_update w producer p fun s => { s with active := s.active.filter (·.1 ≠ token) }

theorem written_endCallback (w : TrackingWriter) (producer : Bytes) (token : Nat) :
    (w.endCallback producer token).written = w.written := by
  unfold endCallback
  split <;> rfl

theorem state_beginCallback (w : TrackingWriter) (producer p : Bytes) (entryNs : Nat)
    (hfresh : ∀ a ∈ (w.state producer).active, a.1 ≤ (w.state producer).nextCallback) :
    (w.beginCallback producer entryNs).1.state p =
      if p = producer then
        { w.state p with
          nextCallback := (w.state p).nextCallback + 1
          active := (w.state p).active ++ [((w.state p).nextCallback + 1, entryNs)] }
      else w.state p := by
  unfold beginCallback
  rw [state_update]
  by_cases h : p = producer
  · subst h
    have hnew : (w.state p).nextCallback + 1 ∉ (w.state p).active.map Prod.fst := fun hm => by
      obtain ⟨a, ha, he⟩ := List.mem_map.mp hm
      have := hfresh a ha
      omega
    simp only [ite_true, if_neg hnew]
  · simp only [h, ite_false]

end TrackingWriter

/-! ## The invariant -/

/-- A delivery report of a producer is `d` below every time that a live callback
of that producer has read, and not above what has been read at all. -/
def Watermark (d : Nat) (s : TrackingState) (r : TrackingRecord) (through : Nat) : Prop :=
  (∃ x ∈ s.reads, through ≤ x) ∧ ∀ t ∈ s.callbacks, t.live = true → t.producer = r.producer →
    ∀ x ∈ t.stamps, through + d ≤ x

def Ordered (d : Nat) (a b : TrackingRecord) : Prop :=
  ∀ through timestampNs text, a.producer = b.producer → a.content = .delivery through →
    b.content = .event timestampNs text → through + d ≤ timestampNs

def DistinctTokens (callbacks : List CallbackThread) : Prop :=
  ∀ (c c' : Nat) (t t' : CallbackThread), callbacks[c]? = some t → callbacks[c']? = some t' → c ≠ c' →
    t.producer = t'.producer → t.token ≠ t'.token

structure TrackingInv (d : Nat) (s : TrackingState) : Prop where
  active : ∀ t ∈ s.callbacks, t.live = true → (t.token, t.entryNs) ∈ (s.writer.state t.producer).active
  known : ∀ p, ∀ a ∈ (s.writer.state p).active, a.1 ≤ (s.writer.state p).nextCallback
  tokens : ∀ t ∈ s.callbacks, t.token ≤ (s.writer.state t.producer).nextCallback
  distinct : DistinctTokens s.callbacks
  entered : ∀ t ∈ s.callbacks, t.entryNs ∈ s.reads
  stamped : ∀ t ∈ s.callbacks, ∀ x ∈ t.stamps, t.entryNs + d ≤ x
  reporter : ∀ p now, s.reporter = some (p, now) → now ∈ s.reads
  watermark : ∀ r ∈ s.writer.written, ∀ through, r.content = .delivery through → Watermark d s r through
  ordered : s.writer.written.Pairwise (Ordered d)

/-- Successive clock reads advance by at least `d`. -/
def Advancing (d : Nat) (s : TrackingState) : Prop := s.reads.Pairwise fun a b => a + d ≤ b

theorem DistinctTokens.set {callbacks : List CallbackThread} {c : Nat} {t u : CallbackThread}
    (h : DistinctTokens callbacks) (hc : callbacks[c]? = some t) (hp : u.producer = t.producer)
    (htoken : u.token = t.token) : DistinctTokens (callbacks.set c u) := by
  intro c₁ c₂ t₁ t₂ h₁ h₂ hne
  rcases getElem?_set_cases h₁ with ⟨hc₁, ht₁⟩ | ⟨_, h₁⟩
  · rcases getElem?_set_cases h₂ with ⟨hc₂, _⟩ | ⟨_, h₂⟩
    · exact absurd (hc₁.trans hc₂.symm) hne
    · rw [ht₁, hp, htoken]; exact h c₁ c₂ t t₂ (hc₁ ▸ hc) h₂ hne
  · rcases getElem?_set_cases h₂ with ⟨hc₂, ht₂⟩ | ⟨_, h₂⟩
    · rw [ht₂, hp, htoken]; exact h c₁ c₂ t₁ t h₁ (hc₂ ▸ hc) hne
    · exact h c₁ c₂ t₁ t₂ h₁ h₂ hne

theorem liveCallback_eq {s : TrackingState} {c : Nat} {t : CallbackThread} (h : liveCallback s c = some t) :
    s.callbacks[c]? = some t ∧ t.live = true := by
  unfold liveCallback at h
  exact Option.filter_eq_some_iff.mp h

theorem Advancing.last {d : Nat} {s : TrackingState} {reads : List Nat} {now : Nat} (h : Advancing d s)
    (hr : s.reads = reads ++ [now]) {x : Nat} (hx : x ∈ reads) : x + d ≤ now := by
  rw [Advancing, hr] at h
  exact (List.pairwise_append.mp h).2.2 x hx now (List.mem_singleton_self _)

section
variable {d : Nat} {s : TrackingState} (hi : TrackingInv d s)
include hi

theorem inv_register (producer : Bytes) : TrackingInv d { s with writer := s.writer.registerProducer producer } := by
  refine { hi with active := ?_, known := ?_, tokens := ?_ }
  · intro t ht hlive
    rw [TrackingWriter.state_register]; exact hi.active t ht hlive
  · intro p a ha
    rw [TrackingWriter.state_register] at ha ⊢; exact hi.known p a ha
  · intro t ht
    rw [TrackingWriter.state_register]; exact hi.tokens t ht

theorem inv_beginCallback {producer : Bytes} {now : Nat} {s' : TrackingState}
    (h : trackingStep s (.beginCallback producer now) = some s') : TrackingInv d s' := by
  cases h
  have hstate := fun p => s.writer.state_beginCallback producer p now (hi.known producer)
  have hgrow : ∀ p, (∀ a ∈ (s.writer.state p).active, a ∈ ((s.writer.beginCallback producer now).1.state p).active) ∧
      (s.writer.state p).nextCallback ≤ ((s.writer.beginCallback producer now).1.state p).nextCallback := by
    intro p
    rw [hstate p]
    split
    · exact ⟨fun a ha => List.mem_append_left _ ha, Nat.le_succ _⟩
    · exact ⟨fun a ha => ha, Nat.le_refl _⟩
  have hnew : ((s.writer.beginCallback producer now).2, now) ∈
      ((s.writer.beginCallback producer now).1.state producer).active := by
    rw [hstate producer, if_pos rfl]
    exact List.mem_append_right _ (List.mem_singleton_self _)
  constructor
  · intro t ht hlive
    rcases List.mem_append.mp ht with ht | ht
    · exact (hgrow t.producer).1 _ (hi.active t ht hlive)
    · cases List.mem_singleton.mp ht; exact hnew
  · intro p a ha
    rw [hstate p] at ha ⊢
    split at ha
    · rename_i hp
      rw [if_pos hp]
      rcases List.mem_append.mp ha with ha | ha
      · exact (hi.known p a ha).trans (Nat.le_succ _)
      · cases List.mem_singleton.mp ha; exact Nat.le_refl _
    · rename_i hp
      rw [if_neg hp]; exact hi.known p a ha
  · intro t ht
    rcases List.mem_append.mp ht with ht | ht
    · exact (hi.tokens t ht).trans (hgrow t.producer).2
    · cases List.mem_singleton.mp ht
      rw [hstate producer, if_pos rfl]; exact Nat.le_refl _
  · have hfresh : ∀ (c : Nat) (t : CallbackThread), s.callbacks[c]? = some t → t.producer = producer →
        t.token ≠ (s.writer.beginCallback producer now).2 := by
      intro c t hc hp he
      have := hi.tokens t (List.mem_of_getElem? hc)
      rw [hp, he] at this
      exact absurd this (Nat.not_succ_le_self _)
    intro c c' t t' hc hc' hne hp
    rcases getElem?_snoc_cases hc with ⟨rfl, rfl⟩ | ⟨_, hc⟩
    · rcases getElem?_snoc_cases hc' with ⟨rfl, rfl⟩ | ⟨_, hc'⟩
      · exact absurd rfl hne
      · exact (hfresh c' t' hc' hp.symm).symm
    · rcases getElem?_snoc_cases hc' with ⟨rfl, rfl⟩ | ⟨_, hc'⟩
      · exact hfresh c t hc hp
      · exact hi.distinct c c' t t' hc hc' hne hp
  · intro t ht
    rcases List.mem_append.mp ht with ht | ht
    · exact List.mem_append_left _ (hi.entered t ht)
    · cases List.mem_singleton.mp ht; exact List.mem_append_right _ (List.mem_singleton_self _)
  · intro t ht x hx
    rcases List.mem_append.mp ht with ht | ht
    · exact hi.stamped t ht x hx
    · cases List.mem_singleton.mp ht; cases hx
  · exact fun p now' h => List.mem_append_left _ (hi.reporter p now' h)
  · intro r hr through hthrough
    obtain ⟨⟨x, hx, hle⟩, hall⟩ := hi.watermark r hr through hthrough
    refine ⟨⟨x, List.mem_append_left _ hx, hle⟩, fun t ht hlive hp y hy => ?_⟩
    rcases List.mem_append.mp ht with ht | ht
    · exact hall t ht hlive hp y hy
    · cases List.mem_singleton.mp ht; cases hy
  · exact hi.ordered

theorem inv_stamp {c now : Nat} {s' : TrackingState} (h : trackingStep s (.stamp c now) = some s')
    (hq : Advancing d s') : TrackingInv d s' := by
  obtain ⟨t, ht, rfl⟩ := Option.map_eq_some_iff.mp h
  obtain ⟨hc, hlive⟩ := liveCallback_eq ht
  have hmem := List.mem_of_getElem? hc
  have hlast : ∀ x ∈ s.reads, x + d ≤ now := fun x hx => hq.last rfl hx
  constructor
  · exact forall_mem_set hi.active fun _ => hi.active t hmem hlive
  · exact hi.known
  · exact forall_mem_set hi.tokens (hi.tokens t hmem)
  · exact hi.distinct.set hc rfl rfl
  · exact forall_mem_set (fun t' ht' => List.mem_append_left _ (hi.entered t' ht'))
      (List.mem_append_left _ (hi.entered t hmem))
  · refine forall_mem_set hi.stamped fun x hx => ?_
    rcases List.mem_append.mp hx with hx | hx
    · exact hi.stamped t hmem x hx
    · cases List.mem_singleton.mp hx
      exact hlast _ (hi.entered t hmem)
  · exact fun p now' h => List.mem_append_left _ (hi.reporter p now' h)
  · intro r hr through hthrough
    obtain ⟨⟨x, hx, hle⟩, hall⟩ := hi.watermark r hr through hthrough
    refine ⟨⟨x, List.mem_append_left _ hx, hle⟩, forall_mem_set hall fun _ hp y hy => ?_⟩
    rcases List.mem_append.mp hy with hy | hy
    · exact hall t hmem hlive hp y hy
    · cases List.mem_singleton.mp hy
      exact (Nat.add_le_add_right hle d).trans (hlast x hx)
  · exact hi.ordered

theorem inv_endCallback {c : Nat} {s' : TrackingState} (h : trackingStep s (.endCallback c) = some s') :
    TrackingInv d s' := by
  obtain ⟨t, ht, rfl⟩ := Option.map_eq_some_iff.mp h
  obtain ⟨hc, hlive⟩ := liveCallback_eq ht
  have hmem := List.mem_of_getElem? hc
  have hstate := fun p => s.writer.state_endCallback t.producer p t.token
  have hnext : ∀ p, ((s.writer.endCallback t.producer t.token).state p).nextCallback =
      (s.writer.state p).nextCallback := fun p => by rw [hstate p]; split <;> rfl
  have hwritten := s.writer.written_endCallback t.producer t.token
  constructor
  · -- another live callback of the producer has another token
    intro t' ht' hlive'
    obtain ⟨c', hc'⟩ := List.mem_iff_getElem?.mp ht'
    rcases getElem?_set_cases hc' with ⟨_, rfl⟩ | ⟨hne, hc'⟩
    · cases hlive'
    · have hact := hi.active t' (List.mem_of_getElem? hc') hlive'
      simp only [hstate]
      split
      · rename_i hp
        exact List.mem_filter.mpr ⟨hact, decide_eq_true (hi.distinct c' c t' t hc' hc hne hp)⟩
      · exact hact
  · intro p a ha
    simp only [hnext]
    simp only [hstate] at ha
    split at ha
    · exact hi.known p a (List.mem_filter.mp ha).1
    · exact hi.known p a ha
  · simp only [hnext]
    exact forall_mem_set hi.tokens (hi.tokens t hmem)
  · exact hi.distinct.set hc rfl rfl
  · exact forall_mem_set hi.entered (hi.entered t hmem)
  · exact forall_mem_set hi.stamped (hi.stamped t hmem)
  · exact hi.reporter
  · intro r hr through hthrough
    simp only [hwritten] at hr
    obtain ⟨hread, hall⟩ := hi.watermark r hr through hthrough
    exact ⟨hread, forall_mem_set hall fun hlive' => by cases hlive'⟩
  · simp only [hwritten]; exact hi.ordered

theorem inv_written {producer : Bytes} {content : TrackingContent} {reporter : Option (Bytes × Nat)}
    (hreporter : reporter = s.reporter ∨ reporter = none)
    (hevent : ∀ timestampNs text, content = .event timestampNs text → ∀ r ∈ s.writer.written, r.producer = producer →
      ∀ through, r.content = .delivery through → through + d ≤ timestampNs)
    (hdelivery : ∀ through, content = .delivery through → (∃ x ∈ s.reads, through ≤ x) ∧
      ∀ t ∈ s.callbacks, t.live = true → t.producer = producer → through ≤ t.entryNs) :
    TrackingInv d { s with writer := s.writer.write producer content, reporter := reporter } := by
  have hactive := fun p => s.writer.active_write producer p content
  refine { hi with active := ?_, known := ?_, tokens := ?_, reporter := ?_, watermark := ?_, ordered := ?_ }
  · intro t ht hlive
    rw [(hactive t.producer).1]; exact hi.active t ht hlive
  · intro p a ha
    rw [(hactive p).1] at ha
    rw [(hactive p).2]; exact hi.known p a ha
  · intro t ht
    rw [(hactive t.producer).2]; exact hi.tokens t ht
  · intro p now h
    rcases hreporter with hr | hr
    · exact hi.reporter p now (hr ▸ h)
    · simp only [hr] at h; cases h
  · intro r hr through hthrough
    rcases List.mem_append.mp hr with hr | hr
    · exact hi.watermark r hr through hthrough
    · cases List.mem_singleton.mp hr
      obtain ⟨hread, hall⟩ := hdelivery through hthrough
      refine ⟨hread, fun t ht hlive hp x hx => ?_⟩
      exact (Nat.add_le_add_right (hall t ht hlive hp) d).trans (hi.stamped t ht x hx)
  · refine List.pairwise_append.mpr ⟨hi.ordered, List.pairwise_singleton _ _, fun a ha b hb => ?_⟩
    cases List.mem_singleton.mp hb
    exact fun through timestampNs text hp hda hdb => hevent timestampNs text hdb a ha hp through hda

theorem inv_write {c k : Nat} {event : Bytes} {s' : TrackingState}
    (h : trackingStep s (.write c k event) = some s') : TrackingInv d s' := by
  obtain ⟨t, ht, hs⟩ := Option.bind_eq_some_iff.mp h
  obtain ⟨timestamp, hstamp, rfl⟩ := Option.map_eq_some_iff.mp hs
  obtain ⟨hc, hlive⟩ := liveCallback_eq ht
  refine inv_written hi (Or.inl rfl) (fun timestampNs text hev r hr hp through hthrough => ?_)
    (fun through hd => by cases hd)
  cases hev
  exact (hi.watermark r hr through hthrough).2 t (List.mem_of_getElem? hc) hlive hp.symm _
    (List.mem_of_getElem? hstamp)

theorem inv_read {producer : Bytes} {now : Nat} {s' : TrackingState}
    (h : trackingStep s (.read producer now) = some s') : TrackingInv d s' := by
  simp only [trackingStep] at h
  split at h
  · cases h
    refine { hi with entered := ?_, reporter := ?_, watermark := ?_ }
    · exact fun t ht => List.mem_append_left _ (hi.entered t ht)
    · intro p now' hr
      cases hr
      exact List.mem_append_right _ (List.mem_singleton_self _)
    · intro r hr through hthrough
      obtain ⟨⟨x, hx, hle⟩, hall⟩ := hi.watermark r hr through hthrough
      exact ⟨⟨x, List.mem_append_left _ hx, hle⟩, hall⟩
  · cases h

theorem inv_report {s' : TrackingState} (h : trackingStep s .report = some s') : TrackingInv d s' := by
  obtain ⟨⟨producer, now⟩, hr, rfl⟩ := Option.map_eq_some_iff.mp h
  obtain ⟨hle, hall⟩ := throughNs_foldl (s.writer.state producer).active now
  refine inv_written hi (Or.inr rfl) (fun _ _ hev => by cases hev) fun through hd => ?_
  cases hd
  refine ⟨⟨now, hi.reporter producer now hr, hle⟩, fun t ht hlive hp => ?_⟩
  have hact := hi.active t ht hlive
  rw [hp] at hact
  exact hall _ hact

end

theorem advancing_back {d : Nat} (s : TrackingState) (e : TrackingStep) (s' : TrackingState)
    (h : trackingStep s e = some s') (hq : Advancing d s') : Advancing d s := by
  have hgrow : ∃ more, s'.reads = s.reads ++ more := by
    cases e with
    | register producer => cases h; exact ⟨[], (List.append_nil _).symm⟩
    | beginCallback producer now => cases h; exact ⟨[now], rfl⟩
    | stamp c now => obtain ⟨_, _, rfl⟩ := Option.map_eq_some_iff.mp h; exact ⟨[now], rfl⟩
    | write c k event =>
      obtain ⟨_, _, hs⟩ := Option.bind_eq_some_iff.mp h
      obtain ⟨_, _, rfl⟩ := Option.map_eq_some_iff.mp hs
      exact ⟨[], (List.append_nil _).symm⟩
    | endCallback c => obtain ⟨_, _, rfl⟩ := Option.map_eq_some_iff.mp h; exact ⟨[], (List.append_nil _).symm⟩
    | read producer now =>
      simp only [trackingStep] at h
      split at h
      · cases h; exact ⟨[now], rfl⟩
      · cases h
    | report => obtain ⟨_, _, rfl⟩ := Option.map_eq_some_iff.mp h; exact ⟨[], (List.append_nil _).symm⟩
  obtain ⟨more, hmore⟩ := hgrow
  rw [Advancing, hmore] at hq
  exact (List.pairwise_append.mp hq).1

theorem trackingInv_step {d : Nat} (s : TrackingState) (e : TrackingStep) (s' : TrackingState) (hq : Advancing d s')
    (hi : TrackingInv d s) (h : trackingStep s e = some s') : TrackingInv d s' := by
  cases e with
  | register producer => cases h; exact inv_register hi producer
  | beginCallback producer now => exact inv_beginCallback hi h
  | stamp c now => exact inv_stamp hi h hq
  | write c k event => exact inv_write hi h
  | endCallback c => exact inv_endCallback hi h
  | read producer now => exact inv_read hi h
  | report => exact inv_report hi h

theorem trackingInv_init (d : Nat) (bootId instanceId : Bytes) :
    TrackingInv d { writer := { bootId, instanceId } } := by
  refine ⟨?_, ?_, ?_, ?_, ?_, ?_, ?_, ?_, List.Pairwise.nil⟩
  · intro t ht; cases ht
  · intro p a ha; cases ha
  · intro t ht; cases ht
  · intro c c' t t' hc; cases hc
  · intro t ht; cases ht
  · intro t ht; cases ht
  · intro p now hr; cases hr
  · intro r hr; cases hr

theorem trackingInv_run {d : Nat} {bootId instanceId : Bytes} {steps : List TrackingStep} {s : TrackingState}
    (h : trackingRun bootId instanceId steps = some s) (hq : Advancing d s) : TrackingInv d s := by
  exact (run_invariant_under advancing_back trackingInv_step steps (trackingInv_init d bootId instanceId) h hq).1

/-- **Delivery reports are safe**: no event of a producer that is written after
a delivery report lies before the reported time, nor at it if the clock is
strictly increasing. The tokens are distinct as those of the source are while a
producer has begun fewer than 2^64 callbacks. -/
theorem delivery_watermark {bootId instanceId : Bytes} {steps : List TrackingStep} {s : TrackingState}
    (h : trackingRun bootId instanceId steps = some s) (hclock : s.reads.Pairwise (· ≤ ·)) :
    ∀ (i j : Nat) (a b : TrackingRecord) (through timestampNs : Nat) (text : Bytes), i < j →
      s.writer.written[i]? = some a → s.writer.written[j]? = some b → a.producer = b.producer →
      a.content = .delivery through → b.content = .event timestampNs text →
      through ≤ timestampNs ∧ (s.reads.Pairwise (· < ·) → through < timestampNs) := by
  intro i j a b through timestampNs text hij ha hb hp hca hcb
  have hordered : ∀ d, Advancing d s → through + d ≤ timestampNs := by
    intro d hd
    obtain ⟨hi, rfl⟩ := List.getElem?_eq_some_iff.mp ha
    obtain ⟨hj, rfl⟩ := List.getElem?_eq_some_iff.mp hb
    exact List.pairwise_iff_getElem.mp (trackingInv_run h hd).ordered i j hi hj hij through timestampNs text hp hca hcb
  exact ⟨hordered 0 hclock, fun hstrict => hordered 1 hstrict⟩

/-- A report whose time is read before a callback begins and which is written
while that callback is running: its event is stamped before the report and
written after it, and the report stops short of the callback's entry. -/
def overlappingReport : List TrackingStep := [
  .register (ascii "FrontLidarDriver"), .read (ascii "FrontLidarDriver") 100,
  .beginCallback (ascii "FrontLidarDriver") 110, .stamp 0 120, .report,
  .read (ascii "FrontLidarDriver") 130, .report, .write 0 0 [], .endCallback 0]

def lidarRecord (recordSeq : Nat) (content : TrackingContent) : TrackingRecord :=
  ⟨ascii "FrontLidarDriver", ascii "instance-test", ascii "boot-test", recordSeq, content⟩

theorem overlappingReport_safe : ∃ s, trackingRun (ascii "boot-test") (ascii "instance-test") overlappingReport = some s ∧
    s.writer.written = [lidarRecord 0 (.delivery 100), lidarRecord 1 (.delivery 109), lidarRecord 2 (.event 120 [])] ∧
    s.reads.Pairwise (· < ·) ∧ 109 < 120 := by
  have hsome : ((trackingRun (ascii "boot-test") (ascii "instance-test") overlappingReport).map fun s =>
      (s.reads, s.writer.written)) = some ([100, 110, 120, 130],
        [lidarRecord 0 (.delivery 100), lidarRecord 1 (.delivery 109), lidarRecord 2 (.event 120 [])]) := by
    decide
  obtain ⟨s, hs, hpair⟩ := Option.map_eq_some_iff.mp hsome
  rw [Prod.mk.injEq] at hpair
  have hle : s.reads.Pairwise (· ≤ ·) := by rw [hpair.1]; decide
  have hlt : s.reads.Pairwise (· < ·) := by rw [hpair.1]; decide
  have h₁ : s.writer.written[1]? = some (lidarRecord 1 (.delivery 109)) := by rw [hpair.2]; rfl
  have h₂ : s.writer.written[2]? = some (lidarRecord 2 (.event 120 [])) := by rw [hpair.2]; rfl
  exact ⟨s, hs, hpair.2, hlt, (delivery_watermark hs hle 1 2 _ _ 109 120 [] (by decide) h₁ h₂ rfl rfl rfl).2 hlt⟩

/-! ## Successive reports -/

/-- No callback of a producer begins at a time that has been reported for it. -/
def BeginsAfterReports (s : TrackingState) : TrackingStep → Prop
  | .beginCallback producer now => ∀ r ∈ s.writer.written, r.producer = producer → r.content ≠ .delivery now
  | _ => True

instance (s : TrackingState) : ∀ e, Decidable (BeginsAfterReports s e)
  | .beginCallback producer now =>
    inferInstanceAs (Decidable (∀ r ∈ s.writer.written, r.producer = producer → r.content ≠ .delivery now))
  | .register _ | .stamp _ _ | .write _ _ _ | .endCallback _ | .read _ _ | .report => inferInstanceAs (Decidable True)

/-- A later report of the same producer is at most `slack` below an earlier one. -/
def Regress (slack : Nat) (a b : TrackingRecord) : Prop :=
  ∀ through through', a.producer = b.producer → a.content = .delivery through → b.content = .delivery through' →
    through ≤ through' + slack

structure ReportInv (slack : Nat) (s : TrackingState) : Prop where
  read : ∀ r ∈ s.writer.written, ∀ through, r.content = .delivery through → ∃ x ∈ s.reads, through ≤ x
  pending : ∀ p now, s.reporter = some (p, now) → ∀ r ∈ s.writer.written, ∀ through,
    r.content = .delivery through → through ≤ now
  active : ∀ r ∈ s.writer.written, ∀ through, r.content = .delivery through →
    ∀ a ∈ (s.writer.state r.producer).active, through ≤ a.2 - 1 + slack
  ordered : s.writer.written.Pairwise (Regress slack)

theorem throughNs_le (active : List (Nat × Nat)) : ∀ nowNs : Nat,
    ∀ callback ∈ active, throughNs active nowNs ≤ callback.2 - 1 := by
  induction active with
  | nil => intro nowNs callback h; cases h
  | cons a active ih =>
    intro nowNs callback hc
    have hstep : throughNs (a :: active) nowNs =
        throughNs active (if a.2 = 0 then 0 else min nowNs (a.2 - 1)) := rfl
    rw [hstep]
    rcases List.mem_cons.mp hc with rfl | hc
    · refine (throughNs_foldl active _).1.trans ?_
      split <;> omega
    · exact ih _ callback hc

theorem le_throughNs {active : List (Nat × Nat)} {bound : Nat} : ∀ {nowNs : Nat}, bound ≤ nowNs →
    (∀ callback ∈ active, bound ≤ callback.2 - 1) → bound ≤ throughNs active nowNs := by
  induction active with
  | nil => intro nowNs h _; exact h
  | cons a active ih =>
    intro nowNs h hall
    have hstep : throughNs (a :: active) nowNs =
        throughNs active (if a.2 = 0 then 0 else min nowNs (a.2 - 1)) := rfl
    rw [hstep]
    apply ih
    · have := hall a (List.mem_cons_self ..)
      split <;> omega
    · intro callback hc
      exact hall callback (List.mem_cons_of_mem _ hc)

section
variable {slack : Nat} {s s' : TrackingState} (hi : ReportInv slack s)
include hi

theorem ReportInv.quiet (hwritten : s'.writer.written = s.writer.written) (hreporter : s'.reporter = s.reporter)
    (hreads : ∀ x ∈ s.reads, x ∈ s'.reads)
    (hactive : ∀ p, ∀ a ∈ (s'.writer.state p).active, a ∈ (s.writer.state p).active) : ReportInv slack s' := by
  refine ⟨?_, ?_, ?_, hwritten ▸ hi.ordered⟩
  · intro r hr through hthrough
    obtain ⟨x, hx, hle⟩ := hi.read r (hwritten ▸ hr) through hthrough
    exact ⟨x, hreads x hx, hle⟩
  · intro p now h r hr
    exact hi.pending p now (hreporter ▸ h) r (hwritten ▸ hr)
  · intro r hr through hthrough a ha
    exact hi.active r (hwritten ▸ hr) through hthrough a (hactive r.producer a ha)

theorem ReportInv.begin {d : Nat} (ht : TrackingInv d s) (hq : Advancing d s') {producer : Bytes} {now : Nat}
    (h : trackingStep s (.beginCallback producer now) = some s')
    (hready : 1 ≤ slack ∨ 1 ≤ d ∨ BeginsAfterReports s (.beginCallback producer now)) : ReportInv slack s' := by
  cases h
  refine ⟨?_, hi.pending, ?_, hi.ordered⟩
  · intro r hr through hthrough
    obtain ⟨x, hx, hle⟩ := hi.read r hr through hthrough
    exact ⟨x, List.mem_append_left _ hx, hle⟩
  · intro r hr through hthrough a ha
    rw [s.writer.state_beginCallback producer r.producer now (ht.known producer)] at ha
    by_cases hp : r.producer = producer
    · rw [if_pos hp] at ha
      rcases List.mem_append.mp ha with ha | ha
      · exact hi.active r hr through hthrough a ha
      · cases List.mem_singleton.mp ha
        obtain ⟨x, hx, hle⟩ := hi.read r hr through hthrough
        have hnow := hq.last rfl hx
        simp only
        rcases hready with h | h | h
        · omega
        · omega
        · have hne : through ≠ now := fun he => h r hr hp (he ▸ hthrough)
          omega
    · rw [if_neg hp] at ha
      exact hi.active r hr through hthrough a ha

theorem ReportInv.write (producer : Bytes) (timestampNs : Nat) (event : Bytes) :
    ReportInv slack { s with writer := s.writer.writeEvent producer timestampNs event } := by
  have hactive := fun p => (s.writer.active_write producer p (.event timestampNs event)).1
  have hold : ∀ r ∈ (s.writer.writeEvent producer timestampNs event).written, ∀ through,
      r.content = .delivery through → r ∈ s.writer.written := by
    intro r hr through hthrough
    rcases List.mem_append.mp hr with hr | hr
    · exact hr
    · rw [List.mem_singleton.mp hr] at hthrough
      cases hthrough
  refine ⟨?_, ?_, ?_, ?_⟩
  · intro r hr through hthrough
    exact hi.read r (hold r hr through hthrough) through hthrough
  · intro p now h r hr through hthrough
    exact hi.pending p now h r (hold r hr through hthrough) through hthrough
  · intro r hr through hthrough a ha
    apply hi.active r (hold r hr through hthrough) through hthrough
    rw [← hactive]
    exact ha
  · refine List.pairwise_append.mpr ⟨hi.ordered, List.pairwise_singleton _ _, fun a _ b hb => ?_⟩
    intro through through' _ _ hb'
    rw [List.mem_singleton.mp hb] at hb'
    cases hb'

theorem ReportInv.readNow {d : Nat} (hq : Advancing d s') {producer : Bytes} {now : Nat}
    (h : trackingStep s (.read producer now) = some s') : ReportInv slack s' := by
  simp only [trackingStep] at h
  split at h
  · cases h
    refine ⟨?_, ?_, hi.active, hi.ordered⟩
    · intro r hr through hthrough
      obtain ⟨x, hx, hle⟩ := hi.read r hr through hthrough
      exact ⟨x, List.mem_append_left _ hx, hle⟩
    · intro p now' hp r hr through hthrough
      cases hp
      obtain ⟨x, hx, hle⟩ := hi.read r hr through hthrough
      have := hq.last rfl hx
      omega
  · cases h

/-- A report is written below its own time and below all active callbacks, and
everything reported earlier lies below these, too, up to the slack. -/
theorem ReportInv.report {d : Nat} (ht : TrackingInv d s) (h : trackingStep s .report = some s') :
    ReportInv slack s' := by
  obtain ⟨⟨producer, now⟩, hr, rfl⟩ := Option.map_eq_some_iff.mp h
  have hactive := fun p =>
    (s.writer.active_write producer p (.delivery (throughNs (s.writer.state producer).active now))).1
  refine ⟨?_, ?_, ?_, ?_⟩
  · intro r hmem through hthrough
    rcases List.mem_append.mp hmem with hmem | hmem
    · exact hi.read r hmem through hthrough
    · cases List.mem_singleton.mp hmem
      cases hthrough
      exact ⟨now, ht.reporter producer now hr, (throughNs_foldl _ now).1⟩
  · intro p now' hp
    cases hp
  · intro r hmem through hthrough a ha
    have ha : a ∈ (s.writer.state r.producer).active := by rw [← hactive]; exact ha
    rcases List.mem_append.mp hmem with hmem | hmem
    · exact hi.active r hmem through hthrough a ha
    · cases List.mem_singleton.mp hmem
      cases hthrough
      exact (throughNs_le _ now a ha).trans (Nat.le_add_right _ _)
  · refine List.pairwise_append.mpr ⟨hi.ordered, List.pairwise_singleton _ _, fun r hmem b hb => ?_⟩
    cases List.mem_singleton.mp hb
    intro through through' hp hthrough hthrough'
    cases hthrough'
    have hbelow : through - slack ≤ throughNs (s.writer.state producer).active now := by
      apply le_throughNs
      · have := hi.pending producer now hr r hmem through hthrough
        omega
      · intro callback hc
        have hp' : r.producer = producer := hp
        have := hi.active r hmem through hthrough callback (hp' ▸ hc)
        omega
    omega

end

theorem reportInv_step {d slack : Nat} {s s' : TrackingState} {e : TrackingStep} (hq : Advancing d s')
    (hready : 1 ≤ slack ∨ 1 ≤ d ∨ BeginsAfterReports s e) (ht : TrackingInv d s) (hi : ReportInv slack s)
    (h : trackingStep s e = some s') : ReportInv slack s' := by
  cases e with
  | register producer =>
    cases h
    refine hi.quiet rfl rfl (fun x hx => hx) fun p a ha => ?_
    rw [TrackingWriter.state_register] at ha
    exact ha
  | beginCallback producer now => exact hi.begin ht hq h hready
  | stamp c now =>
    obtain ⟨t, _, rfl⟩ := Option.map_eq_some_iff.mp h
    exact hi.quiet rfl rfl (fun x hx => List.mem_append_left _ hx) fun p a ha => ha
  | write c k event =>
    obtain ⟨t, _, hs⟩ := Option.bind_eq_some_iff.mp h
    obtain ⟨timestamp, _, rfl⟩ := Option.map_eq_some_iff.mp hs
    exact hi.write t.producer timestamp event
  | endCallback c =>
    obtain ⟨t, _, rfl⟩ := Option.map_eq_some_iff.mp h
    refine hi.quiet (s.writer.written_endCallback t.producer t.token) rfl (fun x hx => hx) fun p a ha => ?_
    simp only [TrackingWriter.state_endCallback] at ha
    split at ha
    · exact (List.mem_filter.mp ha).1
    · exact ha
  | read producer now => exact hi.readNow hq h
  | report => exact hi.report ht h

theorem reportInv_run {d slack : Nat} {C : TrackingState → TrackingStep → Prop} {bootId instanceId : Bytes}
    {steps : List TrackingStep} {s : TrackingState} (h : trackingRun bootId instanceId steps = some s)
    (hq : Advancing d s) (hC : ∀ s e, C s e → 1 ≤ slack ∨ 1 ≤ d ∨ BeginsAfterReports s e)
    (hmeet : StepsMeet trackingStep C { writer := { bootId, instanceId } } steps) : ReportInv slack s := by
  refine (run_invariant_meeting_under (P := fun s => TrackingInv d s ∧ ReportInv slack s) advancing_back
    (fun s e s' hq hc hs h => ?_) steps ⟨trackingInv_init d bootId instanceId, ?_⟩ hmeet h hq).2
  · exact ⟨trackingInv_step s e s' hq hs.1 h, reportInv_step hq (hC s e hc) hs.1 hs.2 h⟩
  · refine ⟨?_, ?_, ?_, List.Pairwise.nil⟩
    · intro r hr; cases hr
    · intro p now hr; cases hr
    · intro r hr; cases hr

/-- **Delivery reports hardly move back**: a later report of a producer is at
most one nanosecond below an earlier one, and not below it at all if no
callback begins at a time already reported, as on a strictly increasing clock. -/
theorem delivery_reports_advance {bootId instanceId : Bytes} {steps : List TrackingStep} {s : TrackingState}
    (h : trackingRun bootId instanceId steps = some s) (hclock : s.reads.Pairwise (· ≤ ·)) :
    ∀ (i j : Nat) (a b : TrackingRecord) (through through' : Nat), i < j →
      s.writer.written[i]? = some a → s.writer.written[j]? = some b → a.producer = b.producer →
      a.content = .delivery through → b.content = .delivery through' →
      through ≤ through' + 1 ∧
      (StepsMeet trackingStep BeginsAfterReports { writer := { bootId, instanceId } } steps → through ≤ through') ∧
      (s.reads.Pairwise (· < ·) → through ≤ through') := by
  intro i j a b through through' hij ha hb hp hca hcb
  have hordered : ∀ slack, ReportInv slack s → through ≤ through' + slack := by
    intro slack hi
    obtain ⟨hi', rfl⟩ := List.getElem?_eq_some_iff.mp ha
    obtain ⟨hj, rfl⟩ := List.getElem?_eq_some_iff.mp hb
    exact List.pairwise_iff_getElem.mp hi.ordered i j hi' hj hij through through' hp hca hcb
  have hall : StepsMeet trackingStep (fun _ _ => True) { writer := { bootId, instanceId } } steps :=
    stepsMeet_of_forall (fun _ _ => trivial) steps _
  refine ⟨?_, fun hmeet => ?_, fun hstrict => ?_⟩
  · exact hordered 1 (reportInv_run (d := 0) h hclock (fun _ _ _ => Or.inl (Nat.le_refl 1)) hall)
  · exact hordered 0 (reportInv_run (d := 0) h hclock (fun _ _ hc => Or.inr (Or.inr hc)) hmeet)
  · exact hordered 0 (reportInv_run (d := 1) h hstrict (fun _ _ _ => Or.inr (Or.inl (Nat.le_refl 1))) hall)

theorem overlappingReport_advances : ∃ s, trackingRun (ascii "boot-test") (ascii "instance-test") overlappingReport = some s ∧
    s.writer.written[0]? = some (lidarRecord 0 (.delivery 100)) ∧
    s.writer.written[1]? = some (lidarRecord 1 (.delivery 109)) ∧ 100 ≤ 109 := by
  have hsome : ((trackingRun (ascii "boot-test") (ascii "instance-test") overlappingReport).map fun s =>
      (s.reads, s.writer.written[0]?, s.writer.written[1]?)) = some ([100, 110, 120, 130],
        some (lidarRecord 0 (.delivery 100)), some (lidarRecord 1 (.delivery 109))) := by decide
  have hmeet : StepsMeet trackingStep BeginsAfterReports
      { writer := { bootId := ascii "boot-test", instanceId := ascii "instance-test" } } overlappingReport := by
    decide
  obtain ⟨s, hs, hfacts⟩ := Option.map_eq_some_iff.mp hsome
  rw [Prod.mk.injEq, Prod.mk.injEq] at hfacts
  obtain ⟨hreads, h₀, h₁⟩ := hfacts
  have hle : s.reads.Pairwise (· ≤ ·) := by rw [hreads]; decide
  exact ⟨s, hs, h₀, h₁, (delivery_reports_advance hs hle 0 1 _ _ 100 109 (by decide) h₀ h₁ rfl rfl rfl).2.1 hmeet⟩

/-- A callback that begins at the very time of the last report takes it back by one. -/
def equalTimes : List TrackingStep := [
  .read (ascii "FrontLidarDriver") 100, .report, .beginCallback (ascii "FrontLidarDriver") 100,
  .read (ascii "FrontLidarDriver") 100, .report]

theorem equalTimes_move_back : ¬ ∀ (bootId instanceId : Bytes) (steps : List TrackingStep) (s : TrackingState),
    trackingRun bootId instanceId steps = some s → s.reads.Pairwise (· ≤ ·) →
    ∀ (i j : Nat) (a b : TrackingRecord) (through through' : Nat), i < j →
      s.writer.written[i]? = some a → s.writer.written[j]? = some b → a.producer = b.producer →
      a.content = .delivery through → b.content = .delivery through' → through ≤ through' := by
  intro h
  have hsome : ((trackingRun (ascii "boot-test") (ascii "instance-test") equalTimes).map fun s =>
      (s.reads, s.writer.written[0]?, s.writer.written[1]?)) = some ([100, 100, 100],
        some (lidarRecord 0 (.delivery 100)), some (lidarRecord 1 (.delivery 99))) := by decide
  obtain ⟨s, hs, hfacts⟩ := Option.map_eq_some_iff.mp hsome
  rw [Prod.mk.injEq, Prod.mk.injEq] at hfacts
  obtain ⟨hreads, h₀, h₁⟩ := hfacts
  have hle : s.reads.Pairwise (· ≤ ·) := by rw [hreads]; decide
  exact absurd (h _ _ _ s hs hle 0 1 _ _ 100 99 (by decide) h₀ h₁ rfl rfl rfl) (by decide)

end ReferenceSystem
