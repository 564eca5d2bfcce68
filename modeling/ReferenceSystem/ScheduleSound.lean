import ReferenceSystem.Schedule
import ReferenceSystem.Runs
import Mathlib.Data.List.Infix

/-!
# Source schedules over whole runs

The next phase to apply, the log and the timer's period move together: the log
lists the phases before `next_`, in order, and the period in force is that of
the last of them. A late callback logs several phases at once and applies the
last; the offsets increase, so what is due is always a range from `next_`.
-/

namespace ReferenceSystem

/-! ## Accepted schedules -/

theorem phaseAllowed_iff {duration : Int} {phases : List Phase} {phase : Phase} :
    phaseAllowed duration phases phase = true ↔ 0 < phase.period ∧ 0 ≤ phase.offset ∧ phase.offset < duration ∧
      (∀ last ∈ phases.getLast?, last.offset < phase.offset) ∧ (phases = [] → phase.offset = 0) ∧
      phase.id ∉ phases.map (·.id) := by
  unfold phaseAllowed
  cases hl : phases.getLast? with
  | none =>
    rw [List.getLast?_eq_none_iff] at hl
    simp [hl, and_assoc]
  | some last =>
    have hne : phases ≠ [] := fun h => by rw [h] at hl; cases hl
    simp [hne, and_assoc]

structure InSequence (phases : List Phase) : Prop where
  increasing : phases.Pairwise fun a b => a.offset < b.offset
  ids : (phases.map (·.id)).Nodup

theorem InSequence.snoc {duration : Int} {phases : List Phase} {phase : Phase} (h : InSequence phases)
    (hp : phaseAllowed duration phases phase = true) : InSequence (phases ++ [phase]) := by
  obtain ⟨_, _, _, hlast, _, hid⟩ := phaseAllowed_iff.mp hp
  constructor
  · refine List.pairwise_append.mpr ⟨h.increasing, List.pairwise_singleton _ _, fun a ha b hb => ?_⟩
    cases List.mem_singleton.mp hb
    have hne : phases ≠ [] := List.ne_nil_of_mem ha
    have hl : phases.getLast hne ∈ phases.getLast? := List.getLast?_eq_some_getLast hne ▸ rfl
    have hlt := hlast _ hl
    rcases List.mem_iff_getElem.mp ha with ⟨i, hi, rfl⟩
    rw [List.getLast_eq_getElem] at hlt
    by_cases he : i = phases.length - 1
    · subst he; exact hlt
    · exact (List.pairwise_iff_getElem.mp h.increasing i (phases.length - 1) hi (by omega) (by omega)).trans hlt
  · rw [List.map_append, List.nodup_append]
    refine ⟨h.ids, List.nodup_singleton _, fun a ha b hb => ?_⟩
    rw [List.map_singleton, List.mem_singleton] at hb
    exact fun hab => hid (hb ▸ hab ▸ ha)

/-- What each phase that is read and allowed preserves holds of the phases read. -/
theorem readPhases_preserves {duration : Int} {P : List Phase → Prop}
    (hsnoc : ∀ phases phase input rest, P phases → extractPhase input = some (phase, rest) →
      phaseAllowed duration phases phase = true → checkToken phase.id = .ok () → P (phases ++ [phase])) :
    ∀ (n : Nat) {phases : List Phase} {input : List UInt8} {result : List Phase × List UInt8}, P phases →
      readPhases duration n phases input = .ok result → P result.1 ∧ result.1.length = phases.length + n
  | 0, phases, input, result, h, hr => by cases hr; exact ⟨h, rfl⟩
  | n + 1, phases, input, result, h, hr => by
    unfold readPhases at hr
    split at hr
    · cases hr
    · split at hr
      · rename_i phase input' hphase hallowed
        cases hc : checkToken phase.id with
        | error e => rw [hc] at hr; cases hr
        | ok u =>
          rw [hc] at hr
          obtain ⟨hP, hlen⟩ := readPhases_preserves hsnoc n (hsnoc _ _ _ _ h hphase hallowed hc) hr
          refine ⟨hP, ?_⟩
          rw [hlen, List.length_append, List.length_singleton]
          omega
      · cases hr

theorem readPhases_inSequence {duration : Int} (n : Nat) {phases : List Phase} {input : List UInt8}
    {result : List Phase × List UInt8} (h : InSequence phases) (hr : readPhases duration n phases input = .ok result) :
    InSequence result.1 :=
  (readPhases_preserves (fun _ _ _ _ hseq _ hallowed _ => hseq.snoc hallowed) n h hr).1

/-- Everything the constructor has checked when it returns. -/
structure Accepted (text source boot instanceId : Bytes) (initial : Int) (header : ScheduleHeader)
    (s : SourceSchedule) (input rest : List UInt8) : Prop where
  read : extractHeader text = some (header, input)
  magic : header.magic = ascii "LAME_SOURCE_SCHEDULE_V1"
  declaredSource : header.declaredSource = source
  boot : header.boot = boot
  declaredInstance : header.declaredInstance = instanceId
  duration : 0 < header.duration
  count : header.count = 3
  tokens : checkTokens [header.session, header.boot, header.hash, source, instanceId] = .ok ()
  phases : readPhases header.duration header.count [] input = .ok (s.phases, rest)
  trailing : extractWord rest = none
  first : s.phases.head?.map (·.period) = some initial
  last : s.phases.head?.map (·.period) = s.phases.getLast?.map (·.period)
  schedule : s = ⟨header.session, header.boot, header.hash, header.duration, s.phases, 0, 0⟩

theorem create_cases {text source boot instanceId : Bytes} {initial : Int} {s : SourceSchedule}
    (h : SourceSchedule.create text source boot instanceId initial = .ok s) :
    ∃ header input rest, Accepted text source boot instanceId initial header s input rest := by
  unfold SourceSchedule.create at h
  split at h
  · cases h
  · split at h
    · cases h
    · rename_i header input hheader hvalid
      simp only [not_or, not_not, Int.not_le] at hvalid
      obtain ⟨hmagic, hsource, hboot, hinstance, hduration, hcount⟩ := hvalid
      cases ht : checkTokens [header.session, header.boot, header.hash, source, instanceId] with
      | error e => rw [ht] at h; cases h
      | ok u =>
        rw [ht] at h
        cases hr : readPhases header.duration header.count [] input with
        | error e => simp only [hr] at h; cases h
        | ok result =>
          simp only [hr] at h
          change (if _ then _ else _) = _ at h
          split at h
          · cases h
          · rename_i hperiods
            simp only [not_or, not_not, Option.not_isSome_iff_eq_none] at hperiods
            cases h
            exact ⟨header, input, result.2, hheader, hmagic, hsource, hboot, hinstance, hduration, hcount, ht, hr,
              hperiods.1, hperiods.2.1, hperiods.2.2, rfl⟩

theorem create_accepted {text source boot instanceId : Bytes} {initial : Int} {s : SourceSchedule}
    (h : SourceSchedule.create text source boot instanceId initial = .ok s) :
    s.epoch = 0 ∧ s.next = 0 ∧ InSequence s.phases := by
  obtain ⟨header, input, rest, ha⟩ := create_cases h
  refine ⟨by rw [ha.schedule], by rw [ha.schedule], ?_⟩
  exact readPhases_inSequence _ ⟨List.Pairwise.nil, List.nodup_nil⟩ ha.phases

/-! ## Due phases -/

theorem takeWhile_range' (p : Nat → Bool) : ∀ (n a : Nat), ∃ k ≤ n,
    (List.range' a n).takeWhile p = List.range' a k ∧ (∀ i, a ≤ i → i < a + k → p i = true) ∧
      (k < n → p (a + k) = false)
  | 0, a => ⟨0, Nat.le_refl _, rfl, fun i h₁ h₂ => by omega, fun h => by omega⟩
  | n + 1, a => by
    rw [List.range'_succ]
    cases hp : p a with
    | false => exact ⟨0, Nat.zero_le _, by simp [hp], fun i h₁ h₂ => by omega, fun _ => hp⟩
    | true =>
      obtain ⟨k, hk, heq, hall, hstop⟩ := takeWhile_range' p n (a + 1)
      refine ⟨k + 1, by omega, ?_, fun i h₁ h₂ => ?_, fun h => ?_⟩
      · rw [List.takeWhile_cons_of_pos hp, heq, List.range'_succ]
      · rcases Nat.eq_or_lt_of_le h₁ with rfl | h₁
        · exact hp
        · exact hall i h₁ (by omega)
      · rw [show a + (k + 1) = a + 1 + k by omega]; exact hstop (by omega)

theorem dueFrom_range (s : SourceSchedule) (now : Int) : ∃ k, s.next + k ≤ max s.next s.phases.length ∧
    s.dueFrom now = List.range' s.next k ∧ (∀ i, s.next ≤ i → i < s.next + k → s.requested i ≤ now) ∧
    (s.next + k < s.phases.length → now < s.requested (s.next + k)) := by
  obtain ⟨k, hk, heq, hall, hstop⟩ :=
    takeWhile_range' (fun i => decide (s.requested i ≤ now)) (s.phases.length - s.next) s.next
  refine ⟨k, by omega, heq, fun i h₁ h₂ => of_decide_eq_true (hall i h₁ h₂), fun h => ?_⟩
  have := of_decide_eq_false (hstop (by omega))
  omega

theorem readStart_bounds {s : SourceSchedule} {text : Bytes} {epoch : Int} (h : s.readStart text = .ok epoch) :
    0 < epoch ∧ epoch ≤ 2 ^ 63 - 1 - s.duration := by
  unfold SourceSchedule.readStart at h
  split at h
  · cases h
  · split at h
    · cases h
    · rename_i hvalid
      simp only [not_or, Int.not_le, Int.not_lt] at hvalid
      cases h
      exact hvalid.2.2.2.2.2

section
variable {s : SourceSchedule}

theorem due_armed (h : s.epoch ≠ 0) (now : Int) (start : Option Bytes) : s.due now start = .ok (s, s.dueFrom now) := by
  unfold SourceSchedule.due
  rw [if_pos h]

theorem due_absent (h : s.epoch = 0) (now : Int) : s.due now none = .ok (s, []) := by
  unfold SourceSchedule.due
  rw [if_neg (not_not.mpr h)]

theorem due_record (h : s.epoch = 0) (now : Int) (text : Bytes) : s.due now (some text) =
    (s.readStart text).map fun epoch => ({ s with epoch }, SourceSchedule.dueFrom { s with epoch } now) := by
  unfold SourceSchedule.due
  rw [if_neg (not_not.mpr h)]
  show (s.readStart text >>= _) = _
  cases s.readStart text with
  | error e => rfl
  | ok epoch => rfl

theorem due_cases {now : Int} {start : Option Bytes} {result : SourceSchedule × List Nat}
    (h : s.due now start = .ok result) :
    (s.epoch = 0 ∧ result = (s, [])) ∨
    (∃ epoch, epoch ≠ 0 ∧ (s.epoch ≠ 0 → epoch = s.epoch) ∧
      result = ({ s with epoch }, { s with epoch : SourceSchedule }.dueFrom now)) := by
  by_cases h0 : s.epoch = 0
  · cases start with
    | none =>
      rw [due_absent h0] at h
      cases h; exact Or.inl ⟨h0, rfl⟩
    | some text =>
      rw [due_record h0] at h
      cases hr : s.readStart text with
      | error e => rw [hr] at h; cases h
      | ok epoch =>
        rw [hr] at h
        cases h
        have hbounds := readStart_bounds hr
        exact Or.inr ⟨epoch, by omega, fun hne => absurd h0 hne, rfl⟩
  · rw [due_armed h0] at h
    cases h
    exact Or.inr ⟨s.epoch, h0, fun _ => rfl, rfl⟩

end

/-- What a successful `due` returns. -/
structure DueSpec (s s' : SourceSchedule) (now : Int) (due : List Nat) : Prop where
  phases : s'.phases = s.phases
  next : s'.next = s.next
  epoch : s.epoch ≠ 0 → s'.epoch = s.epoch
  armed : s'.epoch = 0 → due = []
  range : due = List.range' s.next due.length
  bound : s.next + due.length ≤ s.phases.length
  reached : ∀ i, s.next ≤ i → i < s.next + due.length → s'.requested i ≤ now
  complete : s'.epoch ≠ 0 → s.next + due.length < s.phases.length → now < s'.requested (s.next + due.length)

theorem due_spec {s s' : SourceSchedule} {now : Int} {start : Option Bytes} {due : List Nat}
    (h : s.due now start = .ok (s', due)) (hb : s.next ≤ s.phases.length) : DueSpec s s' now due := by
  rcases due_cases h with ⟨h0, he⟩ | ⟨epoch, hne, hepoch, he⟩
  · cases he
    exact ⟨rfl, rfl, fun _ => rfl, fun _ => rfl, rfl, hb, fun i h₁ h₂ => absurd h₁ (Nat.not_le.mpr h₂),
      fun hs => absurd h0 hs⟩
  · cases he
    obtain ⟨k, hk, heq, hall, hstop⟩ := dueFrom_range { s with epoch } now
    have hlen : (SourceSchedule.dueFrom { s with epoch } now).length = k := by rw [heq, List.length_range']
    refine ⟨rfl, rfl, hepoch, fun h0 => absurd h0 hne, ?_, ?_, ?_, fun _ => ?_⟩
    · rw [hlen]; exact heq
    · rw [hlen]; simp only at hk; omega
    · rw [hlen]; exact hall
    · rw [hlen]; exact hstop

/-! ## The period in force -/

def periodInForce (initial : Int) (log : List ApplicationRecord) : Int :=
  ((log.filter (·.status = .applied)).getLast?.map (·.newPeriodNs)).getD initial

theorem periodInForce_skipped {initial : Int} {log skipped : List ApplicationRecord}
    (h : ∀ r ∈ skipped, r.status = .skipped) : periodInForce initial (log ++ skipped) = periodInForce initial log := by
  have : skipped.filter (·.status = .applied) = [] := List.filter_eq_nil_iff.mpr fun r hr => by simp [h r hr]
  rw [periodInForce, List.filter_append, this, List.append_nil]; rfl

theorem periodInForce_applied {initial : Int} {log : List ApplicationRecord} {r : ApplicationRecord}
    (h : r.status = .applied) : periodInForce initial (log ++ [r]) = r.newPeriodNs := by
  rw [periodInForce, List.filter_append, List.filter_cons_of_pos (by simpa using h), List.filter_nil,
    List.getLast?_append]
  rfl

/-- Each record starts from the period in force, and a skipped one keeps it. -/
def Chained (initial : Int) (log : List ApplicationRecord) : Prop :=
  ∀ i r, log[i]? = some r → r.oldPeriodNs = periodInForce initial (log.take i) ∧
    (r.status = .skipped → r.newPeriodNs = r.oldPeriodNs)

theorem Chained.append {initial : Int} {log skipped : List ApplicationRecord} {last : ApplicationRecord}
    (h : Chained initial log) (hskip : ∀ r ∈ skipped, r.status = .skipped ∧
      r.oldPeriodNs = periodInForce initial log ∧ r.newPeriodNs = periodInForce initial log)
    (hlast : last.status = .applied) (hold : last.oldPeriodNs = periodInForce initial log) :
    Chained initial (log ++ (skipped ++ [last])) := by
  intro i r hr
  rcases Nat.lt_or_ge i log.length with hi | hi
  · rw [List.getElem?_append_left hi] at hr
    rw [List.take_append_of_le_length (Nat.le_of_lt hi)]
    exact h i r hr
  · have htake : (log ++ (skipped ++ [last])).take i = log ++ (skipped ++ [last]).take (i - log.length) := by
      rw [List.take_append, List.take_of_length_le hi]
    rw [List.getElem?_append_right hi] at hr
    rw [htake]
    have hkept : ∀ j ≤ skipped.length, periodInForce initial (log ++ (skipped ++ [last]).take j) =
        periodInForce initial log := by
      intro j hj
      rw [List.take_append_of_le_length hj]
      exact periodInForce_skipped fun r hr => (hskip r (List.mem_of_mem_take hr)).1
    rcases getElem?_snoc_cases hr with ⟨hj, rfl⟩ | ⟨hj, hr⟩
    · rw [hkept _ (Nat.le_of_eq hj)]
      exact ⟨hold, fun hs => by rw [hlast] at hs; cases hs⟩
    · obtain ⟨_, ho, hn⟩ := hskip r (List.mem_of_getElem? hr)
      rw [hkept _ (Nat.le_of_lt hj)]
      exact ⟨ho, fun _ => hn.trans ho.symm⟩

/-! ## The records of a callback -/

theorem range'_dropLast (a k : Nat) : (List.range' a (k + 1)).dropLast = List.range' a k := by
  rw [List.range'_concat, List.dropLast_concat]

theorem zipIdx_range' (a k : Nat) : (List.range' a k).zipIdx = (List.range k).map fun j => (a + j, j) := by
  refine List.ext_getElem? fun i => ?_
  by_cases hi : i < k
  · simp [hi]
  · rw [List.getElem?_eq_none (by simp; omega), List.getElem?_eq_none (by simp; omega)]

theorem applicationRecords_range (n : ScheduledSensor) (s : SourceSchedule) (application : Nat → Int) (a k : Nat)
    (newPeriod : Int) : applicationRecords n s application (List.range' a (k + 1)) (a + k) newPeriod =
      (List.range k).map (fun j =>
        s.record (a + j) .skipped n.source n.boot n.instanceId n.period n.period (application j)) ++
      [s.record (a + k) .applied n.source n.boot n.instanceId n.period newPeriod (application k)] := by
  rw [applicationRecords, range'_dropLast, zipIdx_range', List.map_map, List.length_range']
  rfl

theorem applicationRecords_ids (n : ScheduledSensor) (s : SourceSchedule) (application : Nat → Int) {a k : Nat}
    (newPeriod : Int) (h : a + k < s.phases.length) :
    (applicationRecords n s application (List.range' a (k + 1)) (a + k) newPeriod).map (·.phaseId) =
      ((s.phases.drop a).take (k + 1)).map (·.id) := by
  rw [applicationRecords_range]
  refine List.ext_getElem? fun i => ?_
  rw [List.map_append, List.map_map, List.getElem?_map]
  rcases Nat.lt_trichotomy i k with hi | rfl | hi
  · rw [List.getElem?_append_left (by simpa using hi), List.getElem?_map, List.getElem?_range hi,
      List.getElem?_take_of_lt (by omega), List.getElem?_drop]
    obtain ⟨p, hp⟩ : ∃ p, s.phases[a + i]? = some p := ⟨_, List.getElem?_eq_getElem (by omega)⟩
    simp [SourceSchedule.record, hp]
  · rw [List.getElem?_append_right (by simp), List.getElem?_take_of_lt (by omega), List.getElem?_drop]
    obtain ⟨p, hp⟩ : ∃ p, s.phases[a + i]? = some p := ⟨_, List.getElem?_eq_getElem h⟩
    simp [SourceSchedule.record, hp]
  · rw [List.getElem?_eq_none (by simp; omega), List.getElem?_eq_none (by simp; omega)]
    rfl

/-! ## The invariant -/

structure ScheduleInv (phases : List Phase) (initial : Int) (n : ScheduledSensor) : Prop where
  same : n.schedule.phases = phases
  next : n.schedule.next = n.applications.length
  bound : n.applications.length ≤ phases.length
  unarmed : n.schedule.epoch = 0 → n.applications = []
  ids : n.applications.map (·.phaseId) = (phases.take n.applications.length).map (·.id)
  late : ∀ r ∈ n.applications, r.requestedNs ≤ r.appliedNs
  chained : Chained initial n.applications
  inForce : n.period = periodInForce initial n.applications
  current : n.period = ((phases.take n.applications.length).getLast?.map (·.period)).getD initial
  past : ∀ i < n.applications.length, ∃ x ∈ n.reads, n.schedule.requested i ≤ x

theorem timerCallback_cases (n : ScheduledSensor) (c : ScheduleCallback)
    (hb : n.schedule.next ≤ n.schedule.phases.length) :
    (∃ e, n.schedule.due c.now c.start = .error e ∧ n.timerCallback c = { n with reads := n.reads ++ [c.now] }) ∨
    (∃ schedule, n.schedule.due c.now c.start = .ok (schedule, []) ∧
      n.timerCallback c = { n with schedule, reads := n.reads ++ [c.now] }) ∨
    ∃ schedule k phase, n.schedule.due c.now c.start = .ok (schedule, List.range' n.schedule.next (k + 1)) ∧
      schedule.phases[n.schedule.next + k]? = some phase ∧
      n.timerCallback c = { n with
        schedule := schedule.applied (n.schedule.next + k)
        period := phase.period
        applications := n.applications ++ applicationRecords n schedule c.application
          (List.range' n.schedule.next (k + 1)) (n.schedule.next + k) phase.period
        reads := n.reads ++ c.now :: (List.range (k + 1)).map c.application } := by
  cases hd : n.schedule.due c.now c.start with
  | error e =>
    refine Or.inl ⟨e, rfl, ?_⟩
    simp only [ScheduledSensor.timerCallback, ScheduledSensor.applySourceSchedule, hd]; rfl
  | ok result =>
    right
    obtain ⟨schedule, due⟩ := result
    have hspec := due_spec hd hb
    cases hlen : due.length with
    | zero =>
      have hnil : due = [] := List.length_eq_zero_iff.mp hlen
      subst hnil
      refine Or.inl ⟨schedule, rfl, ?_⟩
      simp only [ScheduledSensor.timerCallback, ScheduledSensor.applySourceSchedule, hd]; rfl
    | succ k =>
      have hrange : due = List.range' n.schedule.next (k + 1) := hlen ▸ hspec.range
      have hbound := hspec.bound
      rw [hlen] at hbound
      obtain ⟨phase, hp⟩ : ∃ phase, schedule.phases[n.schedule.next + k]? = some phase :=
        ⟨_, List.getElem?_eq_getElem (by rw [hspec.phases]; omega)⟩
      refine Or.inr ⟨schedule, k, phase, by rw [hrange], hp, ?_⟩
      have hlast : due.getLast? = some (n.schedule.next + k) := by
        rw [hrange, List.range'_concat, List.getLast?_append]; simp
      simp only [ScheduledSensor.timerCallback, ScheduledSensor.applySourceSchedule, hd]
      simp only [bind, Except.bind, hlast, hp, Option.map_some, Option.getD_some, hlen]
      rw [hrange]

theorem take_succ_last {l : List Phase} {k : Nat} {phase : Phase} (h : l[k]? = some phase) :
    (l.take (k + 1)).getLast? = some phase := by
  rw [List.take_add_one, h, List.getLast?_append]; rfl

section
variable {phases : List Phase} {initial : Int} {n : ScheduledSensor} (hi : ScheduleInv phases initial n)
include hi

theorem ScheduleInv.next_le : n.schedule.next ≤ n.schedule.phases.length := by
  rw [hi.next, hi.same]; exact hi.bound

theorem ScheduleInv.requested {schedule : SourceSchedule} {now : Int} {due : List Nat}
    (hspec : DueSpec n.schedule schedule now due) {i : Nat} (h : i < n.applications.length) :
    schedule.requested i = n.schedule.requested i := by
  have hn : n.schedule.epoch ≠ 0 := fun h0 => by rw [hi.unarmed h0] at h; cases h
  rw [SourceSchedule.requested, SourceSchedule.requested, hspec.phases, hspec.epoch hn]

theorem inv_nothing_due {c : ScheduleCallback} {schedule : SourceSchedule}
    (hd : n.schedule.due c.now c.start = .ok (schedule, [])) :
    ScheduleInv phases initial { n with schedule, reads := n.reads ++ [c.now] } := by
  have hspec := due_spec hd hi.next_le
  refine { hi with same := ?_, next := ?_, unarmed := ?_, past := ?_ }
  · exact hspec.phases.trans hi.same
  · exact hspec.next.trans hi.next
  · intro h0
    by_cases hn : n.schedule.epoch = 0
    · exact hi.unarmed hn
    · exact absurd ((hspec.epoch hn).symm.trans h0) hn
  · intro i h
    obtain ⟨x, hx, hle⟩ := hi.past i h
    exact ⟨x, List.mem_append_left _ hx, (hi.requested hspec h).trans_le hle⟩

theorem inv_due {c : ScheduleCallback} {schedule : SourceSchedule} {k : Nat} {phase : Phase}
    (hd : n.schedule.due c.now c.start = .ok (schedule, List.range' n.schedule.next (k + 1)))
    (hp : schedule.phases[n.schedule.next + k]? = some phase) (hlate : ∀ j < k + 1, c.now ≤ c.application j) :
    ScheduleInv phases initial { n with
      schedule := schedule.applied (n.schedule.next + k)
      period := phase.period
      applications := n.applications ++ applicationRecords n schedule c.application
        (List.range' n.schedule.next (k + 1)) (n.schedule.next + k) phase.period
      reads := n.reads ++ c.now :: (List.range (k + 1)).map c.application } := by
  have hspec := due_spec hd hi.next_le
  have hreached := hspec.reached
  rw [List.length_range'] at hreached
  have hsame : schedule.phases = phases := hspec.phases.trans hi.same
  have hlt : n.schedule.next + k < phases.length := hsame ▸ (List.getElem?_eq_some_iff.mp hp).1
  have hids := applicationRecords_ids n schedule c.application phase.period (hsame ▸ hlt)
  rw [applicationRecords_range] at hids ⊢
  -- all records but the last keep the period in force
  have hskip : ∀ r ∈ (List.range k).map (fun j => schedule.record (n.schedule.next + j) .skipped n.source n.boot
      n.instanceId n.period n.period (c.application j)), r.status = .skipped ∧
        r.oldPeriodNs = periodInForce initial n.applications ∧
        r.newPeriodNs = periodInForce initial n.applications := by
    intro r hr
    obtain ⟨j, _, rfl⟩ := List.mem_map.mp hr
    exact ⟨rfl, hi.inForce, hi.inForce⟩
  generalize hskipped : (List.range k).map (fun j => schedule.record (n.schedule.next + j) .skipped n.source n.boot
      n.instanceId n.period n.period (c.application j)) = skipped at hids hskip ⊢
  generalize happlied : schedule.record (n.schedule.next + k) .applied n.source n.boot n.instanceId n.period
      phase.period (c.application k) = applied at hids ⊢
  have hcount : (n.applications ++ (skipped ++ [applied])).length = n.schedule.next + k + 1 := by
    rw [List.length_append, List.length_append, ← hskipped, hi.next]; simp; omega
  refine ⟨hsame, ?_, ?_, fun h0 => ?_, ?_, ?_, ?_, ?_, ?_, ?_⟩
  · rw [hcount]; rfl
  · rw [hcount]; exact hlt
  · have hempty := hspec.armed h0
    rw [List.range'_succ] at hempty; cases hempty
  · rw [hcount, List.map_append, hids, hi.ids, hsame, hi.next, Nat.add_assoc, ← List.map_append, ← List.take_add]
  · intro r hr
    rcases List.mem_append.mp hr with hr | hr
    · exact hi.late r hr
    · rcases List.mem_append.mp hr with hr | hr
      · rw [← hskipped] at hr
        obtain ⟨j, hj, rfl⟩ := List.mem_map.mp hr
        have hj := List.mem_range.mp hj
        exact (hreached _ (by omega) (by omega)).trans (hlate j (by omega))
      · rw [List.mem_singleton.mp hr, ← happlied]
        exact (hreached _ (by omega) (by omega)).trans (hlate k (by omega))
  · exact hi.chained.append hskip (by rw [← happlied]; rfl) (by rw [← happlied]; exact hi.inForce)
  · rw [← List.append_assoc, periodInForce_applied (by rw [← happlied]; rfl), ← happlied]; rfl
  · rw [hcount, ← hsame, take_succ_last hp]; rfl
  · intro i hlt'
    rw [hcount] at hlt'
    rcases Nat.lt_or_ge i n.applications.length with hlo | hhi
    · obtain ⟨x, hx, hle⟩ := hi.past i hlo
      exact ⟨x, List.mem_append_left _ hx, (hi.requested hspec hlo).trans_le hle⟩
    · rw [← hi.next] at hhi
      exact ⟨c.now, List.mem_append_right _ (List.mem_cons_self ..), hreached i hhi (by omega)⟩

theorem inv_timerCallback (c : ScheduleCallback) (hreads : (n.timerCallback c).reads.Pairwise (· ≤ ·)) :
    ScheduleInv phases initial (n.timerCallback c) := by
  rcases timerCallback_cases n c hi.next_le with ⟨e, _, hc⟩ | ⟨schedule, hd, hc⟩ | ⟨schedule, k, phase, hd, hp, hc⟩
  · rw [hc]
    refine { hi with past := fun i h => ?_ }
    obtain ⟨x, hx, hle⟩ := hi.past i h
    exact ⟨x, List.mem_append_left _ hx, hle⟩
  · rw [hc]; exact inv_nothing_due hi hd
  · rw [hc] at hreads ⊢
    refine inv_due hi hd hp fun j hj => ?_
    exact (List.pairwise_cons.mp (List.pairwise_append.mp hreads).2.1).1 _
      (List.mem_map_of_mem (List.mem_range.mpr hj))

end

/-! ## Whole runs -/

theorem reads_grow (n : ScheduledSensor) (c : ScheduleCallback) : ∃ more, (n.timerCallback c).reads = n.reads ++ more := by
  unfold ScheduledSensor.timerCallback
  cases ha : n.applySourceSchedule c with
  | error e => exact ⟨_, rfl⟩
  | ok n' =>
    unfold ScheduledSensor.applySourceSchedule at ha
    cases hd : n.schedule.due c.now c.start with
    | error e => simp only [hd] at ha; cases ha
    | ok result =>
      simp only [hd, bind, Except.bind] at ha
      split at ha
      · cases ha; exact ⟨_, rfl⟩
      · cases ha; exact ⟨_, rfl⟩

theorem inv_scheduleRun {phases : List Phase} {initial : Int} : ∀ (callbacks : List ScheduleCallback)
    {n : ScheduledSensor}, ScheduleInv phases initial n → (n.run callbacks).reads.Pairwise (· ≤ ·) →
    ScheduleInv phases initial (n.run callbacks)
  | [], n, hi, _ => hi
  | c :: callbacks, n, hi, hreads => by
    have hgrow : ∀ (cs : List ScheduleCallback) (m : ScheduledSensor), ∃ more, (m.run cs).reads = m.reads ++ more := by
      intro cs
      induction cs with
      | nil => exact fun m => ⟨[], (List.append_nil _).symm⟩
      | cons c cs ih =>
        intro m
        obtain ⟨more, hm⟩ := reads_grow m c
        obtain ⟨more', hm'⟩ := ih (m.timerCallback c)
        exact ⟨more ++ more', by rw [← List.append_assoc, ← hm]; exact hm'⟩
    obtain ⟨more, hmore⟩ := hgrow callbacks (n.timerCallback c)
    have hstep : (n.timerCallback c).reads.Pairwise (· ≤ ·) := by
      have : (n.run (c :: callbacks)).reads = (n.timerCallback c).reads ++ more := hmore
      rw [this] at hreads
      exact (List.pairwise_append.mp hreads).1
    exact inv_scheduleRun callbacks (inv_timerCallback hi c hstep) hreads

/-- The sensor as constructed, with its schedule accepted. -/
def ScheduledSensor.create (source boot instanceId : Bytes) (schedule : SourceSchedule) (initial : Int) :
    ScheduledSensor := { source, boot, instanceId, schedule, period := initial }

theorem inv_create {text source boot instanceId : Bytes} {initial : Int} {schedule : SourceSchedule}
    (h : SourceSchedule.create text source boot instanceId initial = .ok schedule) :
    ScheduleInv schedule.phases initial (.create source boot instanceId schedule initial) := by
  obtain ⟨_, hnext, _⟩ := create_accepted h
  refine ⟨rfl, hnext, Nat.zero_le _, fun _ => rfl, rfl, ?_, ?_, rfl, rfl, ?_⟩
  · intro r hr; cases hr
  · intro i r hr; cases hr
  · intro i hlt; cases hlt

theorem filter_eq_take {l : List Phase} {p : Phase → Bool} {k : Nat} (hyes : ∀ x ∈ l.take k, p x = true)
    (hno : ∀ x ∈ l.drop k, p x = false) : l.filter p = l.take k := by
  conv_lhs => rw [← List.take_append_drop k l]
  rw [List.filter_append, List.filter_eq_self.mpr hyes,
    List.filter_eq_nil_iff.mpr (fun x hx => by rw [hno x hx]; exact Bool.false_ne_true), List.append_nil]

theorem reached_eq_take {phases : List Phase} {initial : Int} {n : ScheduledSensor} {c : ScheduleCallback}
    {schedule : SourceSchedule} {due : List Nat} (hi : ScheduleInv phases initial n)
    (hseq : phases.Pairwise fun a b => a.offset < b.offset) (hpast : ∀ x ∈ n.reads, x ≤ c.now)
    (hspec : DueSpec n.schedule schedule c.now due) (harmed : schedule.epoch ≠ 0) :
    phases.filter (fun p => schedule.epoch + p.offset ≤ c.now) = phases.take (n.schedule.next + due.length) := by
  have hsame : schedule.phases = phases := hspec.phases.trans hi.same
  have hrequested : ∀ (i : Nat) (p : Phase), phases[i]? = some p → schedule.requested i = schedule.epoch + p.offset := by
    intro i p hp
    rw [SourceSchedule.requested, hsame, hp]; rfl
  refine filter_eq_take (fun x hx => decide_eq_true ?_) (fun x hx => decide_eq_false (Int.not_le.mpr ?_))
  · obtain ⟨i, hi'⟩ := List.mem_iff_getElem?.mp hx
    have hlt : i < n.schedule.next + due.length := by
      have := (List.getElem?_eq_some_iff.mp hi').1
      rw [List.length_take] at this; omega
    rw [List.getElem?_take_of_lt hlt] at hi'
    rw [← hrequested i x hi']
    rcases Nat.lt_or_ge i n.schedule.next with hlo | hhi
    · rw [hi.next] at hlo
      obtain ⟨y, hy, hle⟩ := hi.past i hlo
      exact (hi.requested hspec hlo).trans_le (hle.trans (hpast y hy))
    · exact hspec.reached i hhi hlt
  · obtain ⟨j, hj⟩ := List.mem_iff_getElem?.mp hx
    rw [List.getElem?_drop] at hj
    have hlt : n.schedule.next + due.length < phases.length := by
      have := (List.getElem?_eq_some_iff.mp hj).1; omega
    obtain ⟨first, hfirst⟩ : ∃ p, phases[n.schedule.next + due.length]? = some p := ⟨_, List.getElem?_eq_getElem hlt⟩
    have hnow := hspec.complete harmed (by rw [hi.same]; exact hlt)
    rw [hrequested _ first hfirst] at hnow
    -- the offsets increase from the first phase that is not due
    have hoffset : first.offset ≤ x.offset := by
      cases j with
      | zero => rw [Nat.add_zero] at hj; cases hfirst.symm.trans hj; exact Int.le_refl _
      | succ j =>
        obtain ⟨h₁, rfl⟩ := List.getElem?_eq_some_iff.mp hfirst
        obtain ⟨h₂, rfl⟩ := List.getElem?_eq_some_iff.mp hj
        exact Int.le_of_lt (List.pairwise_iff_getElem.mp hseq _ _ h₁ h₂ (by omega))
    omega

theorem timerCallback_applications {phases : List Phase} {initial : Int} {n : ScheduledSensor}
    (hi : ScheduleInv phases initial n) (c : ScheduleCallback) :
    ∃ chunk, (n.timerCallback c).applications = n.applications ++ chunk ∧
      (chunk = [] ∨ ∃ skipped last, chunk = skipped ++ [last] ∧ last.status = .applied ∧
        ∀ r ∈ skipped, r.status = .skipped) ∧
      (∃ more, (n.timerCallback c).reads = n.reads ++ c.now :: more) ∧
      ∀ schedule due, n.schedule.due c.now c.start = .ok (schedule, due) → chunk.length = due.length := by
  rcases timerCallback_cases n c hi.next_le with ⟨e, hd, hc⟩ | ⟨schedule, hd, hc⟩ | ⟨schedule, k, phase, hd, hp, hc⟩
  · rw [hc]
    refine ⟨[], (List.append_nil _).symm, Or.inl rfl, ⟨[], rfl⟩, fun schedule due h => ?_⟩
    rw [hd] at h; cases h
  · rw [hc]
    refine ⟨[], (List.append_nil _).symm, Or.inl rfl, ⟨[], rfl⟩, fun schedule due h => ?_⟩
    rw [hd] at h; cases h; rfl
  · rw [hc]
    refine ⟨_, rfl, Or.inr ?_, ⟨_, rfl⟩, fun schedule due h => ?_⟩
    · rw [applicationRecords_range]
      refine ⟨_, _, rfl, rfl, fun r hr => ?_⟩
      obtain ⟨j, _, rfl⟩ := List.mem_map.mp hr
      rfl
    · rw [hd] at h
      cases h
      rw [applicationRecords_range]; simp

/-- **Source schedules are applied in order, once, and in time**: for every
accepted schedule, every sequence of callbacks and every further callback `c`,
whatever the start file holds at each of them. -/
theorem source_schedule_run {text source boot instanceId : Bytes} {initial : Int} {schedule : SourceSchedule}
    (hcreate : SourceSchedule.create text source boot instanceId initial = .ok schedule)
    (callbacks : List ScheduleCallback) (c : ScheduleCallback) (before after : ScheduledSensor)
    (hbefore : before = (ScheduledSensor.create source boot instanceId schedule initial).run callbacks)
    (hafter : after = before.timerCallback c) (hreads : after.reads.Pairwise (· ≤ ·)) :
    after.applications.map (·.phaseId) = (schedule.phases.take after.applications.length).map (·.id) ∧
    (after.applications.map (·.phaseId)).Nodup ∧
    (∀ r ∈ after.applications, r.requestedNs ≤ r.appliedNs) ∧
    (∃ chunk, after.applications = before.applications ++ chunk ∧
      (chunk = [] ∨ ∃ skipped last, chunk = skipped ++ [last] ∧ last.status = .applied ∧
        ∀ r ∈ skipped, r.status = .skipped)) ∧
    (∀ i r, after.applications[i]? = some r → r.oldPeriodNs = periodInForce initial (after.applications.take i) ∧
      (r.status = .skipped → r.newPeriodNs = r.oldPeriodNs)) ∧
    after.period = periodInForce initial after.applications ∧
    ∀ seen due, before.schedule.due c.now c.start = .ok (seen, due) →
      after.period = ((schedule.phases.filter fun p => seen.epoch ≠ 0 ∧ seen.epoch + p.offset ≤ c.now).getLast?.map
        (·.period)).getD initial := by
  have hrun : (ScheduledSensor.create source boot instanceId schedule initial).run (callbacks ++ [c]) = after := by
    rw [ScheduledSensor.run, List.foldl_append, hafter, hbefore]; rfl
  have hready := inv_create hcreate
  obtain ⟨more, hgrow⟩ := reads_grow before c
  have hi : ScheduleInv schedule.phases initial before := by
    rw [hbefore]
    refine inv_scheduleRun callbacks hready ?_
    rw [hafter, hgrow] at hreads
    rw [← hbefore]; exact (List.pairwise_append.mp hreads).1
  have hi' : ScheduleInv schedule.phases initial after := by
    rw [← hrun]; exact inv_scheduleRun _ hready (hrun ▸ hreads)
  obtain ⟨_, _, hseq⟩ := create_accepted hcreate
  obtain ⟨chunk, happ, hchunk, ⟨more', hreads'⟩, hlen⟩ := timerCallback_applications hi c
  rw [← hafter] at happ hreads'
  refine ⟨hi'.ids, ?_, hi'.late, ⟨chunk, happ, hchunk⟩, hi'.chained, hi'.inForce, fun seen due hd => ?_⟩
  · rw [hi'.ids]
    exact hseq.ids.sublist (List.Sublist.map _ (List.take_sublist _ _))
  · have hspec := due_spec hd hi.next_le
    have hcount : after.applications.length = before.schedule.next + due.length := by
      rw [happ, List.length_append, hi.next, hlen seen due hd]
    rw [hi'.current, hcount]
    by_cases harmed : seen.epoch = 0
    · -- not armed: nothing has been applied, and nothing has been reached
      have hn : before.applications = [] := by
        by_cases h0 : before.schedule.epoch = 0
        · exact hi.unarmed h0
        · exact absurd ((hspec.epoch h0).symm.trans harmed) h0
      have hnone : schedule.phases.filter (fun p => seen.epoch ≠ 0 ∧ seen.epoch + p.offset ≤ c.now) = [] :=
        List.filter_eq_nil_iff.mpr fun p _ => by simp [harmed]
      rw [hnone, hspec.armed harmed, hi.next, hn]; rfl
    · have hpast : ∀ x ∈ before.reads, x ≤ c.now := fun x hx => by
        rw [hreads'] at hreads
        exact (List.pairwise_append.mp hreads).2.2 x hx _ (List.mem_cons_self ..)
      have hall := reached_eq_take hi hseq.increasing hpast hspec harmed
      have hsame : schedule.phases.filter (fun p => seen.epoch ≠ 0 ∧ seen.epoch + p.offset ≤ c.now) =
          schedule.phases.filter (fun p => seen.epoch + p.offset ≤ c.now) :=
        List.filter_congr fun p _ => by simp [harmed]
      rw [hsame, hall]

/-- The schedule and start files of the repository's schedule test. -/
def testSchedule : Bytes :=
  ascii "LAME_SOURCE_SCHEDULE_V1 session boot hash Source instance 3000\n3\nA1 0 100\nB 1000 200\nA2 2000 100\n"

def testStart : Bytes := ascii "LAME_SOURCE_START_V1 session boot hash 5000\n"

def acceptedSchedule : SourceSchedule where
  session := ascii "session"
  boot := ascii "boot"
  hash := ascii "hash"
  duration := 3000
  phases := [⟨ascii "A1", 0, 100⟩, ⟨ascii "B", 1000, 200⟩, ⟨ascii "A2", 2000, 100⟩]

theorem testSchedule_accepted :
    SourceSchedule.create testSchedule (ascii "Source") (ascii "boot") (ascii "instance") 100 = .ok acceptedSchedule := by
  have h : (SourceSchedule.create testSchedule (ascii "Source") (ascii "boot") (ascii "instance") 100).toOption =
      some acceptedSchedule := by decide +kernel
  cases hc : SourceSchedule.create testSchedule (ascii "Source") (ascii "boot") (ascii "instance") 100 with
  | error e => rw [hc] at h; cases h
  | ok s => rw [hc] at h; cases h; rfl

def testSensor : ScheduledSensor :=
  (ScheduledSensor.create (ascii "Source") (ascii "boot") (ascii "instance") acceptedSchedule 100).run
    [⟨4000, none, fun _ => 4000⟩, ⟨5001, some testStart, fun _ => 5002⟩]

def lateCallback : ScheduleCallback := ⟨7500, some testStart, fun k => 7501 + k⟩

theorem lateCallback_applied :
    (testSensor.timerCallback lateCallback).applications.map (·.status) = [.applied, .skipped, .applied] ∧
    ∀ seen due, testSensor.schedule.due 7500 (some testStart) = .ok (seen, due) →
      (testSensor.timerCallback lateCallback).period = ((acceptedSchedule.phases.filter fun p =>
        seen.epoch ≠ 0 ∧ seen.epoch + p.offset ≤ 7500).getLast?.map (·.period)).getD 100 := by
  refine ⟨by decide, ?_⟩
  obtain ⟨_, _, _, _, _, _, hperiod⟩ := source_schedule_run testSchedule_accepted _ lateCallback testSensor
    (testSensor.timerCallback lateCallback) rfl rfl (by decide)
  exact hperiod

end ReferenceSystem
