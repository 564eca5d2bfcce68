import ReferenceSystem.ScheduleSound

/-!
# Schedule files and start records

The constructor accepts exactly the well-formed files, however they are laid
out, and in use the only thing that ever changes besides `next_` is the epoch,
once, from unarmed to the value of a valid start record. That value leaves room
for every offset.
-/

namespace ReferenceSystem

/-! ## Files -/

theorem checkToken_chars {token : Bytes} (h : checkToken token = .ok ()) :
    token ≠ [] ∧ ∀ c ∈ token, isSpace c = false := by
  unfold checkToken at h
  split at h
  · cases h
  · rename_i hnonempty
    split at h
    · rename_i hall
      refine ⟨fun he => hnonempty (Or.inl he), fun c hc => ?_⟩
      have htoken := List.all_eq_true.mp hall c hc
      revert htoken
      unfold isTokenChar isSpace
      grind
    · cases h

theorem checkTokens_iff {tokens : List Bytes} :
    checkTokens tokens = .ok () ↔ ∀ token ∈ tokens, checkToken token = .ok () := by
  induction tokens with
  | nil => simp [checkTokens]
  | cons token tokens ih =>
    rw [List.forall_mem_cons, ← ih, checkTokens]
    cases checkToken token with
    | error e => simp [bind, Except.bind]
    | ok u => simp [bind, Except.bind]

/-- What a schedule file may declare. -/
structure WellFormed (session boot hash source instanceId : Bytes) (duration : Int) (phases : List Phase)
    (initial : Int) : Prop where
  tokens : ∀ token ∈ [session, boot, hash, source, instanceId] ++ phases.map (·.id), checkToken token = .ok ()
  span : 0 < duration ∧ duration < 2 ^ 63
  count : phases.length = 3
  ids : (phases.map (·.id)).Nodup
  first : phases.head?.map (·.offset) = some 0
  increasing : phases.Pairwise fun a b => a.offset < b.offset
  below : ∀ p ∈ phases, p.offset < duration
  periods : ∀ p ∈ phases, 0 < p.period ∧ p.period < 2 ^ 63
  firstPeriod : phases.head?.map (·.period) = some initial
  lastPeriod : phases.getLast?.map (·.period) = some initial

def phaseTokens (p : Phase) : List Bytes := [p.id, decimal p.offset.toNat, decimal p.period.toNat]

def scheduleTokens (session boot hash source instanceId : Bytes) (duration : Int) (phases : List Phase) : List Bytes :=
  [ascii "LAME_SOURCE_SCHEDULE_V1", session, boot, hash, source, instanceId, decimal duration.toNat,
    decimal phases.length] ++ phases.flatMap phaseTokens

theorem extractPhase_written {p : Phase} {tokens : List Bytes} {text : Bytes} (hid : checkToken p.id = .ok ())
    (hoffset : 0 ≤ p.offset ∧ p.offset < 2 ^ 63) (hperiod : 0 ≤ p.period ∧ p.period < 2 ^ 63)
    (h : Written (phaseTokens p ++ tokens) text) :
    ∃ rest, extractPhase text = some (p, rest) ∧ Written tokens rest := by
  obtain ⟨hne, hchars⟩ := checkToken_chars hid
  obtain ⟨rest₁, h₁, hw⟩ := written_word h hne hchars
  obtain ⟨rest₂, h₂, hw⟩ := written_int64 hw (by omega)
  obtain ⟨rest₃, h₃, hw⟩ := written_int64 hw (by omega)
  refine ⟨rest₃, ?_, hw⟩
  rw [Int.toNat_of_nonneg hoffset.1] at h₂
  rw [Int.toNat_of_nonneg hperiod.1] at h₃
  simp [extractPhase, h₁, h₂, h₃]

theorem readPhases_written {duration : Int} (hspan : duration < 2 ^ 63) : ∀ (todo done : List Phase)
    {tokens : List Bytes} {text : Bytes},
    (∀ before p after, todo = before ++ p :: after → phaseAllowed duration (done ++ before) p = true ∧
      checkToken p.id = .ok () ∧ p.period < 2 ^ 63) →
    Written (todo.flatMap phaseTokens ++ tokens) text →
    ∃ rest, readPhases duration todo.length done text = .ok (done ++ todo, rest) ∧ Written tokens rest
  | [], done, tokens, text, _, h => ⟨text, by rw [List.append_nil]; rfl, h⟩
  | p :: todo, done, tokens, text, hall, h => by
    obtain ⟨hallowed, hid, hperiod⟩ := hall [] p todo rfl
    rw [List.append_nil] at hallowed
    obtain ⟨hpositive, hnonneg, hbelow, -⟩ := phaseAllowed_iff.mp hallowed
    rw [List.flatMap_cons, List.append_assoc] at h
    obtain ⟨rest, hread, hw⟩ := extractPhase_written hid ⟨hnonneg, by omega⟩ ⟨by omega, hperiod⟩ h
    obtain ⟨rest', htail, hw'⟩ := readPhases_written hspan todo (done ++ [p]) (fun before q after he => by
      have := hall (p :: before) q after (by rw [he]; rfl)
      rwa [List.append_assoc]) hw
    refine ⟨rest', ?_, hw'⟩
    rw [List.length_cons, readPhases, hread]
    simp only [hallowed, if_true, hid]
    rw [List.append_assoc] at htail
    exact htail

section
variable {session boot hash source instanceId : Bytes} {duration : Int} {phases : List Phase} {initial : Int}
  (hf : WellFormed session boot hash source instanceId duration phases initial)
include hf

theorem WellFormed.allowed (before : List Phase) (p : Phase) (after : List Phase) (h : phases = before ++ p :: after) :
    phaseAllowed duration before p = true ∧ checkToken p.id = .ok () ∧ p.period < 2 ^ 63 := by
  have hp : p ∈ phases := by rw [h]; simp
  have hincreasing := hf.increasing
  have hids := hf.ids
  have hfirst := hf.first
  rw [h] at hincreasing hids hfirst
  have hbefore : ∀ q ∈ before, q.offset < p.offset := fun q hq =>
    (List.pairwise_append.mp hincreasing).2.2 q hq p (List.mem_cons_self ..)
  have hzero : before = [] → p.offset = 0 := by
    rintro rfl
    simpa using hfirst
  have hnonneg : 0 ≤ p.offset := by
    cases before with
    | nil => exact Int.le_of_eq (hzero rfl).symm
    | cons q before =>
      have hq : q.offset = 0 := by simpa using hfirst
      have := hbefore q (List.mem_cons_self ..)
      omega
  refine ⟨phaseAllowed_iff.mpr ⟨(hf.periods p hp).1, hnonneg, hf.below p hp, ?_, hzero, ?_⟩, ?_, (hf.periods p hp).2⟩
  · exact fun q hq => hbefore q (List.mem_of_mem_getLast? hq)
  · rw [List.map_append, List.map_cons] at hids
    exact fun hmem => (List.nodup_append.mp hids).2.2 _ hmem _ (List.mem_cons_self ..) rfl
  · exact hf.tokens _ (List.mem_append_right _ (List.mem_map_of_mem hp))

theorem extractHeader_written {tokens : List Bytes} {text : Bytes}
    (h : Written ([ascii "LAME_SOURCE_SCHEDULE_V1", session, boot, hash, source, instanceId, decimal duration.toNat,
      decimal phases.length] ++ tokens) text) :
    ∃ rest, extractHeader text = some (⟨ascii "LAME_SOURCE_SCHEDULE_V1", session, boot, hash, source, instanceId,
      duration, 3⟩, rest) ∧ Written tokens rest := by
  have hchars : ∀ token ∈ [session, boot, hash, source, instanceId], token ≠ [] ∧ ∀ c ∈ token, isSpace c = false :=
    fun token hm => checkToken_chars (hf.tokens token (List.mem_append_left _ hm))
  simp only [List.forall_mem_cons] at hchars
  obtain ⟨hsession, hboot, hhash, hsource, hinstance, -⟩ := hchars
  obtain ⟨rest₁, h₁, hw⟩ := written_word h (by decide) (by decide +kernel)
  obtain ⟨rest₂, h₂, hw⟩ := written_word hw hsession.1 hsession.2
  obtain ⟨rest₃, h₃, hw⟩ := written_word hw hboot.1 hboot.2
  obtain ⟨rest₄, h₄, hw⟩ := written_word hw hhash.1 hhash.2
  obtain ⟨rest₅, h₅, hw⟩ := written_word hw hsource.1 hsource.2
  obtain ⟨rest₆, h₆, hw⟩ := written_word hw hinstance.1 hinstance.2
  obtain ⟨rest₇, h₇, hw⟩ := written_int64 hw (by have := hf.span; omega)
  obtain ⟨rest₈, h₈, hw⟩ := written_size hw (by rw [hf.count]; decide)
  refine ⟨rest₈, ?_, hw⟩
  rw [Int.toNat_of_nonneg (Int.le_of_lt hf.span.1)] at h₇
  rw [hf.count] at h₈
  simp [extractHeader, h₁, h₂, h₃, h₄, h₅, h₆, h₇, h₈]

theorem WellFormed.nonneg (p : Phase) (hp : p ∈ phases) : 0 ≤ p.offset := by
  obtain ⟨before, after, h⟩ := List.append_of_mem hp
  exact (phaseAllowed_iff.mp (hf.allowed before p after h).1).2.1

/-- Every layout of a well-formed file is accepted. -/
theorem create_written {text : Bytes} (h : Written (scheduleTokens session boot hash source instanceId duration phases) text) :
    SourceSchedule.create text source boot instanceId initial = .ok ⟨session, boot, hash, duration, phases, 0, 0⟩ := by
  obtain ⟨input, hheader, hw⟩ := extractHeader_written hf h
  rw [← List.append_nil (phases.flatMap phaseTokens)] at hw
  obtain ⟨rest, hread, hw⟩ := readPhases_written hf.span.2 phases [] hf.allowed hw
  have htokens : checkTokens [session, boot, hash, source, instanceId] = .ok () :=
    checkTokens_iff.mpr fun token hm => hf.tokens token (List.mem_append_left _ hm)
  rw [hf.count, List.nil_append] at hread
  unfold SourceSchedule.create
  simp only [hheader]
  rw [if_neg (by simpa using hf.span.1), htokens]
  change (readPhases duration 3 [] input >>= _) = _
  rw [hread]
  change (if _ then _ else _) = _
  rw [if_neg (by simp [written_end hw, hf.firstPeriod, hf.lastPeriod])]

end

theorem extractHeader_duration {text input : Bytes} {header : ScheduleHeader}
    (h : extractHeader text = some (header, input)) : header.duration < 2 ^ 63 := by
  simp only [extractHeader, Option.bind_eq_bind, Option.bind_eq_some_iff, Prod.exists] at h
  obtain ⟨_, _, _, _, _, _, _, _, _, _, _, _, _, _, _, _, _, _, duration, _, hduration, _, _, _, heq⟩ := h
  cases heq
  exact (extractInt64_range hduration).2

theorem extractPhase_period {input rest : Bytes} {p : Phase} (h : extractPhase input = some (p, rest)) :
    p.period < 2 ^ 63 := by
  simp only [extractPhase, Option.bind_eq_bind, Option.bind_eq_some_iff, Prod.exists] at h
  obtain ⟨_, _, _, _, _, _, _, _, hperiod, heq⟩ := h
  cases heq
  exact (extractInt64_range hperiod).2

structure PhasesRead (duration : Int) (phases : List Phase) : Prop where
  first : ∀ p ∈ phases.head?, p.offset = 0
  below : ∀ p ∈ phases, p.offset < duration
  periods : ∀ p ∈ phases, 0 < p.period ∧ p.period < 2 ^ 63
  ids : ∀ p ∈ phases, checkToken p.id = .ok ()

theorem PhasesRead.snoc {duration : Int} {phases : List Phase} {phase : Phase} {input rest : Bytes}
    (h : PhasesRead duration phases) (hread : extractPhase input = some (phase, rest))
    (hallowed : phaseAllowed duration phases phase = true) (hid : checkToken phase.id = .ok ()) :
    PhasesRead duration (phases ++ [phase]) := by
  obtain ⟨hpositive, _, hbelow, _, hzero, _⟩ := phaseAllowed_iff.mp hallowed
  have hall : ∀ {P : Phase → Prop}, (∀ p ∈ phases, P p) → P phase → ∀ p ∈ phases ++ [phase], P p :=
    fun h₁ h₂ => List.forall_mem_append.mpr ⟨h₁, List.forall_mem_singleton.mpr h₂⟩
  refine ⟨fun p hp => ?_, hall h.below hbelow, hall h.periods ⟨hpositive, extractPhase_period hread⟩, hall h.ids hid⟩
  cases phases with
  | nil => cases hp; exact hzero rfl
  | cons q phases => exact h.first p hp

theorem create_wellFormed {text source boot instanceId : Bytes} {initial : Int} {s : SourceSchedule}
    (h : SourceSchedule.create text source boot instanceId initial = .ok s) :
    WellFormed s.session s.boot s.hash source instanceId s.duration s.phases initial := by
  obtain ⟨header, input, rest, ha⟩ := create_cases h
  have hseq := (create_accepted h).2.2
  have hempty : PhasesRead header.duration [] := ⟨by simp, by simp, by simp, by simp⟩
  obtain ⟨hread, hcount⟩ := readPhases_preserves (fun _ _ _ _ => PhasesRead.snoc) _ hempty ha.phases
  have hlast := ha.last.symm.trans ha.first
  have hfirst := ha.first
  have htokens := checkTokens_iff.mp ha.tokens
  have hschedule := ha.schedule
  generalize s.phases = phases at *
  subst hschedule
  refine ⟨List.forall_mem_append.mpr ⟨htokens, List.forall_mem_map.mpr hread.ids⟩,
    ⟨ha.duration, extractHeader_duration ha.read⟩, ?_, hseq.ids, ?_, hseq.increasing, hread.below, hread.periods,
    hfirst, hlast⟩
  · rw [hcount, ha.count]; rfl
  · obtain ⟨p, hp, _⟩ := Option.map_eq_some_iff.mp hfirst
    rw [hp, Option.map_some, hread.first p hp]

/-! ## Calls on a schedule -/

def startTokens (s : SourceSchedule) (epoch : Int) : List Bytes :=
  [ascii "LAME_SOURCE_START_V1", s.session, s.boot, s.hash, decimal epoch.toNat]

theorem readStart_written {s : SourceSchedule} {text : Bytes} {epoch : Int}
    (htokens : ∀ token ∈ [s.session, s.boot, s.hash], checkToken token = .ok ()) (hduration : 0 < s.duration)
    (hepoch : 0 < epoch ∧ epoch ≤ 2 ^ 63 - 1 - s.duration) (h : Written (startTokens s epoch) text) :
    s.readStart text = .ok epoch := by
  simp only [List.forall_mem_cons] at htokens
  obtain ⟨hsession, hboot, hhash, -⟩ := htokens
  obtain ⟨rest₁, h₁, hw⟩ := written_word h (by decide) (by decide +kernel)
  obtain ⟨rest₂, h₂, hw⟩ := written_word hw (checkToken_chars hsession).1 (checkToken_chars hsession).2
  obtain ⟨rest₃, h₃, hw⟩ := written_word hw (checkToken_chars hboot).1 (checkToken_chars hboot).2
  obtain ⟨rest₄, h₄, hw⟩ := written_word hw (checkToken_chars hhash).1 (checkToken_chars hhash).2
  obtain ⟨rest₅, h₅, hw⟩ := written_int64 hw (by omega)
  rw [Int.toNat_of_nonneg (Int.le_of_lt hepoch.1)] at h₅
  have hstart : extractStart text = some (⟨ascii "LAME_SOURCE_START_V1", s.session, s.boot, s.hash, epoch⟩, rest₅) := by
    simp [extractStart, h₁, h₂, h₃, h₄, h₅]
  unfold SourceSchedule.readStart
  simp only [hstart, written_end hw]
  rw [if_neg]
  simp only [Option.isSome_none, Bool.false_eq_true, ne_eq, not_true, false_or]
  omega

section
variable {s : SourceSchedule}

/-- On the object, `due` does what it returns, and a throw leaves the object as it was. -/
theorem dueState_eq (s : SourceSchedule) (now : Int) (start : Option Bytes) :
    (SourceSchedule.dueState now start).run s =
      match s.due now start with
      | .ok (s', due) => .ok due s'
      | .error e => .error e s := by
  unfold SourceSchedule.dueState
  by_cases h0 : s.epoch = 0
  · cases start with
    | none =>
      rw [due_absent h0]
      simp only [EStateM.run_bind, EStateM.run_get, EStateM.run_pure, h0, if_true]
    | some text =>
      rw [due_record h0]
      simp only [EStateM.run_bind, EStateM.run_get, h0, if_true]
      cases hr : s.readStart text with
      | error e => simp only [EStateM.run_bind, EStateM.run_throw, Except.map]
      | ok epoch => simp only [EStateM.run_bind, EStateM.run_modify, EStateM.run_get, EStateM.run_pure, Except.map]
  · rw [due_armed h0]
    simp only [EStateM.run_bind, EStateM.run_get, EStateM.run_pure, h0, if_false]

theorem dueState_armed (h : s.epoch ≠ 0) (now : Int) (start : Option Bytes) :
    (SourceSchedule.dueState now start).run s = .ok (s.dueFrom now) s := by
  rw [dueState_eq, due_armed h]

theorem dueState_absent (h : s.epoch = 0) (now : Int) : (SourceSchedule.dueState now none).run s = .ok [] s := by
  rw [dueState_eq, due_absent h]

theorem dueState_record {text : Bytes} {epoch : Int} (h : s.epoch = 0) (hr : s.readStart text = .ok epoch) (now : Int) :
    (SourceSchedule.dueState now (some text)).run s =
      .ok (SourceSchedule.dueFrom { s with epoch } now) { s with epoch } := by
  rw [dueState_eq, due_record h, hr]; rfl

theorem dueState_cases (s : SourceSchedule) (now : Int) (start : Option Bytes) :
    (∃ e, (SourceSchedule.dueState now start).run s = .error e s) ∨
    (s.epoch = 0 ∧ (SourceSchedule.dueState now start).run s = .ok [] s) ∨
    (∃ epoch, epoch ≠ 0 ∧ (s.epoch = epoch ∨ s.epoch = 0 ∧ 0 < epoch ∧ epoch ≤ 2 ^ 63 - 1 - s.duration) ∧
      (SourceSchedule.dueState now start).run s =
        .ok (SourceSchedule.dueFrom { s with epoch } now) { s with epoch }) := by
  by_cases h0 : s.epoch = 0
  · cases start with
    | none => exact Or.inr (Or.inl ⟨h0, dueState_absent h0 now⟩)
    | some text =>
      cases hr : s.readStart text with
      | error e => exact Or.inl ⟨e, by rw [dueState_eq, due_record h0, hr]; rfl⟩
      | ok epoch =>
        have hbounds := readStart_bounds hr
        exact Or.inr (Or.inr ⟨epoch, by omega, Or.inr ⟨h0, hbounds⟩, dueState_record h0 hr now⟩)
  · exact Or.inr (Or.inr ⟨s.epoch, h0, Or.inl rfl, dueState_armed h0 now start⟩)

end

/-- What is due is what has been reached from `next_` on: the offsets increase,
so nothing is due after the first phase that is not. -/
theorem mem_dueFrom {s : SourceSchedule} (hincreasing : s.phases.Pairwise fun a b => a.offset < b.offset) (now : Int)
    (i : Nat) : i ∈ s.dueFrom now ↔ s.next ≤ i ∧ ∃ p, s.phases[i]? = some p ∧ s.epoch + p.offset ≤ now := by
  have hrequested : ∀ {i : Nat} (h : i < s.phases.length), s.requested i = s.epoch + s.phases[i].offset := by
    intro i h
    rw [SourceSchedule.requested, List.getElem?_eq_getElem h]; rfl
  obtain ⟨k, hk, heq, hall, hstop⟩ := dueFrom_range s now
  rw [heq, List.mem_range'_1]
  constructor
  · rintro ⟨hlo, hhi⟩
    have hlt : i < s.phases.length := by omega
    refine ⟨hlo, _, List.getElem?_eq_getElem hlt, ?_⟩
    rw [← hrequested hlt]; exact hall i hlo hhi
  · rintro ⟨hlo, p, hp, hnow⟩
    refine ⟨hlo, Nat.lt_of_not_le fun hge => ?_⟩
    obtain ⟨hlt, rfl⟩ := List.getElem?_eq_some_iff.mp hp
    have hfirst := hstop (by omega)
    rw [hrequested (by omega)] at hfirst
    by_cases he : i = s.next + k
    · subst he; omega
    · have := List.pairwise_iff_getElem.mp hincreasing (s.next + k) i (by omega) hlt (by omega)
      omega

/-- In use, a schedule differs from the one constructed by its epoch and its next phase. -/
structure UseInv (s : SourceSchedule) (u : ScheduleUse) : Prop where
  same : u.schedule = { s with epoch := u.schedule.epoch, next := u.schedule.next }
  next : u.schedule.next ≤ s.phases.length
  lastDue : ∀ i ∈ u.lastDue, i < s.phases.length
  epoch : u.schedule.epoch = 0 ∨ 0 < u.schedule.epoch ∧ u.schedule.epoch ≤ 2 ^ 63 - 1 - s.duration

theorem useInv_call {s : SourceSchedule} (u : ScheduleUse) (c : ScheduleCall) (u' : ScheduleUse) (h : UseInv s u)
    (hc : u.call c = some u') : UseInv s u' := by
  cases c with
  | due now start =>
    unfold ScheduleUse.call at hc
    simp only at hc
    rcases dueState_cases u.schedule now start with ⟨e, hr⟩ | ⟨_, hr⟩ | ⟨epoch, _, hepoch, hr⟩
    · rw [hr] at hc; cases hc
      exact h
    · rw [hr] at hc; cases hc
      exact { h with lastDue := fun i hi => nomatch hi }
    · rw [hr] at hc; cases hc
      have hduration : u.schedule.duration = s.duration := by rw [h.same]
      refine ⟨congrArg (fun x : SourceSchedule => { x with epoch }) h.same, h.next, fun i hi => ?_, ?_⟩
      · have hmem := List.mem_range'_1.mp ((List.takeWhile_sublist _).subset hi)
        have hphases : u.schedule.phases = s.phases := by rw [h.same]
        simp only [hphases] at hmem
        omega
      · rcases hepoch with rfl | ⟨_, hbounds⟩
        · exact h.epoch
        · rw [hduration] at hbounds
          exact Or.inr hbounds
  | applied index =>
    unfold ScheduleUse.call at hc
    simp only at hc
    split at hc
    · rename_i hmem
      cases hc
      exact ⟨congrArg (·.applied index) h.same, h.lastDue index hmem, h.lastDue, h.epoch⟩
    · cases hc

theorem useInv_run {text source boot instanceId : Bytes} {initial : Int} {s : SourceSchedule}
    (hcreate : SourceSchedule.create text source boot instanceId initial = .ok s) {calls : List ScheduleCall}
    {u : ScheduleUse} (hrun : runSteps ScheduleUse.call { schedule := s } calls = some u) : UseInv s u := by
  obtain ⟨h0, hnext, _⟩ := create_accepted hcreate
  have hinit : UseInv s { schedule := s } := by
    refine ⟨rfl, ?_, ?_, Or.inl h0⟩
    · rw [hnext]; exact Nat.zero_le _
    · intro i hi; cases hi
  exact run_invariant useInv_call calls hinit hrun

theorem epoch_call (u : ScheduleUse) (c : ScheduleCall) (u' : ScheduleUse) (harmed : u.schedule.epoch ≠ 0)
    (hc : u.call c = some u') : u'.schedule.epoch = u.schedule.epoch := by
  cases c with
  | due now start =>
    unfold ScheduleUse.call at hc
    simp only [dueState_armed harmed] at hc
    cases hc; rfl
  | applied index =>
    unfold ScheduleUse.call at hc
    simp only at hc
    split at hc
    · cases hc; rfl
    · cases hc

theorem epoch_run {u u' : ScheduleUse} {calls : List ScheduleCall} (harmed : u.schedule.epoch ≠ 0)
    (hrun : runSteps ScheduleUse.call u calls = some u') : u'.schedule.epoch = u.schedule.epoch := by
  refine run_invariant (P := fun v => v.schedule.epoch = u.schedule.epoch) (fun v c v' hv hc => ?_) calls rfl hrun
  rw [epoch_call v c v' (by rw [hv]; exact harmed) hc, hv]

/-- **Arming is atomic and permanent, and what is due is exact**: in every state
of an accepted schedule in use, whatever the start file has held before and
whatever it holds now. -/
theorem arming_atomic_due_exact {text source boot instanceId : Bytes} {initial : Int} {s : SourceSchedule}
    (hcreate : SourceSchedule.create text source boot instanceId initial = .ok s) {calls : List ScheduleCall}
    {u : ScheduleUse} (hrun : runSteps ScheduleUse.call { schedule := s } calls = some u) :
    (∀ now start e s', (SourceSchedule.dueState now start).run u.schedule = .error e s' → s' = u.schedule) ∧
    (u.schedule.epoch = 0 → ∀ now epoch record, 0 < epoch → epoch ≤ 2 ^ 63 - 1 - u.schedule.duration →
      Written (startTokens u.schedule epoch) record →
      ∃ due, (SourceSchedule.dueState now (some record)).run u.schedule = .ok due { u.schedule with epoch }) ∧
    (u.schedule.epoch ≠ 0 → ∀ later u', runSteps ScheduleUse.call u later = some u' →
      u'.schedule.epoch = u.schedule.epoch) ∧
    (u.schedule.epoch = 0 → ∀ now, (SourceSchedule.dueState now none).run u.schedule = .ok [] u.schedule) ∧
    (∀ now start due s', (SourceSchedule.dueState now start).run u.schedule = .ok due s' →
      s' = { u.schedule with epoch := s'.epoch } ∧
      (s'.epoch = 0 → due = [] ∧ s' = u.schedule) ∧
      (s'.epoch ≠ 0 → due = List.range' s'.next due.length ∧
        ∀ i, i ∈ due ↔ s'.next ≤ i ∧ ∃ p, s'.phases[i]? = some p ∧ s'.epoch + p.offset ≤ now)) ∧
    (u.schedule.epoch ≠ 0 → ∀ now start,
      ∃ due, (SourceSchedule.dueState now start).run u.schedule = .ok due u.schedule) := by
  have hu := useInv_run hcreate hrun
  have hf := create_wellFormed hcreate
  have hsame := hu.same
  refine ⟨?_, ?_, fun harmed later u' hrun' => epoch_run harmed hrun', fun h0 => dueState_absent h0, ?_,
    fun hne now start => ⟨_, dueState_armed hne now start⟩⟩
  · intro now start e s' herror
    rcases dueState_cases u.schedule now start with ⟨e', hr⟩ | ⟨_, hr⟩ | ⟨_, _, _, hr⟩
    · rw [hr] at herror; cases herror; rfl
    · rw [hr] at herror; cases herror
    · rw [hr] at herror; cases herror
  · intro h0 now epoch record hpositive hbound hwritten
    have htokens : ∀ token ∈ [u.schedule.session, u.schedule.boot, u.schedule.hash], checkToken token = .ok () := by
      intro token hm
      rw [hsame] at hm
      exact hf.tokens token (List.mem_append_left _ ((List.take_sublist 3 _).subset hm))
    have hduration : 0 < u.schedule.duration := by rw [hsame]; exact hf.span.1
    exact ⟨_, dueState_record h0 (readStart_written htokens hduration ⟨hpositive, hbound⟩ hwritten) now⟩
  · intro now start due s' hok
    rcases dueState_cases u.schedule now start with ⟨e, hr⟩ | ⟨h0, hr⟩ | ⟨epoch, hne, _, hr⟩
    · rw [hr] at hok; cases hok
    · rw [hr] at hok; cases hok
      exact ⟨rfl, fun _ => ⟨rfl, rfl⟩, fun hne => absurd h0 hne⟩
    · rw [hr] at hok; cases hok
      refine ⟨rfl, fun h0 => absurd h0 hne, fun _ => ⟨?_, mem_dueFrom ?_ now⟩⟩
      · obtain ⟨k, _, heq, _⟩ := dueFrom_range { u.schedule with epoch } now
        rw [heq, List.length_range']
      · rw [hsame]; exact hf.increasing

/-- The schedule of the repository's test after a stale start record and then a valid one. -/
def armedCalls : List ScheduleCall :=
  [.due 5000 none, .due 5000 (some (ascii "LAME_SOURCE_START_V1 stale boot hash 5000\n")), .due 6001 (some testStart),
    .applied 1, .due 7001 (some (ascii "garbage"))]

theorem armedCalls_epoch : ∃ u, runSteps ScheduleUse.call { schedule := acceptedSchedule } armedCalls = some u ∧
    u.lastDue = [2] ∧ ∀ later u', runSteps ScheduleUse.call u later = some u' → u'.schedule.epoch = 5000 := by
  have hsome : (runSteps ScheduleUse.call { schedule := acceptedSchedule } armedCalls).map
      (fun u => (u.schedule.epoch, u.lastDue)) = some (5000, [2]) := by decide
  obtain ⟨u, hu, hfacts⟩ := Option.map_eq_some_iff.mp hsome
  rw [Prod.mk.injEq] at hfacts
  obtain ⟨_, _, hpermanent, _⟩ := arming_atomic_due_exact testSchedule_accepted hu
  refine ⟨u, hu, hfacts.2, fun later u' hrun => ?_⟩
  rw [← hfacts.1]
  exact hpermanent (by rw [hfacts.1]; decide) later u' hrun

/-- **Schedule files are checked exactly**: a well-formed file is accepted in
every layout and yields its phases, an accepted file is well-formed and made
for this source, and no phase of an accepted schedule in use can be requested
at a time out of range. -/
theorem schedule_file_exact :
    (∀ session boot hash source instanceId duration phases initial,
      WellFormed session boot hash source instanceId duration phases initial →
      (∀ text, Written (scheduleTokens session boot hash source instanceId duration phases) text →
        SourceSchedule.create text source boot instanceId initial =
          .ok ⟨session, boot, hash, duration, phases, 0, 0⟩) ∧
      SourceSchedule.create ([32].intercalate (scheduleTokens session boot hash source instanceId duration phases))
        source boot instanceId initial = .ok ⟨session, boot, hash, duration, phases, 0, 0⟩) ∧
    (∀ text source boot instanceId initial s, SourceSchedule.create text source boot instanceId initial = .ok s →
      WellFormed s.session s.boot s.hash source instanceId s.duration s.phases initial ∧
      ∃ header rest, extractHeader text = some (header, rest) ∧ header.declaredSource = source ∧
        header.boot = boot ∧ header.declaredInstance = instanceId) ∧
    (∀ text source boot instanceId initial s, SourceSchedule.create text source boot instanceId initial = .ok s →
      ∀ calls u, runSteps ScheduleUse.call { schedule := s } calls = some u →
        ∀ p ∈ u.schedule.phases, 0 ≤ u.schedule.epoch + p.offset ∧ u.schedule.epoch + p.offset ≤ 2 ^ 63 - 1) := by
  refine ⟨?_, ?_, ?_⟩
  · intro session boot hash source instanceId duration phases initial hf
    exact ⟨fun text => create_written hf, create_written hf (written_intercalate (by decide) _)⟩
  · intro text source boot instanceId initial s h
    obtain ⟨header, input, rest, ha⟩ := create_cases h
    exact ⟨create_wellFormed h, header, input, ha.read, ha.declaredSource, ha.boot, ha.declaredInstance⟩
  · intro text source boot instanceId initial s h calls u hrun p hp
    have hu := useInv_run h hrun
    have hf := create_wellFormed h
    have hphases : u.schedule.phases = s.phases := by rw [hu.same]
    rw [hphases] at hp
    have hbelow := hf.below p hp
    have hspan := hf.span
    have hnonneg := hf.nonneg p hp
    rcases hu.epoch with h0 | hepoch
    · omega
    · omega

theorem acceptedSchedule_wellFormed : WellFormed (ascii "session") (ascii "boot") (ascii "hash") (ascii "Source")
    (ascii "instance") 3000 acceptedSchedule.phases 100 where
  tokens := by
    intro token hm
    simp only [acceptedSchedule, List.map, List.cons_append, List.nil_append, List.mem_cons, List.not_mem_nil] at hm
    rcases hm with rfl | rfl | rfl | rfl | rfl | rfl | rfl | rfl | hm
    all_goals first | rfl | cases hm
  span := by decide
  count := rfl
  ids := by decide
  first := rfl
  increasing := by decide
  below := by decide
  periods := by decide
  firstPeriod := rfl
  lastPeriod := rfl

theorem acceptedSchedule_read : SourceSchedule.create ([32].intercalate (scheduleTokens (ascii "session") (ascii "boot")
    (ascii "hash") (ascii "Source") (ascii "instance") 3000 acceptedSchedule.phases)) (ascii "Source") (ascii "boot")
    (ascii "instance") 100 = .ok acceptedSchedule :=
  (schedule_file_exact.1 _ _ _ _ _ _ _ _ acceptedSchedule_wellFormed).2

end ReferenceSystem
