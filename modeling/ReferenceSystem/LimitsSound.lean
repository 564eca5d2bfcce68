import ReferenceSystem.HistorySound
import Mathlib.Data.List.TakeWhile

/-!
# Where histories lose something

Three limits of the sample bookkeeping, each with the exact condition under
which it does not matter: a merge stops at the first name that does not fit and
so passes over what follows, the sequence counter of a subscription starts at a
number that a sample may have, and a long name is stored cut but looked up whole.
-/

namespace ReferenceSystem

/-! ## A merge without room -/

def KeepsNewest (m source : Message) (overflow : Nat) : Prop :=
  ∀ e ∈ (mergeHistoryIntoSample false source (m, overflow)).1.used, ∀ e' ∈ m.used ++ source.used,
    e'.name = e.name → e'.snapshot ≤ e.snapshot

/-- The merge stops at `e`: its name is new, and what comes before it has as many
names as there are entries. -/
structure StopsAt (m source : Message) (before : List TransmissionStats) (e : TransmissionStats)
    (after : List TransmissionStats) : Prop where
  split : source.used = before ++ e :: after
  fresh : e.name ∉ (m.used ++ before).map (·.name)
  full : ((m.used ++ before).map (·.name)).eraseDups.length = statsCapacity

section
variable {m source : Message} (overflow : Nat) (hm : m.size ≤ statsCapacity) (hs : source.size ≤ statsCapacity)
include hm hs

theorem merge_stopped {before after : List TransmissionStats} {e : TransmissionStats}
    (h : StopsAt m source before e after) :
    (mergeHistoryIntoSample false source (m, overflow)).1.used =
      newest (·.name) isNewerEntry (m.used ++ before) := by
  have hkeys := keys_newest (·.name) isNewerEntry (m.used ++ before)
  have hlen : (newest (·.name) isNewerEntry (m.used ++ before)).length = statsCapacity := by
    rw [← List.length_map (f := TransmissionStats.name), hkeys]
    exact h.full
  have hnew : e.name ∉ (newest (·.name) isNewerEntry (m.used ++ before)).map (·.name) := by
    rw [hkeys, List.mem_eraseDups]
    exact h.fresh
  rw [newest_append] at hlen hnew
  rw [(merge_spec overflow hm hs).1, mergedHistory, h.split,
    absorbUpTo_append _ _ _ _ (Nat.le_of_eq hlen), absorbUpTo, if_neg hnew, if_pos (Nat.le_of_eq hlen.symm),
    ← newest_append]

theorem merge_used_cases :
    (mergeHistoryIntoSample false source (m, overflow)).1.used =
      newest (·.name) isNewerEntry (m.used ++ source.used) ∨
    ∃ before e after, StopsAt m source before e after := by
  have hfold : ∀ l, l.foldl (upsert (·.name) isNewerEntry) (newest (·.name) isNewerEntry m.used) =
      newest (·.name) isNewerEntry (m.used ++ l) := fun l => (newest_append _ _ m.used l).symm
  rcases absorbUpTo_cases (·.name) isNewerEntry source.used (length_newest_le m hm) with
    ⟨h, _⟩ | ⟨before, e, after, hsplit, hnew, hfull, _⟩
  · left
    rw [(merge_spec overflow hm hs).1, mergedHistory, h, hfold]
  · right
    rw [hfold, keys_newest, List.mem_eraseDups] at hnew
    rw [hfold, ← List.length_map (f := TransmissionStats.name), keys_newest] at hfull
    exact ⟨before, e, after, hsplit, hnew, hfull⟩

end

/-- **A merge keeps what is newest exactly if nothing newer comes after the
point at which it stops.** -/
theorem merge_keeps_newest {m source : Message} (overflow : Nat) (hm : m.size ≤ statsCapacity)
    (hs : source.size ≤ statsCapacity) :
    KeepsNewest m source overflow ↔ ∀ before e after, StopsAt m source before e after →
      ∀ x ∈ after, x.name ∈ (m.used ++ before).map (·.name) →
        ∃ y ∈ m.used ++ before, y.name = x.name ∧ x.snapshot ≤ y.snapshot := by
  constructor
  · intro hkeep before e after hstop x hx hname
    have hused := merge_stopped overflow hm hs hstop
    have hkept : x.name ∈ (newest (·.name) isNewerEntry (m.used ++ before)).map (·.name) := by
      rw [keys_newest, List.mem_eraseDups]
      exact hname
    obtain ⟨y, hy, hyname⟩ := List.mem_map.mp hkept
    refine ⟨y, mem_newest _ _ hy, hyname, hkeep y (hused ▸ hy) x ?_ hyname.symm⟩
    rw [hstop.split]
    exact List.mem_append_right _ (List.mem_append_right _ (List.mem_cons_of_mem _ hx))
  · intro hlate e he e' he' hname
    rcases merge_used_cases overflow hm hs with hused | ⟨before, x, after, hstop⟩
    · rw [hused] at he
      exact newest_max _ isNewerEntry_iff he he' hname
    · rw [merge_stopped overflow hm hs hstop] at he
      have hmax : ∀ y ∈ m.used ++ before, y.name = e.name → y.snapshot ≤ e.snapshot := by
        intro y hy hyname
        exact newest_max _ isNewerEntry_iff he hy hyname
      have hin : e.name ∈ (m.used ++ before).map (·.name) := List.mem_map_of_mem (mem_newest _ _ he)
      rw [hstop.split, ← List.append_assoc] at he'
      rcases List.mem_append.mp he' with he' | he'
      · exact hmax e' he' hname
      · rcases List.mem_cons.mp he' with rfl | he'
        · exact absurd (hname ▸ hin) hstop.fresh
        · obtain ⟨y, hy, hyname, hle⟩ := hlate before x after hstop e' he' (hname ▸ hin)
          exact hle.trans (hmax y hy (hyname.trans hname))

/-- A history without a free entry, under the names `A`, `B` and so on. -/
def fullSample : Message :=
  { (default : Message) with
    size := statsCapacity
    stats := Vector.ofFn fun i => ⟨100, 1, 0, storeName [UInt8.ofNat (65 + i)]⟩ }

/-- A name that does not fit, and then a newer sample of a stored name. -/
def lateSample : Message :=
  (setSample false (ascii "A") 2 0 200 (setSample false (ascii "FrontLidarDriver") 1 0 100 (default, 0))).1

def earlySample : Message :=
  (setSample false (ascii "FrontLidarDriver") 1 0 100 (setSample false (ascii "A") 2 0 200 (default, 0))).1

theorem fullSample_names : fullSample.used.map (·.name) = (List.range statsCapacity).map fun i => [UInt8.ofNat (65 + i)] := by
  decide

theorem lateSample_lost : ¬ ∀ (m source : Message) (overflow : Nat), m.size ≤ statsCapacity →
    source.size ≤ statsCapacity → KeepsNewest m source overflow := by
  intro h
  have hstop : StopsAt fullSample lateSample [] ⟨100, 1, 0, storeName (ascii "FrontLidarDriver")⟩
      [⟨200, 2, 0, storeName (ascii "A")⟩] := by
    refine ⟨by decide, ?_, ?_⟩
    · rw [List.append_nil, fullSample_names]; decide
    · rw [List.append_nil, fullSample_names]; decide
  have hused := merge_stopped 0 (Nat.le_refl _) (by decide) hstop
  have hold : ∀ e ∈ fullSample.used, e.snapshot < (⟨200, 2, 0, storeName (ascii "A")⟩ : TransmissionStats).snapshot := by
    decide
  have hname : (⟨200, 2, 0, storeName (ascii "A")⟩ : TransmissionStats).name ∈
      (newest (·.name) isNewerEntry fullSample.used).map (·.name) := by
    rw [keys_newest, List.mem_eraseDups, fullSample_names]; decide
  obtain ⟨e, he, hname⟩ := List.mem_map.mp hname
  rw [List.append_nil] at hused
  have hle := h fullSample lateSample 0 (Nat.le_refl _) (by decide) e (hused ▸ he) _
    (List.mem_append_right _ (hstop.split ▸ List.mem_cons_of_mem _ (List.mem_singleton_self _))) hname.symm
  exact absurd (hold e (mem_newest _ _ he)) (not_lt.mpr hle)

theorem earlySample_kept : KeepsNewest fullSample earlySample 0 := by
  refine (merge_keeps_newest 0 (Nat.le_refl _) (by decide)).mpr fun before e after hstop x hx _ => ?_
  have hsplit := hstop.split
  have hused : earlySample.used =
      [⟨200, 2, 0, storeName (ascii "A")⟩, ⟨100, 1, 0, storeName (ascii "FrontLidarDriver")⟩] := by decide
  rw [hused] at hsplit
  cases before with
  | nil =>
    -- the first name is stored already
    have hfresh := hstop.fresh
    rw [← (List.cons.inj hsplit).1, List.append_nil, fullSample_names] at hfresh
    exact absurd (by decide) hfresh
  | cons a before =>
    have hlen := congrArg List.length hsplit
    have hpos := List.length_pos_of_mem hx
    simp only [List.length_cons, List.length_append, List.length_nil] at hlen
    omega

/-! ## Counting missed samples -/

/-- The sum of what `get_missed_samples_and_update_seq_nr` returns for one sample
after the other. -/
def totalMissed : List Message → UInt32 → Nat
  | [], _ => 0
  | sample :: samples, sequenceNumber =>
    let (missed, updated) := getMissedSamplesAndUpdateSeqNr false sample sequenceNumber
    missed.toNat + totalMissed samples updated

/-- The calls for the samples in order, the `i`-th of them repeated `times i` times. -/
def repeatedCalls (times : Nat → Nat) (samples : List Message) : List Message :=
  samples.zipIdx.flatMap fun (sample, i) => List.replicate (times i + 1) sample

/-- Calls for the samples that are left, in order, between calls for samples counted before. -/
inductive Interposed : List Message → List Message → List Message → Prop
  | done {counted : List Message} : Interposed counted [] []
  | next {counted samples calls : List Message} {sample : Message} : Interposed (sample :: counted) samples calls →
      Interposed counted (sample :: samples) (sample :: calls)
  | again {counted samples calls : List Message} {sample : Message} : sample ∈ counted →
      Interposed counted samples calls → Interposed counted samples (sample :: calls)

def LastNumber (sample : Message) (sequence : UInt32) : Prop :=
  sample.size ≤ statsCapacity ∧ ∃ e, sample.used.getLast? = some e ∧ e.sequenceNumber = sequence

/-- How many of the numbers up to the last one were not received. -/
def notReceived (received : List UInt32) : Nat :=
  ((Finset.range ((received.getLast?.elim 0 UInt32.toNat) + 1)).filter fun n =>
    n ∉ received.map UInt32.toNat).card

theorem getMissedSamples_toNat {sample : Message} {sequence : UInt32} (h : LastNumber sample sequence)
    (counter : UInt32) :
    (getMissedSamplesAndUpdateSeqNr false sample counter).1.toNat = sequence.toNat - counter.toNat - 1 ∧
      (getMissedSamplesAndUpdateSeqNr false sample counter).2 = sequence := by
  obtain ⟨hsize, e, hlast, rfl⟩ := h
  unfold getMissedSamplesAndUpdateSeqNr
  simp only [getSampleSequenceNumber_last hsize hlast, and_true]
  by_cases hlt : e.sequenceNumber > counter
  · have hlt' := UInt32.lt_iff_toNat_lt.mp hlt
    have hsub : (e.sequenceNumber - counter).toNat = e.sequenceNumber.toNat - counter.toNat :=
      UInt32.toNat_sub_of_le _ _ (UInt32.le_of_lt hlt)
    have hone : (1 : UInt32) ≤ e.sequenceNumber - counter := by
      rw [UInt32.le_iff_toNat_le, hsub]
      show 1 ≤ _
      omega
    rw [if_pos hlt, UInt32.toNat_sub_of_le _ _ hone, hsub]
    rfl
  · have hle := UInt32.le_iff_toNat_le.mp (UInt32.not_lt.mp hlt)
    rw [if_neg hlt]
    show 0 = _
    omega

theorem totalMissed_cons {sample : Message} {sequence : UInt32} (h : LastNumber sample sequence)
    (samples : List Message) (counter : UInt32) :
    totalMissed (sample :: samples) counter = (sequence.toNat - counter.toNat - 1) + totalMissed samples sequence := by
  obtain ⟨hmissed, hupdated⟩ := getMissedSamples_toNat h counter
  show (getMissedSamplesAndUpdateSeqNr false sample counter).1.toNat +
    totalMissed samples (getMissedSamplesAndUpdateSeqNr false sample counter).2 = _
  rw [hmissed, hupdated]

theorem totalMissed_replicate {sample : Message} {sequence : UInt32} (h : LastNumber sample sequence)
    (samples : List Message) (counter : UInt32) : ∀ n : Nat,
    totalMissed (List.replicate (n + 1) sample ++ samples) counter = totalMissed (sample :: samples) counter
  | 0 => rfl
  | n + 1 => by
    have ih := totalMissed_replicate h samples sequence n
    rw [List.replicate_succ, List.cons_append, totalMissed_cons h, ih, totalMissed_cons h, totalMissed_cons h]
    omega

theorem totalMissed_repeated (times : Nat → Nat) {samples : List Message} {received : List UInt32}
    (h : List.Forall₂ LastNumber samples received) (counter : UInt32) :
    totalMissed (repeatedCalls times samples) counter = totalMissed samples counter := by
  have key : ∀ {samples : List Message} {received : List UInt32}, List.Forall₂ LastNumber samples received →
      ∀ (k : Nat) (counter : UInt32),
        totalMissed ((samples.zipIdx k).flatMap fun (sample, i) => List.replicate (times i + 1) sample) counter =
          totalMissed samples counter := by
    intro samples received h
    induction h with
    | nil => intro k counter; rfl
    | cons h₁ _ ih =>
      intro k counter
      rw [List.zipIdx_cons, List.flatMap_cons, totalMissed_replicate h₁, totalMissed_cons h₁, totalMissed_cons h₁, ih]
  exact key h 0 counter

theorem totalMissed_increasing {samples : List Message} {received : List UInt32}
    (h : List.Forall₂ LastNumber samples received) : ∀ (counter : UInt32),
    (counter :: received).Pairwise (· < ·) →
    totalMissed samples counter + received.length + counter.toNat = ((counter :: received).getLast (by simp)).toNat := by
  induction h with
  | nil =>
    intro counter _
    simp [totalMissed]
  | @cons sample sequence samples received h₁ _ ih =>
    intro counter hinc
    have hlt := UInt32.lt_iff_toNat_lt.mp ((List.pairwise_cons.mp hinc).1 sequence (List.mem_cons_self ..))
    have hrest := ih sequence (List.pairwise_cons.mp hinc).2
    rw [totalMissed_cons h₁, List.length_cons, List.getLast_cons (List.cons_ne_nil _ _), ← hrest]
    omega

theorem notReceived_increasing {first : UInt32} {rest : List UInt32} (hinc : (first :: rest).Pairwise (· < ·)) :
    notReceived (first :: rest) + (rest.length + 1) = ((first :: rest).getLast (by simp)).toNat + 1 := by
  have hlast : (first :: rest).getLast?.elim 0 UInt32.toNat = ((first :: rest).getLast (by simp)).toNat := by
    rw [List.getLast?_eq_some_getLast (List.cons_ne_nil _ _)]; rfl
  have hnodup : ((first :: rest).map UInt32.toNat).Nodup :=
    List.pairwise_map.mpr (hinc.imp fun h => Nat.ne_of_lt (UInt32.lt_iff_toNat_lt.mp h))
  have hle : ∀ r ∈ first :: rest, r.toNat ≤ ((first :: rest).getLast (by simp)).toNat := by
    intro r hr
    exact UInt32.le_iff_toNat_le.mp ((hinc.imp UInt32.le_of_lt).rel_getLast hr)
  have hsub : ((first :: rest).map UInt32.toNat).toFinset ⊆
      Finset.range (((first :: rest).getLast (by simp)).toNat + 1) := by
    intro n hn
    obtain ⟨r, hr, rfl⟩ := List.mem_map.mp (List.mem_toFinset.mp hn)
    exact Finset.mem_range.mpr (Nat.lt_succ_of_le (hle r hr))
  have hcard := Finset.card_sdiff_add_card_eq_card hsub
  rw [List.toFinset_card_of_nodup hnodup, List.length_map, List.length_cons, Finset.card_range] at hcard
  rw [← hcard, notReceived, hlast]
  congr 2
  ext n
  simp only [Finset.mem_filter, Finset.mem_sdiff, List.mem_toFinset]

theorem Interposed.in_order : ∀ (samples counted : List Message), Interposed counted samples samples
  | [], _ => .done
  | _ :: samples, _ => .next (in_order samples _)

theorem Interposed.mem {counted samples calls : List Message} (h : Interposed counted samples calls) :
    ∀ sample ∈ calls, sample ∈ counted ++ samples := by
  induction h with
  | done => intro sample hs; cases hs
  | next _ ih =>
    intro sample hs
    rcases List.mem_cons.mp hs with rfl | hs
    · simp
    · have := ih sample hs
      simp only [List.cons_append, List.mem_cons, List.mem_append] at this ⊢
      tauto
  | again hmem _ ih =>
    intro sample hs
    rcases List.mem_cons.mp hs with rfl | hs
    · exact List.mem_append_left _ hmem
    · exact ih sample hs

theorem totalMissed_zero : ∀ {calls : List Message} (counter : UInt32),
    (∀ sample ∈ calls, ∃ sequence, LastNumber sample sequence ∧ sequence.toNat ≤ 1) → totalMissed calls counter = 0
  | [], _, _ => rfl
  | sample :: calls, counter, h => by
    obtain ⟨sequence, hlast, hle⟩ := h sample (List.mem_cons_self ..)
    rw [totalMissed_cons hlast, totalMissed_zero sequence fun s hs => h s (List.mem_cons_of_mem _ hs)]
    omega

section
variable {received : List UInt32} (hne : received ≠ []) (hinc : received.Pairwise (· < ·)) {samples : List Message}
  (h : List.Forall₂ LastNumber samples received)
include hne hinc h

theorem totalMissed_exact : totalMissed samples 0 = notReceived received ↔ received.head? = some 0 := by
  cases h with
  | nil => exact absurd rfl hne
  | @cons sample first samples rest h₁ h =>
    have hmissing := notReceived_increasing hinc
    have hrest := totalMissed_increasing h first hinc
    have hzero : (0 : UInt32).toNat = 0 := rfl
    rw [List.head?_cons, Option.some.injEq, ← UInt32.toNat_inj, totalMissed_cons h₁, hzero]
    constructor
    · intro heq
      omega
    · intro heq
      omega

/-- A call for an older sample sets the counter back, and what was counted since is counted again. -/
theorem interposed_exact (hfirst : received.head? = some 0) :
    (∀ calls, Interposed [] samples calls → totalMissed calls 0 = totalMissed samples 0) ↔
      received = [0] ∨ received = [0, 1] := by
  have hzero : (0 : UInt32).toNat = 0 := rfl
  constructor
  · intro hcalls
    cases h with
    | nil => exact absurd rfl hne
    | @cons s₀ first samples rest h₀ h =>
      cases Option.some.inj hfirst
      cases h with
      | nil => exact Or.inl rfl
      | @cons s₁ second samples rest h₁ h =>
        right
        have hpos := UInt32.lt_iff_toNat_lt.mp ((List.pairwise_cons.mp hinc).1 second (List.mem_cons_self ..))
        cases h with
        | nil =>
          -- both samples once more
          have hagain := hcalls [s₀, s₁, s₀, s₁] (.next (.next (.again (by simp) (.again (by simp) .done))))
          rw [totalMissed_cons h₀, totalMissed_cons h₁, totalMissed_cons h₀, totalMissed_cons h₁, totalMissed_cons h₀,
            totalMissed_cons h₁] at hagain
          simp only [totalMissed, hzero] at hagain hpos
          have hone : second = 1 := UInt32.toNat_inj.mp (show second.toNat = 1 by omega)
          rw [hone]
        | @cons s₂ third samples rest h₂ h =>
          -- the first sample between the second and the third
          have hagain := hcalls (s₀ :: s₁ :: s₀ :: s₂ :: samples)
            (.next (.next (.again (by simp) (.next (.in_order samples _)))))
          have hlt := UInt32.lt_iff_toNat_lt.mp ((List.pairwise_cons.mp (List.pairwise_cons.mp hinc).2).1 third
            (List.mem_cons_self ..))
          rw [totalMissed_cons h₀, totalMissed_cons h₁, totalMissed_cons h₀, totalMissed_cons h₂, totalMissed_cons h₀,
            totalMissed_cons h₁, totalMissed_cons h₂] at hagain
          simp only [hzero] at hagain hpos
          omega
  · intro hreceived calls hcalls
    have hsmall : ∀ sample ∈ samples, ∃ sequence, LastNumber sample sequence ∧ sequence.toNat ≤ 1 := by
      rcases hreceived with rfl | rfl
      · cases h with
        | cons h₀ h =>
          cases h
          exact List.forall_mem_singleton.mpr ⟨0, h₀, by decide⟩
      · cases h with
        | cons h₀ h =>
          cases h with
          | cons h₁ h =>
            cases h
            exact List.forall_mem_cons.mpr ⟨⟨0, h₀, by decide⟩, List.forall_mem_singleton.mpr ⟨1, h₁, by decide⟩⟩
    rw [totalMissed_zero 0 hsmall, totalMissed_zero 0 fun sample hs => hsmall sample (hcalls.mem sample hs)]

end

/-- **Missed samples are counted exactly if the first sample is received**: from
the initial counter the calls add up to the number of samples that were not
received, whether or not the latest of them are repeated, if and only if the
first sample received is the first one published. Repeated calls for any sample
counted before add nothing only as long as there is nothing to count. -/
theorem missed_samples_exact {received : List UInt32} (hne : received ≠ []) (hinc : received.Pairwise (· < ·))
    {samples : List Message} (h : List.Forall₂ LastNumber samples received) :
    ((totalMissed samples 0 = notReceived received ∧
      ∀ times, totalMissed (repeatedCalls times samples) 0 = totalMissed samples 0) ↔ received.head? = some 0) ∧
    ((totalMissed samples 0 = notReceived received ∧
      ∀ calls, Interposed [] samples calls → totalMissed calls 0 = totalMissed samples 0) ↔
        received = [0] ∨ received = [0, 1]) := by
  have hexact := totalMissed_exact hne hinc h
  refine ⟨?_, ?_⟩
  · rw [and_iff_left fun times => totalMissed_repeated times h 0]
    exact hexact
  · rw [hexact]
    constructor
    · rintro ⟨hfirst, hcalls⟩
      exact (interposed_exact hne hinc h hfirst).mp hcalls
    · intro hreceived
      have hfirst : received.head? = some 0 := by
        rcases hreceived with rfl | rfl
        · rfl
        · rfl
      exact ⟨hfirst, (interposed_exact hne hinc h hfirst).mpr hreceived⟩

def lidarSample (sequence : UInt32) : Message := (setSample false (ascii "FrontLidarDriver") sequence 0 100 (default, 0)).1

theorem lidarSample_last (sequence : UInt32) : LastNumber (lidarSample sequence) sequence := by
  have hfresh : ascii "FrontLidarDriver" ∉ (default : Message).used.map (·.name) := List.not_mem_nil
  obtain ⟨hused, hsize, _⟩ := setSample_fresh sequence 0 100 0 (by decide) hfresh
  refine ⟨?_, _, by rw [lidarSample, hused, List.getLast?_append]; rfl, rfl⟩
  rw [lidarSample, hsize]
  decide

theorem lidarSamples_exact : totalMissed [lidarSample 0, lidarSample 1, lidarSample 4] 0 = notReceived [0, 1, 4] := by
  have hsamples : List.Forall₂ LastNumber [lidarSample 0, lidarSample 1, lidarSample 4] [0, 1, 4] := by
    simp only [List.forall₂_cons, lidarSample_last, List.Forall₂.nil, and_self]
  exact ((missed_samples_exact (by decide) (by decide) hsamples).1.mpr rfl).1

theorem firstSample_uncounted : ¬ ∀ (received : List UInt32) (samples : List Message), received ≠ [] →
    received.Pairwise (· < ·) → List.Forall₂ LastNumber samples received →
    totalMissed samples 0 = notReceived received ∧
      ∀ times, totalMissed (repeatedCalls times samples) 0 = totalMissed samples 0 := by
  intro h
  have hsamples : List.Forall₂ LastNumber [lidarSample 1] [1] := by
    simp only [List.forall₂_cons, lidarSample_last, List.Forall₂.nil, and_self]
  have hcount := (h [1] [lidarSample 1] (by decide) (by decide) hsamples).1
  exact absurd hcount (by decide)

/-! ## Long names -/

/-- What a name reads as once it is stored. -/
def storedName (nodeName : Bytes) : Bytes := (nodeName.take (nodeNameLength - 1)).takeWhile (· ≠ 0)

theorem name_stored (timestamp : UInt64) (sequenceNumber droppedSamples : UInt32) (nodeName : Bytes) :
    (TransmissionStats.mk timestamp sequenceNumber droppedSamples (storeName nodeName)).name = storedName nodeName := by
  have hlen : (nodeName.take (nodeNameLength - 1)).length ≤ nodeNameLength - 1 := List.length_take_le _ _
  obtain ⟨n, hn⟩ : ∃ n, nodeNameLength - (nodeName.take (nodeNameLength - 1)).length = n + 1 :=
    ⟨nodeNameLength - (nodeName.take (nodeNameLength - 1)).length - 1, by
      have : nodeNameLength = 48 := rfl
      omega⟩
  have hlist : (storeName nodeName).toList =
      nodeName.take (nodeNameLength - 1) ++ List.replicate (n + 1) 0 := by
    rw [← hn]; rfl
  unfold TransmissionStats.name storedName
  rw [hlist, List.takeWhile_append, List.replicate_succ, List.takeWhile_cons_of_neg (by simp), List.append_nil]
  split
  · rename_i h
    exact ((List.takeWhile_prefix _).eq_of_length h).symm
  · rfl

theorem storedName_fits (nodeName : Bytes) :
    (storedName nodeName).length < nodeNameLength ∧ (0 : UInt8) ∉ storedName nodeName := by
  unfold storedName
  constructor
  · have h₁ := (List.takeWhile_prefix (fun c : UInt8 => decide (c ≠ 0)) (l := nodeName.take (nodeNameLength - 1))).length_le
    have h₂ := List.length_take_le (nodeNameLength - 1) nodeName
    have : nodeNameLength = 48 := rfl
    omega
  · intro h0
    simpa using List.mem_takeWhile_imp h0

theorem storedName_eq_self {nodeName : Bytes} :
    storedName nodeName = nodeName ↔ nodeName.length < nodeNameLength ∧ (0 : UInt8) ∉ nodeName := by
  refine ⟨fun h => h ▸ storedName_fits nodeName, fun ⟨hlt, h0⟩ => ?_⟩
  unfold storedName
  rw [List.take_of_length_le (by omega), List.takeWhile_eq_self_iff]
  intro c hc
  exact decide_eq_true fun e => h0 (e ▸ hc)

/-- How a message is built: from an empty one with `set_sample` and by merging
messages built in the same way. -/
inductive SampleBuild where
  | empty (message : Message)
  | set (build : SampleBuild) (nodeName : Bytes) (sequenceNumber droppedSamples : UInt32) (timestamp : UInt64)
  | merge (build source : SampleBuild)

namespace SampleBuild

def message : SampleBuild → Message
  | empty m => { m with size := 0 }
  | set build nodeName sequenceNumber droppedSamples timestamp =>
    (setSample false nodeName sequenceNumber droppedSamples timestamp (build.message, 0)).1
  | merge build source => (mergeHistoryIntoSample false source.message (build.message, 0)).1

def stages : SampleBuild → List SampleBuild
  | empty m => [empty m]
  | set build nodeName sequenceNumber droppedSamples timestamp =>
    set build nodeName sequenceNumber droppedSamples timestamp :: build.stages
  | merge build source => merge build source :: (build.stages ++ source.stages)

end SampleBuild

structure OneEntryEach (m : Message) : Prop where
  size : m.size ≤ statsCapacity
  distinct : (m.used.map (·.name)).Nodup
  once : ∀ nodeName, (m.used.map (·.name)).count (storedName nodeName) ≤ 1

theorem OneEntryEach.of_distinct {m : Message} (hsize : m.size ≤ statsCapacity)
    (hdistinct : (m.used.map (·.name)).Nodup) : OneEntryEach m :=
  ⟨hsize, hdistinct, fun nodeName => List.nodup_iff_count_le_one.mp hdistinct (storedName nodeName)⟩

section
variable {m : Message} (hm : m.size ≤ statsCapacity) (nodeName : Bytes) (sequenceNumber droppedSamples : UInt32)
  (timestamp : UInt64) (overflow : Nat)

include hm in
theorem setSample_known (h : nodeName ∈ m.used.map (·.name) ∨ statsCapacity ≤ m.size) :
    let result := (setSample false nodeName sequenceNumber droppedSamples timestamp (m, overflow)).1
    result.size = m.size ∧ result.used.map (·.name) = m.used.map (·.name) := by
  simp only [setSample, Bool.false_eq_true, ite_false]
  by_cases hlt : findEntry m m.size nodeName < m.size
  · rw [if_pos hlt]
    split
    · refine ⟨rfl, ?_⟩
      -- the entry is written in place and its name stays
      have hname : ((m.slots m.size).map (·.name))[findEntry m m.size nodeName]? =
          some (m.statsAt (findEntry m m.size nodeName)).name := by
        rw [List.getElem?_map, m.getElem?_slots hm hlt]; rfl
      obtain ⟨hi, heq⟩ := List.getElem?_eq_some_iff.mp hname
      rw [Message.used_eq, Message.used_eq, Message.slots_setStats, List.map_set]
      show ((m.slots m.size).map (·.name)).set _ (m.statsAt (findEntry m m.size nodeName)).name = _
      rw [← heq, List.set_getElem_self]
    · exact ⟨rfl, rfl⟩
  · have habsent : findEntry m m.size nodeName = m.size := by
      have := findEntry_le m m.size nodeName
      omega
    have hfull : statsCapacity ≤ m.size := h.resolve_left ((findEntry_absent hm).mp habsent)
    rw [if_neg hlt, if_pos hfull]
    exact ⟨rfl, rfl⟩

theorem setSample_new (hroom : m.size < statsCapacity) (h : nodeName ∉ m.used.map (·.name)) :
    let result := (setSample false nodeName sequenceNumber droppedSamples timestamp (m, overflow)).1
    result.size = m.size + 1 ∧ result.used.map (·.name) = m.used.map (·.name) ++ [storedName nodeName] := by
  obtain ⟨hused, hsize, _⟩ := setSample_fresh sequenceNumber droppedSamples timestamp overflow hroom h
  refine ⟨hsize, ?_⟩
  simp only [hused, List.map_append, List.map_singleton, name_stored]

end

/-- A name that is cut when it is stored finds its cut form there already. -/
def FoundCut (m : Message) (nodeName : Bytes) : Prop :=
  (nodeNameLength ≤ nodeName.length ∨ (0 : UInt8) ∈ nodeName) ∧ storedName nodeName ∈ m.used.map (·.name) ∧
    m.size < statsCapacity

theorem storedName_storedName (nodeName : Bytes) : storedName (storedName nodeName) = storedName nodeName :=
  storedName_eq_self.mpr (storedName_fits nodeName)

structure Storable (m : Message) : Prop where
  size : m.size ≤ statsCapacity
  names : ∀ name ∈ m.used.map (·.name), storedName name = name

theorem Storable.set {m : Message} (h : Storable m) (nodeName : Bytes) (sequenceNumber droppedSamples : UInt32)
    (timestamp : UInt64) (overflow : Nat) :
    Storable (setSample false nodeName sequenceNumber droppedSamples timestamp (m, overflow)).1 := by
  by_cases hknown : nodeName ∈ m.used.map (·.name) ∨ statsCapacity ≤ m.size
  · obtain ⟨hsize, hnames⟩ :=
      setSample_known h.size nodeName sequenceNumber droppedSamples timestamp overflow hknown
    exact ⟨hsize ▸ h.size, hnames ▸ h.names⟩
  · rw [not_or, Nat.not_le] at hknown
    obtain ⟨hsize, hnames⟩ :=
      setSample_new nodeName sequenceNumber droppedSamples timestamp overflow hknown.2 hknown.1
    refine ⟨hsize ▸ hknown.2, ?_⟩
    rw [hnames]
    intro name hname
    rcases List.mem_append.mp hname with hname | hname
    · exact h.names name hname
    · rw [List.mem_singleton.mp hname]
      exact storedName_storedName nodeName

theorem mergedHistory_mem {m source : Message} (hm : m.size ≤ statsCapacity) (hs : source.size ≤ statsCapacity)
    (overflow : Nat) {e : TransmissionStats} (he : e ∈ (mergeHistoryIntoSample false source (m, overflow)).1.used) :
    e ∈ m.used ++ source.used := by
  rcases merge_used_cases overflow hm hs with hused | ⟨before, x, after, hstop⟩
  · rw [hused] at he
    exact mem_newest _ _ he
  · rw [merge_stopped overflow hm hs hstop] at he
    rw [hstop.split, ← List.append_assoc]
    exact List.mem_append_left _ (mem_newest _ _ he)

theorem merge_distinct {m source : Message} (hm : m.size ≤ statsCapacity) (hs : source.size ≤ statsCapacity)
    (overflow : Nat) : ((mergeHistoryIntoSample false source (m, overflow)).1.used.map (·.name)).Nodup := by
  rcases merge_used_cases overflow hm hs with hused | ⟨before, x, after, hstop⟩
  · rw [hused]
    exact nodup_keys_newest _ _ _
  · rw [merge_stopped overflow hm hs hstop]
    exact nodup_keys_newest _ _ _

theorem storable_build : ∀ build : SampleBuild, Storable build.message
  | .empty m => ⟨Nat.zero_le _, fun name hname => absurd hname List.not_mem_nil⟩
  | .set build nodeName sequenceNumber droppedSamples timestamp =>
    (storable_build build).set nodeName sequenceNumber droppedSamples timestamp 0
  | .merge build source => by
    have hm := storable_build build
    have hs := storable_build source
    refine ⟨(merge_spec 0 hm.size hs.size).2.1, fun name hname => ?_⟩
    obtain ⟨e, he, rfl⟩ := List.mem_map.mp hname
    rcases List.mem_append.mp (mergedHistory_mem hm.size hs.size 0 he) with he | he
    · exact hm.names _ (List.mem_map_of_mem he)
    · exact hs.names _ (List.mem_map_of_mem he)

theorem setSample_distinct {m : Message} (h : Storable m) (hdistinct : (m.used.map (·.name)).Nodup)
    (nodeName : Bytes) (sequenceNumber droppedSamples : UInt32) (timestamp : UInt64) (overflow : Nat) :
    ((setSample false nodeName sequenceNumber droppedSamples timestamp (m, overflow)).1.used.map (·.name)).Nodup ↔
      ¬ FoundCut m nodeName := by
  by_cases hknown : nodeName ∈ m.used.map (·.name) ∨ statsCapacity ≤ m.size
  · rw [(setSample_known h.size nodeName sequenceNumber droppedSamples timestamp overflow hknown).2]
    refine iff_of_true hdistinct fun hcut => ?_
    rcases hknown with hin | hfull
    · obtain ⟨hlt, h0⟩ := storedName_eq_self.mp (h.names _ hin)
      rcases hcut.1 with hlong | hnul
      · omega
      · exact h0 hnul
    · have := hcut.2.2
      omega
  · rw [not_or, Nat.not_le] at hknown
    rw [(setSample_new nodeName sequenceNumber droppedSamples timestamp overflow hknown.2 hknown.1).2,
      List.nodup_append]
    constructor
    · intro hnodup hcut
      exact hnodup.2.2 _ hcut.2.1 _ (List.mem_singleton_self _) rfl
    · intro hcut
      refine ⟨hdistinct, List.nodup_singleton _, fun a ha b hb hab => ?_⟩
      rw [List.mem_singleton] at hb
      have hin : storedName nodeName ∈ m.used.map (·.name) := hb ▸ hab ▸ ha
      -- a name that is stored whole would have been found
      have hself : storedName nodeName ≠ nodeName := fun he => hknown.1 (he ▸ hin)
      rw [Ne, storedName_eq_self, not_and_or, Nat.not_lt, not_not] at hself
      exact hcut ⟨hself, hin, hknown.2⟩

theorem SampleBuild.mem_stages (build : SampleBuild) : build ∈ build.stages := by
  cases build <;> simp [SampleBuild.stages]

theorem SampleBuild.before_mem {build before : SampleBuild} {nodeName : Bytes} {sequenceNumber droppedSamples : UInt32}
    {timestamp : UInt64} (h : .set before nodeName sequenceNumber droppedSamples timestamp ∈ build.stages) :
    before ∈ build.stages := by
  induction build with
  | empty m => cases List.mem_singleton.mp h
  | set build name number dropped time ih =>
    rcases List.mem_cons.mp h with h | h
    · cases h
      exact List.mem_cons_of_mem _ before.mem_stages
    · exact List.mem_cons_of_mem _ (ih h)
  | merge build source ih ih' =>
    rcases List.mem_cons.mp h with h | h
    · cases h
    · rcases List.mem_append.mp h with h | h
      · exact List.mem_cons_of_mem _ (List.mem_append_left _ (ih h))
      · exact List.mem_cons_of_mem _ (List.mem_append_right _ (ih' h))

theorem oneEntryEach_stages (build : SampleBuild) (h : ∀ before nodeName sequenceNumber droppedSamples timestamp,
    SampleBuild.set before nodeName sequenceNumber droppedSamples timestamp ∈ build.stages →
    ¬ FoundCut before.message nodeName) : ∀ stage ∈ build.stages, OneEntryEach stage.message := by
  induction build with
  | empty m =>
    intro stage hstage
    cases List.mem_singleton.mp hstage
    exact .of_distinct (Nat.zero_le _) List.nodup_nil
  | set build nodeName sequenceNumber droppedSamples timestamp ih =>
    have hbuild := ih fun before name number dropped time hmem =>
      h before name number dropped time (List.mem_cons_of_mem _ hmem)
    intro stage hstage
    rcases List.mem_cons.mp hstage with rfl | hstage
    · have hone := hbuild build build.mem_stages
      apply OneEntryEach.of_distinct (storable_build _).size
      exact (setSample_distinct (storable_build build) hone.distinct nodeName sequenceNumber droppedSamples timestamp
        0).mpr (h build nodeName sequenceNumber droppedSamples timestamp (List.mem_cons_self ..))
    · exact hbuild stage hstage
  | merge build source ih ih' =>
    have hbuild := ih fun before name number dropped time hmem =>
      h before name number dropped time (List.mem_cons_of_mem _ (List.mem_append_left _ hmem))
    have hsource := ih' fun before name number dropped time hmem =>
      h before name number dropped time (List.mem_cons_of_mem _ (List.mem_append_right _ hmem))
    intro stage hstage
    rcases List.mem_cons.mp hstage with rfl | hstage
    · apply OneEntryEach.of_distinct (storable_build _).size
      exact merge_distinct (storable_build build).size (storable_build source).size 0
    · rcases List.mem_append.mp hstage with hstage | hstage
      · exact hbuild stage hstage
      · exact hsource stage hstage

/-- **A node has one entry at every stage of a message exactly if no call finds
its name cut**, which does not happen to names that are shorter than the field
and without NUL. -/
theorem setSample_never_duplicates (build : SampleBuild) :
    (∀ stage ∈ build.stages, OneEntryEach stage.message) ↔
      ∀ before nodeName sequenceNumber droppedSamples timestamp,
        SampleBuild.set before nodeName sequenceNumber droppedSamples timestamp ∈ build.stages →
        ¬ FoundCut before.message nodeName := by
  constructor
  · intro h before nodeName sequenceNumber droppedSamples timestamp hmem
    have hbefore := (h before (SampleBuild.before_mem hmem)).distinct
    exact (setSample_distinct (storable_build before) hbefore nodeName sequenceNumber droppedSamples timestamp 0).mp
      (h _ hmem).distinct
  · exact oneEntryEach_stages build

def longName : Bytes := List.replicate nodeNameLength 110

theorem longName_duplicated : ¬ ∀ build : SampleBuild, ∀ stage ∈ build.stages, OneEntryEach stage.message := by
  intro h
  have hone := (h (.set (.set (.empty default) longName 1 0 100) longName 2 0 200) _ (SampleBuild.mem_stages _)).distinct
  exact absurd hone (by decide)

end ReferenceSystem
