import ReferenceSystem.Samples

/-!
# The in-place merge against the keyed list

The array loops of `merge_history_into_sample` and `set_sample` are shown to
compute `newest` and the bounded merge on the list of used entries. The first
loop overwrites the array it is still reading: its invariant is that the
compacted prefix holds the newest entries of what has been read, and that
nothing from the read index on has been touched (`compact_upTo`).
-/

namespace ReferenceSystem

/-! ## Slots -/

namespace Message

def slots (m : Message) (n : Nat) : List TransmissionStats := m.stats.toList.take n

theorem used_eq (m : Message) : m.used = m.slots m.size := rfl

theorem getElem?_slots (m : Message) {n k : Nat} (hn : n ≤ statsCapacity) (hk : k < n) :
    (m.slots n)[k]? = some (m.statsAt k) := by
  have hlt : k < statsCapacity := by omega
  rw [slots, List.getElem?_take_of_lt hk, Vector.getElem?_toList, statsAt, Vector.getElem?_eq_getElem hlt]
  rfl

theorem length_slots (m : Message) {n : Nat} (hn : n ≤ statsCapacity) : (m.slots n).length = n := by
  rw [slots, List.length_take, Vector.length_toList, Nat.min_eq_left hn]

theorem length_used (m : Message) (h : m.size ≤ statsCapacity) : m.used.length = m.size :=
  m.length_slots h

theorem slots_setStats (m : Message) (n k : Nat) (e : TransmissionStats) :
    (m.setStats k e).slots n = (m.slots n).set k e := by
  simp only [slots, setStats, Vector.toList_setIfInBounds, List.take_set]

theorem statsAt_setStats_ne (m : Message) {j k : Nat} (e : TransmissionStats) (h : k ≠ j) :
    (m.setStats k e).statsAt j = m.statsAt j := by
  simp [statsAt, setStats, h]

theorem slots_succ (m : Message) {n : Nat} (hn : n < statsCapacity) :
    m.slots (n + 1) = m.slots n ++ [m.statsAt n] := by
  have : m.stats.toList[n]? = some (m.statsAt n) := by
    rw [Vector.getElem?_toList, statsAt, Vector.getElem?_eq_getElem hn]; rfl
  rw [slots, List.take_add_one, this]; rfl

theorem slots_push (m : Message) {n : Nat} (hn : n < statsCapacity) (e : TransmissionStats) :
    (m.setStats n e).slots (n + 1) = m.slots n ++ [e] := by
  have hs : (m.setStats n e).statsAt n = e := by
    simp [statsAt, setStats, hn]
  have hk : (m.slots n).set n e = m.slots n :=
    List.set_eq_of_length_le (by rw [m.length_slots (Nat.le_of_lt hn)])
  rw [slots_succ _ hn, slots_setStats, hk, hs]

end Message

/-! ## The lookup loop -/

theorem findEntry_cases (m : Message) (n : Nat) (name : Bytes) :
    (findEntry m n name = n ∧ ∀ k < n, nodeNameAt m k ≠ name) ∨
    (findEntry m n name < n ∧ nodeNameAt m (findEntry m n name) = name ∧
      ∀ j < findEntry m n name, nodeNameAt m j ≠ name) := by
  unfold findEntry
  cases h : (List.range n).find? fun k => nodeNameAt m k = name with
  | none =>
    refine Or.inl ⟨rfl, fun k hk => ?_⟩
    simpa using List.find?_eq_none.mp h k (List.mem_range.mpr hk)
  | some k =>
    rw [List.find?_range_eq_some] at h
    simp only [decide_eq_true_eq, List.mem_range, Bool.not_eq_eq_eq_not, Bool.not_true,
      decide_eq_false_iff_not] at h
    exact Or.inr ⟨h.2.1, h.1, h.2.2⟩

theorem findEntry_le (m : Message) (n : Nat) (name : Bytes) : findEntry m n name ≤ n := by
  rcases findEntry_cases m n name with h | h <;> omega

theorem mem_slots {m : Message} {n : Nat} (hn : n ≤ statsCapacity) {e : TransmissionStats}
    (h : e ∈ m.slots n) : ∃ k < n, m.statsAt k = e := by
  obtain ⟨k, hk⟩ := List.mem_iff_getElem?.mp h
  have hlt : k < n := by
    have := (List.getElem?_eq_some_iff.mp hk).1
    rwa [m.length_slots hn] at this
  rw [m.getElem?_slots hn hlt] at hk
  exact ⟨k, hlt, Option.some.inj hk⟩

theorem findEntry_absent {m : Message} {n : Nat} (hn : n ≤ statsCapacity) {name : Bytes} :
    findEntry m n name = n ↔ name ∉ (m.slots n).map (·.name) := by
  constructor
  · intro h hm
    obtain ⟨e, he, hname⟩ := List.mem_map.mp hm
    obtain ⟨k, hk, rfl⟩ := mem_slots hn he
    rcases findEntry_cases m n name with h' | h'
    · exact h'.2 k hk hname
    · omega
  · intro hm
    rcases findEntry_cases m n name with h' | h'
    · exact h'.1
    · refine absurd (List.mem_map.mpr ⟨m.statsAt (findEntry m n name), ?_, h'.2.1⟩) hm
      exact List.mem_of_getElem? (m.getElem?_slots hn h'.1)

theorem upsert_slots {m : Message} {n : Nat} (hn : n ≤ statsCapacity) {e : TransmissionStats}
    (h : findEntry m n e.name ≠ n) :
    upsert (·.name) isNewerEntry (m.slots n) e =
      if isNewerEntry e (m.statsAt (findEntry m n e.name))
      then (m.setStats (findEntry m n e.name) e).slots n else m.slots n := by
  rcases findEntry_cases m n e.name with h' | ⟨hlt, hname, hfirst⟩
  · exact absurd h'.1 h
  · rw [Message.slots_setStats]
    refine upsert_at _ _ (m.getElem?_slots hn hlt) hname fun j hj b hb => ?_
    rw [m.getElem?_slots hn (by omega)] at hb
    cases hb
    exact hfirst j hj

/-! ## The first loop -/

/-- After reading `i` entries: the prefix of length `u` holds the newest of
them, and the slots from `i` on are those of the original message. -/
structure Compacting (m₀ : Message) (i : Nat) (m : Message) (u : Nat) : Prop where
  le : u ≤ i
  compacted : m.slots u = newest (·.name) isNewerEntry (m₀.slots i)
  unread : ∀ j, i ≤ j → m.statsAt j = m₀.statsAt j

theorem compactStep_spec {m₀ m : Message} {i u : Nat} (hi : i < statsCapacity) (h : Compacting m₀ i m u) :
    Compacting m₀ (i + 1) (compactStep (m, u) i).1 (compactStep (m, u) i).2 := by
  have hle := h.le
  have hu : u ≤ statsCapacity := by omega
  have hread : newest (·.name) isNewerEntry (m₀.slots (i + 1)) =
      upsert (·.name) isNewerEntry (m.slots u) (m.statsAt i) := by
    rw [m₀.slots_succ hi, newest_append, ← h.compacted, h.unread i (Nat.le_refl i)]; rfl
  simp only [compactStep]
  by_cases hx : findEntry m u (nodeNameAt m i) = u
  · rw [if_pos hx]
    have hfresh := upsert_fresh (·.name) isNewerEntry ((findEntry_absent hu).mp hx)
    by_cases hui : u = i
    · -- the prefix already ends at `i`: nothing moves
      subst hui
      simp only [ne_eq, not_true_eq_false, ite_false]
      refine ⟨Nat.le_refl _, ?_, fun j hj => h.unread j (by omega)⟩
      rw [hread, hfresh, m.slots_succ hi]
    · simp only [ne_eq, hui, not_false_eq_true, ite_true]
      refine ⟨by omega, ?_, fun j hj => ?_⟩
      · rw [hread, hfresh, m.slots_push (by omega)]
      · rw [m.statsAt_setStats_ne _ (by omega)]; exact h.unread j (by omega)
  · rw [if_neg hx]
    have hlt : findEntry m u (nodeNameAt m i) < u := by
      have := findEntry_le m u (nodeNameAt m i); omega
    have hup := upsert_slots hu hx
    split
    · rename_i hn
      refine ⟨by simp only; omega, ?_, fun j hj => ?_⟩
      · rw [hread, hup]; exact (if_pos hn).symm
      · rw [m.statsAt_setStats_ne _ (by omega)]; exact h.unread j (by omega)
    · rename_i hn
      refine ⟨by simp only; omega, ?_, fun j hj => h.unread j (by omega)⟩
      rw [hread, hup]; exact (if_neg hn).symm

theorem compact_upTo (m : Message) : ∀ n ≤ statsCapacity,
    Compacting m n ((List.range n).foldl compactStep (m, 0)).1 ((List.range n).foldl compactStep (m, 0)).2
  | 0, _ => ⟨Nat.le_refl _, rfl, fun _ _ => rfl⟩
  | n + 1, hn => by
    rw [List.range_succ, List.foldl_append]
    exact compactStep_spec (by omega) (compact_upTo m n (by omega))

theorem used_compact {m : Message} (h : m.size ≤ statsCapacity) :
    (compact m).used = newest (·.name) isNewerEntry m.used ∧ (compact m).size ≤ m.size := by
  have := compact_upTo m m.size h
  exact ⟨this.compacted, this.le⟩

/-! ## The second loop -/

theorem used_eq_map (m : Message) (h : m.size ≤ statsCapacity) :
    m.used = (List.range m.size).map m.statsAt := by
  refine List.ext_getElem? fun k => ?_
  by_cases hk : k < m.size
  · rw [m.used_eq, m.getElem?_slots h hk]
    simp [hk]
  · rw [List.getElem?_eq_none (by rw [m.length_used h]; omega), List.getElem?_eq_none (by simp; omega)]

theorem absorb_spec (source : Message) : ∀ (is : List Nat) (m : Message) (overflow : Nat), m.size ≤ statsCapacity →
    let merged := absorbUpTo (·.name) isNewerEntry statsCapacity m.used (is.map source.statsAt)
    (absorb source is (m, overflow)).1.used = merged.1 ∧
      (absorb source is (m, overflow)).1.size ≤ statsCapacity ∧
      (absorb source is (m, overflow)).2 = overflow + if merged.2 then 1 else 0
  | [], m, overflow, h => ⟨rfl, h, rfl⟩
  | i :: is, m, overflow, h => by
    simp only [absorb, List.map_cons, absorbUpTo]
    by_cases hx : findEntry m m.size (nodeNameAt source i) = m.size
    · have hnew : ¬ (source.statsAt i).name ∈ m.used.map (·.name) := (findEntry_absent h).mp hx
      simp only [hx, hnew, ite_true, ite_false, m.length_used h]
      by_cases hfull : statsCapacity ≤ m.size
      · simp only [hfull, ite_true, and_true, true_and]
        exact h
      · simp only [hfull, ite_false]
        have hpush := m.slots_push (Nat.lt_of_not_le hfull) (source.statsAt i)
        have := absorb_spec source is
          { m.setStats m.size (source.statsAt i) with size := m.size + 1 } overflow (by simp only; omega)
        rw [show ({ m.setStats m.size (source.statsAt i) with size := m.size + 1 } : Message).used =
          m.used ++ [source.statsAt i] from hpush] at this
        exact this
    · have hknown : (source.statsAt i).name ∈ m.used.map (·.name) := by
        by_contra hc; exact hx ((findEntry_absent h).mpr hc)
      have hup := upsert_slots h hx
      simp only [hx, hknown, ite_true, ite_false]
      by_cases hn : isNewerEntry (source.statsAt i) (m.statsAt (findEntry m m.size (nodeNameAt source i))) = true
      · rw [if_pos hn]
        have := absorb_spec source is
          (m.setStats (findEntry m m.size (nodeNameAt source i)) (source.statsAt i)) overflow h
        rw [m.used_eq, hup, show findEntry m m.size (source.statsAt i).name =
          findEntry m m.size (nodeNameAt source i) from rfl, if_pos hn]
        exact this
      · rw [if_neg hn]
        have := absorb_spec source is m overflow h
        rw [m.used_eq, hup, show findEntry m m.size (source.statsAt i).name =
          findEntry m m.size (nodeNameAt source i) from rfl, if_neg hn]
        exact this

/-! ## The merge -/

def mergedHistory (m source : Message) : List TransmissionStats × Bool :=
  absorbUpTo (·.name) isNewerEntry statsCapacity (newest (·.name) isNewerEntry m.used) source.used

/-- **The in-place merge computes the bounded keyed merge.** -/
theorem merge_spec {m source : Message} (overflow : Nat) (hm : m.size ≤ statsCapacity)
    (hs : source.size ≤ statsCapacity) :
    (mergeHistoryIntoSample false source (m, overflow)).1.used = (mergedHistory m source).1 ∧
      (mergeHistoryIntoSample false source (m, overflow)).1.size ≤ statsCapacity ∧
      (mergeHistoryIntoSample false source (m, overflow)).2 =
        overflow + if (mergedHistory m source).2 then 1 else 0 := by
  obtain ⟨hused, hle⟩ := used_compact hm
  have := absorb_spec source (List.range source.size) (compact m) overflow (hle.trans hm)
  rw [hused, ← used_eq_map source hs] at this
  exact this

def jointNames (m source : Message) : List Bytes :=
  (m.used.map (·.name) ++ source.used.map (·.name)).eraseDups

theorem jointNames_eq (m source : Message) :
    jointNames m source = ((newest (·.name) isNewerEntry m.used).map (·.name) ++ source.used.map (·.name)).eraseDups := by
  rw [jointNames, keys_newest, List.eraseDups_append, List.eraseDups_append]
  rw [eraseDups_of_nodup (nodup_eraseDups (m.used.map (·.name))), removeAll_eraseDups]

theorem length_newest_le (m : Message) (h : m.size ≤ statsCapacity) :
    (newest (·.name) isNewerEntry m.used).length ≤ statsCapacity := by
  obtain ⟨hused, hle⟩ := used_compact h
  rw [← hused, (compact m).length_used (hle.trans h)]
  exact hle.trans h

theorem mergedHistory_room {m source : Message} (h : (jointNames m source).length ≤ statsCapacity) :
    mergedHistory m source = (newest (·.name) isNewerEntry (m.used ++ source.used), false) := by
  rw [newest_append]
  rw [jointNames_eq] at h
  exact absorbUpTo_room _ _ _ (nodup_keys_newest _ _ _) h

theorem mergedHistory_full {m source : Message} (hm : m.size ≤ statsCapacity)
    (h : statsCapacity < (jointNames m source).length) : (mergedHistory m source).2 = true := by
  rw [jointNames_eq] at h
  exact absorbUpTo_full _ _ _ (nodup_keys_newest _ _ _) (length_newest_le m hm) h

/-! ## Merging what is already covered -/

def DistinctNames (m : Message) : Prop := (m.used.map (·.name)).Nodup

theorem compact_of_distinct {m : Message} (h : m.size ≤ statsCapacity) (hd : DistinctNames m) : compact m = m := by
  have key : ∀ n ≤ m.size, (List.range n).foldl compactStep (m, 0) = (m, n) := by
    intro n
    induction n with
    | zero => intro _; rfl
    | succ n ih =>
      intro hn
      have hn' : n ≤ statsCapacity := by omega
      have hlast : m.slots (n + 1) = m.slots n ++ [m.statsAt n] := m.slots_succ (by omega)
      have hpre : ((m.slots (n + 1)).map (·.name)).Nodup := by
        refine hd.sublist (List.Sublist.map _ ?_)
        exact List.take_sublist_take_left hn
      have hfresh : findEntry m n (nodeNameAt m n) = n := by
        rw [findEntry_absent hn']
        rw [hlast, List.map_append, List.nodup_append] at hpre
        exact fun hm => hpre.2.2 _ hm _ (List.mem_singleton_self _) rfl
      rw [List.range_succ, List.foldl_append, ih (by omega)]
      simp [compactStep, hfresh]
  unfold compact
  rw [key m.size (Nat.le_refl _)]

def CoveredBy (source m : Message) : Prop :=
  ∀ e ∈ source.used, ∃ x ∈ m.used, x.name = e.name ∧ e.snapshot ≤ x.snapshot

theorem absorb_covered {m source : Message} (overflow : Nat) (h : m.size ≤ statsCapacity) (hd : DistinctNames m) :
    ∀ is : List Nat, (∀ i ∈ is, ∃ x ∈ m.used, x.name = nodeNameAt source i ∧
      (source.statsAt i).snapshot ≤ x.snapshot) → absorb source is (m, overflow) = (m, overflow)
  | [], _ => rfl
  | i :: is, hc => by
    obtain ⟨x, hx, hname, hle⟩ := hc i (List.mem_cons_self ..)
    have hknown : findEntry m m.size (nodeNameAt source i) ≠ m.size := fun he =>
      (findEntry_absent h).mp he (List.mem_map.mpr ⟨x, hx, hname⟩)
    have hold : isNewerEntry (source.statsAt i) (m.statsAt (findEntry m m.size (nodeNameAt source i))) ≠ true := by
      rcases findEntry_cases m m.size (nodeNameAt source i) with hf | ⟨hlt, hf, _⟩
      · exact absurd hf.1 hknown
      · have hmem : m.statsAt (findEntry m m.size (nodeNameAt source i)) ∈ m.used :=
          List.mem_of_getElem? (m.getElem?_slots h hlt)
        rw [List.inj_on_of_nodup_map hd hmem hx (hf.trans hname.symm)]
        exact fun hn => not_lt.mpr hle ((isNewerEntry_iff _ _).mp hn)
    simp only [absorb, hknown, ite_false, hold]
    exact absorb_covered overflow h hd is fun j hj => hc j (List.mem_cons_of_mem _ hj)

theorem merge_covered {m source : Message} (overflow : Nat) (hm : m.size ≤ statsCapacity)
    (hs : source.size ≤ statsCapacity) (hd : DistinctNames m) (hc : CoveredBy source m) :
    mergeHistoryIntoSample false source (m, overflow) = (m, overflow) := by
  show absorb source (List.range source.size) (compact m, overflow) = (m, overflow)
  rw [compact_of_distinct hm hd]
  refine absorb_covered overflow hm hd _ fun i hi => hc _ ?_
  rw [used_eq_map source hs]
  exact List.mem_map_of_mem hi

/-! ## Merging a list of messages -/

def mergeAll (sources : List Message) (st : Message × Nat) : Message × Nat :=
  sources.foldl (fun st source => mergeHistoryIntoSample false source st) st

def historyMap (m : Message) : Bytes → Option Snapshot := storedAt (·.name) (·.snapshot) m.used

theorem mergeAll_spec : ∀ (sources : List Message) (m : Message) (overflow : Nat), m.size ≤ statsCapacity →
    DistinctNames m → (∀ source ∈ sources, source.size ≤ statsCapacity) →
    (m.used.map (·.name) ++ sources.flatMap fun s => s.used.map (·.name)).eraseDups.length ≤ statsCapacity →
    (mergeAll sources (m, overflow)).1.used =
        newest (·.name) isNewerEntry (m.used ++ sources.flatMap fun s => s.used) ∧
      (mergeAll sources (m, overflow)).1.size ≤ statsCapacity ∧ (mergeAll sources (m, overflow)).2 = overflow
  | [], m, overflow, hm, hd, _, _ => by
    have := (used_compact hm).1
    rw [compact_of_distinct hm hd] at this
    simpa [mergeAll, hm] using this
  | source :: sources, m, overflow, hm, hd, hs, hroom => by
    have hs₁ := hs source (List.mem_cons_self ..)
    rw [List.flatMap_cons, ← List.append_assoc] at hroom
    have hjoint : (jointNames m source).length ≤ statsCapacity := by
      rw [List.eraseDups_append, List.length_append] at hroom
      exact (Nat.le_add_right _ _).trans hroom
    obtain ⟨hused, hsize, hover⟩ := merge_spec overflow hm hs₁
    rw [mergedHistory_room hjoint] at hused hover
    have hnames : (mergeHistoryIntoSample false source (m, overflow)).1.used.map (·.name) = jointNames m source := by
      rw [hused, keys_newest, jointNames, List.map_append]
    have hd' : DistinctNames (mergeHistoryIntoSample false source (m, overflow)).1 := by
      unfold DistinctNames; rw [hnames]; exact nodup_eraseDups _
    have ih := mergeAll_spec sources (mergeHistoryIntoSample false source (m, overflow)).1
      (mergeHistoryIntoSample false source (m, overflow)).2 hsize hd'
      (fun s hs' => hs s (List.mem_cons_of_mem _ hs')) (by
        rw [hnames, jointNames, List.eraseDups_append, eraseDups_of_nodup (nodup_eraseDups _), removeAll_eraseDups,
          ← List.eraseDups_append]
        exact hroom)
    refine ⟨?_, ih.2.1, ih.2.2.trans hover⟩
    refine ih.1.trans ?_
    rw [List.flatMap_cons, ← List.append_assoc, newest_append, newest_append _ _ (m.used ++ source.used), hused,
      newest_newest]

theorem mergeAll_empty {sources : List Message} {empty : Message} (overflow : Nat) (h0 : empty.size = 0)
    (hs : ∀ source ∈ sources, source.size ≤ statsCapacity)
    (hroom : (sources.flatMap fun s => s.used.map (·.name)).eraseDups.length ≤ statsCapacity) :
    (mergeAll sources (empty, overflow)).1.used = newest (·.name) isNewerEntry (sources.flatMap fun s => s.used) ∧
      (mergeAll sources (empty, overflow)).1.size ≤ statsCapacity ∧
      (mergeAll sources (empty, overflow)).2 = overflow := by
  have hused : empty.used = [] := by rw [Message.used, h0, List.take_zero]
  have hd : DistinctNames empty := by rw [DistinctNames, hused]; exact List.nodup_nil
  have := mergeAll_spec sources empty overflow (by omega) hd hs (by rw [hused]; exact hroom)
  rw [hused] at this
  exact this

/-! ## Writing the own sample -/

theorem setSample_fresh {m : Message} {nodeName : Bytes} (sequenceNumber droppedSamples : UInt32) (timestamp : UInt64)
    (overflow : Nat) (hroom : m.size < statsCapacity) (hfresh : nodeName ∉ m.used.map (·.name)) :
    let result := setSample false nodeName sequenceNumber droppedSamples timestamp (m, overflow)
    result.1.used = m.used ++ [⟨timestamp, sequenceNumber, droppedSamples, storeName nodeName⟩] ∧
      result.1.size = m.size + 1 ∧ result.2 = overflow := by
  have habsent : findEntry m m.size nodeName = m.size := (findEntry_absent (Nat.le_of_lt hroom)).mpr hfresh
  simp only [setSample, Bool.false_eq_true, ite_false, habsent, Nat.lt_irrefl, Nat.not_le.mpr hroom, and_true]
  exact m.slots_push hroom _

/-! ## The merge is a join -/

theorem merge_overflow_iff {m source : Message} (overflow : Nat) (hm : m.size ≤ statsCapacity)
    (hs : source.size ≤ statsCapacity) :
    (mergeHistoryIntoSample false source (m, overflow)).2 = overflow ↔
      (jointNames m source).length ≤ statsCapacity := by
  rw [(merge_spec overflow hm hs).2.2]
  constructor
  · intro h
    by_contra hc
    rw [mergedHistory_full hm (Nat.lt_of_not_le hc), if_pos rfl] at h
    omega
  · intro h
    rw [mergedHistory_room h]; rfl

/-- What one merge leaves behind when all names fit. -/
structure Joined (m source merged : Message) : Prop where
  distinct : DistinctNames merged
  names : ∀ name, name ∈ merged.used.map (·.name) ↔ name ∈ m.used.map (·.name) ∨ name ∈ source.used.map (·.name)
  origin : ∀ e ∈ merged.used, e ∈ m.used ∨ e ∈ source.used
  greatest : ∀ e ∈ merged.used, ∀ e', e' ∈ m.used ∨ e' ∈ source.used → e'.name = e.name → e'.snapshot ≤ e.snapshot
  order : merged.used.map (·.name) = jointNames m source

theorem merge_joined {m source : Message} (overflow : Nat) (hm : m.size ≤ statsCapacity)
    (hs : source.size ≤ statsCapacity) (hroom : (jointNames m source).length ≤ statsCapacity) :
    Joined m source (mergeHistoryIntoSample false source (m, overflow)).1 := by
  have hused := (merge_spec overflow hm hs).1
  rw [mergedHistory_room hroom] at hused
  have horder : (mergeHistoryIntoSample false source (m, overflow)).1.used.map (·.name) = jointNames m source := by
    rw [hused, keys_newest, jointNames, List.map_append]
  refine ⟨?_, ?_, ?_, ?_, horder⟩
  · rw [DistinctNames, horder]; exact nodup_eraseDups _
  · intro name
    rw [horder, jointNames, List.mem_eraseDups, List.mem_append]
  · intro e he
    rw [hused] at he
    exact List.mem_append.mp (mem_newest _ _ he)
  · intro e he e' he' hname
    rw [hused] at he
    exact newest_max _ isNewerEntry_iff he (List.mem_append.mpr he') hname

theorem mergeAll_perm {sources sources' : List Message} {empty : Message} (overflow : Nat) (h0 : empty.size = 0)
    (hs : ∀ source ∈ sources, source.size ≤ statsCapacity)
    (hroom : (sources.flatMap fun s => s.used.map (·.name)).eraseDups.length ≤ statsCapacity)
    (hp : sources.Perm sources') :
    historyMap (mergeAll sources (empty, overflow)).1 = historyMap (mergeAll sources' (empty, overflow)).1 := by
  have hroom' : (sources'.flatMap fun s => s.used.map (·.name)).eraseDups.length ≤ statsCapacity := by
    refine Nat.le_trans (Nat.le_of_eq (List.Perm.length_eq ?_)) hroom
    rw [List.perm_ext_iff_of_nodup (nodup_eraseDups _) (nodup_eraseDups _)]
    intro name
    simp only [List.mem_eraseDups, List.mem_flatMap, hp.mem_iff]
  have hused := (mergeAll_empty overflow h0 hs hroom).1
  have hused' := (mergeAll_empty overflow h0 (fun s h => hs s (hp.mem_iff.mpr h)) hroom').1
  unfold historyMap
  rw [hused, hused']
  refine storedAt_newest_congr _ isNewerEntry_iff fun e => ?_
  simp only [List.mem_flatMap, hp.mem_iff]

theorem mergeAll_again {sources : List Message} {empty : Message} (overflow : Nat) (h0 : empty.size = 0)
    (hs : ∀ source ∈ sources, source.size ≤ statsCapacity)
    (hroom : (sources.flatMap fun s => s.used.map (·.name)).eraseDups.length ≤ statsCapacity)
    {source : Message} (hmem : source ∈ sources) :
    mergeHistoryIntoSample false source (mergeAll sources (empty, overflow)) = mergeAll sources (empty, overflow) := by
  obtain ⟨hused, hsize, _⟩ := mergeAll_empty overflow h0 hs hroom
  generalize mergeAll sources (empty, overflow) = merged at hused hsize ⊢
  obtain ⟨m, count⟩ := merged
  refine merge_covered _ hsize (hs source hmem) ?_ ?_
  · unfold DistinctNames; rw [hused]; exact nodup_keys_newest _ _ _
  · intro e he
    simp only at hused
    rw [hused]
    exact foldl_covers _ isNewerEntry_iff _ (Or.inr (List.mem_flatMap.mpr ⟨source, hmem, he⟩))

/-- **Merging histories is a join**: one merge keeps every name with its
greatest snapshot and reports an overflow exactly when the names do not fit;
merging a list of messages does not depend on their order, and merging one of
them again changes nothing. -/
theorem mergeHistoryIntoSample_join :
    (∀ (m source : Message) (overflow : Nat), m.size ≤ statsCapacity → source.size ≤ statsCapacity →
      ((mergeHistoryIntoSample false source (m, overflow)).2 = overflow ↔
        (jointNames m source).length ≤ statsCapacity) ∧
      ((jointNames m source).length ≤ statsCapacity →
        Joined m source (mergeHistoryIntoSample false source (m, overflow)).1)) ∧
    (∀ (sources : List Message) (empty : Message) (overflow : Nat), empty.size = 0 →
      (∀ source ∈ sources, source.size ≤ statsCapacity) →
      (sources.flatMap fun s => s.used.map (·.name)).eraseDups.length ≤ statsCapacity →
      (∀ sources', sources.Perm sources' →
        historyMap (mergeAll sources (empty, overflow)).1 = historyMap (mergeAll sources' (empty, overflow)).1) ∧
      ∀ source ∈ sources, mergeHistoryIntoSample false source (mergeAll sources (empty, overflow)) =
        mergeAll sources (empty, overflow)) :=
  ⟨fun _ _ overflow hm hs => ⟨merge_overflow_iff overflow hm hs, merge_joined overflow hm hs⟩,
    fun _ _ overflow h0 hs hroom =>
      ⟨fun _ hp => mergeAll_perm overflow h0 hs hroom hp, fun _ hmem => mergeAll_again overflow h0 hs hroom hmem⟩⟩

def olderSample : Message := (setSample false (ascii "FrontLidarDriver") 4 1 900 (default, 0)).1

def newerSample : Message := (setSample false (ascii "FrontLidarDriver") 5 2 100 (default, 0)).1

theorem merge_older_newer :
    Joined olderSample newerSample (mergeHistoryIntoSample false newerSample (olderSample, 0)).1 ∧
    historyMap (mergeAll [olderSample, newerSample] (default, 0)).1 =
      historyMap (mergeAll [newerSample, olderSample] (default, 0)).1 ∧
    mergeHistoryIntoSample false olderSample (mergeAll [olderSample, newerSample] (default, 0)) =
      mergeAll [olderSample, newerSample] (default, 0) := by
  have hjoin := mergeHistoryIntoSample_join.1 olderSample newerSample 0 (by decide) (by decide)
  have hall := mergeHistoryIntoSample_join.2 [olderSample, newerSample] default 0 rfl
    (by decide) (by decide)
  exact ⟨hjoin.2 (by decide), hall.1 _ (List.Perm.swap ..), hall.2 _ (List.mem_cons_self ..)⟩

end ReferenceSystem
