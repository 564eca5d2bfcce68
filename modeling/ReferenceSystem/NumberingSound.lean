import Mathlib.Data.List.Induction
import ReferenceSystem.TrackingSound

/-!
# Record numbers

Events and delivery reports of a producer draw their numbers from one counter,
which every kind of call may create. The counter is always the number of
records already written for the producer, so the numbers are the positions of
the records among those of their producer.
-/

namespace ReferenceSystem

namespace TrackingWriter

theorem state_call_other {w : TrackingWriter} {c : WriterCall} {p : Bytes} (h : p ≠ c.producer) :
    (w.call c).state p = w.state p := by
  cases c with
  | registerProducer producer => exact state_register w producer p
  | beginCallback producer entryNs =>
    unfold call beginCallback
    rw [state_update]
    exact if_neg h
  | endCallback producer token =>
    unfold call
    rw [state_endCallback]
    exact if_neg h
  | writeEvent producer timestampNs event =>
    unfold call writeEvent
    rw [state_write]
    exact if_neg h
  | reportDelivery producer nowNs =>
    unfold call reportDelivery
    rw [state_write]
    exact if_neg h

def records (w : TrackingWriter) (producer : Bytes) : List TrackingRecord :=
  w.written.filter (·.producer = producer)

/-- The records of every producer are numbered in the order in which they were written. -/
structure Numbered (bootId instanceId : Bytes) (w : TrackingWriter) : Prop where
  boot : w.bootId = bootId
  instances : w.instanceId = instanceId
  next : ∀ p, (w.state p).nextRecord = (w.records p).length
  identity : ∀ p k (r : TrackingRecord), (w.records p)[k]? = some r →
    r.recordSeq = k ∧ r.instanceId = instanceId ∧ r.bootId = bootId

theorem Numbered.write {bootId instanceId : Bytes} {w : TrackingWriter} (h : Numbered bootId instanceId w)
    (producer : Bytes) (content : TrackingContent) : Numbered bootId instanceId (w.write producer content) := by
  have hrecords : ∀ p, (w.write producer content).records p = if p = producer then
      w.records p ++ [⟨producer, w.instanceId, w.bootId, (w.state producer).nextRecord, content⟩] else w.records p := by
    intro p
    unfold records TrackingWriter.write
    rw [List.filter_append]
    by_cases hp : p = producer
    · simp [hp]
    · simp [hp, Ne.symm hp]
  refine ⟨h.boot, h.instances, fun p => ?_, fun p k r hr => ?_⟩
  · rw [state_write, hrecords]
    by_cases hp : p = producer
    · simp [hp, h.next]
    · simp [hp, h.next]
  · rw [hrecords] at hr
    by_cases hp : p = producer
    · rw [if_pos hp] at hr
      rcases getElem?_snoc_cases hr with ⟨hk, rfl⟩ | ⟨_, hr⟩
      · exact ⟨by rw [hk, hp]; exact h.next producer, h.instances, h.boot⟩
      · exact h.identity p k r hr
    · rw [if_neg hp] at hr
      exact h.identity p k r hr

theorem Numbered.call {bootId instanceId : Bytes} {w : TrackingWriter} (h : Numbered bootId instanceId w)
    (c : WriterCall) : Numbered bootId instanceId (w.call c) := by
  cases c with
  | registerProducer producer =>
    refine ⟨h.boot, h.instances, fun p => ?_, h.identity⟩
    unfold TrackingWriter.call
    rw [state_register]
    exact h.next p
  | beginCallback producer entryNs =>
    refine ⟨h.boot, h.instances, fun p => ?_, h.identity⟩
    unfold TrackingWriter.call beginCallback
    rw [state_update]
    by_cases hp : p = producer
    · rw [if_pos hp]; exact h.next p
    · rw [if_neg hp]; exact h.next p
  | endCallback producer token =>
    have hkeep : (w.endCallback producer token).bootId = w.bootId ∧
        (w.endCallback producer token).instanceId = w.instanceId ∧
        (w.endCallback producer token).written = w.written := by
      unfold endCallback
      split <;> exact ⟨rfl, rfl, rfl⟩
    have hrecords : ∀ p, (w.endCallback producer token).records p = w.records p := by
      intro p
      unfold records
      rw [hkeep.2.2]
    refine ⟨hkeep.1.trans h.boot, hkeep.2.1.trans h.instances, fun p => ?_, fun p k r hr => ?_⟩
    · unfold TrackingWriter.call
      rw [hrecords, state_endCallback]
      by_cases hp : p = producer
      · rw [if_pos hp]; exact h.next p
      · rw [if_neg hp]; exact h.next p
    · unfold TrackingWriter.call at hr
      rw [hrecords] at hr
      exact h.identity p k r hr
  | writeEvent producer timestampNs event => exact h.write producer _
  | reportDelivery producer nowNs => exact h.write producer _

theorem numbered_calls (bootId instanceId : Bytes) (cs : List WriterCall) :
    Numbered bootId instanceId (({ bootId, instanceId } : TrackingWriter).calls cs) := by
  have key : ∀ (cs : List WriterCall) (w : TrackingWriter), Numbered bootId instanceId w →
      Numbered bootId instanceId (w.calls cs) := by
    intro cs
    induction cs with
    | nil => exact fun w h => h
    | cons c cs ih => exact fun w h => ih (w.call c) (h.call c)
  apply key
  exact ⟨rfl, rfl, fun p => rfl, fun p k r hr => by cases hr⟩

end TrackingWriter

/-! ## Texts -/

theorem findText_spec {pattern text : Bytes} {i : Nat} (h : findText pattern text = some i) :
    text = text.take i ++ pattern ++ text.drop (i + pattern.length) := by
  have hpre : pattern.isPrefixOf (text.drop i) = true := by
    unfold findText at h
    have := List.find?_some h
    simpa using this
  obtain ⟨rest, hrest⟩ := List.isPrefixOf_iff_prefix.mp hpre
  have hdrop : text.drop (i + pattern.length) = rest := by
    rw [← List.drop_drop, ← hrest, List.drop_left]
  rw [hdrop, List.append_assoc, hrest, List.take_append_drop]

theorem brace_raiseSchema (event : Bytes) : (125 : UInt8) ∈ raiseSchema event ↔ (125 : UInt8) ∈ event := by
  unfold raiseSchema
  simp only
  split
  · rfl
  · rename_i i hi
    have hold : (125 : UInt8) ∉ ascii "\"schema\":1" := by decide
    have hnew : (125 : UInt8) ∉ ascii "\"schema\":2" := by decide
    conv_rhs => rw [findText_spec hi]
    simp only [List.mem_append, hold, hnew, or_false]

theorem rfindByte_none {c : UInt8} {text : Bytes} : rfindByte c text = none ↔ c ∉ text := by
  unfold rfindByte
  rw [List.find?_eq_none]
  constructor
  · intro h hc
    obtain ⟨i, hi⟩ := List.mem_iff_getElem?.mp hc
    have hlt := (List.getElem?_eq_some_iff.mp hi).1
    exact h i (by simpa using hlt) (by simpa using hi)
  · intro h i _ hi
    exact h (List.mem_of_getElem? (by simpa using hi))

theorem rfindByte_snoc (c : UInt8) (text : Bytes) (last : UInt8) :
    rfindByte c (text ++ [last]) = if last = c then some text.length else rfindByte c text := by
  unfold rfindByte
  rw [List.length_append, List.length_singleton, List.range_succ, List.reverse_append]
  by_cases h : last = c
  · simp [h]
  · have hrest : ∀ {l : List Nat}, (∀ i ∈ l, i < text.length) →
        l.find? (fun i => (text ++ [last])[i]? = some c) = l.find? fun i => text[i]? = some c := by
      intro l hl
      induction l with
      | nil => rfl
      | cons i l ih =>
        rw [List.find?_cons, List.find?_cons, List.getElem?_append_left (hl i (List.mem_cons_self ..)),
          ih fun j hj => hl j (List.mem_cons_of_mem _ hj)]
    rw [List.reverse_singleton, List.singleton_append, List.find?_cons_of_neg (by simp [h]), if_neg h]
    exact hrest fun i hi => by simpa using hi

/-- What stands before and after the last position of a byte. -/
theorem rfindByte_spec {c : UInt8} (text : Bytes) : ∀ i, rfindByte c text = some i →
    ∃ after, text.drop i = c :: after ∧ c ∉ after := by
  induction text using List.reverseRecOn with
  | nil => intro i h; cases h
  | append_singleton text last ih =>
    intro i h
    rw [rfindByte_snoc] at h
    split at h
    · rename_i hlast
      cases h
      exact ⟨[], by rw [List.drop_left, hlast], List.not_mem_nil⟩
    · rename_i hlast
      obtain ⟨after, hdrop, hafter⟩ := ih i h
      have hlt : i < text.length := by
        rcases Nat.lt_or_ge i text.length with hlt | hge
        · exact hlt
        · rw [List.drop_eq_nil_of_le hge] at hdrop
          cases hdrop
      refine ⟨after ++ [last], ?_, by simp [hafter, Ne.symm hlast]⟩
      rw [List.drop_append_of_le_length (Nat.le_of_lt hlt), hdrop]
      rfl

/-- An event shows the identity before its last closing brace, a delivery report
between its kind and its time. -/
def TrackingRecord.Identified (r : TrackingRecord) (producer instanceId bootId : Bytes) (sequence : Nat) : Prop :=
  match r.content with
  | .event _ event => ∃ before after, raiseSchema event = before ++ 125 :: after ∧ (125 : UInt8) ∉ after ∧
      r.text = before ++ identityFields producer instanceId bootId sequence ++ 125 :: after
  | .delivery through => r.text = ascii "\x7b\"schema\":2,\"event\":\"delivery\"" ++
      identityFields producer instanceId bootId sequence ++ (ascii ",\"through_ns\":" ++ decimal through ++ ascii "\x7d")

theorem withIdentity_identified {event : Bytes} (h : (125 : UInt8) ∈ event) (producer instanceId bootId : Bytes)
    (sequence : Nat) :
    ∃ before after, raiseSchema event = before ++ 125 :: after ∧ (125 : UInt8) ∉ after ∧
      withIdentity event producer instanceId bootId sequence =
        before ++ identityFields producer instanceId bootId sequence ++ 125 :: after := by
  unfold withIdentity
  simp only
  cases hf : rfindByte 125 (raiseSchema event) with
  | none => exact absurd ((brace_raiseSchema event).mpr h) (rfindByte_none.mp hf)
  | some i =>
    obtain ⟨after, hdrop, hafter⟩ := rfindByte_spec _ i hf
    exact ⟨_, after, by rw [← hdrop, List.take_append_drop], hafter, by rw [← hdrop]⟩

theorem withIdentity_braceless {event : Bytes} (h : (125 : UInt8) ∉ event) (producer instanceId bootId : Bytes)
    (sequence : Nat) : withIdentity event producer instanceId bootId sequence = raiseSchema event := by
  have hf : rfindByte 125 (raiseSchema event) = none := by
    rw [rfindByte_none, brace_raiseSchema]
    exact h
  unfold withIdentity
  simp only [hf]

/-- **Records are numbered without gaps**: the `k`-th record written for a
producer shows the number `k`, the producer and the writer, unless it is an
event whose text has no closing brace, which is passed on without them; and
calls for other producers change nothing about this one. -/
theorem records_numbered (bootId instanceId : Bytes) (cs : List WriterCall) (producer : Bytes) :
    (∀ (k : Nat) (r : TrackingRecord),
      ((({ bootId, instanceId } : TrackingWriter).calls cs).written.filter (·.producer = producer))[k]? = some r →
      r.recordSeq = k ∧ r.instanceId = instanceId ∧ r.bootId = bootId ∧
      ((∃ timestampNs event, r.content = .event timestampNs event ∧ (125 : UInt8) ∉ event ∧
          r.text = raiseSchema event) ∨
        r.Identified producer instanceId bootId (k % 2 ^ 64))) ∧
    ∀ c : WriterCall, c.producer ≠ producer →
      ((({ bootId, instanceId } : TrackingWriter).calls cs).call c).state producer =
        (({ bootId, instanceId } : TrackingWriter).calls cs).state producer := by
  refine ⟨fun k r hr => ?_, fun c hc => TrackingWriter.state_call_other (Ne.symm hc)⟩
  obtain ⟨hseq, hinst, hboot⟩ := (TrackingWriter.numbered_calls bootId instanceId cs).identity producer k r hr
  have hproducer : r.producer = producer := by
    simpa using (List.mem_filter.mp (List.mem_of_getElem? hr)).2
  refine ⟨hseq, hinst, hboot, ?_⟩
  cases hcontent : r.content with
  | delivery through =>
    right
    unfold TrackingRecord.Identified TrackingRecord.text
    simp only [hcontent, hproducer, hinst, hboot, hseq, List.append_assoc]
  | event timestampNs event =>
    have htext : r.text = withIdentity event producer instanceId bootId (k % 2 ^ 64) := by
      unfold TrackingRecord.text
      simp only [hcontent, hproducer, hinst, hboot, hseq]
    by_cases hbrace : (125 : UInt8) ∈ event
    · right
      unfold TrackingRecord.Identified
      rw [hcontent, htext]
      exact withIdentity_identified hbrace ..
    · left
      refine ⟨timestampNs, event, rfl, hbrace, ?_⟩
      rw [htext]
      exact withIdentity_braceless hbrace ..

theorem braceless_unidentified : ¬ ∀ (bootId instanceId : Bytes) (cs : List WriterCall) (producer : Bytes) (k : Nat)
    (r : TrackingRecord),
    ((({ bootId, instanceId } : TrackingWriter).calls cs).written.filter (·.producer = producer))[k]? = some r →
    ∃ before after, r.text = before ++ identityFields producer instanceId bootId k ++ after := by
  intro h
  obtain ⟨before, after, heq⟩ := h [] [] [.writeEvent (ascii "Node") 0 (ascii "started")] (ascii "Node") 0
    ⟨ascii "Node", [], [], 0, .event 0 (ascii "started")⟩ (by decide)
  have hlen := congrArg List.length heq
  have htext : (TrackingRecord.text ⟨ascii "Node", [], [], 0, .event 0 (ascii "started")⟩).length = 7 := by decide
  have hfields : (identityFields (ascii "Node") [] [] 0).length = 60 := by decide
  rw [htext, List.length_append, List.length_append, hfields] at hlen
  omega

end ReferenceSystem
