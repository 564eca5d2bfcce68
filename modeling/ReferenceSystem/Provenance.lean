import ReferenceSystem.Samples

/-!
# Provenance

The source, identity and record types of `provenance.hpp`. Records are kept as
data; their JSON text is a rendering of these fields.
-/

namespace ReferenceSystem

structure ProvenanceSource where
  kind : UInt32 := 0
  sequence : UInt32 := 0
  timestampNs : UInt64 := 0
  deriving DecidableEq, Repr, Inhabited

def ProvenanceSource.valid (s : ProvenanceSource) : Bool := s.kind ≠ 0

structure ProvenanceMessage where
  name : Bytes
  sequence : UInt32
  channel : UInt32
  deriving DecidableEq, Repr

def provenanceSource (message : Message) : ProvenanceSource :=
  ⟨message.sourceKind, message.sourceSequence, message.sourceTimestampNs⟩

def oldestProvenanceSource (sources : List ProvenanceSource) : ProvenanceSource :=
  sources.foldl (fun oldest source =>
    if source.valid && (!oldest.valid || source.timestampNs < oldest.timestampNs) then source else oldest) {}

def setProvenance (message : Message) (node : Bytes) (sequence channel : UInt32) (source : ProvenanceSource) :
    Message :=
  { message with
    provenanceNode := node
    provenanceSequence := sequence
    provenanceChannel := channel
    sourceKind := source.kind
    sourceSequence := source.sequence
    sourceTimestampNs := source.timestampNs }

def provenanceIdentity (message : Message) : ProvenanceMessage :=
  ⟨message.provenanceNode, message.provenanceSequence, message.provenanceChannel⟩

/-- What `emit_provenance_source`, `emit_provenance_link` and
`emit_provenance_sink` write. -/
inductive Record where
  | source (node : Bytes) (sequence kind : UInt32) (timestampNs : UInt64)
  | link (node : Bytes) (sequence channel : UInt32) (timestampNs : UInt64)
      (inputs : List (UInt32 × ProvenanceMessage)) (source : ProvenanceSource) (timer : Bool)
  | sink (node : Bytes) (sequence : UInt32) (timestampNs : UInt64) (input : ProvenanceMessage)
      (source : ProvenanceSource)
  deriving DecidableEq, Repr

namespace Record

/-- Link and sink records carry the time at which they are emitted, a source
record that of its message. -/
def stamp (now : UInt64) : Record → Record
  | .source node sequence kind t => .source node sequence kind t
  | .link node sequence channel _ inputs origin timer => .link node sequence channel now inputs origin timer
  | .sink node sequence _ input origin => .sink node sequence now input origin

def isSource : Record → Bool
  | .source .. => true
  | _ => false

/-- The identity of the message a source or link record describes. A source
record is always for channel 0. -/
def describes : Record → Option ProvenanceMessage
  | .source node sequence _ _ => some ⟨node, sequence, 0⟩
  | .link node sequence channel .. => some ⟨node, sequence, channel⟩
  | .sink .. => none

def sinkKey : Record → Option (Bytes × UInt32)
  | .sink node sequence .. => some (node, sequence)
  | _ => none

def inputIdentities : Record → List ProvenanceMessage
  | .source .. => []
  | .link _ _ _ _ inputs _ _ => inputs.map Prod.snd
  | .sink _ _ _ input _ => [input]

end Record

/-! ## The oldest source -/

theorem oldest_foldl (sources : List ProvenanceSource) : ∀ (init : ProvenanceSource),
    let oldest := sources.foldl (fun oldest source =>
      if source.valid && (!oldest.valid || source.timestampNs < oldest.timestampNs) then source else oldest) init
    (oldest = init ∨ (oldest ∈ sources ∧ oldest.valid = true)) ∧
      (init.valid = true → oldest.valid = true ∧ oldest.timestampNs ≤ init.timestampNs) ∧
      ∀ source ∈ sources, source.valid = true → oldest.valid = true ∧ oldest.timestampNs ≤ source.timestampNs := by
  induction sources with
  | nil => exact fun init => ⟨Or.inl rfl, fun h => ⟨h, UInt64.le_refl _⟩, fun _ h => absurd h List.not_mem_nil⟩
  | cons a sources ih =>
    intro init
    simp only [List.foldl_cons]
    by_cases ht : (a.valid && (!init.valid || decide (a.timestampNs < init.timestampNs))) = true
    · simp only [ht, ite_true]
      simp only [Bool.and_eq_true, Bool.or_eq_true, Bool.not_eq_true', decide_eq_true_eq] at ht
      obtain ⟨hmem, hinit, hall⟩ := ih a
      refine ⟨Or.inr ?_, fun hv => ?_, fun source hs hv => ?_⟩
      · rcases hmem with h | ⟨h, hv⟩
        · rw [h]; exact ⟨List.mem_cons_self .., ht.1⟩
        · exact ⟨List.mem_cons_of_mem _ h, hv⟩
      · have hlt := ht.2.resolve_left (by simp [hv])
        exact ⟨(hinit ht.1).1, UInt64.le_trans (hinit ht.1).2 (UInt64.le_of_lt hlt)⟩
      · rcases List.mem_cons.mp hs with rfl | hs
        · exact hinit hv
        · exact hall source hs hv
    · simp only [ht]
      simp only [Bool.and_eq_true, Bool.or_eq_true, Bool.not_eq_true', decide_eq_true_eq, not_and, not_or,
        UInt64.not_lt] at ht
      obtain ⟨hmem, hinit, hall⟩ := ih init
      refine ⟨hmem.imp_right fun h => ⟨List.mem_cons_of_mem _ h.1, h.2⟩, hinit, fun source hs hv => ?_⟩
      rcases List.mem_cons.mp hs with rfl | hs
      · have hi : init.valid = true := by simpa using (ht hv).1
        exact ⟨(hinit hi).1, UInt64.le_trans (hinit hi).2 (ht hv).2⟩
      · exact hall source hs hv

theorem oldest_valid_iff (sources : List ProvenanceSource) :
    (oldestProvenanceSource sources).valid = true ↔ ∃ source ∈ sources, source.valid = true := by
  obtain ⟨hmem, _, hall⟩ := oldest_foldl sources {}
  constructor
  · intro h
    rcases hmem with h0 | h0
    · rw [oldestProvenanceSource, h0] at h; exact absurd h (by decide)
    · exact ⟨_, h0.1, h0.2⟩
  · rintro ⟨source, hs, hv⟩
    exact (hall source hs hv).1

theorem oldest_mem {sources : List ProvenanceSource} (h : (oldestProvenanceSource sources).valid = true) :
    oldestProvenanceSource sources ∈ sources := by
  rcases (oldest_foldl sources {}).1 with h0 | h0
  · rw [oldestProvenanceSource, h0] at h; exact absurd h (by decide)
  · exact h0.1

theorem oldest_le {sources : List ProvenanceSource} {source : ProvenanceSource} (hs : source ∈ sources)
    (hv : source.valid = true) : (oldestProvenanceSource sources).timestampNs ≤ source.timestampNs :=
  ((oldest_foldl sources {}).2.2 source hs hv).2

end ReferenceSystem
