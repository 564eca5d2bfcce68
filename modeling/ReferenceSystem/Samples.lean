import ReferenceSystem.Newest
import Mathlib.Data.Prod.Lex

/-!
# Messages and their sample history

`message_t` and the functions of `sample_management.hpp` that read and write
its history: `set_sample`, `merge_history_into_sample` and the accessors. The
history lives in a fixed array of `STATS_CAPACITY` slots of which the first
`size` are used, and is updated in place. `metadata_overflow_count` is passed
along explicitly, and `is_in_benchmark_mode` is an argument.
-/

namespace ReferenceSystem

abbrev Bytes := List UInt8

/-- The bytes of an ASCII string literal. -/
def ascii (s : String) : Bytes := s.toList.map fun c => UInt8.ofNat c.toNat

def nodeNameLength : Nat := 48

def statsCapacity : Nat := 63

structure TransmissionStats where
  timestamp : UInt64
  sequenceNumber : UInt32
  droppedSamples : UInt32
  nodeName : Vector UInt8 nodeNameLength
  deriving DecidableEq, Repr, Inhabited

/-- `Message4kb` without its payload `data`, which no function reads. -/
structure Message where
  size : Nat
  stats : Vector TransmissionStats statsCapacity
  provenanceNode : Bytes
  provenanceSequence : UInt32
  provenanceChannel : UInt32
  sourceKind : UInt32
  sourceSequence : UInt32
  sourceTimestampNs : UInt64
  deriving DecidableEq, Repr, Inhabited

/-- The name stored in an entry: the bytes before the first NUL, or all of them. -/
def TransmissionStats.name (e : TransmissionStats) : Bytes := e.nodeName.toList.takeWhile (· ≠ 0)

namespace Message

/-- Slot `i`. The source never reads past the array; the model reads a blank entry there. -/
def statsAt (m : Message) (i : Nat) : TransmissionStats := m.stats[i]?.getD default

def setStats (m : Message) (i : Nat) (e : TransmissionStats) : Message :=
  { m with stats := m.stats.setIfInBounds i e }

def used (m : Message) : List TransmissionStats := m.stats.toList.take m.size

end Message

def nodeNameAt (sample : Message) (idx : Nat) : Bytes := (sample.statsAt idx).name

/-- The first `k < n` whose stored name is `name`, or `n`: the lookup loop of
`set_sample` and of both loops of `merge_history_into_sample`. -/
def findEntry (sample : Message) (n : Nat) (name : Bytes) : Nat :=
  ((List.range n).find? fun k => nodeNameAt sample k = name).getD n

def isNewerNodeSnapshot (sequenceNumber : UInt32) (timestamp : UInt64) (droppedSamples : UInt32)
    (current : TransmissionStats) : Bool :=
  sequenceNumber > current.sequenceNumber ||
    (sequenceNumber == current.sequenceNumber &&
      (timestamp > current.timestamp ||
        (timestamp == current.timestamp && droppedSamples > current.droppedSamples)))

/-- Zero-fill the name field, then `memcpy` at most `NODE_NAME_LENGTH - 1` bytes of the name. -/
def storeName (nodeName : Bytes) : Vector UInt8 nodeNameLength :=
  ⟨((nodeName.take (nodeNameLength - 1)) ++
      List.replicate (nodeNameLength - (nodeName.take (nodeNameLength - 1)).length) 0).toArray, by
    simp [nodeNameLength]⟩

def setSample (benchmarkMode : Bool) (nodeName : Bytes) (sequenceNumber droppedSamples : UInt32)
    (timestamp : UInt64) : Message × Nat → Message × Nat
  | (sample, overflow) =>
    if benchmarkMode then (sample, overflow) else
    let i := findEntry sample sample.size nodeName
    if i < sample.size then
      if isNewerNodeSnapshot sequenceNumber timestamp droppedSamples (sample.statsAt i) then
        (sample.setStats i { sample.statsAt i with timestamp, sequenceNumber, droppedSamples }, overflow)
      else (sample, overflow)
    else if statsCapacity ≤ sample.size then (sample, overflow + 1)
    else
      let entry := { timestamp, sequenceNumber, droppedSamples, nodeName := storeName nodeName }
      ({ sample.setStats sample.size entry with size := sample.size + 1 }, overflow)

def getSampleSequenceNumber (benchmarkMode : Bool) (sample : Message) : UInt32 :=
  if benchmarkMode || sample.size == 0 then 0 else (sample.statsAt (sample.size - 1)).sequenceNumber

def getMissedSamplesAndUpdateSeqNr (benchmarkMode : Bool) (sample : Message) (sequenceNumber : UInt32) :
    UInt32 × UInt32 :=
  let updatedSeqNr := getSampleSequenceNumber benchmarkMode sample
  (if updatedSeqNr > sequenceNumber then updatedSeqNr - sequenceNumber - 1 else 0, updatedSeqNr)

/-! ## Merging -/

def isNewerEntry (e current : TransmissionStats) : Bool :=
  isNewerNodeSnapshot e.sequenceNumber e.timestamp e.droppedSamples current

/-- Body of the first loop at index `i`: entry `i` joins the first `uniqueSize`
slots of the array it is read from. -/
def compactStep : Message × Nat → Nat → Message × Nat
  | (sample, uniqueSize), i =>
    let existing := findEntry sample uniqueSize (nodeNameAt sample i)
    if existing = uniqueSize then
      (if uniqueSize ≠ i then sample.setStats uniqueSize (sample.statsAt i) else sample, uniqueSize + 1)
    else if isNewerEntry (sample.statsAt i) (sample.statsAt existing) then
      (sample.setStats existing (sample.statsAt i), uniqueSize)
    else (sample, uniqueSize)

def compact (sample : Message) : Message :=
  let result := (List.range sample.size).foldl compactStep (sample, 0)
  { result.1 with size := result.2 }

/-- The second loop over the remaining source indices, with its early return. -/
def absorb (source : Message) : List Nat → Message × Nat → Message × Nat
  | [], st => st
  | i :: is, (sample, overflow) =>
    let existing := findEntry sample sample.size (nodeNameAt source i)
    if existing = sample.size then
      if statsCapacity ≤ sample.size then (sample, overflow + 1)
      else absorb source is
        ({ sample.setStats sample.size (source.statsAt i) with size := sample.size + 1 }, overflow)
    else if isNewerEntry (source.statsAt i) (sample.statsAt existing) then
      absorb source is (sample.setStats existing (source.statsAt i), overflow)
    else absorb source is (sample, overflow)

def mergeHistoryIntoSample (benchmarkMode : Bool) (source : Message) : Message × Nat → Message × Nat
  | (sample, overflow) =>
    if benchmarkMode then (sample, overflow)
    else absorb source (List.range source.size) (compact sample, overflow)

/-! ## The order of snapshots -/

abbrev Snapshot := ℕ ×ₗ ℕ ×ₗ ℕ

def TransmissionStats.snapshot (e : TransmissionStats) : Snapshot :=
  toLex (e.sequenceNumber.toNat, toLex (e.timestamp.toNat, e.droppedSamples.toNat))

theorem isNewerEntry_iff (e a : TransmissionStats) :
    isNewerEntry e a = true ↔ a.snapshot < e.snapshot := by
  simp only [isNewerEntry, isNewerNodeSnapshot, TransmissionStats.snapshot, Prod.Lex.toLex_lt_toLex,
    Bool.or_eq_true, Bool.and_eq_true, decide_eq_true_eq, beq_iff_eq, gt_iff_lt, UInt32.lt_iff_toNat_lt,
    UInt64.lt_iff_toNat_lt, ← UInt32.toNat_inj, ← UInt64.toNat_inj]
  constructor
  · rintro (h | ⟨h, h' | ⟨h', h''⟩⟩)
    · exact Or.inl h
    · exact Or.inr ⟨h.symm, Or.inl h'⟩
    · exact Or.inr ⟨h.symm, Or.inr ⟨h'.symm, h''⟩⟩
  · rintro (h | ⟨h, h' | ⟨h', h''⟩⟩)
    · exact Or.inl h
    · exact Or.inr ⟨h.symm, Or.inl h'⟩
    · exact Or.inr ⟨h.symm, Or.inr ⟨h'.symm, h''⟩⟩

/-! ## Stored names -/

theorem storeName_toList (nodeName : Bytes) (h : nodeName.length < nodeNameLength) :
    (storeName nodeName).toList = nodeName ++ List.replicate (nodeNameLength - nodeName.length) 0 := by
  have : nodeName.take (nodeNameLength - 1) = nodeName := List.take_of_length_le (by omega)
  simp only [storeName, this]
  rfl

theorem name_storeName {timestamp : UInt64} {sequenceNumber droppedSamples : UInt32} {nodeName : Bytes}
    (h : nodeName.length < nodeNameLength) (h0 : (0 : UInt8) ∉ nodeName) :
    (TransmissionStats.mk timestamp sequenceNumber droppedSamples (storeName nodeName)).name = nodeName := by
  unfold TransmissionStats.name
  have hall : ∀ b ∈ nodeName, decide (b ≠ 0) = true := fun b hb =>
    decide_eq_true fun e => h0 (e ▸ hb)
  rw [storeName_toList nodeName h, List.takeWhile_append_of_pos hall]
  have : nodeNameLength - nodeName.length = (nodeNameLength - nodeName.length - 1) + 1 := by omega
  rw [this, List.replicate_succ, List.takeWhile_cons_of_neg (by simp), List.append_nil]

end ReferenceSystem
