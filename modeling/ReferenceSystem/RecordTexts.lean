import ReferenceSystem.Roots
import ReferenceSystem.Provenance
import ReferenceSystem.Schedule

/-!
# The texts of records

The JSON texts that the system writes by hand: the completion and source
records of `sample_management.hpp`, the provenance records of `provenance.hpp`
and the application records of `source_schedule.hpp`. The two counters that
every structured record shows are passed in.
-/

namespace ReferenceSystem

/-! ## Structured records -/

def pipeBuf : Nat := 4096

def hexDigits : Bytes := ascii "0123456789abcdef"

def jsonEscapeByte (c : UInt8) : Bytes :=
  if c = 92 then ascii "\\\\"
  else if c = 34 then ascii "\\\""
  else if c = 8 then ascii "\\b"
  else if c = 12 then ascii "\\f"
  else if c = 10 then ascii "\\n"
  else if c = 13 then ascii "\\r"
  else if c = 9 then ascii "\\t"
  else if c < 0x20 then ascii "\\u00" ++ [hexDigits.getD (c >>> 4).toNat 0, hexDigits.getD (c &&& 0x0f).toNat 0]
  else [c]

def jsonEscape (value : Bytes) : Bytes := value.flatMap jsonEscapeByte

/-- The body of both loops that collect names: a name is appended unless it is there. -/
def pushName (names : List Bytes) (name : Bytes) : List Bytes := if names.contains name then names else names ++ [name]

def extractLineage (sample : Message) : List Bytes :=
  (List.range sample.size).foldl (fun lineage i => pushName lineage (nodeNameAt sample i)) []

/-- The arguments of `make_structured_chain_record`. -/
structure ChainRecord where
  chainId : Bytes
  sourceNode : Bytes
  sourceSequence : UInt32
  sourceTimestampNs : UInt64
  sinkNode : Bytes
  sinkSequence : UInt32
  sinkTimestampNs : UInt64
  latencyNs : UInt64
  lineage : List Bytes
  contributingSourceRoots : List SourceIdentity
  status : Bytes
  dropCount : UInt32
  deriving DecidableEq, Repr

def ChainRecord.reference (r : ChainRecord) : SourceIdentity := ⟨r.sourceNode, r.sourceSequence, r.sourceTimestampNs⟩

def rootText (root : SourceIdentity) : Bytes :=
  (ascii "\x7b\"source_node\":\"" ++ jsonEscape root.nodeName ++ ascii "\"") ++
    (ascii ",\"source_sequence\":" ++ decimal root.sequenceNumber.toNat) ++
    (ascii ",\"source_timestamp_ns\":" ++ decimal root.timestamp.toNat ++ ascii "\x7d")

def makeStructuredChainRecord (r : ChainRecord) (structuredRecordErrorCount metadataOverflowCount : UInt64) : Bytes :=
  let roots := normalizedSourceRoots r.contributingSourceRoots r.reference
  let uniqueLineage := r.lineage.foldl pushName []
  ascii "\x7b\"schema_version\":2,\"record_type\":\"completion\"" ++
    (ascii ",\"chain_id\":\"" ++ jsonEscape r.chainId ++ ascii "\"") ++
    (ascii ",\"source_node\":\"" ++ jsonEscape r.sourceNode ++ ascii "\"") ++
    (ascii ",\"source_sequence\":" ++ decimal r.sourceSequence.toNat) ++
    (ascii ",\"source_timestamp_ns\":" ++ decimal r.sourceTimestampNs.toNat) ++
    (ascii ",\"contributing_source_roots\":[" ++ (ascii ",").intercalate (roots.map rootText) ++ ascii "]") ++
    (ascii ",\"sink_node\":\"" ++ jsonEscape r.sinkNode ++ ascii "\"") ++
    (ascii ",\"sink_sequence\":" ++ decimal r.sinkSequence.toNat) ++
    (ascii ",\"sink_timestamp_ns\":" ++ decimal r.sinkTimestampNs.toNat) ++
    (ascii ",\"latency_ns\":" ++ decimal r.latencyNs.toNat) ++
    (ascii ",\"lineage\":[" ++
      (ascii ",").intercalate (uniqueLineage.map fun name => ascii "\"" ++ jsonEscape name ++ ascii "\"") ++ ascii "]") ++
    (ascii ",\"status\":\"" ++ jsonEscape r.status ++ ascii "\"") ++
    (ascii ",\"drop_count\":" ++ decimal r.dropCount.toNat) ++
    (ascii ",\"instrumentation_error_count\":" ++ decimal structuredRecordErrorCount.toNat) ++
    (ascii ",\"metadata_overflow_count\":" ++ decimal metadataOverflowCount.toNat) ++
    ascii "\x7d\n"

/-- Whether a record was written, and the error count; `write` gives the result of the system call. -/
def writeStructuredRecord (record : Bytes) (write : Bytes → Int) (structuredRecordErrorCount : UInt64) : Bool × UInt64 :=
  if pipeBuf < record.length then (false, structuredRecordErrorCount + 1)
  else if write record ≠ record.length then (false, structuredRecordErrorCount + 1)
  else (true, structuredRecordErrorCount)

/-! ## Provenance records -/

def boolText (b : Bool) : Bytes := if b then ascii "true" else ascii "false"

def provenanceSourceJson (source : ProvenanceSource) : Bytes :=
  if !source.valid then ascii "null" else
  ascii "\x7b\"kind\":" ++ decimal source.kind.toNat ++ ascii ",\"seq\":" ++ decimal source.sequence.toNat ++
    ascii ",\"t_ns\":" ++ decimal source.timestampNs.toNat ++ ascii "\x7d"

def linkInputText (input : UInt32 × ProvenanceMessage) : Bytes :=
  ascii "\x7b\"index\":" ++ decimal input.1.toNat ++ ascii ",\"msg\":\x7b\"name\":\"" ++ input.2.name ++
    ascii "\",\"seq\":" ++ decimal input.2.sequence.toNat ++ ascii ",\"channel\":" ++ decimal input.2.channel.toNat ++
    ascii "\x7d\x7d"

/-- What `emit_provenance_source`, `emit_provenance_link` and `emit_provenance_sink` hand to `write_provenance_record`. -/
def Record.text : Record → Bytes
  | .source node sequence kind timestampNs =>
    ascii "\x7b\"schema\":1,\"event\":\"source\",\"t_ns\":" ++ decimal timestampNs.toNat ++ ascii ",\"node\":\"" ++ node ++
      ascii "\",\"seq\":" ++ decimal sequence.toNat ++ ascii ",\"kind\":" ++ decimal kind.toNat ++ ascii "\x7d"
  | .link node sequence channel timestampNs inputs origin timer =>
    ascii "\x7b\"schema\":1,\"event\":\"link\",\"t_ns\":" ++ decimal timestampNs.toNat ++ ascii ",\"node\":\"" ++ node ++
      ascii "\",\"msg\":\x7b\"name\":\"" ++ node ++ ascii "\",\"seq\":" ++ decimal sequence.toNat ++
      ascii ",\"channel\":" ++ decimal channel.toNat ++ ascii "\x7d,\"inputs\":[" ++
      (ascii ",").intercalate (inputs.map linkInputText) ++
      ascii "],\"source\":" ++ provenanceSourceJson origin ++ ascii ",\"timer\":" ++ boolText timer ++ ascii "\x7d"
  | .sink node sequence timestampNs input origin =>
    ascii "\x7b\"schema\":1,\"event\":\"sink\",\"t_ns\":" ++ decimal timestampNs.toNat ++ ascii ",\"node\":\"" ++ node ++
      ascii "\",\"msg\":\x7b\"name\":\"" ++ node ++ ascii "\",\"seq\":" ++ decimal sequence.toNat ++
      ascii ",\"channel\":0\x7d,\"input\":\x7b\"name\":\"" ++ input.name ++ ascii "\",\"seq\":" ++
      decimal input.sequence.toNat ++ ascii ",\"channel\":" ++ decimal input.channel.toNat ++
      ascii "\x7d,\"source\":" ++ provenanceSourceJson origin ++ ascii ",\"sensor_started\":" ++ boolText origin.valid ++
      ascii "\x7d"

/-! ## Application records -/

def ApplicationStatus.text : ApplicationStatus → Bytes
  | skipped => ascii "skipped"
  | applied => ascii "applied"

/-- The line that `SourceSchedule::record` writes. -/
def ApplicationRecord.text (r : ApplicationRecord) : Bytes :=
  ascii "\x7b\"version\":1,\"clock\":\"CLOCK_MONOTONIC\",\"session\":\"" ++ r.session ++
    ascii "\",\"boot_id\":\"" ++ r.boot ++ ascii "\",\"schedule_hash\":\"" ++ r.hash ++
    ascii "\",\"source\":\"" ++ r.source ++ ascii "\",\"instance\":\"" ++ r.instanceId ++
    ascii "\",\"phase_id\":\"" ++ r.phaseId ++ ascii "\",\"status\":\"" ++ r.status.text ++
    ascii "\",\"requested_ns\":" ++ signedDecimal r.requestedNs ++ ascii ",\"applied_ns\":" ++ signedDecimal r.appliedNs ++
    ascii ",\"old_period_ns\":" ++ signedDecimal r.oldPeriodNs ++ ascii ",\"new_period_ns\":" ++
    signedDecimal r.newPeriodNs ++ ascii "\x7d\n"

end ReferenceSystem
