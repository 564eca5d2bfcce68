import ReferenceSystem.RecordTexts
import ReferenceSystem.CanonicalSound
import ReferenceSystem.JsonSound
import ReferenceSystem.ScheduleFileSound

/-!
# Records decode to what was put into them

Every record text is what the JSON writer writes of a value with the record's
fields, so it is read back as that value. The texts are put together from
pieces that do not end where a member of the object ends; each is regrouped by
the members first.
-/

namespace ReferenceSystem

open Json (encode decode encodeString member)

/-! ## Escaping -/

theorem jsonEscapeByte_eq (c : UInt8) : jsonEscapeByte c = Json.escapeByte c :=
  byte_forall (P := fun c => jsonEscapeByte c = Json.escapeByte c) (by decide +kernel) c

theorem quoted_jsonEscape (value : Bytes) : ascii "\"" ++ jsonEscape value ++ ascii "\"" = encode (.str value) := by
  have hquote : ascii "\"" = [34] := by rfl
  have hescape : jsonEscapeByte = Json.escapeByte := funext jsonEscapeByte_eq
  rw [hquote, jsonEscape, hescape]
  rfl

/-- A text of one value on one line. -/
def OneLine (text : Bytes) (value : Json) : Prop :=
  ∃ line, text = line ++ [10] ∧ (10 : UInt8) ∉ line ∧ decode line = some value

theorem oneLine_encode (value : Json) : OneLine (encode value ++ [10]) value := by
  refine ⟨encode value, rfl, fun hnewline => ?_, Json.decode_encode value⟩
  exact absurd (Json.printable_encode value 10 hnewline) (by decide)

/-! ## Members -/

section
variable (key : Bytes) (c : UInt8) {before : Bytes}

theorem string_member (hkey : before = c :: (encodeString key ++ 58 :: ascii "\"")) (value : Bytes) :
    before ++ jsonEscape value ++ ascii "\"" = c :: member (key, .str value) := by
  rw [hkey, member, ← quoted_jsonEscape]
  simp

theorem number_member (hkey : before = c :: (encodeString key ++ [58])) (n : Nat) :
    before ++ decimal n = c :: member (key, .int n) := by
  rw [hkey, member, Json.int, encode, signedDecimal, if_neg (by omega)]
  simp

theorem array_member (hkey : before = c :: (encodeString key ++ 58 :: ascii "[")) (elements : List Json) :
    before ++ (ascii ",").intercalate (elements.map encode) ++ ascii "]" = c :: member (key, .arr elements) := by
  have hcomma : ascii "," = [44] := by rfl
  have hopen : ascii "[" = [91] := by rfl
  have hclose : ascii "]" = [93] := by rfl
  rw [hkey, hcomma, hopen, hclose, member, encode, Json.encodeElements_intercalate]
  simp

end

/-! ## Completion records -/

def SourceIdentity.json (root : SourceIdentity) : Json := .obj [
  (ascii "source_node", .str root.nodeName),
  (ascii "source_sequence", .int root.sequenceNumber.toNat),
  (ascii "source_timestamp_ns", .int root.timestamp.toNat)]

theorem rootText_eq (root : SourceIdentity) : rootText root = encode root.json := by
  have hclose : ascii "\x7d" = [125] := by rfl
  unfold rootText SourceIdentity.json
  rw [Json.encode_members, hclose,
    string_member (ascii "source_node") 123 (by rfl),
    number_member (ascii "source_sequence") 44 (by rfl),
    number_member (ascii "source_timestamp_ns") 44 (by rfl)]
  simp

theorem pushName_eraseDups (names : List Bytes) : names.foldl pushName [] = names.eraseDups := by
  have key : ∀ (names seen : List Bytes), seen.Nodup → names.foldl pushName seen = (seen ++ names).eraseDups := by
    intro names
    induction names with
    | nil =>
      intro seen hseen
      rw [List.append_nil, eraseDups_of_nodup hseen]
      rfl
    | cons name names ih =>
      intro seen hseen
      rw [List.foldl_cons]
      by_cases hname : name ∈ seen
      · have hstep : pushName seen name = seen := by simp [pushName, hname]
        rw [hstep, ih seen hseen, eraseDups_append_known hname]
      · have hstep : pushName seen name = seen ++ [name] := by simp [pushName, hname]
        have hnodup : (seen ++ [name]).Nodup := by
          refine List.nodup_append.mpr ⟨hseen, List.nodup_singleton _, fun a ha b hb hab => ?_⟩
          exact hname (List.mem_singleton.mp hb ▸ hab ▸ ha)
        rw [hstep, ih _ hnodup, List.append_assoc, List.singleton_append]
  exact key names [] List.nodup_nil

def ChainRecord.json (r : ChainRecord) (structuredRecordErrorCount metadataOverflowCount : UInt64) : Json := .obj [
  (ascii "schema_version", .int 2),
  (ascii "record_type", .str (ascii "completion")),
  (ascii "chain_id", .str r.chainId),
  (ascii "source_node", .str r.sourceNode),
  (ascii "source_sequence", .int r.sourceSequence.toNat),
  (ascii "source_timestamp_ns", .int r.sourceTimestampNs.toNat),
  (ascii "contributing_source_roots",
    .arr ((normalizedSourceRoots r.contributingSourceRoots r.reference).map SourceIdentity.json)),
  (ascii "sink_node", .str r.sinkNode),
  (ascii "sink_sequence", .int r.sinkSequence.toNat),
  (ascii "sink_timestamp_ns", .int r.sinkTimestampNs.toNat),
  (ascii "latency_ns", .int r.latencyNs.toNat),
  (ascii "lineage", .arr (r.lineage.eraseDups.map .str)),
  (ascii "status", .str r.status),
  (ascii "drop_count", .int r.dropCount.toNat),
  (ascii "instrumentation_error_count", .int structuredRecordErrorCount.toNat),
  (ascii "metadata_overflow_count", .int metadataOverflowCount.toNat)]

theorem makeStructuredChainRecord_eq (r : ChainRecord) (structuredRecordErrorCount metadataOverflowCount : UInt64) :
    makeStructuredChainRecord r structuredRecordErrorCount metadataOverflowCount =
      encode (r.json structuredRecordErrorCount metadataOverflowCount) ++ [10] := by
  have hhead : ascii "\x7b\"schema_version\":2,\"record_type\":\"completion\"" =
      123 :: (member (ascii "schema_version", .int 2) ++ 44 :: member (ascii "record_type", .str (ascii "completion"))) := by
    rfl
  have hend : ascii "\x7d\n" = [125, 10] := by rfl
  have hroots : ∀ roots : List SourceIdentity, roots.map rootText = (roots.map SourceIdentity.json).map encode := by
    intro roots
    rw [List.map_map]
    exact List.map_congr_left fun root _ => rootText_eq root
  have hnames : ∀ names : List Bytes, (names.map fun name => ascii "\"" ++ jsonEscape name ++ ascii "\"") =
      (names.map Json.str).map encode := by
    intro names
    rw [List.map_map]
    exact List.map_congr_left fun name _ => quoted_jsonEscape name
  unfold makeStructuredChainRecord ChainRecord.json
  rw [Json.encode_members, hhead, hend]
  simp only [hroots, hnames, pushName_eraseDups]
  rw [string_member (ascii "chain_id") 44 (by rfl),
    string_member (ascii "source_node") 44 (by rfl),
    number_member (ascii "source_sequence") 44 (by rfl),
    number_member (ascii "source_timestamp_ns") 44 (by rfl),
    array_member (ascii "contributing_source_roots") 44 (by rfl),
    string_member (ascii "sink_node") 44 (by rfl),
    number_member (ascii "sink_sequence") 44 (by rfl),
    number_member (ascii "sink_timestamp_ns") 44 (by rfl),
    number_member (ascii "latency_ns") 44 (by rfl),
    array_member (ascii "lineage") 44 (by rfl),
    string_member (ascii "status") 44 (by rfl),
    number_member (ascii "drop_count") 44 (by rfl),
    number_member (ascii "instrumentation_error_count") 44 (by rfl),
    number_member (ascii "metadata_overflow_count") 44 (by rfl)]
  simp

/-- **Completion records decode to their arguments**, whatever bytes the names
hold: the roots are the normalized ones, and of equal names in the lineage the
first is kept. -/
theorem chain_record_decodes (r : ChainRecord) (structuredRecordErrorCount metadataOverflowCount : UInt64) :
    OneLine (makeStructuredChainRecord r structuredRecordErrorCount metadataOverflowCount)
      (r.json structuredRecordErrorCount metadataOverflowCount) := by
  rw [makeStructuredChainRecord_eq]
  exact oneLine_encode _

/-! ## Application records -/

theorem token_plain {c : UInt8} (h : isTokenChar c = true) : Json.isPlain c = true :=
  byte_forall (P := fun c => isTokenChar c = true → Json.isPlain c = true) (by decide +kernel) c h

theorem checkToken_plain {token : Bytes} (h : checkToken token = .ok ()) : ∀ c ∈ token, Json.isPlain c = true := by
  unfold checkToken at h
  split at h
  · cases h
  · split at h
    · rename_i hall
      exact fun c hc => token_plain (List.all_eq_true.mp hall c hc)
    · cases h

section
variable (key : Bytes) (c : UInt8) {before : Bytes}

theorem plain_append (hkey : before = c :: (encodeString key ++ 58 :: ascii "\"")) {value : Bytes}
    (hvalue : ∀ b ∈ value, Json.isPlain b = true) (rest : Bytes) :
    before ++ (value ++ (ascii "\"" ++ rest)) = c :: (member (key, .str value) ++ rest) := by
  have hquote : ascii "\"" = [34] := by rfl
  rw [hkey, member, encode, encodeString, encodeString, Json.escaped_plain hvalue, hquote]
  simp

theorem signed_append (hkey : before = c :: (encodeString key ++ [58])) (n : Int) (rest : Bytes) :
    before ++ (signedDecimal n ++ rest) = c :: (member (key, .int n) ++ rest) := by
  rw [hkey, member, Json.int, encode]
  simp

end

def ApplicationRecord.json (r : ApplicationRecord) : Json := .obj [
  (ascii "version", .int 1),
  (ascii "clock", .str (ascii "CLOCK_MONOTONIC")),
  (ascii "session", .str r.session),
  (ascii "boot_id", .str r.boot),
  (ascii "schedule_hash", .str r.hash),
  (ascii "source", .str r.source),
  (ascii "instance", .str r.instanceId),
  (ascii "phase_id", .str r.phaseId),
  (ascii "status", .str r.status.text),
  (ascii "requested_ns", .int r.requestedNs),
  (ascii "applied_ns", .int r.appliedNs),
  (ascii "old_period_ns", .int r.oldPeriodNs),
  (ascii "new_period_ns", .int r.newPeriodNs)]

theorem ApplicationStatus.plain (status : ApplicationStatus) : ∀ c ∈ status.text, Json.isPlain c = true := by
  cases status with
  | skipped => exact List.all_eq_true.mp rfl
  | applied => exact List.all_eq_true.mp rfl

theorem ApplicationRecord.text_eq {r : ApplicationRecord}
    (h : ∀ text ∈ [r.session, r.boot, r.hash, r.source, r.instanceId, r.phaseId], ∀ c ∈ text, Json.isPlain c = true) :
    r.text = encode r.json ++ [10] := by
  simp only [List.forall_mem_cons] at h
  obtain ⟨hsession, hboot, hhash, hsource, hinstance, hphase, -⟩ := h
  have hhead : ascii "\x7b\"version\":1,\"clock\":\"CLOCK_MONOTONIC\",\"session\":\"" =
      123 :: (member (ascii "version", .int 1) ++ 44 :: member (ascii "clock", .str (ascii "CLOCK_MONOTONIC"))) ++
        ascii ",\"session\":\"" := by rfl
  have hbetween : ascii "\",\"boot_id\":\"" = ascii "\"" ++ ascii ",\"boot_id\":\"" ∧
      ascii "\",\"schedule_hash\":\"" = ascii "\"" ++ ascii ",\"schedule_hash\":\"" ∧
      ascii "\",\"source\":\"" = ascii "\"" ++ ascii ",\"source\":\"" ∧
      ascii "\",\"instance\":\"" = ascii "\"" ++ ascii ",\"instance\":\"" ∧
      ascii "\",\"phase_id\":\"" = ascii "\"" ++ ascii ",\"phase_id\":\"" ∧
      ascii "\",\"status\":\"" = ascii "\"" ++ ascii ",\"status\":\"" ∧
      ascii "\",\"requested_ns\":" = ascii "\"" ++ ascii ",\"requested_ns\":" :=
    ⟨by rfl, by rfl, by rfl, by rfl, by rfl, by rfl, by rfl⟩
  obtain ⟨hboot', hhash', hsource', hinstance', hphase', hstatus', hrequested'⟩ := hbetween
  have hend : ascii "\x7d\n" = [125, 10] := by rfl
  unfold ApplicationRecord.text ApplicationRecord.json
  rw [Json.encode_members, hhead, hboot', hhash', hsource', hinstance', hphase', hstatus', hrequested', hend]
  simp only [List.append_assoc]
  rw [plain_append (ascii "session") 44 (by rfl) hsession,
    plain_append (ascii "boot_id") 44 (by rfl) hboot,
    plain_append (ascii "schedule_hash") 44 (by rfl) hhash,
    plain_append (ascii "source") 44 (by rfl) hsource,
    plain_append (ascii "instance") 44 (by rfl) hinstance,
    plain_append (ascii "phase_id") 44 (by rfl) hphase,
    plain_append (ascii "status") 44 (by rfl) r.status.plain,
    signed_append (ascii "requested_ns") 44 (by rfl),
    signed_append (ascii "applied_ns") 44 (by rfl),
    signed_append (ascii "old_period_ns") 44 (by rfl),
    signed_append (ascii "new_period_ns") 44 (by rfl)]
  simp

/-- **Application records of an accepted schedule decode to what they record**:
the check of the characters of every identity makes escaping unnecessary. -/
theorem application_record_decodes {text source boot instanceId : Bytes} {initial : Int} {s : SourceSchedule}
    (hcreate : SourceSchedule.create text source boot instanceId initial = .ok s) {calls : List ScheduleCall}
    {u : ScheduleUse} (hrun : runSteps ScheduleUse.call { schedule := s } calls = some u) {index : Nat} {phase : Phase}
    (hphase : u.schedule.phases[index]? = some phase) (status : ApplicationStatus)
    (oldPeriod newPeriod application : Int) :
    OneLine (u.schedule.record index status source boot instanceId oldPeriod newPeriod application).text (.obj [
      (ascii "version", .int 1),
      (ascii "clock", .str (ascii "CLOCK_MONOTONIC")),
      (ascii "session", .str u.schedule.session),
      (ascii "boot_id", .str boot),
      (ascii "schedule_hash", .str u.schedule.hash),
      (ascii "source", .str source),
      (ascii "instance", .str instanceId),
      (ascii "phase_id", .str phase.id),
      (ascii "status", .str status.text),
      (ascii "requested_ns", .int (u.schedule.requested index)),
      (ascii "applied_ns", .int application),
      (ascii "old_period_ns", .int oldPeriod),
      (ascii "new_period_ns", .int newPeriod)]) := by
  obtain ⟨header, input, rest, haccepted⟩ := create_cases hcreate
  have hboot : s.boot = boot := by rw [haccepted.schedule, haccepted.boot]
  have hf := create_wellFormed hcreate
  have hsame := (useInv_run hcreate hrun).same
  have hid : (u.schedule.phases[index]?.map (·.id)).getD [] = phase.id := by rw [hphase]; rfl
  have htokens : ∀ token ∈ [u.schedule.session, boot, u.schedule.hash, source, instanceId, phase.id],
      ∀ c ∈ token, Json.isPlain c = true := by
    have hmem : phase.id ∈ s.phases.map (·.id) := by
      rw [hsame] at hphase
      exact List.mem_map_of_mem (List.mem_of_getElem? hphase)
    intro token htoken
    refine checkToken_plain (hf.tokens token ?_)
    rw [hsame] at htoken
    rw [hboot]
    simp only [List.mem_cons, List.not_mem_nil, or_false] at htoken
    rcases htoken with rfl | rfl | rfl | rfl | rfl | rfl <;> simp [hmem]
  have htext := ApplicationRecord.text_eq
    (r := u.schedule.record index status source boot instanceId oldPeriod newPeriod application)
    (by simpa only [SourceSchedule.record, hid] using htokens)
  rw [htext]
  have hjson := oneLine_encode
    (u.schedule.record index status source boot instanceId oldPeriod newPeriod application).json
  simpa only [ApplicationRecord.json, SourceSchedule.record, hid] using hjson

theorem armedCalls_record : ∃ u, runSteps ScheduleUse.call { schedule := acceptedSchedule } armedCalls = some u ∧
    OneLine (u.schedule.record 2 .applied (ascii "Source") (ascii "boot") (ascii "instance") 50 100 7002).text (.obj [
      (ascii "version", .int 1),
      (ascii "clock", .str (ascii "CLOCK_MONOTONIC")),
      (ascii "session", .str u.schedule.session),
      (ascii "boot_id", .str (ascii "boot")),
      (ascii "schedule_hash", .str u.schedule.hash),
      (ascii "source", .str (ascii "Source")),
      (ascii "instance", .str (ascii "instance")),
      (ascii "phase_id", .str (ascii "A2")),
      (ascii "status", .str (ascii "applied")),
      (ascii "requested_ns", .int (u.schedule.requested 2)),
      (ascii "applied_ns", .int 7002),
      (ascii "old_period_ns", .int 50),
      (ascii "new_period_ns", .int 100)]) := by
  have hsome : (runSteps ScheduleUse.call { schedule := acceptedSchedule } armedCalls).map
      (fun u => u.schedule.phases[2]?) = some acceptedSchedule.phases[2]? := by rfl
  obtain ⟨u, hu, hphase⟩ := Option.map_eq_some_iff.mp hsome
  exact ⟨u, hu, application_record_decodes testSchedule_accepted hu hphase .applied 50 100 7002⟩

end ReferenceSystem
