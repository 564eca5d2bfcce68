import ReferenceSystem.NumberingSound
import ReferenceSystem.QuotingSound

/-!
# Stamping keeps the event

`with_identity` works on the text: it changes the first `"schema":1` and puts
four fields before the last closing brace. The schema is the first member of
every provenance record and the last brace closes the record, so a reader of the
stamped text finds the members of the event and the four fields, provided that
it can read the quoted identifiers among them.
-/

namespace ReferenceSystem

open Json (encode decode encodeString member)

/-! ## Provenance records as values -/

def ProvenanceSource.json (source : ProvenanceSource) : Json :=
  if source.valid then .obj [
    (ascii "kind", .int source.kind.toNat),
    (ascii "seq", .int source.sequence.toNat),
    (ascii "t_ns", .int source.timestampNs.toNat)]
  else .null

def ProvenanceMessage.json (message : ProvenanceMessage) : Json := .obj [
  (ascii "name", .str message.name),
  (ascii "seq", .int message.sequence.toNat),
  (ascii "channel", .int message.channel.toNat)]

def linkInputJson (input : UInt32 × ProvenanceMessage) : Json := .obj [
  (ascii "index", .int input.1.toNat),
  (ascii "msg", input.2.json)]

/-- The members of a record after its schema. -/
def Record.fields : Record → List (Bytes × Json)
  | .source node sequence kind timestampNs => [
    (ascii "event", .str (ascii "source")),
    (ascii "t_ns", .int timestampNs.toNat),
    (ascii "node", .str node),
    (ascii "seq", .int sequence.toNat),
    (ascii "kind", .int kind.toNat)]
  | .link node sequence channel timestampNs inputs origin timer => [
    (ascii "event", .str (ascii "link")),
    (ascii "t_ns", .int timestampNs.toNat),
    (ascii "node", .str node),
    (ascii "msg", ProvenanceMessage.json ⟨node, sequence, channel⟩),
    (ascii "inputs", .arr (inputs.map linkInputJson)),
    (ascii "source", origin.json),
    (ascii "timer", .bool timer)]
  | .sink node sequence timestampNs input origin => [
    (ascii "event", .str (ascii "sink")),
    (ascii "t_ns", .int timestampNs.toNat),
    (ascii "node", .str node),
    (ascii "msg", ProvenanceMessage.json ⟨node, sequence, 0⟩),
    (ascii "input", input.json),
    (ascii "source", origin.json),
    (ascii "sensor_started", .bool origin.valid)]

/-- The names that a record writes without escapes. -/
def Record.names : Record → List Bytes
  | .source node .. => [node]
  | .link node _ _ _ inputs _ _ => node :: inputs.map fun input => input.2.name
  | .sink node _ _ input _ => [node, input.name]

/-- Letters, digits and the underscore. -/
def isNameChar (c : UInt8) : Bool := (97 ≤ c && c ≤ 122) || (65 ≤ c && c ≤ 90) || (48 ≤ c && c ≤ 57) || c == 95

theorem nameChar_plain {c : UInt8} (h : isNameChar c = true) : Json.isPlain c = true := by
  refine token_plain ?_
  unfold isNameChar at h
  grind [isTokenChar]

/-! ## Record texts -/

section
variable (key : Bytes) (c : UInt8) {before : Bytes}

theorem member_append (hkey : before = c :: (encodeString key ++ [58])) (value : Json) (rest : Bytes) :
    before ++ (encode value ++ rest) = c :: (member (key, value) ++ rest) := by
  rw [hkey, member]
  simp

theorem array_append (hkey : before = c :: (encodeString key ++ 58 :: ascii "[")) (elements : List Json) (rest : Bytes) :
    before ++ ((ascii ",").intercalate (elements.map encode) ++ (ascii "]" ++ rest)) =
      c :: (member (key, .arr elements) ++ rest) := by
  rw [← List.append_assoc, ← List.append_assoc, array_member key c hkey]
  rfl

theorem number_append (hkey : before = c :: (encodeString key ++ [58])) (n : Nat) (rest : Bytes) :
    before ++ (decimal n ++ rest) = c :: (member (key, .int n) ++ rest) := by
  rw [← List.append_assoc, number_member key c hkey]
  rfl

end

theorem provenanceSourceJson_eq (source : ProvenanceSource) : provenanceSourceJson source = encode source.json := by
  unfold provenanceSourceJson ProvenanceSource.json
  cases source.valid with
  | false =>
    have hnull : ascii "null" = encode .null := by rfl
    simpa using hnull
  | true =>
    have hclose : ascii "\x7d" = [125] := by rfl
    simp only [Bool.not_true, Bool.false_eq_true, if_false, if_true]
    rw [Json.encode_members, hclose]
    simp only [List.append_assoc]
    rw [number_append (ascii "kind") 123 (by rfl),
      number_append (ascii "seq") 44 (by rfl),
      number_append (ascii "t_ns") 44 (by rfl)]
    simp

theorem boolText_eq (b : Bool) : boolText b = encode (.bool b) := by
  cases b with
  | false => rfl
  | true => rfl

/-- A message as it stands in a link or sink record. -/
theorem messageText_eq (message : ProvenanceMessage) (h : ∀ c ∈ message.name, Json.isPlain c = true) (rest : Bytes) :
    ascii "\x7b\"name\":\"" ++ (message.name ++ (ascii "\"" ++ (ascii ",\"seq\":" ++ (decimal message.sequence.toNat ++
      (ascii ",\"channel\":" ++ (decimal message.channel.toNat ++ (ascii "\x7d" ++ rest))))))) =
      encode message.json ++ rest := by
  have hclose : ascii "\x7d" = [125] := by rfl
  rw [ProvenanceMessage.json, Json.encode_members, hclose,
    plain_append (ascii "name") 123 (by rfl) h,
    number_append (ascii "seq") 44 (by rfl),
    number_append (ascii "channel") 44 (by rfl)]
  simp

theorem linkInputText_eq {input : UInt32 × ProvenanceMessage} (h : ∀ c ∈ input.2.name, Json.isPlain c = true) :
    linkInputText input = encode (linkInputJson input) := by
  have hopen : ascii ",\"msg\":\x7b\"name\":\"" = ascii ",\"msg\":" ++ ascii "\x7b\"name\":\"" := by rfl
  have hseq : ascii "\",\"seq\":" = ascii "\"" ++ ascii ",\"seq\":" := by rfl
  have hclose : ascii "\x7d\x7d" = ascii "\x7d" ++ [125] := by rfl
  rw [linkInputText, hopen, hseq, hclose, linkInputJson, Json.encode_members]
  simp only [List.append_assoc]
  rw [messageText_eq input.2 h, number_append (ascii "index") 123 (by rfl),
    member_append (ascii "msg") 44 (by rfl)]
  simp

/-- The pieces that records share, cut where members begin and end. -/
theorem record_pieces :
    ascii "\",\"seq\":" = ascii "\"" ++ ascii ",\"seq\":" ∧
    ascii "\",\"msg\":\x7b\"name\":\"" = ascii "\"" ++ (ascii ",\"msg\":" ++ ascii "\x7b\"name\":\"") ∧
    ascii "\x7d" = [125] := ⟨by rfl, by rfl, by rfl⟩

theorem sourceText_eq {node : Bytes} (h : ∀ c ∈ node, Json.isPlain c = true) (sequence kind : UInt32)
    (timestampNs : UInt64) : (Record.source node sequence kind timestampNs).text =
      encode (.obj ((ascii "schema", .int 1) :: (Record.source node sequence kind timestampNs).fields)) := by
  obtain ⟨hseq, -, hclose⟩ := record_pieces
  have hhead : ascii "\x7b\"schema\":1,\"event\":\"source\",\"t_ns\":" =
      123 :: (member (ascii "schema", .int 1) ++ 44 :: member (ascii "event", .str (ascii "source"))) ++
        ascii ",\"t_ns\":" := by rfl
  delta Record.text Record.fields
  dsimp only
  rw [Json.encode_members, hhead, hseq, hclose]
  simp only [List.append_assoc]
  rw [plain_append (ascii "node") 44 (by rfl) h,
    number_append (ascii "t_ns") 44 (by rfl),
    number_append (ascii "seq") 44 (by rfl),
    number_append (ascii "kind") 44 (by rfl)]
  simp

theorem linkText_eq {node : Bytes} {inputs : List (UInt32 × ProvenanceMessage)}
    (hnode : ∀ c ∈ node, Json.isPlain c = true) (hinputs : ∀ input ∈ inputs, ∀ c ∈ input.2.name, Json.isPlain c = true)
    (sequence channel : UInt32) (timestampNs : UInt64) (origin : ProvenanceSource) (timer : Bool) :
    (Record.link node sequence channel timestampNs inputs origin timer).text = encode (.obj
      ((ascii "schema", .int 1) :: (Record.link node sequence channel timestampNs inputs origin timer).fields)) := by
  obtain ⟨hseq, hmsg, hclose⟩ := record_pieces
  have hhead : ascii "\x7b\"schema\":1,\"event\":\"link\",\"t_ns\":" =
      123 :: (member (ascii "schema", .int 1) ++ 44 :: member (ascii "event", .str (ascii "link"))) ++
        ascii ",\"t_ns\":" := by rfl
  have hopen : ascii "\x7d,\"inputs\":[" = ascii "\x7d" ++ ascii ",\"inputs\":[" := by rfl
  have hsource : ascii "],\"source\":" = ascii "]" ++ ascii ",\"source\":" := by rfl
  have htexts : inputs.map linkInputText = (inputs.map linkInputJson).map encode := by
    rw [List.map_map]
    exact List.map_congr_left fun input hinput => linkInputText_eq (hinputs input hinput)
  have hmessage := messageText_eq ⟨node, sequence, channel⟩ hnode
  delta Record.text Record.fields
  dsimp only
  rw [Json.encode_members, hhead, hseq, hmsg, hopen, hsource, htexts, provenanceSourceJson_eq, boolText_eq]
  simp only [List.append_assoc]
  rw [plain_append (ascii "node") 44 (by rfl) hnode,
    number_append (ascii "t_ns") 44 (by rfl),
    hmessage, member_append (ascii "msg") 44 (by rfl),
    array_append (ascii "inputs") 44 (by rfl),
    member_append (ascii "source") 44 (by rfl),
    member_append (ascii "timer") 44 (by rfl), hclose]
  simp only [List.cons_append, List.append_assoc, List.flatMap_cons, List.flatMap_nil, List.append_nil]

theorem sinkText_eq {node : Bytes} {input : ProvenanceMessage} (hnode : ∀ c ∈ node, Json.isPlain c = true)
    (hinput : ∀ c ∈ input.name, Json.isPlain c = true) (sequence : UInt32) (timestampNs : UInt64)
    (origin : ProvenanceSource) : (Record.sink node sequence timestampNs input origin).text =
      encode (.obj ((ascii "schema", .int 1) :: (Record.sink node sequence timestampNs input origin).fields)) := by
  obtain ⟨hseq, hmsg, hclose⟩ := record_pieces
  have hhead : ascii "\x7b\"schema\":1,\"event\":\"sink\",\"t_ns\":" =
      123 :: (member (ascii "schema", .int 1) ++ 44 :: member (ascii "event", .str (ascii "sink"))) ++
        ascii ",\"t_ns\":" := by rfl
  have hchannel : ascii ",\"channel\":0\x7d,\"input\":\x7b\"name\":\"" = ascii ",\"channel\":" ++ (decimal (0 : UInt32).toNat ++
      (ascii "\x7d" ++ (ascii ",\"input\":" ++ ascii "\x7b\"name\":\""))) := by rfl
  have hsource : ascii "\x7d,\"source\":" = ascii "\x7d" ++ ascii ",\"source\":" := by rfl
  have hmessage := messageText_eq ⟨node, sequence, 0⟩ hnode
  delta Record.text Record.fields
  dsimp only
  rw [Json.encode_members, hhead, hseq, hmsg, hchannel, hsource, provenanceSourceJson_eq, boolText_eq]
  simp only [List.append_assoc]
  rw [plain_append (ascii "node") 44 (by rfl) hnode,
    number_append (ascii "t_ns") 44 (by rfl), messageText_eq input hinput,
    hmessage, member_append (ascii "msg") 44 (by rfl),
    member_append (ascii "input") 44 (by rfl),
    member_append (ascii "source") 44 (by rfl),
    member_append (ascii "sensor_started") 44 (by rfl), hclose]
  simp only [List.cons_append, List.append_assoc, List.flatMap_cons, List.flatMap_nil, List.append_nil]

theorem Record.text_eq (record : Record) (h : ∀ name ∈ record.names, ∀ c ∈ name, Json.isPlain c = true) :
    record.text = encode (.obj ((ascii "schema", .int 1) :: record.fields)) := by
  cases record with
  | source node sequence kind timestampNs => exact sourceText_eq (h node (List.mem_singleton.mpr rfl)) _ _ _
  | link node sequence channel timestampNs inputs origin timer =>
    obtain ⟨hnode, hinputs⟩ := List.forall_mem_cons.mp h
    exact linkText_eq hnode (fun input hinput => hinputs _ (List.mem_map_of_mem hinput)) _ _ _ _ _
  | sink node sequence timestampNs input origin =>
    obtain ⟨hnode, hinput⟩ := List.forall_mem_cons.mp h
    exact sinkText_eq hnode (hinput _ (List.mem_singleton.mpr rfl)) _ _ _

/-! ## Identities -/

/-- The members that stamping adds. -/
def identityMembers (producer instanceId bootId : Bytes) (sequence : Nat) : List (Bytes × Json) := [
  (ascii "producer", .str producer),
  (ascii "instance", .str instanceId),
  (ascii "boot_id", .str bootId),
  (ascii "record_seq", .int sequence)]

def quotedText (key value : Bytes) : Json.MemberText :=
  ⟨key, jsonQuote value, if value.all isQuotable then some (.str value) else none⟩

/-- The same members as they are written. -/
def identityTexts (producer instanceId bootId : Bytes) (sequence : Nat) : List Json.MemberText := [
  quotedText (ascii "producer") producer,
  quotedText (ascii "instance") instanceId,
  quotedText (ascii "boot_id") bootId,
  .of (ascii "record_seq", .int sequence)]

/-- All three identifiers are read back. -/
def identifiable (producer instanceId bootId : Bytes) : Bool :=
  producer.all isQuotable && instanceId.all isQuotable && bootId.all isQuotable

section
variable (producer instanceId bootId : Bytes) (sequence : Nat)

theorem reads_identityTexts :
    ∀ m ∈ identityTexts producer instanceId bootId sequence, Json.Reads m.text m.result := by
  simp only [identityTexts, List.forall_mem_cons]
  exact ⟨reads_jsonQuote producer, reads_jsonQuote instanceId, reads_jsonQuote bootId, Json.reads_encode _,
    List.forall_mem_nil _⟩

theorem read_identityTexts : (identityTexts producer instanceId bootId sequence).mapM Json.MemberText.read =
    if identifiable producer instanceId bootId then some (identityMembers producer instanceId bootId sequence) else none := by
  unfold identifiable identityTexts quotedText Json.MemberText.read
  cases producer.all isQuotable with
  | false => rfl
  | true =>
    cases instanceId.all isQuotable with
    | false => rfl
    | true =>
      cases bootId.all isQuotable with
      | false => rfl
      | true => rfl

theorem identityFields_eq : identityFields producer instanceId bootId sequence =
    (identityTexts producer instanceId bootId sequence).flatMap fun m => 44 :: m.encode := by
  have hproducer : ascii ",\"producer\":" = 44 :: (encodeString (ascii "producer") ++ [58]) := by rfl
  have hinstance : ascii ",\"instance\":" = 44 :: (encodeString (ascii "instance") ++ [58]) := by rfl
  have hboot : ascii ",\"boot_id\":" = 44 :: (encodeString (ascii "boot_id") ++ [58]) := by rfl
  rw [identityFields, hproducer, hinstance, hboot, List.append_assoc, number_member (ascii "record_seq") 44 (by rfl)]
  simp [identityTexts, quotedText, Json.MemberText.encode, Json.MemberText.of, member]

end

/-- An object whose members are written by `encode`, but for an identity among them. -/
theorem decode_identified (m : Bytes × Json) (before after : List (Bytes × Json)) (producer instanceId bootId : Bytes)
    (sequence : Nat) :
    decode (123 :: (member m ++ ((before.flatMap fun m => 44 :: member m) ++
        (identityFields producer instanceId bootId sequence ++ ((after.flatMap fun m => 44 :: member m) ++ [125]))))) =
      if identifiable producer instanceId bootId then
        some (.obj (m :: (before ++ (identityMembers producer instanceId bootId sequence ++ after)))) else none := by
  have hreads : ∀ x ∈ Json.MemberText.of m :: (before.map .of ++
      (identityTexts producer instanceId bootId sequence ++ after.map .of)), Json.Reads x.text x.result :=
    List.forall_mem_cons.mpr ⟨Json.reads_encode m.2, List.forall_mem_append.mpr ⟨Json.MemberText.reads_of before,
      List.forall_mem_append.mpr ⟨reads_identityTexts producer instanceId bootId sequence, Json.MemberText.reads_of after⟩⟩⟩
  have hread := (Json.reads_object _ _ hreads).decode_eq
  rw [List.flatMap_append, List.flatMap_append, ← identityFields_eq, Json.MemberText.flatMap_of, Json.MemberText.flatMap_of,
    List.mapM_cons, List.mapM_append, List.mapM_append, read_identityTexts, Json.MemberText.mapM_of,
    Json.MemberText.mapM_of] at hread
  simp only [List.append_assoc] at hread
  refine hread.trans ?_
  cases identifiable producer instanceId bootId with
  | false => rfl
  | true => rfl

/-! ## Stamping -/

theorem findText_second {pattern : Bytes} {c : UInt8} (h : pattern.head? ≠ some c) (hne : pattern ≠ []) (rest : Bytes) :
    findText pattern (c :: (pattern ++ rest)) = some 1 := by
  obtain ⟨b, bytes, rfl⟩ := List.exists_cons_of_ne_nil hne
  have hb : (b == c) = false := beq_eq_false_iff_ne.mpr fun heq => h (congrArg some heq)
  unfold findText
  rw [List.find?_range_eq_some]
  refine ⟨by simp, List.mem_range.mpr (by simp), fun j hj => ?_⟩
  have hj : j = 0 := by omega
  subst hj
  simp [List.isPrefixOf, hb]

/-- The schema is the first member and the last brace closes the object. -/
theorem withIdentity_encode (fields : List (Bytes × Json)) (producer instanceId bootId : Bytes) (sequence : Nat) :
    withIdentity (encode (.obj ((ascii "schema", .int 1) :: fields))) producer instanceId bootId sequence =
      123 :: (member (ascii "schema", .int 2) ++ ((fields.flatMap fun m => 44 :: member m) ++
        (identityFields producer instanceId bootId sequence ++ [125]))) := by
  have hone : member (ascii "schema", .int 1) = ascii "\"schema\":1" := by rfl
  have htwo : member (ascii "schema", .int 2) = ascii "\"schema\":2" := by rfl
  have hraise : raiseSchema (encode (.obj ((ascii "schema", .int 1) :: fields))) =
      (123 :: (member (ascii "schema", .int 2) ++ fields.flatMap fun m => 44 :: member m)) ++ [125] := by
    rw [Json.encode_members, hone, htwo]
    unfold raiseSchema
    simp only [List.append_assoc]
    rw [findText_second (by decide) (by decide)]
    simp [Nat.add_comm 1]
  unfold withIdentity
  rw [hraise]
  simp only [rfindByte_snoc, if_true]
  rw [List.take_left, List.drop_left]
  simp

theorem withIdentity_decodes {record : Record} (hnames : ∀ name ∈ record.names, ∀ c ∈ name, isNameChar c = true)
    (producer instanceId bootId : Bytes) (sequence : Nat) :
    decode (withIdentity record.text producer instanceId bootId sequence) =
      if identifiable producer instanceId bootId then
        some (.obj ((ascii "schema", .int 2) :: (record.fields ++ identityMembers producer instanceId bootId sequence)))
      else none := by
  have htext := record.text_eq fun name hname c hc => nameChar_plain (hnames name hname c hc)
  have hdecode := decode_identified (ascii "schema", .int 2) record.fields [] producer instanceId bootId sequence
  rw [List.flatMap_nil, List.nil_append, List.append_nil] at hdecode
  rw [htext, withIdentity_encode, hdecode]

theorem Record.keys_nodup (record : Record) (producer instanceId bootId : Bytes) (sequence : Nat) :
    (((ascii "schema", Json.int 2) :: (record.fields ++ identityMembers producer instanceId bootId sequence)).map
      Prod.fst).Nodup := by
  cases record with
  | source =>
    simp only [Record.fields, identityMembers, List.cons_append, List.nil_append, List.map_cons, List.map_nil]
    decide
  | link =>
    simp only [Record.fields, identityMembers, List.cons_append, List.nil_append, List.map_cons, List.map_nil]
    decide
  | sink =>
    simp only [Record.fields, identityMembers, List.cons_append, List.nil_append, List.map_cons, List.map_nil]
    decide

/-- **Stamping preserves the event**: a provenance record is an object of schema
1, and stamped it is read back with schema 2, its own members as they were, and
the four members of the identity; no key occurs twice. -/
theorem withIdentity_preserves {record : Record} (hnames : ∀ name ∈ record.names, ∀ c ∈ name, isNameChar c = true)
    {producer instanceId bootId : Bytes} (hidentity : ∀ value ∈ [producer, instanceId, bootId], ∀ c ∈ value, 32 ≤ c)
    (sequence : UInt64) :
    decode record.text = some (.obj ((ascii "schema", .int 1) :: record.fields)) ∧
    decode (withIdentity record.text producer instanceId bootId sequence.toNat) =
      some (.obj ((ascii "schema", .int 2) :: (record.fields ++
        identityMembers producer instanceId bootId sequence.toNat))) ∧
    (((ascii "schema", Json.int 2) :: (record.fields ++ identityMembers producer instanceId bootId sequence.toNat)).map
      Prod.fst).Nodup := by
  have htext := record.text_eq fun name hname c hc => nameChar_plain (hnames name hname c hc)
  have hquotable : identifiable producer instanceId bootId = true := by
    have hall : ∀ value ∈ [producer, instanceId, bootId], value.all isQuotable = true := fun value hvalue =>
      List.all_eq_true.mpr fun c hc => by simp [isQuotable, hidentity value hvalue c hc]
    simp only [List.forall_mem_cons] at hall
    rw [identifiable, hall.1, hall.2.1, hall.2.2.1]
    rfl
  refine ⟨?_, ?_, record.keys_nodup _ _ _ _⟩
  · rw [htext, Json.decode_encode]
  · rw [withIdentity_decodes hnames, if_pos hquotable]

/-- The link record of a fusion without a source, stamped with a quoted boot id. -/
def unsourcedLink : Record := .link (ascii "LanePlanner") 4 0 2500 [(0, ⟨ascii "Lanelet2Map", 7, 0⟩)] {} true

theorem unsourcedLink_preserved :
    decode (withIdentity unsourcedLink.text (ascii "LanePlanner") (ascii "i-1") (ascii "boot\"\\") (12 : UInt64).toNat) =
      some (.obj ((ascii "schema", .int 2) :: (unsourcedLink.fields ++
        identityMembers (ascii "LanePlanner") (ascii "i-1") (ascii "boot\"\\") (12 : UInt64).toNat))) := by
  have hnames : ∀ name ∈ unsourcedLink.names, name.all isNameChar = true := by decide
  have hidentity : ∀ value ∈ [ascii "LanePlanner", ascii "i-1", ascii "boot\"\\"],
      value.all (fun c => decide (32 ≤ c)) = true := by decide
  exact (withIdentity_preserves (fun name hname => List.all_eq_true.mp (hnames name hname))
    (fun value hvalue c hc => of_decide_eq_true (List.all_eq_true.mp (hidentity value hvalue) c hc)) 12).2.1

end ReferenceSystem
