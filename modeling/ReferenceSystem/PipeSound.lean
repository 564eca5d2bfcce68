import ReferenceSystem.RecordTextsSound

/-!
# Completion records in one pipe write

The length of a completion record is a sum over its pieces, and everything in it
is bounded but the number of roots: with names of the greatest length that a
history stores, each name of the lineage takes 50 bytes and each root 138.
-/

namespace ReferenceSystem

/-! ## Lengths of pieces -/

/-- At most so many printable ASCII characters, none of which needs an escape. -/
def ShortText (bound : Nat) (text : Bytes) : Prop :=
  text.length ≤ bound ∧ ∀ c ∈ text, c < 127 ∧ Json.isPlain c = true

instance (bound : Nat) (text : Bytes) : Decidable (ShortText bound text) :=
  decidable_of_iff (text.length ≤ bound ∧ text.all (fun c => decide (c < 127) && Json.isPlain c) = true) (by
    simp [ShortText])

theorem length_jsonEscape {bound : Nat} {text : Bytes} (h : ShortText bound text) : (jsonEscape text).length ≤ bound := by
  have hescape : jsonEscapeByte = Json.escapeByte := funext jsonEscapeByte_eq
  rw [jsonEscape, hescape, Json.escaped_plain fun c hc => (h.2 c hc).2]
  exact h.1

theorem length_decimal {n k : Nat} (hk : 0 < k) (h : n < 10 ^ k) : (decimal n).length ≤ k := by
  rw [decimal, List.length_map]
  exact (Nat.length_toDigits_le_iff (by decide) hk).mpr h

theorem length_decimal32 (n : UInt32) : (decimal n.toNat).length ≤ 10 := by
  have hn := n.toNat_lt
  exact length_decimal (by decide) (by omega)

theorem length_decimal64 (n : UInt64) : (decimal n.toNat).length ≤ 20 := by
  have hn := n.toNat_lt
  exact length_decimal (by decide) (by omega)

theorem length_separated {bound : Nat} {texts : List Bytes} (h : ∀ text ∈ texts, text.length ≤ bound) :
    ((ascii ",").intercalate texts).length ≤ (bound + 1) * texts.length := by
  have hcomma : (ascii ",").length = 1 := by rfl
  induction texts with
  | nil => exact Nat.le_refl _
  | cons text texts ih =>
    obtain ⟨htext, htexts⟩ := List.forall_mem_cons.mp h
    cases texts with
    | nil =>
      rw [List.intercalate_singleton, List.length_singleton]
      omega
    | cons next texts =>
      have hrest := ih htexts
      rw [List.intercalate_cons_cons, List.length_append, List.length_append, hcomma, List.length_cons, Nat.mul_succ]
      omega

theorem length_rootText {root : SourceIdentity} (h : ShortText 47 root.nodeName) : (rootText root).length ≤ 137 := by
  have hpieces : (ascii "\x7b\"source_node\":\"").length = 16 ∧ (ascii "\"").length = 1 ∧
      (ascii ",\"source_sequence\":").length = 19 ∧ (ascii ",\"source_timestamp_ns\":").length = 23 ∧
      (ascii "\x7d").length = 1 := ⟨rfl, rfl, rfl, rfl, rfl⟩
  have hname := length_jsonEscape h
  have hsequence := length_decimal32 root.sequenceNumber
  have htimestamp := length_decimal64 root.timestamp
  unfold rootText
  simp only [List.length_append, hpieces]
  omega

/-! ## Roots and names of a record -/

theorem extractLineage_eq (m : Message) (hm : m.size ≤ statsCapacity) :
    extractLineage m = (m.used.map TransmissionStats.name).eraseDups := by
  rw [← pushName_eraseDups, used_eq_map m hm, List.map_map, List.foldl_map]
  rfl

theorem length_eraseDups_le (names : List Bytes) : names.eraseDups.length ≤ names.length :=
  (List.subperm_of_subset (nodup_eraseDups names) fun _ h => List.mem_eraseDups.mp h).length_le

theorem length_chain_record {r : ChainRecord} (errors overflows : UInt64) (hchain : ShortText 32 r.chainId)
    (hsource : ShortText 47 r.sourceNode) (hsink : ShortText 47 r.sinkNode) (hstatus : ShortText 9 r.status)
    (hlineage : ∀ name ∈ r.lineage, ShortText 47 name)
    (hroots : ∀ root ∈ r.contributingSourceRoots, ShortText 47 root.nodeName) :
    (makeStructuredChainRecord r errors overflows).length ≤
      581 + 50 * r.lineage.eraseDups.length +
        138 * (normalizedSourceRoots r.contributingSourceRoots r.reference).length := by
  have hpieces : (ascii "\x7b\"schema_version\":2,\"record_type\":\"completion\"").length = 46 ∧
      (ascii ",\"chain_id\":\"").length = 13 ∧ (ascii "\"").length = 1 ∧
      (ascii ",\"source_node\":\"").length = 16 ∧ (ascii ",\"source_sequence\":").length = 19 ∧
      (ascii ",\"source_timestamp_ns\":").length = 23 ∧ (ascii ",\"contributing_source_roots\":[").length = 30 ∧
      (ascii "]").length = 1 ∧ (ascii ",\"sink_node\":\"").length = 14 ∧ (ascii ",\"sink_sequence\":").length = 17 ∧
      (ascii ",\"sink_timestamp_ns\":").length = 21 ∧ (ascii ",\"latency_ns\":").length = 14 ∧
      (ascii ",\"lineage\":[").length = 12 ∧ (ascii ",\"status\":\"").length = 11 ∧
      (ascii ",\"drop_count\":").length = 14 ∧ (ascii ",\"instrumentation_error_count\":").length = 31 ∧
      (ascii ",\"metadata_overflow_count\":").length = 27 ∧ (ascii "\x7d\n").length = 2 :=
    ⟨rfl, rfl, rfl, rfl, rfl, rfl, rfl, rfl, rfl, rfl, rfl, rfl, rfl, rfl, rfl, rfl, rfl, rfl⟩
  have hnames : ∀ text ∈ r.lineage.eraseDups.map fun name => ascii "\"" ++ jsonEscape name ++ ascii "\"",
      text.length ≤ 49 := by
    intro text htext
    obtain ⟨name, hname, rfl⟩ := List.mem_map.mp htext
    have hlength := length_jsonEscape (hlineage name (List.mem_eraseDups.mp hname))
    simp only [List.length_append, hpieces]
    omega
  have hrootTexts : ∀ text ∈ (normalizedSourceRoots r.contributingSourceRoots r.reference).map rootText,
      text.length ≤ 137 := by
    intro text htext
    obtain ⟨root, hroot, rfl⟩ := List.mem_map.mp htext
    rcases mem_normalizedSourceRoots.mp hroot with ⟨_, rfl⟩ | ⟨_, _, hmem, _⟩
    · exact length_rootText hsource
    · exact length_rootText (hroots root hmem)
  have hlineageText := length_separated hnames
  have hrootsText := length_separated hrootTexts
  rw [List.length_map] at hlineageText hrootsText
  have hchain := length_jsonEscape hchain
  have hsource := length_jsonEscape hsource
  have hsink := length_jsonEscape hsink
  have hstatus := length_jsonEscape hstatus
  have hsourceSequence := length_decimal32 r.sourceSequence
  have hsinkSequence := length_decimal32 r.sinkSequence
  have hdrops := length_decimal32 r.dropCount
  have hsourceTimestamp := length_decimal64 r.sourceTimestampNs
  have hsinkTimestamp := length_decimal64 r.sinkTimestampNs
  have hlatency := length_decimal64 r.latencyNs
  have herrors := length_decimal64 errors
  have hoverflows := length_decimal64 overflows
  unfold makeStructuredChainRecord
  simp only [List.length_append, hpieces, pushName_eraseDups]
  omega

/-! ## Messages -/

/-- **Completion records of messages with at most two source roots fit in one
pipe write**, whatever the lineage; with more roots they fit when the lineage is
so much shorter. Such a record is never rejected for its size. -/
theorem completion_fits {m : Message} (hsize : m.size ≤ statsCapacity) (hnames : ∀ e ∈ m.used, ShortText 47 e.name)
    (sourceNodes : List Bytes) {r : ChainRecord} (hlineage : r.lineage = extractLineage m)
    (hroots : r.contributingSourceRoots = extractSourceRoots m sourceNodes) (hchain : ShortText 32 r.chainId)
    (hsource : ShortText 47 r.sourceNode) (hsink : ShortText 47 r.sinkNode)
    (hstatus : r.status = ascii "completed" ∨ r.status = ascii "violated")
    (hcount : (normalizedSourceRoots r.contributingSourceRoots r.reference).length ≤ 2 ∨
      50 * r.lineage.length + 138 * (normalizedSourceRoots r.contributingSourceRoots r.reference).length ≤ 3515)
    (errors overflows : UInt64) :
    (makeStructuredChainRecord r errors overflows).length ≤ pipeBuf ∧
    ∀ write count, writeStructuredRecord (makeStructuredChainRecord r errors overflows) write count =
      if write (makeStructuredChainRecord r errors overflows) ≠ (makeStructuredChainRecord r errors overflows).length
      then (false, count + 1) else (true, count) := by
  have hdistinct : r.lineage = (m.used.map TransmissionStats.name).eraseDups := by
    rw [hlineage, extractLineage_eq m hsize]
  have hkept : r.lineage.eraseDups.length ≤ r.lineage.length := length_eraseDups_le _
  have hcapacity : r.lineage.length ≤ 63 := by
    rw [hdistinct]
    refine Nat.le_trans (length_eraseDups_le _) ?_
    rw [List.length_map, m.length_used hsize]
    exact hsize
  have hstatus : ShortText 9 r.status := by
    rcases hstatus with h | h
    · rw [h]
      decide
    · rw [h]
      decide
  have hlength := length_chain_record errors overflows hchain hsource hsink hstatus
    (by
      intro name hname
      rw [hdistinct, List.mem_eraseDups] at hname
      obtain ⟨e, he, rfl⟩ := List.mem_map.mp hname
      exact hnames e he)
    (by
      intro root hroot
      rw [hroots] at hroot
      obtain ⟨e, he, _, rfl⟩ := mem_extractSourceRoots hsize sourceNodes hroot
      exact hnames e he)
  have hfits : (makeStructuredChainRecord r errors overflows).length ≤ pipeBuf := by
    refine Nat.le_trans hlength ?_
    unfold pipeBuf
    omega
  refine ⟨hfits, fun write count => ?_⟩
  unfold writeStructuredRecord
  rw [if_neg (by omega)]

/-- 47 characters that begin with two digits. -/
def paddedName (i : Nat) : Bytes := [UInt8.ofNat (48 + i / 10), UInt8.ofNat (48 + i % 10)] ++ List.replicate 45 110

/-- A full history of padded names with the greatest numbers. -/
def fullMessage : Message := { (default : Message) with
  size := statsCapacity
  stats := Vector.ofFn fun i => ⟨UInt64.ofNat (2 ^ 64 - 1), UInt32.ofNat (2 ^ 32 - 1), 0, storeName (paddedName i)⟩ }

/-- The completion record of a message with its numbers as great as they can be. -/
def fullRecord (m : Message) (sourceNodes : List Bytes) : ChainRecord where
  chainId := List.replicate 32 99
  sourceNode := paddedName 0
  sourceSequence := UInt32.ofNat (2 ^ 32 - 1)
  sourceTimestampNs := UInt64.ofNat (2 ^ 64 - 1)
  sinkNode := paddedName 62
  sinkSequence := UInt32.ofNat (2 ^ 32 - 1)
  sinkTimestampNs := UInt64.ofNat (2 ^ 64 - 1)
  latencyNs := UInt64.ofNat (2 ^ 64 - 1)
  lineage := extractLineage m
  contributingSourceRoots := extractSourceRoots m sourceNodes
  status := ascii "completed"
  dropCount := UInt32.ofNat (2 ^ 32 - 1)

theorem fullMessage_names : ∀ e ∈ fullMessage.used, ShortText 47 e.name := by decide

section
variable (m : Message) (sourceNodes : List Bytes)

theorem fullRecord_texts : ShortText 32 (fullRecord m sourceNodes).chainId ∧
    ShortText 47 (fullRecord m sourceNodes).sourceNode ∧ ShortText 47 (fullRecord m sourceNodes).sinkNode := by
  have htexts : ShortText 32 (List.replicate 32 99) ∧ ShortText 47 (paddedName 0) ∧ ShortText 47 (paddedName 62) := by
    decide
  exact htexts

theorem fullRecord_lists : (fullRecord m sourceNodes).lineage = extractLineage m ∧
    (fullRecord m sourceNodes).contributingSourceRoots = extractSourceRoots m sourceNodes ∧
    (fullRecord m sourceNodes).status = ascii "completed" := ⟨rfl, rfl, rfl⟩

end

theorem fullRecord_fits : (makeStructuredChainRecord (fullRecord fullMessage [paddedName 0, paddedName 1])
    (UInt64.ofNat (2 ^ 64 - 1)) (UInt64.ofNat (2 ^ 64 - 1))).length ≤ pipeBuf := by
  obtain ⟨hchain, hsource, hsink⟩ := fullRecord_texts fullMessage [paddedName 0, paddedName 1]
  obtain ⟨hlineage, hroots, hstatus⟩ := fullRecord_lists fullMessage [paddedName 0, paddedName 1]
  exact (completion_fits (Nat.le_refl statsCapacity) fullMessage_names _ hlineage hroots hchain hsource hsink
    (Or.inl hstatus) (Or.inl (by decide +kernel)) _ _).1

/-- A third root makes the same record too long. -/
theorem threeRoots_too_long : ¬ ∀ (m : Message) (sourceNodes : List Bytes) (r : ChainRecord) (errors overflows : UInt64),
    m.size ≤ statsCapacity → (∀ e ∈ m.used, ShortText 47 e.name) → r.lineage = extractLineage m →
    r.contributingSourceRoots = extractSourceRoots m sourceNodes → ShortText 32 r.chainId → ShortText 47 r.sourceNode →
    ShortText 47 r.sinkNode → (r.status = ascii "completed" ∨ r.status = ascii "violated") →
    (makeStructuredChainRecord r errors overflows).length ≤ pipeBuf := by
  intro h
  have hlength : (makeStructuredChainRecord (fullRecord fullMessage [paddedName 0, paddedName 1, paddedName 2])
      (UInt64.ofNat (2 ^ 64 - 1)) (UInt64.ofNat (2 ^ 64 - 1))).length = 4143 := by decide +kernel
  obtain ⟨hchain, hsource, hsink⟩ := fullRecord_texts fullMessage [paddedName 0, paddedName 1, paddedName 2]
  obtain ⟨hlineage, hroots, hstatus⟩ := fullRecord_lists fullMessage [paddedName 0, paddedName 1, paddedName 2]
  have hfits := h fullMessage _ _ (UInt64.ofNat (2 ^ 64 - 1)) (UInt64.ofNat (2 ^ 64 - 1)) (Nat.le_refl statsCapacity)
    fullMessage_names hlineage hroots hchain hsource hsink (Or.inl hstatus)
  rw [hlength] at hfits
  exact absurd hfits (by decide)

end ReferenceSystem
