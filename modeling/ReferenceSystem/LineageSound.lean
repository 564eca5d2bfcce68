import ReferenceSystem.Autoware
import ReferenceSystem.HistorySound

/-!
# Lineages of the Autoware graph

Which names a message carries is bounded from above and from below by its
topic: an intersection keeps its connections apart although they share a
name. With a strictly increasing clock the own entry of a message is later than
all others. The validators are then checked on these facts alone.
-/

namespace ReferenceSystem

/-! ## Names by topic -/

/-- The topics whose messages reach the output on a channel. -/
def NodeSettings.channelInputs : NodeSettings → Nat → List Bytes
  | .intersection s, channel => (s.connections[channel]?.map (·.inputTopic)).toList
  | settings, _ => settings.inputTopics

/-- A cyclic node publishes with whatever inputs it has; every other node waits for all of them. -/
def NodeSettings.waits : NodeSettings → Bool
  | .cyclic _ => false
  | _ => true

theorem inputTopic_channel {settings : NodeSettings} {channel index : Nat} {topic : Bytes}
    (h : inputTopic settings channel index = some topic) : topic ∈ settings.channelInputs channel := by
  cases settings with
  | intersection s =>
    obtain ⟨connection, hc, rfl⟩ := Option.map_eq_some_iff.mp h
    simp [NodeSettings.channelInputs, hc]
  | _ => exact List.mem_of_getElem? h

theorem Wired.topic_at {timestamp : UInt64} {settings : NodeSettings} {o : Output}
    (h : Wired timestamp settings o) : settings.outputTopics[o.channel]? = some o.topic := by
  cases settings with
  | sensor s => obtain ⟨_, hc, ht, _⟩ := h; rw [hc, ht]; rfl
  | transform s => obtain ⟨_, _, hc, ht, _⟩ := h; rw [hc, ht]; rfl
  | fusion s => obtain ⟨_, _, _, hc, ht, _⟩ := h; rw [hc, ht]; rfl
  | cyclic s => obtain ⟨hc, ht, _⟩ := h; rw [hc, ht]; rfl
  | intersection s =>
    obtain ⟨_, connection, _, hc, ht, _⟩ := h
    rw [NodeSettings.outputTopics, List.getElem?_map, hc, ht]; rfl
  | command s => exact h.elim

theorem Wired.consumed {timestamp : UInt64} {settings : NodeSettings} {o : Output} {log : List Publication}
    (h : Wired timestamp settings o) (hk : KnownInputs log settings o) (hwaits : settings.waits = true)
    {topic : Bytes} (ht : topic ∈ settings.channelInputs o.channel) :
    ∃ input ∈ o.inputs, Known log topic input.2 := by
  have hinput : ∀ (j : Nat) (r : Received), (j, r) ∈ o.inputs →
      inputTopic settings o.channel j = some topic → ∃ input ∈ o.inputs, Known log topic input.2 := by
    intro j r hin htopic
    obtain ⟨topic', ht', hk'⟩ := hk (j, r) hin
    cases htopic.symm.trans ht'
    exact ⟨(j, r), hin, hk'⟩
  cases settings with
  | sensor s => cases ht
  | transform s =>
    obtain ⟨r, hin, _⟩ := h
    cases List.mem_singleton.mp ht
    exact hinput 0 r (by rw [hin]; exact List.mem_cons_self ..) rfl
  | fusion s =>
    obtain ⟨r₀, r₁, hin, _⟩ := h
    rcases List.mem_cons.mp ht with rfl | ht
    · exact hinput 0 r₀ (by rw [hin]; exact List.mem_cons_self ..) rfl
    · cases List.mem_singleton.mp ht
      exact hinput 1 r₁ (by rw [hin]; exact List.mem_cons_of_mem _ (List.mem_cons_self ..)) rfl
  | cyclic s => cases hwaits
  | intersection s =>
    obtain ⟨r, connection, hin, hc, _⟩ := h
    simp only [NodeSettings.channelInputs, hc, Option.map_some, Option.toList_some, List.mem_singleton] at ht
    subst ht
    exact hinput 0 r (by rw [hin]; exact List.mem_cons_self ..) (by simp only [inputTopic, hc]; rfl)
  | command s => exact h.elim

/-- `may` bounds the names that messages of a topic carry from above. -/
def MayCarry (sys : System) (may : Bytes → List Bytes) : Prop :=
  ∀ settings ∈ sys.nodes, ∀ out ∈ settings.outputTopics.zipIdx, settings.nodeName ∈ may out.1 ∧
    ∀ topic ∈ settings.channelInputs out.2, ∀ name ∈ may topic, name ∈ may out.1

def MustCarry (sys : System) (must : Bytes → List Bytes) : Prop :=
  ∀ settings ∈ sys.nodes, ∀ out ∈ settings.outputTopics.zipIdx, ∀ name ∈ must out.1, name = settings.nodeName ∨
    (settings.waits = true ∧ ∃ topic ∈ settings.channelInputs out.2, name ∈ must topic)

instance (sys : System) (may : Bytes → List Bytes) : Decidable (MayCarry sys may) :=
  inferInstanceAs (Decidable (∀ settings ∈ sys.nodes, ∀ out ∈ settings.outputTopics.zipIdx,
    settings.nodeName ∈ may out.1 ∧ ∀ topic ∈ settings.channelInputs out.2, ∀ name ∈ may topic, name ∈ may out.1))

instance (sys : System) (must : Bytes → List Bytes) : Decidable (MustCarry sys must) :=
  inferInstanceAs (Decidable (∀ settings ∈ sys.nodes, ∀ out ∈ settings.outputTopics.zipIdx, ∀ name ∈ must out.1,
    name = settings.nodeName ∨ (settings.waits = true ∧ ∃ topic ∈ settings.channelInputs out.2, name ∈ must topic)))

section
variable {sys : System} {log : List Publication} (hp : Proper sys) (hb : sys.benchmarkMode = false)
  (hlog : Log sys log)

theorem BuiltFrom.topic_at {p : Publication} {settings : NodeSettings} {o : Output}
    (h : BuiltFrom sys log p settings o) : settings ∈ sys.nodes ∧ p.channel = o.channel ∧
      (p.topic, p.channel) ∈ settings.outputTopics.zipIdx := by
  obtain ⟨s, heq⟩ := h.eq
  have hch : p.channel = o.channel := by rw [heq]; rfl
  have htopic : p.topic = o.topic := by rw [heq]; rfl
  refine ⟨List.mem_of_getElem? h.node, hch, ?_⟩
  rw [List.mem_zipIdx_iff_getElem?, hch, htopic]
  exact h.wired.topic_at

include hp hb hlog

theorem log_may {may : Bytes → List Bytes} (hmay : MayCarry sys may) :
    ∀ p ∈ log, ∀ e ∈ p.message.used, e.name ∈ may p.topic := by
  have hist := log_history hp hb log hlog
  refine hlog.induct fun p settings o _ hbuilt ih e he => ?_
  obtain ⟨hset, hch, hout⟩ := hbuilt.topic_at
  obtain ⟨hown, hin⟩ := hmay settings hset _ hout
  rw [(hbuilt.used hp hb hlog hist).1] at he
  rcases List.mem_append.mp he with he | he
  · obtain ⟨input, hi, he⟩ := mem_merged he
    obtain ⟨topic, ht, q, hq, hm, rfl⟩ := hbuilt.known input hi
    exact hin q.topic (hch ▸ inputTopic_channel ht) _ (ih input hi q hq e (hm ▸ he))
  · rw [List.mem_singleton.mp he, hp.entry_name hbuilt.node]; exact hown

theorem log_must {must : Bytes → List Bytes} (hmust : MustCarry sys must) :
    ∀ p ∈ log, ∀ name ∈ must p.topic, name ∈ p.message.used.map (·.name) := by
  have hist := log_history hp hb log hlog
  refine hlog.induct fun p settings o _ hbuilt ih name hn => ?_
  obtain ⟨hset, hch, hout⟩ := hbuilt.topic_at
  rw [(hbuilt.used hp hb hlog hist).1, List.map_append, List.mem_append]
  rcases hmust settings hset _ hout name hn with rfl | ⟨hwaits, topic, ht, hn⟩
  · right
    rw [List.map_singleton, hp.entry_name hbuilt.node]; exact List.mem_singleton_self _
  · left
    obtain ⟨input, hi, q, hq, hm, rfl⟩ := hbuilt.wired.consumed hbuilt.known hwaits (hch ▸ ht)
    rw [keys_newest, List.mem_eraseDups, List.map_flatMap]
    refine List.mem_flatMap.mpr ⟨input.2.message, List.mem_map_of_mem hi, ?_⟩
    rw [← hm]; exact ih input hi q hq name hn

/-! ## Timestamps -/

theorem log_latest (htimes : ∀ p ∈ log, ∀ k ∈ p.inputs, ∃ q, log[k]? = some q ∧ q.timestamp < p.timestamp) :
    ∀ p ∈ log, ∀ settings, sys.nodes[p.node]? = some settings →
      ∀ e ∈ p.message.used, e.timestamp ≤ p.timestamp ∧ (e.name ≠ settings.nodeName → e.timestamp < p.timestamp) := by
  have hist := log_history hp hb log hlog
  refine hlog.induct fun p settings o hmem hbuilt ih settings' hs' e he => ?_
  cases hbuilt.node.symm.trans hs'
  rw [(hbuilt.used hp hb hlog hist).1] at he
  rcases List.mem_append.mp he with he | he
  · obtain ⟨input, hi, he⟩ := mem_merged he
    obtain ⟨_, _, q, hq, hm, _⟩ := hbuilt.known input hi
    have hinput : input.2.publication ∈ p.inputs := by
      obtain ⟨s, heq⟩ := hbuilt.eq
      rw [heq]; exact List.mem_map_of_mem hi
    obtain ⟨q', hq', hlt⟩ := htimes p hmem _ hinput
    cases hq.symm.trans hq'
    obtain ⟨settings', hs', _⟩ := (hlog.built (List.mem_of_getElem? hq)).topic_mem
    have hle := (ih input hi q hq settings' hs' e (hm ▸ he)).1
    have := UInt64.lt_of_le_of_lt hle hlt
    exact ⟨UInt64.le_of_lt this, fun _ => this⟩
  · cases List.mem_singleton.mp he
    exact ⟨UInt64.le_refl _, fun hne => absurd (hp.entry_name hbuilt.node p) hne⟩

theorem BuiltFrom.single {p q : Publication} {settings : NodeSettings} {o : Output} {r : Received}
    (h : BuiltFrom sys log p settings o) (hr : o.inputs = [(0, r)]) (hq : log[r.publication]? = some q)
    (hm : q.message = r.message) : p.message.used = q.message.used ++ [p.entry settings.nodeName] := by
  have hist := log_history hp hb log hlog
  rw [(h.used hp hb hlog hist).1, hr, hm]
  simp only [List.map_cons, List.map_nil, List.flatMap_cons, List.flatMap_nil, List.append_nil]
  rw [newest_of_nodup]
  exact hm ▸ (hist q (List.mem_of_getElem? hq)).distinct

end

/-! ## The Autoware graph -/

def autowareDepth (i : Nat) : Nat :=
  [0, 0, 0, 0, 0, 0, 1, 1, 3, 1, 3, 5, 9, 7, 7, 2, 4, 10, 5, 6, 8, 4, 11, 11].getD i 0

theorem autoware_proper : Proper autowareSystem :=
  Proper.of_rank autowareDepth (by decide +kernel) (by decide +kernel) (by decide +kernel) (by decide +kernel)
    (by decide +kernel)

def hotPathNodes : List Bytes := [
  ascii "PointCloudFusion", ascii "RayGroundFilter", ascii "EuclideanClusterDetector",
  ascii "ObjectCollisionEstimator", ascii "FrontLidarDriver", ascii "PointsTransformerFront",
  ascii "RearLidarDriver", ascii "PointsTransformerRear"]

def autowareMay (topic : Bytes) : List Bytes :=
  if topic = ascii "EuclideanClusterSettings" ∨ topic = ascii "EuclideanIntersection" then intersectionNodes
  else if topic ∈ hotPathNodes then hotPathNodes
  else dbwNodes

/-- The names on the two ways to the hot path's end and to the intersection output. -/
def autowareMust (topic : Bytes) : List Bytes :=
  let front := [ascii "FrontLidarDriver", ascii "PointsTransformerFront"]
  let rear := [ascii "RearLidarDriver", ascii "PointsTransformerRear"]
  let fusion := ascii "PointCloudFusion" :: (front ++ rear)
  let filter := ascii "RayGroundFilter" :: fusion
  let detector := ascii "EuclideanClusterDetector" :: filter
  let table := [
    (ascii "FrontLidarDriver", [ascii "FrontLidarDriver"]), (ascii "PointsTransformerFront", front),
    (ascii "RearLidarDriver", [ascii "RearLidarDriver"]), (ascii "PointsTransformerRear", rear),
    (ascii "PointCloudFusion", fusion), (ascii "RayGroundFilter", filter),
    (ascii "EuclideanClusterDetector", detector),
    (ascii "ObjectCollisionEstimator", ascii "ObjectCollisionEstimator" :: detector),
    (ascii "EuclideanClusterSettings", [ascii "EuclideanClusterSettings"]),
    (ascii "EuclideanIntersection", intersectionNodes)]
  (table.lookup topic).getD []

theorem autoware_may : MayCarry autowareSystem autowareMay := by decide +kernel

theorem autoware_must : MustCarry autowareSystem autowareMust := by decide +kernel

theorem PublishedBy.settings {sys : System} {nodeName : Bytes} {p : Publication} (h : PublishedBy sys nodeName p) :
    ∃ settings, sys.nodes[p.node]? = some settings ∧ settings ∈ sys.nodes ∧ settings.nodeName = nodeName := by
  obtain ⟨settings, hs, hname⟩ := Option.map_eq_some_iff.mp h
  exact ⟨settings, hs, List.mem_of_getElem? hs, hname⟩

section
variable {steps : List AtomicStep} {s : State} (h : atomicRun autowareSystem steps = some s)

include h

theorem autoware_facts : Log autowareSystem s.published ∧
    (∀ p ∈ s.published, History autowareSystem s.published p) ∧
    (∀ p ∈ s.published, ∀ e ∈ p.message.used, e.name ∈ autowareMay p.topic) ∧
    ∀ p ∈ s.published, ∀ name ∈ autowareMust p.topic, name ∈ p.message.used.map (·.name) := by
  obtain ⟨steps', hrun⟩ := run_of_atomicRun h
  have hlog := (inv_run hrun).log
  exact ⟨hlog, log_history autoware_proper rfl _ hlog, log_may autoware_proper rfl hlog autoware_may,
    log_must autoware_proper rfl hlog autoware_must⟩

theorem autoware_latest (hclock : Increasing s) : ∀ p ∈ s.published, ∀ settings,
    autowareSystem.nodes[p.node]? = some settings →
    ∀ e ∈ p.message.used, e.timestamp ≤ p.timestamp ∧ (e.name ≠ settings.nodeName → e.timestamp < p.timestamp) := by
  obtain ⟨steps', hrun⟩ := run_of_atomicRun h
  exact log_latest autoware_proper rfl (inv_run hrun).log (timed_run hrun hclock)

theorem autoware_exact {p : Publication} (hp : p ∈ s.published) {expected : List Bytes} (hexp : expected.Nodup)
    (hmay : ∀ name ∈ autowareMay p.topic, name ∈ expected)
    (hmust : ∀ name ∈ expected, name ∈ p.message.used.map (·.name)) :
    hasExactNodes (buildNodeMap p.message) expected = true := by
  obtain ⟨_, hist, hmay', _⟩ := autoware_facts h
  refine hasExactNodes_build (hist p hp).size (hist p hp).distinct hexp fun name => ⟨fun hn => ?_, hmust name⟩
  obtain ⟨e, he, rfl⟩ := List.mem_map.mp hn
  exact hmay _ (hmay' p hp e he)

theorem autoware_own {p : Publication} (hp : p ∈ s.published) {nodeName : Bytes}
    (hby : PublishedBy autowareSystem nodeName p) :
    ∃ e ∈ p.message.used, e.name = nodeName ∧ e.timestamp = p.timestamp := by
  obtain ⟨_, hist, _⟩ := autoware_facts h
  obtain ⟨settings, hs, hlast⟩ := (hist p hp).last
  refine ⟨_, List.mem_of_getLast? hlast, ?_, rfl⟩
  obtain ⟨settings', hs', _, hname⟩ := hby.settings
  cases hs.symm.trans hs'
  rw [autoware_proper.entry_name hs]; exact hname

theorem autoware_before_own (hclock : Increasing s) {p : Publication} (hp : p ∈ s.published) {nodeName : Bytes}
    (hby : PublishedBy autowareSystem nodeName p) {e : TransmissionStats} (he : e ∈ p.message.used)
    (hne : e.name ≠ nodeName) : e.timestamp < p.timestamp := by
  obtain ⟨settings, hs, _, hname⟩ := hby.settings
  exact (autoware_latest h hclock p hp settings hs e he).2 (hname ▸ hne)

theorem estimator_input {p : Publication} (hp : p ∈ s.published)
    (hby : PublishedBy autowareSystem (ascii "ObjectCollisionEstimator") p) :
    p.topic = ascii "ObjectCollisionEstimator" ∧
    ∃ q ∈ s.published, q.topic = ascii "EuclideanClusterDetector" ∧
      PublishedBy autowareSystem (ascii "EuclideanClusterDetector") q ∧ ∀ e ∈ q.message.used, e ∈ p.message.used := by
  obtain ⟨hlog, _⟩ := autoware_facts h
  obtain ⟨settings, o, hbuilt⟩ := hlog.built hp
  obtain ⟨settings', hs', hmem, hname⟩ := hby.settings
  cases hbuilt.node.symm.trans hs'
  have hset : ∀ settings ∈ autowareSystem.nodes, settings.nodeName = ascii "ObjectCollisionEstimator" →
      settings = .transform ⟨ascii "ObjectCollisionEstimator", ascii "EuclideanClusterDetector",
        ascii "ObjectCollisionEstimator"⟩ := by decide
  have hpublisher : ∀ settings ∈ autowareSystem.nodes, ascii "EuclideanClusterDetector" ∈ settings.outputTopics →
      settings.nodeName = ascii "EuclideanClusterDetector" := by decide
  cases hset settings hmem hname
  obtain ⟨r, hr, _, htopic, _⟩ := hbuilt.wired
  refine ⟨?_, ?_⟩
  · obtain ⟨_, heq⟩ := hbuilt.eq
    rw [heq]; exact htopic
  · obtain ⟨topic, ht, q, hq, hm, rfl⟩ := hbuilt.known (0, r) (by rw [hr]; exact List.mem_singleton_self _)
    have hqtopic : q.topic = ascii "EuclideanClusterDetector" := (Option.some.inj ht).symm
    obtain ⟨settings, hs, hout⟩ := (hlog.built (List.mem_of_getElem? hq)).topic_mem
    rw [hqtopic] at hout
    refine ⟨q, List.mem_of_getElem? hq, hqtopic, ?_, fun e he => ?_⟩
    · rw [PublishedBy, hs, Option.map_some, hpublisher settings (List.mem_of_getElem? hs) hout]
    · rw [hbuilt.single autoware_proper rfl hlog hr hq hm]; exact List.mem_append_left _ he

theorem estimator_valid (hclock : Increasing s) {p : Publication} (hp : p ∈ s.published)
    (hby : PublishedBy autowareSystem (ascii "ObjectCollisionEstimator") p) :
    validateHotPathLineage (buildNodeMap p.message) = true := by
  obtain ⟨_, hist, _, hmust⟩ := autoware_facts h
  obtain ⟨htopic, q, hq, hqtopic, hqby, hsub⟩ := estimator_input h hp hby
  have hsize := (hist p hp).size
  have hdistinct := (hist p hp).distinct
  have hnames : ∀ name ∈ hotPathNodes, name ∈ p.message.used.map (·.name) := by
    have hin : ∀ name ∈ hotPathNodes, name ∈ autowareMust (ascii "ObjectCollisionEstimator") := by decide
    exact fun name hn => hmust p hp name (htopic ▸ hin name hn)
  have hmay : ∀ name ∈ autowareMay p.topic, name ∈ hotPathNodes := by
    have hin : ∀ name ∈ autowareMay (ascii "ObjectCollisionEstimator"), name ∈ hotPathNodes := by decide
    exact htopic ▸ hin
  have hexact : hasExactNodes (buildNodeMap p.message) hotPathNodes = true :=
    autoware_exact h hp (by decide) hmay hnames
  have hfront := (hasNode_build hsize hdistinct (ascii "FrontLidarDriver")).mpr (hnames _ (by decide))
  have hrear := (hasNode_build hsize hdistinct (ascii "RearLidarDriver")).mpr (hnames _ (by decide))
  -- the detector's own entry lies between that of the ground filter and that of the estimator
  obtain ⟨d, hd, hdname, hdtime⟩ := autoware_own h hq hqby
  obtain ⟨o, ho, honame, hotime⟩ := autoware_own h hp hby
  obtain ⟨f, hf, hfname⟩ : ∃ f ∈ q.message.used, f.name = ascii "RayGroundFilter" := by
    have hin : ascii "RayGroundFilter" ∈ autowareMust (ascii "EuclideanClusterDetector") := by decide
    exact List.mem_map.mp (hmust q hq _ (hqtopic ▸ hin))
  have hfd : f.timestamp < d.timestamp := by
    rw [hdtime]
    exact autoware_before_own h hclock hq hqby hf (by rw [hfname]; decide)
  have hdo : d.timestamp < o.timestamp := by
    rw [hotime]
    exact autoware_before_own h hclock hp hby (hsub d hd) (by rw [hdname]; decide)
  have hts₁ := (tsBefore_build hsize hdistinct (hsub f hf) (hsub d hd)).mpr hfd
  have hts₂ := (tsBefore_build hsize hdistinct (hsub d hd) ho).mpr hdo
  rw [hfname, hdname] at hts₁
  rw [hdname, honame] at hts₂
  rw [hotPathNodes] at hexact
  simp only [validateHotPathLineage, hfront, hrear, hts₁, hts₂, hexact, Bool.not_true, Bool.and_self,
    Bool.false_eq_true, ite_false, ite_true, List.cons_append, List.nil_append]

theorem intersection_valid {p : Publication} (hp : p ∈ s.published) (htopic : p.topic = ascii "EuclideanIntersection") :
    validateIntersectionLineage (buildNodeMap p.message) = true := by
  obtain ⟨_, _, _, hmust⟩ := autoware_facts h
  have hmay : ∀ name ∈ autowareMay (ascii "EuclideanIntersection"), name ∈ intersectionNodes := by decide
  have hall : ∀ name ∈ intersectionNodes, name ∈ autowareMust (ascii "EuclideanIntersection") := by decide
  exact autoware_exact h hp (by decide) (htopic ▸ hmay) fun name hn =>
    hmust p hp name (htopic ▸ hall name hn)

end

/-- **The hot-path and intersection validators accept every genuine completion.** -/
theorem autoware_validators {steps : List AtomicStep} {s : State} (h : atomicRun autowareSystem steps = some s)
    (hclock : s.clock.Pairwise (· < ·)) :
    (∀ p ∈ s.published, PublishedBy autowareSystem (ascii "ObjectCollisionEstimator") p →
      validateHotPathLineage (buildNodeMap p.message) = true) ∧
    ∀ p ∈ s.published, PublishedBy autowareSystem (ascii "EuclideanClusterDetector") p →
      p.topic = ascii "EuclideanIntersection" → validateIntersectionLineage (buildNodeMap p.message) = true :=
  ⟨fun _ hp hby => estimator_valid h hclock hp hby, fun _ hp _ htopic => intersection_valid h hp htopic⟩

theorem hotPathCycle_valid : ∃ s, atomicRun autowareSystem hotPathCycle = some s ∧
    (∃ p, s.published[7]? = some p ∧ validateHotPathLineage (buildNodeMap p.message) = true) ∧
    ∃ p, s.published[9]? = some p ∧ validateIntersectionLineage (buildNodeMap p.message) = true := by
  have hsome : ((atomicRun autowareSystem hotPathCycle).map fun s =>
      (decide (s.clock.Pairwise (· < ·)),
        s.published[7]?.map fun p => decide (PublishedBy autowareSystem (ascii "ObjectCollisionEstimator") p),
        s.published[9]?.map fun p => (decide (PublishedBy autowareSystem (ascii "EuclideanClusterDetector") p),
          decide (p.topic = ascii "EuclideanIntersection")))) =
      some (true, some true, some (true, true)) := by decide +kernel
  obtain ⟨s, hs, hfacts⟩ := Option.map_eq_some_iff.mp hsome
  rw [Prod.mk.injEq, Prod.mk.injEq, decide_eq_true_eq] at hfacts
  obtain ⟨hclock, h₁, h₂⟩ := hfacts
  obtain ⟨p, hp, hby⟩ := Option.map_eq_some_iff.mp h₁
  obtain ⟨q, hq, hqfacts⟩ := Option.map_eq_some_iff.mp h₂
  rw [Prod.mk.injEq, decide_eq_true_eq, decide_eq_true_eq] at hqfacts
  obtain ⟨hhot, hinter⟩ := autoware_validators hs hclock
  exact ⟨s, hs, ⟨p, hp, hhot p (List.mem_of_getElem? hp) (of_decide_eq_true hby)⟩,
    q, hq, hinter q (List.mem_of_getElem? hq) hqfacts.1 hqfacts.2⟩

/-! ## The drive-by-wire validator -/

/-- For a vehicle interface message with all 21 names, the validator decides
whether the kept fusion entry is older than the kept voxel grid entry and the
kept planner entry older than the kept controller entry; everything else it
checks always holds. -/
theorem vehicleInterface_lineage {steps : List AtomicStep} {s : State} (h : atomicRun autowareSystem steps = some s)
    (hclock : s.clock.Pairwise (· < ·)) : ∀ p ∈ s.published,
    PublishedBy autowareSystem (ascii "VehicleInterface") p →
    (∀ name ∈ dbwNodes, name ∈ p.message.used.map (·.name)) →
    hasExactNodes (buildNodeMap p.message) dbwNodes = true ∧
    tsBefore (buildNodeMap p.message) (ascii "MPCController") (ascii "VehicleInterface") = true ∧
    ∀ fusion ∈ p.message.used, ∀ voxel ∈ p.message.used, ∀ planner ∈ p.message.used, ∀ controller ∈ p.message.used,
      fusion.name = ascii "PointCloudFusion" → voxel.name = ascii "VoxelGridDownsampler" →
      planner.name = ascii "BehaviorPlanner" → controller.name = ascii "MPCController" →
      (validateDbwLineage (buildNodeMap p.message) = true ↔
        fusion.timestamp < voxel.timestamp ∧ planner.timestamp < controller.timestamp) := by
  intro p hp hby hall
  obtain ⟨hlog, hist, _⟩ := autoware_facts h
  have hsize := (hist p hp).size
  have hdistinct := (hist p hp).distinct
  have htopic : p.topic = ascii "VehicleInterface" := by
    have hout : ∀ settings ∈ autowareSystem.nodes, settings.nodeName = ascii "VehicleInterface" →
        settings.outputTopics = [ascii "VehicleInterface"] := by decide
    obtain ⟨settings, hs, hmem⟩ := (hlog.built hp).topic_mem
    obtain ⟨settings', hs', hin, hname⟩ := hby.settings
    cases hs.symm.trans hs'
    rw [hout settings hin hname] at hmem
    exact List.mem_singleton.mp hmem
  have hmay : ∀ name ∈ autowareMay (ascii "VehicleInterface"), name ∈ dbwNodes := by decide
  have hexact : hasExactNodes (buildNodeMap p.message) dbwNodes = true :=
    autoware_exact h hp (by decide) (htopic ▸ hmay) hall
  obtain ⟨own, ho, honame, hotime⟩ := autoware_own h hp hby
  obtain ⟨mpc, hmpc, hmpcname⟩ := List.mem_map.mp (hall (ascii "MPCController") (by decide))
  have hlast : tsBefore (buildNodeMap p.message) (ascii "MPCController") (ascii "VehicleInterface") = true := by
    rw [← hmpcname, ← honame, tsBefore_build hsize hdistinct hmpc ho, hotime]
    exact autoware_before_own h hclock hp hby hmpc (by rw [hmpcname]; decide)
  refine ⟨hexact, hlast, fun f hf v hv b hb c hc hfn hvn hbn hcn => ?_⟩
  have hfv := tsBefore_build hsize hdistinct hf hv
  have hbc := tsBefore_build hsize hdistinct hb hc
  rw [hfn, hvn] at hfv
  rw [hbn, hcn] at hbc
  rw [← hfv, ← hbc]
  simp only [validateDbwLineage, hexact, hlast, Bool.not_true, Bool.false_eq_true, ite_false]
  cases tsBefore (buildNodeMap p.message) (ascii "PointCloudFusion") (ascii "VoxelGridDownsampler") <;>
    cases tsBefore (buildNodeMap p.message) (ascii "BehaviorPlanner") (ascii "MPCController") <;> simp

/-- A run that ends in a vehicle interface message with all 21 names, and
whether its entries are in the order that the validator asks for. -/
def dbwCycle (steps : List AtomicStep) (k : Nat) (fusionFirst plannerFirst : Bool) : Bool :=
  (atomicRun autowareSystem steps).any fun s => decide (s.clock.Pairwise (· < ·)) && s.published[k]?.any fun p =>
    decide (PublishedBy autowareSystem (ascii "VehicleInterface") p) &&
    decide (∀ name ∈ dbwNodes, name ∈ p.message.used.map (·.name)) &&
    decide (∃ f ∈ p.message.used, f.name = ascii "PointCloudFusion" ∧
      ∃ v ∈ p.message.used, v.name = ascii "VoxelGridDownsampler" ∧ decide (f.timestamp < v.timestamp) = fusionFirst) &&
    decide (∃ b ∈ p.message.used, b.name = ascii "BehaviorPlanner" ∧
      ∃ c ∈ p.message.used, c.name = ascii "MPCController" ∧ decide (b.timestamp < c.timestamp) = plannerFirst)

/-- What the validator says of a vehicle interface message with all 21 names. -/
def DbwDecides (steps : List AtomicStep) (k : Nat) (accepted : Bool) : Prop :=
  ∃ s p, atomicRun autowareSystem steps = some s ∧ s.clock.Pairwise (· < ·) ∧ s.published[k]? = some p ∧
    PublishedBy autowareSystem (ascii "VehicleInterface") p ∧
    (∀ name ∈ dbwNodes, name ∈ p.message.used.map (·.name)) ∧
    validateDbwLineage (buildNodeMap p.message) = accepted

/-- One cycle is accepted; two scans that meet, and a late message of the planner, are not. -/
theorem dbwCycles_decided :
    DbwDecides wholeCycle 20 true ∧ DbwDecides mixedCycle 23 false ∧ DbwDecides latePlanner 21 false := by
  have hdecides : ∀ steps k fusionFirst plannerFirst, dbwCycle steps k fusionFirst plannerFirst = true →
      DbwDecides steps k (fusionFirst && plannerFirst) := by
    intro steps k fusionFirst plannerFirst hcycle
    obtain ⟨s, hs, hfacts⟩ := (Option.any_eq_true _ _).mp hcycle
    obtain ⟨hclock, hpublished⟩ := Bool.and_eq_true_iff.mp hfacts
    obtain ⟨p, hp, hfacts⟩ := (Option.any_eq_true _ _).mp hpublished
    simp only [Bool.and_eq_true, decide_eq_true_eq] at hfacts hclock
    obtain ⟨⟨⟨hby, hall⟩, f, hf, hfn, v, hv, hvn, hfusion⟩, b, hb, hbn, c, hc, hcn, hplanner⟩ := hfacts
    refine ⟨s, p, hs, hclock, hp, hby, hall, ?_⟩
    obtain ⟨_, _, hiff⟩ := vehicleInterface_lineage hs hclock p (List.mem_of_getElem? hp) hby hall
    rw [Bool.eq_iff_iff, hiff f hf v hv b hb c hc hfn hvn hbn hcn, ← hfusion, ← hplanner]
    simp
  exact ⟨hdecides _ _ true true (by decide +kernel), hdecides _ _ false true (by decide +kernel),
    hdecides _ _ true false (by decide +kernel)⟩

/-- The validator is not complete for vehicle interface messages with all 21 names. -/
theorem dbw_incomplete : ¬ ∀ (steps : List AtomicStep) (s : State), atomicRun autowareSystem steps = some s →
    s.clock.Pairwise (· < ·) → ∀ p ∈ s.published, PublishedBy autowareSystem (ascii "VehicleInterface") p →
    (∀ name ∈ dbwNodes, name ∈ p.message.used.map (·.name)) →
    validateDbwLineage (buildNodeMap p.message) = true := by
  intro hclaim
  have hsome : ((atomicRun autowareSystem mixedCycle).map fun s =>
      (decide (s.clock.Pairwise (· < ·)), s.published[23]?.map fun p =>
        (decide (PublishedBy autowareSystem (ascii "VehicleInterface") p),
          decide (∀ name ∈ dbwNodes, name ∈ p.message.used.map (·.name)),
          validateDbwLineage (buildNodeMap p.message)))) =
      some (true, some (true, true, false)) := by decide +kernel
  obtain ⟨s, hs, hfacts⟩ := Option.map_eq_some_iff.mp hsome
  rw [Prod.mk.injEq, decide_eq_true_eq] at hfacts
  obtain ⟨p, hp, hpfacts⟩ := Option.map_eq_some_iff.mp hfacts.2
  rw [Prod.mk.injEq, Prod.mk.injEq, decide_eq_true_eq, decide_eq_true_eq] at hpfacts
  rw [hclaim mixedCycle s hs hfacts.1 p (List.mem_of_getElem? hp) hpfacts.1 hpfacts.2.1] at hpfacts
  cases hpfacts.2.2

end ReferenceSystem
