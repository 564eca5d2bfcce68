import ReferenceSystem.SystemSound
import Mathlib.Logic.Relation
import Mathlib.Order.SetNotation

/-!
# The oldest source

Each node folds over the sources of its direct inputs only. By induction over
the log, what it writes is the oldest of all sensor publications reachable
through the messages that the publishing callbacks consumed.
-/

namespace ReferenceSystem

/-- `x` is invalid if `S` is empty, else an element of `S` with the least timestamp. -/
structure Oldest (S : Set ProvenanceSource) (x : ProvenanceSource) : Prop where
  valid_iff : x.valid = true ↔ S.Nonempty
  mem : x.valid = true → x ∈ S
  le : x.valid = true → ∀ y ∈ S, x.timestampNs ≤ y.timestampNs

theorem Oldest.fold {ι : Type} {l : List ι} {S : ι → Set ProvenanceSource} {x : ι → ProvenanceSource}
    (h : ∀ i ∈ l, Oldest (S i) (x i)) : Oldest {y | ∃ i ∈ l, y ∈ S i} (oldestProvenanceSource (l.map x)) := by
  have hvalid : ∀ i ∈ l, ∀ y ∈ S i, (x i).valid = true := fun i hi y hy => (h i hi).valid_iff.mpr ⟨y, hy⟩
  refine ⟨?_, fun hv => ?_, fun hv y hy => ?_⟩
  · rw [oldest_valid_iff]
    constructor
    · rintro ⟨source, hs, hv⟩
      obtain ⟨i, hi, rfl⟩ := List.mem_map.mp hs
      obtain ⟨y, hy⟩ := (h i hi).valid_iff.mp hv
      exact ⟨y, i, hi, hy⟩
    · rintro ⟨y, i, hi, hy⟩
      exact ⟨x i, List.mem_map_of_mem hi, hvalid i hi y hy⟩
  · obtain ⟨i, hi, he⟩ := List.mem_map.mp (oldest_mem hv)
    rw [← he] at hv ⊢
    exact ⟨i, hi, (h i hi).mem hv⟩
  · obtain ⟨i, hi, hy⟩ := hy
    have hvi := hvalid i hi y hy
    exact UInt64.le_trans (oldest_le (List.mem_map_of_mem hi) hvi) ((h i hi).le hvi y hy)

/-! ## Reachable sources -/

def Consumed (log : List Publication) (k j : Nat) : Prop := ∃ p, log[k]? = some p ∧ j ∈ p.inputs

def SourceOf (sys : System) (q : Publication) (x : ProvenanceSource) : Prop :=
  ∃ settings, sys.nodes[q.node]? = some (.sensor settings) ∧ settings.sourceKind ≠ 0 ∧
    x = ⟨settings.sourceKind, q.sequence, q.timestamp⟩

/-- The sources reachable from `k` through any number of consumed inputs. -/
def reachableSources (sys : System) (log : List Publication) (k : Nat) : Set ProvenanceSource :=
  {x | ∃ j q, Relation.ReflTransGen (Consumed log) k j ∧ log[j]? = some q ∧ SourceOf sys q x}

theorem mem_reachableSources {sys : System} {log : List Publication} {k : Nat} {p : Publication}
    (hp : log[k]? = some p) {x : ProvenanceSource} :
    x ∈ reachableSources sys log k ↔ SourceOf sys p x ∨ ∃ j ∈ p.inputs, x ∈ reachableSources sys log j := by
  constructor
  · rintro ⟨j, q, hreach, hq, hx⟩
    rcases Relation.ReflTransGen.cases_head_iff.mp hreach with rfl | ⟨c, ⟨p', hp', hc⟩, hreach⟩
    · cases hp.symm.trans hq; exact Or.inl hx
    · cases hp.symm.trans hp'; exact Or.inr ⟨c, hc, j, q, hreach, hq, hx⟩
  · rintro (hx | ⟨c, hc, j, q, hreach, hq, hx⟩)
    · exact ⟨k, p, Relation.ReflTransGen.refl, hp, hx⟩
    · exact ⟨j, q, Relation.ReflTransGen.head ⟨p, hp, hc⟩ hreach, hq, hx⟩

/-! ## Induction over the log -/

section
variable {sys : System} {log : List Publication} {k : Nat} {p : Publication} {settings : NodeSettings} {o : Output}

theorem reachableSources_inputs (hp : log[k]? = some p) (hnode : sys.nodes[p.node]? = some settings)
    (hsensor : ∀ a, settings ≠ .sensor a) (hin : p.inputs = o.inputs.map (·.2.publication)) :
    reachableSources sys log k = {y | ∃ input ∈ o.inputs, y ∈ reachableSources sys log input.2.publication} := by
  ext x
  rw [mem_reachableSources hp, hin]
  constructor
  · rintro (⟨a, ha, _⟩ | ⟨j, hj, hx⟩)
    · exact absurd (Option.some.inj (hnode.symm.trans ha)) (hsensor a)
    · obtain ⟨input, hi, rfl⟩ := List.mem_map.mp hj
      exact ⟨input, hi, hx⟩
  · rintro ⟨input, hi, hx⟩
    exact Or.inr ⟨_, List.mem_map_of_mem hi, hx⟩

theorem oldest_sensor {a : SensorSettings} (hp : log[k]? = some p) (hnode : sys.nodes[p.node]? = some (.sensor a))
    (hin : p.inputs = []) : Oldest (reachableSources sys log k) ⟨a.sourceKind, p.sequence, p.timestamp⟩ := by
  have hmem : ∀ x, x ∈ reachableSources sys log k ↔
      a.sourceKind ≠ 0 ∧ x = ⟨a.sourceKind, p.sequence, p.timestamp⟩ := by
    intro x
    rw [mem_reachableSources hp, hin]
    constructor
    · rintro (⟨b, hb, hkind, hx⟩ | ⟨j, hj, _⟩)
      · cases hnode.symm.trans hb; exact ⟨hkind, hx⟩
      · cases hj
    · rintro ⟨hkind, hx⟩
      exact Or.inl ⟨a, hnode, hkind, hx⟩
  refine ⟨?_, fun hv => (hmem _).mpr ⟨of_decide_eq_true hv, rfl⟩, fun _ y hy => ?_⟩
  · constructor
    · exact fun hv => ⟨_, (hmem _).mpr ⟨of_decide_eq_true hv, rfl⟩⟩
    · rintro ⟨x, hx⟩
      exact decide_eq_true ((hmem x).mp hx).1
  · rw [((hmem y).mp hy).2]; exact UInt64.le_refl _

theorem oldest_output (hp : log[k]? = some p) (hnode : sys.nodes[p.node]? = some settings)
    (hin : p.inputs = o.inputs.map (·.2.publication)) (hseq : p.sequence = o.sequence)
    (hw : Wired p.timestamp settings o)
    (ih : ∀ input ∈ o.inputs,
      Oldest (reachableSources sys log input.2.publication) (provenanceSource input.2.message)) :
    Oldest (reachableSources sys log k) o.source := by
  have hone : ∀ r, o.inputs = [(0, r)] → (∀ a, settings ≠ .sensor a) →
      Oldest (reachableSources sys log k) (provenanceSource r.message) := by
    intro r hr hsensor
    have : reachableSources sys log k = reachableSources sys log r.publication := by
      rw [reachableSources_inputs hp hnode hsensor hin, hr]; simp
    rw [this]
    exact ih (0, r) (by rw [hr]; exact List.mem_singleton_self _)
  cases settings with
  | sensor a =>
    obtain ⟨hin0, _, _, hsource, _⟩ := hw
    rw [hsource, ← hseq]
    exact oldest_sensor hp hnode (by rw [hin, hin0]; rfl)
  | transform a =>
    obtain ⟨r, hr, _, _, hsource, _⟩ := hw
    rw [hsource]; exact hone r hr (fun _ h => by cases h)
  | intersection a =>
    obtain ⟨r, _, hr, _, _, hsource, _⟩ := hw
    rw [hsource]; exact hone r hr (fun _ h => by cases h)
  | fusion a =>
    obtain ⟨r₀, r₁, hr, _, _, hsource, _⟩ := hw
    rw [hsource, reachableSources_inputs hp hnode (fun _ h => by cases h) hin]
    have := Oldest.fold ih
    rwa [hr] at this ⊢
  | cyclic a =>
    obtain ⟨_, _, hsource, _⟩ := hw
    rw [hsource, reachableSources_inputs hp hnode (fun _ h => by cases h) hin]
    exact Oldest.fold ih
  | command a => exact hw.elim

end

theorem log_source {sys : System} {log : List Publication} (hlog : Log sys log) : ∀ (k : Nat) (p : Publication),
    log[k]? = some p → Oldest (reachableSources sys log k) (provenanceSource p.message) := by
  intro k
  induction k using Nat.strongRecOn with
  | ind k ih =>
    intro p hp
    obtain ⟨settings, o, hnode, hwired, hknown, s, heq⟩ := hlog k p hp
    have hsource : provenanceSource p.message = o.source := by rw [heq]; rfl
    rw [hsource]
    refine oldest_output hp hnode (by rw [heq]; rfl) (by rw [heq]; rfl) hwired fun input hi => ?_
    obtain ⟨_, _, q, hq, hm, _⟩ := hknown input hi
    rw [List.getElem?_take] at hq
    split at hq
    · rename_i hlt
      rw [← hm]; exact ih _ hlt q hq
    · cases hq

/-- **The source of every message and of every sink record is the oldest one
it reaches.** -/
theorem published_source {sys : System} {steps : List AtomicStep} {s : State} (h : atomicRun sys steps = some s) :
    (∀ k p, s.published[k]? = some p →
      Oldest (reachableSources sys s.published k) (provenanceSource p.message)) ∧
    ∀ e ∈ s.records, ∀ node sequence timestampNs input origin,
      e.record = .sink node sequence timestampNs input origin →
      ∃ k q, e.inputs = [k] ∧ s.published[k]? = some q ∧ provenanceIdentity q.message = input ∧
        Oldest (reachableSources sys s.published k) origin := by
  obtain ⟨steps', hrun⟩ := run_of_atomicRun h
  have hlog := log_source (inv_run hrun).log
  refine ⟨hlog, fun e he node sequence timestampNs input origin hrec => ?_⟩
  obtain ⟨_, rs, hin, hid, hrs, hsink⟩ := entries_run hrun e (Or.inl (records_emitted hrun e he))
  obtain ⟨r, rfl, rfl⟩ := hsink _ _ _ _ _ hrec
  obtain ⟨_, q, hq, hm⟩ := hrs r (List.mem_singleton_self r)
  have hinput : [input] = [provenanceIdentity r.message] := by rw [hrec] at hid; exact hid
  refine ⟨r.publication, q, hin, hq, ?_, ?_⟩
  · rw [hm]; exact (List.cons.inj hinput).1.symm
  · rw [← hm]; exact hlog _ q hq

/-- The sink of the small system has received the fused message and names the rear lidar, which fired first. -/
theorem lidarRun_source : ∃ s, atomicRun lidarSystem lidarRun = some s ∧
    ∃ e ∈ s.records, e.record =
      .sink (ascii "VehicleDBWSystem") 0 51 ⟨ascii "PointCloudFusion", 0, 0⟩ ⟨2, 0, 10⟩ ∧
      ∃ k q, e.inputs = [k] ∧ s.published[k]? = some q ∧
        provenanceIdentity q.message = ⟨ascii "PointCloudFusion", 0, 0⟩ ∧
        Oldest (reachableSources lidarSystem s.published k) ⟨2, 0, 10⟩ := by
  have hsome : (atomicRun lidarSystem lidarRun).any (fun s => s.records.any fun e => e.record =
      .sink (ascii "VehicleDBWSystem") 0 51 ⟨ascii "PointCloudFusion", 0, 0⟩ ⟨2, 0, 10⟩) := by decide
  obtain ⟨s, hs, hrecords⟩ := (Option.any_eq_true _ _).mp hsome
  obtain ⟨e, he, hrecord⟩ := List.any_eq_true.mp hrecords
  have hsink := of_decide_eq_true hrecord
  exact ⟨s, hs, e, he, hsink, (published_source hs).2 e he _ _ _ _ _ hsink⟩

end ReferenceSystem
