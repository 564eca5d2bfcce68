import ReferenceSystem.SamplesSound

/-!
# Source roots

`extract_source_roots` and `select_source_reference`: the newest entry of each
source node in a history, and the earliest or latest of them.
`normalized_source_roots` does the same for a list of identities. The
`std::map` of roots is kept as its values in the order of their names.
-/

namespace ReferenceSystem

structure SourceIdentity where
  nodeName : Bytes
  sequenceNumber : UInt32
  timestamp : UInt64
  deriving DecidableEq, Repr

def isNewerSourceIdentity (candidate current : SourceIdentity) : Bool :=
  candidate.sequenceNumber > current.sequenceNumber ||
    (candidate.sequenceNumber == current.sequenceNumber && candidate.timestamp > current.timestamp)

def sourceReferenceBefore (a b : SourceIdentity) : Bool :=
  if a.timestamp ≠ b.timestamp then a.timestamp < b.timestamp
  else if a.nodeName ≠ b.nodeName then a.nodeName < b.nodeName
  else a.sequenceNumber < b.sequenceNumber

def findRoot (roots : List SourceIdentity) (name : Bytes) : Option SourceIdentity :=
  roots.find? fun root => root.nodeName = name

/-- `roots[name] = candidate`. -/
def setRoot : List SourceIdentity → SourceIdentity → List SourceIdentity
  | [], candidate => [candidate]
  | root :: roots, candidate =>
    if candidate.nodeName < root.nodeName then candidate :: root :: roots
    else if candidate.nodeName = root.nodeName then candidate :: roots
    else root :: setRoot roots candidate

def rootStep (sample : Message) (sourceNodes : List Bytes) (roots : List SourceIdentity) (i : Nat) :
    List SourceIdentity :=
  let name := nodeNameAt sample i
  if !sourceNodes.contains name then roots else
  let candidate := ⟨name, (sample.statsAt i).sequenceNumber, (sample.statsAt i).timestamp⟩
  match findRoot roots name with
  | none => setRoot roots candidate
  | some existing => if isNewerSourceIdentity candidate existing then setRoot roots candidate else roots

def extractSourceRoots (sample : Message) (sourceNodes : List Bytes) : List SourceIdentity :=
  (List.range sample.size).foldl (rootStep sample sourceNodes) []

/-- `std::min_element` and `std::max_element`: the first of the least, or of the greatest. -/
def selectSourceReference (roots : List SourceIdentity) (useMinimum : Bool) : SourceIdentity :=
  match roots with
  | [] => ⟨[], 0, 0⟩
  | root :: roots =>
    roots.foldl (fun selected r =>
      if useMinimum then (if sourceReferenceBefore r selected then r else selected)
      else (if sourceReferenceBefore selected r then r else selected)) root

/-- The body of the loop over the roots. -/
def normalizeStep (uniqueRoots : List SourceIdentity) (root : SourceIdentity) : List SourceIdentity :=
  if root.nodeName = [] then uniqueRoots else
  match findRoot uniqueRoots root.nodeName with
  | none => setRoot uniqueRoots root
  | some existing => if isNewerSourceIdentity root existing then setRoot uniqueRoots root else uniqueRoots

def normalizedSourceRoots (roots : List SourceIdentity) (reference : SourceIdentity) : List SourceIdentity :=
  let uniqueRoots := roots.foldl normalizeStep []
  if reference.nodeName ≠ [] then setRoot uniqueRoots reference else uniqueRoots

/-! ## Roots come from entries -/

theorem mem_setRoot {roots : List SourceIdentity} {candidate r : SourceIdentity}
    (h : r ∈ setRoot roots candidate) : r = candidate ∨ r ∈ roots := by
  induction roots with
  | nil => exact Or.inl (List.mem_singleton.mp h)
  | cons root roots ih =>
    unfold setRoot at h
    split at h
    · exact List.mem_cons.mp h
    · split at h
      · exact (List.mem_cons.mp h).imp_right (List.mem_cons_of_mem _)
      · rcases List.mem_cons.mp h with rfl | h
        · exact Or.inr (List.mem_cons_self ..)
        · exact (ih h).imp_right (List.mem_cons_of_mem _)

theorem setRoot_ne_nil (roots : List SourceIdentity) (candidate : SourceIdentity) : setRoot roots candidate ≠ [] := by
  cases roots with
  | nil => simp [setRoot]
  | cons root roots =>
    unfold setRoot
    split
    · simp
    · split <;> simp

def RootOf (sourceNodes : List Bytes) (e : TransmissionStats) (r : SourceIdentity) : Prop :=
  e.name ∈ sourceNodes ∧ r = ⟨e.name, e.sequenceNumber, e.timestamp⟩

theorem rootStep_cases (sample : Message) (sourceNodes : List Bytes) (roots : List SourceIdentity) (i : Nat) :
    (nodeNameAt sample i ∉ sourceNodes ∧ rootStep sample sourceNodes roots i = roots) ∨
    (nodeNameAt sample i ∈ sourceNodes ∧ rootStep sample sourceNodes roots i ≠ [] ∧
      ∀ r ∈ rootStep sample sourceNodes roots i, r ∈ roots ∨ RootOf sourceNodes (sample.statsAt i) r) := by
  by_cases hname : nodeNameAt sample i ∈ sourceNodes
  · right
    have hset : ∀ r ∈ setRoot roots ⟨nodeNameAt sample i, (sample.statsAt i).sequenceNumber,
        (sample.statsAt i).timestamp⟩, r ∈ roots ∨ RootOf sourceNodes (sample.statsAt i) r := by
      intro r hr
      rcases mem_setRoot hr with rfl | hr
      · exact Or.inr ⟨hname, rfl⟩
      · exact Or.inl hr
    refine ⟨hname, ?_, ?_⟩
    · simp only [rootStep, List.contains_eq_mem, hname, decide_true, Bool.not_true, Bool.false_eq_true, ite_false]
      split
      · apply setRoot_ne_nil
      · rename_i existing hfound
        split
        · apply setRoot_ne_nil
        · exact List.ne_nil_of_mem (List.mem_of_find?_eq_some hfound)
    · simp only [rootStep, List.contains_eq_mem, hname, decide_true, Bool.not_true, Bool.false_eq_true, ite_false]
      split
      · exact hset
      · split
        · exact hset
        · exact fun r hr => Or.inl hr
  · left
    refine ⟨hname, ?_⟩
    simp [rootStep, hname]

theorem rootStep_foldl (sample : Message) (sourceNodes : List Bytes) (is : List Nat) : ∀ roots : List SourceIdentity,
    (∀ r ∈ is.foldl (rootStep sample sourceNodes) roots,
      r ∈ roots ∨ ∃ i ∈ is, RootOf sourceNodes (sample.statsAt i) r) ∧
    (is.foldl (rootStep sample sourceNodes) roots = [] ↔ roots = [] ∧ ∀ i ∈ is, nodeNameAt sample i ∉ sourceNodes) := by
  induction is with
  | nil => intro roots; simp
  | cons i is ih =>
    intro roots
    rw [List.foldl_cons]
    obtain ⟨hmem, hnil⟩ := ih (rootStep sample sourceNodes roots i)
    rcases rootStep_cases sample sourceNodes roots i with ⟨hname, hstep⟩ | ⟨hname, hne, hstep⟩
    · rw [hstep] at hmem hnil ⊢
      constructor
      · intro r hr
        rcases hmem r hr with h | ⟨j, hj, h⟩
        · exact Or.inl h
        · exact Or.inr ⟨j, List.mem_cons_of_mem _ hj, h⟩
      · rw [hnil]
        simp [hname]
    · constructor
      · intro r hr
        rcases hmem r hr with h | ⟨j, hj, h⟩
        · rcases hstep r h with h | h
          · exact Or.inl h
          · exact Or.inr ⟨i, List.mem_cons_self .., h⟩
        · exact Or.inr ⟨j, List.mem_cons_of_mem _ hj, h⟩
      · rw [hnil]
        simp [hname, hne]

section
variable {m : Message} (hm : m.size ≤ statsCapacity) (sourceNodes : List Bytes)
include hm

theorem mem_extractSourceRoots {r : SourceIdentity} (h : r ∈ extractSourceRoots m sourceNodes) :
    ∃ e ∈ m.used, RootOf sourceNodes e r := by
  rcases (rootStep_foldl m sourceNodes (List.range m.size) []).1 r h with h | ⟨i, hi, h⟩
  · cases h
  · refine ⟨m.statsAt i, ?_, h⟩
    rw [used_eq_map m hm]
    exact List.mem_map_of_mem hi

theorem extractSourceRoots_ne_nil :
    extractSourceRoots m sourceNodes ≠ [] ↔ ∃ e ∈ m.used, e.name ∈ sourceNodes := by
  have h := (rootStep_foldl m sourceNodes (List.range m.size) []).2
  rw [Ne, extractSourceRoots, h, used_eq_map m hm]
  simp [nodeNameAt]

end

theorem selectSourceReference_mem {roots : List SourceIdentity} (useMinimum : Bool) (h : roots ≠ []) :
    selectSourceReference roots useMinimum ∈ roots := by
  have key : ∀ (rs : List SourceIdentity) (root : SourceIdentity),
      selectSourceReference (root :: rs) useMinimum ∈ root :: rs := by
    intro rs
    induction rs with
    | nil => intro root; exact List.mem_singleton_self _
    | cons r rs ih =>
      intro root
      have hstep : ∃ next, (next = root ∨ next = r) ∧
          selectSourceReference (root :: r :: rs) useMinimum = selectSourceReference (next :: rs) useMinimum := by
        refine ⟨_, ?_, rfl⟩
        cases useMinimum
        · by_cases hb : sourceReferenceBefore root r = true <;> simp [hb]
        · by_cases hb : sourceReferenceBefore r root = true <;> simp [hb]
      obtain ⟨next, hnext, heq⟩ := hstep
      rw [heq]
      rcases List.mem_cons.mp (ih next) with h | h
      · rw [h]
        rcases hnext with rfl | rfl
        · exact List.mem_cons_self ..
        · exact List.mem_cons_of_mem _ (List.mem_cons_self ..)
      · exact List.mem_cons_of_mem _ (List.mem_cons_of_mem _ h)
  cases roots with
  | nil => exact absurd rfl h
  | cons root rs => exact key rs root

example : selectSourceReference [⟨ascii "SameNode", 1, 100⟩, ⟨ascii "SameNode", 2, 100⟩] true =
    ⟨ascii "SameNode", 1, 100⟩ := by decide

end ReferenceSystem
