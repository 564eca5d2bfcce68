import ReferenceSystem.Roots
import Mathlib.Data.List.Induction
import Mathlib.Data.List.Sort

/-!
# Canonical source roots

A map of roots is a list in strictly increasing order of names, and what it
holds under a name is the newest identity that was offered under it. Two such
lists with the same elements are equal, so neither the order nor the number of
times in which identities are offered matters. The reference among the roots is
taken in a second order, which is total as well.
-/

namespace ReferenceSystem

/-! ## The order of identities -/

abbrev IdentityRank := ℕ ×ₗ ℕ

def SourceIdentity.rank (r : SourceIdentity) : IdentityRank := toLex (r.sequenceNumber.toNat, r.timestamp.toNat)

theorem isNewerSourceIdentity_iff (candidate current : SourceIdentity) :
    isNewerSourceIdentity candidate current = true ↔ current.rank < candidate.rank := by
  simp only [isNewerSourceIdentity, SourceIdentity.rank, Prod.Lex.toLex_lt_toLex, Bool.or_eq_true, Bool.and_eq_true,
    decide_eq_true_eq, beq_iff_eq, gt_iff_lt, UInt32.lt_iff_toNat_lt, UInt64.lt_iff_toNat_lt, ← UInt32.toNat_inj]
  constructor
  · rintro (h | ⟨h, h'⟩)
    · exact Or.inl h
    · exact Or.inr ⟨h.symm, h'⟩
  · rintro (h | ⟨h, h'⟩)
    · exact Or.inl h
    · exact Or.inr ⟨h.symm, h'⟩

theorem SourceIdentity.ext_rank {a b : SourceIdentity} (hname : a.nodeName = b.nodeName) (hrank : a.rank = b.rank) :
    a = b := by
  cases a
  cases b
  simp only [SourceIdentity.rank, toLex_inj, Prod.mk.injEq, UInt32.toNat_inj, UInt64.toNat_inj] at hname hrank
  simp only [hname, hrank]

/-! ## The map of roots -/

def ByName (roots : List SourceIdentity) : Prop := roots.Pairwise fun a b => a.nodeName < b.nodeName

theorem ByName.inj {roots : List SourceIdentity} (h : ByName roots) {a b : SourceIdentity} (ha : a ∈ roots)
    (hb : b ∈ roots) (hname : a.nodeName = b.nodeName) : a = b := by
  have hdistinct : (roots.map SourceIdentity.nodeName).Nodup := by
    refine List.pairwise_map.mpr (h.imp fun hlt heq => ?_)
    rw [heq] at hlt
    exact List.lt_irrefl _ hlt
  exact List.inj_on_of_nodup_map hdistinct ha hb hname

/-- A map is determined by its elements. -/
theorem ByName.ext {roots roots' : List SourceIdentity} (h : ByName roots) (h' : ByName roots')
    (hmem : ∀ r, r ∈ roots ↔ r ∈ roots') : roots = roots' := by
  have : Std.Irrefl fun a b : SourceIdentity => a.nodeName < b.nodeName := ⟨fun a => List.lt_irrefl _⟩
  have : Std.Antisymm fun a b : SourceIdentity => a.nodeName < b.nodeName :=
    ⟨fun a b hab hba => absurd hba (List.lt_asymm hab)⟩
  exact List.Pairwise.eq_of_mem_iff h h' hmem

theorem mem_setRoot_iff {roots : List SourceIdentity} (h : ByName roots) {candidate r : SourceIdentity} :
    r ∈ setRoot roots candidate ↔ r = candidate ∨ (r ∈ roots ∧ r.nodeName ≠ candidate.nodeName) := by
  induction roots with
  | nil => simp [setRoot]
  | cons root roots ih =>
    obtain ⟨hroot, htail⟩ := List.pairwise_cons.mp h
    have hlater : ∀ r ∈ roots, r.nodeName ≠ root.nodeName := by
      intro r hr heq
      exact List.lt_irrefl _ (heq ▸ hroot r hr)
    unfold setRoot
    split
    · rename_i hlt
      -- the candidate comes before everything stored, so none of the names is its own
      have hother : ∀ r ∈ root :: roots, r.nodeName ≠ candidate.nodeName := by
        intro r hr heq
        rcases List.mem_cons.mp hr with rfl | hr
        · exact List.lt_irrefl _ (heq ▸ hlt)
        · have hbefore := List.lt_trans hlt (hroot r hr)
          exact List.lt_irrefl _ (heq ▸ hbefore)
      rw [List.mem_cons]
      exact or_congr_right ⟨fun hr => ⟨hr, hother r hr⟩, fun hr => hr.1⟩
    · split
      · rename_i hname
        rw [List.mem_cons, List.mem_cons, hname]
        refine or_congr_right ⟨fun hr => ⟨Or.inr hr, hlater r hr⟩, ?_⟩
        rintro ⟨rfl | hr, hne⟩
        · exact absurd rfl hne
        · exact hr
      · rename_i hname
        rw [List.mem_cons, List.mem_cons, ih htail]
        constructor
        · rintro (rfl | rfl | ⟨hr, hne⟩)
          · exact Or.inr ⟨Or.inl rfl, fun heq => hname heq.symm⟩
          · exact Or.inl rfl
          · exact Or.inr ⟨Or.inr hr, hne⟩
        · rintro (rfl | ⟨rfl | hr, hne⟩)
          · exact Or.inr (Or.inl rfl)
          · exact Or.inl rfl
          · exact Or.inr (Or.inr ⟨hr, hne⟩)

theorem ordered_setRoot {roots : List SourceIdentity} (h : ByName roots) (candidate : SourceIdentity) :
    ByName (setRoot roots candidate) := by
  induction roots with
  | nil => exact List.pairwise_singleton _ _
  | cons root roots ih =>
    obtain ⟨hroot, htail⟩ := List.pairwise_cons.mp h
    unfold setRoot
    split
    · rename_i hlt
      refine List.pairwise_cons.mpr ⟨fun r hr => ?_, h⟩
      rcases List.mem_cons.mp hr with rfl | hr
      · exact hlt
      · exact List.lt_trans hlt (hroot r hr)
    · split
      · rename_i hname
        exact List.pairwise_cons.mpr ⟨fun r hr => hname ▸ hroot r hr, htail⟩
      · rename_i hge hname
        have hlt : root.nodeName < candidate.nodeName :=
          Decidable.byContradiction fun hle =>
            hname (Std.Trichotomous.trichotomous (r := (· < ·)) candidate.nodeName root.nodeName hge hle)
        refine List.pairwise_cons.mpr ⟨fun r hr => ?_, ih htail⟩
        rcases mem_setRoot hr with rfl | hr
        · exact hlt
        · exact hroot r hr

theorem findRoot_none {roots : List SourceIdentity} {name : Bytes} :
    findRoot roots name = none ↔ ∀ r ∈ roots, r.nodeName ≠ name := by
  unfold findRoot
  rw [List.find?_eq_none]
  simp

theorem findRoot_some {roots : List SourceIdentity} {name : Bytes} {r : SourceIdentity}
    (h : findRoot roots name = some r) : r ∈ roots ∧ r.nodeName = name :=
  ⟨List.mem_of_find?_eq_some h, by simpa using List.find?_some h⟩

/-! ## Offering identities one by one -/

/-- The update that both loops make: an identity is stored if its name is new,
or if it is newer than what is stored. -/
def offer (roots : List SourceIdentity) (root : SourceIdentity) : List SourceIdentity :=
  match findRoot roots root.nodeName with
  | none => setRoot roots root
  | some existing => if isNewerSourceIdentity root existing then setRoot roots root else roots

/-- The identities of `offered` that no other one of the same name supersedes. -/
def NewestIdentity (offered : List SourceIdentity) (r : SourceIdentity) : Prop :=
  r ∈ offered ∧ ∀ x ∈ offered, x.nodeName = r.nodeName → x.rank ≤ r.rank

/-- A map that holds the newest identity under every name. -/
structure Holds (offered roots : List SourceIdentity) : Prop where
  ordered : ByName roots
  mem : ∀ r, r ∈ roots ↔ NewestIdentity offered r
  stored : ∀ x ∈ offered, ∃ r ∈ roots, r.nodeName = x.nodeName

theorem NewestIdentity.snoc {offered : List SourceIdentity} {root r : SourceIdentity} :
    NewestIdentity (offered ++ [root]) r ↔
      (r ∈ offered ∨ r = root) ∧ (∀ x ∈ offered, x.nodeName = r.nodeName → x.rank ≤ r.rank) ∧
        (root.nodeName = r.nodeName → root.rank ≤ r.rank) := by
  unfold NewestIdentity
  simp only [List.mem_append, List.mem_singleton, or_imp, forall_and, forall_eq]

theorem Holds.offer {offered roots : List SourceIdentity} (h : Holds offered roots) (root : SourceIdentity) :
    Holds (offered ++ [root]) (offer roots root) := by
  have hset (hnew : ∀ x ∈ offered, x.nodeName = root.nodeName → x.rank ≤ root.rank) :
      Holds (offered ++ [root]) (setRoot roots root) := by
    refine ⟨ordered_setRoot h.ordered root, fun r => ?_, fun x hx => ?_⟩
    · rw [mem_setRoot_iff h.ordered, h.mem, NewestIdentity.snoc]
      constructor
      · rintro (rfl | ⟨⟨hmem, hmax⟩, hne⟩)
        · exact ⟨Or.inr rfl, hnew, fun _ => le_rfl⟩
        · exact ⟨Or.inl hmem, hmax, fun heq => absurd heq.symm hne⟩
      · rintro ⟨hmem, hmax, hroot⟩
        by_cases hname : r.nodeName = root.nodeName
        · left
          rcases hmem with hmem | rfl
          · exact SourceIdentity.ext_rank hname (le_antisymm (hnew r hmem hname) (hroot hname.symm))
          · rfl
        · right
          rcases hmem with hmem | rfl
          · exact ⟨⟨hmem, hmax⟩, hname⟩
          · exact absurd rfl hname
    · by_cases hname : x.nodeName = root.nodeName
      · exact ⟨root, (mem_setRoot_iff h.ordered).mpr (Or.inl rfl), hname.symm⟩
      · rcases List.mem_append.mp hx with hx | hx
        · obtain ⟨r, hr, hrname⟩ := h.stored x hx
          exact ⟨r, (mem_setRoot_iff h.ordered).mpr (Or.inr ⟨hr, hrname ▸ hname⟩), hrname⟩
        · exact absurd (congrArg _ (List.mem_singleton.mp hx)) hname
  unfold ReferenceSystem.offer
  cases hfound : findRoot roots root.nodeName with
  | none =>
    refine hset fun x hx hname => ?_
    obtain ⟨r, hr, hrname⟩ := h.stored x hx
    exact absurd (hrname.trans hname) (findRoot_none.mp hfound r hr)
  | some existing =>
    obtain ⟨hstored, hname⟩ := findRoot_some hfound
    obtain ⟨hoffered, hmax⟩ := (h.mem existing).mp hstored
    by_cases hnew : isNewerSourceIdentity root existing = true
    · simp only [hnew, if_true]
      refine hset fun x hx hx' => ?_
      exact (hmax x hx (hx'.trans hname.symm)).trans ((isNewerSourceIdentity_iff _ _).mp hnew).le
    · simp only [hnew, Bool.false_eq_true, if_false]
      have hle : root.rank ≤ existing.rank := not_lt.mp fun hlt => hnew ((isNewerSourceIdentity_iff _ _).mpr hlt)
      refine ⟨h.ordered, fun r => ?_, fun x hx => ?_⟩
      · rw [h.mem, NewestIdentity.snoc]
        constructor
        · rintro ⟨hmem, hmax'⟩
          refine ⟨Or.inl hmem, hmax', fun hroot => hle.trans ?_⟩
          exact hmax' existing hoffered (hname.trans hroot)
        · rintro ⟨hmem | rfl, hmax', hroot⟩
          · exact ⟨hmem, hmax'⟩
          · -- as new as what is stored under its name, so it is stored
            have hsame : existing = r :=
              SourceIdentity.ext_rank hname (le_antisymm (hmax' existing hoffered hname) hle)
            exact ⟨hsame ▸ hoffered, hmax'⟩
      · rcases List.mem_append.mp hx with hx | hx
        · exact h.stored x hx
        · exact ⟨existing, hstored, (List.mem_singleton.mp hx) ▸ hname⟩

theorem holds_offers (offered : List SourceIdentity) : Holds offered (offered.foldl offer []) := by
  induction offered using List.reverseRecOn with
  | nil => exact ⟨List.Pairwise.nil, fun r => by simp [NewestIdentity], List.forall_mem_nil _⟩
  | append_singleton offered root ih =>
    rw [List.foldl_append]
    exact ih.offer root

/-- What is stored depends only on which identities were offered. -/
theorem offers_congr {offered offered' : List SourceIdentity} (h : ∀ r, r ∈ offered ↔ r ∈ offered') :
    offered.foldl offer [] = offered'.foldl offer [] := by
  refine (holds_offers offered).ordered.ext (holds_offers offered').ordered fun r => ?_
  rw [(holds_offers offered).mem, (holds_offers offered').mem]
  unfold NewestIdentity
  simp only [h]

/-! ## The roots of a message -/

def TransmissionStats.identity (e : TransmissionStats) : SourceIdentity := ⟨e.name, e.sequenceNumber, e.timestamp⟩

/-- The identities that `extract_source_roots` looks at. -/
def candidateRoots (m : Message) (sourceNodes : List Bytes) : List SourceIdentity :=
  (m.used.filter fun e => sourceNodes.contains e.name).map TransmissionStats.identity

theorem mem_candidateRoots {m : Message} {sourceNodes : List Bytes} {r : SourceIdentity} :
    r ∈ candidateRoots m sourceNodes ↔ ∃ e ∈ m.used, e.name ∈ sourceNodes ∧ e.identity = r := by
  unfold candidateRoots
  simp only [List.mem_map, List.mem_filter, List.contains_eq_mem, decide_eq_true_eq, and_assoc]

theorem rootStep_offer (m : Message) (sourceNodes : List Bytes) (roots : List SourceIdentity) (i : Nat) :
    rootStep m sourceNodes roots i =
      if sourceNodes.contains (m.statsAt i).name then offer roots (m.statsAt i).identity else roots := by
  unfold rootStep nodeNameAt
  cases h : sourceNodes.contains (m.statsAt i).name with
  | false => simp only [h, Bool.not_false, if_true, Bool.false_eq_true, if_false]
  | true =>
    simp only [h, Bool.not_true, Bool.false_eq_true, if_false, if_true]
    rfl

theorem extractSourceRoots_offers {m : Message} (hm : m.size ≤ statsCapacity) (sourceNodes : List Bytes) :
    extractSourceRoots m sourceNodes = (candidateRoots m sourceNodes).foldl offer [] := by
  have hstep : rootStep m sourceNodes = fun roots i =>
      if sourceNodes.contains (m.statsAt i).name then offer roots (m.statsAt i).identity else roots := by
    funext roots i
    exact rootStep_offer m sourceNodes roots i
  unfold extractSourceRoots candidateRoots
  rw [used_eq_map m hm, List.foldl_map, List.foldl_filter, List.foldl_map, hstep]

/-! ## Normalized roots -/

theorem normalizedSourceRoots_offers (roots : List SourceIdentity) (reference : SourceIdentity) :
    normalizedSourceRoots roots reference =
      let uniqueRoots := (roots.filter fun root => root.nodeName ≠ []).foldl offer []
      if reference.nodeName ≠ [] then setRoot uniqueRoots reference else uniqueRoots := by
  have hloop : roots.foldl normalizeStep [] = (roots.filter fun root => root.nodeName ≠ []).foldl offer [] := by
    rw [List.foldl_filter]
    congr 1
    funext uniqueRoots root
    unfold normalizeStep offer
    by_cases hname : root.nodeName = []
    · simp [hname]
    · exact (if_neg hname).trans (if_pos (decide_eq_true hname)).symm
  unfold normalizedSourceRoots
  rw [hloop]

theorem mem_normalizedSourceRoots {roots : List SourceIdentity} {reference r : SourceIdentity} :
    r ∈ normalizedSourceRoots roots reference ↔
      (reference.nodeName ≠ [] ∧ r = reference) ∨
        (r.nodeName ≠ [] ∧ r.nodeName ≠ reference.nodeName ∧ NewestIdentity roots r) := by
  have hholds := holds_offers (roots.filter fun root => root.nodeName ≠ [])
  have hnewest : NewestIdentity (roots.filter fun root => root.nodeName ≠ []) r ↔
      r.nodeName ≠ [] ∧ NewestIdentity roots r := by
    unfold NewestIdentity
    simp only [List.mem_filter, decide_eq_true_eq]
    constructor
    · rintro ⟨⟨hmem, hne⟩, hmax⟩
      exact ⟨hne, hmem, fun x hx hname => hmax x ⟨hx, hname ▸ hne⟩ hname⟩
    · rintro ⟨hne, hmem, hmax⟩
      exact ⟨⟨hmem, hne⟩, fun x hx hname => hmax x hx.1 hname⟩
  rw [normalizedSourceRoots_offers]
  by_cases hempty : reference.nodeName = []
  · simp only [hempty, ne_eq, not_true_eq_false, if_false, false_and, false_or]
    rw [hholds.mem, hnewest]
    tauto
  · simp only [ne_eq, hempty, not_false_eq_true, if_true, true_and]
    rw [mem_setRoot_iff hholds.ordered, hholds.mem, hnewest]
    tauto

theorem ordered_normalizedSourceRoots (roots : List SourceIdentity) (reference : SourceIdentity) :
    ByName (normalizedSourceRoots roots reference) := by
  have hholds := holds_offers (roots.filter fun root => root.nodeName ≠ [])
  rw [normalizedSourceRoots_offers]
  by_cases hempty : reference.nodeName = []
  · simp only [hempty, ne_eq, not_true_eq_false, if_false]
    exact hholds.ordered
  · simp only [ne_eq, hempty, not_false_eq_true, if_true]
    exact ordered_setRoot hholds.ordered reference

theorem normalizedSourceRoots_congr {roots roots' : List SourceIdentity} (h : ∀ r, r ∈ roots ↔ r ∈ roots')
    (reference : SourceIdentity) : normalizedSourceRoots roots reference = normalizedSourceRoots roots' reference := by
  refine (ordered_normalizedSourceRoots ..).ext (ordered_normalizedSourceRoots ..) fun r => ?_
  rw [mem_normalizedSourceRoots, mem_normalizedSourceRoots]
  unfold NewestIdentity
  simp only [h]

theorem normalizedSourceRoots_idem (roots : List SourceIdentity) (reference : SourceIdentity) :
    normalizedSourceRoots (normalizedSourceRoots roots reference) reference = normalizedSourceRoots roots reference := by
  have hordered := ordered_normalizedSourceRoots roots reference
  refine (ordered_normalizedSourceRoots ..).ext hordered fun r => ?_
  rw [mem_normalizedSourceRoots]
  constructor
  · rintro (⟨hne, rfl⟩ | ⟨_, _, hmem, _⟩)
    · exact mem_normalizedSourceRoots.mpr (Or.inl ⟨hne, rfl⟩)
    · exact hmem
  · intro hr
    -- there is only one element of each name, so it is the newest
    have hnewest : NewestIdentity (normalizedSourceRoots roots reference) r :=
      ⟨hr, fun x hx hname => (hordered.inj hx hr hname ▸ le_rfl)⟩
    rcases mem_normalizedSourceRoots.mp hr with h | ⟨hne, hother, _⟩
    · exact Or.inl h
    · exact Or.inr ⟨hne, hother, hnewest⟩

/-! ## The reference -/

theorem sourceReferenceBefore_iff {a b : SourceIdentity} : sourceReferenceBefore a b = true ↔
    a.timestamp < b.timestamp ∨ (a.timestamp = b.timestamp ∧
      (a.nodeName < b.nodeName ∨ (a.nodeName = b.nodeName ∧ a.sequenceNumber < b.sequenceNumber))) := by
  unfold sourceReferenceBefore
  by_cases ht : a.timestamp = b.timestamp
  · by_cases hn : a.nodeName = b.nodeName
    · simp [ht, hn, UInt64.lt_irrefl, List.lt_irrefl]
    · simp [ht, hn, UInt64.lt_irrefl]
  · simp [ht]

theorem before_irrefl (a : SourceIdentity) : sourceReferenceBefore a a = false := by
  simp [sourceReferenceBefore]

theorem before_trans {a b c : SourceIdentity} (hab : sourceReferenceBefore a b = true)
    (hbc : sourceReferenceBefore b c = true) : sourceReferenceBefore a c = true := by
  rw [sourceReferenceBefore_iff] at hab hbc ⊢
  rcases hab with hab | ⟨hab, hab'⟩
  · rcases hbc with hbc | ⟨hbc, _⟩
    · exact Or.inl (UInt64.lt_trans hab hbc)
    · exact Or.inl (hbc ▸ hab)
  · rcases hbc with hbc | ⟨hbc, hbc'⟩
    · exact Or.inl (hab ▸ hbc)
    · refine Or.inr ⟨hab.trans hbc, ?_⟩
      rcases hab' with hab' | ⟨hab', hseq⟩
      · rcases hbc' with hbc' | ⟨hbc', _⟩
        · exact Or.inl (List.lt_trans hab' hbc')
        · exact Or.inl (hbc' ▸ hab')
      · rcases hbc' with hbc' | ⟨hbc', hseq'⟩
        · exact Or.inl (hab' ▸ hbc')
        · exact Or.inr ⟨hab'.trans hbc', UInt32.lt_trans hseq hseq'⟩

theorem before_total {a b : SourceIdentity} (h : a ≠ b) :
    sourceReferenceBefore a b = true ∨ sourceReferenceBefore b a = true := by
  rw [sourceReferenceBefore_iff, sourceReferenceBefore_iff]
  by_cases ht : a.timestamp = b.timestamp
  · by_cases hn : a.nodeName = b.nodeName
    · have hs : a.sequenceNumber ≠ b.sequenceNumber := by
        intro hs
        exact h (SourceIdentity.ext_rank hn (by simp [SourceIdentity.rank, hs, ht]))
      rcases UInt32.lt_or_lt_of_ne hs with hs | hs
      · exact Or.inl (Or.inr ⟨ht, Or.inr ⟨hn, hs⟩⟩)
      · exact Or.inr (Or.inr ⟨ht.symm, Or.inr ⟨hn.symm, hs⟩⟩)
    · by_cases hlt : a.nodeName < b.nodeName
      · exact Or.inl (Or.inr ⟨ht, Or.inl hlt⟩)
      · refine Or.inr (Or.inr ⟨ht.symm, Or.inl (Decidable.byContradiction fun hge => hn ?_)⟩)
        exact Std.Trichotomous.trichotomous (r := (· < ·)) a.nodeName b.nodeName hlt hge
  · rcases UInt64.lt_or_lt_of_ne ht with ht | ht
    · exact Or.inl (Or.inl ht)
    · exact Or.inr (Or.inl ht)

/-- The order in which the reference is the least. -/
def preferred (useMinimum : Bool) (a b : SourceIdentity) : Bool :=
  if useMinimum then sourceReferenceBefore a b else sourceReferenceBefore b a

theorem preferred_irrefl (useMinimum : Bool) (a : SourceIdentity) : preferred useMinimum a a = false := by
  cases useMinimum with
  | false => exact before_irrefl a
  | true => exact before_irrefl a

theorem preferred_trans {useMinimum : Bool} {a b c : SourceIdentity} (hab : preferred useMinimum a b = true)
    (hbc : preferred useMinimum b c = true) : preferred useMinimum a c = true := by
  cases useMinimum with
  | false => exact before_trans hbc hab
  | true => exact before_trans hab hbc

theorem preferred_total (useMinimum : Bool) {a b : SourceIdentity} (h : a ≠ b) :
    preferred useMinimum a b = true ∨ preferred useMinimum b a = true := by
  cases useMinimum with
  | false => exact before_total (Ne.symm h)
  | true => exact before_total h

def Selected (roots : List SourceIdentity) (useMinimum : Bool) (x : SourceIdentity) : Prop :=
  x ∈ roots ∧ ∀ r ∈ roots, r ≠ x → preferred useMinimum x r = true

theorem Selected.unique {roots roots' : List SourceIdentity} {useMinimum : Bool} {x y : SourceIdentity}
    (hmem : ∀ r, r ∈ roots ↔ r ∈ roots') (hx : Selected roots useMinimum x) (hy : Selected roots' useMinimum y) :
    x = y := by
  by_contra hne
  have hxy := hx.2 y ((hmem y).mpr hy.1) (Ne.symm hne)
  have hyx := hy.2 x ((hmem x).mp hx.1) hne
  have hcycle := preferred_trans hxy hyx
  rw [preferred_irrefl] at hcycle
  cases hcycle

theorem selectSourceReference_cons (useMinimum : Bool) (root r : SourceIdentity) (roots : List SourceIdentity) :
    selectSourceReference (root :: r :: roots) useMinimum =
      selectSourceReference ((if preferred useMinimum r root then r else root) :: roots) useMinimum := by
  cases useMinimum <;> rfl

theorem selectSourceReference_selected (useMinimum : Bool) (roots : List SourceIdentity) :
    ∀ root, Selected (root :: roots) useMinimum (selectSourceReference (root :: roots) useMinimum) := by
  induction roots with
  | nil =>
    intro root
    refine ⟨List.mem_singleton_self root, fun r hr hne => ?_⟩
    exact absurd (List.mem_singleton.mp hr) hne
  | cons r roots ih =>
    intro root
    rw [selectSourceReference_cons]
    by_cases hr : preferred useMinimum r root = true
    · rw [if_pos hr]
      obtain ⟨hmem, hbest⟩ := ih r
      refine ⟨List.mem_cons_of_mem _ hmem, List.forall_mem_cons.mpr ⟨fun _ => ?_, hbest⟩⟩
      by_cases hx : r = selectSourceReference (r :: roots) useMinimum
      · rw [← hx]
        exact hr
      · exact preferred_trans (hbest r (List.mem_cons_self ..) hx) hr
    · rw [if_neg hr]
      obtain ⟨hmem, hbest⟩ := ih root
      obtain ⟨hroot, hrest⟩ := List.forall_mem_cons.mp hbest
      refine ⟨?_, List.forall_mem_cons.mpr ⟨hroot, List.forall_mem_cons.mpr ⟨fun hne => ?_, hrest⟩⟩⟩
      · rcases List.mem_cons.mp hmem with h | h
        · rw [h]
          exact List.mem_cons_self ..
        · exact List.mem_cons_of_mem _ (List.mem_cons_of_mem _ h)
      · by_cases hsame : r = root
        · rw [hsame] at hne ⊢
          exact hroot hne
        · have hafter := (preferred_total useMinimum hsame).resolve_left hr
          by_cases hx : root = selectSourceReference (root :: roots) useMinimum
          · rw [← hx]
            exact hafter
          · exact preferred_trans (hroot hx) hafter

/-- **The order of the entries and of the roots does not matter.** The roots of a
message are one per source name that occurs, by name, each the newest of its
name; and the reference is the least or the greatest root in a strict total
order. -/
theorem source_roots_order_independent :
    (∀ (m : Message) (sourceNodes : List Bytes), m.size ≤ statsCapacity →
      (extractSourceRoots m sourceNodes).Pairwise (fun a b => a.nodeName < b.nodeName) ∧
      (∀ name, (∃ r ∈ extractSourceRoots m sourceNodes, r.nodeName = name) ↔
        name ∈ sourceNodes ∧ ∃ e ∈ m.used, e.name = name) ∧
      (∀ r ∈ extractSourceRoots m sourceNodes, (∃ e ∈ m.used, e.identity = r) ∧
        ∀ e ∈ m.used, e.name = r.nodeName → e.identity.rank ≤ r.rank) ∧
      ∀ m' : Message, m'.size = m.size → m'.used.Perm m.used →
        extractSourceRoots m' sourceNodes = extractSourceRoots m sourceNodes) ∧
    ((∀ a, sourceReferenceBefore a a = false) ∧
      (∀ a b c, sourceReferenceBefore a b = true → sourceReferenceBefore b c = true →
        sourceReferenceBefore a c = true) ∧
      ∀ a b, a ≠ b → sourceReferenceBefore a b = true ∨ sourceReferenceBefore b a = true) ∧
    ∀ roots : List SourceIdentity, roots ≠ [] →
      (selectSourceReference roots true ∈ roots ∧
        ∀ r ∈ roots, r ≠ selectSourceReference roots true →
          sourceReferenceBefore (selectSourceReference roots true) r = true) ∧
      (selectSourceReference roots false ∈ roots ∧
        ∀ r ∈ roots, r ≠ selectSourceReference roots false →
          sourceReferenceBefore r (selectSourceReference roots false) = true) ∧
      ∀ (roots' : List SourceIdentity) (useMinimum : Bool), roots'.Perm roots →
        selectSourceReference roots' useMinimum = selectSourceReference roots useMinimum := by
  refine ⟨fun m sourceNodes hm => ?_, ⟨before_irrefl, fun a b c => before_trans, fun a b => before_total⟩,
    fun roots hne => ?_⟩
  · have hholds := holds_offers (candidateRoots m sourceNodes)
    rw [extractSourceRoots_offers hm]
    refine ⟨hholds.ordered, fun name => ⟨?_, ?_⟩, fun r hr => ?_, fun m' hsize hperm => ?_⟩
    · rintro ⟨r, hr, rfl⟩
      obtain ⟨e, he, hsource, rfl⟩ := mem_candidateRoots.mp ((hholds.mem r).mp hr).1
      exact ⟨hsource, e, he, rfl⟩
    · rintro ⟨hsource, e, he, rfl⟩
      exact hholds.stored e.identity (mem_candidateRoots.mpr ⟨e, he, hsource, rfl⟩)
    · obtain ⟨hmem, hmax⟩ := (hholds.mem r).mp hr
      obtain ⟨e, he, hsource, rfl⟩ := mem_candidateRoots.mp hmem
      refine ⟨⟨e, he, rfl⟩, fun e' he' hname => ?_⟩
      have hsource' : e'.name ∈ sourceNodes := hname ▸ hsource
      exact hmax e'.identity (mem_candidateRoots.mpr ⟨e', he', hsource', rfl⟩) hname
    · rw [extractSourceRoots_offers (hsize ▸ hm)]
      refine offers_congr fun r => ?_
      rw [mem_candidateRoots, mem_candidateRoots]
      simp only [hperm.mem_iff]
  · have hselected : ∀ (roots : List SourceIdentity) (useMinimum : Bool), roots ≠ [] →
        Selected roots useMinimum (selectSourceReference roots useMinimum) := by
      intro roots useMinimum hne
      obtain ⟨root, roots, rfl⟩ := List.exists_cons_of_ne_nil hne
      exact selectSourceReference_selected useMinimum roots root
    refine ⟨hselected roots true hne, hselected roots false hne, fun roots' useMinimum hperm => ?_⟩
    have hne' : roots' ≠ [] := fun h => hne ((h ▸ hperm).nil_eq.symm)
    exact Selected.unique (fun r => hperm.mem_iff) (hselected roots' useMinimum hne') (hselected roots useMinimum hne)

/-- The entries of two lidars, in either order. -/
def lidarHistory (frontFirst : Bool) : Message :=
  let front := setSample false (ascii "FrontLidarDriver") 7 0 100
  let rear := setSample false (ascii "RearLidarDriver") 3 0 90
  (if frontFirst then rear (front (default, 0)) else front (rear (default, 0))).1

theorem lidarHistory_roots :
    let sourceNodes := [ascii "RearLidarDriver", ascii "FrontLidarDriver"]
    let roots := [⟨ascii "FrontLidarDriver", 7, 100⟩, ⟨ascii "RearLidarDriver", 3, 90⟩]
    (lidarHistory false).used ≠ (lidarHistory true).used ∧
    extractSourceRoots (lidarHistory true) sourceNodes = roots ∧
    extractSourceRoots (lidarHistory false) sourceNodes = extractSourceRoots (lidarHistory true) sourceNodes ∧
    ∀ useMinimum, selectSourceReference roots.reverse useMinimum = selectSourceReference roots useMinimum := by
  intro sourceNodes roots
  obtain ⟨hroots, _, hreference⟩ := source_roots_order_independent
  obtain ⟨_, _, _, horder⟩ := hroots (lidarHistory true) sourceNodes (by decide)
  obtain ⟨_, _, hselect⟩ := hreference roots (by decide)
  exact ⟨by decide, by decide, horder (lidarHistory false) (by decide) (by decide),
    fun useMinimum => hselect roots.reverse useMinimum (List.reverse_perm roots)⟩

theorem stored_normalizedSourceRoots {roots : List SourceIdentity} {reference x : SourceIdentity} (hx : x ∈ roots)
    (hne : x.nodeName ≠ []) : ∃ r ∈ normalizedSourceRoots roots reference, r.nodeName = x.nodeName := by
  have hholds := holds_offers (roots.filter fun root => root.nodeName ≠ [])
  obtain ⟨r, hr, hname⟩ := hholds.stored x (List.mem_filter.mpr ⟨hx, by simpa using hne⟩)
  rw [normalizedSourceRoots_offers]
  by_cases hempty : reference.nodeName = []
  · simp only [hempty, ne_eq, not_true_eq_false, if_false]
    exact ⟨r, hr, hname⟩
  · simp only [ne_eq, hempty, not_false_eq_true, if_true]
    by_cases hsame : x.nodeName = reference.nodeName
    · exact ⟨reference, (mem_setRoot_iff hholds.ordered).mpr (Or.inl rfl), hsame.symm⟩
    · exact ⟨r, (mem_setRoot_iff hholds.ordered).mpr (Or.inr ⟨hr, hname ▸ hsame⟩), hname⟩

/-- **Normalized roots are a canonical form**: the reference as it is, and the
newest root of every other name, in the order of their names. -/
theorem normalized_roots_canonical (roots : List SourceIdentity) (reference : SourceIdentity) :
    (normalizedSourceRoots roots reference).Pairwise (fun a b => a.nodeName < b.nodeName) ∧
    (∀ r ∈ normalizedSourceRoots roots reference, r.nodeName ≠ []) ∧
    (reference.nodeName ≠ [] → reference ∈ normalizedSourceRoots roots reference) ∧
    (∀ x ∈ roots, x.nodeName ≠ [] → x.nodeName ≠ reference.nodeName →
      ∃ r ∈ normalizedSourceRoots roots reference, r.nodeName = x.nodeName) ∧
    (∀ r ∈ normalizedSourceRoots roots reference,
      r = reference ∨ (r.nodeName ≠ reference.nodeName ∧ r ∈ roots ∧
        ∀ x ∈ roots, x.nodeName = r.nodeName → x.rank ≤ r.rank)) ∧
    (∀ roots' : List SourceIdentity, (∀ r, r ∈ roots' ↔ r ∈ roots) →
      normalizedSourceRoots roots' reference = normalizedSourceRoots roots reference) ∧
    normalizedSourceRoots (normalizedSourceRoots roots reference) reference =
      normalizedSourceRoots roots reference := by
  refine ⟨ordered_normalizedSourceRoots .., fun r hr => ?_, fun hne => ?_, fun x hx hne _ => ?_, fun r hr => ?_,
    fun roots' h => normalizedSourceRoots_congr h reference, normalizedSourceRoots_idem roots reference⟩
  · rcases mem_normalizedSourceRoots.mp hr with ⟨hne, rfl⟩ | ⟨hne, _⟩
    · exact hne
    · exact hne
  · exact mem_normalizedSourceRoots.mpr (Or.inl ⟨hne, rfl⟩)
  · exact stored_normalizedSourceRoots hx hne
  · rcases mem_normalizedSourceRoots.mp hr with ⟨_, h⟩ | ⟨_, hother, hnewest⟩
    · exact Or.inl h
    · exact Or.inr ⟨hother, hnewest⟩

example : normalizedSourceRoots [⟨ascii "RearLidarDriver", 3, 100⟩, ⟨ascii "FrontLidarDriver", 7, 100⟩,
      ⟨ascii "RearLidarDriver", 4, 101⟩] ⟨ascii "FrontLidarDriver", 7, 100⟩ =
    [⟨ascii "FrontLidarDriver", 7, 100⟩, ⟨ascii "RearLidarDriver", 4, 101⟩] := by decide

end ReferenceSystem
