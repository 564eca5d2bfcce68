import Mathlib.Data.List.Basic

/-!
# Picking from a queue

A queue is searched from its front up to the first element that can be taken.
What is passed over is dropped or stays in its place; what comes after the
element taken is left as it was. A search may also go on to the end.
-/

namespace ReferenceSystem

/-- What a search makes of an element. -/
inductive Verdict (β : Type) where
  | dropped
  | stays
  | taken (b : β)
  deriving DecidableEq

namespace Verdict

variable {β : Type}

def isStays : Verdict β → Bool
  | stays => true
  | _ => false

def taken? : Verdict β → Option β
  | taken b => some b
  | _ => none

theorem taken?_eq_some {v : Verdict β} {b : β} : v.taken? = some b ↔ v = .taken b := by
  cases v <;> simp [taken?]

end Verdict

section
variable {α β : Type} (f : α → Verdict β)

def pick : List α → Option β × List α
  | [] => (none, [])
  | a :: l =>
    match f a with
    | .dropped => pick l
    | .stays => ((pick l).1, a :: (pick l).2)
    | .taken b => (some b, l)

variable {f}

theorem pick_dropped {a : α} (h : f a = .dropped) (l : List α) : pick f (a :: l) = pick f l := by
  rw [pick, h]

theorem pick_stays {a : α} (h : f a = .stays) (l : List α) : pick f (a :: l) = ((pick f l).1, a :: (pick f l).2) := by
  rw [pick, h]

theorem pick_taken {a : α} {b : β} (h : f a = .taken b) (l : List α) : pick f (a :: l) = (some b, l) := by
  rw [pick, h]

/-- The element picked is the first that can be taken. -/
theorem pick_fst (l : List α) : (pick f l).1 = (l.filterMap fun a => (f a).taken?).head? := by
  induction l with
  | nil => rfl
  | cons a l ih =>
    cases h : f a with
    | dropped => rw [pick_dropped h, ih, List.filterMap_cons_none (by rw [h]; rfl)]
    | stays => rw [pick_stays h, ih, List.filterMap_cons_none (by rw [h]; rfl)]
    | taken b => rw [pick_taken h, List.filterMap_cons_some (by rw [h]; rfl)]; rfl

theorem pick_none {l : List α} (h : (pick f l).1 = none) :
    (∀ a ∈ l, (f a).taken? = none) ∧ (pick f l).2 = l.filter fun a => (f a).isStays := by
  induction l with
  | nil => exact ⟨List.forall_mem_nil _, rfl⟩
  | cons a l ih =>
    cases ha : f a with
    | dropped =>
      rw [pick_dropped ha] at h ⊢
      obtain ⟨hall, hrest⟩ := ih h
      exact ⟨List.forall_mem_cons.mpr ⟨by rw [ha]; rfl, hall⟩, by simp [hrest, ha, Verdict.isStays]⟩
    | stays =>
      rw [pick_stays ha] at h ⊢
      obtain ⟨hall, hrest⟩ := ih h
      exact ⟨List.forall_mem_cons.mpr ⟨by rw [ha]; rfl, hall⟩, by simp [hrest, ha, Verdict.isStays]⟩
    | taken b => rw [pick_taken ha] at h; cases h

/-- Where the element picked stood, and what is left of the queue. -/
theorem pick_some {l : List α} {b : β} (h : (pick f l).1 = some b) :
    ∃ before a after, l = before ++ a :: after ∧ f a = .taken b ∧ (∀ x ∈ before, (f x).taken? = none) ∧
      (pick f l).2 = (before.filter fun x => (f x).isStays) ++ after := by
  induction l with
  | nil => cases h
  | cons a l ih =>
    cases ha : f a with
    | dropped =>
      rw [pick_dropped ha] at h ⊢
      obtain ⟨before, x, after, rfl, hx, hbefore, hrest⟩ := ih h
      refine ⟨a :: before, x, after, rfl, hx, List.forall_mem_cons.mpr ⟨by rw [ha]; rfl, hbefore⟩, ?_⟩
      simp [hrest, ha, Verdict.isStays]
    | stays =>
      rw [pick_stays ha] at h ⊢
      obtain ⟨before, x, after, rfl, hx, hbefore, hrest⟩ := ih h
      refine ⟨a :: before, x, after, rfl, hx, List.forall_mem_cons.mpr ⟨by rw [ha]; rfl, hbefore⟩, ?_⟩
      simp [hrest, ha, Verdict.isStays]
    | taken c =>
      rw [pick_taken ha] at h ⊢
      cases h
      exact ⟨[], a, l, rfl, ha, List.forall_mem_nil _, rfl⟩

/-- A search only removes elements. -/
theorem pick_sublist (l : List α) : (pick f l).2.Sublist l := by
  cases h : (pick f l).1 with
  | none =>
    rw [(pick_none h).2]
    exact List.filter_sublist
  | some b =>
    obtain ⟨before, a, after, hl, _, _, hrest⟩ := pick_some h
    rw [hrest]
    conv => rhs; rw [hl]
    exact List.filter_sublist.append (List.sublist_cons_self a after)

/-- What a search removes could be taken or was to be dropped. -/
theorem pick_removed {l : List α} {a : α} (ha : a ∈ l) :
    a ∈ (pick f l).2 ∨ f a = .dropped ∨ ∃ b, (pick f l).1 = some b ∧ f a = .taken b := by
  have hpassed : ∀ {x : α}, (f x).taken? = none → x ∉ l.filter (fun y => (f y).isStays) → x ∈ l → f x = .dropped := by
    intro x hnone hstays hx
    cases hf : f x with
    | dropped => rfl
    | stays => exact absurd (List.mem_filter.mpr ⟨hx, by rw [hf]; rfl⟩) hstays
    | taken b => rw [hf] at hnone; cases hnone
  by_cases hrest : a ∈ (pick f l).2
  · exact Or.inl hrest
  refine Or.inr ?_
  cases h : (pick f l).1 with
  | none =>
    obtain ⟨hall, heq⟩ := pick_none h
    rw [heq] at hrest
    exact Or.inl (hpassed (hall a ha) hrest ha)
  | some b =>
    obtain ⟨before, x, after, hl, hx, hbefore, heq⟩ := pick_some h
    rw [heq] at hrest
    simp only [List.mem_append, not_or] at hrest
    rw [hl] at ha
    rcases List.mem_append.mp ha with hin | hin
    · refine Or.inl (hpassed (hbefore a hin) (fun hstays => hrest.1 ?_) (hl ▸ List.mem_append_left _ hin))
      exact List.mem_filter.mpr ⟨hin, (List.mem_filter.mp hstays).2⟩
    · rcases List.mem_cons.mp hin with rfl | hin
      · exact Or.inr ⟨b, rfl, hx⟩
      · exact absurd hin hrest.2

/-- In a queue of distinct elements, the one picked is no longer there. -/
theorem pick_gone {l : List α} (hl : l.Nodup) {b : β} (h : (pick f l).1 = some b) :
    ∃ a ∈ l, f a = .taken b ∧ a ∉ (pick f l).2 := by
  obtain ⟨before, a, after, heq, ha, hbefore, hrest⟩ := pick_some h
  rw [heq] at hl
  refine ⟨a, heq ▸ List.mem_append_right _ (List.mem_cons_self ..), ha, ?_⟩
  rw [hrest, List.mem_append, not_or]
  constructor
  · intro hmem
    have hnone := hbefore a (List.mem_filter.mp hmem).1
    rw [ha] at hnone
    cases hnone
  · exact (List.nodup_cons.mp (List.nodup_append.mp hl).2.1).1

/-- Where everything can be taken, the head is. -/
theorem pick_head {l : List α} (h : ∀ a ∈ l, ∃ b, f a = .taken b) :
    pick f l = (l.head?.bind fun a => (f a).taken?, l.tail) := by
  cases l with
  | nil => rfl
  | cons a l =>
    obtain ⟨b, hb⟩ := h a (List.mem_cons_self ..)
    rw [pick_taken hb, List.head?_cons, Option.bind_some, hb]
    rfl

end

end ReferenceSystem
