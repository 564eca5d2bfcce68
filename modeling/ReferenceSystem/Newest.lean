import Mathlib.Data.List.Nodup
import Mathlib.Order.Lattice

/-!
# Keyed lists that keep the newest entry

A list of entries, one per key, is updated by `upsert`: an entry with a new
key is appended, an entry with a known key replaces the stored one when it is
newer. Folding `upsert` over a list keeps, for each key, an entry of greatest
rank, in the order in which the keys first occur (`newest`). A bounded variant
gives up at the first new key that finds the list full (`absorbUpTo`).
-/

namespace ReferenceSystem

/-! ## First occurrences -/

section
variable {κ : Type} [BEq κ] [LawfulBEq κ]

theorem eraseDups_of_nodup {l : List κ} (h : l.Nodup) : l.eraseDups = l := by
  induction l with
  | nil => rfl
  | cons a l ih =>
    obtain ⟨ha, hl⟩ := List.nodup_cons.mp h
    have : l.filter (fun b => !b == a) = l := by
      rw [List.filter_eq_self]; intro b hb
      simp only [Bool.not_eq_true', beq_eq_false_iff_ne]
      exact fun e => ha (e ▸ hb)
    rw [List.eraseDups_cons, this, ih hl]

theorem nodup_eraseDups : ∀ l : List κ, l.eraseDups.Nodup
  | [] => List.nodup_nil
  | a :: l => by
    have : (l.filter fun b => !b == a).length < l.length + 1 :=
      Nat.lt_succ_of_le (List.length_filter_le _ l)
    rw [List.eraseDups_cons, List.nodup_cons]
    refine ⟨fun hm => ?_, nodup_eraseDups (l.filter fun b => !b == a)⟩
    simpa using List.of_mem_filter (List.mem_eraseDups.mp hm)
termination_by l => l.length

theorem removeAll_eraseDups (l m : List κ) : m.removeAll l.eraseDups = m.removeAll l := by
  refine List.filter_congr fun a _ => ?_
  simp [List.mem_eraseDups]

theorem eraseDups_append_known {l m : List κ} {k : κ} (h : k ∈ l) :
    (l ++ k :: m).eraseDups = (l ++ m).eraseDups := by
  rw [List.eraseDups_append, List.eraseDups_append]
  congr 2
  simp [List.removeAll, h]

end

section
variable {α κ : Type} [DecidableEq κ] (key : α → κ) (newer : α → α → Bool)

def upsert : List α → α → List α
  | [], e => [e]
  | a :: l, e => if key a = key e then (if newer e a then e :: l else a :: l) else a :: upsert l e

def newest (l : List α) : List α := l.foldl (upsert key newer) []

/-- Merge entries into `acc`, stopping at the first new key that finds `cap`
entries already stored; the flag reports that stop. -/
def absorbUpTo (cap : Nat) : List α → List α → List α × Bool
  | acc, [] => (acc, false)
  | acc, e :: es =>
    if key e ∈ acc.map key then absorbUpTo cap (upsert key newer acc e) es
    else if cap ≤ acc.length then (acc, true)
    else absorbUpTo cap (acc ++ [e]) es

/-! ## One update -/

theorem keys_upsert (l : List α) (e : α) :
    (upsert key newer l e).map key = if key e ∈ l.map key then l.map key else l.map key ++ [key e] := by
  induction l with
  | nil => simp [upsert]
  | cons a l ih =>
    by_cases h : key a = key e
    · by_cases hn : newer e a <;> simp [upsert, h, hn]
    · by_cases hm : key e ∈ l.map key
      · rw [if_pos hm] at ih
        simp [upsert, h, ih, List.mem_map.mp hm]
      · rw [if_neg hm] at ih
        have hne : ¬ key e ∈ (a :: l).map key := by
          rw [List.map_cons, List.mem_cons]; exact fun hc => hc.elim (fun e' => h e'.symm) hm
        rw [if_neg hne]
        simp [upsert, h, ih]

theorem nodup_keys_upsert {l : List α} (hl : (l.map key).Nodup) (e : α) :
    ((upsert key newer l e).map key).Nodup := by
  rw [keys_upsert]
  split
  · exact hl
  · rename_i h
    exact List.nodup_append.mpr ⟨hl, List.nodup_singleton _, fun a ha b hb hab => by
      rw [List.mem_singleton] at hb; exact h (hb ▸ hab ▸ ha)⟩

theorem mem_upsert {l : List α} {e x : α} (h : x ∈ upsert key newer l e) : x = e ∨ x ∈ l := by
  induction l with
  | nil => exact Or.inl (List.mem_singleton.mp h)
  | cons a l ih =>
    unfold upsert at h
    split at h
    · split at h
      · rcases List.mem_cons.mp h with h | h
        · exact Or.inl h
        · exact Or.inr (List.mem_cons_of_mem _ h)
      · exact Or.inr h
    · rcases List.mem_cons.mp h with h | h
      · subst h; exact Or.inr (List.mem_cons_self ..)
      · exact (ih h).imp_right (List.mem_cons_of_mem _)

theorem upsert_fresh {l : List α} {e : α} (h : key e ∉ l.map key) : upsert key newer l e = l ++ [e] := by
  induction l with
  | nil => rfl
  | cons a l ih =>
    rw [List.map_cons, List.mem_cons, not_or] at h
    simp [upsert, Ne.symm h.1, ih h.2]

theorem length_upsert_known {l : List α} {e : α} (h : key e ∈ l.map key) :
    (upsert key newer l e).length = l.length := by
  have := congrArg List.length (keys_upsert key newer l e)
  rw [if_pos h] at this
  simpa using this

theorem upsert_at {l : List α} {e a : α} {i : Nat} (hi : l[i]? = some a) (hk : key a = key e)
    (hfirst : ∀ j < i, ∀ b, l[j]? = some b → key b ≠ key e) :
    upsert key newer l e = if newer e a then l.set i e else l := by
  induction l generalizing i with
  | nil => simp at hi
  | cons b l ih =>
    cases i with
    | zero =>
      simp only [List.getElem?_cons_zero, Option.some.injEq] at hi
      subst hi
      simp only [upsert, hk, ite_true, List.set_cons_zero]
    | succ i =>
      have hb : key b ≠ key e := hfirst 0 (Nat.succ_pos i) b rfl
      rw [List.getElem?_cons_succ] at hi
      have := ih hi fun j hj b' hb' => hfirst (j + 1) (Nat.succ_lt_succ hj) b' hb'
      simp only [upsert, hb, ite_false, this, List.set_cons_succ]
      split <;> rfl

/-! ## Folding updates -/

theorem nodup_keys_foldl (es : List α) : ∀ {l : List α}, (l.map key).Nodup →
    ((es.foldl (upsert key newer) l).map key).Nodup := by
  induction es with
  | nil => exact id
  | cons e es ih => exact fun hl => ih (nodup_keys_upsert key newer hl e)

theorem nodup_keys_newest (l : List α) : ((newest key newer l).map key).Nodup :=
  nodup_keys_foldl key newer l List.nodup_nil

theorem mem_foldl_upsert (es : List α) : ∀ {l : List α} {x : α}, x ∈ es.foldl (upsert key newer) l →
    x ∈ l ∨ x ∈ es := by
  induction es with
  | nil => exact Or.inl
  | cons e es ih =>
    intro l x hx
    rcases ih hx with h | h
    · rcases mem_upsert key newer h with rfl | h
      · exact Or.inr (List.mem_cons_self ..)
      · exact Or.inl h
    · exact Or.inr (List.mem_cons_of_mem _ h)

theorem mem_newest {l : List α} {x : α} (h : x ∈ newest key newer l) : x ∈ l :=
  (mem_foldl_upsert key newer l h).resolve_left (List.not_mem_nil)

theorem newest_append (l es : List α) :
    newest key newer (l ++ es) = es.foldl (upsert key newer) (newest key newer l) :=
  List.foldl_append

theorem keys_foldl [BEq κ] [LawfulBEq κ] (es : List α) : ∀ (l : List α), (l.map key).Nodup →
    (es.foldl (upsert key newer) l).map key = (l.map key ++ es.map key).eraseDups := by
  induction es with
  | nil =>
    intro l hl
    simp [eraseDups_of_nodup hl]
  | cons e es ih =>
    intro l hl
    rw [List.foldl_cons, ih _ (nodup_keys_upsert key newer hl e), keys_upsert, List.map_cons]
    by_cases h : key e ∈ l.map key
    · rw [if_pos h, eraseDups_append_known h]
    · rw [if_neg h, List.append_assoc]; rfl

theorem keys_newest [BEq κ] [LawfulBEq κ] (l : List α) : (newest key newer l).map key = (l.map key).eraseDups := by
  simpa [newest] using keys_foldl key newer l [] List.nodup_nil

theorem foldl_fresh (es : List α) : ∀ {l : List α}, ((l ++ es).map key).Nodup →
    es.foldl (upsert key newer) l = l ++ es := by
  induction es with
  | nil => exact fun _ => (List.append_nil _).symm
  | cons e es ih =>
    intro l h
    have hfresh : key e ∉ l.map key := by
      rw [List.map_append, List.nodup_append] at h
      exact fun hm => h.2.2 _ hm _ (List.mem_cons_self ..) rfl
    rw [List.foldl_cons, upsert_fresh key newer hfresh, ih (by simpa using h), List.append_assoc]; rfl

theorem newest_of_nodup {l : List α} (h : (l.map key).Nodup) : newest key newer l = l :=
  foldl_fresh key newer l h

theorem newest_newest (l : List α) : newest key newer (newest key newer l) = newest key newer l :=
  newest_of_nodup key newer (nodup_keys_newest key newer l)

/-! ## The bounded merge -/

theorem length_le_upsert (l : List α) (e : α) : l.length ≤ (upsert key newer l e).length := by
  by_cases h : key e ∈ l.map key
  · rw [length_upsert_known key newer h]
  · rw [upsert_fresh key newer h, List.length_append]
    exact Nat.le_add_right _ _

theorem length_le_foldl (es : List α) : ∀ l : List α, l.length ≤ (es.foldl (upsert key newer) l).length := by
  induction es with
  | nil => intro l; exact Nat.le_refl _
  | cons e es ih => intro l; exact (length_le_upsert key newer l e).trans (ih _)

theorem absorbUpTo_append {cap : Nat} (es : List α) : ∀ {acc : List α} (es' : List α),
    (es.foldl (upsert key newer) acc).length ≤ cap →
    absorbUpTo key newer cap acc (es ++ es') = absorbUpTo key newer cap (es.foldl (upsert key newer) acc) es' := by
  induction es with
  | nil => intro acc es' _; rfl
  | cons e es ih =>
    intro acc es' hfit
    rw [List.cons_append, absorbUpTo, List.foldl_cons]
    rw [List.foldl_cons] at hfit
    by_cases h : key e ∈ acc.map key
    · rw [if_pos h]
      exact ih es' hfit
    · have hlen := (length_le_foldl key newer es (upsert key newer acc e)).trans hfit
      rw [upsert_fresh key newer h, List.length_append, List.length_singleton] at hlen
      rw [if_neg h, if_neg (Nat.not_le.mpr hlen), ← upsert_fresh key newer h]
      exact ih es' hfit

/-- The bounded merge takes everything, or what comes before the first new key
that finds the list full. -/
theorem absorbUpTo_cases {cap : Nat} (es : List α) : ∀ {acc : List α}, acc.length ≤ cap →
    (absorbUpTo key newer cap acc es = (es.foldl (upsert key newer) acc, false) ∧
      (es.foldl (upsert key newer) acc).length ≤ cap) ∨
    ∃ before e after, es = before ++ e :: after ∧ key e ∉ (before.foldl (upsert key newer) acc).map key ∧
      (before.foldl (upsert key newer) acc).length = cap ∧
      absorbUpTo key newer cap acc es = (before.foldl (upsert key newer) acc, true) := by
  induction es with
  | nil => intro acc hacc; exact Or.inl ⟨rfl, hacc⟩
  | cons e es ih =>
    intro acc hacc
    have hnext : ∀ acc', acc' = upsert key newer acc e → acc'.length ≤ cap →
        absorbUpTo key newer cap acc (e :: es) = absorbUpTo key newer cap acc' es →
        (absorbUpTo key newer cap acc (e :: es) = ((e :: es).foldl (upsert key newer) acc, false) ∧
          ((e :: es).foldl (upsert key newer) acc).length ≤ cap) ∨
        ∃ before e' after, e :: es = before ++ e' :: after ∧
          key e' ∉ (before.foldl (upsert key newer) acc).map key ∧
          (before.foldl (upsert key newer) acc).length = cap ∧
          absorbUpTo key newer cap acc (e :: es) = (before.foldl (upsert key newer) acc, true) := by
      intro acc' hacc' hlen heq
      rw [heq]
      rcases ih hlen with ⟨h, hfit⟩ | ⟨before, e', after, hes, hnew, hfull, h⟩
      · left
        rw [hacc'] at hfit
        exact ⟨by rw [h, hacc']; rfl, hfit⟩
      · right
        rw [hacc'] at hnew hfull h
        exact ⟨e :: before, e', after, by rw [hes]; rfl, hnew, hfull, by rw [hacc', h]; rfl⟩
    by_cases h : key e ∈ acc.map key
    · apply hnext _ rfl
      · rw [length_upsert_known key newer h]; exact hacc
      · rw [absorbUpTo, if_pos h]
    · by_cases hfull : cap ≤ acc.length
      · right
        refine ⟨[], e, es, rfl, h, Nat.le_antisymm hacc hfull, ?_⟩
        rw [absorbUpTo, if_neg h, if_pos hfull]; rfl
      · apply hnext _ rfl
        · rw [upsert_fresh key newer h, List.length_append, List.length_singleton]; omega
        · rw [absorbUpTo, if_neg h, if_neg hfull, upsert_fresh key newer h]

theorem length_foldl [BEq κ] [LawfulBEq κ] (es : List α) {acc : List α} (hacc : (acc.map key).Nodup) :
    (es.foldl (upsert key newer) acc).length = (acc.map key ++ es.map key).eraseDups.length := by
  rw [← keys_foldl key newer es acc hacc, List.length_map]

/-- With room for every key, the bounded merge is the fold. -/
theorem absorbUpTo_room [BEq κ] [LawfulBEq κ] {cap : Nat} (es : List α) {acc : List α} (hacc : (acc.map key).Nodup)
    (hlen : (acc.map key ++ es.map key).eraseDups.length ≤ cap) :
    absorbUpTo key newer cap acc es = (es.foldl (upsert key newer) acc, false) := by
  rw [← length_foldl key newer es hacc] at hlen
  have hall := absorbUpTo_append key newer es [] hlen
  rw [List.append_nil] at hall
  exact hall

/-- Without room for every key, the bounded merge stops early. -/
theorem absorbUpTo_full [BEq κ] [LawfulBEq κ] {cap : Nat} (es : List α) {acc : List α} (hacc : (acc.map key).Nodup)
    (hle : acc.length ≤ cap) (hlt : cap < (acc.map key ++ es.map key).eraseDups.length) :
    (absorbUpTo key newer cap acc es).2 = true := by
  rcases absorbUpTo_cases key newer es hle with ⟨_, hfit⟩ | ⟨before, e, after, _, _, _, h⟩
  · rw [length_foldl key newer es hacc] at hfit
    omega
  · rw [h]

end

/-! ## Ranks -/

section
variable {α κ ρ : Type} [DecidableEq κ] [LinearOrder ρ] (key : α → κ) {newer : α → α → Bool} {rank : α → ρ}
variable (hnewer : ∀ e a, newer e a = true ↔ rank a < rank e)
include hnewer

theorem upsert_covers {l : List α} {e x : α} (hx : x = e ∨ x ∈ l) :
    ∃ y ∈ upsert key newer l e, key y = key x ∧ rank x ≤ rank y := by
  induction l with
  | nil =>
    rcases hx with rfl | hx
    · exact ⟨x, List.mem_singleton_self x, rfl, le_rfl⟩
    · cases hx
  | cons a l ih =>
    by_cases hk : key a = key e
    · by_cases hn : newer e a = true
      · have hlt := (hnewer e a).mp hn
        simp only [upsert, hk, hn, ite_true]
        rcases hx with rfl | hx
        · exact ⟨x, List.mem_cons_self .., rfl, le_rfl⟩
        · rcases List.mem_cons.mp hx with rfl | hx
          · exact ⟨e, List.mem_cons_self .., hk.symm, hlt.le⟩
          · exact ⟨x, List.mem_cons_of_mem _ hx, rfl, le_rfl⟩
      · have hle : rank e ≤ rank a := not_lt.mp fun h => hn ((hnewer e a).mpr h)
        simp only [upsert, hk, hn, ite_true]
        rcases hx with rfl | hx
        · exact ⟨a, List.mem_cons_self .., hk, hle⟩
        · exact ⟨x, hx, rfl, le_rfl⟩
    · simp only [upsert, hk, ite_false]
      rcases hx with rfl | hx
      · obtain ⟨y, hy, h⟩ := ih (Or.inl rfl)
        exact ⟨y, List.mem_cons_of_mem _ hy, h⟩
      · rcases List.mem_cons.mp hx with rfl | hx
        · exact ⟨x, List.mem_cons_self .., rfl, le_rfl⟩
        · obtain ⟨y, hy, h⟩ := ih (Or.inr hx)
          exact ⟨y, List.mem_cons_of_mem _ hy, h⟩

theorem foldl_covers (es : List α) : ∀ {l : List α} {x : α}, x ∈ l ∨ x ∈ es →
    ∃ y ∈ es.foldl (upsert key newer) l, key y = key x ∧ rank x ≤ rank y := by
  induction es with
  | nil => exact fun hx => ⟨_, hx.resolve_right List.not_mem_nil, rfl, le_rfl⟩
  | cons e es ih =>
    intro l x hx
    rcases or_assoc.mpr (hx.imp_right List.mem_cons.mp) with hx | hx
    · obtain ⟨y, hy, hk, hr⟩ := upsert_covers key hnewer hx.symm
      obtain ⟨z, hz, hk', hr'⟩ := ih (Or.inl hy)
      exact ⟨z, hz, hk'.trans hk, hr.trans hr'⟩
    · exact ih (Or.inr hx)

/-- The kept entry has the greatest rank among the entries of its key. -/
theorem newest_max {l : List α} {x y : α} (hx : x ∈ newest key newer l) (hy : y ∈ l) (hk : key y = key x) :
    rank y ≤ rank x := by
  obtain ⟨z, hz, hkz, hr⟩ := foldl_covers key hnewer l (l := []) (Or.inr hy)
  have : z = x := List.inj_on_of_nodup_map (nodup_keys_newest key newer l) hz hx (hkz.trans hk)
  exact this ▸ hr

end

/-! ## What is stored under a key -/

section
variable {α κ ρ : Type} [DecidableEq κ] (key : α → κ) (rank : α → ρ)

def storedAt (l : List α) (k : κ) : Option ρ := (l.find? fun a => key a = k).map rank

theorem storedAt_eq_some {l : List α} (hl : (l.map key).Nodup) {k : κ} {r : ρ} :
    storedAt key rank l k = some r ↔ ∃ x ∈ l, key x = k ∧ rank x = r := by
  unfold storedAt
  constructor
  · intro h
    obtain ⟨x, hx, rfl⟩ := Option.map_eq_some_iff.mp h
    exact ⟨x, List.mem_of_find?_eq_some hx, by simpa using List.find?_some hx, rfl⟩
  · rintro ⟨x, hx, rfl, rfl⟩
    cases h : l.find? fun a => key a = key x with
    | none => exact absurd (decide_eq_true rfl) (List.find?_eq_none.mp h x hx)
    | some y =>
      have hk : key y = key x := by simpa using List.find?_some h
      rw [List.inj_on_of_nodup_map hl (List.mem_of_find?_eq_some h) hx hk, Option.map_some]

end

section
variable {α κ ρ : Type} [DecidableEq κ] [LinearOrder ρ] (key : α → κ) {newer : α → α → Bool} {rank : α → ρ}
variable (hnewer : ∀ e a, newer e a = true ↔ rank a < rank e)
include hnewer

theorem storedAt_newest {l : List α} {k : κ} {r : ρ} :
    storedAt key rank (newest key newer l) k = some r ↔
      (∃ x ∈ l, key x = k ∧ rank x = r) ∧ ∀ y ∈ l, key y = k → rank y ≤ r := by
  rw [storedAt_eq_some key rank (nodup_keys_newest key newer l)]
  constructor
  · rintro ⟨x, hx, rfl, rfl⟩
    exact ⟨⟨x, mem_newest key newer hx, rfl, rfl⟩, fun y hy hk => newest_max key hnewer hx hy hk⟩
  · rintro ⟨⟨x, hx, rfl, rfl⟩, hmax⟩
    obtain ⟨z, hz, hk, hr⟩ := foldl_covers key hnewer l (l := []) (Or.inr hx)
    exact ⟨z, hz, hk, le_antisymm (hmax z (mem_newest key newer hz) hk) hr⟩

/-- What is kept depends only on which entries were merged, not on their order. -/
theorem storedAt_newest_congr {l l' : List α} (h : ∀ x, x ∈ l ↔ x ∈ l') :
    storedAt key rank (newest key newer l) = storedAt key rank (newest key newer l') := by
  funext k
  refine Option.ext fun r => ?_
  rw [storedAt_newest key hnewer, storedAt_newest key hnewer]
  simp only [h]

end

end ReferenceSystem
