import Mathlib.Data.List.MinMax

/-!
# The best of a list

The first element of a list on which a function is largest, found by a scan
that carries the best element so far. A scan may be cut anywhere, and a part of
it may be replaced by its own best element.
-/

namespace ReferenceSystem

section
variable {α β : Type} [LinearOrder β] (f : α → β)

/-- The best element of a list that is scanned with a best element so far. -/
def bestOf (best : Option α) (l : List α) : Option α := (best.toList ++ l).argmax f

@[simp] theorem bestOf_nil (best : Option α) : bestOf f best [] = best := by
  cases best <;> rfl

theorem bestOf_none_cons (b : α) (l : List α) : bestOf f none (b :: l) = bestOf f (some b) l := rfl

theorem bestOf_some_cons (a b : α) (l : List α) :
    bestOf f (some a) (b :: l) = bestOf f (some (if f a < f b then b else a)) l := by
  simp only [bestOf, Option.toList_some, List.singleton_append, List.argmax, List.foldl_cons, List.argAux]
  split <;> rfl

theorem bestOf_bestOf (best : Option α) (l l' : List α) :
    bestOf f (bestOf f best l) l' = bestOf f best (l ++ l') := by
  induction l generalizing best with
  | nil => rw [bestOf_nil, List.nil_append]
  | cons b l ih =>
    cases best with
    | none => rw [bestOf_none_cons, ih, List.cons_append, bestOf_none_cons]
    | some a => rw [bestOf_some_cons, ih, List.cons_append, bestOf_some_cons]

theorem bestOf_cons (best : Option α) (b : α) (l : List α) :
    bestOf f best (b :: l) = bestOf f (bestOf f best [b]) l :=
  (bestOf_bestOf f best [b] l).symm

theorem bestOf_toList (best : Option α) (l : List α) :
    bestOf f best (bestOf f none l).toList = bestOf f best l := by
  have hnone : bestOf f none l = l.argmax f := rfl
  rw [hnone]
  cases hm : l.argmax f with
  | none => rw [List.argmax_eq_none.mp hm]; rfl
  | some m =>
    cases best with
    | none => rw [hnone, hm]; rfl
    | some a =>
      have hcons := List.argmax_cons f a l
      rw [hm] at hcons
      exact (List.argmax_cons f a [m]).trans hcons.symm

variable {f}

theorem bestOf_self {a : α} : ∀ {l : List α}, (∀ b ∈ l, f b ≤ f a) → bestOf f (some a) l = some a
  | [], _ => bestOf_nil f (some a)
  | b :: l, h => by
    rw [bestOf_some_cons, if_neg (not_lt.mpr (h b (List.mem_cons_self ..)))]
    exact bestOf_self fun b' hb' => h b' (List.mem_cons_of_mem _ hb')

theorem bestOf_mem {best : Option α} {l : List α} {x : α} (hx : bestOf f best l = some x) :
    best = some x ∨ x ∈ l := by
  rcases List.mem_append.mp (List.argmax_mem hx) with h | h
  · exact Or.inl (Option.mem_toList.mp h)
  · exact Or.inr h

theorem mem_of_best {l : List α} {x : α} (hx : bestOf f none l = some x) : x ∈ l :=
  List.argmax_mem hx

theorem le_best {l : List α} {x : α} (hx : bestOf f none l = some x) : ∀ b ∈ l, f b ≤ f x :=
  fun _ hb => List.le_of_mem_argmax hb hx

/-- The best element comes first among those of its value. -/
theorem best_split {l : List α} {x : α} (hx : bestOf f none l = some x) :
    ∃ before after, l = before ++ x :: after ∧ (∀ y ∈ before, f y < f x) ∧ ∀ y ∈ after, f y ≤ f x := by
  induction l using List.reverseRecOn generalizing x with
  | nil => cases hx
  | append_singleton l b ih =>
    rw [← bestOf_bestOf] at hx
    cases hl : bestOf f none l with
    | none =>
      rw [hl] at hx
      cases hx
      have hnil : l = [] := List.argmax_eq_none.mp hl
      subst hnil
      exact ⟨[], [], rfl, by simp, by simp⟩
    | some a =>
      obtain ⟨before, after, rfl, hlt, hle⟩ := ih hl
      rw [hl, bestOf_some_cons, bestOf_nil] at hx
      by_cases hab : f a < f b
      · rw [if_pos hab] at hx
        cases hx
        refine ⟨before ++ a :: after, [], rfl, fun y hy => ?_, by simp⟩
        exact lt_of_le_of_lt (le_best hl y hy) hab
      · rw [if_neg hab] at hx
        cases hx
        refine ⟨before, after ++ [b], by simp, hlt, fun y hy => ?_⟩
        rcases List.mem_append.mp hy with hy | hy
        · exact hle y hy
        · rw [List.mem_singleton.mp hy]
          exact not_lt.mp hab

theorem best_eq_none {l : List α} : bestOf f none l = none ↔ l = [] := List.argmax_eq_none

theorem exists_best {l : List α} {b : α} (hb : b ∈ l) : ∃ x, bestOf f none l = some x := by
  rw [← Option.ne_none_iff_exists', ne_eq, best_eq_none]
  exact List.ne_nil_of_mem hb

end

end ReferenceSystem
