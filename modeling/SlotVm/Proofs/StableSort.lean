/-!
# Stable order

A list is put into the stable order of a rank when it is ordered by the rank
and all members of one rank stay in the order in which they came.  These two
properties leave no choice (`eq_of_ordered`), and the library's sort has both
of them (`pairwise_mergeSort_le` and `filter_mergeSort`).
-/

namespace SlotVm

variable {α κ : Type} {xs ys : List α}

section Sorting

variable {β : Type} [LE β] [DecidableLE β] [Std.IsLinearPreorder β]
variable (f : α → β)

theorem decide_le_trans (x y z : α) (hxy : decide (f x ≤ f y) = true)
    (hyz : decide (f y ≤ f z) = true) : decide (f x ≤ f z) = true := by
  simp only [decide_eq_true_eq] at *
  exact Std.le_trans hxy hyz

theorem decide_le_total (x y : α) :
    (decide (f x ≤ f y) || decide (f y ≤ f x)) = true := by
  simp only [Bool.or_eq_true, decide_eq_true_eq]
  exact Std.le_total

/-- A sorted list is ordered. -/
theorem pairwise_mergeSort_le (xs : List α) :
    (xs.mergeSort fun x y => f x ≤ f y).Pairwise fun x y => f x ≤ f y := by
  apply (List.pairwise_mergeSort (decide_le_trans f) (decide_le_total f)
    xs).imp
  intro x y hxy
  exact of_decide_eq_true hxy

/-- Members that the order does not tell apart keep their order when a list
is sorted. -/
theorem filter_mergeSort (xs : List α) {p : α → Bool}
    (hsame : ∀ x y, p x = true → p y = true → f x ≤ f y) :
    (xs.mergeSort fun x y => f x ≤ f y).filter p = xs.filter p := by
  have hordered : (xs.filter p).Pairwise fun x y =>
      decide (f x ≤ f y) = true := by
    apply List.pairwise_of_forall_mem_list
    intro x hx y hy
    exact decide_eq_true (hsame x y (List.mem_filter.1 hx).2
      (List.mem_filter.1 hy).2)
  have hsub := (List.sublist_mergeSort (decide_le_trans f)
    (decide_le_total f) hordered List.filter_sublist).filter p
  simp only [List.filter_filter, Bool.and_self] at hsub
  have hperm := (List.mergeSort_perm xs
    fun x y => decide (f x ≤ f y)).filter p
  exact (hsub.eq_of_length hperm.length_eq.symm).symm

end Sorting

section Keys

variable (key : α → κ) (rank : κ → Nat)

/-- The first member of an ordered list has the least rank of all. -/
theorem rank_head_le {a b : α}
    (h : (a :: xs).Pairwise fun x y => rank (key x) ≤ rank (key y))
    (hb : b ∈ a :: xs) : rank (key a) ≤ rank (key b) := by
  rcases List.mem_cons.1 hb with rfl | hrest
  · exact Nat.le_refl _
  · exact (List.pairwise_cons.1 h).1 b hrest

variable [DecidableEq κ]

/-- Lists with the same members for each key have the same members. -/
theorem mem_iff_of_filter (h : ∀ k, xs.filter (key · = k) =
    ys.filter (key · = k)) (a : α) : a ∈ xs ↔ a ∈ ys := by
  have hmem : a ∈ xs.filter (key · = key a) ↔
      a ∈ ys.filter (key · = key a) := by
    rw [h (key a)]
  simpa using hmem

/-- Lists that are ordered by the rank of their keys are the same if they have
the same members for each key, in the same order. -/
theorem eq_of_ordered (hrank : ∀ j k, rank j = rank k → j = k)
    (hx : xs.Pairwise fun a b => rank (key a) ≤ rank (key b))
    (hy : ys.Pairwise fun a b => rank (key a) ≤ rank (key b))
    (hsame : ∀ k, xs.filter (key · = k) = ys.filter (key · = k)) : xs = ys := by
  have hmem := mem_iff_of_filter key hsame
  induction xs generalizing ys with
  | nil =>
    cases ys with
    | nil => rfl
    | cons b ys => exact absurd ((hmem b).2 List.mem_cons_self) List.not_mem_nil
  | cons a xs ih =>
    cases ys with
    | nil => exact absurd ((hmem a).1 List.mem_cons_self) List.not_mem_nil
    | cons b ys =>
      -- each of the first members stands in the other list, behind its first
      have hle := rank_head_le key rank hx ((hmem b).2 List.mem_cons_self)
      have hge := rank_head_le key rank hy ((hmem a).1 List.mem_cons_self)
      have hkey : key b = key a := hrank _ _ (Nat.le_antisymm hge hle)
      have hfirst := hsame (key a)
      simp only [List.filter_cons, hkey, decide_true, if_true] at hfirst
      have hab : a = b := (List.cons.inj hfirst).1
      have hrest : ∀ k, xs.filter (key · = k) = ys.filter (key · = k) := by
        intro k
        have hk := hsame k
        by_cases h : key b = k <;> simpa [hab, h] using hk
      rw [hab, ih hx.of_cons hy.of_cons hrest (mem_iff_of_filter key hrest)]

end Keys

end SlotVm
