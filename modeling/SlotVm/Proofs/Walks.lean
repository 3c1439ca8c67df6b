import Mathlib.Data.List.Nodup
import Mathlib.Data.List.Perm.Subperm
import Mathlib.Logic.Relation

/-!
# Bounded walks

A walk follows links from one place to the next and gives up after a number
of steps.  A walk that never comes back to a place visits each place once, so
it may take as many steps as there are places with a link, and one more for
the last place, which has none.

`Walk.Trail` says which places lie behind a walk, and `Walk.Suffices` that
the steps that are left are enough for all others.  `Suffices.pos` and
`Suffices.next` are what an induction on the steps needs.
-/

namespace SlotVm.Walk

open Relation

variable {α : Type} {R : α → α → Prop} {a b : α} {seen : List α}
variable {count fuel : Nat}

/-- No more than `count` places have a link to another one. -/
def Bounded (R : α → α → Prop) (count : Nat) : Prop :=
  ∃ places : List α, places.length = count ∧ ∀ a b, R a b → a ∈ places

/-- A walk has met the places `seen` on its way to `a`, each of them once. -/
structure Trail (R : α → α → Prop) (seen : List α) (a : α) : Prop where
  nodup : seen.Nodup
  leads : ∀ b ∈ seen, TransGen R b a

/-- A walk that has not met any place yet. -/
theorem Trail.nil (R : α → α → Prop) (a : α) : Trail R [] a where
  nodup := List.nodup_nil
  leads _ hb := absurd hb List.not_mem_nil

/-- One more link of a walk that has not come back to where it is. -/
theorem Trail.cons (hcycle : ¬ TransGen R a a) (h : Trail R seen a)
    (hlink : R a b) : Trail R (a :: seen) b where
  nodup := List.nodup_cons.2 ⟨fun hmem => hcycle (h.leads a hmem), h.nodup⟩
  leads := by
    intro c hc
    rcases List.mem_cons.1 hc with rfl | hc
    · exact .single hlink
    · exact (h.leads c hc).tail hlink

/-- A walk meets no more places than there are. -/
theorem Trail.length_le (hR : Bounded R count) (h : Trail R seen a) :
    seen.length ≤ count := by
  obtain ⟨places, rfl, hplaces⟩ := hR
  -- A place that leads somewhere has a link.
  have hsub : seen ⊆ places := by
    intro b hb
    obtain ⟨c, hlink, -⟩ := TransGen.head'_iff.1 (h.leads b hb)
    exact hplaces b c hlink
  exact (List.subperm_of_subset h.nodup hsub).length_le

/-- A walk that has come to `a` may still visit all places that it has not
met. -/
def Suffices (R : α → α → Prop) (count fuel : Nat) (a : α) : Prop :=
  ∃ seen, Trail R seen a ∧ count < seen.length + fuel

/-- A walk that begins may visit all places and one more. -/
theorem Suffices.of_lt (a : α) (h : count < fuel) : Suffices R count fuel a :=
  ⟨[], .nil R a, Nat.lt_add_left _ h⟩

theorem Suffices.pos (hR : Bounded R count) (h : Suffices R count fuel a) :
    ∃ rest, fuel = rest + 1 := by
  obtain ⟨seen, htrail, hlt⟩ := h
  have hlength := htrail.length_le hR
  exact Nat.exists_eq_add_one.2 (by omega)

/-- Each link uses up one step and puts one more place on the trail. -/
theorem Suffices.next (hcycle : ¬ TransGen R a a)
    (h : Suffices R count (fuel + 1) a) (hlink : R a b) :
    Suffices R count fuel b := by
  obtain ⟨seen, htrail, hlt⟩ := h
  refine ⟨a :: seen, htrail.cons hcycle hlink, ?_⟩
  rw [List.length_cons]
  omega

end SlotVm.Walk
