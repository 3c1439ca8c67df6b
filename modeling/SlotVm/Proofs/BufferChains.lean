import SlotVm.Native.Strings
import SlotVm.Proofs.Heap
import SlotVm.Proofs.Walks

/-!
# Chains of string buffers

A string buffer holds the handle of its text, and that may be the handle of a
string buffer again.  `Heap.LeadsTo` is one such link.  Reading a string
follows the links, and its fuel bounds how many.

* A chain without a cycle has no more links than the heap has objects.  So
  the fuel of `Strings.read` suffices, and what is read is what the last
  object of the chain reads as (`read_of_acyclic`).
* No fuel suffices for a chain that comes to a cycle (`readHeap_of_cycle`).
-/

namespace SlotVm

open Relation

variable {h : Heap} {r r' : UInt16} {fuel : Nat}

namespace Heap

/-- The object is a string buffer that holds the handle of the other one. -/
def LeadsTo (h : Heap) (r r' : UInt16) : Prop :=
  ∃ entry, h.header r = .ok entry ∧ entry.kind = .chunk ∧ entry.len = 1 ∧
    h.load r 0 = .ok (.ref r')

/-- Only objects have links. -/
theorem leadsTo_bounded (h : Heap) :
    Walk.Bounded h.LeadsTo h.objectCount := by
  refine ⟨(List.range h.objectCount).map UInt16.ofNat, by simp, ?_⟩
  rintro r r' ⟨entry, hheader, -⟩
  refine List.mem_map.2 ⟨r.toNat, ?_, UInt16.ofNat_toNat⟩
  exact List.mem_range.2 (contains_iff.2 ⟨entry, header_ok hheader⟩)

end Heap

namespace Strings

/-- A link is followed. -/
theorem readHeap_of_leadsTo (hlink : h.LeadsTo r r') (fuel : Nat) :
    readHeap h (fuel + 1) r = readHeap h fuel r' := by
  obtain ⟨entry, hheader, hkind, hlen, hload⟩ := hlink
  rw [readHeap, bind_of_ok hheader]
  simp only [hkind, if_pos hlen]
  rw [bind_of_ok hload]

/-- An object without a link is read at once. -/
theorem readHeap_of_last (hlast : ∀ r', ¬ h.LeadsTo r r') (fuel : Nat) :
    readHeap h (fuel + 1) r = readHeap h 1 r := by
  unfold readHeap
  cases hheader : h.header r with
  | error e => rfl
  | ok entry =>
    simp only [bind, Except.bind]
    split
    · rfl
    · rfl
    · rename_i hkind
      by_cases hlen : entry.len = 1
      · simp only [if_pos hlen]
        cases hload : h.load r 0 with
        | error e => rfl
        | ok v =>
          cases v with
          | ref r' => exact absurd ⟨entry, hheader, hkind, hlen, hload⟩ (hlast r')
          | null | zero | int | float | const => rfl
      · simp only [if_neg hlen]
    · rfl

/-- Reading comes to the end of a chain without a cycle, if it may still visit
all objects that it has not met. -/
theorem readHeap_of_suffices
    (hfuel : Walk.Suffices h.LeadsTo h.objectCount fuel r)
    (hacyclic : ∀ x, ReflTransGen h.LeadsTo r x → ¬ TransGen h.LeadsTo x x) :
    ∃ last, ReflTransGen h.LeadsTo r last ∧ (∀ r', ¬ h.LeadsTo last r') ∧
      readHeap h fuel r = readHeap h 1 last := by
  induction fuel generalizing r with
  | zero =>
    obtain ⟨rest, hrest⟩ := hfuel.pos h.leadsTo_bounded
    cases hrest
  | succ fuel ih =>
    by_cases hlink : ∃ r', h.LeadsTo r r'
    · obtain ⟨r', hlink⟩ := hlink
      obtain ⟨last, hreach, hlast, hread⟩ :=
        ih (hfuel.next (hacyclic r .refl) hlink)
          fun x hx => hacyclic x (.head hlink hx)
      refine ⟨last, .head hlink hreach, hlast, ?_⟩
      rw [readHeap_of_leadsTo hlink, hread]
    · have hlast : ∀ r', ¬ h.LeadsTo r r' := not_exists.1 hlink
      exact ⟨r, .refl, hlast, readHeap_of_last hlast fuel⟩

/-- A string is read as the last object of its chain, unless the chain comes
back to itself. -/
theorem read_of_acyclic (image : Image)
    (hacyclic : ∀ x, ReflTransGen h.LeadsTo r x → ¬ TransGen h.LeadsTo x x) :
    ∃ last, ReflTransGen h.LeadsTo r last ∧ (∀ r', ¬ h.LeadsTo last r') ∧
      Strings.read h image (.ref r) = readHeap h 1 last :=
  readHeap_of_suffices (.of_lt r (Nat.lt_succ_self _)) hacyclic

/-- A chain that comes to a cycle uses up any fuel. -/
theorem readHeap_of_cycle {x : UInt16} (hreach : ReflTransGen h.LeadsTo r x)
    (hcycle : TransGen h.LeadsTo x x) (fuel : Nat) :
    readHeap h fuel r = notString "string" "object" := by
  induction fuel generalizing r with
  | zero => rfl
  | succ fuel ih =>
    have hnext : ∃ r', h.LeadsTo r r' ∧ ReflTransGen h.LeadsTo r' x := by
      rcases hreach.cases_head with rfl | hnext
      · exact TransGen.head'_iff.1 hcycle
      · exact hnext
    obtain ⟨r', hlink, hreach'⟩ := hnext
    rw [readHeap_of_leadsTo hlink]
    exact ih hreach'

end Strings

end SlotVm
