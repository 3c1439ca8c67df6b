import SlotVm.Proofs.Lockstep.Run
import SlotVm.Proofs.Machine.Session

/-!
# Runs under two configurations

One image is run under two configurations, the second of which allows what
the first does.  The two machines are a variation without values out of reach
(`Config.Relaxes.variation`).  When they have been created they differ in
their limits only (`Created.machines`), and `runMain_agrees` says that a run
of the first one is repeated by the second, excused faults apart.

`Machine.Agrees` is what is the same of the two machines afterwards.  Their
logs need not be the same, since a new machine reports the size of its heap.
-/

namespace SlotVm

open SlotVm.Action

/-- The variation of two configurations. -/
def Config.Relaxes.variation {c c' : Config} (h : c.Relaxes c')
    (image : Image) : Variation where
  image
  config := c
  config' := c'
  relaxes := h
  below := []
  below' := []
  length_eq := rfl
  watched := False

namespace Machine

variable {δ : Type} {c c' : Config} {image : Image} {m m' : Machine δ}

/-- The machines are the same but for their programs, their limits and their
logs. -/
structure Agrees (m m' : Machine δ) : Prop where
  steps_eq : m'.steps = m.steps
  frames_eq : m'.frames = m.frames
  statics_eq : m'.statics = m.statics
  values_eq : m'.store.stack.values = m.store.stack.values
  floor_eq : m'.store.stack.floor = m.store.stack.floor
  objects_eq : m'.store.heap.objects = m.store.heap.objects
  used_eq : m'.store.heap.used = m.store.heap.used
  slots_eq : m'.store.heap.arena.slots = m.store.heap.arena.slots
  stats_eq : m'.store.heap.stats = m.store.heap.stats
  console_eq : m'.store.console = m.store.console
  devices_eq : m'.store.devices = m.store.devices

theorem agrees_of_machines {h : c.Relaxes c'}
    (hm : (h.variation image).Machines 0 m m') : Agrees m m' := by
  obtain ⟨own, hown, hown'⟩ := hm.store.stack.values
  obtain ⟨hl, capacity, hheap, -⟩ := hm.store.heap
  constructor
  · exact hm.steps_eq
  · exact hm.frames_eq
  · exact hm.statics_eq
  · exact Array.toList_inj.1 (hown'.trans hown.symm)
  · exact hm.store.stack.floor_eq
  · rw [hheap]
    rfl
  · rw [hheap]
    rfl
  · rw [hheap]
    exact Arena.slots_withCapacity hl.clean.top_le
  · rw [hheap]
    rfl
  · exact hm.store.console_eq
  · exact hm.store.devices_eq

/-- The bridge depends on parts of the configuration that are the same. -/
theorem forConfig_eq (h : c.Relaxes c') (log : Log) :
    (Bridge.forConfig c' : Action Log (Bridge δ)) log =
      Bridge.forConfig c log := by
  unfold Bridge.forConfig
  rw [h.native_eq, h.families_eq]

/-- Heaps without objects. -/
theorem heaps_empty (h : c.Relaxes c') :
    (h.variation image).Heaps (.empty c.heapSize c.word.bytes)
      (.empty c'.heapSize c'.word.bytes) := by
  have hle : c.heapSize / c.word.bytes ≤ c'.heapSize / c.word.bytes :=
    Nat.div_le_div_right h.heapSize_le
  rw [h.word_eq]
  refine ⟨Heap.laid_empty _ _, c'.heapSize / c.word.bytes, ?_, ?_, ?_⟩
  · unfold Heap.withCapacity Heap.empty
    simp only
    rw [Arena.withCapacity_empty hle]
  · rw [Heap.capacity_empty]
    exact hle
  · intro heq
    have hsize : c'.heapSize = c.heapSize := heq
    rw [hsize, Heap.capacity_empty]

/-- Two new machines differ in their limits at most. -/
theorem Created.machines {b : Bridge δ} {console : Console} {devices : δ}
    (hm : Created b c image console devices m)
    (hm' : Created b c' image console devices m') (hb : b.Standard)
    (h : c.Relaxes c') : (h.variation image).Machines 0 m m' := by
  obtain ⟨heap, hallocate, hheap⟩ :=
    (Variation.heap_allocate (fun _ hl => hl.allocateKind_eq .chunk true _)
      _ _ (heaps_empty h)).of_ok hm.heap_eq
  have hend := hallocate.symm.trans hm'.heap_eq
  injection hend with hstatics hheap'
  rw [hheap'] at hheap
  exact {
    program_eq := hm.program_eq
    program_eq' := hm'.program_eq
    bridge_eq := hm'.bridge_eq.trans hm.bridge_eq.symm
    standard := by
      rw [hm.bridge_eq]
      exact hb
    store := {
      stack := by
        rw [hm.stack_eq, hm'.stack_eq]
        exact ⟨⟨[], rfl, rfl⟩, rfl, Nat.zero_le _, h.stackSize_le, id⟩
      heap := hheap
      console_eq := hm'.console_eq.trans hm.console_eq.symm
      log_eq := fun hw => hw.elim
      devices_eq := hm'.devices_eq.trans hm.devices_eq.symm }
    frames_eq := hm'.frames_eq.trans hm.frames_eq.symm
    base_le := fun _ _ => Nat.zero_le _
    statics_eq := hstatics.symm
    steps_eq := hm'.steps_eq.trans hm.steps_eq.symm }

/-- What a run does under the first configuration, it does under the second
one. -/
theorem runMain_agrees (h : c.Relaxes c') {console : Console} {devices : δ}
    {log logged logged' : Log}
    (hm : create c image console devices log = .ok m logged)
    (hm' : create c' image console devices log = .ok m' logged')
    (fuel : Nat) :
    Follows (runMain fuel) (runMain fuel) m m' Agrees Agrees
      (h.variation image).Excuses := by
  obtain ⟨b, log1, hbridge, hb, hcreated⟩ :=
    (create_created c image console devices log).of_ok hm
  obtain ⟨b', log1', hbridge', -, hcreated'⟩ :=
    (create_created c' image console devices log).of_ok hm'
  rw [forConfig_eq h, hbridge] at hbridge'
  cases hbridge'
  have hmachines := hcreated.machines hcreated' hb h
  apply (Variation.InStep.runMain rfl fuel m m' hmachines).mono
  · exact fun n n' hn => agrees_of_machines hn
  · exact fun n n' hn => agrees_of_machines hn

end Machine

end SlotVm
