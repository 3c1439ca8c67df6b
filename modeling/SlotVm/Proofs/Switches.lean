import Mathlib.Data.List.GetD
import SlotVm.Proofs.Assembler
import SlotVm.Proofs.Machine.Session
import SlotVm.Proofs.Operands

/-!
# Switches go to the labels that they were written with

There are two switch instructions.  A table switch has an entry for every key
between two bounds and is indexed by the distance of the key from the lower
bound.  A lookup switch has sorted pairs, which are searched.
`Machine.switches_agree` says that they agree where both can be written, in
whatever order the pairs are given, and which label they take.

* The label of a key.  Sorting pairs and, if their keys are distinct, any
  other change of their order leave the label that belongs to a key
  (`lookup_of_stable`, `lookup_perm`), and a table is a list of pairs whose
  keys follow one another (`lookup_tablePairs`).
* What is decoded (`Directive.Selects`).  The targets are where the labels are
  bound, so the target of a key is where its label is bound.
* The step (`Directive.Takes`).  It takes the key and goes on at the target.
-/

namespace SlotVm

open Assembler Instruction

/-! ## The label of a key -/

section Labels

variable {pairs given sorted : List (Int32 × Nat)} {low key : Int32}
variable {labels : List Nat} {l : Nat}

/-- The label of a key in a table whose first key is `low`. -/
def tableLabel (low : Int32) (labels : List Nat) (fallback : Nat)
    (key : Int32) : Nat :=
  if low.toInt ≤ key.toInt ∧ key.toInt < low.toInt + labels.length then
    labels.getD (key.toInt - low.toInt).toNat fallback
  else
    fallback

/-- The keys of a table with their labels. -/
def tablePairs (low : Int32) (labels : List Nat) : List (Int32 × Nat) :=
  labels.mapIdx fun i l => (low + Int32.ofNat i, l)

/-- The pairs of other keys do not matter. -/
theorem lookup_filter (pairs : List (Int32 × Nat)) (key : Int32) :
    (pairs.filter (·.1 == key)).lookup key = pairs.lookup key := by
  induction pairs with
  | nil => rfl
  | cons pair rest ih =>
    obtain ⟨k, l⟩ := pair
    by_cases hkey : k = key
    · simp [hkey]
    · have hne : (key == k) = false := beq_false_of_ne (Ne.symm hkey)
      simp [hkey, hne, ih, List.lookup_cons]

/-- A key belongs to the same label after sorting. -/
theorem lookup_of_stable (h : StablySorted pairs sorted) (key : Int32) :
    sorted.lookup key = pairs.lookup key := by
  rw [← lookup_filter sorted, h.stable, lookup_filter]

/-- A key belongs to the label that it has in a pair, if no other pair has
it. -/
theorem lookup_eq_some_iff_mem (h : (pairs.map (·.1)).Nodup) :
    pairs.lookup key = some l ↔ (key, l) ∈ pairs := by
  rw [List.lookup_eq_some_iff]
  constructor
  · intro hsplit
    obtain ⟨before, after, rfl, -⟩ := hsplit
    exact List.mem_append_right _ List.mem_cons_self
  · intro hmem
    obtain ⟨before, after, rfl⟩ := List.append_of_mem hmem
    refine ⟨before, after, rfl, ?_⟩
    intro pair hpair
    rw [List.map_append, List.map_cons, List.nodup_append] at h
    have hne := h.2.2 pair.1 (List.mem_map_of_mem hpair) key
      List.mem_cons_self
    exact bne_iff_ne.2 hne.symm

/-- The order of pairs with distinct keys does not matter. -/
theorem lookup_perm (hnodup : (pairs.map (·.1)).Nodup)
    (hperm : given.Perm pairs) (key : Int32) :
    given.lookup key = pairs.lookup key := by
  have hnodup' : (given.map (·.1)).Nodup :=
    (hperm.map _).nodup_iff.2 hnodup
  apply Option.ext
  intro l
  rw [lookup_eq_some_iff_mem hnodup, lookup_eq_some_iff_mem hnodup']
  exact hperm.mem_iff

section Table

variable (hfits : low.toInt + labels.length ≤ 2147483647)
include hfits

theorem toInt_of_mem_tablePairs (h : (key, l) ∈ tablePairs low labels) :
    ∃ i, ∃ hi : i < labels.length, key.toInt = low.toInt + i ∧
      labels[i] = l := by
  obtain ⟨i, hi, hpair⟩ := List.mem_mapIdx.1 h
  obtain ⟨rfl, hl⟩ := Prod.mk.inj hpair
  exact ⟨i, hi, toInt_add_ofNat (by omega), hl⟩

/-- No key is twice in a table. -/
theorem nodup_tablePairs : ((tablePairs low labels).map (·.1)).Nodup := by
  apply List.pairwise_iff_getElem.2
  intro i j hi hj hlt
  simp only [tablePairs, List.length_map, List.length_mapIdx] at hi hj
  simp only [tablePairs, List.getElem_map, List.getElem_mapIdx]
  intro heq
  have hsame := congrArg Int32.toInt heq
  rw [toInt_add_ofNat (by omega), toInt_add_ofNat (by omega)] at hsame
  omega

/-- Searching the pairs of a table is the same as indexing the table. -/
theorem lookup_tablePairs (fallback : Nat) (key : Int32) :
    ((tablePairs low labels).lookup key).getD fallback =
      tableLabel low labels fallback key := by
  unfold tableLabel
  split
  · rename_i hrange
    have hi : (key.toInt - low.toInt).toNat < labels.length := by omega
    have hkey : low + Int32.ofNat (key.toInt - low.toInt).toNat = key := by
      apply Int32.toInt_inj.1
      rw [toInt_add_ofNat (by omega)]
      omega
    have hmem : (key, labels[(key.toInt - low.toInt).toNat]) ∈
        tablePairs low labels :=
      List.mem_mapIdx.2 ⟨_, hi, by rw [hkey]⟩
    rw [(lookup_eq_some_iff_mem (nodup_tablePairs hfits)).2 hmem,
      List.getD_eq_getElem _ _ hi]
    rfl
  · rename_i hrange
    have hnone : (tablePairs low labels).lookup key = none := by
      rw [List.lookup_eq_none_iff]
      intro pair hpair
      obtain ⟨i, hi, hkey, -⟩ := toInt_of_mem_tablePairs hfits hpair
      apply bne_iff_ne.2
      rintro rfl
      omega
    rw [hnone]
    rfl

end Table

end Labels

/-! ## Decoding a switch -/

namespace Operation

/-- The targets of a switch for the keys. -/
def target? : Operation → Option (Int32 → Nat)
  | tableSwitch fallback low targets =>
      some (Machine.tableTarget fallback low targets)
  | lookupSwitch fallback pairs => some (Machine.lookupTarget fallback pairs)
  | _ => none

variable {o : Operation} {target : Int32 → Nat}

theorem feature?_of_target (h : o.target? = some target) :
    o.opcode.feature? = some .switch := by
  cases o with
  | tableSwitch fallback low targets => rfl
  | lookupSwitch fallback pairs => rfl
  | _ => cases h

/-- What a switch does. -/
theorem execute_of_target {δ : Type} (h : o.target? = some target)
    (n : Machine δ) :
    Machine.execute o n = Machine.proceed (do
      let key ← Machine.onStore (Store.popInt o.opcode.mnemonic)
      Machine.jump (target key)) n := by
  cases o with
  | tableSwitch fallback low targets =>
    cases h
    rfl
  | lookupSwitch fallback pairs =>
    cases h
    rfl
  | _ => cases h

end Operation

section Decoding

variable {Bound : Nat → Nat → Prop} {fallback q : Nat}

theorem bound_tableTarget {low : Int32} {labels targets : List Nat}
    (hfallback : Bound fallback q) (hall : List.Forall₂ Bound labels targets)
    (key : Int32) :
    Bound (tableLabel low labels fallback key)
      (Machine.tableTarget q low targets key) := by
  have hlength := hall.length_eq
  unfold tableLabel Machine.tableTarget
  by_cases hrange : low.toInt ≤ key.toInt ∧
      key.toInt < low.toInt + labels.length
  · have hi : (key.toInt - low.toInt).toNat < labels.length := by omega
    rw [if_pos hrange, if_pos (by omega), List.getD_eq_getElem _ _ hi,
      List.getD_eq_getElem _ _ (hlength ▸ hi)]
    exact hall.get hi (hlength ▸ hi)
  · rw [if_neg hrange]
    simp only
    split
    · rw [List.getD_eq_default _ _ (by omega)]
      exact hfallback
    · exact hfallback

theorem bound_lookupTarget {pairs cases : List (Int32 × Nat)}
    (hfallback : Bound fallback q)
    (hall : List.Forall₂ (fun pair (key, q) => pair.1 = key ∧ Bound pair.2 q)
      pairs cases) (key : Int32) :
    Bound (Machine.lookupTarget fallback pairs key)
      (Machine.lookupTarget q cases key) := by
  unfold Machine.lookupTarget
  induction hall with
  | nil => exact hfallback
  | cons hpair _ ih =>
    obtain ⟨hkey, hbound⟩ := hpair
    rw [List.lookup_cons, List.lookup_cons, hkey]
    split
    · exact hbound
    · exact ih

namespace Directive

/-- Where the directive stands in the code it decodes to a switch, and the
target of a key is where the selected label is bound. -/
def Selects (d : Directive) (select : Int32 → Nat) : Prop :=
  ∃ item, (∀ layout, d.item? layout = some item) ∧
    ∀ (labels : Array (Option Nat)) (code : Array UInt8) (pc : Nat)
      (bytes : List UInt8),
      item.encode labels pc = .ok bytes → Holds code pc bytes →
      code.size ≤ 4294967296 →
      (∀ l, d.Mentions l → ∀ q, Binds labels l q → q < code.size) →
      Gives (decode code pc)
        (fun i => ∃ target, i.operation.target? = some target ∧
          ∀ key, Binds labels (select key) (target key))
        (fun _ => Far labels pc (d.Mentions ·))

theorem tableSwitch_selects {low : Int32} {labels : List Nat}
    (hne : 0 < labels.length) (hfits : low.toInt + labels.length ≤ 2147483647)
    (fallback : Nat) :
    (tableSwitch low labels fallback).Selects
      (tableLabel low labels fallback) := by
  refine ⟨.tableSwitch low labels fallback, fun _ => rfl, ?_⟩
  intro bound code pc bytes hbytes hholds hsize hinside
  apply (tableSwitch_gives hsize hne hfits hbytes hholds hinside).mono
  · intro i hi
    obtain ⟨-, -, q, found, hq, hall, ho⟩ := hi
    rw [ho]
    exact ⟨_, rfl, bound_tableTarget hq hall⟩
  · exact fun _ hfar => hfar

/-- Of several pairs with one key the first counts. -/
theorem lookupSwitch_selects (pairs : List (Int32 × Nat)) (fallback : Nat) :
    (lookupSwitch pairs fallback).Selects
      (Machine.lookupTarget fallback pairs) := by
  refine ⟨.lookupSwitch (pairs.mergeSort (·.1 ≤ ·.1)) fallback,
    fun _ => rfl, ?_⟩
  intro bound code pc bytes hbytes hholds hsize hinside
  have hinside' := fun l hl => hinside l (mentions_of_sorted hl)
  apply (lookupSwitch_gives hsize hbytes hholds hinside').mono
  · intro i hi
    obtain ⟨-, -, q, found, hq, hall, ho⟩ := hi
    rw [ho]
    refine ⟨_, rfl, ?_⟩
    intro key
    have hkey := bound_lookupTarget hq hall key
    have hsame := lookup_of_stable (stablySorted_mergeSort pairs) key
    unfold Machine.lookupTarget at hkey ⊢
    rwa [hsame] at hkey
  · exact fun _ hfar => hfar.imp fun _ => mentions_of_sorted

end Directive

end Decoding

/-! ## Steps -/

/-- A run has come to where the directive stands in the code of the current
call, and the labels of the directive are bound inside the code. -/
structure Machine.Faces {δ : Type} (config : Config) (image : Image)
    (layout : RefLayout) (ds : List Directive) (d : Directive) (f : Frame)
    (callers : List Frame) (m : Machine δ) : Prop where
  inRun : InRun config image m
  frames_eq : m.frames = f :: callers
  stands : StandsAt (.empty layout) ds d f.pc
  written : ∃ c code, assembleFrom (.empty layout) ds = .ok c ∧
    c.finish = .ok code ∧
    (Program.load config image).codeOf f.method = .ok code ∧
    ∀ l, d.Mentions l → ∀ q, BoundAt (.empty layout) ds l q → q < code.size

/-- A machine that faces the switch can fetch it if the profile has switches
and the labels are not too far away, and a step that runs it takes an integer
and goes on where the selected label is bound. -/
def Directive.Takes (d : Directive) (select : Int32 → Nat) : Prop :=
  ∀ (δ : Type) (config : Config) (image : Image) (layout : RefLayout)
    (ds : List Directive) (f : Frame) (callers : List Frame) (m : Machine δ),
    m.Faces config image layout ds d f callers →
    (config.features.switch = true →
      (∀ l, d.Mentions l → ∀ q, BoundAt (.empty layout) ds l q →
        Spans f.pc q) →
      ∃ i, m.fetch = .ok i) ∧
    ∀ i rest v key, m.fetch = .ok i →
      m.store.stack.operands = rest ++ [v] → v.Reads key →
      ∃ q m', BoundAt (.empty layout) ds (select key) q ∧
        m.step = .ok .running m' ∧
        Machine.Replaced rest ({ f with pc := q } :: callers) m m'

namespace Machine

open SlotVm.Action

/-- A step goes where the decoded switch says. -/
theorem switch_step {δ : Type} {p : Program} {m : Machine δ} {f : Frame}
    {callers : List Frame} {i : Instruction} {target : Int32 → Nat}
    {rest : List Value} {v : Value} {key : Int32} (hm : m.Founded p)
    (ha : m.Active p) (hfetch : m.fetch = .ok i)
    (hframes : m.frames = f :: callers)
    (htarget : i.operation.target? = some target)
    (hoperands : m.store.stack.operands = rest ++ [v]) (hv : v.Reads key) :
    ∃ m', step m = .ok .running m' ∧
      Replaced rest ({ f with pc := target key } :: callers) m m' := by
  obtain ⟨n, hpoised, hstep⟩ := step_of_fetch hfetch hframes hm ha
  have hstack := hpoised.same.stack_eq
  obtain ⟨t, hpop, habove, rfl⟩ := Store.popInt_of_operands
    hpoised.turn.founded.sound.bounded (hstack ▸ hoperands) hv
    i.operation.opcode.mnemonic
  have hjump : jump (target key) { n with store := { n.store with stack := t } }
      = .ok () { n with
          store := { n.store with stack := t }
          frames := { f with pc := target key } :: callers } := by
    unfold jump updateFrame
    simp only [hpoised.turn.frames_eq]
  refine ⟨_, ?_, hpoised.replaced habove⟩
  rw [hstep, Operation.execute_of_target htarget]
  apply proceed_of_ok
  rw [seq_of_ok (onStore_of_ok hpop), hjump]

/-- Whatever decodes as selected is taken so. -/
theorem takes_of_selects {d : Directive} {select : Int32 → Nat}
    (h : d.Selects select) : d.Takes select := by
  intro δ config image layout ds f callers m hm
  obtain ⟨item, hitem, hselects⟩ := h
  obtain ⟨hfounded, hactive⟩ := hm.inRun.invariant
  obtain ⟨c, code, hrun, hfinish, hcode, hinside⟩ := hm.written
  obtain ⟨bytes, hbytes, hholds⟩ := hm.stands.holds hrun hfinish (hitem layout)
  have hturn : Turn (.load config image) f callers m :=
    ⟨hfounded, hactive, hm.frames_eq⟩
  have hsize := Nat.le_of_lt (hturn.code_size_lt hcode)
  have hcode' : m.program.codeOf f.method = .ok code := by
    rw [hfounded.program_eq]
    exact hcode
  rw [← binds_eq_boundAt hrun] at hinside ⊢
  have hgives := hselects c.labels code f.pc bytes hbytes hholds hsize hinside
  constructor
  · intro hswitch hspans
    cases hdecode : decode code f.pc with
    | ok i =>
      obtain ⟨target, htarget, -⟩ := hgives.of_ok hdecode
      refine ⟨i, fetch_of_decode hm.frames_eq hcode' hdecode ?_⟩
      intro feature hfeature
      cases (Operation.feature?_of_target htarget).symm.trans hfeature
      rw [hfounded.program_eq]
      exact hswitch
    | error e =>
      obtain ⟨l, hl, q, hq, hfar⟩ := hgives.of_error hdecode
      exact absurd (hspans l hl q hq) hfar
  · intro i rest v key hfetch hoperands hv
    have hdecode := decode_of_fetch hm.frames_eq hcode' hfetch
    obtain ⟨target, htarget, hbinds⟩ := hgives.of_ok hdecode
    exact ⟨target key, (switch_step hfounded hactive hfetch hm.frames_eq htarget
      hoperands hv).imp fun _ hend => ⟨hbinds key, hend⟩⟩

/-- The two switches agree.  A table switch takes the label of the key in its
table, and so does a lookup switch with the pairs of the table in any order.
In general, the label that a lookup switch takes does not depend on the order
of its pairs if their keys are distinct: it is the label that the key has in a
pair, or else the one for other keys. -/
theorem switches_agree :
    (∀ (low : Int32) (labels : List Nat) (fallback : Nat),
      0 < labels.length →
      low.toInt + labels.length ≤ 2147483647 →
      (Directive.tableSwitch low labels fallback).Takes
        (tableLabel low labels fallback) ∧
      ∀ pairs, pairs.Perm (tablePairs low labels) →
        (Directive.lookupSwitch pairs fallback).Takes
          (tableLabel low labels fallback)) ∧
    ∀ pairs : List (Int32 × Nat), (pairs.map (·.1)).Nodup →
      ∀ fallback, ∃ select : Int32 → Nat,
        (∀ key l, (key, l) ∈ pairs → select key = l) ∧
        (∀ key, key ∉ pairs.map (·.1) → select key = fallback) ∧
        ∀ given, given.Perm pairs →
          (Directive.lookupSwitch given fallback).Takes select := by
  have hpermuted : ∀ {pairs given : List (Int32 × Nat)},
      (pairs.map (·.1)).Nodup → given.Perm pairs → ∀ fallback,
      (Directive.lookupSwitch given fallback).Takes
        (lookupTarget fallback pairs) := by
    intro pairs given hnodup hperm fallback
    have hsame : lookupTarget fallback given = lookupTarget fallback pairs := by
      funext key
      unfold lookupTarget
      rw [lookup_perm hnodup hperm]
    rw [← hsame]
    exact takes_of_selects (Directive.lookupSwitch_selects given fallback)
  constructor
  · intro low labels fallback hne hfits
    refine ⟨takes_of_selects (Directive.tableSwitch_selects hne hfits _), ?_⟩
    intro pairs hperm
    have htable : lookupTarget fallback (tablePairs low labels) =
        tableLabel low labels fallback := by
      funext key
      exact lookup_tablePairs hfits fallback key
    rw [← htable]
    exact hpermuted (nodup_tablePairs hfits) hperm fallback
  · intro pairs hnodup fallback
    refine ⟨lookupTarget fallback pairs, ?_, ?_, ?_⟩
    · intro key l hmem
      rw [lookupTarget, (lookup_eq_some_iff_mem hnodup).2 hmem]
      rfl
    · intro key hkey
      have hnone : pairs.lookup key = none := by
        rw [List.lookup_eq_none_iff]
        intro pair hpair
        apply bne_iff_ne.2
        rintro rfl
        exact hkey (List.mem_map_of_mem hpair)
      rw [lookupTarget, hnone]
      rfl
    · intro given hperm
      exact hpermuted hnodup hperm fallback

/-- A table switch whose label for 5 leads to a lookup switch, whose label for
5 leads to the end. -/
def twoSwitches : List Directive :=
  [.label, .label, .pushInt 5, .tableSwitch 4 [1, 0] 1, .bind 0, .pushInt 5,
    .lookupSwitch [(5, 1), (4, 0)] 0, .bind 1, .op (.plain .returnVoid)]

/-- The entry point has the code of the two switches. -/
def twoSwitchesImage : Image where
  classes := [⟨0, none, 0⟩]
  methods := #[⟨0, 0, 0, 0, 1, .bytecode 0 53⟩]
  constants := #[]
  code := #[
    0x08, 0xaa, 0, 0, 0, 0, 0, 51, 0, 0, 0, 4, 0, 0, 0, 5, 0, 0, 0, 51,
    0, 0, 0, 23, 0x08, 0xab, 0, 0, 0xff, 0xff, 0xff, 0xff, 0, 0, 0, 2,
    0, 0, 0, 4, 0xff, 0xff, 0xff, 0xff, 0, 0, 0, 5, 0, 0, 0, 27, 0xb1]
  staticFields := 0
  main := ⟨0, 0⟩

theorem twoSwitches_assembled :
    ∃ c, assembleFrom (.empty .standard) twoSwitches = .ok c ∧
      c.labels = #[some 24, some 52] ∧
      c.finish = .ok twoSwitchesImage.code := by
  have hsort : List.mergeSort [((5 : Int32), 1), (4, 0)]
      (fun x y => decide (x.1 ≤ y.1)) = [(4, 0), (5, 1)] := by
    simp [List.mergeSort]
  have hrun : assembleFrom (.empty .standard) twoSwitches = .ok
      { layout := .standard
        size := 53
        latest :=
          [(52, .bytes [0xb1]), (25, .lookupSwitch [(4, 0), (5, 1)] 0),
            (24, .bytes [0x08]), (1, .tableSwitch 4 [1, 0] 1),
            (0, .bytes [0x08])]
        labels := #[some 24, some 52] } := by
    simp only [assembleFrom, twoSwitches, List.foldlM_cons, Directive.apply,
      Assembler.lookupSwitch, hsort]
    rfl
  exact ⟨_, hrun, rfl, rfl⟩

/-- A run comes to each of the two switches with the operand 5. -/
theorem twoSwitches_faces {d : Directive} {position : Nat} (fuel : Nat)
    (hstands : StandsAt (.empty .standard) twoSwitches d position)
    (htest : (fresh? .unix twoSwitchesImage).any (fun m0 =>
      (paused? fuel twoSwitchesImage.main m0).any fun m =>
        m.fetch.toOption.isSome &&
          m.frames.map (fun f => (f.method, f.pc)) == [(0, position)] &&
          m.store.stack.operands.map (fun v => (v.asInt "").toOption) ==
            [some 5]) = true) :
    ∃ (m : Machine Unit) (f : Frame) (i : Instruction) (v : Value),
      m.Faces .unix twoSwitchesImage .standard twoSwitches d f [] ∧
      m.fetch = .ok i ∧ m.store.stack.operands = [v] ∧ v.Reads 5 := by
  simp only [Option.any_eq_true, Bool.and_eq_true, beq_iff_eq,
    Option.isSome_iff_exists] at htest
  obtain ⟨m0, hfresh, m, hpaused, ⟨⟨i, hi⟩, hframes⟩, hvalues⟩ := htest
  obtain ⟨f, hf, hplace⟩ := List.map_eq_singleton_iff.1 hframes
  obtain ⟨hmethod, rfl⟩ := Prod.mk.inj hplace
  obtain ⟨v, hoperands, hv⟩ := List.map_eq_singleton_iff.1 hvalues
  obtain ⟨c, hrun, hlabels, hfinish⟩ := twoSwitches_assembled
  have hcode : (Program.load .unix twoSwitchesImage).codeOf 0 =
      .ok twoSwitchesImage.code := by
    decide +kernel
  refine ⟨m, f, i, v, ?_, eq_ok_of_toOption hi, hoperands,
    Value.asInt_ok (eq_ok_of_toOption hv)⟩
  refine ⟨⟨m0, fuel, _, rests_of_fresh hfresh, run_of_paused hpaused⟩, hf,
    hstands, c, _, hrun, hfinish, hmethod ▸ hcode, ?_⟩
  rw [← binds_eq_boundAt hrun]
  intro l _ q hq
  unfold Binds at hq
  rw [hlabels] at hq
  rcases l with _ | _ | l
  · cases hq
    decide
  · cases hq
    decide
  · simp at hq

/-- The first switch goes to the code behind it, and the second one to the
end. -/
theorem switches_agree_twoSwitches :
    ∃ (m m' n n' : Machine Unit), InRun .unix twoSwitchesImage m ∧
      step m = .ok .running m' ∧ m'.frames.map (·.pc) = [24] ∧
      InRun .unix twoSwitchesImage n ∧
      step n = .ok .running n' ∧ n'.frames.map (·.pc) = [52] := by
  obtain ⟨c, hrun, hlabels, -⟩ := twoSwitches_assembled
  have hbound : ∀ {l q}, BoundAt (.empty .standard) twoSwitches l q →
      #[some 24, some 52][l]? = some (some q) := by
    intro l q hq
    rw [← binds_eq_boundAt hrun] at hq
    rw [← hlabels]
    exact hq
  obtain ⟨htable, hlookup⟩ := switches_agree
  obtain ⟨htakes, -⟩ := htable 4 [1, 0] 1 (by decide) (by decide)
  obtain ⟨select, hselect, -, hgiven⟩ :=
    hlookup [(4, 0), (5, 1)] (by decide) 0
  have hstands : StandsAt (.empty .standard) twoSwitches
      (.tableSwitch 4 [1, 0] 1) 1 :=
    ⟨[.label, .label, .pushInt 5], _, _, _, rfl, rfl, rfl, rfl⟩
  have hstands' : StandsAt (.empty .standard) twoSwitches
      (.lookupSwitch [(5, 1), (4, 0)] 0) 25 :=
    ⟨[.label, .label, .pushInt 5, .tableSwitch 4 [1, 0] 1, .bind 0, .pushInt 5],
      _, _, _, rfl, rfl, rfl, rfl⟩
  obtain ⟨m, f, i, v, hm, hfetch, hoperands, hv⟩ :=
    twoSwitches_faces 1 hstands (by decide +kernel)
  obtain ⟨n, g, j, u, hn, hfetch', hoperands', hu⟩ :=
    twoSwitches_faces 3 hstands' (by decide +kernel)
  obtain ⟨q, m', hq, hstep, hreplaced⟩ :=
    (htakes _ _ _ _ _ _ _ m hm).2 i [] v 5 hfetch hoperands hv
  obtain ⟨q', n', hq', hstep', hreplaced'⟩ :=
    (hgiven [(5, 1), (4, 0)] (by decide) _ _ _ _ _ _ _ n hn).2 j [] u 5 hfetch'
      hoperands' hu
  have hlabel : tableLabel 4 [1, 0] 1 5 = 0 := by decide
  rw [hlabel] at hq
  rw [hselect 5 1 (by decide)] at hq'
  cases hbound hq
  cases hbound hq'
  refine ⟨m, m', n, n', hm.inRun, hstep, ?_, hn.inRun, hstep', ?_⟩
  · rw [hreplaced.frames_eq]
    rfl
  · rw [hreplaced'.frames_eq]
    rfl

end Machine

end SlotVm
