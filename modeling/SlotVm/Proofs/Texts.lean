import SlotVm.Native.Strings
import SlotVm.Proofs.Objects

/-!
# Texts in the heap

An array of characters keeps 16 bits of each character, so it reads as the
text that it was made from with every character folded
(`readUnits_slotsOf`).  Folding twice is folding once, which is why a text
that has been read can be written again without a further loss.

`ObjectList.HoldsText` and `ObjectList.HoldsBuffer` say of the list of
objects that a heap stands for what an array and what a string buffer hold.
Both survive every new object and every write to another object, and a heap
that is laid out reads as they say.

A text is stored one unit after another in an array of zeros.
`Laid.storeUnits_extend` follows that loop, and `Laid.allocateText_eq` says
that nothing else is left of it than an array with all units.
-/

namespace SlotVm

namespace Strings

/-! ## Folding -/

/-- What a heap string keeps of a text. -/
def foldText (text : String) : String :=
  String.ofList (text.toList.map fold)

/-- The elements of the array that is made from a text. -/
def slotsOf (text : String) : List Value :=
  text.toList.map fun c => .int (Int32.ofNat (unit c))

theorem unit_lt (c : Char) : unit c < 65536 := Nat.mod_lt _ (by decide)

/-- A unit is the unit of its character unless it is half of a pair. -/
theorem unit_ofUnit {n : Nat} (hn : n < 65536) (h : n.isValidChar) :
    unit (ofUnit n) = n := by
  have hchar : (Char.ofNatAux n h).toNat = n := BitVec.toNat_ofNatLT ..
  rw [ofUnit, dif_pos h, unit, hchar, Nat.mod_eq_of_lt hn]

theorem fold_fold (c : Char) : fold (fold c) = fold c := by
  unfold fold
  by_cases h : (unit c).isValidChar
  · rw [unit_ofUnit (unit_lt c) h]
  · have hhalf : ofUnit (unit c) = '\ufffd' := by rw [ofUnit, dif_neg h]
    rw [hhalf]
    decide

theorem foldText_foldText (text : String) :
    foldText (foldText text) = foldText text := by
  simp only [foldText, String.toList_ofList, List.map_map]
  congr 1
  apply List.map_congr_left
  intro c _
  exact fold_fold c

theorem foldText_append (s t : String) :
    foldText (s ++ t) = foldText s ++ foldText t := by
  simp [foldText, String.ofList_append]

/-! ## Arrays of characters -/

theorem ofInt_unit (c : Char) : ofInt (Int32.ofNat (unit c)) = fold c := by
  have hunit := unit_lt c
  have hword : (Int32.ofNat (unit c)).toUInt32.toNat = unit c := by
    show (UInt32.ofNat (unit c)).toNat = unit c
    exact UInt32.toNat_ofNat_of_lt' (Nat.lt_trans hunit (by decide))
  rw [ofInt, hword, Nat.mod_eq_of_lt hunit, fold]

/-- The array that is made from a text reads as the folded text. -/
theorem readUnits_slotsOf (text : String) :
    readUnits ofInt (slotsOf text).toArray = .ok (foldText text) := by
  have hchars : ∀ cs : List Char,
      (cs.map fun c => Value.int (Int32.ofNat (unit c))).mapM
          (fun v => do
            let n ← v.asInt "string"
            return ofInt n : Value → Except Fault Char)
        = .ok (cs.map fold) := by
    intro cs
    induction cs with
    | nil => rfl
    | cons c cs ih =>
      rw [List.map_cons, List.mapM_cons, ih]
      simp only [Value.asInt, ofInt_unit, bind, Except.bind, pure, Except.pure,
        List.map_cons]
  exact bind_of_ok (hchars text.toList)

end Strings

/-! ## What an object holds -/

namespace ObjectList

open Strings

variable {a : ObjectList} {r r' : UInt16} {text : String}

/-- An array of characters with the text. -/
def HoldsText (a : ObjectList) (r : UInt16) (text : String) : Prop :=
  ∃ source, a.get? r = some (.array .char, slotsOf source)
    ∧ foldText source = text

/-- A string buffer with the text: it has no array yet, or one that holds the
text. -/
def HoldsBuffer (a : ObjectList) (r : UInt16) (text : String) : Prop :=
  (a.get? r = some (.chunk, [.null]) ∧ text = "")
    ∨ ∃ chars, a.get? r = some (.chunk, [.ref chars]) ∧ a.HoldsText chars text

/-- Every object of a list is in the other one. -/
def Keeps (a b : ObjectList) : Prop :=
  ∀ r object, a.get? r = some object → b.get? r = some object

theorem HoldsText.mono {b : ObjectList} (h : a.HoldsText r text)
    (hb : ∀ object, a.get? r = some object → b.get? r = some object) :
    b.HoldsText r text := by
  obtain ⟨source, hget, htext⟩ := h
  exact ⟨source, hb _ hget, htext⟩

/-- A text that an array holds is folded. -/
theorem HoldsText.folded (h : a.HoldsText r text) : foldText text = text := by
  obtain ⟨source, -, rfl⟩ := h
  exact foldText_foldText source

theorem HoldsBuffer.folded (h : a.HoldsBuffer r text) :
    foldText text = text := by
  rcases h with ⟨-, rfl⟩ | ⟨chars, -, htext⟩
  · rfl
  · exact htext.folded

theorem HoldsBuffer.mono {b : ObjectList} (h : a.HoldsBuffer r text)
    (hb : a.Keeps b) : b.HoldsBuffer r text := by
  rcases h with ⟨hget, htext⟩ | ⟨chars, hget, htext⟩
  · exact .inl ⟨hb r _ hget, htext⟩
  · exact .inr ⟨chars, hb r _ hget, htext.mono (hb chars)⟩

/-- A new object leaves the others where they are. -/
theorem keeps_append (a : ObjectList) (object : ObjectKind × List Value) :
    a.Keeps { a with objects := a.objects ++ [object] } := by
  intro r object' hget
  have hlt := (List.getElem?_eq_some_iff.1 hget).1
  exact (List.getElem?_append_left hlt).trans hget

/-- A new object has the next handle. -/
theorem get?_append {object : ObjectKind × List Value}
    (hr : r.toNat = a.objects.length) :
    ({ a with objects := a.objects ++ [object] } : ObjectList).get? r
      = some object := by
  rw [get?, hr, List.getElem?_append_right (Nat.le_refl _), Nat.sub_self]
  rfl

/-- A write to an object leaves the others. -/
theorem get?_set_ne {object : ObjectKind × List Value} (hne : r' ≠ r) :
    ({ a with objects := a.objects.set r.toNat object } : ObjectList).get? r'
      = a.get? r' := by
  have hnat : r.toNat ≠ r'.toNat := fun h => hne (UInt16.toNat_inj.1 h.symm)
  exact List.getElem?_set_ne hnat

theorem get?_set_self {object object' : ObjectKind × List Value}
    (hr : a.get? r = some object') :
    ({ a with objects := a.objects.set r.toNat object } : ObjectList).get? r
      = some object := by
  exact List.getElem?_set_self (List.getElem?_eq_some_iff.1 hr).1

end ObjectList

/-! ## Reading and writing texts -/

namespace Heap

open SlotVm.Action Strings

variable {h : Heap} {r : UInt16} {text : String}

/-- An array that holds a text reads as the text. -/
theorem Laid.readHeap_text (hl : h.Laid) (hr : h.view.HoldsText r text)
    (fuel : Nat) :
    readHeap h (fuel + 1) r = .ok text := by
  obtain ⟨source, hget, rfl⟩ := hr
  obtain ⟨entry, hentry, hkind, hcontents⟩ := entry_of_view hget
  rw [readHeap, bind_of_ok (header_of_entry hentry)]
  simp only [hkind]
  rw [bind_of_ok (hl.slots_of_contents hentry), hcontents, readUnits_slotsOf]

/-- A string buffer reads as its text. -/
theorem Laid.readHeap_buffer (hl : h.Laid) (hr : h.view.HoldsBuffer r text)
    (fuel : Nat) : readHeap h (fuel + 2) r = .ok text := by
  have hblock : ∀ v, h.view.get? r = some (.chunk, [v]) →
      ∃ entry, h.header r = .ok entry ∧ entry.kind = .chunk ∧ entry.len = 1
        ∧ h.load r 0 = .ok v := by
    intro v hget
    obtain ⟨entry, hentry, hkind, hcontents⟩ := entry_of_view hget
    refine ⟨entry, header_of_entry hentry, hkind, ?_, ?_⟩
    · rw [← hl.length_contents hentry, hcontents]
      rfl
    · exact hl.load_of_contents hentry (by rw [hcontents]; rfl)
  rcases hr with ⟨hget, rfl⟩ | ⟨chars, hget, htext⟩
  · obtain ⟨entry, hheader, hkind, hlen, hload⟩ := hblock _ hget
    rw [readHeap, bind_of_ok hheader]
    simp only [hkind, if_pos hlen]
    rw [bind_of_ok hload]
    rfl
  · obtain ⟨entry, hheader, hkind, hlen, hload⟩ := hblock _ hget
    rw [readHeap, bind_of_ok hheader]
    simp only [hkind, if_pos hlen]
    rw [bind_of_ok hload]
    exact hl.readHeap_text htext fuel

/-- A handle of the view leaves fuel for one buffer in front of an array. -/
theorem objectCount_pos {object : ObjectKind × List Value}
    (hr : h.view.get? r = some object) : 0 < h.objectCount := by
  rw [view_get?] at hr
  obtain ⟨entry, hentry, -⟩ := Option.map_eq_some_iff.1 hr
  have hlt := (Array.getElem?_eq_some_iff.1 hentry).1
  unfold objectCount
  omega

theorem Laid.read_text (hl : h.Laid) (hr : h.view.HoldsText r text)
    (image : Image) : Strings.read h image (.ref r) = .ok text :=
  hl.readHeap_text hr _

theorem Laid.read_buffer (hl : h.Laid) (hr : h.view.HoldsBuffer r text)
    (image : Image) : Strings.read h image (.ref r) = .ok text := by
  have hpos : 0 < h.objectCount := by
    rcases hr with ⟨hget, -⟩ | ⟨chars, hget, -⟩ <;> exact objectCount_pos hget
  obtain ⟨n, hn⟩ := Nat.exists_eq_add_one.mpr hpos
  show readHeap h (h.objectCount + 1) r = .ok text
  rw [hn]
  exact hl.readHeap_buffer hr n

/-- An allocation adds an object that nothing else is, or leaves the objects
as they are. -/
theorem Laid.allocateWith_view (hl : h.Laid) (kind : ObjectKind)
    (contents : Array Value) :
    Ends (allocateWith kind contents) h
      (fun r t => t.Laid ∧ h.view.Keeps t.view ∧ h.view.get? r = none
        ∧ t.view.get? r = some (kind, contents.toList))
      (fun _ t => t.Laid ∧ t.view = h.view) := by
  apply (allocateWith_ends h kind contents).mono
  · intro r t hend
    obtain ⟨hobjects, hfree, hr, rfl⟩ := hend
    have hlast : r.toNat = h.view.objects.length := by
      rw [hr, view, List.length_map, Array.length_toList]
    refine ⟨hl.extend kind hobjects hfree, ?_, ?_, ?_⟩
    · rw [hl.view_extend kind hfree]
      exact ObjectList.keeps_append _ _
    · exact List.getElem?_eq_none (by omega)
    · rw [hl.view_extend kind hfree]
      exact ObjectList.get?_append hlast
  · intro e t hend
    obtain ⟨rfl, -⟩ := hend
    exact ⟨hl.refuse, rfl⟩

/-- Storing to a slot of the last object. -/
theorem Laid.store_extend (hl : h.Laid) (kind : ObjectKind)
    {contents : Array Value} {i : Nat} (hr : r.toNat = h.objects.size)
    (hi : i < contents.size) (v : Value) :
    store r i v (h.extend kind contents) =
      .ok () (h.extend kind (contents.setIfInBounds i v)) := by
  have hentry : (h.extend kind contents).objects[r.toNat]? =
      some ⟨h.used, contents.size, kind⟩ := by
    rw [hr, objects_extend]
    exact Array.getElem?_push_size
  have hwrite : (h.extend kind contents).write (h.used + i) v =
      h.extend kind (contents.setIfInBounds i v) := by
    unfold Heap.write Heap.extend Heap.enter
    simp only [Array.size_setIfInBounds]
    rw [← Arena.write_extend hl.clean.top_le hi]
    rfl
  unfold store
  rw [header_of_entry hentry]
  simp only [if_pos hi, hwrite]

/-- The units of a text are stored one by one.  The induction is on those
that are left; in front of them stands what has been stored. -/
theorem Laid.storeUnits_extend (hl : h.Laid) (hr : r.toNat = h.objects.size)
    (kind : ObjectKind) (units : List Nat) (front : List Value) (fill : Value) :
    storeUnits r front.length units (h.extend kind
        (front ++ List.replicate units.length fill).toArray) =
      .ok () (h.extend kind
        (front ++ units.map fun n => Value.int (Int32.ofNat n)).toArray) := by
  induction units generalizing front with
  | nil => rfl
  | cons n rest ih =>
    have hi : front.length <
        (front ++ List.replicate (n :: rest).length fill).toArray.size := by
      simp
    have hset : Array.setIfInBounds
          (front ++ List.replicate (n :: rest).length fill).toArray
          front.length (Value.int (Int32.ofNat n)) =
        ((front ++ [Value.int (Int32.ofNat n)]) ++
          List.replicate rest.length fill).toArray := by
      apply Array.ext'
      simp [List.replicate_succ, List.set_append_right]
    have hrest := ih (front ++ [Value.int (Int32.ofNat n)])
    rw [List.length_append, List.length_singleton] at hrest
    rw [storeUnits, seq_of_ok (hl.store_extend kind hr hi _), hset, hrest,
      List.append_assoc]
    rfl

/-- A text is allocated as if the array had been given its elements at
once. -/
theorem Laid.allocateText_eq (hl : h.Laid) (text : String) :
    Strings.allocate text h =
      allocateWith (.array .char) (slotsOf text).toArray h := by
  have hsize : (slotsOf text).toArray.size =
      (text.toList.map unit).length := by
    simp [slotsOf]
  have hunits : (text.toList.map unit).map
      (fun n => Value.int (Int32.ofNat n)) = slotsOf text :=
    List.map_map
  unfold Strings.allocate allocateArray
  simp only [Bind.bind, EStateM.bind]
  rw [hl.allocateKind_eq]
  unfold allocateWith
  rw [Array.size_replicate, hsize]
  by_cases hroom : h.objects.size < maxObjects ∧
      (text.toList.map unit).length ≤ h.free
  · have hr : (UInt16.ofNat h.objects.size).toNat = h.objects.size :=
      UInt16.toNat_ofNat_of_lt' hroom.1
    have hstored := hl.storeUnits_extend hr (.array .char)
      (text.toList.map unit) [] (freshValue (.array .char) true)
    rw [List.nil_append, List.nil_append, hunits, List.length_nil,
      List.toArray_replicate] at hstored
    simp only [if_pos hroom, hstored]
    rfl
  · simp only [if_neg hroom]

/-- A text is allocated as an array that nothing else is. -/
theorem Laid.allocateText_ends (hl : h.Laid) (text : String) :
    Ends (Strings.allocate text) h
      (fun r t => t.Laid ∧ h.view.Keeps t.view ∧ h.view.get? r = none
        ∧ t.view.get? r = some (.array .char, slotsOf text))
      (fun _ t => t.Laid ∧ t.view = h.view) :=
  Ends.of_eq (hl.allocateText_eq text) (hl.allocateWith_view _ _)

/-- A store to the slot of a block succeeds and takes nothing. -/
theorem Laid.storeBlock_ends (hl : h.Laid) {w : Value}
    (hr : h.view.get? r = some (.chunk, [w])) (v : Value) :
    Ends (store r 0 v) h
      (fun _ t => t.Laid ∧ t.view = { h.view with
          objects := h.view.objects.set r.toNat (.chunk, [v]) } ∧
        t.objects = h.objects ∧ t.free = h.free)
      (fun _ _ => False) := by
  obtain ⟨entry, hentry, hkind, hcontents⟩ := entry_of_view hr
  have hlen : entry.len = 1 := by
    rw [← hl.length_contents hentry, hcontents]
    rfl
  apply (store_ends h r 0 v).mono
  · intro _ t hend
    obtain ⟨entry', hentry', hindex, rfl⟩ := hend
    rw [hentry] at hentry'
    cases hentry'
    refine ⟨hl.write hentry hindex v, ?_, rfl, ?_⟩
    · rw [hl.view_write v hentry hindex, hkind, hcontents]
      rfl
    · exact congrArg (· - h.arena.top) (capacity_write h _ v)
  · intro e t hend
    obtain ⟨-, ⟨hnot, -⟩ | ⟨entry', hentry', hle, -⟩⟩ := hend
    · exact hnot (contains_iff.2 ⟨entry, hentry⟩)
    · rw [hentry] at hentry'
      cases hentry'
      omega

end Heap

end SlotVm
