import Mathlib.Data.List.DropRight
import SlotVm.Proofs.Json.Tokens

/-!
# Values read back

`parse?` undoes `pretty` for every printable value: one whose numbers follow
the grammar and whose texts and names are sequences of characters
(`parse?_pretty`).

The reader walks a list with fuel and keeps what it has read in reverse, so
the entries of a list and of an object are treated first, for any reader of
a single value (`scanElements_lines`, `scanMembers_lines`).  The theorem
about values is then an induction on the value, with what follows it and the
depth it is printed at arbitrary (`Printable.scan`).  A printed value is
longer than each value in it and longer than the count of them, so its
length is fuel enough.
-/

namespace SlotVm.Json

/-- Numbers follow the grammar, and texts and names are sequences of
characters. -/
inductive Printable : Json → Prop
  | null : Printable .null
  | bool (b : Bool) : Printable (.bool b)
  | number {n : Number} (written : n.Written) : Printable (.number n)
  | text (s : String) : Printable (ofString s)
  | list {elements : List Json} (all : ∀ j ∈ elements, Printable j) :
      Printable (.list elements)
  | record {members : List (String × Json)} (all : ∀ m ∈ members, Printable m.2) :
      Printable (record members)

/-! ## Blanks -/

theorem skipBlanks_cons {c : Char} (h : isBlank c = false) (cs : List Char) :
    skipBlanks (c :: cs) = c :: cs := by
  simp [skipBlanks, h]

theorem skipBlanks_newline (depth : Nat) (cs : List Char) :
    skipBlanks (newline depth ++ cs) = skipBlanks cs := by
  have hblanks : ∀ c ∈ newline depth, isBlank c = true := by
    intro c hc
    rcases List.mem_cons.mp hc with rfl | hc
    · rfl
    · rw [List.eq_of_mem_replicate hc]
      rfl
  exact List.dropWhile_append_of_pos hblanks

theorem skipBlanks_idem (cs : List Char) :
    skipBlanks (skipBlanks cs) = skipBlanks cs :=
  List.dropWhile_idempotent isBlank cs

/-! ## The lines of a block -/

/-- Entries on lines of their own, separated by commas. -/
def lines (depth : Nat) (entries : List (List Char)) : List Char :=
  List.intercalate [','] (entries.map (newline depth ++ ·))

theorem block_nil (opening closing : Char) (depth : Nat) :
    block opening closing depth [] = [opening, closing] := rfl

theorem block_cons (opening closing : Char) (depth : Nat) (e : List Char)
    (es : List (List Char)) (rest : List Char) :
    block opening closing depth (e :: es) ++ rest
      = opening :: (lines (depth + 1) (e :: es)
          ++ (newline depth ++ closing :: rest)) := by
  simp [block, lines]

theorem lines_singleton (depth : Nat) (e : List Char) :
    lines depth [e] = newline depth ++ e := by
  simp [lines]

theorem lines_cons_cons (depth : Nat) (e f : List Char)
    (es : List (List Char)) :
    lines depth (e :: f :: es)
      = newline depth ++ (e ++ ',' :: lines depth (f :: es)) := by
  simp [lines]

/-- The lines start with their first entry. -/
theorem skipBlanks_lines {c : Char} (hc : isBlank c = false) (depth : Nat)
    (cs : List Char) (es : List (List Char)) (rest : List Char) :
    ∃ tail, skipBlanks (lines depth ((c :: cs) :: es) ++ rest) = c :: tail := by
  rcases es with _ | ⟨e, es⟩
  · rw [lines_singleton, List.append_assoc, skipBlanks_newline]
    exact ⟨_, skipBlanks_cons hc _⟩
  · rw [lines_cons_cons, List.append_assoc, skipBlanks_newline]
    exact ⟨_, skipBlanks_cons hc _⟩

theorem length_lines_cons (depth : Nat) (e : List Char)
    (es : List (List Char)) :
    e.length + (lines depth es).length < (lines depth (e :: es)).length := by
  have hnewline : 0 < (newline depth).length := Nat.zero_lt_succ _
  rcases es with _ | ⟨f, es⟩
  · have hnone : (lines depth []).length = 0 := rfl
    rw [lines_singleton, List.length_append]
    omega
  · simp only [lines_cons_cons, List.length_append, List.length_cons]
    omega

/-- A printed block is longer than each entry and than their number. -/
theorem length_entry_lt_block (opening closing : Char) (depth : Nat)
    (entries : List (List Char)) :
    entries.length < (block opening closing depth entries).length
      ∧ ∀ e ∈ entries,
          e.length < (block opening closing depth entries).length := by
  have hlines : entries.length ≤ (lines (depth + 1) entries).length
      ∧ ∀ e ∈ entries, e.length ≤ (lines (depth + 1) entries).length := by
    induction entries with
    | nil => exact ⟨Nat.zero_le _, by simp⟩
    | cons e es ih =>
      have hcons := length_lines_cons (depth + 1) e es
      refine ⟨by simp only [List.length_cons]; omega, ?_⟩
      intro e' he'
      rcases List.mem_cons.mp he' with rfl | he'
      · omega
      · have := ih.2 e' he'
        omega
  rcases entries with _ | ⟨e, es⟩
  · simp [block_nil]
  · have hblock := congrArg List.length
      (block_cons opening closing depth e es [])
    rw [List.append_nil] at hblock
    simp only [List.length_cons, List.length_append] at hlines hblock ⊢
    refine ⟨by omega, fun e' he' => ?_⟩
    have := hlines.2 e' he'
    omega

/-! ## Entries -/

theorem scanElements_skipBlanks (scan : Scan) (fuel : Nat) (read : List Json)
    (cs : List Char) :
    scanElements scan fuel read (skipBlanks cs)
      = scanElements scan fuel read cs := by
  cases fuel with
  | zero => rfl
  | succ fuel => simp only [scanElements, skipBlanks_idem]

/-- A reader that takes each printed element takes all of them. -/
theorem scanElements_lines {scan : Scan} {depth : Nat} (outer : Nat)
    {elements : List Json} (hne : elements ≠ [])
    (hscan : ∀ j ∈ elements, ∀ rest, Closed rest →
      scan (skipBlanks (prettyChars depth j ++ rest)) = some (j, rest))
    (fuel : Nat) (hfuel : elements.length ≤ fuel) (read : List Json)
    (rest : List Char) :
    scanElements scan fuel read
      (lines depth (elements.map (prettyChars depth))
        ++ (newline outer ++ ']' :: rest))
      = some (.list (read.reverse ++ elements), rest) := by
  induction elements generalizing fuel read with
  | nil => exact absurd rfl hne
  | cons j elements ih =>
    obtain ⟨fuel, rfl⟩ : ∃ n, fuel = n + 1 :=
      Nat.exists_eq_add_one.mpr (by simp at hfuel; omega)
    have hj := hscan j List.mem_cons_self
    rcases elements with _ | ⟨k, elements⟩
    · have hfirst := hj _ (closed_newline outer (']' :: rest))
      simp only [List.map_cons, List.map_nil, lines_singleton,
        List.append_assoc, scanElements, skipBlanks_newline, hfirst]
      simp [skipBlanks_cons (c := ']') rfl]
    · have hfirst := hj _ (closed_comma
        (lines depth ((k :: elements).map (prettyChars depth))
          ++ (newline outer ++ ']' :: rest)))
      have hrest := ih (by simp) (fun e he => hscan e (.tail _ he)) fuel
        (by simp at hfuel ⊢; omega) (j :: read)
      simp only [List.map_cons] at hfirst hrest
      simp only [List.map_cons, lines_cons_cons, List.append_assoc,
        List.cons_append, scanElements, skipBlanks_newline, hfirst,
        skipBlanks_cons (c := ',') rfl, hrest]
      simp

/-- The printed form of a member. -/
def memberChars (depth : Nat) (m : String × Json) : List Char :=
  quotedText m.1 ++ ':' :: ' ' :: prettyChars depth m.2

theorem scanMember_chars {scan : Scan} {depth : Nat} {m : String × Json}
    {rest : List Char}
    (hscan : scan (skipBlanks (prettyChars depth m.2 ++ rest))
      = some (m.2, rest)) :
    scanMember scan (memberChars depth m ++ rest)
      = some ((some m.1, m.2), rest) := by
  have hname := scanText_quotedText m.1
    (':' :: ' ' :: (prettyChars depth m.2 ++ rest))
  have hblank : skipBlanks (' ' :: (prettyChars depth m.2 ++ rest))
      = skipBlanks (prettyChars depth m.2 ++ rest) := rfl
  simp only [memberChars, quotedText, List.cons_append, List.append_assoc,
    List.nil_append, scanMember, skipBlanks_cons (c := '"') rfl, hname,
    skipBlanks_cons (c := ':') rfl, hblank, hscan]

theorem scanMember_skipBlanks (scan : Scan) (cs : List Char) :
    scanMember scan (skipBlanks cs) = scanMember scan cs := by
  simp only [scanMember, skipBlanks_idem]

theorem scanMembers_skipBlanks (scan : Scan) (fuel : Nat)
    (read : List (Option String × Json)) (cs : List Char) :
    scanMembers scan fuel read (skipBlanks cs)
      = scanMembers scan fuel read cs := by
  cases fuel with
  | zero => rfl
  | succ fuel => simp only [scanMembers, scanMember_skipBlanks]

theorem scanMember_newline (scan : Scan) (depth : Nat) (cs : List Char) :
    scanMember scan (newline depth ++ cs) = scanMember scan cs := by
  simp only [scanMember, skipBlanks_newline]

/-- A reader that takes the value of each printed member takes all members. -/
theorem scanMembers_lines {scan : Scan} {depth : Nat} (outer : Nat)
    {members : List (String × Json)} (hne : members ≠ [])
    (hscan : ∀ m ∈ members, ∀ rest, Closed rest →
      scan (skipBlanks (prettyChars depth m.2 ++ rest)) = some (m.2, rest))
    (fuel : Nat) (hfuel : members.length ≤ fuel)
    (read : List (Option String × Json)) (rest : List Char) :
    scanMembers scan fuel read
      (lines depth (members.map (memberChars depth))
        ++ (newline outer ++ '\x7d' :: rest))
      = some (.object (read.reverse
          ++ members.map fun m => (some m.1, m.2)), rest) := by
  induction members generalizing fuel read with
  | nil => exact absurd rfl hne
  | cons m members ih =>
    obtain ⟨fuel, rfl⟩ : ∃ n, fuel = n + 1 :=
      Nat.exists_eq_add_one.mpr (by simp at hfuel; omega)
    have hm := fun rest h =>
      scanMember_chars (hscan m List.mem_cons_self rest h)
    rcases members with _ | ⟨k, members⟩
    · have hfirst := hm _ (closed_newline outer ('\x7d' :: rest))
      simp only [List.map_cons, List.map_nil, lines_singleton,
        List.append_assoc, scanMembers, scanMember_newline, hfirst,
        skipBlanks_newline]
      simp [skipBlanks_cons (c := '\x7d') rfl]
    · have hfirst := hm _ (closed_comma
        (lines depth ((k :: members).map (memberChars depth))
          ++ (newline outer ++ '\x7d' :: rest)))
      have hrest := ih (by simp) (fun e he => hscan e (.tail _ he)) fuel
        (by simp at hfuel ⊢; omega) ((some m.1, m.2) :: read)
      simp only [List.map_cons] at hfirst hrest
      simp only [List.map_cons, lines_cons_cons, List.append_assoc,
        List.cons_append, scanMembers, scanMember_newline, hfirst,
        skipBlanks_cons (c := ',') rfl, hrest]
      simp

/-! ## Values -/

theorem prettyElements_eq (depth : Nat) (elements : List Json) :
    prettyElements depth elements = elements.map (prettyChars depth) := by
  induction elements with
  | nil => rfl
  | cons j elements ih => rw [prettyElements, ih, List.map_cons]

theorem prettyMembers_eq (depth : Nat) (members : List (String × Json)) :
    prettyMembers depth (members.map fun m => (some m.1, m.2))
      = members.map (memberChars depth) := by
  induction members with
  | nil => rfl
  | cons m members ih => rw [List.map_cons, prettyMembers, ih]; rfl

theorem prettyChars_list (depth : Nat) (elements : List Json) :
    prettyChars depth (.list elements)
      = block '[' ']' depth (elements.map (prettyChars (depth + 1))) := by
  rw [prettyChars, prettyElements_eq]

theorem prettyChars_record (depth : Nat) (members : List (String × Json)) :
    prettyChars depth (record members)
      = block '\x7b' '\x7d' depth (members.map (memberChars (depth + 1))) := by
  rw [← prettyMembers_eq]
  exact prettyChars.eq_def depth (record members)

/-- A printed value starts with a character of its own. -/
theorem Printable.chars_cons {j : Json} (h : Printable j) (depth : Nat) :
    ∃ c cs, prettyChars depth j = c :: cs ∧ isBlank c = false ∧ c ≠ ']' := by
  cases h with
  | null => exact ⟨'n', _, rfl, rfl, by decide⟩
  | bool b =>
    cases b with
    | true => exact ⟨'t', _, rfl, rfl, by decide⟩
    | false => exact ⟨'f', _, rfl, rfl, by decide⟩
  | number written =>
    obtain ⟨c, cs, hcs, hc⟩ := written.chars_cons
    refine ⟨c, cs, hcs, ?_⟩
    rcases hc with rfl | hc
    · decide
    · refine ⟨isBlank_of_isDigit hc, ?_⟩
      rintro rfl
      cases hc
  | text s => exact ⟨'"', _, rfl, rfl, by decide⟩
  | list all =>
    rename_i elements
    rw [prettyChars_list]
    cases elements <;> exact ⟨'[', _, rfl, rfl, by decide⟩
  | record all =>
    rename_i members
    rw [prettyChars_record]
    cases members <;> exact ⟨'\x7b', _, rfl, rfl, by decide⟩

theorem Printable.length_pos {j : Json} (h : Printable j) (depth : Nat) :
    0 < (prettyChars depth j).length := by
  obtain ⟨c, cs, hcs, -⟩ := h.chars_cons depth
  simp [hcs]

theorem Printable.skipBlanks {j : Json} (h : Printable j) (depth : Nat)
    (rest : List Char) :
    skipBlanks (prettyChars depth j ++ rest) = prettyChars depth j ++ rest := by
  obtain ⟨c, cs, hcs, hc, -⟩ := h.chars_cons depth
  rw [hcs]
  exact skipBlanks_cons hc (cs ++ rest)

/-- A text that starts with a number is one. -/
theorem scanValue_number (limit fuel : Nat) {n : Number} (h : n.Written)
    {rest : List Char} (hrest : Closed rest) :
    scanValue limit (fuel + 1) (n.chars ++ rest) = some (.number n, rest) := by
  have hscan := scanNumber_chars h hrest
  obtain ⟨c, cs, hcs, hc⟩ := h.chars_cons
  have hne : ∀ d : Char, d.isDigit = false → d ≠ '-' → c ≠ d := by
    rintro d hd hminus rfl
    rcases hc with rfl | hc
    · exact hminus rfl
    · rw [hd] at hc
      cases hc
  rw [hcs, List.cons_append] at hscan ⊢
  rw [scanValue, hscan]
  all_goals
    intros
    rename_i heq
    exact hne _ rfl (by decide) (List.cons.inj heq).1

theorem scanValue_list (limit fuel : Nat) {cs : List Char}
    (h : ∀ rest, Json.skipBlanks cs ≠ ']' :: rest) :
    scanValue limit (fuel + 1) ('[' :: cs)
      = scanElements (scanValue limit fuel) limit [] cs := by
  rw [scanValue]
  split
  · rename_i rest heq
    exact absurd heq (h rest)
  · rw [scanElements_skipBlanks]

theorem scanValue_object (limit fuel : Nat) {cs : List Char}
    (h : ∀ rest, Json.skipBlanks cs ≠ '\x7d' :: rest) :
    scanValue limit (fuel + 1) ('\x7b' :: cs)
      = scanMembers (scanValue limit fuel) limit [] cs := by
  rw [scanValue]
  split
  · rename_i rest heq
    exact absurd heq (h rest)
  · rw [scanMembers_skipBlanks]

/-- A value that can be read from the front of a text is read behind blanks
too, and its length is fuel enough for it to be an entry. -/
theorem Printable.scan_entry {j : Json} (h : Printable j)
    {depth limit fuel : Nat} {rest : List Char}
    (hscan : ∀ fuel, (prettyChars depth j).length ≤ fuel + 1 →
      scanValue limit (fuel + 1) (prettyChars depth j ++ rest) = some (j, rest))
    (hfuel : (prettyChars depth j).length ≤ fuel) :
    scanValue limit fuel (Json.skipBlanks (prettyChars depth j ++ rest))
      = some (j, rest) := by
  have hpos := h.length_pos depth
  obtain ⟨fuel, rfl⟩ : ∃ f, fuel = f + 1 :=
    Nat.exists_eq_add_one.mpr (by omega)
  rw [h.skipBlanks]
  exact hscan fuel hfuel

/-- The reader takes a printed value from the front of a text.  The length of
the value is fuel enough for its depth and for its entries. -/
theorem Printable.scan {j : Json} (h : Printable j) (depth limit fuel : Nat)
    (rest : List Char) (hrest : Closed rest)
    (hlimit : (prettyChars depth j).length ≤ limit)
    (hfuel : (prettyChars depth j).length ≤ fuel + 1) :
    scanValue limit (fuel + 1) (prettyChars depth j ++ rest)
      = some (j, rest) := by
  induction h generalizing depth fuel rest with
  | null => rfl
  | bool b => cases b <;> rfl
  | number written => exact scanValue_number limit fuel written hrest
  | text s =>
    have hscan := scanText_quotedText s rest
    simp only [ofString, prettyChars, Option.getD_some, quotedText,
      List.cons_append, List.append_assoc, List.nil_append, scanValue, hscan]
  | @list elements all ih =>
    rw [prettyChars_list] at hlimit hfuel ⊢
    have hshort := length_entry_lt_block '[' ']' depth
      (elements.map (prettyChars (depth + 1)))
    have hscan : ∀ j ∈ elements, ∀ rest, Closed rest →
        scanValue limit fuel (Json.skipBlanks (prettyChars (depth + 1) j ++ rest))
          = some (j, rest) := by
      intro j hj rest hrest
      have hlength := hshort.2 _ (List.mem_map_of_mem hj)
      refine (all j hj).scan_entry (fun fuel => ?_) (by omega)
      exact ih j hj _ _ _ hrest (by omega)
    have hcount : elements.length ≤ limit := by
      have := hshort.1
      rw [List.length_map] at this
      omega
    rcases elements with _ | ⟨j, elements⟩
    · rfl
    · rw [List.map_cons, block_cons, scanValue_list]
      · exact scanElements_lines depth (List.cons_ne_nil j _) hscan
          limit hcount [] rest
      · obtain ⟨c, cs, hcs, hc, hbracket⟩ :=
          (all j List.mem_cons_self).chars_cons (depth + 1)
        intro rest' heq
        obtain ⟨tail, htail⟩ := skipBlanks_lines hc (depth + 1) cs
          (elements.map (prettyChars (depth + 1))) (newline depth ++ ']' :: rest)
        rw [hcs, htail] at heq
        exact hbracket (List.cons.inj heq).1
  | @record members all ih =>
    rw [prettyChars_record] at hlimit hfuel ⊢
    have hshort := length_entry_lt_block '\x7b' '\x7d' depth
      (members.map (memberChars (depth + 1)))
    have hscan : ∀ m ∈ members, ∀ rest, Closed rest →
        scanValue limit fuel
          (Json.skipBlanks (prettyChars (depth + 1) m.2 ++ rest))
          = some (m.2, rest) := by
      intro m hm rest hrest
      have hlength := hshort.2 _ (List.mem_map_of_mem hm)
      have hvalue : (prettyChars (depth + 1) m.2).length
          ≤ (memberChars (depth + 1) m).length := by
        simp only [memberChars, List.length_append, List.length_cons]
        omega
      refine (all m hm).scan_entry (fun fuel => ?_) (by omega)
      exact ih m hm _ _ _ hrest (by omega)
    have hcount : members.length ≤ limit := by
      have := hshort.1
      rw [List.length_map] at this
      omega
    rcases members with _ | ⟨m, members⟩
    · rfl
    · rw [List.map_cons, block_cons, scanValue_object]
      · exact scanMembers_lines depth (List.cons_ne_nil m _) hscan
          limit hcount [] rest
      · intro rest' heq
        obtain ⟨tail, htail⟩ := skipBlanks_lines (c := '"') rfl (depth + 1) _
          (members.map (memberChars (depth + 1))) (newline depth ++ '\x7d' :: rest)
        rw [memberChars, quotedText, List.cons_append, List.cons_append, htail]
          at heq
        exact absurd (List.cons.inj heq).1 (by decide)

/-- Reading undoes printing. -/
theorem parse?_pretty {j : Json} (h : Printable j) : parse? j.pretty = some j := by
  have hscan := h.scan 0 (prettyChars 0 j).length (prettyChars 0 j).length []
    closed_nil (Nat.le_refl _) (Nat.le_succ _)
  have hblanks := h.skipBlanks 0 []
  rw [List.append_nil] at hscan hblanks
  simp only [parse?, pretty, String.toList_ofList, hblanks, hscan]
  rfl

end SlotVm.Json
