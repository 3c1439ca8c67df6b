import SlotVm.Host.Session
import SlotVm.Proofs.Grammar

/-!
# Sessions with a listing

A session may list its image before it runs it.  The listing goes over the
code of every method from one instruction to the next one, so it meets bytes
that a run never comes to, and these need not be instructions.  A listing that
fails ends the session.

There are three groups of lemmas.

* The code of one method: it can be listed exactly if a sweep comes to its end
  (`Image.Sweeps`), and otherwise there is one reason why not
  (`Image.Obstructed`).
* The whole image, where the first method that cannot be listed decides
  (`Image.Listable.listing_ok`, `Image.FirstObstructed.listing_error`).
* The session.  `Session.runImage` lists nothing itself, and a session that an
  image or a configuration is refused for has not printed anything.
-/

namespace SlotVm

open SlotVm.Action

/-! ## Sweeps -/

namespace Code

open Instruction

variable {code : Array UInt8} {pc stop : Nat} {visited visited' : List Nat}
variable {e : Fault}

/-- The sweep goes on behind an instruction. -/
theorem sweepFrom_of_decode {i : Instruction} (h : decode code pc = .ok i) :
    sweepFrom code pc = (do
      let rest ← sweepFrom code i.next
      return i :: rest) := by
  obtain ⟨hpc, hend, -⟩ := decode_ok h
  have hforward := i.pc_lt_next
  have hnext : pc + i.len = i.next := by
    rw [next, hpc]
  rw [sweepFrom, if_pos (by omega), h]
  simp only
  rw [hnext]

/-- A sweep that comes to the end of the code succeeds. -/
theorem Sweeps.sweepFrom_ok (h : Sweeps code pc visited stop)
    (hstop : stop = code.size) :
    ∃ instructions, sweepFrom code pc = .ok instructions := by
  induction h with
  | refl pc =>
    rw [sweepFrom, if_neg (Nat.not_lt.2 (Nat.le_of_eq hstop.symm))]
    exact ⟨_, rfl⟩
  | step hdecode _ ih =>
    obtain ⟨rest, hrest⟩ := ih hstop
    rw [sweepFrom_of_decode hdecode, bind_of_ok hrest]
    exact ⟨_, rfl⟩

/-- A sweep that comes to a position that does not decode fails there. -/
theorem Sweeps.sweepFrom_error (h : Sweeps code pc visited stop)
    (hlt : stop < code.size) (hstuck : decode code stop = .error e) :
    sweepFrom code pc = .error e := by
  induction h with
  | refl pc => rw [sweepFrom, if_pos hlt, hstuck]
  | step hdecode _ ih =>
    rw [sweepFrom_of_decode hdecode, ih hlt hstuck]
    rfl

end Code

/-! ## The code of a method -/

namespace Image

variable {image : Image} {config : Config} {flag : UInt32}
variable {m : MethodDescriptor} {e : Fault}

/-- The method has its code, and one instruction follows the other up to the
end of it. -/
def Sweeps (image : Image) (flag : UInt32) (m : MethodDescriptor) : Prop :=
  ∃ code visited, image.codeOf flag m = .ok code ∧
    Code.Sweeps code 0 visited code.size

/-- The method has no code, or code that can be listed. -/
def Lists (image : Image) (flag : UInt32) (m : MethodDescriptor) : Prop :=
  m.isNative = false → image.Sweeps flag m

/-- Why the code of a method cannot be listed. -/
inductive Obstructed (image : Image) (flag : UInt32) (m : MethodDescriptor) :
    Fault → Prop where
  /-- The code is not in the code region. -/
  | missing {d : ImageDefect} : image.codeOf flag m = .error d →
      Obstructed image flag m (.invalidImage d)
  /-- What the sweep comes to is no instruction. -/
  | stuck {code : Array UInt8} {visited : List Nat} {stop : Nat} {e : Fault} :
      image.codeOf flag m = .ok code → Code.Sweeps code 0 visited stop →
      stop < code.size → Instruction.decode code stop = .error e →
      Obstructed image flag m e

theorem methodLines_eq (image : Image) (config : Config)
    (m : MethodDescriptor) : image.methodLines config m =
      if m.isNative then .ok [methodText m ++ " native"] else (do
        let code ← image.methodCode config.storageFlag m
        let lines ← Code.listing code config.native
        return methodText m :: lines) := by
  unfold methodLines MethodDescriptor.isNative
  cases m.body <;> rfl

theorem methodCode_of_codeOf {code : Array UInt8}
    (h : image.codeOf flag m = .ok code) : image.methodCode flag m = .ok code := by
  rw [methodCode, h]

/-- A method without code is listed by its head alone. -/
theorem Lists.methodLines_ok (h : image.Lists config.storageFlag m) :
    ∃ lines, image.methodLines config m = .ok lines := by
  cases hnative : m.isNative with
  | true =>
    rw [methodLines_eq, if_pos hnative]
    exact ⟨_, rfl⟩
  | false =>
    obtain ⟨code, visited, hcode, hsweeps⟩ := h hnative
    obtain ⟨is, his⟩ := hsweeps.sweepFrom_ok rfl
    rw [methodLines_eq, if_neg (Bool.eq_false_iff.1 hnative),
      bind_of_ok (methodCode_of_codeOf hcode), Code.listing, his]
    exact ⟨_, rfl⟩

theorem Obstructed.methodLines_error
    (h : image.Obstructed config.storageFlag m e)
    (hnative : m.isNative = false) :
    image.methodLines config m = .error e := by
  rw [methodLines_eq, if_neg (Bool.eq_false_iff.1 hnative)]
  cases h with
  | missing hmissing =>
    rw [methodCode, hmissing]
    rfl
  | stuck hcode hsweeps hlt hstuck =>
    rw [bind_of_ok (methodCode_of_codeOf hcode), Code.listing,
      hsweeps.sweepFrom_error hlt hstuck]
    rfl

/-- A method can be listed, or something is in the way. -/
theorem sweeps_or_obstructed (image : Image) (flag : UInt32)
    (m : MethodDescriptor) :
    image.Sweeps flag m ∨ ∃ e, image.Obstructed flag m e := by
  cases hcode : image.codeOf flag m with
  | error d => exact .inr ⟨_, .missing hcode⟩
  | ok code =>
    obtain ⟨visited, stop, hsweeps, hstops⟩ :=
      Code.sweepFrom_ends code 0 (Nat.zero_le _)
    rcases hstops with ⟨rfl, -⟩ | ⟨hlt, e, hstuck, -⟩
    · exact .inl ⟨code, visited, hcode, hsweeps⟩
    · exact .inr ⟨e, .stuck hcode hsweeps hlt hstuck⟩

/-! ## The whole image -/

/-- All methods can be listed. -/
def Listable (image : Image) (config : Config) : Prop :=
  ∀ m ∈ image.methods, image.Lists config.storageFlag m

/-- The fault of the first method that cannot be listed. -/
def FirstObstructed (image : Image) (config : Config) (e : Fault) : Prop :=
  ∃ front m back, image.methods.toList = front ++ m :: back ∧
    (∀ n ∈ front, image.Lists config.storageFlag n) ∧
    m.isNative = false ∧ image.Obstructed config.storageFlag m e

/-- All methods can be listed, or there is a first one that cannot. -/
theorem listable_or_obstructed (image : Image) (config : Config) :
    image.Listable config ∨ ∃ e, image.FirstObstructed config e := by
  classical
  cases hfind : image.methods.toList.find? fun m =>
      ¬ image.Lists config.storageFlag m with
  | none =>
    refine .inl fun m hm => ?_
    simpa using List.find?_eq_none.1 hfind m (Array.mem_toList_iff.2 hm)
  | some m =>
    obtain ⟨hm, front, back, hmethods, hfront⟩ :=
      List.find?_eq_some_iff_append.1 hfind
    have hfails : ¬ image.Lists config.storageFlag m := by simpa using hm
    obtain ⟨hnative, hnot⟩ := Classical.not_imp.1 hfails
    obtain ⟨e, hobstructed⟩ :=
      (image.sweeps_or_obstructed config.storageFlag m).resolve_left hnot
    refine .inr ⟨e, front, m, back, hmethods, fun n hn => ?_, hnative,
      hobstructed⟩
    simpa using hfront n hn

theorem Listable.listing_ok (h : image.Listable config) :
    ∃ text, image.listing config = .ok text := by
  have hmethods : ∀ m ∈ image.methods.toList,
      ∃ lines, image.methodLines config m = .ok lines := fun m hm =>
    (h m (Array.mem_toList_iff.1 hm)).methodLines_ok
  obtain ⟨lines, hlines⟩ := mapM_of_ok hmethods
  rw [listing, listingLines, bind_of_ok hlines]
  exact ⟨_, rfl⟩

theorem FirstObstructed.listing_error (h : image.FirstObstructed config e) :
    image.listing config = .error e := by
  obtain ⟨front, m, back, hmethods, hfront, hnative, hobstructed⟩ := h
  have hlines : image.methods.toList.mapM (image.methodLines config) =
      .error e := by
    rw [hmethods]
    exact mapM_of_error (fun n hn => (hfront n hn).methodLines_ok)
      (hobstructed.methodLines_error hnative)
  rw [listing, listingLines, hlines]
  rfl

end Image

/-! ## Sessions -/

/-- The transcript `t` is `u` with a listing in front. -/
structure Transcript.IsListed (t : Transcript) (text : String)
    (u : Transcript) : Prop where
  result_eq : t.result = u.result
  exitCode_eq : t.exitCode = u.exitCode
  printed_eq : t.printed = u.printed
  errorLines_eq : t.errorLines = u.errorLines
  output_eq : t.output = text ++ u.output

namespace Session

variable {fuel : Nat} {config : Config} {image : Image} {console : Console}
variable {log : Log} {e : Fault}

theorem runMachine_listing (fuel : Nat) (m : Machine Unit) :
    (runMachine fuel m).listing = "" := by
  unfold runMachine
  split <;> rfl

/-- A session without a listing lists nothing. -/
theorem runImage_listing (fuel : Nat) (config : Config) (image : Image)
    (console : Console) (log : Log) :
    (runImage fuel config image console log).listing = "" := by
  unfold runImage
  split
  · rfl
  · exact runMachine_listing fuel _

/-- A machine that runs is not refused. -/
theorem runMachine_result (fuel : Nat) (m : Machine Unit) :
    (runMachine fuel m).result ≠ .error (.refused e) := by
  intro h
  unfold runMachine at h
  split at h <;> cases h

/-- A session that is refused has printed nothing. -/
theorem runImage_refused
    (h : (runImage fuel config image console log).result =
      .error (.refused e)) :
    (runImage fuel config image console log).exitCode = 1 ∧
      (runImage fuel config image console log).output = "" := by
  unfold Transcript.exitCode
  rw [h]
  refine ⟨rfl, ?_⟩
  unfold runImage at h ⊢
  split
  · rfl
  · rename_i m log' hcreate
    rw [hcreate] at h
    exact absurd h (runMachine_result fuel m)

/-- A listing only adds its text in front of what a session prints, if all
code of the image can be listed.  The session then has the same result, exit
status, program output and error lines as without the listing.  If some code
cannot be listed, the first such method is the reason for which the session is
refused before it has printed or run anything.  A session without a listing
does not look at that code; it may be refused as well, and then it has the
same exit status and has not printed anything either. -/
theorem listing_only_adds (fuel : Nat) (config : Config) (image : Image)
    (console : Console) (log : Log) :
    (image.Listable config → ∃ text, image.listing config = .ok text ∧
      (listAndRun fuel config image console log).IsListed text
        (runImage fuel config image console log)) ∧
    (¬ image.Listable config → ∃ e, image.FirstObstructed config e ∧
      (listAndRun fuel config image console log).result =
        .error (.refused e) ∧
      (listAndRun fuel config image console log).exitCode = 1 ∧
      (listAndRun fuel config image console log).output = "") ∧
    ∀ e, (runImage fuel config image console log).result =
        .error (.refused e) →
      (runImage fuel config image console log).exitCode = 1 ∧
      (runImage fuel config image console log).output = "" := by
  refine ⟨?_, ?_, fun e h => runImage_refused h⟩
  · intro hlistable
    obtain ⟨text, hlisting⟩ := hlistable.listing_ok
    refine ⟨text, hlisting, ?_⟩
    unfold listAndRun
    rw [hlisting]
    refine ⟨rfl, rfl, rfl, rfl, ?_⟩
    unfold Transcript.output
    rw [runImage_listing, String.empty_append]
  · intro hnot
    obtain ⟨e, hfirst⟩ :=
      (image.listable_or_obstructed config).resolve_left hnot
    unfold listAndRun
    rw [hfirst.listing_error]
    exact ⟨e, hfirst, rfl, rfl, rfl⟩

/-- A native method, and an entry point that returns 5. -/
def bothBodies : Image where
  classes := [⟨0, none, 0⟩]
  methods := #[⟨0, 1, 0, 0, 0, .native⟩, ⟨0, 0, 0, 0, 1, .bytecode 0 2⟩]
  constants := #[]
  code := #[0x08, 0xac]
  staticFields := 0
  main := ⟨0, 0⟩

theorem listing_only_adds_bothBodies :
    bothBodies.Listable .unix ∧
    (∃ text, bothBodies.listing .unix = .ok text ∧
      (listAndRun 2 .unix bothBodies (.ofBytes #[]) (.empty .off)).IsListed
        text (runImage 2 .unix bothBodies (.ofBytes #[]) (.empty .off))) ∧
    (listAndRun 2 .unix bothBodies (.ofBytes #[]) (.empty .off)).exitCode =
      0 := by
  have hcode : bothBodies.codeOf Config.unix.storageFlag
      ⟨0, 0, 0, 0, 1, .bytecode 0 2⟩ = .ok #[0x08, 0xac] := by decide +kernel
  have hpush : Instruction.decode #[0x08, 0xac] 0 =
      .ok ⟨0, .plain (.pushInt 6), 0⟩ := by decide +kernel
  have hreturn : Instruction.decode #[0x08, 0xac] 1 =
      .ok ⟨1, .plain (.returnValue .int), 0⟩ := by decide +kernel
  have hlistable : bothBodies.Listable .unix := by
    intro m hm hnative
    simp only [bothBodies, List.mem_toArray, List.mem_cons, List.not_mem_nil,
      or_false] at hm
    rcases hm with rfl | rfl
    · cases hnative
    · exact ⟨_, _, hcode, .step hpush (.step hreturn (.refl 2))⟩
  obtain ⟨hlisted, -, -⟩ :=
    listing_only_adds 2 .unix bothBodies (.ofBytes #[]) (.empty .off)
  obtain ⟨text, hlisting, hsame⟩ := hlisted hlistable
  refine ⟨hlistable, ⟨text, hlisting, hsame⟩, ?_⟩
  rw [hsame.exitCode_eq]
  decide +kernel

/-- The entry point returns at once, in front of a byte that is no opcode. -/
def unreachedByte : Image where
  classes := [⟨0, none, 0⟩]
  methods := #[⟨0, 0, 0, 0, 0, .bytecode 0 2⟩]
  constants := #[]
  code := #[0xb1, 0xff]
  staticFields := 0
  main := ⟨0, 0⟩

theorem unreachedByte_obstructed :
    unreachedByte.FirstObstructed .unix (.invalidOpcode 0xff 1) := by
  have hcode : unreachedByte.codeOf Config.unix.storageFlag
      ⟨0, 0, 0, 0, 0, .bytecode 0 2⟩ = .ok #[0xb1, 0xff] := by decide +kernel
  have hfirst : Instruction.decode #[0xb1, 0xff] 0 =
      .ok ⟨0, .plain .returnVoid, 0⟩ := by decide +kernel
  have hstuck : Instruction.decode #[0xb1, 0xff] 1 =
      .error (.invalidOpcode 0xff 1) := by decide +kernel
  exact ⟨[], _, [], rfl, fun n hn => absurd hn List.not_mem_nil, rfl,
    .stuck hcode (.step hfirst (.refl 1)) (by decide) hstuck⟩

/-- A session that has been computed and ends without a value. -/
theorem result_of_test {r : Except HostFault (Option Value)}
    (h : r.toOption.any (·.isNone) = true) : r = .ok none := by
  cases r with
  | error e => cases h
  | ok value => rw [Option.isNone_iff_eq_none.1 h]

/-- A listing is not always possible for an image that can be run. -/
theorem listing_not_neutral :
    (runImage 2 .unix unreachedByte (.ofBytes #[]) (.empty .off)).result =
        .ok none ∧
      (runImage 2 .unix unreachedByte (.ofBytes #[]) (.empty .off)).exitCode =
        0 ∧
      (listAndRun 2 .unix unreachedByte (.ofBytes #[]) (.empty .off)).result =
        .error (.refused (.invalidOpcode 0xff 1)) ∧
      (listAndRun 2 .unix unreachedByte (.ofBytes #[])
        (.empty .off)).exitCode = 1 := by
  have hrun : (runImage 2 .unix unreachedByte (.ofBytes #[])
      (.empty .off)).result = .ok none := result_of_test (by decide +kernel)
  have hlisted : (listAndRun 2 .unix unreachedByte (.ofBytes #[])
      (.empty .off)).result = .error (.refused (.invalidOpcode 0xff 1)) := by
    unfold listAndRun
    rw [unreachedByte_obstructed.listing_error]
    rfl
  refine ⟨hrun, ?_, hlisted, ?_⟩
  · rw [Transcript.exitCode, hrun]
  · rw [Transcript.exitCode, hlisted]
    rfl

end Session

end SlotVm
