import SlotVm.Host.Settings
import SlotVm.Image.Json
import SlotVm.Image.Listing
import SlotVm.Machine.Run

/-!
# Sessions

A session loads an image, lists it if that is wanted, and runs it from its
entry point on a fresh machine.  Everything that it writes is kept in a
`Transcript`, which is complete also when a fault ends the session.
-/

namespace SlotVm

/-- What a session wrote and how it ended. -/
structure Transcript where
  /-- Listing of the image. -/
  listing : String
  /-- Output of the program. -/
  printed : String
  log : Log
  /-- What the entry point returned, or why the session ended before. -/
  result : Except HostFault (Option Value)

namespace Transcript

/-- All text of the output stream. -/
def output (t : Transcript) : String := t.listing ++ t.printed

/-- A session that ends before anything is printed. -/
def failed (log : Log) (e : HostFault) : Transcript :=
  ⟨"", "", log, .error e⟩

/-- The transcript with one more log message. -/
def record (t : Transcript) (level : Level) (target : String)
    (text : Unit → String) : Transcript :=
  { t with log := t.log.record level target text }

end Transcript

namespace Session

/-- The part of the host that reports resources. -/
def runTarget : String := "nanovm_cli::runtime"

/-- The part of the host that reports results. -/
def hostTarget : String := "nanovm"

/-- Reads an image and checks it. -/
def load (files : Files) (config : Config) (file : String) :
    Except HostFault Image := do
  let text ← files.readText file
  let image ← (Image.parse text).mapError .refused
  (image.check config).mapError .refused
  return image

/-- The resources that a machine has used. -/
def usageText {δ : Type} (m : Machine δ) : String :=
  let heap := m.store.heap
  s!"{m.steps} instructions, {heap.stats.allocations} allocations, "
    ++ s!"{heap.stats.slotsInUse} of {heap.capacity} heap slots used"

/-- What a machine wrote, with how its run ended. -/
def transcript (m : Machine Unit) (result : Except HostFault (Option Value)) :
    Transcript :=
  ⟨"", m.store.console.output, m.store.log, result⟩

/-- Runs a machine from the entry point of its image. -/
def runMachine (fuel : Nat) (m : Machine Unit) : Transcript :=
  match Machine.runMain fuel m with
  | .error e m => transcript m (.error (.stopped e))
  | .ok .unfinished m => transcript m (.error .unfinished)
  | .ok (.finished value) m =>
      (transcript m (.ok value)).record .info runTarget fun _ => usageText m

/-- Runs an image from its entry point on a fresh machine. -/
def runImage (fuel : Nat) (config : Config) (image : Image)
    (console : Console) (log : Log) : Transcript :=
  match Machine.create config image console () log with
  | .error e log => .failed log (.refused e)
  | .ok m _ => runMachine fuel m

/-- Lists an image and runs it. -/
def listAndRun (fuel : Nat) (config : Config) (image : Image)
    (console : Console) (log : Log) : Transcript :=
  match image.listing config with
  | .error e => .failed log (.refused e)
  | .ok listing =>
      { runImage fuel config image console log with listing := listing }

/-- Loads an image and runs it. -/
def runFile (fuel : Nat) (files : Files) (config : Config) (file : String)
    (console : Console) (log : Log) : Transcript :=
  match load files config file with
  | .error e => .failed log e
  | .ok image => runImage fuel config image console log

/-- Reports what the entry point returned. -/
def reportValue (t : Transcript) : Transcript :=
  match t.result with
  | .ok (some value) =>
      t.record .info hostTarget fun _ => "main returned " ++ value.text
  | _ => t

/-- A whole session under given options. -/
def run (fuel : Nat) (options : Options) (files : Files)
    (console : Console) : Transcript :=
  let log := Log.empty options.logLevel
  match options.settings files with
  | .error e => .failed log e
  | .ok config =>
      match load files config options.file with
      | .error e => .failed log e
      | .ok image =>
          let start := if options.printBytecode then listAndRun else runImage
          reportValue (start fuel config image console log)

end Session

/-- The lines of the error stream: the log, and why the session failed. -/
def Transcript.errorLines (t : Transcript) : List String :=
  let failure :=
    match t.result with
    | .error e => ["nanovm: " ++ e.message]
    | .ok _ => []
  t.log.lines ++ failure

/-- Exit status of a session. -/
def Transcript.exitCode (t : Transcript) : UInt8 :=
  match t.result with
  | .error e => e.exitCode
  | .ok _ => 0

end SlotVm
