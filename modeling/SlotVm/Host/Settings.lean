import SlotVm.Config.Json
import SlotVm.Host.Arguments
import SlotVm.Log

/-!
# Settings of a run

A run reads its configuration from a file or takes that of a profile, and
single options change it afterwards.  The changed configuration is checked
once more.

A `HostFault` is whatever keeps a run from its end, with the wording and the
exit status that the host gives it.
-/

namespace SlotVm

/-- Why a run did not come to its end. -/
inductive HostFault where
  /-- A file could not be read. -/
  | unreadable (file reason : String)
  /-- The configuration or the image was refused. -/
  | refused (f : Fault)
  /-- The program stopped at a fault. -/
  | stopped (f : Fault)
  /-- The program used up the instructions that it was given. -/
  | unfinished
deriving DecidableEq

namespace HostFault

/-- The wording of a host fault. -/
def message : HostFault → String
  | unreadable file reason => s!"could not read '{file}': {reason}"
  | refused f => f.message
  | stopped f => "fault: " ++ f.message
  | unfinished => "the program did not end"

/-- Exit status: the code of a fault of the program, and one for all that
happens before it runs. -/
def exitCode : HostFault → UInt8
  | unreadable .. | refused _ | unfinished => 1
  | stopped f => f.code

end HostFault

/-- The bytes of each file, or why it cannot be read. -/
abbrev Files := String → Except String ByteArray

namespace Files

/-- The text of a file. -/
def readText (files : Files) (file : String) : Except HostFault String :=
  match files file with
  | .error reason => .error (.unreadable file reason)
  | .ok bytes =>
      match String.fromUTF8? bytes with
      | some text => .ok text
      | none =>
          .error (.unreadable file "stream did not contain valid UTF-8")

end Files

namespace Options

/-- The configuration of a run. -/
def settings (o : Options) (files : Files) : Except HostFault Config := do
  let base ←
    match o.config with
    | none => pure o.profile.config
    | some file =>
        let text ← files.readText file
        (Config.parse text).mapError .refused
  let config := { base with
    heapSize := o.heapSize.getD base.heapSize
    residue := o.residue.getD base.residue
    trace := base.trace || o.trace }
  config.check.mapError .refused
  return config

/-- Threshold of the log. -/
def logLevel (o : Options) : Level :=
  if o.quiet then .error
  else if o.trace then .debug
  else if o.verbose then .info
  else .warn

/-- The files that the run needs. -/
def fileNames (o : Options) : List String := o.config.toList ++ [o.file]

end Options

end SlotVm
