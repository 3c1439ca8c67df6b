import SlotVm.Host.Arguments

/-!
# Usage texts

What the host writes when the arguments lead to no run.
-/

namespace SlotVm

/-- The wording of a mistake in the arguments. -/
def UsageError.message : UsageError → String
  | missingFile => "no program image is given (--file)"
  | badValue => "an option has no usable value"
  | badNumber => "the heap size is not a number of bytes"
  | unknownArgument => "an argument is not known"
  | conflict => "options exclude each other or are given twice"
  | needlessValue => "an option takes no value but has one"

namespace Options

/-- Name and version of the program. -/
def versionText : String := "nanovm 0.1.0\n"

/-- The options and what they do. -/
def usageText : String :=
  "NanoVM bytecode interpreter\n\n" ++
  "Usage: nanovm [OPTIONS] --file <FILE>\n\n" ++
  "Options:\n" ++
  "  -f, --file <FILE>            Program image (JSON) to execute\n" ++
  "  -p, --profile <PROFILE>      Build profile: unix (default) or asuro\n" ++
  "  -c, --config <CONFIG>        Configuration file; replaces the profile\n" ++
  "      --heap-size <BYTES>      Heap size in bytes\n" ++
  "      --stack-check <POLICY>   verify, discard or retain leftover values\n" ++
  "      --print-bytecode         List the image before running it\n" ++
  "      --trace                  Log every executed instruction\n" ++
  "  -v, --verbose                Log lifecycle events\n" ++
  "  -q, --quiet                  Only log errors\n" ++
  "  -h, --help                   Print help\n" ++
  "  -V, --version                Print version\n"

end Options

/-- What is written on the output stream without a run. -/
def Diversion.output : Diversion → String
  | help => Options.usageText
  | version => Options.versionText
  | mistake _ => ""

/-- What is written on the error stream without a run. -/
def Diversion.errorOutput : Diversion → String
  | help | version => ""
  | mistake e => "error: " ++ e.message ++ "\n"

end SlotVm
