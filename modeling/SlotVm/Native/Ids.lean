/-!
# Ids of the native classes

Native classes have ids from `classBase` on; the classes of a program lie
below.
-/

namespace SlotVm.Native

/-- Least id of a native class. -/
def classBase : UInt16 := 16

/-- Root of all classes. -/
def rootClass : UInt16 := 16

/-- Output stream. -/
def printStream : UInt16 := 17

/-- Input stream. -/
def inputStream : UInt16 := 18

/-- Growing text. -/
def stringBuffer : UInt16 := 19

/-- Method id of every constructor. -/
def constructorId : UInt16 := 0

/-- Name of a native class. -/
def className? (classId : UInt16) : Option String :=
  match classId.toNat with
  | 16 => some "java/lang/Object"
  | 17 => some "java/io/PrintStream"
  | 18 => some "java/io/InputStream"
  | 19 => some "java/lang/StringBuffer"
  | 20 => some "nanovm/avr/AVR"
  | 21 => some "nanovm/avr/Port"
  | 22 => some "nanovm/avr/Timer"
  | 23 => some "nanovm/avr/Adc"
  | 24 => some "nanovm/avr/Pwm"
  | 25 => some "nanovm/lcd/Lcd"
  | 26 => some "nanovm/asuro/Asuro"
  | _ => none

end SlotVm.Native
