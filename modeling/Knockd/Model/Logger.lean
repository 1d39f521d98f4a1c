import Knockd.Model.Config

/-!
# Log lines

Both threads log through `log_msg`, which drops a message above the configured
level. A log line here is its level and its text. The time stamp in front of it is a
function of the clock reading alone and is left out. On stderr a message is cut at
the size of the formatting buffer, `LOG_MSG_MAX`; that is too large for every message
of the modelled functions but those that quote the path of the configuration file,
which has any length, and these are kept here in full.

## Main definitions

* `LogLevel`, `LogLine` — what reaches stderr or syslog
* `logMsg` — the filter every message passes through
* `inetNtop` — an address in dotted quad
-/

namespace Knockd

/-- The four levels, most severe first. -/
inductive LogLevel | error | warn | info | debug
  deriving DecidableEq, Repr

/-- The number the configuration compares a level with. -/
def LogLevel.toInt : LogLevel → ℤ
  | .error => 0
  | .warn => 1
  | .info => 2
  | .debug => 3

/-- One emitted line. -/
structure LogLine where
  level : LogLevel
  text : String
  deriving DecidableEq, Repr

/-- `log_msg`: nothing when the level is above `LOG_LEVEL`, one line otherwise. -/
def logMsg (cfg : Config) (level : LogLevel) (text : String) : List LogLine :=
  if level.toInt > cfg.logLevel then [] else [⟨level, text⟩]

/-- The filter looks at the level, not at the sequence. -/
theorem logMsg_withSequence {cfg : Config} {sequence : Vector UInt16 maxKnockSeqLen}
    (level : LogLevel) (text : String) :
    logMsg (cfg.withSequence sequence) level text = logMsg cfg level text := rfl

/-- `inet_ntop` on an IPv4 address. The address is the 32-bit word as it lies in
memory, so its least significant byte is the first of the quad. A sixteen byte
buffer always holds the result, which is why no caller's failure branch is
reachable. -/
def inetNtop (ip : UInt32) : String :=
  let byte (shift : UInt32) : String := toString ((ip >>> shift) &&& 0xff).toNat
  String.intercalate "." [byte 0, byte 8, byte 16, byte 24]

end Knockd
