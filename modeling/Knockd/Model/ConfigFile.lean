import Mathlib.Data.List.DropRight
import Knockd.Model.Logger
import Knockd.Semantics.CString

/-!
# Reading the configuration file

`config.c` reads the file through a fixed buffer, one `fgets` at a time, splits what it
finds at the first `=`, and hands the value to the parser of the key. Whatever the file
holds, `config_validate` then repairs every field that is out of range. This file
translates both, with the messages they log; `log_msg` compares with `LOG_LEVEL` as it is
at that moment, which a line of the file may just have changed.

A character stands for one byte of the file. A message that quotes the path of the file
is kept whole.

## Main definitions

* `parseInt`, `parseSequence`, `parseInterface` — the three value parsers
* `scanLine` — a line as the pair of key and value, or as one to be ignored
* `configLine` — the body of the loop of `config_load`
* `configValidate` — the repair of whatever the globals hold
* `configLoad` — the public function
-/

namespace Knockd

open CString (strtol strtokAll fgetsAll terminated)

/-- `sizeof(line)` in `config_load`. -/
def lineSize : ℕ := 256

/-- `sizeof(scratch)` in `parse_sequence`. -/
def scratchSize : ℕ := 256

/-- `INT_MIN`. -/
def intMin : ℤ := -2147483648

/-- `INT_MAX`. -/
def intMax : ℤ := 2147483647

/-- The globals after a function of `config.c`, its return code and its messages. -/
structure ConfigOutcome where
  cfg : Config
  rc : ℤ
  log : List LogLine

/-! ### Values -/

/-- `parse_int`; `store` writes the number through the pointer `out`. -/
def parseInt (cfg : Config) (key val : List Char) (store : ℤ → Config) : ConfigOutcome :=
  let n := strtol val
  if n.rest = val ∨ n.rest ≠ [] then
    { cfg := cfg
      rc := -1
      log := logMsg cfg .warn
        ("Config: '" ++ String.ofList key ++ "' value \"" ++ String.ofList val ++
          "\" is not a number — ignored") }
  else if n.erange = true ∨ n.value < intMin ∨ n.value > intMax then
    { cfg := cfg
      rc := -1
      log := logMsg cfg .warn
        ("Config: '" ++ String.ofList key ++ "' value \"" ++ String.ofList val ++
          "\" is out of range — ignored") }
  else { cfg := store n.value, rc := 0, log := [] }

/-- The separators of a port list. -/
def isSeparator (c : Char) : Bool := c = ',' || c = ' ' || c = '\t'

/-- The loop of `parse_sequence` over the tokens, with the ports read so far; a message
when it gives up. -/
def parseEntries (cfg : Config) :
    List (List Char) → List UInt16 → Except (List LogLine) (List UInt16)
  | [], seq => .ok seq
  | tok :: toks, seq =>
    if seq.length ≥ maxKnockSeqLen then
      .error (logMsg cfg .warn
        ("Config: 'sequence' has more than " ++ toString maxKnockSeqLen ++ " ports — rejected"))
    else
      let port := strtol tok
      if port.rest = tok ∨ port.rest ≠ [] ∨ port.erange = true ∨ port.value < 1 ∨
          port.value > 65535 then
        .error (logMsg cfg .warn
          ("Config: 'sequence' entry \"" ++ String.ofList tok ++
            "\" is not a port in 1–65535 — sequence rejected"))
      -- the cast to 16 bits
      else parseEntries cfg toks (seq ++ [UInt16.ofInt port.value])

/-- `memcpy` into `KNOCK_SEQUENCE`, and the length; ports past it stay what they were. -/
def Config.installSequence (cfg : Config) (seq : List UInt16) : Config :=
  { cfg with
    knockSequence := Vector.ofFn fun i => seq[i.val]?.getD (cfg.knockSequence.get i)
    knockSeqLen := seq.length }

/-- `parse_sequence`. -/
def parseSequence (cfg : Config) (val : List Char) : ConfigOutcome :=
  if val.length ≥ scratchSize then
    { cfg := cfg
      rc := -1
      log := logMsg cfg .warn "Config: 'sequence' is too long to parse — rejected" }
  else
    match parseEntries cfg (strtokAll isSeparator val) [] with
    | .error log => { cfg := cfg, rc := -1, log := log }
    | .ok seq =>
      if seq.length = 0 then
        { cfg := cfg, rc := -1, log := logMsg cfg .warn "Config: 'sequence' is empty — rejected" }
      else { cfg := cfg.installSequence seq, rc := 0, log := [] }

/-- `parse_interface`. -/
def parseInterface (cfg : Config) (val : List Char) : ConfigOutcome :=
  if val = [] then { cfg := { cfg with knockInterface := [] }, rc := 0, log := [] }
  else if val.length ≥ ifnameMax then
    { cfg := cfg
      rc := -1
      log := logMsg cfg .warn
        ("Config: 'interface' name \"" ++ String.ofList val ++ "\" is too long — ignored") }
  else { cfg := { cfg with knockInterface := val }, rc := 0, log := [] }

/-! ### Lines -/

/-- The white space that `config_load` trims. -/
def isBlank (c : Char) : Bool := c = ' ' || c = '\t'

/-- What a line turns out to be. -/
inductive ScannedLine
  | ignored
  | noEquals (ptr : List Char)
  | setting (key val : List Char)
  deriving DecidableEq

/-- The value of a setting, from what follows the `=`: without the comment, without the
end of line, and trimmed on both sides. -/
def trimValue (val : List Char) : List Char :=
  let uncommented := val.takeWhile (· ≠ '#')
  let cut := uncommented.takeWhile (fun c => c ≠ '\r' ∧ c ≠ '\n')
  (cut.dropWhile isBlank).rdropWhile isBlank

/-- The scanner of `config_load`, on the buffer that `fgets` has filled. -/
def scanLine (line : List Char) : ScannedLine :=
  let ptr := (terminated line).dropWhile isBlank
  if ptr.head? = none ∨ ptr.head? = some '#' ∨ ptr.head? = some '\n' ∨ ptr.head? = some '\r' then
    .ignored
  else
    match ptr.dropWhile (· ≠ '=') with
    | [] => .noEquals ptr
    | _ :: val => .setting ((ptr.takeWhile (· ≠ '=')).rdropWhile isBlank) (trimValue val)

/-- The keys `config_load` knows, in the order it compares them. -/
inductive ConfigKey
  | sequence | port | timeout | window | maxClients | logLevel | interface
  deriving DecidableEq, Repr

namespace ConfigKey

/-- All keys. -/
def all : List ConfigKey := [sequence, port, timeout, window, maxClients, logLevel, interface]

/-- The text of a key. -/
def name : ConfigKey → List Char
  | sequence => ['s', 'e', 'q', 'u', 'e', 'n', 'c', 'e']
  | port => ['p', 'o', 'r', 't']
  | timeout => ['t', 'i', 'm', 'e', 'o', 'u', 't']
  | window => ['w', 'i', 'n', 'd', 'o', 'w']
  | maxClients => ['m', 'a', 'x', '_', 'c', 'l', 'i', 'e', 'n', 't', 's']
  | logLevel => ['l', 'o', 'g', '_', 'l', 'e', 'v', 'e', 'l']
  | interface => ['i', 'n', 't', 'e', 'r', 'f', 'a', 'c', 'e']

/-- The chain of `strcmp`s. -/
def ofName? (key : List Char) : Option ConfigKey := all.find? fun k => k.name = key

end ConfigKey

/-- What a setting does to the globals. -/
def applySetting (filepath : String) (cfg : Config) (key val : List Char) : ConfigOutcome :=
  match ConfigKey.ofName? key with
  | some .sequence => parseSequence cfg val
  | some .port => parseInt cfg key val fun n => { cfg with protectedPort := n }
  | some .timeout => parseInt cfg key val fun n => { cfg with accessTimeout := n }
  | some .window => parseInt cfg key val fun n => { cfg with knockWindow := n }
  | some .maxClients => parseInt cfg key val fun n => { cfg with maxClients := n }
  | some .logLevel => parseInt cfg key val fun n => { cfg with logLevel := n }
  | some .interface => parseInterface cfg val
  | none =>
    { cfg := cfg
      rc := 0
      log := logMsg cfg .warn
        ("Config: unknown key '" ++ String.ofList key ++ "' in " ++ filepath ++ " — ignored") }

/-- The body of the loop of `config_load`. -/
def configLine (filepath : String) (cfg : Config) (line : List Char) : Config × List LogLine :=
  match scanLine line with
  | .ignored => (cfg, [])
  | .noEquals ptr =>
    (cfg, logMsg cfg .warn ("Config: ignoring line without '=': " ++ String.ofList ptr))
  | .setting key val =>
    -- a parser's return code is not looked at
    let out := applySetting filepath cfg key val
    (out.cfg, out.log)

/-- The loop of `config_load`. -/
def configLines (filepath : String) (cfg : Config) : List (List Char) → Config × List LogLine
  | [] => (cfg, [])
  | line :: lines =>
    let next := configLine filepath cfg line
    let rest := configLines filepath next.1 lines
    (rest.1, next.2 ++ rest.2)

/-! ### Validation -/

/-- `reset_sequence_to_default`. -/
def Config.resetSequenceToDefault (cfg : Config) : Config :=
  cfg.installSequence Config.defaultSequence

/-- The globals during validation, with the number of warnings so far. -/
structure Validation where
  cfg : Config
  warnings : ℕ
  log : List LogLine

/-- Go on with the next check. -/
def Validation.andThen (v : Validation) (check : Config → Validation) : Validation :=
  let next := check v.cfg
  ⟨next.cfg, v.warnings + next.warnings, v.log ++ next.log⟩

/-- A check that resets a field, says so and counts a warning, or does nothing. -/
def resetIf (bad : Prop) [Decidable bad] (cfg fixed : Config) (text : String) : Validation :=
  if bad then ⟨fixed, 1, logMsg cfg .warn text⟩ else ⟨cfg, 0, []⟩

/-- The first port that occurs again, and the positions of both, counted from `i + 1` on:
the nested loop over the sequence. -/
def firstRepeat : List UInt16 → ℕ → Option (UInt16 × ℕ × ℕ)
  | [], _ => none
  | port :: rest, i =>
    match rest.findIdx? (· = port) with
    | some d => some (port, i + 1, i + d + 2)
    | none => firstRepeat rest (i + 1)

/-- What is wrong with the sequence, if anything: the three checks stop at the first. -/
def sequenceFault (cfg : Config) : Option String :=
  if cfg.knockSeqLen < 2 ∨ cfg.knockSeqLen > maxKnockSeqLen then
    some ("Config: 'sequence' must have 2–" ++ toString maxKnockSeqLen ++ " ports (got " ++
      toString cfg.knockSeqLen ++ ") — using the default sequence")
  else
    match cfg.sequence.findIdx? (· = 0) with
    | some i => some ("Config: knock port " ++ toString (i + 1) ++
        " is 0 — using the default sequence")
    | none =>
      (firstRepeat cfg.sequence 0).map fun (port, i, j) =>
        "Config: 'sequence' repeats port " ++ toString port.toNat ++ " at positions " ++
          toString i ++ " and " ++ toString j ++
          ", which can never be completed — using the default sequence"

/-- The knock sequence. -/
def checkSequence (cfg : Config) : Validation :=
  match sequenceFault cfg with
  | some text => ⟨cfg.resetSequenceToDefault, 1, logMsg cfg .warn text⟩
  | none => ⟨cfg, 0, []⟩

/-- The protected port. -/
def checkPort (cfg : Config) : Validation :=
  resetIf (cfg.protectedPort < 1 ∨ cfg.protectedPort > 65535) cfg
    { cfg with protectedPort := Config.default.protectedPort }
    ("Config: 'port' " ++ toString cfg.protectedPort ++ " is out of range (1–65535) — using " ++
      toString Config.default.protectedPort)

/-- A protected port that is also a knock port is pointed out, once for each position. -/
def checkOverlap (cfg : Config) : Validation :=
  let hits := cfg.sequence.zipIdx.filter fun entry => (entry.1.toNat : ℤ) = cfg.protectedPort
  { cfg := cfg
    warnings := hits.length
    log := hits.flatMap fun entry =>
      logMsg cfg .warn
        ("Config: the protected port " ++ toString cfg.protectedPort ++ " is also knock port " ++
          toString (entry.2 + 1) ++ ". Connecting to the protected port will count as a knock — " ++
          "pick a sequence that does not include it.") }

/-- `MAX_SANE_ACCESS_TIMEOUT`. -/
def maxSaneAccessTimeout : ℤ := 3600

/-- The access timeout: reset when it is not positive, pointed out when it is long. -/
def checkTimeout (cfg : Config) : Validation :=
  if cfg.accessTimeout ≤ 0 then
    ⟨{ cfg with accessTimeout := Config.default.accessTimeout }, 1, logMsg cfg .warn
      ("Config: 'timeout' must be greater than 0 (got " ++ toString cfg.accessTimeout ++
        ") — using " ++ toString Config.default.accessTimeout ++ "s")⟩
  else if cfg.accessTimeout > maxSaneAccessTimeout then
    ⟨cfg, 1, logMsg cfg .warn
      ("Config: 'timeout' of " ++ toString cfg.accessTimeout ++
        "s keeps the port open for over an hour after each knock — keeping the value, " ++
        "but check that it is deliberate")⟩
  else ⟨cfg, 0, []⟩

/-- The knock window. -/
def checkWindow (cfg : Config) : Validation :=
  resetIf (cfg.knockWindow ≤ 0) cfg { cfg with knockWindow := Config.default.knockWindow }
    ("Config: 'window' must be greater than 0 (got " ++ toString cfg.knockWindow ++ ") — using " ++
      toString Config.default.knockWindow ++ "s")

/-- `MAX_SANE_CLIENTS`. -/
def maxSaneClients : ℤ := 65536

/-- The size of the tables. -/
def checkClients (cfg : Config) : Validation :=
  resetIf (cfg.maxClients ≤ 0 ∨ cfg.maxClients > maxSaneClients) cfg
    { cfg with maxClients := Config.default.maxClients }
    ("Config: 'max_clients' must be 1–" ++ toString maxSaneClients ++ " (got " ++
      toString cfg.maxClients ++ ") — using " ++ toString Config.default.maxClients)

/-- The log level. -/
def checkLevel (cfg : Config) : Validation :=
  resetIf (cfg.logLevel < 0 ∨ cfg.logLevel > 3) cfg
    { cfg with logLevel := Config.default.logLevel }
    ("Config: 'log_level' must be 0–3 (got " ++ toString cfg.logLevel ++ ") — using " ++
      toString Config.default.logLevel)

/-- `config_validate`. -/
def configValidate (cfg : Config) : Config × List LogLine :=
  let checked := (checkSequence cfg).andThen checkPort |>.andThen checkOverlap
    |>.andThen checkTimeout |>.andThen checkWindow |>.andThen checkClients |>.andThen checkLevel
  (checked.cfg, checked.log ++
    if checked.warnings = 0 then logMsg checked.cfg .debug "Configuration validated" else [])

/-! ### Loading -/

/-- A file that could be opened: its mode if `fstat` succeeds, the characters that `fgets`
delivers from it, and the reason if reading stopped at an error. What had been read by then of
the buffer in progress is not delivered. -/
structure OpenFile where
  mode : Option ℕ
  content : List Char
  error : Option String

/-- A number as `%04o` prints it. -/
def octal (n : ℕ) : String :=
  let digits := Nat.toDigits 8 n
  String.ofList (List.replicate (4 - digits.length) '0' ++ digits)

/-- `warn_if_world_readable`. -/
def warnIfWorldReadable (cfg : Config) (filepath : String) (mode : Option ℕ) : List LogLine :=
  match mode with
  | none => []
  | some mode =>
    if mode &&& 0o66 ≠ 0 then
      logMsg cfg .warn
        ("Config: " ++ filepath ++ " is readable or writable by users other than its owner (mode " ++
          octal (mode % 0o10000) ++ ") — it holds the knock sequence. Run: chmod 600 " ++ filepath)
    else []

/-- The buffers that the loop of `config_load` works on. -/
def OpenFile.lines (file : OpenFile) : List (List Char) := fgetsAll lineSize file.content

/-- `config_load`; an `error` is why the file could not be opened. -/
def configLoad (filepath : String) (file : Except String OpenFile) (cfg : Config) :
    ConfigOutcome :=
  match file with
  | .error reason =>
    let validated := configValidate cfg
    { cfg := validated.1
      rc := -1
      log := logMsg cfg .warn
          ("Could not open " ++ filepath ++ " (" ++ reason ++ ") — falling back to the built-in " ++
            "defaults, including the published default knock sequence") ++ validated.2 }
  | .ok file =>
    let read := configLines filepath cfg file.lines
    let validated := configValidate read.1
    { cfg := validated.1
      rc := 0
      log := warnIfWorldReadable cfg filepath file.mode ++ read.2 ++
        (file.error.elim [] fun reason =>
          logMsg read.1 .warn ("Error reading " ++ filepath ++ ": " ++ reason)) ++
        logMsg read.1 .info ("Configuration loaded from " ++ filepath) ++ validated.2 }

end Knockd
