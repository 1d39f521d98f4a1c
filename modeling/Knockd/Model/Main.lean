import Knockd.Model.ConfigFile
import Knockd.Model.Daemon
import Knockd.Model.Processor

/-!
# From the command line to the main loop

`main` reads its arguments, checks that it is root, loads the configuration, sets the
firewall up, opens the raw socket, starts the capture thread and enters `run_processor`;
on the way it can stop at every one of these steps. What it asks of the operating system is
collected in `Host`. The iptables commands make the whole a program, like those of the
firewall; its value says whether the process is over, with its exit code, or has entered
`run_processor`, and then with what.

The argument vector is given without the program name, and `argv[0]` as a parameter where a
message quotes it. Text written to stdout and stderr before the logger is set up is kept
apart from the log.

## Main definitions

* `Options`, `parseArgs` — the loop over the arguments, `ParsedArgs.message` what it prints
* `Host`, `snifferInit` — the operating system, and `sniffer_init`
* `mainCleanup`, `startUp` — the rest of `main`, up to `run_processor`
-/

namespace Knockd

open Effect.Prog (say)

/-! ### Arguments -/

/-- `DEFAULT_CONFIG_PATH`. -/
def defaultConfigPath : String := "/etc/knockd.conf"

/-- The locals of `main` that the arguments set. -/
structure Options where
  configFile : String
  configExplicit : Bool
  verbose : Bool
  useSyslog : Bool
  deriving DecidableEq, Repr

/-- Their initial values. -/
def Options.initial : Options := ⟨defaultConfigPath, false, false, false⟩

/-- How the loop over the arguments ends. -/
inductive ParsedArgs
  | options (o : Options)
  | help
  | version
  | missingPath (option : String)
  | unknown (arg : String)
  deriving DecidableEq, Repr

/-- The loop over the arguments. -/
def parseArgs : Options → List String → ParsedArgs
  | o, [] => .options o
  | o, arg :: rest =>
    if arg = "-h" ∨ arg = "--help" then .help
    else if arg = "-V" ∨ arg = "--version" then .version
    else if arg = "-v" ∨ arg = "--verbose" then parseArgs { o with verbose := true } rest
    else if arg = "-s" ∨ arg = "--syslog" then parseArgs { o with useSyslog := true } rest
    else if arg = "-c" ∨ arg = "--config" then
      match rest with
      | [] => .missingPath arg
      -- whatever follows is the path, also if it looks like an option
      | file :: rest => parseArgs { o with configFile := file, configExplicit := true } rest
    else .unknown arg

/-- `print_usage`. -/
def printUsage (progname : String) : String :=
  "Usage: sudo " ++ progname ++ " [OPTIONS]\n\nOptions:\n" ++
    "  -c, --config <file>  Config file (default: " ++ defaultConfigPath ++ ")\n" ++
    "  -v, --verbose        Debug logging; overrides log_level\n" ++
    "  -s, --syslog         Log to syslog instead of stderr\n" ++
    "  -V, --version        Print the version and exit\n" ++
    "  -h, --help           Print this help and exit\n\n" ++
    "knockd runs in the foreground and is meant to be supervised by\n" ++
    "systemd, which captures stderr into the journal. It needs root\n" ++
    "for the raw capture socket and for iptables.\n\n"

/-- Text for stdout and stderr. -/
structure Printed where
  stdout : String
  stderr : String
  deriving DecidableEq

/-- What is printed when the arguments end the process. -/
def ParsedArgs.message (progname version : String) : ParsedArgs → Printed
  | .options _ => ⟨"", ""⟩
  | .help => ⟨printUsage progname, ""⟩
  | .version => ⟨"knockd " ++ version ++ "\n", ""⟩
  | .missingPath option => ⟨"", "Error: " ++ option ++ " needs a file path.\n"⟩
  | .unknown arg => ⟨printUsage progname, "Error: unknown option '" ++ arg ++ "'.\n"⟩

/-- The message of a process that is not root. -/
def notRoot (progname : String) : Printed :=
  ⟨"", "Error: knockd needs root for the raw capture socket and for iptables.\nTry: sudo " ++
    progname ++ "\n"⟩

/-! ### The operating system -/

/-- Why `socket` failed, and whether `errno` was `EPERM` or `EACCES`. -/
structure SocketError where
  reason : String
  permission : Bool

/-- What the process asks of the operating system on its way to `run_processor`, apart from
iptables: who it is, the files it may open, the two allocations, the raw socket, the
receive timeout with the reason if it could not be set, the interfaces, and the capture
thread. An interface that exists has an index other than zero. -/
structure Host where
  euid : ℕ
  files : String → Except String OpenFile
  clientsCalloc : Bool
  grantsCalloc : Bool
  socket : Except SocketError ℕ
  recvTimeout : Option String
  interfaces : List Char → Except String { i : UInt32 // i ≠ 0 }
  pthreadCreate : Bool

/-- `sniffer_init`: `g_ifindex` if the socket is ready. -/
def snifferInit (cfg : Config) (host : Host) : Option UInt32 × List LogLine :=
  match host.socket with
  | .error e =>
    (none, logMsg cfg .error ("Failed to create raw socket: " ++ e.reason) ++
      if e.permission then
        logMsg cfg .error "Raw sockets need root or CAP_NET_RAW. Try sudo."
      else [])
  | .ok fd =>
    let timeout := host.recvTimeout.elim [] fun reason =>
      logMsg cfg .warn
        ("Could not set a receive timeout on the raw socket (" ++ reason ++
          ") — shutdown may take longer")
    let created := logMsg cfg .debug ("Raw socket created (fd " ++ toString fd ++ ")")
    if cfg.knockInterface = [] then
      (some 0, timeout ++ logMsg cfg .debug "Capturing on every interface" ++ created)
    else
      match host.interfaces cfg.knockInterface with
      | .error reason =>
        (none, timeout ++ logMsg cfg .error
          ("Unknown interface '" ++ String.ofList cfg.knockInterface ++ "': " ++ reason))
      | .ok index =>
        (some index, timeout ++
          logMsg cfg .info ("Capturing on " ++ String.ofList cfg.knockInterface ++ " only") ++
          created)

/-! ### Starting up -/

/-- Where the process is: over, or in `run_processor`. -/
inductive StartUp
  | exited (code : ℤ)
  | processing (cfg : Config) (ifindex : UInt32) (fw : Firewall)

/-- The code behind the label `cleanup` when the capture thread was not started; `socket`
says whether there is a socket to close. -/
def mainCleanup (cfg : Config) (socket : Bool) (fw : Firewall) : FirewallProg StartUp := do
  say (logMsg cfg .info "Shutting down")
  say (if socket then logMsg cfg .debug "Raw socket closed" else [])
  let _ ← firewallShutdown cfg fw
  say (logMsg cfg .debug "Packet queue destroyed")
  say (logMsg cfg .info "knockd stopped")
  pure (.exited 1)

/-- `-v` wins over `log_level`. -/
def Options.applyVerbose (o : Options) (cfg : Config) : Config :=
  if o.verbose then { cfg with logLevel := LogLevel.debug.toInt } else cfg

/-- `main` from `firewall_init` on, up to `run_processor`. -/
def startFirewall (version : String) (cfg : Config) (host : Host) : FirewallProg StartUp := do
  let (fw, rc) ← firewallInit cfg host.grantsCalloc .initial
  if rc ≠ 0 then mainCleanup cfg false fw
  else do
    let sniffer := snifferInit cfg host
    say sniffer.2
    match sniffer.1 with
    | none => do
      say (logMsg cfg .error "Could not start packet capture")
      mainCleanup cfg false fw
    | some ifindex =>
      if host.pthreadCreate = false then do
        say (logMsg cfg .error "Could not start the capture thread")
        mainCleanup cfg true fw
      else do
        say (logMsg cfg .info
          ("knockd " ++ version ++ " is running — " ++ toString cfg.knockSeqLen ++
            " knock ports, protecting port " ++ toString cfg.protectedPort))
        pure (.processing cfg ifindex fw)

/-- `main` from `logger_init` on, up to `run_processor`. -/
def startUp (version : String) (o : Options) (host : Host) : FirewallProg StartUp := do
  let loaded := configLoad o.configFile (host.files o.configFile) .default
  say loaded.log
  if loaded.rc ≠ 0 ∧ o.configExplicit then do
    say (logMsg loaded.cfg .error
      ("Could not read the config file given with -c (" ++ o.configFile ++
        ") — refusing to start with the default knock sequence"))
    pure (.exited 1)
  else do
    let cfg := o.applyVerbose loaded.cfg
    say (if o.verbose then logMsg cfg .info "Debug logging enabled (-v overrides log_level)"
      else [])
    say (logMsg cfg .debug ("Packet queue initialized (capacity " ++ toString queueCapacity ++ ")"))
    if host.clientsCalloc = false then do
      say (logMsg cfg .error
        ("Could not allocate a client table for " ++ toString cfg.maxClients ++ " clients"))
      mainCleanup cfg false .initial
    else do
      say (logMsg cfg .debug
        ("Knock state machine ready (" ++ toString cfg.maxClients ++ " client slots)"))
      startFirewall version cfg host

/-- `main`, up to `run_processor`. -/
def main (version : String) (args : List String) (host : Host) : FirewallProg StartUp :=
  match parseArgs .initial args with
  | .options o => if host.euid ≠ 0 then pure (.exited 1) else startUp version o host
  | .help | .version => pure (.exited 0)
  | .missingPath _ | .unknown _ => pure (.exited 1)

end Knockd
