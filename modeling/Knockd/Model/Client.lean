import Knockd.Model.ConfigFile
import Knockd.Semantics.Script
import Knockd.Semantics.Shell

/-!
# The client

`knock_client.sh` is what a user runs to get in: it knocks at the ports it is given, one
after the other, and may open an SSH session behind that. It runs under `set -euo pipefail`,
so whatever it runs may end it, the lines it prints included, unless it looks at the status
itself: it does so with the knocks, with `ssh`, and with `command -v`.

It is a script in the sense of `Shell.Script`. Its commands are everything that can fail: the
programs it runs, the lines it prints, and the here-string that it reads a list of ports
from. What they answer is up to the host. Of the texts, the help is left out, and so are the
colours that the script uses on a terminal and the complaint of `[` about an operand that is
no number. What the shell itself needs is taken for granted: that it is one for which an empty
array is not an unset variable, that it can start processes, and that no signal ends it other
than through a command of its own.

## Main definitions

* `ClientOptions`, `clientArgs` — the arguments
* `ClientOptions.complaint` — the validation
* `ClientCommand` — what the script runs, `ClientCommand.isGuarded` what may fail
* `knockTool`, `sendSequence`, `connect` — the parts of the script
* `knockClient` — the whole script
-/

namespace Knockd

open Shell (Script must)

/-! ### Arguments -/

/-- The variables that the arguments set. -/
structure ClientOptions where
  target : String
  knockPorts : List (List Char)
  delay : List Char
  sshPort : List Char
  doSsh : Bool
  doUdp : Bool
  sshUser : String
  deriving DecidableEq

/-- Their initial values. -/
def ClientOptions.initial (target user : String) : ClientOptions where
  target := target
  knockPorts := ["7000".toList, "8000".toList, "9000".toList]
  delay := "0.5".toList
  sshPort := "22".toList
  doSsh := false
  doUdp := false
  sshUser := user

/-- `IFS=',' read -ra KNOCK_PORTS <<< "$2"`: the fields of the first line. -/
def readPorts (list : List Char) : List (List Char) :=
  Shell.fields (· = ',') (list.takeWhile (· ≠ '\n'))

/-- The word starts with a dash. -/
def isDashed (word : String) : Bool := word.toList.head? = some '-'

/-- How reading the arguments ends: at their end, with the help, or in `die`. -/
inductive ClientArgs
  | options (o : ClientOptions)
  | usage
  | die (message : String)
  deriving DecidableEq

/-- What the loop over the arguments does: the lists it hands to `read`, and how it ends. -/
structure ClientParsed where
  lists : List String
  result : ClientArgs
  deriving DecidableEq

/-- The loop over the arguments behind the server address. -/
def clientOptions : ClientOptions → List String → ClientParsed
  | o, [] => ⟨[], .options o⟩
  | o, arg :: rest =>
    if arg = "-p" ∨ arg = "--ports" then
      match rest with
      | [] => ⟨[], .die (arg ++ " needs a comma-separated list of ports.")⟩
      | list :: rest =>
        let parsed := clientOptions { o with knockPorts := readPorts list.toList } rest
        { parsed with lists := list :: parsed.lists }
    else if arg = "-d" ∨ arg = "--delay" then
      match rest with
      | [] => ⟨[], .die (arg ++ " needs a delay in seconds.")⟩
      | delay :: rest => clientOptions { o with delay := delay.toList } rest
    else if arg = "-P" ∨ arg = "--ssh-port" then
      match rest with
      | [] => ⟨[], .die (arg ++ " needs a port number.")⟩
      | port :: rest => clientOptions { o with sshPort := port.toList } rest
    else if arg = "--ssh" then
      -- an optional username may follow, but not another option
      if rest.head?.any (!isDashed ·) then
        match rest with
        | [] => ⟨[], .options { o with doSsh := true }⟩
        | user :: rest => clientOptions { o with doSsh := true, sshUser := user } rest
      else clientOptions { o with doSsh := true } rest
    else if arg = "--udp" then clientOptions { o with doUdp := true } rest
    else if arg = "-h" ∨ arg = "--help" then ⟨[], .usage⟩
    else ⟨[], .die ("Unknown option: " ++ arg)⟩

/-- All arguments. -/
def clientArgs (user : String) : List String → ClientParsed
  | [] => ⟨[], .usage⟩
  | first :: rest =>
    if first = "-h" ∨ first = "--help" then ⟨[], .usage⟩
    else if isDashed first then
      ⟨[], .die ("First argument must be the server address, not " ++ first ++ ".")⟩
    else clientOptions (.initial first user) rest

/-! ### Validation -/

/-- What is wrong with a port. -/
def portComplaint (port : List Char) : Option String :=
  if port = [] ∨ port.any (!Char.isDigit ·) then
    some ("Not a port number: '" ++ String.ofList port ++ "'")
  else
    match Shell.integer? port with
    -- both comparisons fail, and the script goes on
    | none => none
    | some n =>
      if n < 1 ∨ n > 65535 then some ("Port out of range: " ++ String.ofList port) else none

/-- What is wrong with the options. -/
def ClientOptions.complaint (o : ClientOptions) : Option String :=
  if o.knockPorts.length < 2 then some "A knock sequence needs at least 2 ports."
  else
    match (o.knockPorts ++ [o.sshPort]).findSome? portComplaint with
    | some message => some message
    | none =>
      if o.delay = [] ∨ o.delay.any (fun c => !(c.isDigit || c = '.')) then
        some ("Not a delay in seconds: '" ++ String.ofList o.delay ++ "'")
      else none

/-! ### Commands -/

/-- The programs that can send a knock. -/
inductive KnockTool | nc | ncat | nmap
  deriving DecidableEq, Repr

/-- Their names. -/
def KnockTool.name : KnockTool → String
  | .nc => "nc"
  | .ncat => "ncat"
  | .nmap => "nmap"

/-- What the script runs: `id -un`, the here-string of `read`, `cat` for the help, `printf` to
stdout and to stderr, `command -v`, a knock, `sleep` and `ssh`. -/
inductive ClientCommand
  | idName
  | hereString (text : String)
  | help
  | print (text : String)
  | complain (text : String)
  | find (tool : KnockTool)
  | knock (tool : KnockTool) (udp : Bool) (target : String) (port : List Char)
  | sleep (seconds : List Char)
  | ssh (port : List Char) (user target : String)
  deriving DecidableEq

/-- The script looks at the status of this command, or ignores it, and does not end with it. -/
def ClientCommand.isGuarded : ClientCommand → Bool
  | .find _ | .knock .. | .ssh .. => true
  | _ => false

/-- Is this a knock? -/
def ClientCommand.isKnock : ClientCommand → Bool
  | .knock .. => true
  | _ => false

/-- A part of the script, up to its end. -/
abbrev ClientScript := Script ClientCommand

namespace Client

/-- `say`, and the rest of the script. -/
def say (text : String) (rest : ClientScript) : ClientScript := must (.print (text ++ "\n")) rest

/-- `warn`, and the rest of the script. -/
def warn (text : String) (rest : ClientScript) : ClientScript :=
  must (.complain (text ++ "\n")) rest

/-- `die`. -/
def die (message : String) : ClientScript := must (.complain (message ++ "\n")) (.ret 1)

end Client

open Client (say warn die)

/-! ### Knocking -/

/-- The choice of `KNOCK_TOOL`, and what follows it. -/
def knockTool (o : ClientOptions) (rest : KnockTool → ClientScript) : ClientScript :=
  .call (.find .nc) fun nc =>
    if nc.status = 0 then rest .nc
    else .call (.find .ncat) fun ncat =>
      if ncat.status = 0 then rest .ncat
      else .call (.find .nmap) fun nmap =>
        if nmap.status = 0 then
          warn "Using nmap: install nc (nmap-ncat) for more reliable knocking." <|
            if o.doUdp then die "UDP knocking with nmap needs root. Install nc or ncat instead."
            else rest .nmap
        else
          die ("Need nc or ncat. Install with:\n  sudo dnf install nmap-ncat   # Fedora/RHEL\n" ++
            "  sudo apt install netcat-openbsd  # Debian/Ubuntu\n" ++
            "  brew install netcat          # macOS")

/-- `send_knock`. -/
def sendKnock (o : ClientOptions) (tool : KnockTool) (port : List Char) : ClientCommand :=
  .knock tool o.doUdp o.target port

/-- The loop over the ports, from `step` on, and the rest of the script. -/
def sendSequence (o : ClientOptions) (tool : KnockTool) (total : ℕ) :
    ℕ → List (List Char) → ClientScript → ClientScript
  | _, [], rest => rest
  | step, port :: ports, rest =>
    must (.print ("  [" ++ toString (step + 1) ++ "/" ++ toString total ++ "] port " ++
      String.ofList port)) <|
      -- whatever becomes of the knock, the script goes on
      .call (sendKnock o tool port) fun _ =>
        must (.print " sent\n") <|
          if step + 1 < total then
            must (.sleep o.delay) (sendSequence o tool total (step + 1) ports rest)
          else sendSequence o tool total (step + 1) ports rest

/-- What is said when `ssh` fails. -/
def sshFailed (o : ClientOptions) : String :=
  "SSH failed. Either the sequence was not accepted, the access\nwindow had already closed, " ++
    "or sshd is not running on port " ++ String.ofList o.sshPort ++
    ".\nCheck the server: sudo journalctl -u knockd -n 20"

/-- The end of the script: the SSH session, or how to open one. -/
def connect (o : ClientOptions) : ClientScript :=
  if o.doSsh then
    say ("  connecting to " ++ o.sshUser ++ "@" ++ o.target ++ "...") <|
    say "" <|
    -- lets the server process the last knock
    must (.sleep ['1']) <|
    .call (.ssh o.sshPort o.sshUser o.target) fun session =>
      if session.status = 0 then say "" <| say "  session ended" <| .ret 0
      else say "" <| warn (sshFailed o) <| .ret 1
  else
    say "  connect now — the window is short:" <|
    say "" <|
    say ("    ssh " ++ (if o.sshPort = "22".toList then "" else
      "-p " ++ String.ofList o.sshPort ++ " ") ++ o.sshUser ++ "@" ++ o.target) <|
    say "" <|
    .ret 0

/-- The script from the first line about the knocks on. -/
def knockAndConnect (o : ClientOptions) (tool : KnockTool) : ClientScript :=
  say "" <|
  say ("knocking " ++ o.target) <|
  say ("  tool      " ++ tool.name ++ " (" ++ (if o.doUdp then "UDP" else "TCP SYN") ++ ")") <|
  say ("  sequence  " ++ toString o.knockPorts.length ++ " ports, " ++ String.ofList o.delay ++
    "s apart") <|
  say "" <|
  sendSequence o tool o.knockPorts.length 0 o.knockPorts <|
  say "" <|
  say "  sequence sent" <|
  say "" <|
  connect o

/-! ### The script -/

/-- The script behind the loop over the arguments. -/
def ClientArgs.script : ClientArgs → ClientScript
  | .usage => must .help (.ret 0)
  | .die message => Client.die message
  | .options o =>
    match o.complaint with
    | some message => Client.die message
    | none => knockTool o (knockAndConnect o)

/-- The script behind the defaults. The loop over the arguments does nothing that can fail but
`read`. -/
def clientScript (user : String) (args : List String) : ClientScript :=
  (clientArgs user args).lists.foldr (fun list rest => must (.hereString list) rest)
    (clientArgs user args).result.script

/-- `knock_client.sh`, with the value of `USER`, empty if there is none. -/
def knockClient (user : String) (args : List String) : ClientScript :=
  if user = "" then
    .call .idName fun name => if name.status = 0 then clientScript name.output args else
      .ret name.status
  else clientScript user args

end Knockd
