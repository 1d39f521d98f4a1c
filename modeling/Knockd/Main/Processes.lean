import Knockd.Config.Load
import Knockd.Daemon.Lifetime
import Knockd.Model.Main

/-!
# Whole processes

What `main` does before `run_processor` ties the parts together: the configuration the
daemon runs with is the one of the file the arguments name, it has passed validation, and
the firewall has been initialised under it. So a process that gets as far as
`run_processor` is a run of the daemon, and what holds of those holds of it. A process that
does not get there has done nothing to the packet filter that a lifetime without calls
would not have done. A host on which processes come and go, each with arguments and faults
of its own and each possibly killed anywhere, is therefore in a state that lifetimes can
leave.

## Main definitions

* `Launch` — what a process depends on before `run_processor`
* `AfterProcesses` — the rulesets that any number of processes can leave

## Main results

* `Launch.outcome_cases` — the ways through `main`
* `processing_is_daemonRun` — a process in `run_processor` is a run of the daemon
* `processes_keep_operator_rules` — the operator's rules after any number of processes
-/

namespace Knockd

open Effect.Prog (feed run_bind ret_bind)

/-- What a process depends on before it enters `run_processor`. -/
structure Launch where
  version : String
  args : List String
  host : Host
  faults : ℕ → Option Fault

namespace Launch

/-- The run of `main` up to `run_processor`. -/
def outcome (l : Launch) (rules : Ruleset) :
    Effect.Prog.Outcome Command Response LogLine Ruleset StartUp :=
  (Knockd.main l.version l.args l.host).run handle l.faults rules

/-- The arguments name these options, and the process is root. -/
def Runs (l : Launch) (o : Options) : Prop :=
  parseArgs .initial l.args = .options o ∧ l.host.euid = 0

/-- What `config_load` returns for these options. -/
def loaded (l : Launch) (o : Options) : ConfigOutcome :=
  configLoad o.configFile (l.host.files o.configFile) .default

/-- The configuration these options lead to. -/
def config (l : Launch) (o : Options) : Config := o.applyVerbose (l.loaded o).cfg

/-- The lifetime without calls that the process begins with. -/
def lifetime (l : Launch) (o : Options) : Lifetime :=
  ⟨l.config o, l.host.grantsCalloc, [], l.faults⟩

end Launch

/-! ### The ways through `main` -/

/-- The two runs do the same to the packet filter. -/
structure SameRun {α β : Type} (out : Effect.Prog.Outcome Command Response LogLine Ruleset α)
    (out' : Effect.Prog.Outcome Command Response LogLine Ruleset β) : Prop where
  state : out.state = out'.state
  calls : out.calls = out'.calls
  points : out.points = out'.points

section Run

variable {faults : ℕ → Option Fault} {rules : Ruleset} {cfg : Config} {host : Host}

/-- A cleanup does to the packet filter what `firewall_shutdown` does. -/
theorem mainCleanup_run (socket : Bool) (fw : Firewall) :
    ((mainCleanup cfg socket fw).run handle faults rules).value = .exited 1 ∧
      SameRun ((mainCleanup cfg socket fw).run handle faults rules)
        ((firewallShutdown cfg fw).run handle faults rules) := by
  simp only [mainCleanup, Effect.Prog.say_bind, Effect.Prog.run, run_bind]
  exact ⟨rfl, rfl, List.append_nil _, List.append_nil _⟩

/-- `firewall_init`, and at once `firewall_shutdown`. -/
def initThenShutdown (cfg : Config) (calloc : Bool) : FirewallProg Firewall := do
  let out ← firewallInit cfg calloc .initial
  firewallShutdown cfg out.1

theorem lifetime_nil (cfg : Config) (calloc : Bool) :
    lifetime cfg calloc [] = initThenShutdown cfg calloc := by
  simp only [lifetime, initThenShutdown, ite_self, serve, Effect.Prog.pure_eq, ret_bind]

/-- From `firewall_init` on the process is over again, with the firewall shut down, or is
in `run_processor` with the firewall as `firewall_init` left it. -/
theorem startFirewall_cases (version : String) (cfg : Config) (host : Host)
    (faults : ℕ → Option Fault) (rules : Ruleset) :
    let out := (startFirewall version cfg host).run handle faults rules
    let init := (firewallInit cfg host.grantsCalloc .initial).run handle faults rules
    (out.value = .exited 1 ∧
        SameRun out ((initThenShutdown cfg host.grantsCalloc).run handle faults rules)) ∨
      (init.value.2 = 0 ∧ SameRun out init ∧ ∃ ifindex, (snifferInit cfg host).1 = some ifindex ∧
        out.value = .processing cfg ifindex init.value.1) := by
  simp only [startFirewall, initThenShutdown, run_bind]
  generalize (firewallInit cfg host.grantsCalloc .initial).run handle faults rules = init
  obtain ⟨⟨fw, rc⟩, state, calls, output, points⟩ := init
  -- whichever way it is over, what is left is the cleanup
  have hcleanup : ∀ socket, ((mainCleanup cfg socket fw).run handle
      (fun n => faults (calls.length + n)) state).value = .exited 1 ∧ _ := fun socket =>
    mainCleanup_run socket fw
  by_cases hrc : rc = 0
  · subst hrc
    simp only [ne_eq, not_true_eq_false, if_false, Effect.Prog.say_bind, Effect.Prog.run]
    cases hsniffer : (snifferInit cfg host).1 with
    | none =>
      obtain ⟨hvalue, hstate, hcalls, hpoints⟩ := hcleanup false
      simp only [Effect.Prog.run]
      exact .inl ⟨hvalue, hstate, congrArg _ hcalls, congrArg _ hpoints⟩
    | some ifindex =>
      cases hthread : host.pthreadCreate with
      | false =>
        obtain ⟨hvalue, hstate, hcalls, hpoints⟩ := hcleanup true
        simp only [if_true, Effect.Prog.run]
        exact .inl ⟨hvalue, hstate, congrArg _ hcalls, congrArg _ hpoints⟩
      | true =>
        simp only [Bool.true_eq_false, if_false, Effect.Prog.run]
        exact .inr ⟨trivial, ⟨rfl, List.append_nil _, List.append_nil _⟩, ifindex, rfl, rfl⟩
  · obtain ⟨hvalue, hstate, hcalls, hpoints⟩ := hcleanup false
    simp only [ne_eq, hrc, not_false_eq_true, if_true]
    exact .inl ⟨hvalue, hstate, congrArg _ hcalls, congrArg _ hpoints⟩

end Run

namespace Launch

variable {l : Launch} {rules : Ruleset}

/-- The arguments ask for the help or for the version. -/
def Asks (l : Launch) : Prop :=
  parseArgs .initial l.args = .help ∨ parseArgs .initial l.args = .version

instance (l : Launch) : Decidable l.Asks := inferInstanceAs (Decidable (_ ∨ _))

theorem Runs.not_asks {o : Options} (h : l.Runs o) : ¬ l.Asks := by
  simp [Asks, h.1]

/-- A process that is over before `firewall_init` has issued no command. -/
structure Idle (l : Launch) (rules : Ruleset) : Prop where
  exited : (l.outcome rules).value = .exited (if l.Asks then 0 else 1)
  state : (l.outcome rules).state = rules
  calls : (l.outcome rules).calls = []
  points : (l.outcome rules).points = []

/-- The process has loaded a configuration it may run with, and goes through the rest of
`main` with it. A file named with `-c` could be opened. -/
structure Starts (l : Launch) (rules : Ruleset) (o : Options) : Prop where
  runs : l.Runs o
  opened : o.configExplicit = true → ∃ file, l.host.files o.configFile = .ok file
  outcome_value : (l.outcome rules).value =
    ((startFirewall l.version (l.config o) l.host).run handle l.faults rules).value
  outcome_same : SameRun (l.outcome rules)
    ((startFirewall l.version (l.config o) l.host).run handle l.faults rules)

theorem idle_of_pure
    (h : Knockd.main l.version l.args l.host = pure (.exited (if l.Asks then 0 else 1))) :
    l.Idle rules := by
  have hout : l.outcome rules = ⟨.exited (if l.Asks then 0 else 1), rules, [], [], []⟩ := by
    rw [outcome, h]
    rfl
  exact ⟨by rw [hout], by rw [hout], by rw [hout], by rw [hout]⟩

/-- The ways through `main`. -/
theorem outcome_cases (l : Launch) (rules : Ruleset) : l.Idle rules ∨ ∃ o, l.Starts rules o := by
  cases hargs : parseArgs .initial l.args with
  | options o =>
    have hcode : (if l.Asks then 0 else 1 : ℤ) = 1 := if_neg (by simp [Asks, hargs])
    by_cases hroot : l.host.euid = 0
    · have hout : l.outcome rules = (startUp l.version o l.host).run handle l.faults rules := by
        simp only [outcome, main, hargs, hroot, ne_eq, not_true_eq_false, if_false]
      simp only [startUp, Effect.Prog.say_bind, Effect.Prog.run] at hout
      by_cases hrefuse : (l.loaded o).rc ≠ 0 ∧ o.configExplicit
      · -- refused: the file named with `-c` could not be opened
        refine .inl ?_
        rw [loaded] at hrefuse
        rw [if_pos hrefuse] at hout
        exact ⟨by rw [hout, hcode]; rfl, by rw [hout]; rfl, by rw [hout]; rfl, by rw [hout]; rfl⟩
      · have hopened : o.configExplicit = true → ∃ file, l.host.files o.configFile = .ok file := by
          intro hexplicit
          cases hfile : l.host.files o.configFile with
          | ok file => exact ⟨file, rfl⟩
          | error reason =>
            refine absurd ⟨?_, hexplicit⟩ hrefuse
            simp [loaded, configLoad, hfile]
        rw [loaded] at hrefuse
        rw [if_neg hrefuse] at hout
        simp only [Effect.Prog.run] at hout
        cases hcalloc : l.host.clientsCalloc with
        | false =>
          refine .inl ?_
          rw [hcalloc, if_pos rfl] at hout
          -- the firewall was not initialised, so its shutdown does nothing
          exact ⟨by rw [hout, hcode]; rfl, by rw [hout]; rfl, by rw [hout]; rfl, by rw [hout]; rfl⟩
        | true =>
          refine .inr ⟨o, ⟨hargs, hroot⟩, hopened, ?_, ?_, ?_, ?_⟩
          all_goals
            rw [hout, hcalloc]
            rfl
    · refine .inl (idle_of_pure ?_)
      simp only [main, hargs, ne_eq, hroot, not_false_eq_true, if_true, hcode]
  | help | version | missingPath option | unknown arg =>
    exact .inl (idle_of_pure (by simp [main, Asks, hargs]))

/-- A socket that is ready listens on one interface exactly if one is configured. -/
theorem ifindex_eq_zero_iff {cfg : Config} {host : Host} {ifindex : UInt32}
    (h : (snifferInit cfg host).1 = some ifindex) : ifindex = 0 ↔ cfg.knockInterface = [] := by
  unfold snifferInit at h
  cases hsocket : host.socket with
  | error e =>
    rw [hsocket] at h
    cases h
  | ok fd =>
    simp only [hsocket] at h
    by_cases hinterface : cfg.knockInterface = []
    · rw [if_pos hinterface] at h
      exact iff_of_true (Option.some.inj h).symm hinterface
    · rw [if_neg hinterface] at h
      cases hindex : host.interfaces cfg.knockInterface with
      | error reason =>
        rw [hindex] at h
        cases h
      | ok index =>
        rw [hindex] at h
        exact iff_of_false (Option.some.inj h ▸ index.property) hinterface

/-- What is known of a process that is in `run_processor`. -/
structure Processing (l : Launch) (rules : Ruleset) (o : Options) (ifindex : UInt32)
    (fw : Firewall) : Prop where
  starts : l.Starts rules o
  initialised : (firewallStart (l.config o) l.host.grantsCalloc l.faults rules).2 = 0
  begin : (firewallStart (l.config o) l.host.grantsCalloc l.faults rules).1 =
    ⟨fw, (l.outcome rules).state⟩
  sniffer : (snifferInit (l.config o) l.host).1 = some ifindex
  points : (l.outcome rules).points =
    ((firewallInit (l.config o) l.host.grantsCalloc .initial).run handle l.faults rules).points

/-- A process that is in `run_processor` got there in one way. -/
theorem processing_of_value {cfg : Config} {ifindex : UInt32} {fw : Firewall}
    (h : (l.outcome rules).value = .processing cfg ifindex fw) :
    ∃ o, cfg = l.config o ∧ l.Processing rules o ifindex fw := by
  rcases l.outcome_cases rules with hidle | ⟨o, hstarts⟩
  · cases hidle.exited.symm.trans h
  · refine ⟨o, ?_⟩
    have hvalue := hstarts.outcome_value
    have hsame := hstarts.outcome_same
    rcases startFirewall_cases l.version (l.config o) l.host l.faults rules with
      ⟨hexit, -⟩ | ⟨hzero, hinit, i, hsniffer, hprocessing⟩
    · cases hexit.symm.trans (hvalue.symm.trans h)
    · cases hprocessing.symm.trans (hvalue.symm.trans h)
      refine ⟨rfl, hstarts, hzero, ?_, hsniffer, hsame.points.trans hinit.points⟩
      rw [hsame.state, hinit.state]
      rfl

/-- The configuration of a process has passed validation. -/
theorem valid_config (l : Launch) (o : Options) : (l.config o).Valid := by
  have hvalid : (l.loaded o).cfg.Valid := valid_configLoad (by decide)
  rw [config, Options.applyVerbose]
  split
  · have hlevel : 0 ≤ LogLevel.debug.toInt ∧ LogLevel.debug.toInt ≤ 3 := by decide
    exact { hvalid with level_nonneg := hlevel.1, level_le := hlevel.2 }
  · exact hvalid

/-- The lifetime without calls does to the packet filter what a process that is over has
done. -/
theorem outcome_lifetime (l : Launch) (o : Options) (rules : Ruleset) :
    (l.lifetime o).outcome rules =
      (initThenShutdown (l.config o) l.host.grantsCalloc).run handle l.faults rules := by
  rw [Lifetime.outcome, lifetime, lifetime_nil]

/-- Wherever a process is cut off before `run_processor`, a lifetime without calls has been
cut off at the same rules. -/
theorem points_subset (l : Launch) (rules : Ruleset) :
    (l.outcome rules).points = [] ∨
      ∃ o, (l.outcome rules).points ⊆ ((l.lifetime o).outcome rules).points := by
  rcases l.outcome_cases rules with hidle | ⟨o, hstarts⟩
  · exact .inl hidle.points
  · refine .inr ⟨o, ?_⟩
    rw [hstarts.outcome_same.points, outcome_lifetime]
    rcases startFirewall_cases l.version (l.config o) l.host l.faults rules with
      ⟨-, hsame⟩ | ⟨-, hinit, -⟩
    · rw [hsame.points]
      exact List.Subset.refl _
    · rw [hinit.points, initThenShutdown, run_bind]
      exact List.subset_append_left _ _

end Launch

/-! ### Processes on a host -/

/-- The run of the daemon that a process in `run_processor` is. -/
def Launch.Processing.daemonRun {l : Launch} {rules : Ruleset} {o : Options} {ifindex : UInt32}
    {fw : Firewall} (h : l.Processing rules o ifindex fw) {now : ℤ} {actions : List Action}
    {d : Daemon} {seen : List Obs}
    (hrun : (Daemon.start (l.config o) ifindex ⟨fw, (l.outcome rules).state⟩ now).run (l.config o)
      actions = some (d, seen)) : DaemonRun where
  cfg := l.config o
  valid := l.valid_config o
  calloc := l.host.grantsCalloc
  faults := l.faults
  rules := rules
  initialised := h.initialised
  ifindex := ifindex
  now := now
  actions := actions
  final := d
  seen := seen
  runs := by rw [h.begin]; exact hrun

/-- **A process in `run_processor` is a run of the daemon.** When `main` gets that far,
whatever its arguments, the files and everything else it asked for: it is root; the
configuration is that of the file the arguments name, with debug logging if they ask for it,
and a file named with `-c` could be opened; the interface the configuration names, if any,
exists; and whatever is scheduled from there on is a run of the daemon under that
configuration, on the ruleset the process found. -/
theorem processing_is_daemonRun (l : Launch) (rules : Ruleset) {cfg : Config} {ifindex : UInt32}
    {fw : Firewall} (h : (l.outcome rules).value = .processing cfg ifindex fw) {now : ℤ}
    {actions : List Action} {d : Daemon} {seen : List Obs}
    (hrun : (Daemon.start cfg ifindex ⟨fw, (l.outcome rules).state⟩ now).run cfg actions =
      some (d, seen)) :
    (∃ o, parseArgs .initial l.args = .options o ∧ l.host.euid = 0 ∧
      cfg = o.applyVerbose (configLoad o.configFile (l.host.files o.configFile) .default).cfg ∧
      (o.configExplicit = true → ∃ file, l.host.files o.configFile = .ok file)) ∧
    (ifindex = 0 ↔ cfg.knockInterface = []) ∧
    ∃ r : DaemonRun, r.cfg = cfg ∧ r.rules = rules ∧ r.ifindex = ifindex ∧ r.final = d ∧
      r.seen = seen := by
  obtain ⟨o, rfl, hprocessing⟩ := Launch.processing_of_value h
  obtain ⟨⟨hargs, hroot⟩, hopened, -, -⟩ := hprocessing.starts
  exact ⟨⟨o, hargs, hroot, rfl, hopened⟩, Launch.ifindex_eq_zero_iff hprocessing.sniffer,
    hprocessing.daemonRun hrun, rfl, rfl, rfl, rfl, rfl⟩

/-- A host with one interface and a configuration file for it, where everything works. -/
def homeHost : Host where
  euid := 0
  files := fun path =>
    if path = "eth0.conf" then .ok ⟨some 384, "interface = eth0\n".toList, none⟩
    else .error "No such file or directory"
  clientsCalloc := true
  grantsCalloc := true
  socket := .ok 3
  recvTimeout := none
  interfaces := fun name =>
    if name = "eth0".toList then .ok ⟨2, by decide⟩ else .error "No such device"
  pthreadCreate := true

/-- A process on it that names the file. -/
def homeLaunch : Launch := ⟨"1.0", ["-v", "-c", "eth0.conf"], homeHost, fun _ => none⟩

theorem processing_is_daemonRun_homeLaunch : ∃ cfg ifindex fw,
    (homeLaunch.outcome .empty).value = .processing cfg ifindex fw ∧
      (ifindex = 0 ↔ cfg.knockInterface = []) ∧
      ∃ r : DaemonRun, r.cfg = cfg ∧ r.cfg.logLevel = 3 ∧ r.cfg.knockInterface = "eth0".toList := by
  have hvalue : (match (homeLaunch.outcome .empty).value with
      | .processing cfg _ _ => decide (cfg.logLevel = 3 ∧ cfg.knockInterface = "eth0".toList)
      | .exited _ => false) = true := by decide +kernel
  cases hstart : (homeLaunch.outcome .empty).value with
  | exited code =>
    rw [hstart] at hvalue
    cases hvalue
  | processing cfg ifindex fw =>
    rw [hstart] at hvalue
    obtain ⟨hlevel, hinterface⟩ := of_decide_eq_true hvalue
    have hrun : (Daemon.start cfg ifindex ⟨fw, (homeLaunch.outcome .empty).state⟩ 0).run cfg [] =
        some (_, []) := rfl
    obtain ⟨-, hifindex, r, rfl, -⟩ := processing_is_daemonRun homeLaunch .empty hstart hrun
    exact ⟨_, _, _, rfl, hifindex, r, rfl, hlevel, hinterface⟩

/-- The rulesets that any number of processes can leave, one after the other: each may be
over or killed on its way to `run_processor`, or killed anywhere from there on, or have been
stopped. -/
inductive AfterProcesses (rules₀ : Ruleset) : Ruleset → Prop
  | start : AfterProcesses rules₀ rules₀
  | launched (l : Launch) {rules rules' : Ruleset} (h : AfterProcesses rules₀ rules)
      (hcut : rules' ∈ rules :: (l.outcome rules).points) : AfterProcesses rules₀ rules'
  | ran (l : Launch) {rules : Ruleset} (h : AfterProcesses rules₀ rules) {cfg : Config}
      {ifindex : UInt32} {fw : Firewall}
      (hvalue : (l.outcome rules).value = .processing cfg ifindex fw) {now : ℤ}
      {actions : List Action} {d : Daemon} {seen : List Obs}
      (hrun : (Daemon.start cfg ifindex ⟨fw, (l.outcome rules).state⟩ now).run cfg actions =
        some (d, seen)) : AfterProcesses rules₀ d.rules

/-- To the packet filter, processes are lifetimes. -/
theorem AfterProcesses.afterLifetimes {rules₀ rules : Ruleset} (h : AfterProcesses rules₀ rules) :
    AfterLifetimes rules₀ rules := by
  induction h with
  | start => exact .start
  | @launched l rules _ _ hcut ih =>
    rcases l.points_subset rules with hnone | ⟨o, hsubset⟩
    · rw [hnone, List.mem_singleton] at hcut
      exact hcut ▸ ih
    · exact .next (l.lifetime o) ih (List.cons_subset_cons _ hsubset hcut)
  | @ran l rules _ _ _ _ hvalue _ _ _ _ hrun ih =>
    obtain ⟨o, rfl, hprocessing⟩ := Launch.processing_of_value hvalue
    obtain ⟨calls, faults, -, hreaches⟩ := (hprocessing.daemonRun hrun).reaches
    obtain ⟨-, -, -, hpoint⟩ := hreaches.run fun _ => none
    exact .next ⟨l.config o, l.host.grantsCalloc, calls, feed faults fun _ => none⟩ ih hpoint

/-- **Processes keep the operator's rules.** After any number of processes, whatever their
arguments, their configuration files and the faults they met, and wherever each was over,
killed or stopped: `INPUT` without the daemon's jumps and every chain that is not the
daemon's are what they were. The next process that gets to `run_processor` gets there with
the daemon's chain empty, whatever a killed one had left in it, with `INPUT` jumping to it,
and with at most one jump more than it found. -/
theorem processes_keep_operator_rules (rules₀ rules : Ruleset) (h : AfterProcesses rules₀ rules) :
    rules.operatorInput = rules₀.operatorInput ∧ rules.others = rules₀.others ∧
      ∀ (l : Launch) cfg ifindex fw, (l.outcome rules).value = .processing cfg ifindex fw →
        (l.outcome rules).state.knockd = some [] ∧ Rule.jump ∈ (l.outcome rules).state.input ∧
        ((l.outcome rules).state.input = rules.input ∨
          (l.outcome rules).state.input = Rule.jump :: rules.input) := by
  obtain ⟨hinput, hothers⟩ := h.afterLifetimes.operatorInput
  refine ⟨hinput, hothers, fun l cfg ifindex fw hvalue => ?_⟩
  obtain ⟨o, -, hprocessing⟩ := Launch.processing_of_value hvalue
  obtain ⟨added, hstart, hjump⟩ := firewallStart_ok hprocessing.initialised
  have hstate := congrArg FirewallState.rules (hprocessing.begin.symm.trans hstart)
  dsimp only at hstate
  rw [hstate]
  refine ⟨rfl, ?_⟩
  cases added with
  | true => exact ⟨List.mem_cons_self, .inr rfl⟩
  | false => exact ⟨hjump rfl, .inl rfl⟩

/-- A process on the default configuration. -/
def plainLaunch : Launch := ⟨"1.0", [], homeHost, fun _ => none⟩

/-- On the leftovers of an earlier daemon a process grants access and is killed; the next
one finds the grant and gets to `run_processor`. -/
theorem processes_keep_operator_rules_killed : ∃ rules,
    rules.knockd = some [Rule.grant 10 22] ∧
      rules.operatorInput = leftoverRules.operatorInput ∧
      (plainLaunch.outcome rules).state.knockd = some [] := by
  have hgranted : (match (plainLaunch.outcome leftoverRules).value with
      | .processing cfg ifindex fw =>
        ((Daemon.start cfg ifindex ⟨fw, (plainLaunch.outcome leftoverRules).state⟩ 0).run cfg
          threeKnocks).map fun out => out.1.rules
      | .exited _ => none) = some { leftoverRules with knockd := some [Rule.grant 10 22] } := by
    decide +kernel
  cases hstart : (plainLaunch.outcome leftoverRules).value with
  | exited code =>
    rw [hstart] at hgranted
    cases hgranted
  | processing cfg ifindex fw =>
    rw [hstart] at hgranted
    obtain ⟨⟨d, seen⟩, hrun, hrules⟩ := Option.map_eq_some_iff.mp hgranted
    obtain ⟨hinput, -, hnext⟩ := processes_keep_operator_rules leftoverRules d.rules
      (.ran plainLaunch .start hstart hrun)
    change d.rules = _ at hrules
    have hagain : (match (plainLaunch.outcome d.rules).value with
        | .processing .. => true
        | .exited _ => false) = true := by
      rw [hrules]
      decide +kernel
    refine ⟨d.rules, by rw [hrules], hinput, ?_⟩
    cases hvalue : (plainLaunch.outcome d.rules).value with
    | exited code =>
      rw [hvalue] at hagain
      cases hagain
    | processing cfg' ifindex' fw' => exact (hnext plainLaunch _ _ _ hvalue).1

end Knockd
