import Knockd.Firewall.Startup
import Knockd.Main.Processes

/-!
# Processes that end before they process anything

A launch can end on the way to `run_processor` for many reasons, before `firewall_init`, in
it, or after it, when there is no raw socket or no capture thread. The code behind `cleanup`
then takes back what was set up so far. Its commands can fail too, and the process can be
killed between any two of them. Whoever started it learns of the failure: from stderr while
there is no logger, and from the log after that.

## Main definitions

* `IsSetUpCommand` — the commands that neither grant nor revoke
* `NothingNew` — the daemon's chain holds what it held before, or nothing
* `Launch.printed`, `HasError` — what is printed apart from the log and the banner, and errors
  in the log

## Main results

* `exited_process_closes` — how such a process ends, and what it leaves
* `failed_launch_reports` — it exits with one exactly if it has said why
-/

namespace Knockd

open Effect.Prog (run_bind)

/-- The command is about no grant. -/
def IsSetUpCommand : Command → Prop
  | .insertGrant _ _ | .deleteGrant _ _ => False
  | _ => True

/-- The daemon's chain, if there is one, is empty or the one that was there before. -/
def NothingNew (before after : Ruleset) : Prop :=
  ∀ chain, after.knockd = some chain → chain = [] ∨ before.knockd = some chain

/-! ### The chain -/

section Chain

variable {cfg : Config} {before rules : Ruleset}

theorem NothingNew.handle {c : Command} (h : NothingNew before rules) (hc : IsSetUpCommand c)
    (fault : Option Fault) : NothingNew before (Knockd.handle c fault rules).2 := by
  rcases handle_cases c fault rules with hsame | hexec
  · rwa [hsame]
  · generalize (Knockd.handle c fault rules).2 = rules' at hexec
    cases hexec with
    | newChain | flush =>
      rintro chain ⟨⟩
      exact .inl rfl
    | checkJump | insertJump | deleteJump => exact h
    | deleteChain => rintro chain ⟨⟩
    | insertGrant | deleteGrant => cases hc

theorem firewallInit_issues (calloc : Bool) (fw : Firewall) :
    (firewallInit cfg calloc fw).Issues IsSetUpCommand := by
  unfold firewallInit
  split
  · trivial
  · refine (runIptables_issues trivial).bind fun _ => (runIptables_issues trivial).bind fun rc => ?_
    split
    · trivial
    · refine (runIptables_issues trivial).bind fun rc => ?_
      split
      · refine (runIptables_issues trivial).bind fun rc => ?_
        split <;> trivial
      · trivial

theorem initThenShutdown_issues (calloc : Bool) :
    (initThenShutdown cfg calloc).Issues IsSetUpCommand := by
  refine (firewallInit_issues calloc .initial).bind fun out => ?_
  refine (firewallShutdown_commands cfg out.1).mono fun c hc => ?_
  rcases hc with rfl | rfl | rfl <;> trivial

end Chain

/-! ### The jump -/

section Jump

variable {cfg : Config} {faults : ℕ → Option Fault} {rules : Ruleset}

/-- A jump that was added is taken back, unless its removal fails. -/
theorem initThenShutdown_input (calloc : Bool)
    (hjump : ∀ call ∈ ((initThenShutdown cfg calloc).run handle faults rules).calls,
      call.1 = .deleteJump → call.2.ok = true) :
    ((initThenShutdown cfg calloc).run handle faults rules).state.input = rules.input := by
  rw [initThenShutdown, run_bind] at hjump ⊢
  simp only [List.mem_append] at hjump
  by_cases hinit : (firewallStart cfg calloc faults rules).2 = 0
  · obtain ⟨added, hstart, -⟩ := firewallStart_ok hinit
    have hfw := congrArg FirewallState.fw hstart
    have hrules := congrArg FirewallState.rules hstart
    simp only [firewallStart, FirewallState.of] at hfw hrules
    simp only [hfw, hrules] at hjump ⊢
    rw [firewallShutdown_unhooked fun call hcall => hjump call (.inr hcall)]
    cases added with
    | true => simp
    | false => rfl
  · -- nothing was added, and there is nothing to shut down
    obtain ⟨chain, hstart, -⟩ := firewallInit_failed hinit
    have hfw := congrArg FirewallState.fw hstart
    have hrules := congrArg FirewallState.rules hstart
    simp only [firewallStart] at hfw hrules
    simp only [hfw, hrules]
    rfl

end Jump

/-- The exit code says whether the process did what its arguments asked for. -/
theorem Launch.exit_code {l : Launch} {rules : Ruleset} {code : ℤ}
    (h : (l.outcome rules).value = .exited code) : code = if l.Asks then 0 else 1 := by
  rcases l.outcome_cases rules with hidle | ⟨o, hstarts⟩
  · cases hidle.exited.symm.trans h
    rfl
  · rcases startFirewall_cases l.version (l.config o) l.host l.faults rules with
      ⟨hexit, -⟩ | ⟨-, -, i, -, hprocessing⟩
    · cases hexit.symm.trans (hstarts.outcome_value.symm.trans h)
      exact (if_neg hstarts.runs.not_asks).symm
    · cases hprocessing.symm.trans (hstarts.outcome_value.symm.trans h)

/-- **A process that ends before it processes anything.** It exits with zero exactly if its
arguments ask for the help or the version, and then has issued no command, and otherwise with
one. Wherever it ends or is killed, the daemon's chain is empty, gone, or untouched; and
`INPUT` is as the process found it, unless the removal of the jump it had added has failed. -/
theorem exited_process_closes (l : Launch) (rules : Ruleset) {code : ℤ}
    (h : (l.outcome rules).value = .exited code) :
    (code = if l.Asks then 0 else 1) ∧ (l.Asks → (l.outcome rules).calls = []) ∧
      (∀ x ∈ (l.outcome rules).state :: (l.outcome rules).points, NothingNew rules x) ∧
      ((∀ call ∈ (l.outcome rules).calls, call.1 = .deleteJump → call.2.ok = true) →
        (l.outcome rules).state.input = rules.input) := by
  have hbefore : NothingNew rules rules := fun _ => .inr
  refine ⟨Launch.exit_code h, ?_⟩
  rcases l.outcome_cases rules with hidle | ⟨o, hstarts⟩
  · refine ⟨fun _ => hidle.calls, ?_, fun _ => by rw [hidle.state]⟩
    rw [hidle.state, hidle.points]
    simpa using hbefore
  · have hasks := hstarts.runs.not_asks
    have hsame := hstarts.outcome_same
    rcases startFirewall_cases l.version (l.config o) l.host l.faults rules with
      ⟨hexit, hover⟩ | ⟨-, -, i, -, hprocessing⟩
    · refine ⟨fun hasked => absurd hasked hasks, ?_, ?_⟩
      · rw [hsame.state, hsame.points, hover.state, hover.points]
        obtain ⟨hpoints, hend⟩ := (initThenShutdown_issues l.host.grantsCalloc).invariant
          (fun c fault x hc (hx : NothingNew rules x) => hx.handle hc fault) l.faults hbefore
        exact List.forall_mem_cons.mpr ⟨hend, hpoints⟩
      · rw [hsame.calls, hsame.state, hover.calls, hover.state]
        exact initThenShutdown_input l.host.grantsCalloc
    · cases hprocessing.symm.trans (hstarts.outcome_value.symm.trans h)

/-- A launch without a raw socket, whose flush on the way out is killed. -/
def noSocketLaunch : Launch :=
  ⟨"1.0", [], { homeHost with socket := .error ⟨"Operation not permitted", true⟩ },
    fun n => if n = 4 then some .killed else none⟩

/-- It has set the firewall up, and takes its jump back all the same. -/
theorem noSocketLaunch_outcome :
    ((match (noSocketLaunch.outcome .empty).value with
        | .exited code => some code
        | _ => none),
      (noSocketLaunch.outcome .empty).calls.map fun call => (call.1, call.2.ok)) =
      (some 1, [(.newChain, true), (.flush, true), (.checkJump, false), (.insertJump, true),
        (.flush, false), (.deleteJump, true), (.deleteChain, true)]) := by
  decide +kernel

theorem noSocketLaunch_exited : (noSocketLaunch.outcome .empty).value = .exited 1 := by
  have hcode := congrArg Prod.fst noSocketLaunch_outcome
  split at hcode
  · rename_i hexit
    rw [hexit, Option.some.inj hcode]
  · cases hcode

theorem exited_process_closes_noSocket :
    (noSocketLaunch.outcome .empty).state.input = [] ∧
      ∀ chain, (noSocketLaunch.outcome .empty).state.knockd = some chain → chain = [] := by
  obtain ⟨-, -, hchain, hinput⟩ :=
    exited_process_closes noSocketLaunch .empty noSocketLaunch_exited
  refine ⟨hinput fun call hcall hjump => ?_, fun chain hsome => ?_⟩
  · have hcalls := (Prod.mk.injEq .. ▸ noSocketLaunch_outcome).2
    have hmem := List.mem_map_of_mem (f := fun call => (call.1, call.2.ok)) hcall
    rw [hcalls, hjump] at hmem
    simpa using hmem
  · rcases hchain _ List.mem_cons_self chain hsome with hempty | hbefore
    · exact hempty
    · cases hbefore

/-! ### A failure is reported -/

/-- What a process prints apart from the log and the banner, which tells of no failure. -/
def Launch.printed (l : Launch) (progname : String) : Printed :=
  match parseArgs .initial l.args with
  | .options _ => if l.host.euid ≠ 0 then notRoot progname else ⟨"", ""⟩
  | parsed => parsed.message progname l.version

/-- There is an error among the lines. -/
def HasError (lines : List LogLine) : Prop := ∃ line ∈ lines, line.level = .error

section Reports

variable {cfg : Config} {host : Host} {faults : ℕ → Option Fault} {rules : Ruleset}
  {lines more : List LogLine}

theorem HasError.left (h : HasError lines) : HasError (lines ++ more) := by
  obtain ⟨line, hline, hlevel⟩ := h
  exact ⟨line, List.mem_append_left _ hline, hlevel⟩

theorem HasError.right (h : HasError more) : HasError (lines ++ more) := by
  obtain ⟨line, hline, hlevel⟩ := h
  exact ⟨line, List.mem_append_right _ hline, hlevel⟩

/-- No level that passes validation is too low for an error. -/
theorem hasError_logMsg (hlevel : 0 ≤ cfg.logLevel) (text : String) :
    HasError (logMsg cfg .error text) := by
  refine ⟨⟨.error, text⟩, ?_, rfl⟩
  simp [logMsg, LogLevel.toInt, hlevel]

/-- `firewall_init` does not fail silently. -/
theorem firewallInit_reports (hlevel : 0 ≤ cfg.logLevel) {calloc : Bool}
    (h : ((firewallInit cfg calloc .initial).run handle faults rules).value.2 ≠ 0) :
    HasError ((firewallInit cfg calloc .initial).run handle faults rules).output := by
  cases calloc with
  | false => exact (hasError_logMsg hlevel _).left
  | true =>
    simp only [firewallInit, Bool.not_true, Bool.false_eq_true, if_false, run_bind] at h ⊢
    refine .right (.right ?_)
    split at h
    · rename_i hflushed
      rw [if_pos hflushed]
      exact (hasError_logMsg hlevel _).left
    · rename_i hflushed
      rw [if_neg hflushed]
      simp only [run_bind] at h ⊢
      refine .right ?_
      split at h
      · rename_i hchecked
        rw [if_pos hchecked]
        simp only [run_bind] at h ⊢
        refine .right ?_
        split at h
        · rename_i hinserted
          rw [if_pos hinserted]
          exact (hasError_logMsg hlevel _).left
        · exact absurd rfl h
      · exact absurd rfl h

/-- Neither does the rest of the way to `run_processor`. -/
theorem startFirewall_reports (version : String) (hlevel : 0 ≤ cfg.logLevel) {code : ℤ}
    (h : ((startFirewall version cfg host).run handle faults rules).value = .exited code) :
    HasError ((startFirewall version cfg host).run handle faults rules).output := by
  simp only [startFirewall, run_bind] at h ⊢
  by_cases hrc : ((firewallInit cfg host.grantsCalloc .initial).run handle faults rules).value.2 = 0
  · refine .right ?_
    simp only [hrc, ne_eq, not_true_eq_false, if_false, Effect.Prog.say_bind,
      Effect.Prog.run] at h ⊢
    refine .right ?_
    cases hsniffer : (snifferInit cfg host).1 with
    | none => exact (hasError_logMsg hlevel _).left
    | some ifindex =>
      cases hthread : host.pthreadCreate with
      | false => exact (hasError_logMsg hlevel _).left
      | true =>
        rw [hsniffer, hthread] at h
        cases h
  · exact (firewallInit_reports hlevel hrc).left

end Reports

namespace Launch

variable {l : Launch} {rules : Ruleset} {code : ℤ}

/-- A process that has loaded its configuration and ends has logged why. -/
theorem Runs.reports {o : Options} (h : l.Runs o) (hexit : (l.outcome rules).value = .exited code) :
    HasError (l.outcome rules).output := by
  have hout : l.outcome rules = (startUp l.version o l.host).run handle l.faults rules := by
    simp only [outcome, main, h.1, h.2, ne_eq, not_true_eq_false, if_false]
  have hloaded : 0 ≤ (l.loaded o).cfg.logLevel := (valid_configLoad (by decide)).level_nonneg
  have hlevel : 0 ≤ (l.config o).logLevel := (l.valid_config o).level_nonneg
  simp only [startUp, Effect.Prog.say_bind, Effect.Prog.run] at hout
  rw [hout] at hexit ⊢
  refine .right ?_
  simp only [loaded] at hloaded
  split at hexit
  · rename_i hrefused
    rw [if_pos hrefused]
    exact (hasError_logMsg hloaded _).left
  · rename_i hrefused
    rw [if_neg hrefused]
    simp only [Effect.Prog.run] at hexit ⊢
    refine .right (.right ?_)
    cases hcalloc : l.host.clientsCalloc with
    | false =>
      rw [if_pos rfl]
      exact (hasError_logMsg hlevel _).left
    | true =>
      rw [hcalloc] at hexit
      exact .right (startFirewall_reports l.version hlevel hexit)

end Launch

/-- **No launch fails silently.** A process that ends before `run_processor` exits with one
exactly if it has printed something on stderr or there is an error in its log, whatever log
level the configuration asks for. -/
theorem failed_launch_reports (l : Launch) (rules : Ruleset) (progname : String) {code : ℤ}
    (h : (l.outcome rules).value = .exited code) :
    code = 1 ↔ (l.printed progname).stderr ≠ "" ∨ HasError (l.outcome rules).output := by
  have hcode := Launch.exit_code h
  cases hargs : parseArgs .initial l.args with
  | options o =>
    have hasks : ¬ l.Asks := by simp [Launch.Asks, hargs]
    rw [if_neg hasks] at hcode
    refine iff_of_true hcode ?_
    by_cases hroot : l.host.euid = 0
    · exact .inr (Launch.Runs.reports ⟨hargs, hroot⟩ h)
    · left
      simp [Launch.printed, hargs, hroot, notRoot]
  | help | version =>
    have hasks : l.Asks := by simp [Launch.Asks, hargs]
    have hout : (l.outcome rules).output = [] := by
      simp only [Launch.outcome, main, hargs]
      rfl
    rw [if_pos hasks] at hcode
    refine iff_of_false (by rw [hcode]; decide) ?_
    simp [Launch.printed, hargs, ParsedArgs.message, hout, HasError]
  | missingPath option | unknown arg =>
    have hasks : ¬ l.Asks := by simp [Launch.Asks, hargs]
    rw [if_neg hasks] at hcode
    refine iff_of_true hcode (.inl ?_)
    simp [Launch.printed, hargs, ParsedArgs.message]

theorem failed_launch_reports_noSocket : HasError (noSocketLaunch.outcome .empty).output := by
  have hreported := (failed_launch_reports noSocketLaunch .empty "knockd"
    noSocketLaunch_exited).mp rfl
  exact hreported.resolve_left fun hprinted => hprinted rfl

end Knockd
