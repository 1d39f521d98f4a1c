import Knockd.Daemon.Calls
import Knockd.Daemon.Access
import Knockd.Firewall.Operator
import Knockd.Firewall.Startup

/-!
# A run of the daemon is a lifetime

The main thread makes its firewall calls one command at a time, with the other thread and
signals in between, and the process may be killed anywhere. To the packet filter this is a
lifetime: `firewall_init`, the calls of the run in their order, `firewall_shutdown`, as one
program after the other, cut off where the run stops. So what is known of lifetimes is
known of the daemon.

The invariant says what is left of the lifetime's program. Which calls are to come is open
as long as the main thread has not begun to shut down, so it speaks of all continuations.

## Main definitions

* `CallKind`, `callKinds` — the firewall calls that can be seen in a run
* `Daemon.remaining` — what is left of a lifetime, given the calls to come
* `InLifetime` — the run so far is the beginning of a lifetime

## Main results

* `DaemonRun.inLifetime` — the invariant, of every run
* `daemon_is_lifetime` — a run of the daemon is a point of a lifetime
* `stopped_daemon_closes` — what a daemon that was stopped leaves
-/

namespace Knockd

open Effect.Prog (Reaches feed bind_assoc ret_bind)

/-- A firewall call, without its clock reading. -/
inductive CallKind
  | open (ip : UInt32)
  | close (ip : UInt32)
  | tick
  deriving DecidableEq, Repr

/-- What a call is, whenever it is made. -/
def FirewallCall.kind : FirewallCall → CallKind
  | .open _ ip => .open ip
  | .close ip => .close ip
  | .tick _ => .tick

/-- The firewall calls that can be seen in a run. -/
def callKinds : List Obs → List CallKind :=
  List.filterMap fun
    | .opened ip => some (.open ip)
    | .ticked => some .tick
    | _ => none

theorem callKinds_append (l l' : List Obs) : callKinds (l ++ l') = callKinds l ++ callKinds l' :=
  List.filterMap_append

/-! ### What is left of a lifetime -/

/-- The main thread has begun to shut the firewall down. -/
def Daemon.isShuttingDown (d : Daemon) : Bool :=
  match d.processor with
  | .shutdown _ | .done => true
  | _ => false

/-- The main thread is between two firewall calls, and can make another one. -/
def Daemon.betweenCalls (d : Daemon) : Bool :=
  match d.processor with
  | .opening .. | .ticking _ | .shutdown _ | .done => false
  | _ => true

/-- What is left of a lifetime when these calls are still to come. -/
def Daemon.remaining (cfg : Config) (d : Daemon) (more : List FirewallCall) :
    FirewallProg Firewall :=
  match d.processor with
  | .opening _ p => p >>= fun out => serve cfg more out.1 >>= firewallShutdown cfg
  | .ticking p => p >>= fun fw => serve cfg more fw >>= firewallShutdown cfg
  | .shutdown p => p
  | .done => pure d.firewall
  | _ => serve cfg more d.firewall >>= firewallShutdown cfg

theorem isShuttingDown_betweenCalls {d : Daemon} (h : d.betweenCalls) :
    d.isShuttingDown = false := by
  unfold Daemon.betweenCalls at h
  unfold Daemon.isShuttingDown
  cases hpc : d.processor <;> simp_all

theorem remaining_betweenCalls {cfg : Config} {d : Daemon} (h : d.betweenCalls)
    (more : List FirewallCall) :
    d.remaining cfg more = serve cfg more d.firewall >>= firewallShutdown cfg := by
  unfold Daemon.betweenCalls at h
  unfold Daemon.remaining
  cases hpc : d.processor <;> simp_all

/-- The run so far is the beginning of a lifetime with these calls so far: whatever calls
are to come, if any can be, it has led from the firewall and the rules at the start to the
rules now, by the commands seen. -/
structure InLifetime (cfg : Config) (st : FirewallState) (d : Daemon) (calls : List FirewallCall)
    (seen : List Obs) : Prop where
  kinds : calls.map FirewallCall.kind = callKinds seen
  reaches : ∃ faults, ∀ more, (d.isShuttingDown → more = []) →
    Reaches handle (serve cfg (calls ++ more) st.fw >>= firewallShutdown cfg) st.rules faults
      (commandsOf seen) (d.remaining cfg more) d.rules

section Steps

variable {cfg : Config} {st : FirewallState} {d d' : Daemon} {calls : List FirewallCall}
  {seen obs : List Obs}

/-- A step that issues no command and leaves the rest of the lifetime as it was. -/
theorem InLifetime.silent (h : InLifetime cfg st d calls seen)
    (hobs : callKinds obs = [] ∧ commandsOf obs = []) (hrules : d'.rules = d.rules)
    (hshut : d'.isShuttingDown = d.isShuttingDown)
    (hrest : ∀ more, d'.remaining cfg more = d.remaining cfg more) :
    InLifetime cfg st d' calls (seen ++ obs) := by
  obtain ⟨faults, hreaches⟩ := h.reaches
  refine ⟨?_, faults, fun more hmore => ?_⟩
  · rw [callKinds_append, hobs.1, List.append_nil]
    exact h.kinds
  · rw [commandsOf_append, hobs.2, List.append_nil, hrest, hrules]
    exact hreaches more (hshut ▸ hmore)

/-- A step from between two calls to between two calls. -/
theorem InLifetime.idle (h : InLifetime cfg st d calls seen)
    (hobs : callKinds obs = [] ∧ commandsOf obs = []) (hrules : d'.rules = d.rules)
    (hfirewall : d'.firewall = d.firewall) (hbefore : d.betweenCalls)
    (hafter : d'.betweenCalls) : InLifetime cfg st d' calls (seen ++ obs) := by
  refine h.silent hobs hrules ?_ fun more => ?_
  · rw [isShuttingDown_betweenCalls hbefore, isShuttingDown_betweenCalls hafter]
  · rw [remaining_betweenCalls hbefore, remaining_betweenCalls hafter, hfirewall]

/-- A step of a call in progress: the program in front of the rest takes it. -/
theorem InLifetime.advance {α : Type} (h : InLifetime cfg st d calls seen)
    {p : FirewallProg α} {fault : Option Fault}
    {next : Effect.Prog.Stepped Command Response LogLine Ruleset α}
    (hstep : p.step handle fault d.rules = .inr next)
    (f : List FirewallCall → α → FirewallProg Firewall)
    (hbefore : ∀ more, d.remaining cfg more = p >>= f more)
    (hafter : ∀ more, d'.remaining cfg more = next.rest >>= f more)
    (hrules : d'.rules = next.state) (hshut : d'.isShuttingDown = d.isShuttingDown) :
    InLifetime cfg st d' calls
      (seen ++ (next.calls.map (fun call => .command call.1 call.2) ++ [.logged next.output])) := by
  have hkinds : callKinds (next.calls.map (fun call => Obs.command call.1 call.2) ++
      [.logged next.output]) = [] := by
    simp [callKinds]
  have hcommands : commandsOf (next.calls.map (fun call => Obs.command call.1 call.2) ++
      [.logged next.output]) = next.calls := by
    simp [commandsOf, List.filterMap_map]
  obtain ⟨faults, hreaches⟩ := h.reaches
  obtain ⟨faults', hmove⟩ := Reaches.of_step hstep
  refine ⟨?_, faults ++ faults', fun more hmore => ?_⟩
  · rw [callKinds_append, hkinds, List.append_nil]
    exact h.kinds
  · rw [commandsOf_append, hcommands, hafter, hrules]
    have hpast := hreaches more (hshut ▸ hmore)
    rw [hbefore] at hpast
    exact hpast.trans (hmove.bind (f more))

/-- A firewall call begins: it is the next call of the lifetime. -/
theorem InLifetime.begin (h : InLifetime cfg st d calls seen)
    (call : FirewallCall) (hobs : callKinds obs = [call.kind] ∧ commandsOf obs = [])
    (hrules : d'.rules = d.rules) (hserving : d.isShuttingDown = false)
    (hrest : ∀ more, d'.remaining cfg more = d.remaining cfg (call :: more)) :
    InLifetime cfg st d' (calls ++ [call]) (seen ++ obs) := by
  obtain ⟨faults, hreaches⟩ := h.reaches
  refine ⟨?_, faults, fun more _ => ?_⟩
  · rw [callKinds_append, hobs.1, List.map_append, h.kinds]
    rfl
  · have hpast := hreaches (call :: more) fun hshut => by rw [hserving] at hshut; cases hshut
    rw [commandsOf_append, hobs.2, List.append_nil, hrest, hrules, List.append_assoc]
    exact hpast

/-- The main thread takes one step further into a lifetime. -/
theorem inLifetime_processorMove {input : ProcessorInput}
    (h : InLifetime cfg st d calls seen) (hmove : ProcessorMove cfg input d d' obs) :
    ∃ calls', InLifetime cfg st d' calls' (seen ++ obs) := by
  cases hmove with
  | grant ip hpc =>
    refine ⟨_, h.begin (.open input.now ip) ⟨rfl, rfl⟩ rfl ?_ fun more => ?_⟩
    · simp only [Daemon.isShuttingDown, hpc]
    · simp only [Daemon.remaining, hpc, serve, FirewallCall.prog, bind_assoc]
  | tick hpc =>
    refine ⟨_, h.begin (.tick input.now) ⟨rfl, rfl⟩ rfl ?_ fun more => ?_⟩
    · simp only [Daemon.isShuttingDown, hpc]
    · simp only [Daemon.remaining, hpc, serve, FirewallCall.prog, bind_assoc,
        Effect.Prog.pure_eq, ret_bind]
  | opening ip p next hpc hstep =>
    refine ⟨_, h.advance hstep (fun more out => serve cfg more out.1 >>= firewallShutdown cfg)
      (fun more => ?_) (fun _ => rfl) rfl ?_⟩
    · simp only [Daemon.remaining, hpc]
    · simp only [Daemon.isShuttingDown, hpc]
  | ticking p next hpc hstep =>
    refine ⟨_, h.advance hstep (fun more fw => serve cfg more fw >>= firewallShutdown cfg)
      (fun more => ?_) (fun _ => rfl) rfl ?_⟩
    · simp only [Daemon.remaining, hpc]
    · simp only [Daemon.isShuttingDown, hpc]
  | shutdown p next hpc hstep =>
    refine ⟨_, h.advance hstep (fun _ fw => pure fw) (fun more => ?_) (fun _ => ?_) rfl ?_⟩
    · simp only [Daemon.remaining, hpc, Effect.Prog.bind_pure]
    · simp only [Daemon.remaining, Effect.Prog.bind_pure]
    · simp only [Daemon.isShuttingDown, hpc]
  | join hpc =>
    -- no call is to come from here on
    obtain ⟨faults, hreaches⟩ := h.reaches
    refine ⟨calls, ?_, faults, fun more hmore => ?_⟩
    · rw [callKinds_append]
      simpa [callKinds] using h.kinds
    · obtain rfl : more = [] := hmore rfl
      have hpast := hreaches [] fun _ => rfl
      rw [commandsOf_append]
      simpa [commandsOf, Daemon.remaining, hpc, serve] using hpast
  | opened ip p fw rc hpc hstep =>
    refine ⟨_, h.silent ⟨rfl, rfl⟩ rfl ?_ fun more => ?_⟩
    · simp only [Daemon.isShuttingDown, hpc]
    · simp only [Daemon.remaining, hpc, Effect.Prog.step_eq_inl hstep, ret_bind]
  | ticked p fw hpc hstep =>
    refine ⟨_, h.silent ⟨rfl, rfl⟩ rfl ?_ fun more => ?_⟩
    · simp only [Daemon.isShuttingDown, hpc]
    · simp only [Daemon.remaining, hpc, Effect.Prog.step_eq_inl hstep, ret_bind]
  | done p fw hpc hstep =>
    refine ⟨_, h.silent ⟨rfl, rfl⟩ rfl ?_ fun more => ?_⟩
    · simp only [Daemon.isShuttingDown, hpc]
    · simp only [Daemon.remaining, hpc, Effect.Prog.step_eq_inl hstep, Effect.Prog.pure_eq]
  | check hpc =>
    refine ⟨_, h.idle ⟨rfl, rfl⟩ rfl rfl (by rw [Daemon.betweenCalls, hpc]) ?_⟩
    cases hrun : d.running <;> rfl
  | take event queue hpc =>
    refine ⟨_, h.idle ⟨rfl, rfl⟩ rfl rfl ?_ rfl⟩
    rcases hpc with hpc | hpc <;> rw [Daemon.betweenCalls, hpc]
  | empty queue hpc =>
    refine ⟨_, h.idle ⟨rfl, rfl⟩ rfl rfl ?_ rfl⟩
    rcases hpc with hpc | hpc <;> rw [Daemon.betweenCalls, hpc]
  | handled event hpc =>
    exact ⟨_, h.idle ⟨rfl, rfl⟩ rfl rfl (by rw [Daemon.betweenCalls, hpc]) rfl⟩
  | completed event hpc =>
    exact ⟨_, h.idle ⟨rfl, rfl⟩ rfl rfl (by rw [Daemon.betweenCalls, hpc]) rfl⟩
  | sweep hpc => exact ⟨_, h.idle ⟨rfl, rfl⟩ rfl rfl (by rw [Daemon.betweenCalls, hpc]) rfl⟩
  | skipSweep hpc => exact ⟨_, h.idle ⟨rfl, rfl⟩ rfl rfl (by rw [Daemon.betweenCalls, hpc]) rfl⟩
  | cleanup hpc => exact ⟨_, h.idle ⟨rfl, rfl⟩ rfl rfl (by rw [Daemon.betweenCalls, hpc]) rfl⟩

/-- Every step of the daemon takes the lifetime on, or leaves it where it is. -/
theorem inLifetime_step {action : Action}
    (h : InLifetime cfg st d calls seen) (hstep : d.step cfg action = some (d', obs)) :
    ∃ calls', InLifetime cfg st d' calls' (seen ++ obs) := by
  cases action with
  | signal =>
    cases hstep
    exact ⟨_, h.silent ⟨rfl, rfl⟩ rfl rfl fun _ => rfl⟩
  | capture recv now =>
    -- the other thread has no part in it
    cases captureStep_move hstep <;> exact ⟨_, h.silent ⟨rfl, rfl⟩ rfl rfl fun _ => rfl⟩
  | processor input => exact inLifetime_processorMove h (processorStep_move hstep)

end Steps

/-! ### Runs -/

/-- What `firewall_init` left at the start of a run. -/
def DaemonRun.begin (r : DaemonRun) : FirewallState :=
  (firewallStart r.cfg r.calloc r.faults r.rules).1

theorem DaemonRun.inLifetime (r : DaemonRun) :
    ∃ calls, InLifetime r.cfg r.begin r.final calls r.seen := by
  have hstart : ∃ calls, InLifetime r.cfg r.begin (.start r.cfg r.ifindex r.begin r.now) calls [] :=
    ⟨[], rfl, [], fun more _ => .refl ..⟩
  simpa using Machine.invariant_of_run
    (P := fun d seen => ∃ calls, InLifetime r.cfg r.begin d calls seen)
    (fun _ _ _ _ _ ⟨_, hlife⟩ hstep => inLifetime_step hlife hstep) hstart r.runs

/-- What `firewall_init` did at the start of a run. -/
def DaemonRun.initOutcome (r : DaemonRun) :
    Effect.Prog.Outcome Command Response LogLine Ruleset (Firewall × ℤ) :=
  (firewallInit r.cfg r.calloc .initial).run handle r.faults r.rules

/-- The calls of a run, and how far into their lifetime it has come. -/
theorem DaemonRun.reaches (r : DaemonRun) : ∃ calls faults,
    calls.map FirewallCall.kind = callKinds r.seen ∧
      Reaches handle (lifetime r.cfg r.calloc calls) r.rules faults
        (r.initOutcome.calls ++ commandsOf r.seen) (r.final.remaining r.cfg []) r.final.rules := by
  obtain ⟨calls, hkinds, faults, hreaches⟩ := r.inLifetime
  obtain ⟨before, hinit⟩ : ∃ before, Reaches handle (firewallInit r.cfg r.calloc .initial) r.rules
      before r.initOutcome.calls (.ret r.initOutcome.value) r.initOutcome.state :=
    Effect.Prog.reaches_run _ r.faults r.rules
  have hzero : r.initOutcome.value.2 = 0 := r.initialised
  refine ⟨calls, before ++ faults, hkinds, ?_⟩
  -- `firewall_init` comes first, and the run goes on where it ended
  have hfirst := hinit.bind fun out => serve r.cfg (if out.2 = 0 then calls else []) out.1 >>=
    fun fw => firewallShutdown r.cfg fw
  simp only [ret_bind] at hfirst
  rw [hzero, if_pos rfl] at hfirst
  have hrest := hreaches [] fun _ => rfl
  rw [List.append_nil] at hrest
  exact hfirst.trans hrest

/-- **A run of the daemon is a lifetime.** Whatever the scheduler, the network and the
clocks do, and wherever the run stops: there is a lifetime of the same configuration, with
the firewall calls of the run in their order, that issues the same commands with the same
outcomes, and the rules are as that lifetime has them after one of its commands. When the
main thread is done, the lifetime is over, and leaves the same rules and the same grants. -/
theorem daemon_is_lifetime (r : DaemonRun) :
    ∃ life : Lifetime, life.cfg = r.cfg ∧ life.calls.map FirewallCall.kind = callKinds r.seen ∧
      r.initOutcome.calls ++ commandsOf r.seen <+: (life.outcome r.rules).calls ∧
      r.final.rules ∈ r.rules :: (life.outcome r.rules).points ∧
      (r.final.processor = .done →
        (life.outcome r.rules).calls = r.initOutcome.calls ++ commandsOf r.seen ∧
        (life.outcome r.rules).state = r.final.rules ∧
        (life.outcome r.rules).value = r.final.firewall) := by
  obtain ⟨calls, faults, hkinds, hreaches⟩ := r.reaches
  refine ⟨⟨r.cfg, r.calloc, calls, feed faults fun _ => none⟩, rfl, hkinds, ?_⟩
  obtain ⟨hvalue, hstate, hcalls, hpoint⟩ := hreaches.run fun _ => none
  refine ⟨⟨_, hcalls.symm⟩, hpoint, fun hdone => ?_⟩
  have hremaining : r.final.remaining r.cfg [] = pure r.final.firewall := by
    simp only [Daemon.remaining, hdone]
  rw [hremaining] at hvalue hstate hcalls
  exact ⟨hcalls.trans (List.append_nil _), hstate, hvalue⟩

/-! ### What a daemon that was stopped leaves -/

section Stopped

variable {cfg : Config} {grants : List Grant} {added : Bool} {rules : Ruleset}
  {faults : ℕ → Option Fault}

/-- The commands of a shutdown. -/
def IsShutdownCommand (c : Command) : Prop := c = .flush ∨ c = .deleteJump ∨ c = .deleteChain

theorem firewallShutdown_commands (cfg : Config) (fw : Firewall) :
    (firewallShutdown cfg fw).Issues IsShutdownCommand := by
  unfold firewallShutdown
  split
  · trivial
  · refine (runIptables_issues (.inl rfl)).bind fun flushed => ?_
    split
    · have hrest : ∀ unhooked : ℤ, (if unhooked ≠ 0 then do
            Effect.Prog.say
              (logMsg cfg .warn ("Could not remove the INPUT jump to " ++ knockdChain))
            Effect.Prog.say (logMsg cfg .info "Removed the firewall rules knockd added")
            pure { fw with grants := none }
          else do
            let _ ← runIptables cfg .deleteChain true
            Effect.Prog.say (logMsg cfg .info "Removed the firewall rules knockd added")
            pure { fw with grants := none } : FirewallProg Firewall).Issues IsShutdownCommand := by
        intro unhooked
        split
        · trivial
        · exact (runIptables_issues (.inr (.inr rfl))).bind fun _ => trivial
      split
      · exact (runIptables_issues (.inr (.inl rfl))).bind hrest
      · exact (runIptables_issues (.inr (.inl rfl))).bind hrest
    · split <;> trivial

/-- Once the flush has succeeded no rule is left in the chain, whatever becomes of the
rest. -/
theorem firewallShutdown_flushed
    (hflush : ∀ call ∈ ((firewallShutdown cfg ⟨some grants, added⟩).run handle faults rules).calls,
      call.1 = .flush → call.2.ok = true) :
    ∀ chain, ((firewallShutdown cfg ⟨some grants, added⟩).run handle faults rules).state.knockd =
      some chain → chain = [] := by
  simp only [firewallShutdown, Effect.Prog.run_bind, runIptables_value, runIptables_state,
    runIptables_calls, ne_eq, Response.code_eq_zero] at hflush ⊢
  have hok : (handle .flush (faults 0) rules).1.ok = true := hflush (.flush, _) (by simp) rfl
  simp only [hok, not_true_eq_false, if_false, handle_flush_of_ok hok, List.length_singleton]
  cases added with
  | false =>
    rintro chain ⟨⟩
    rfl
  | true =>
    simp only [if_true, Effect.Prog.run_bind, runIptables_value, runIptables_state,
      runIptables_calls, Response.code_eq_zero]
    cases hunhook : (handle .deleteJump (faults (1 + 0)) { rules with knockd := some [] }).1.ok with
    | false =>
      simp only [Bool.false_eq_true, not_false_eq_true, if_true, handle_of_not_ok hunhook]
      rintro chain ⟨⟩
      rfl
    | true =>
      obtain ⟨chain, hchain, hdelete⟩ := handle_deleteChain (faults (1 + (1 + 0)))
        { rules with input := rules.input.erase Rule.jump, knockd := some [] }
      simp only [not_true_eq_false, if_false, handle_deleteJump_of_ok hunhook,
        Effect.Prog.run_bind, runIptables_state, List.length_singleton, hdelete]
      rcases hchain with rfl | rfl
      · rintro chain ⟨⟩
        rfl
      · rintro chain ⟨⟩

/-- If the jump the daemon had added could be removed, whatever became of the flush, `INPUT`
has one jump less. -/
theorem firewallShutdown_unhooked
    (hjump : ∀ call ∈ ((firewallShutdown cfg ⟨some grants, added⟩).run handle faults rules).calls,
      call.1 = .deleteJump → call.2.ok = true) :
    ((firewallShutdown cfg ⟨some grants, added⟩).run handle faults rules).state.input =
      if added then rules.input.erase Rule.jump else rules.input := by
  simp only [firewallShutdown, Effect.Prog.run_bind, runIptables_value, runIptables_state,
    runIptables_calls, ne_eq, Response.code_eq_zero] at hjump ⊢
  obtain ⟨chain, hflush, -⟩ := handle_flush (faults 0) rules
  simp only [hflush, List.length_singleton] at hjump ⊢
  -- a flush that failed is only logged
  by_cases hflushed : (handle .flush (faults 0) rules).1.ok = true
  all_goals
    simp only [hflushed, Bool.false_eq_true, not_true_eq_false, not_false_eq_true, if_true,
      if_false, Effect.Prog.say_bind, Effect.Prog.run] at hjump ⊢
    cases added with
    | false => rfl
    | true =>
      simp only [if_true, Effect.Prog.run_bind, runIptables_value, runIptables_state,
        runIptables_calls, Response.code_eq_zero] at hjump ⊢
      have hunhook : (handle .deleteJump (faults (1 + 0)) { rules with knockd := chain }).1.ok =
          true := hjump (.deleteJump, _) (by simp) rfl
      obtain ⟨chain', -, hdelete⟩ := handle_deleteChain (faults (1 + (1 + 0)))
        { rules with input := rules.input.erase Rule.jump, knockd := chain }
      simp only [hunhook, not_true_eq_false, if_false, handle_deleteJump_of_ok hunhook,
        Effect.Prog.run_bind, runIptables_state, List.length_singleton, hdelete]
      rfl

/-- The calls of a lifetime and its shutdown: nothing is left open if the flush succeeded,
and the daemon's jump is gone if its removal did. -/
theorem serve_firewallShutdown (calls : List FirewallCall) (chain : List Rule)
    {out : Effect.Prog.Outcome Command Response LogLine Ruleset Firewall}
    (hout : (serve cfg calls ⟨some grants, added⟩ >>= firewallShutdown cfg).run handle faults
      { rules with knockd := some chain } = out) :
    ((∀ call ∈ out.calls, call.1 = .flush → call.2.ok = true) →
        ∀ chain, out.state.knockd = some chain → chain = []) ∧
      ((∀ call ∈ out.calls, call.1 = .deleteJump → call.2.ok = true) →
        out.state.input = if added then rules.input.erase Rule.jump else rules.input) := by
  obtain ⟨grants', chain', hvalue, hserved⟩ := serve_spec cfg calls grants added faults rules chain
  rw [Effect.Prog.run_bind] at hout
  simp only [hvalue, hserved] at hout
  subst hout
  simp only [List.mem_append]
  exact ⟨fun hflush => firewallShutdown_flushed fun call hcall => hflush call (.inr hcall),
    fun hjump => firewallShutdown_unhooked fun call hcall => hjump call (.inr hcall)⟩

end Stopped

/-- **A daemon that was stopped leaves nothing open.** When the main thread is done: if the
flush of its shutdown succeeded, the daemon's chain is empty or gone, whatever was granted
while it ran; and if the removal of its jump succeeded, or there was none to remove, `INPUT`
is as the daemon found it, also if the flush failed. -/
theorem stopped_daemon_closes (r : DaemonRun) (hdone : r.final.processor = .done) :
    ((∀ call ∈ commandsOf r.seen, call.1 = .flush → call.2.ok = true) →
        ∀ chain, r.final.rules.knockd = some chain → chain = []) ∧
      ((∀ call ∈ commandsOf r.seen, call.1 = .deleteJump → call.2.ok = true) →
        r.final.rules.input = r.rules.input) := by
  obtain ⟨calls, -, faults, hreaches⟩ := r.inLifetime
  obtain ⟨added, hbegin, -⟩ := firewallStart_ok r.initialised
  have hremaining : r.final.remaining r.cfg [] = pure r.final.firewall := by
    simp only [Daemon.remaining, hdone]
  have hwhole := hreaches [] fun _ => rfl
  rw [List.append_nil, hremaining, DaemonRun.begin, hbegin] at hwhole
  obtain ⟨-, hstate, hcalls, -⟩ := hwhole.run fun _ => none
  generalize hout : Effect.Prog.run handle (serve _ _ _ >>= firewallShutdown _) _ _ = out
    at hstate hcalls
  have hseen : out.calls = commandsOf r.seen := hcalls.trans (List.append_nil _)
  have hrules : out.state = r.final.rules := hstate
  rw [← hseen, ← hrules]
  obtain ⟨hclosed, hrestored⟩ := serve_firewallShutdown calls [] hout
  refine ⟨hclosed, fun hjump => (hrestored hjump).trans ?_⟩
  -- the jump that was added is the first of its kind
  cases added with
  | true => simp
  | false => rfl

/-- The daemon grants access after three knocks, and is then told to stop. -/
def grantThenStop : List Action :=
  threeKnocks ++ [.signal, .capture .again 2, .capture .again 2] ++
    List.replicate 17 (processAt 2)

/-- It has granted access, it is done, and no command of its shutdown failed. -/
theorem grantThenStop_done :
    (Daemon.startDefault.run .default grantThenStop).map (fun out =>
      ((match out.1.processor with | .done => true | _ => false),
        (commandsOf out.2).map Prod.fst, (commandsOf out.2).all (·.2.ok))) =
      some (true, [.insertGrant 10 22, .flush, .deleteJump, .deleteChain], true) := by
  decide +kernel

theorem stopped_daemon_closes_grantThenStop : ∃ r : DaemonRun,
    r.final.processor = .done ∧ Command.insertGrant 10 22 ∈ (commandsOf r.seen).map Prod.fst ∧
      (∀ chain, r.final.rules.knockd = some chain → chain = []) ∧
      r.final.rules.input = r.rules.input := by
  obtain ⟨⟨d, seen⟩, hrun, hseen⟩ := Option.map_eq_some_iff.mp grantThenStop_done
  simp only [Prod.mk.injEq, List.all_eq_true] at hseen
  obtain ⟨hpc, hcommands, hok⟩ := hseen
  have hdone : d.processor = .done := by
    split at hpc
    · assumption
    · cases hpc
  obtain ⟨hclosed, hrestored⟩ := stopped_daemon_closes (.ofDefault grantThenStop d seen hrun) hdone
  refine ⟨.ofDefault grantThenStop d seen hrun, hdone, ?_,
    hclosed fun call hcall _ => hok call hcall, hrestored fun call hcall _ => hok call hcall⟩
  change Command.insertGrant 10 22 ∈ (commandsOf seen).map Prod.fst
  rw [hcommands]
  exact List.mem_cons_self

end Knockd
