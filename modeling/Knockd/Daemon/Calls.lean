import Knockd.Daemon.Moves
import Knockd.Model.Processor

/-!
# The calls of the main thread, in one piece and step by step

In the daemon the main thread takes `process_event` and `firewall_tick` one step at a
time, and the capture thread and signals come in between. In a service run each call is
one program. The two agree: from where a call begins to where it ends, whatever the
scheduler does, the daemon's tables, grants and rules end up as a run of the call's
program leaves them, the same commands are issued, and the lines of the call are in the
log in their order, with those of the capture thread in between.

## Main definitions

* `commandsOf`, `linesOf` — the commands and the log lines of a trace
* `RunsTo` — a run up to the next time the main thread comes to a place
* `Made` — the daemon has made a call

## Main results

* `processEvent_made`, `firewallTick_made`, `knockerCleanupStale_made` — the calls of
  `run_processor`
-/

namespace Knockd

open Effect.Prog (say)

/-- The iptables commands of a trace, with their outcomes. -/
def commandsOf : List Obs → List (Command × Response) :=
  List.filterMap fun
    | .command c r => some (c, r)
    | _ => none

/-- The log lines of a trace, those of either thread. -/
def linesOf : List Obs → List LogLine :=
  List.flatMap fun
    | .logged lines => lines
    | _ => []

/-- The daemon has come to the end of a call: it is left as the run of the call's program
leaves the service and the rules, and the trace shows the run. -/
structure Made (out : Effect.Prog.Outcome Command Response LogLine Ruleset Service) (d : Daemon)
    (seen : List Obs) : Prop where
  clients : d.clients = out.value.clients
  firewall : d.firewall = out.value.firewall
  rules : d.rules = out.state
  commands : commandsOf seen = out.calls
  lines : out.output.Sublist (linesOf seen)

/-- What the main thread owns is the same in both states. -/
structure SameMain (d d' : Daemon) : Prop where
  clients : d'.clients = d.clients
  firewall : d'.firewall = d.firewall
  rules : d'.rules = d.rules
  processor : d'.processor = d.processor
  lastCleanup : d'.lastCleanup = d.lastCleanup

/-- A run of the daemon up to where the main thread first comes to a place in `Q`. -/
abbrev RunsTo (cfg : Config) (Q : ProcessorPc → Prop) : Daemon → Daemon → List Obs → Prop :=
  Machine.Until (Daemon.step cfg) fun d => Q d.processor

variable {cfg : Config} {d d' : Daemon} {seen : List Obs} {Q : ProcessorPc → Prop}

@[simp] theorem commandsOf_nil : commandsOf [] = [] := rfl

@[simp] theorem linesOf_nil : linesOf [] = [] := rfl

theorem commandsOf_append (l l' : List Obs) :
    commandsOf (l ++ l') = commandsOf l ++ commandsOf l' := List.filterMap_append

theorem linesOf_append (l l' : List Obs) : linesOf (l ++ l') = linesOf l ++ linesOf l' :=
  List.flatMap_append

/-! ### The other thread -/

/-- A step is one of the main thread, or it leaves what the main thread owns alone. -/
theorem step_cases {action : Action} {obs : List Obs} (h : d.step cfg action = some (d', obs)) :
    (∃ input, processorStep cfg input d = some (d', obs)) ∨
      SameMain d d' ∧ commandsOf obs = [] := by
  cases action with
  | signal =>
    cases h
    exact .inr ⟨⟨rfl, rfl, rfl, rfl, rfl⟩, rfl⟩
  | capture recv now =>
    refine .inr ?_
    cases captureStep_move h <;> exact ⟨⟨rfl, rfl, rfl, rfl, rfl⟩, rfl⟩
  | processor input => exact .inl ⟨input, h⟩

/-- The next step of the main thread finds its part of the state as it was. -/
theorem exists_processorStep (h : RunsTo cfg Q d d' seen) (hd : ¬ Q d.processor) :
    ∃ d₁ input d₂ obs rest, SameMain d d₁ ∧ processorStep cfg input d₁ = some (d₂, obs) ∧
      RunsTo cfg Q d₂ d' rest ∧ commandsOf seen = commandsOf obs ++ commandsOf rest ∧
      (linesOf obs ++ linesOf rest).Sublist (linesOf seen) := by
  induction h with
  | here hQ => exact absurd hQ hd
  | @next d d₀ d' action obs seen hpass hstep hrest ih =>
    rw [commandsOf_append, linesOf_append]
    rcases step_cases hstep with ⟨input, hmove⟩ | ⟨hsame, hnone⟩
    · exact ⟨d, input, d₀, obs, seen, ⟨rfl, rfl, rfl, rfl, rfl⟩, hmove, hrest, rfl, .refl _⟩
    · rw [← hsame.processor] at hpass
      obtain ⟨d₁, input, d₂, obs₁, rest, hmain, hmove, huntil, hcommands, hlines⟩ := ih hpass
      refine ⟨d₁, input, d₂, obs₁, rest, ?_, hmove, huntil, ?_, ?_⟩
      · exact ⟨hmain.clients.trans hsame.clients, hmain.firewall.trans hsame.firewall,
          hmain.rules.trans hsame.rules, hmain.processor.trans hsame.processor,
          hmain.lastCleanup.trans hsame.lastCleanup⟩
      · rw [hnone, List.nil_append, hcommands]
      · exact hlines.trans (List.sublist_append_right _ _)

/-! ### A firewall call -/

/-- A firewall call has returned: `d₁` is the state it returned in, `finish` what the main
thread does with the value. -/
structure Returned {α : Type} (out : Effect.Prog.Outcome Command Response LogLine Ruleset α)
    (finish : Daemon → α → Daemon × List Obs) (d d₁ d' : Daemon) (seen : List Obs) : Prop where
  clients : d₁.clients = d.clients
  firewall : d₁.firewall = d.firewall
  rules : d₁.rules = out.state
  after : d' = (finish d₁ out.value).1
  commands : commandsOf seen = out.calls ++ commandsOf (finish d₁ out.value).2
  lines : (out.output ++ linesOf (finish d₁ out.value).2).Sublist (linesOf seen)

section Pending

variable {α : Type} (pending : FirewallProg α → ProcessorPc)
  {finish : Daemon → α → Daemon × List Obs}
  (hpc : ∀ p d input, d.processor = pending p →
    processorStep cfg input d = some (d.advance input.fault p pending (finish d)))
  (hpass : ∀ p, ¬ Q (pending p))

include hpc hpass

/-- The next step of a firewall call in progress. -/
theorem exists_advance {p : FirewallProg α} (hproc : d.processor = pending p)
    (h : RunsTo cfg Q d d' seen) :
    ∃ d₁ fault rest, SameMain d d₁ ∧
      RunsTo cfg Q (d₁.advance fault p pending (finish d₁)).1 d' rest ∧
      commandsOf seen =
        commandsOf (d₁.advance fault p pending (finish d₁)).2 ++ commandsOf rest ∧
      (linesOf (d₁.advance fault p pending (finish d₁)).2 ++ linesOf rest).Sublist
        (linesOf seen) := by
  obtain ⟨d₁, input, d₂, obs, rest, hmain, hstep, huntil, hcommands, hlines⟩ :=
    exists_processorStep h (hproc ▸ hpass p)
  rw [hpc p d₁ input (hmain.processor.trans hproc), Option.some.injEq] at hstep
  refine ⟨d₁, input.fault, rest, hmain, ?_, ?_, ?_⟩
  · rw [hstep]
    exact huntil
  · rw [hstep]
    exact hcommands
  · rw [hstep]
    exact hlines

/-- A firewall call in progress runs its program to the end. -/
theorem exists_returned (hfinish : ∀ d a, Q (finish d a).1.processor) (p : FirewallProg α)
    (hproc : d.processor = pending p) (h : RunsTo cfg Q d d' seen) :
    ∃ faults d₁, Returned (p.run handle faults d.rules) finish d d₁ d' seen := by
  induction p generalizing d seen with
  | ret a =>
    obtain ⟨d₁, fault, rest, hmain, huntil, hcommands, hlines⟩ :=
      exists_advance pending hpc hpass hproc h
    -- the call is over, and the main thread stops right after it
    cases huntil with
    | next hgoes => exact absurd (hfinish d₁ a) hgoes
    | here =>
      rw [commandsOf_nil, List.append_nil] at hcommands
      rw [linesOf_nil, List.append_nil] at hlines
      exact ⟨fun _ => none, d₁, hmain.clients, hmain.firewall, hmain.rules, rfl, hcommands, hlines⟩
  | call c k ih =>
    obtain ⟨d₁, fault, rest, hmain, huntil, hcommands, hlines⟩ :=
      exists_advance pending hpc hpass hproc h
    obtain ⟨faults, d₂, hreturned⟩ := ih _ rfl huntil
    -- this command takes the fault of the step, the rest of the program the others
    refine ⟨fun | 0 => fault | n + 1 => faults n, d₂, ?_⟩
    rw [← hmain.rules]
    exact ⟨hreturned.clients.trans hmain.clients, hreturned.firewall.trans hmain.firewall,
      hreturned.rules, hreturned.after,
      hcommands.trans (congrArg (List.cons _) hreturned.commands), hreturned.lines.trans hlines⟩
  | tell lines p ih =>
    obtain ⟨d₁, fault, rest, hmain, huntil, hcommands, hlines⟩ :=
      exists_advance pending hpc hpass hproc h
    obtain ⟨faults, d₂, hreturned⟩ := ih rfl huntil
    refine ⟨faults, d₂, ?_⟩
    rw [← hmain.rules]
    refine ⟨hreturned.clients.trans hmain.clients, hreturned.firewall.trans hmain.firewall,
      hreturned.rules, hreturned.after, hcommands.trans hreturned.commands, ?_⟩
    have hwritten : linesOf (d₁.advance fault (.tell lines p) pending (finish d₁)).2 = lines :=
      List.append_nil lines
    rw [hwritten] at hlines
    refine List.Sublist.trans ?_ hlines
    rw [Effect.Prog.run, List.append_assoc]
    exact hreturned.lines.append_left lines

end Pending

/-! ### The calls of `run_processor` -/

/-- The part of `process_event` that is left when a sequence is complete. -/
theorem exists_opened {ip : UInt32} (hpc : d.processor = .grant ip)
    (h : RunsTo cfg (· = .drain) d d' seen) :
    ∃ nowOpen faults,
      Made ((do
        let opened ← firewallOpen cfg nowOpen ip d.firewall
        say (if opened.2 < 0 then
          logMsg cfg .error
            (inetNtop ip ++ " completed the sequence but the firewall could not be opened")
          else [])
        pure ⟨d.clients, opened.1⟩ : FirewallProg Service).run handle faults d.rules) d' seen := by
  obtain ⟨d₁, input, d₂, obs, rest, hmain, hstep, huntil, hcommands, hlines⟩ :=
    exists_processorStep h (by rw [hpc]; exact ProcessorPc.noConfusion)
  simp only [processorStep, hmain.processor.trans hpc] at hstep
  cases hstep
  obtain ⟨faults, d₂, hreturned⟩ := exists_returned (.opening ip)
    (fun p d input hproc => by simp only [processorStep, hproc]; rfl)
    (fun p => ProcessorPc.noConfusion) (fun d a => by rfl) _ rfl huntil
  refine ⟨input.now, faults, ?_⟩
  rw [← hmain.firewall, ← hmain.rules, ← hmain.clients, Effect.Prog.run_bind]
  obtain rfl := hreturned.after
  refine ⟨hreturned.clients, rfl, hreturned.rules, ?_, ?_⟩
  · rw [hcommands]
    exact hreturned.commands
  · refine List.Sublist.trans ?_ hlines
    exact hreturned.lines

/-- From the knock in hand to the next look into the queue the main thread makes one call
of `process_event`. -/
theorem processEvent_made {event : KnockEvent} (hpc : d.processor = .handle event)
    (h : RunsTo cfg (· = .drain) d d' seen) :
    ∃ now nowAlloc nowOpen faults,
      Made ((processEvent cfg now nowAlloc nowOpen event ⟨d.clients, d.firewall⟩).run handle faults
        d.rules) d' seen := by
  obtain ⟨d₁, input, d₂, obs, rest, hmain, hstep, huntil, hcommands, hlines⟩ :=
    exists_processorStep h (by rw [hpc]; exact ProcessorPc.noConfusion)
  simp only [processorStep, hmain.processor.trans hpc] at hstep
  rw [hmain.clients] at hstep
  split at hstep
  · rename_i hcomplete
    cases hstep
    obtain ⟨nowOpen, faults, hmade⟩ := exists_opened rfl huntil
    refine ⟨input.now, input.later, nowOpen, faults, ?_⟩
    simp only [hmain.firewall, hmain.rules] at hmade
    simp only [processEvent, hcomplete, ne_eq, not_true_eq_false, if_false, Effect.Prog.say_bind,
      Effect.Prog.run]
    refine ⟨hmade.clients, hmade.firewall, hmade.rules, hcommands.trans hmade.commands, ?_⟩
    refine List.Sublist.trans ?_ hlines
    simp only [linesOf, List.cons_append, List.nil_append, List.flatMap_cons, List.flatMap_nil,
      List.append_nil, List.append_assoc]
    exact (hmade.lines.append_left _).append_left _
  · rename_i hincomplete
    cases hstep
    refine ⟨input.now, input.later, 0, fun _ => none, ?_⟩
    simp only [processEvent, hincomplete, ne_eq, not_false_eq_true, if_true, Effect.Prog.say_bind,
      Effect.Prog.run]
    cases huntil with
    | next hgoes => exact absurd rfl hgoes
    | here =>
      refine ⟨rfl, hmain.firewall, hmain.rules, hcommands, ?_⟩
      rw [linesOf_nil, List.append_nil] at hlines
      exact hlines

/-- From the tick to the sweep the main thread makes one call of `firewall_tick`. -/
theorem firewallTick_made (hpc : d.processor = .tick)
    (h : RunsTo cfg (· = .sweep) d d' seen) :
    ∃ now faults,
      Made (((ServiceCall.tick now).prog cfg ⟨d.clients, d.firewall⟩).run handle faults d.rules) d'
        seen := by
  obtain ⟨d₁, input, d₂, obs, rest, hmain, hstep, huntil, hcommands, hlines⟩ :=
    exists_processorStep h (by rw [hpc]; exact ProcessorPc.noConfusion)
  simp only [processorStep, hmain.processor.trans hpc] at hstep
  cases hstep
  obtain ⟨faults, d₂, hreturned⟩ := exists_returned .ticking
    (fun p d input hproc => by simp only [processorStep, hproc]; rfl)
    (fun p => ProcessorPc.noConfusion) (fun d fw => by rfl) _ rfl huntil
  refine ⟨input.now, faults, ?_⟩
  rw [← hmain.firewall, ← hmain.rules, ← hmain.clients, ServiceCall.prog, Effect.Prog.run_bind]
  obtain rfl := hreturned.after
  exact ⟨hreturned.clients, rfl, hreturned.rules, hcommands.trans hreturned.commands,
    hreturned.lines.trans hlines⟩

/-- The main thread sweeps the client table when the interval since the last sweep is
over, and else leaves it alone. -/
theorem knockerCleanupStale_made (hpc : d.processor = .sweep)
    (h : RunsTo cfg (· = .check) d d' seen) :
    ∃ now later,
      if now - d.lastCleanup ≥ staleScanInterval then
        d'.lastCleanup = now ∧
          Made (((ServiceCall.sweep later).prog cfg ⟨d.clients, d.firewall⟩).run handle
            (fun _ => none) d.rules) d' seen
      else
        d'.lastCleanup = d.lastCleanup ∧ d'.clients = d.clients ∧ d'.firewall = d.firewall ∧
          d'.rules = d.rules ∧ commandsOf seen = [] := by
  obtain ⟨d₁, input, d₂, obs, rest, hmain, hstep, huntil, hcommands, hlines⟩ :=
    exists_processorStep h (by rw [hpc]; exact ProcessorPc.noConfusion)
  simp only [processorStep, hmain.processor.trans hpc, hmain.lastCleanup, hmain.clients] at hstep
  refine ⟨input.now, input.later, ?_⟩
  split at hstep
  · rename_i hdue
    rw [if_pos hdue]
    cases hstep
    cases huntil with
    | next hgoes => exact absurd rfl hgoes
    | here =>
      refine ⟨rfl, rfl, hmain.firewall, hmain.rules, hcommands, ?_⟩
      rw [linesOf_nil, List.append_nil] at hlines
      exact hlines
  · rename_i hearly
    rw [if_neg hearly]
    cases hstep
    cases huntil with
    | next hgoes => exact absurd rfl hgoes
    | here => exact ⟨rfl, rfl, hmain.firewall, hmain.rules, hcommands⟩

end Knockd
