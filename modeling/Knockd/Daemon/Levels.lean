import Knockd.Daemon.Access

/-!
# The log level only quiets the log

`LOG_LEVEL` is read in two places, by `log_msg` and by `run_iptables`, which does not put
the text of a command together when nobody is going to see it. So two daemons that differ
in the level do the same at every step, and what the quieter one writes is what the other
one writes, without the lines above its level. The level is thus no way to change what the
daemon does, and `-v` no risk.

The two daemons are compared through a map: `Daemon.quiet` takes the state of the louder
one to that of the quieter one. It changes nothing but the output that is still to come
from a firewall call in progress.

## Main definitions

* `Config.withLevel` — the configuration at another level
* `shown` — the lines that are left at a level
* `Daemon.quiet`, `Obs.quiet` — a state and an observation, seen at a level

## Main results

* `step_quiet` — one step of the two daemons
* `daemon_quiet` — a whole run, from the start
-/

namespace Knockd

open Effect (Prog)
open Effect.Prog (mapOutput mapOutput_bind mapOutput_say mapOutput_issue)

/-- The configuration at another log level. -/
abbrev Config.withLevel (cfg : Config) (level : ℤ) : Config := { cfg with logLevel := level }

/-- The lines that are left at a level. -/
def shown (level : ℤ) (lines : List LogLine) : List LogLine :=
  lines.filter fun line => line.level.toInt ≤ level

section Lines

variable {cfg : Config} {l l' : ℤ}

@[simp] theorem shown_nil (level : ℤ) : shown level [] = [] := rfl

theorem shown_append (level : ℤ) (lines more : List LogLine) :
    shown level (lines ++ more) = shown level lines ++ shown level more :=
  List.filter_append ..

theorem shown_flatMap {α : Type} (level : ℤ) (xs : List α) (f : α → List LogLine) :
    shown level (xs.flatMap f) = xs.flatMap fun x => shown level (f x) := by
  induction xs with
  | nil => rfl
  | cons x xs ih => rw [List.flatMap_cons, shown_append, ih, List.flatMap_cons]

/-- `log_msg` at the lower level writes what is left of the line. -/
theorem logMsg_withLevel (h : l ≤ l') (level : LogLevel) (text : String) :
    logMsg (cfg.withLevel l) level text = shown l (logMsg (cfg.withLevel l') level text) := by
  unfold logMsg shown
  by_cases hlow : level.toInt > l
  · by_cases hhigh : level.toInt > l'
    · simp [hlow, hhigh]
    · simp [hlow, hhigh]
  · have hhigh : ¬ level.toInt > l' := by omega
    simp [hlow, hhigh, not_lt.mp hlow]

end Lines

/-! ### The state machine -/

/-- An outcome as it is logged at a level. -/
def EntryOutcome.quiet (level : ℤ) (out : EntryOutcome) : EntryOutcome :=
  { out with log := shown level out.log }

/-- An outcome as it is logged at a level. -/
def Processed.quiet (level : ℤ) (out : Processed) : Processed :=
  { out with log := shown level out.log }

section Knocks

variable {cfg : Config} {l l' : ℤ}

theorem processEntry_withLevel (h : l ≤ l') (now : ℤ) (c : KnockClient) (ip : UInt32)
    (port : UInt16) :
    processEntry (cfg.withLevel l) now c ip port =
      (processEntry (cfg.withLevel l') now c ip port).quiet l := by
  unfold processEntry
  simp only [logMsg_withLevel h]
  have hexpiry : ∀ (expired : Bool) (lines : List LogLine),
      (if expired then shown l lines else []) = shown l (if expired then lines else []) := by
    intro expired lines
    cases expired <;> rfl
  split
  · rfl
  · -- which of the branches is taken does not depend on what is logged before it
    rw [hexpiry]
    generalize (if decide (0 < c.currentStep ∧ now - c.lastKnock > cfg.knockWindow) then 0
      else c.currentStep) = step
    generalize (if decide (0 < c.currentStep ∧ now - c.lastKnock > cfg.knockWindow) then _
      else []) = expiryLog
    by_cases hport : cfg.knockSequence[step]? = some port
    · by_cases hlast : ((step + 1 : ℕ) : ℤ) ≥ cfg.knockSeqLen
      · simp only [hport, hlast, if_true, EntryOutcome.quiet]
      · simp only [hport, hlast, if_true, if_false, EntryOutcome.quiet, shown_append]
    · by_cases hfirst : cfg.knockSequence[0]? = some port
      · simp only [hport, hfirst, if_true, if_false, EntryOutcome.quiet, shown_append]
      · simp only [hport, hfirst, if_false, EntryOutcome.quiet, shown_append]

theorem allocClient_withLevel (h : l ≤ l') (now : ℤ) (t : ClientTable) :
    allocClient (cfg.withLevel l) now t =
      Prod.map id (shown l) (allocClient (cfg.withLevel l') now t) := by
  unfold allocClient
  cases allocScan t 0 none with
  | inl i => rfl
  | inr oldest =>
    cases oldest with
    | none => rfl
    | some o =>
      simp only [logMsg_withLevel h]
      split <;> rfl

theorem processSlot_withLevel (h : l ≤ l') (now : ℤ) (t : ClientTable) (i : ℕ) (c : KnockClient)
    (ip : UInt32) (port : UInt16) :
    processSlot (cfg.withLevel l) now t i c ip port =
      (processSlot (cfg.withLevel l') now t i c ip port).quiet l := by
  simp only [processSlot, processEntry_withLevel h]
  rfl

theorem knockerProcess_withLevel (h : l ≤ l') (now nowAlloc : ℤ) (t : ClientTable) (ip : UInt32)
    (port : UInt16) :
    knockerProcess (cfg.withLevel l) now nowAlloc t ip port =
      (knockerProcess (cfg.withLevel l') now nowAlloc t ip port).quiet l := by
  unfold knockerProcess processLocked
  cases findClient t ip with
  | some i => exact processSlot_withLevel h ..
  | none =>
    simp only [logMsg_withLevel h, allocClient_withLevel h]
    split
    · rfl
    · obtain ⟨claimed, log⟩ := allocClient (cfg.withLevel l') nowAlloc t
      cases claimed with
      | none =>
        simp only [Prod.map, id, ← shown_append]
        rfl
      | some slot =>
        simp only [Prod.map, id, processSlot_withLevel h, Processed.quiet, shown_append]

theorem knockerCleanupStale_withLevel (h : l ≤ l') (now : ℤ) (t : ClientTable) :
    knockerCleanupStale (cfg.withLevel l) now t =
      Prod.map id (shown l) (knockerCleanupStale (cfg.withLevel l') now t) := by
  have hstale : KnockClient.stale (cfg.withLevel l) now =
      KnockClient.stale (cfg.withLevel l') now := rfl
  have hsweep : KnockClient.sweep (cfg.withLevel l) now =
      KnockClient.sweep (cfg.withLevel l') now := rfl
  simp only [knockerCleanupStale, logMsg_withLevel h, Prod.map, id, shown_append, shown_flatMap,
    hstale, hsweep]
  split <;> rfl

end Knocks

/-! ### Queue and sniffer -/

section Capture

variable {cfg : Config} {l l' : ℤ}

theorem pktqueuePush_withLevel (h : l ≤ l') (now : ℤ) (event : KnockEvent) (q : PacketQueue) :
    pktqueuePush (cfg.withLevel l) now event q =
      Prod.map id (Prod.map id (shown l)) (pktqueuePush (cfg.withLevel l') now event q) := by
  simp only [pktqueuePush, logMsg_withLevel h]
  split
  · rfl
  · split
    · split <;> rfl
    · rfl

theorem snifferTurn_withLevel (h : l ≤ l') (ifindex : UInt32) (recv : Recv) :
    snifferTurn (cfg.withLevel l) ifindex recv =
      Prod.map id (shown l) (snifferTurn (cfg.withLevel l') ifindex recv) := by
  cases recv with
  | again => rfl
  | failed reason => simp only [snifferTurn, logMsg_withLevel h, Prod.map, id]
  | frame f =>
    have hknock : knockOf (cfg.withLevel l) ifindex f = knockOf (cfg.withLevel l') ifindex f := rfl
    simp only [snifferTurn, hknock]
    cases knockOf (cfg.withLevel l') ifindex f with
    | none => rfl
    | some knock => simp only [logMsg_withLevel h, Prod.map, id]

end Capture

/-! ### The firewall -/

section Firewall

variable {cfg : Config} {l l' : ℤ}

theorem complaint_withLevel (h : l ≤ l') (quiet : Bool) (r : Response) :
    r.complaint (cfg.withLevel l) quiet = shown l (r.complaint (cfg.withLevel l') quiet) := by
  cases r with
  | forkFailed reason => exact logMsg_withLevel h ..
  | waitFailed reason => exact logMsg_withLevel h ..
  | exited status =>
    simp only [Response.complaint, logMsg_withLevel h]
    split
    · rfl
    · split <;> rfl
  | signalled signal =>
    simp only [Response.complaint, logMsg_withLevel h]
    split <;> rfl

theorem runIptables_withLevel (h : l ≤ l') (c : Command) (quiet : Bool) :
    runIptables (cfg.withLevel l) c quiet =
      mapOutput (shown l) (runIptables (cfg.withLevel l') c quiet) := by
  simp only [runIptables, mapOutput_bind, mapOutput_say, mapOutput_issue, logMsg_withLevel h,
    complaint_withLevel h]
  congr 1
  funext _
  congr 1
  funext r
  split <;> rfl

theorem runGrantRule_withLevel (h : l ≤ l') (action : GrantAction) (ip : UInt32) :
    runGrantRule (cfg.withLevel l) action ip =
      mapOutput (shown l) (runGrantRule (cfg.withLevel l') action ip) := by
  cases action <;> exact runIptables_withLevel h ..

/-- Two programs with the same first part, up to their output. -/
theorem mapOutput_bind_eq {α β : Type} {p : FirewallProg α} {f g : α → FirewallProg β}
    (h : ∀ a, f a = mapOutput (shown l) (g a)) :
    (mapOutput (shown l) p >>= f) = mapOutput (shown l) (p >>= g) := by
  rw [mapOutput_bind]
  exact congrArg _ (funext h)

theorem firewallOpen_withLevel (h : l ≤ l') (now : ℤ) (ip : UInt32) (fw : Firewall) :
    firewallOpen (cfg.withLevel l) now ip fw =
      mapOutput (shown l) (firewallOpen (cfg.withLevel l') now ip fw) := by
  unfold firewallOpen
  simp only [logMsg_withLevel h, runGrantRule_withLevel h]
  cases fw.grants with
  | none => rfl
  | some grants =>
    dsimp only
    cases findGrant grants ip with
    | some i => rfl
    | none =>
      dsimp only
      cases freeGrant grants with
      | none => rfl
      | some i =>
        refine mapOutput_bind_eq fun rc => ?_
        split <;> rfl

theorem closeExpired_withLevel (h : l ≤ l') (ips : List UInt32) :
    closeExpired (cfg.withLevel l) ips =
      mapOutput (shown l) (closeExpired (cfg.withLevel l') ips) := by
  induction ips with
  | nil => rfl
  | cons ip rest ih =>
    simp only [closeExpired, logMsg_withLevel h, runGrantRule_withLevel h, ih]
    refine congrArg (Prog.tell _) (mapOutput_bind_eq fun rc => ?_)
    split <;> rfl

theorem firewallTick_withLevel (h : l ≤ l') (now : ℤ) (fw : Firewall) :
    firewallTick (cfg.withLevel l) now fw =
      mapOutput (shown l) (firewallTick (cfg.withLevel l') now fw) := by
  unfold firewallTick
  cases fw.grants with
  | none => rfl
  | some grants =>
    simp only [closeExpired_withLevel h]
    exact mapOutput_bind_eq fun _ => rfl

theorem firewallShutdown_withLevel (h : l ≤ l') (fw : Firewall) :
    firewallShutdown (cfg.withLevel l) fw =
      mapOutput (shown l) (firewallShutdown (cfg.withLevel l') fw) := by
  unfold firewallShutdown
  simp only [logMsg_withLevel h, runIptables_withLevel h]
  cases fw.grants with
  | none => rfl
  | some grants =>
    refine mapOutput_bind_eq fun flushed => ?_
    cases fw.addedJump with
    | false => split <;> rfl
    | true =>
      split
      · refine congrArg (Prog.tell _) (mapOutput_bind_eq fun unhooked => ?_)
        split
        · rfl
        · exact mapOutput_bind_eq fun _ => rfl
      · refine mapOutput_bind_eq fun unhooked => ?_
        split
        · rfl
        · exact mapOutput_bind_eq fun _ => rfl

theorem firewallInit_withLevel (h : l ≤ l') (calloc : Bool) (fw : Firewall) :
    firewallInit (cfg.withLevel l) calloc fw =
      mapOutput (shown l) (firewallInit (cfg.withLevel l') calloc fw) := by
  unfold firewallInit firewallInit.ready
  simp only [logMsg_withLevel h, runIptables_withLevel h]
  cases calloc with
  | false => rfl
  | true =>
    simp only [Bool.not_true, Bool.false_eq_true, if_false]
    refine mapOutput_bind_eq fun _ => mapOutput_bind_eq fun flushed => ?_
    split
    · rfl
    · refine mapOutput_bind_eq fun checked => ?_
      split
      · refine mapOutput_bind_eq fun inserted => ?_
        split <;> rfl
      · rfl

end Firewall

/-! ### The two daemons -/

/-- A firewall call in progress, with the output to come seen at a level. -/
def ProcessorPc.quiet (level : ℤ) : ProcessorPc → ProcessorPc
  | .opening ip p => .opening ip (mapOutput (shown level) p)
  | .ticking p => .ticking (mapOutput (shown level) p)
  | .shutdown p => .shutdown (mapOutput (shown level) p)
  | pc => pc

/-- The state of the louder daemon as one of the quieter. -/
def Daemon.quiet (level : ℤ) (d : Daemon) : Daemon :=
  { d with processor := d.processor.quiet level }

/-- An observation, with what is logged seen at a level. -/
def Obs.quiet (level : ℤ) : Obs → Obs
  | .logged lines => .logged (shown level lines)
  | o => o

/-- What a step leaves, seen at a level. -/
abbrev quietStep (level : ℤ) : Daemon × List Obs → Daemon × List Obs :=
  Prod.map (Daemon.quiet level) (List.map (Obs.quiet level))

section Steps

variable {cfg : Config} {l l' : ℤ}

theorem captureStep_quiet (h : l ≤ l') (recv : Recv) (now : ℤ) (d : Daemon) :
    captureStep (cfg.withLevel l) recv now (d.quiet l) =
      (captureStep (cfg.withLevel l') recv now d).map (quietStep l) := by
  obtain ⟨running, ifindex, queue, clients, firewall, rules, lastCleanup, capture, processor⟩ := d
  cases capture with
  | check => cases running <;> rfl
  | receive =>
    simp only [captureStep, Daemon.quiet, snifferTurn_withLevel h, logMsg_withLevel h, Prod.map, id]
    cases (snifferTurn (cfg.withLevel l') ifindex recv).1 <;> rfl
  | push event arrival =>
    simp only [captureStep, Daemon.quiet, pktqueuePush_withLevel h, Prod.map, id]
    rfl
  | leaving => rfl
  | stopped => rfl

/-- A step of a firewall call. -/
theorem advance_quiet {α : Type} (d : Daemon) (fault : Option Fault) (p : FirewallProg α)
    {pending pending' : FirewallProg α → ProcessorPc} {finish finish' : α → Daemon × List Obs}
    (hpending : ∀ q, pending (mapOutput (shown l) q) = (pending' q).quiet l)
    (hfinish : ∀ a, finish a = quietStep l (finish' a)) :
    (d.quiet l).advance fault (mapOutput (shown l) p) pending finish =
      quietStep l (d.advance fault p pending' finish') := by
  unfold Daemon.advance
  have hrules : (d.quiet l).rules = d.rules := rfl
  rw [Effect.Prog.step_mapOutput p (shown_nil l), hrules]
  cases p.step handle fault d.rules with
  | inl a => exact hfinish a
  | inr next =>
    simp only [Sum.map_inr, hpending, quietStep, Prod.map, List.map_append, List.map_map]
    rfl

theorem processorStep_quiet (h : l ≤ l') (input : ProcessorInput) (d : Daemon) :
    processorStep (cfg.withLevel l) input (d.quiet l) =
      (processorStep (cfg.withLevel l') input d).map (quietStep l) := by
  obtain ⟨running, ifindex, queue, clients, firewall, rules, lastCleanup, capture, processor⟩ := d
  cases processor with
  | check => cases running <;> rfl
  | wait =>
    simp only [processorStep, Daemon.quiet, ProcessorPc.quiet]
    rcases pktqueueWait input.timedOut queue with - | ⟨- | event, queue'⟩ <;> rfl
  | handle event =>
    simp only [processorStep, Daemon.quiet, ProcessorPc.quiet, knockerProcess_withLevel h,
      logMsg_withLevel h, Processed.quiet]
    split <;> rfl
  | grant ip =>
    simp only [processorStep, Daemon.quiet, ProcessorPc.quiet, firewallOpen_withLevel h]
    rfl
  | opening ip p =>
    refine congrArg some (advance_quiet (d := ⟨running, ifindex, queue, clients, firewall, rules,
      lastCleanup, capture, .opening ip p⟩) _ _ (fun _ => rfl) fun out => ?_)
    obtain ⟨fw, rc⟩ := out
    simp only [logMsg_withLevel h]
    split <;> rfl
  | drain =>
    simp only [processorStep, Daemon.quiet, ProcessorPc.quiet]
    rcases pktqueuePop queue with ⟨- | event, queue'⟩ <;> rfl
  | tick =>
    simp only [processorStep, Daemon.quiet, ProcessorPc.quiet, firewallTick_withLevel h]
    rfl
  | ticking p =>
    exact congrArg some (advance_quiet (d := ⟨running, ifindex, queue, clients, firewall, rules,
      lastCleanup, capture, .ticking p⟩) _ _ (fun _ => rfl) fun _ => rfl)
  | sweep =>
    simp only [processorStep, Daemon.quiet, ProcessorPc.quiet, knockerCleanupStale_withLevel h]
    split <;> rfl
  | cleanup =>
    simp only [processorStep, Daemon.quiet, ProcessorPc.quiet, logMsg_withLevel h]
    rfl
  | join =>
    simp only [processorStep, Daemon.quiet, ProcessorPc.quiet, firewallShutdown_withLevel h,
      logMsg_withLevel h]
    split <;> rfl
  | shutdown p =>
    refine congrArg some (advance_quiet (d := ⟨running, ifindex, queue, clients, firewall, rules,
      lastCleanup, capture, .shutdown p⟩) _ _ (fun _ => rfl) fun _ => ?_)
    simp only [logMsg_withLevel h]
    rfl
  | done => rfl

/-- A step of the quieter daemon is one of the louder, without the lines above the level. -/
theorem step_quiet (h : l ≤ l') (d : Daemon) (action : Action) :
    (d.quiet l).step (cfg.withLevel l) action =
      (d.step (cfg.withLevel l') action).map (quietStep l) := by
  cases action with
  | signal => rfl
  | capture recv now => exact captureStep_quiet h recv now d
  | processor input => exact processorStep_quiet h input d

theorem firewallStart_withLevel (h : l ≤ l') (calloc : Bool) (faults : ℕ → Option Fault)
    (rules : Ruleset) :
    firewallStart (cfg.withLevel l) calloc faults rules =
      firewallStart (cfg.withLevel l') calloc faults rules := by
  simp only [firewallStart, firewallInit_withLevel h]
  rw [(Effect.Prog.run_mapOutput _ _ _).1, (Effect.Prog.run_mapOutput _ _ _).2]

end Steps

/-- **The log level only quiets the log.** Start two daemons whose configurations differ in
the level, on the same ruleset and with the same faults, and let the same happen to both.
One gets as far as the other, at the end they are in the same state but for the output that
is still to come, and what has been seen of the quieter one, commands and their outcomes
included, is what has been seen of the louder one with the lines above its level left out. -/
theorem daemon_quiet (cfg : Config) {l l' : ℤ} (h : l ≤ l') (calloc : Bool)
    (faults : ℕ → Option Fault) (rules : Ruleset) (ifindex : UInt32) (now : ℤ)
    (actions : List Action) :
    let start (level : ℤ) : Daemon := .start (cfg.withLevel level) ifindex
      (firewallStart (cfg.withLevel level) calloc faults rules).1 now
    (start l).run (cfg.withLevel l) actions =
      ((start l').run (cfg.withLevel l') actions).map
        (Prod.map (Daemon.quiet l) (List.map (Obs.quiet l))) := by
  intro start
  have hstart : start l = (start l').quiet l := by
    simp only [start, firewallStart_withLevel h]
    rfl
  rw [hstart]
  exact Machine.run_map (step_quiet h) (start l') actions

/-- Three knocks at the level compiled in and at debug level. -/
theorem daemon_quiet_threeKnocks :
    Daemon.startDefault.run .default threeKnocks =
      ((Daemon.start (Config.default.withLevel 3) 0
          (firewallStart (Config.default.withLevel 3) true (fun _ => none) .empty).1 0).run
        (Config.default.withLevel 3) threeKnocks).map
        (Prod.map (Daemon.quiet 2) (List.map (Obs.quiet 2))) :=
  daemon_quiet .default (by decide) true (fun _ => none) .empty 0 0 threeKnocks

end Knockd
