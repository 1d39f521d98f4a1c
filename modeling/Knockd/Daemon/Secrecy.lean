import Knockd.Knocker.Table
import Knockd.Model.Processor

/-!
# The log does not give the sequence away

Run two daemons side by side whose configurations differ in the ports of the sequence
only, and let every client knock the same places of the sequence at the same times. The
state machine compares ports, but in both daemons each comparison has the same outcome:
no port repeats, so a port is its place in the sequence, and the port an entry remembers
is the one its step says. The tables therefore stay equal but for the remembered ports,
and below the debug level nothing that is written names a port.

## Main definitions

* `SamePlace` — two ports at the same place of the two sequences
* `Alike` — client tables that differ in the remembered ports only
* `Service.Alike` — the same for the whole service

## Main results

* `processEntry_alike`, `knockerProcess_alike` — one knock on two tables
* `prog_alike` — the two programs of a call cannot be told apart
* `serviceRun_alike` — nor can two runs
* `log_hides_sequence` — the two daemons show the same, banner included
-/

namespace Knockd

open Effect (Prog)
open Effect.Prog (Rel)

/-- The two ports stand at the same place of the two sequences. -/
def SamePlace (cfg cfg' : Config) (port port' : UInt16) : Prop :=
  ∃ i : ℕ, (i : ℤ) < cfg.knockSeqLen ∧ cfg.knockSequence[i]? = some port ∧
    cfg'.knockSequence[i]? = some port'

/-- The entry without the port it remembers. -/
def KnockClient.forgetPort (c : KnockClient) : KnockClient := { c with lastPort := 0 }

/-- Client tables of the two daemons that differ in the remembered ports only. -/
structure Alike (cfg cfg' : Config) (t t' : ClientTable) : Prop where
  left_inv : TableInv cfg t
  right_inv : TableInv cfg' t'
  same : t.map KnockClient.forgetPort = t'.map KnockClient.forgetPort

section Ports

variable {cfg cfg' : Config} {port port' : UInt16}

/-- A comparison with the sequence comes out the same on both sides. -/
theorem SamePlace.at_iff (hcfg : cfg.SequenceValid) (hcfg' : cfg'.SequenceValid)
    (hlen : cfg'.knockSeqLen = cfg.knockSeqLen) (h : SamePlace cfg cfg' port port') {j : ℕ}
    (hj : (j : ℤ) < cfg.knockSeqLen) :
    cfg.knockSequence[j]? = some port ↔ cfg'.knockSequence[j]? = some port' := by
  obtain ⟨i, hi, hport, hport'⟩ := h
  constructor
  · intro hat
    rwa [hcfg.port_inj hj hi hat hport]
  · intro hat
    rwa [hcfg'.port_inj (hlen ▸ hj) (hlen ▸ hi) hat hport']

/-- Nothing at debug level is written. -/
theorem logMsg_debug (hlevel : cfg.logLevel ≤ 2) (text : String) : logMsg cfg .debug text = [] :=
  if_pos (by simp only [LogLevel.toInt]; omega)

end Ports

/-! ### The table -/

section Table

variable {cfg : Config} {sequence : Vector UInt16 maxKnockSeqLen} {t t' : ClientTable}

theorem findClient_forgetPort (t : ClientTable) (ip : UInt32) :
    findClient (t.map KnockClient.forgetPort) ip = findClient t ip := by
  rw [findClient, SlotTable.lookup, List.findIdx?_map]
  rfl

/-- The scan for a slot does not look at the remembered ports. -/
theorem allocScan_forgetPort (t : ClientTable) (i : ℕ) (oldest : Option (ℕ × KnockClient)) :
    allocScan (t.map KnockClient.forgetPort) i (oldest.map (Prod.map id KnockClient.forgetPort)) =
      (allocScan t i oldest).map id (Option.map (Prod.map id KnockClient.forgetPort)) := by
  induction t generalizing i oldest with
  | nil => rfl
  | cons c rest ih =>
    rw [List.map_cons]
    unfold allocScan
    have hactive : c.forgetPort.active = c.active := rfl
    rw [hactive]
    split
    · rfl
    · cases oldest with
      | none => exact ih (i + 1) (some (i, c))
      | some o =>
        have hlast : c.forgetPort.lastKnock = c.lastKnock := rfl
        simp only [Option.map_some, Prod.map, id]
        rw [hlast]
        have hlast' : o.2.forgetPort.lastKnock = o.2.lastKnock := rfl
        rw [hlast']
        split
        · exact ih (i + 1) (some (i, c))
        · exact ih (i + 1) (some o)

/-- Which slot is claimed depends on the table without the remembered ports, and at these
levels nothing is written about it. -/
theorem allocClient_eq (cfg : Config) (hlevel : cfg.logLevel ≤ 2) (now : ℤ) (t : ClientTable) :
    ∃ slot : Option ℕ, allocClient cfg now t = (slot.map fun i => (i, t.set i .zeroed), []) ∧
      slot = (allocClient cfg now (t.map KnockClient.forgetPort)).1.map Prod.fst := by
  have hscan := allocScan_forgetPort t 0 none
  rw [Option.map_none] at hscan
  rw [allocClient, allocClient, hscan]
  cases allocScan t 0 none with
  | inl i => exact ⟨some i, rfl, rfl⟩
  | inr oldest =>
    cases oldest with
    | none => exact ⟨none, rfl, rfl⟩
    | some o =>
      simp only [Sum.map_inr, Option.map_some, Prod.map, KnockClient.forgetPort, id]
      split
      · exact ⟨none, rfl, rfl⟩
      · exact ⟨some o.1, by rw [logMsg_debug hlevel]; rfl, rfl⟩

/-- Alike before a sweep, alike after it. -/
theorem Alike.cleanup (h : Alike cfg (cfg.withSequence sequence) t t') (now : ℤ) :
    Alike cfg (cfg.withSequence sequence) (knockerCleanupStale cfg now t).1
      (knockerCleanupStale (cfg.withSequence sequence) now t').1 where
  left_inv := tableInv_knockerCleanupStale h.left_inv now
  right_inv := tableInv_knockerCleanupStale h.right_inv now
  same := by
    have hcomm : ∀ c : KnockClient,
        (c.sweep cfg now).forgetPort = (c.forgetPort).sweep cfg now := by
      intro c
      unfold KnockClient.sweep
      have hstale : c.forgetPort.stale cfg now = c.stale cfg now := rfl
      rw [hstale]
      split
      · rfl
      · rfl
    have hsweep : ∀ l : ClientTable, (l.map (KnockClient.sweep cfg now)).map
        KnockClient.forgetPort = (l.map KnockClient.forgetPort).map (KnockClient.sweep cfg now) := by
      intro l
      rw [List.map_map, List.map_map]
      exact List.map_congr_left fun c _ => hcomm c
    exact (hsweep t).trans ((congrArg _ h.same).trans (hsweep t').symm)

theorem cleanup_silent (hlevel : cfg.logLevel ≤ 2) (now : ℤ) (t : ClientTable) :
    (knockerCleanupStale cfg now t).2 = [] := by
  simp [knockerCleanupStale, logMsg_debug hlevel]

end Table

/-! ### One knock -/

/-- What two knocks did that cannot be told apart. -/
structure Processed.Alike (out out' : Processed) : Prop where
  same : out.clients.map KnockClient.forgetPort = out'.clients.map KnockClient.forgetPort
  result_eq : out.result = out'.result
  log_eq : out.log = out'.log

section Knocks

variable {cfg : Config} {sequence : Vector UInt16 maxKnockSeqLen} {t t' : ClientTable}
  {port port' : UInt16} (hcfg : cfg.SequenceValid)
  (hcfg' : (cfg.withSequence sequence).SequenceValid) (hlevel : cfg.logLevel ≤ 2)

include hcfg hcfg'

/-- The port an entry remembers stands at the place before its step, in both tables. -/
theorem lastPort_alike (hplace : SamePlace cfg (cfg.withSequence sequence) port port')
    {c c' : KnockClient} (hc : EntryInv cfg c) (hc' : EntryInv (cfg.withSequence sequence) c')
    (hstep : c.currentStep = c'.currentStep) :
    port = c.lastPort ↔ port' = c'.lastPort := by
  have hpos := hc.step_pos
  have hlt := hc.step_lt
  have hat := hplace.at_iff hcfg hcfg' rfl (j := c.currentStep - 1) (by omega)
  rw [hc.lastPort_eq, hstep, hc'.lastPort_eq, Option.some.injEq, Option.some.injEq] at hat
  exact ⟨fun h => (hat.mp h.symm).symm, fun h => (hat.mpr h.symm).symm⟩

include hlevel

/-- `processEntry` on two entries that differ in the remembered port only, if the two
comparisons with it come out the same. -/
theorem processEntry_alike {c c' : KnockClient} (hc : c.forgetPort = c'.forgetPort)
    (hstep : (c.currentStep : ℤ) < cfg.knockSeqLen)
    (hplace : SamePlace cfg (cfg.withSequence sequence) port port')
    (hlast : port = c.lastPort ↔ port' = c'.lastPort) (now : ℤ) (ip : UInt32) :
    (processEntry cfg now c ip port).client.forgetPort =
        (processEntry (cfg.withSequence sequence) now c' ip port').client.forgetPort ∧
      (processEntry cfg now c ip port).result =
        (processEntry (cfg.withSequence sequence) now c' ip port').result ∧
      (processEntry cfg now c ip port).log =
        (processEntry (cfg.withSequence sequence) now c' ip port').log := by
  obtain ⟨ip₀, step, last, lastPort, active⟩ := c
  obtain ⟨ip₁, step₁, last₁, lastPort₁, active₁⟩ := c'
  simp only [KnockClient.forgetPort, KnockClient.mk.injEq, true_and] at hc
  obtain ⟨rfl, rfl, rfl, rfl⟩ := hc
  simp only at hstep hlast
  have hdup : (port = lastPort ∧ now - last ≤ knockDedupWindow) ↔
      (port' = lastPort₁ ∧ now - last ≤ knockDedupWindow) := and_congr_left' hlast
  by_cases hrepeat : port = lastPort ∧ now - last ≤ knockDedupWindow
  · simp only [processEntry, if_pos hrepeat, if_pos (hdup.mp hrepeat), logMsg_withSequence,
      logMsg_debug hlevel, KnockClient.forgetPort, and_self]
  · simp only [processEntry, if_neg hrepeat, if_neg (mt hdup.mpr hrepeat), logMsg_withSequence,
      logMsg_debug hlevel]
    -- the step the port is compared at is inside the sequence, expired or not
    have hlt : ((if decide (0 < step ∧ now - last > cfg.knockWindow) then 0 else step : ℕ) : ℤ) <
        cfg.knockSeqLen := KnockClient.stepAt_lt (c := ⟨ip₀, step, last, lastPort, active⟩) hcfg hstep
    generalize (if decide (0 < step ∧ now - last > cfg.knockWindow) then 0 else step) = place at hlt ⊢
    have hnext := hplace.at_iff hcfg hcfg' rfl hlt
    have hfirst := hplace.at_iff hcfg hcfg' rfl hcfg.first_lt
    by_cases hright : cfg.knockSequence[place]? = some port
    · rw [if_pos hright, if_pos (hnext.mp hright)]
      split
      · exact ⟨rfl, rfl, rfl⟩
      · exact ⟨rfl, rfl, rfl⟩
    · rw [if_neg hright, if_neg (mt hnext.mpr hright)]
      by_cases hstart : cfg.knockSequence[0]? = some port
      · rw [if_pos hstart, if_pos (hfirst.mp hstart)]
        exact ⟨rfl, rfl, rfl⟩
      · rw [if_neg hstart, if_neg (mt hfirst.mpr hstart)]
        exact ⟨rfl, rfl, rfl⟩

theorem processSlot_alike
    (hsame : t.map KnockClient.forgetPort = t'.map KnockClient.forgetPort)
    {c c' : KnockClient} (hc : c.forgetPort = c'.forgetPort)
    (hstep : (c.currentStep : ℤ) < cfg.knockSeqLen)
    (hplace : SamePlace cfg (cfg.withSequence sequence) port port')
    (hlast : port = c.lastPort ↔ port' = c'.lastPort) (now : ℤ) (i : ℕ) (ip : UInt32) :
    (processSlot cfg now t i c ip port).Alike
      (processSlot (cfg.withSequence sequence) now t' i c' ip port') := by
  obtain ⟨hclient, hresult, hlog⟩ :=
    processEntry_alike hcfg hcfg' hlevel hc hstep hplace hlast now ip
  refine ⟨?_, hresult, hlog⟩
  simp only [processSlot, List.map_set, hsame, hclient]

/-- One knock on the same place of the two sequences. -/
theorem knockerProcess_alike (h : Alike cfg (cfg.withSequence sequence) t t')
    (hplace : SamePlace cfg (cfg.withSequence sequence) port port')
    (now nowAlloc : ℤ) (ip : UInt32) :
    (knockerProcess cfg now nowAlloc t ip port).Alike
      (knockerProcess (cfg.withSequence sequence) now nowAlloc t' ip port') := by
  have hfindEq : findClient t ip = findClient t' ip := by
    rw [← findClient_forgetPort t, h.same, findClient_forgetPort]
  rw [knockerProcess, knockerProcess, processLocked, processLocked, ← hfindEq]
  cases hfind : findClient t ip with
  | some i =>
    -- tracked in both, in the same slot and at the same step
    obtain ⟨c, hslot, hentry⟩ := SlotTable.lookup_eq_some hfind
    obtain ⟨c', hslot', hentry'⟩ := SlotTable.lookup_eq_some (hfindEq ▸ hfind)
    have hc : c.forgetPort = c'.forgetPort := by
      have := congrArg (fun l => l[i]?) h.same
      simpa [List.getElem?_map, hslot, hslot'] using this
    have hinv := h.left_inv.entryInv hentry
    have hstep : c.forgetPort.currentStep = c'.forgetPort.currentStep := by rw [hc]
    simp only [List.getD_eq_getElem?_getD, hslot, hslot', Option.getD_some]
    exact processSlot_alike hcfg hcfg' hlevel h.same hc hinv.step_lt hplace
      (lastPort_alike hcfg hcfg' hplace hinv (h.right_inv.entryInv hentry') hstep) now i ip
  | none =>
    have hfirst := hplace.at_iff hcfg hcfg' rfl hcfg.first_lt
    by_cases hstart : cfg.knockSequence[0]? = some port
    · -- untracked in both, and both claim the same slot or none
      obtain ⟨slot, halloc, hslot⟩ := allocClient_eq cfg hlevel nowAlloc t
      obtain ⟨slot', halloc', hslot'⟩ :=
        allocClient_eq (cfg.withSequence sequence) hlevel nowAlloc t'
      have hslots : slot' = slot := by
        rw [hslot, hslot', h.same]
        rfl
      have hne : port ≠ 0 := hcfg.port_ne_zero hcfg.first_lt hstart
      have hne' : port' ≠ 0 := hcfg'.port_ne_zero hcfg'.first_lt (hfirst.mp hstart)
      simp only [hstart, hfirst.mp hstart, ne_eq, not_true_eq_false, if_false, halloc, halloc',
        hslots]
      cases slot with
      | none => exact ⟨h.same, rfl, rfl⟩
      | some i =>
        have hset : (t.set i .zeroed).map KnockClient.forgetPort =
            (t'.set i .zeroed).map KnockClient.forgetPort := by
          rw [List.map_set, List.map_set, h.same]
        obtain ⟨hsame, hresult, hlog⟩ := processSlot_alike hcfg hcfg' hlevel hset
          (c := freshClient ip) rfl hcfg.first_lt hplace (iff_of_false hne hne') now i ip
        exact ⟨hsame, hresult, hlog⟩
    · -- not the first port of either sequence
      simp only [hstart, mt hfirst.mpr hstart, ne_eq, not_false_eq_true, if_true,
        logMsg_withSequence, logMsg_debug hlevel]
      exact ⟨h.same, rfl, rfl⟩

/-- Alike before a knock, alike after it. -/
theorem Alike.process (h : Alike cfg (cfg.withSequence sequence) t t')
    (hplace : SamePlace cfg (cfg.withSequence sequence) port port') (now nowAlloc : ℤ)
    (ip : UInt32) :
    Alike cfg (cfg.withSequence sequence) (knockerProcess cfg now nowAlloc t ip port).clients
      (knockerProcess (cfg.withSequence sequence) now nowAlloc t' ip port').clients where
  left_inv := tableInv_of_tableMove hcfg h.left_inv (knockerProcess_move hcfg h.left_inv ..)
  right_inv := tableInv_of_tableMove hcfg' h.right_inv (knockerProcess_move hcfg' h.right_inv ..)
  same := (knockerProcess_alike hcfg hcfg' hlevel h hplace now nowAlloc ip).same

end Knocks

/-! ### The firewall

Nothing in `firewall.c` looks at the sequence. -/

section Firewall

variable (cfg : Config) (sequence : Vector UInt16 maxKnockSeqLen) (now : ℤ) (fw : Firewall)

theorem firewallOpen_withSequence (ip : UInt32) :
    firewallOpen (cfg.withSequence sequence) now ip fw = firewallOpen cfg now ip fw := rfl

theorem closeExpired_withSequence (ips : List UInt32) :
    closeExpired (cfg.withSequence sequence) ips = closeExpired cfg ips := by
  induction ips with
  | nil => rfl
  | cons ip rest ih =>
    rw [closeExpired, closeExpired, ih]
    rfl

theorem firewallTick_withSequence :
    firewallTick (cfg.withSequence sequence) now fw = firewallTick cfg now fw := by
  unfold firewallTick
  split
  · rfl
  · simp only [closeExpired_withSequence]

end Firewall

/-! ### Runs -/

/-- The services of the two daemons: the same grants, and client tables that differ in
the remembered ports only. -/
structure Service.Alike (cfg cfg' : Config) (st st' : Service) : Prop where
  clients : Knockd.Alike cfg cfg' st.clients st'.clients
  firewall : st.firewall = st'.firewall

/-- A knock is on a place within the sequence. -/
def ServiceCall.InSequence (cfg : Config) : ServiceCall → Prop
  | .knock _ _ _ _ i => (i : ℤ) < cfg.knockSeqLen
  | _ => True

section Runs

variable {cfg : Config} {sequence : Vector UInt16 maxKnockSeqLen} {st st' : Service}

/-- The ports at one place of the two sequences. -/
theorem samePlace_getD (hcfg : cfg.SequenceValid) (sequence : Vector UInt16 maxKnockSeqLen) {i : ℕ}
    (hi : (i : ℤ) < cfg.knockSeqLen) :
    SamePlace cfg (cfg.withSequence sequence) (cfg.knockSequence[i]?.getD 0)
      (sequence[i]?.getD 0) := by
  have hlen := hcfg.len_le
  have hbound : i < maxKnockSeqLen := by omega
  refine ⟨i, hi, ?_, ?_⟩
  · rw [Vector.getElem?_eq_getElem hbound, Option.getD_some]
  · rw [Vector.getElem?_eq_getElem hbound, Option.getD_some]

variable (hcfg : cfg.SequenceValid) (hcfg' : (cfg.withSequence sequence).SequenceValid)
  (hlevel : cfg.logLevel ≤ 2)

include hcfg hcfg' hlevel

/-- The programs of a call in the two daemons cannot be told apart. -/
theorem prog_alike (h : Service.Alike cfg (cfg.withSequence sequence) st st')
    {call : ServiceCall} (hcall : call.InSequence cfg) :
    Rel (Service.Alike cfg (cfg.withSequence sequence)) (call.prog cfg st)
      (call.prog (cfg.withSequence sequence) st') := by
  cases call with
  | knock now nowAlloc nowOpen ip i =>
    have hplace := samePlace_getD hcfg sequence hcall
    obtain ⟨-, hresult, hlog⟩ :=
      knockerProcess_alike hcfg hcfg' hlevel h.clients hplace now nowAlloc ip
    have hclients := h.clients.process hcfg hcfg' hlevel hplace now nowAlloc ip
    simp only [ServiceCall.prog, processEvent, hresult, hlog, h.firewall,
      firewallOpen_withSequence, logMsg_withSequence, Effect.Prog.say_bind, Effect.Prog.pure_eq]
    refine .tell _ ?_
    split
    · exact .ret ⟨hclients, rfl⟩
    · exact .tell _ (Rel.bind_right _ fun opened => .tell _ (.ret ⟨hclients, rfl⟩))
  | tick now =>
    simp only [ServiceCall.prog, firewallTick_withSequence, h.firewall]
    exact Rel.bind_right _ fun fw => .ret ⟨h.clients, rfl⟩
  | sweep now =>
    have hsilent := cleanup_silent hlevel now st.clients
    have hsilent' : (knockerCleanupStale (cfg.withSequence sequence) now st'.clients).2 =
      [] := cleanup_silent hlevel now st'.clients
    simp only [ServiceCall.prog, hsilent, hsilent']
    exact .tell [] (.ret ⟨h.clients.cleanup now, h.firewall⟩)

variable {E S : Type} {handle : Command → E → S → Response × S}

/-- Runs of the two daemons show the same. -/
theorem serviceRun_alike (h : Service.Alike cfg (cfg.withSequence sequence) st st') (world : S)
    {calls : List (ServiceCall × (ℕ → E))} (hcalls : ∀ call ∈ calls, call.1.InSequence cfg) :
    serviceRun handle cfg st world calls =
      serviceRun handle (cfg.withSequence sequence) st' world calls := by
  induction calls generalizing st st' world with
  | nil => rfl
  | cons call calls ih =>
    rw [List.forall_mem_cons] at hcalls
    obtain ⟨hcommands, hlog, hworld, hnext⟩ :=
      (prog_alike hcfg hcfg' hlevel h hcalls.1).run handle call.2 world
    rw [serviceRun, serviceRun, ih hnext _ hcalls.2, hcommands, hlog, hworld]

end Runs

/-- The two daemons start alike. -/
theorem alike_start (cfg : Config) (sequence : Vector UInt16 maxKnockSeqLen)
    (firewall : Firewall) :
    Service.Alike cfg (cfg.withSequence sequence) (Service.start cfg firewall)
      (Service.start (cfg.withSequence sequence) firewall) :=
  ⟨⟨tableInv_knockerInit cfg, tableInv_knockerInit _, rfl⟩, rfl⟩

/-- At these levels the banner counts the ports and does not show them. -/
theorem printBanner_withSequence (version : String) {cfg : Config}
    (sequence : Vector UInt16 maxKnockSeqLen) (hlevel : cfg.logLevel ≤ 2) :
    printBanner version cfg = printBanner version (cfg.withSequence sequence) := by
  have hhidden : ¬ cfg.logLevel ≥ LogLevel.debug.toInt := by
    simp only [LogLevel.toInt]
    omega
  have hcount : bannerSequence (cfg.withSequence sequence) = bannerSequence cfg := by
    rw [bannerSequence, bannerSequence, if_neg hhidden, if_neg hhidden]
  unfold printBanner
  rw [hcount]

/-- **Below the debug level the log does not give the sequence away.** Two valid
configurations that differ in the ports of the sequence only, at a log level of at most
two: the banners are the same, and in every run of the main thread's calls, each knock on
the same place of either sequence, whatever iptables answers, the two daemons issue the
same commands and write the same lines. -/
theorem log_hides_sequence (version : String) (cfg cfg' : Config) (hcfg : cfg.Valid)
    (hcfg' : cfg'.Valid) (hsame : cfg' = { cfg with knockSequence := cfg'.knockSequence })
    (hlevel : cfg.logLevel ≤ 2) :
    printBanner version cfg = printBanner version cfg' ∧
    ∀ (E S : Type) (handle : Command → E → S → Response × S) (firewall : Firewall) (world : S)
      (calls : List (ServiceCall × (ℕ → E))), (∀ call ∈ calls, call.1.InSequence cfg) →
      serviceRun handle cfg (Service.start cfg firewall) world calls =
        serviceRun handle cfg' (Service.start cfg' firewall) world calls := by
  generalize cfg'.knockSequence = sequence at hsame
  subst hsame
  refine ⟨printBanner_withSequence version sequence hlevel, ?_⟩
  intro E S handle firewall world calls hcalls
  exact serviceRun_alike hcfg.toSequenceValid hcfg'.toSequenceValid hlevel
    (alike_start cfg sequence firewall) world hcalls

/-- Other ports than the compiled-in ones. -/
def otherPorts : Config :=
  { Config.default with knockSequence := #v[101, 202, 303, 0, 0, 0, 0, 0, 0, 0, 0, 0, 0, 0, 0, 0] }

/-- A daemon with these ports shows what one with the default ports does while a client
gets in and its access expires. -/
theorem log_hides_sequence_otherPorts :
    printBanner "unknown" .default = printBanner "unknown" otherPorts ∧
    serviceRun handle .default (Service.start .default ⟨some [.zeroed], true⟩) ⟨[], some [], []⟩
        [(.knock 1 1 1 10 0, fun _ => none), (.knock 2 2 2 10 1, fun _ => none),
          (.knock 3 3 3 10 2, fun _ => none), (.tick 40, fun _ => none),
          (.sweep 40, fun _ => none)] =
      serviceRun handle otherPorts (Service.start otherPorts ⟨some [.zeroed], true⟩) ⟨[], some [], []⟩
        [(.knock 1 1 1 10 0, fun _ => none), (.knock 2 2 2 10 1, fun _ => none),
          (.knock 3 3 3 10 2, fun _ => none), (.tick 40, fun _ => none),
          (.sweep 40, fun _ => none)] := by
  have hvalid : otherPorts.Valid :=
    { Config.default_valid with ports_ne_zero := by decide, ports_nodup := by decide }
  obtain ⟨hbanner, hruns⟩ := log_hides_sequence "unknown" .default otherPorts
    Config.default_valid hvalid rfl (by decide)
  refine ⟨hbanner, hruns _ _ handle _ _ _ ?_⟩
  simp [ServiceCall.InSequence, Config.default]

end Knockd
