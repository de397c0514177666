import PiAgents.Gateway.Restore

/-! What the record of the last operation says: when a call of the runtime is interrupted by an
exception, which calls write the record, and when it is true of the last call. -/

namespace PiAgents.Gateway

inductive Call where
  | apply (cfg : WifiConfig) (answers : Answers)
  | rollback (answers : Answers)
  | restore (answers : Answers)

section Interruptions

variable (answers : Answers)

def isMissing (command : List String) : Bool :=
  match answers.command command with
  | .missing => true
  | _ => false

def chainFails (table chain : String) : Bool :=
  !succeeds answers ["iptables", "-t", table, "-S", chain] &&
    isMissing answers ["iptables", "-t", table, "-N", chain]

def ruleFails (table : String) (add : List String) (chain : String) (rule : List String) : Bool :=
  !succeeds answers (["iptables", "-t", table, "-C", chain] ++ rule) &&
    !succeeds answers (["iptables", "-t", table] ++ add ++ rule)

def teardownFails : Bool :=
  isMissing answers ["iptables", "-t", natTable, "-D", "POSTROUTING", "-j", natChain] ||
    isMissing answers ["iptables", "-t", filterTable, "-D", "FORWARD", "-j", fwdChain] ||
    isMissing answers ["iptables", "-t", filterTable, "-D", "FORWARD", "-j", blockChain] ||
    isMissing answers ["iptables", "-t", natTable, "-F", natChain] ||
    isMissing answers ["iptables", "-t", filterTable, "-F", fwdChain] ||
    isMissing answers ["iptables", "-t", filterTable, "-F", blockChain] ||
    isMissing answers ["iptables", "-t", natTable, "-X", natChain] ||
    isMissing answers ["iptables", "-t", filterTable, "-X", fwdChain] ||
    isMissing answers ["iptables", "-t", filterTable, "-X", blockChain]

def chainsFail : Bool :=
  chainFails answers natTable natChain || chainFails answers filterTable fwdChain ||
    chainFails answers filterTable blockChain

def jumpRulesFail : Bool :=
  ruleFails answers natTable ["-A", "POSTROUTING"] "POSTROUTING" ["-j", natChain] ||
    ruleFails answers filterTable ["-A", "FORWARD"] "FORWARD" ["-j", fwdChain] ||
    ruleFails answers filterTable ["-I", "FORWARD", "1"] "FORWARD" ["-j", blockChain]

def natRulesFail (subnetCidr apInterface upstreamInterface : String) : Bool :=
  ruleFails answers natTable ["-A", natChain] natChain
      ["-s", subnetCidr, "-o", upstreamInterface, "-j", "MASQUERADE"] ||
    ruleFails answers filterTable ["-A", fwdChain] fwdChain
      ["-i", apInterface, "-o", upstreamInterface, "-j", "ACCEPT"] ||
    ruleFails answers filterTable ["-A", fwdChain] fwdChain
      ["-i", upstreamInterface, "-o", apInterface, "-m", "conntrack", "--ctstate",
        "RELATED,ESTABLISHED", "-j", "ACCEPT"]

/-- A command that has to succeed does not, or a process cannot be started. -/
def configureFails (cfg : WifiConfig) (net : Network) : Bool :=
  !succeeds answers ["ip", "link", "set", cfg.apInterface, "up"] ||
    !succeeds answers ["ip", "addr", "replace",
      cfg.gatewayIp ++ "/" ++ toString net.prefixlen, "dev", cfg.apInterface] ||
    !succeeds answers ["sysctl", "-w", "net.ipv4.ip_forward=1"] ||
    chainsFail answers || jumpRulesFail answers ||
    natRulesFail answers cfg.subnetCidr cfg.apInterface cfg.upstreamInterface ||
    answers.dnsmasq.isNone || answers.hostapd.isNone

def disableFails (cfg : WifiConfig) : Bool :=
  teardownFails answers ||
    !succeeds answers ["ip", "-4", "addr", "flush", "dev", cfg.apInterface]

variable (library : Library)

/-- An exception interrupts the apply of the configuration. -/
def applyFails (cfg : WifiConfig) : Bool :=
  match library.ipNetwork cfg.subnetCidr with
  | none => true
  | some net => if cfg.enabled then configureFails answers cfg net else disableFails answers cfg

end Interruptions

section Model

variable (library : Library)

def Call.perform : Call → Act (Bool × String)
  | apply cfg answers => applyLocked library answers cfg
  | rollback answers => rollbackLocked library answers
  | restore answers => restoreFromDisk library answers

/-- The configuration that the call applies. -/
def Call.config (g : GatewayRuntime) : Call → Option WifiConfig
  | apply cfg _ => some cfg
  | rollback _ => g.lkg.bind fun lkg => readConfig library lkg.config
  | restore _ => savedConfig library g

def Call.answers : Call → Answers
  | apply _ answers | rollback answers | restore answers => answers

/-- A restore with no last known good configuration and no configuration that can be read. -/
def Call.findsNothing (g : GatewayRuntime) : Call → Prop
  | restore _ => g.lkg.bind (·.config) = none ∧ readConfig library g.files.config = none
  | _ => False

def Call.step (g : GatewayRuntime) (call : Call) : GatewayRuntime :=
  ((call.perform library).run g).2

def recordsOk (g : GatewayRuntime) : Prop := ∃ message, g.lastApply = some (true, message)

/-- After the call the record says ok exactly if the call succeeded, and then the stored
configuration is the one that it applied. -/
def Call.Truthful (g : GatewayRuntime) (call : Call) : Prop :=
  ¬call.findsNothing library g →
    (recordsOk (call.step library g) ↔ succeeded ((call.perform library).run g).1 = true) ∧
      (recordsOk (call.step library g) → ∃ cfg, call.config library g = some cfg ∧
        (call.step library g).files.config = some (library.modelDumpJson cfg))

/-- An exception ends the call before it writes the record. -/
def Call.interrupted (g : GatewayRuntime) (call : Call) : Bool :=
  match call.config library g with
  | some cfg => applyFails call.answers library cfg
  | none =>
      match call with
      | restore _ => (g.lkg.bind (·.config)).isSome
      | call => teardownFails call.answers

end Model

/-- The record stays as it was, and the act is interrupted or not whatever the state is. -/
structure Silent {α : Type} (act : Act α) (fails : Bool) : Prop where
  lastApply : ∀ g : GatewayRuntime, (act.run g).2.lastApply = g.lastApply
  outcome : ∀ g : GatewayRuntime, (act.run g).1.isOk = !fails

namespace Silent

variable {α β : Type} {act : Act α} {next : α → Act β} {first second : Bool}

theorem pure (value : α) : Silent (Pure.pure value : Act α) false := ⟨fun _ => rfl, fun _ => rfl⟩

theorem bind (before : Silent act first) (after : ∀ value, Silent (next value) second) :
    Silent (act >>= next) (first || second) := by
  constructor
  · intro g
    have kept := before.lastApply g
    cases done : act.run g with
    | mk result state =>
        rw [done] at kept
        cases result with
        | ok value => rw [run_bind_ok done, (after value).lastApply, kept]
        | error failure =>
            rw [run_bind_error done]
            exact kept
  · intro g
    have ends := before.outcome g
    cases done : act.run g with
    | mk result state =>
        rw [done] at ends
        cases result with
        | ok value =>
            have fine : first = false := by simpa [Except.isOk, Except.toBool] using ends
            rw [run_bind_ok done, (after value).outcome, fine, Bool.false_or]
        | error failure =>
            have failed : first = true := by simpa [Except.isOk, Except.toBool] using ends
            rw [run_bind_error done, failed]
            rfl

end Silent

section Steps

variable {library : Library} {answers : Answers}

theorem silent_runCommand (command : List String) :
    Silent (runCommand answers command) (!succeeds answers command) := by
  unfold runCommand succeeds
  cases answers.command command <;> exact ⟨fun _ => rfl, fun _ => rfl⟩

theorem silent_runUnchecked (command : List String) :
    Silent (runUnchecked answers command) (isMissing answers command) := by
  unfold runUnchecked isMissing
  cases answers.command command <;> exact ⟨fun _ => rfl, fun _ => rfl⟩

theorem silent_ensureChain (table chain : String) :
    Silent (ensureChain answers table chain) (chainFails answers table chain) := by
  unfold ensureChain chainFails
  cases succeeds answers ["iptables", "-t", table, "-S", chain] with
  | true => exact .pure ()
  | false => exact silent_runUnchecked _

theorem silent_ensureRule (table : String) (add : List String) (chain : String)
    (rule : List String) :
    Silent (ensureRule answers table add chain rule) (ruleFails answers table add chain rule) := by
  unfold ensureRule ruleFails
  cases succeeds answers (["iptables", "-t", table, "-C", chain] ++ rule) with
  | true => exact .pure ()
  | false => exact silent_runCommand _

theorem silent_ensureChains : Silent (ensureChains answers) (chainsFail answers) := by
  rw [chainsFail, Bool.or_assoc]
  apply (silent_ensureChain ..).bind
  intro _
  apply (silent_ensureChain ..).bind
  exact fun _ => silent_ensureChain ..

theorem silent_ensureJumpRules : Silent (ensureJumpRules answers) (jumpRulesFail answers) := by
  rw [jumpRulesFail, Bool.or_assoc]
  apply (silent_ensureRule ..).bind
  intro _
  apply (silent_ensureRule ..).bind
  exact fun _ => silent_ensureRule ..

theorem silent_ensureNatRules (subnetCidr apInterface upstreamInterface : String) :
    Silent (ensureNatRules answers subnetCidr apInterface upstreamInterface)
      (natRulesFail answers subnetCidr apInterface upstreamInterface) := by
  rw [natRulesFail, Bool.or_assoc]
  apply (silent_ensureRule ..).bind
  intro _
  apply (silent_ensureRule ..).bind
  exact fun _ => silent_ensureRule ..

theorem silent_teardown : Silent (teardown answers) (teardownFails answers) := by
  simp only [teardownFails, Bool.or_assoc]
  repeat apply (silent_runUnchecked _).bind; intro _
  exact silent_runUnchecked _

theorem silent_stopProcesses : Silent stopProcesses false := ⟨fun _ => rfl, fun _ => rfl⟩

theorem silent_startDnsmasq : Silent (startDnsmasq answers) answers.dnsmasq.isNone := by
  unfold startDnsmasq
  cases answers.dnsmasq <;> exact ⟨fun _ => rfl, fun _ => rfl⟩

theorem silent_startHostapd : Silent (startHostapd answers) answers.hostapd.isNone := by
  unfold startHostapd
  cases answers.hostapd <;> exact ⟨fun _ => rfl, fun _ => rfl⟩

theorem ipNetwork_known {cidr : String} {net : Network} (found : library.ipNetwork cidr = some net) :
    ipNetwork library cidr = pure net := by
  unfold ipNetwork
  rw [found]

theorem silent_persist (library : Library) (cfg : WifiConfig) :
    Silent (persist library cfg) (library.ipNetwork cfg.subnetCidr).isNone := by
  cases found : library.ipNetwork cfg.subnetCidr with
  | none =>
      have stopped : ipNetwork library cfg.subnetCidr =
          MonadExcept.throw (.invalidSubnet cfg.subnetCidr) := by
        unfold ipNetwork
        rw [found]
      unfold persist renderDnsmasq
      rw [stopped]
      exact ⟨fun _ => rfl, fun _ => rfl⟩
  | some net =>
      unfold persist renderDnsmasq
      rw [ipNetwork_known found]
      exact ⟨fun _ => rfl, fun _ => rfl⟩

theorem silent_configure (answers : Answers) {cfg : WifiConfig} {net : Network}
    (found : library.ipNetwork cfg.subnetCidr = some net) :
    Silent (configure library answers cfg) (configureFails answers cfg net) := by
  unfold configure
  simp only [configureFails, Bool.or_assoc]
  rw [ipNetwork_known found, pure_bind]
  apply (silent_runCommand _).bind
  intro _
  apply (silent_runCommand _).bind
  intro _
  apply (silent_runCommand _).bind
  intro _
  apply silent_ensureChains.bind
  intro _
  apply silent_ensureJumpRules.bind
  intro _
  apply (silent_ensureNatRules ..).bind
  intro _
  rw [← Bool.false_or (answers.dnsmasq.isNone || answers.hostapd.isNone)]
  apply silent_stopProcesses.bind
  intro _
  apply silent_startDnsmasq.bind
  exact fun _ => silent_startHostapd

/-- The call ends as an exception without a word, or it writes how it ended. -/
structure Told (g : GatewayRuntime) (outcome : Except Failure (Bool × String) × GatewayRuntime)
    (fails : Bool) : Prop where
  failed : fails = true → succeeded outcome.1 = false ∧ outcome.2.lastApply = g.lastApply
  ended : fails = false → ∃ message, outcome.2.lastApply = some (succeeded outcome.1, message)

theorem told_answer {g : GatewayRuntime} (ok : Bool) (message : String) :
    Told g ((answer ok message).run g) false := ⟨by simp, fun _ => ⟨message, rfl⟩⟩

theorem Silent.told {α : Type} {act : Act α} {next : α → Act (Bool × String)} {fails later : Bool}
    (silent : Silent act fails) (g : GatewayRuntime)
    (told : fails = false → ∀ value after, Told after ((next value).run after) later) :
    Told g ((act >>= next).run g) (fails || later) := by
  have kept := silent.lastApply g
  have ends := silent.outcome g
  cases done : act.run g with
  | mk result state =>
      rw [done] at kept ends
      cases result with
      | ok value =>
          have fine : fails = false := by simpa [Except.isOk, Except.toBool] using ends
          have after := told fine value state
          rw [run_bind_ok done, fine, Bool.false_or]
          exact ⟨fun failed => ⟨(after.failed failed).1, (after.failed failed).2.trans kept⟩,
            after.ended⟩
      | error failure =>
          have failed : fails = true := by simpa [Except.isOk, Except.toBool] using ends
          rw [run_bind_error done, failed]
          exact ⟨fun _ => ⟨rfl, kept⟩, by simp⟩

theorem told_finish (g : GatewayRuntime) : Told g (finish.run g) false := by
  have start : finish.run g = (if isRunning g.dnsmasq = false then
      answer false ("dnsmasq failed to start: " ++ orUnknown g.dnsmasqError)
    else if isRunning g.hostapd = false then
      answer false ("hostapd failed to start: " ++ orUnknown g.hostapdError)
    else saveLastKnownGood >>= fun _ => answer true "ap applied").run g := rfl
  rw [start]
  by_cases dnsmasq : isRunning g.dnsmasq = false
  · rw [if_pos dnsmasq]
    exact told_answer false _
  · rw [if_neg dnsmasq]
    by_cases hostapd : isRunning g.hostapd = false
    · rw [if_pos hostapd]
      exact told_answer false _
    · rw [if_neg hostapd]
      exact ⟨by simp, fun _ => ⟨_, rfl⟩⟩

theorem told_stopped (answers : Answers) (message : String) (g : GatewayRuntime) :
    Told g ((do stopProcesses; teardown answers; answer false message).run g)
      (teardownFails answers) := by
  rw [← Bool.false_or (teardownFails answers), ← Bool.or_false (teardownFails answers)]
  apply silent_stopProcesses.told g
  intro _ _ after
  apply silent_teardown.told after
  exact fun _ _ _ => told_answer false message

theorem told_disable (answers : Answers) (cfg : WifiConfig) (g : GatewayRuntime) :
    Told g ((disable answers cfg).run g) (disableFails answers cfg) := by
  unfold disable disableFails
  rw [← Bool.false_or (teardownFails answers || _),
    ← Bool.or_false (!succeeds answers ["ip", "-4", "addr", "flush", "dev", cfg.apInterface])]
  apply silent_stopProcesses.told g
  intro _ _ after
  apply silent_teardown.told after
  intro _ _ later
  apply (silent_runCommand _).told later
  exact fun _ _ _ => told_answer true "gateway disabled"

theorem told_applyLocked (library : Library) (answers : Answers) (cfg : WifiConfig)
    (g : GatewayRuntime) :
    Told g ((applyLocked library answers cfg).run g) (applyFails answers library cfg) := by
  have silent := silent_persist library cfg
  unfold applyFails applyLocked
  cases found : library.ipNetwork cfg.subnetCidr with
  | none =>
      rw [found] at silent
      change Told g _ ((none : Option Network).isNone || false)
      apply silent.told g
      intro fine
      cases fine
  | some net =>
      rw [found] at silent
      change Told g _ (Option.isNone (some net) ||
        if cfg.enabled = true then configureFails answers cfg net else disableFails answers cfg)
      apply silent.told g
      intro _ _ after
      by_cases enabled : cfg.enabled = true
      · rw [if_pos enabled, if_pos enabled, ← Bool.or_false (configureFails answers cfg net)]
        apply (silent_configure answers found).told after
        exact fun _ _ last => told_finish last
      · rw [if_neg enabled, if_neg enabled]
        exact told_disable answers cfg after

theorem Told.relabel {g : GatewayRuntime} {act : Act (Bool × String)} {fails : Bool}
    (told : Told g (act.run g) fails) (label : String) :
    Told g ((act >>= fun answer => pure (answer.1, label ++ answer.2)).run g) fails := by
  cases done : act.run g with
  | mk result after =>
      rw [done] at told
      cases result with
      | error failure =>
          rw [run_bind_error done]
          exact ⟨told.failed, told.ended⟩
      | ok answer =>
          rw [run_bind_ok done]
          exact ⟨told.failed, told.ended⟩

theorem told_rollback (answers : Answers) (g : GatewayRuntime) :
    Told g ((rollbackLocked library answers).run g)
      ((Call.rollback answers).interrupted library g) := by
  rw [rollbackLocked, run_get]
  cases made : g.lkg with
  | none =>
      have idle : (Call.rollback answers).config library g = none := by simp [Call.config, made]
      simp only [Call.interrupted, idle]
      exact told_stopped answers _ g
  | some lkg =>
      cases read : readConfig library lkg.config with
      | none =>
          have idle : (Call.rollback answers).config library g = none := by
            simp [Call.config, made, read]
          simp only [Call.interrupted, idle, read]
          exact told_stopped answers _ g
      | some cfg =>
          have tries : (Call.rollback answers).config library g = some cfg := by
            simp [Call.config, made, read]
          simp only [Call.interrupted, tries, read]
          exact (told_applyLocked library answers cfg g).relabel "rollback: "

theorem told_restoreWith (answers : Answers) (source : String) (cfg : WifiConfig)
    (g : GatewayRuntime) :
    Told g ((restoreWith library answers source cfg).run g) (applyFails answers library cfg) := by
  have told := (told_applyLocked library answers cfg g).relabel ("restore(" ++ source ++ "): ")
  unfold restoreWith
  cases done : (applyLocked library answers cfg >>= fun answer =>
      (pure (answer.1, "restore(" ++ source ++ "): " ++ answer.2) : Act _)).run g with
  | mk result after =>
      rw [done] at told
      cases result with
      | ok answer =>
          rw [run_tryCatch_ok done]
          exact told
      | error failure =>
          rw [run_tryCatch_error done]
          exact ⟨told.failed, told.ended⟩

theorem told_restore (answers : Answers) {g : GatewayRuntime}
    (counts : ¬(Call.restore answers).findsNothing library g) :
    Told g ((restoreFromDisk library answers).run g)
      ((Call.restore answers).interrupted library g) := by
  rw [restoreFromDisk, run_get]
  cases kept : g.lkg.bind (·.config) with
  | some text =>
      cases read : library.modelValidateJson text with
      | none =>
          have idle : (Call.restore answers).config library g = none := by
            simp [Call.config, savedConfig, kept, read]
          simp only [Call.interrupted, idle, read, kept, Option.isSome_some]
          exact ⟨fun _ => ⟨rfl, rfl⟩, by simp⟩
      | some cfg =>
          have tries : (Call.restore answers).config library g = some cfg := by
            simp [Call.config, savedConfig, kept, read]
          simp only [Call.interrupted, tries, read]
          exact told_restoreWith answers "lkg" cfg g
  | none =>
      cases read : readConfig library g.files.config with
      | none => exact absurd ⟨kept, read⟩ counts
      | some cfg =>
          have tries : (Call.restore answers).config library g = some cfg := by
            simp [Call.config, savedConfig, kept, read]
          simp only [Call.interrupted, tries]
          exact told_restoreWith answers "config" cfg g

theorem Call.told {g : GatewayRuntime} {call : Call} (counts : ¬call.findsNothing library g) :
    Told g ((call.perform library).run g) (call.interrupted library g) := by
  cases call with
  | apply cfg answers => exact told_applyLocked library answers cfg g
  | rollback answers => exact told_rollback answers g
  | restore answers => exact told_restore answers counts

theorem Call.stores {g : GatewayRuntime} {call : Call} {cfg : WifiConfig}
    (applies : call.config library g = some cfg) :
    (call.step library g).files.config = some (library.modelDumpJson cfg) := by
  cases call with
  | apply other answers =>
      have tried : Tried library cfg g (((Op.apply other answers).perform library).run g) :=
        perform_tried applies
      exact tried.config
  | rollback answers =>
      have tried : Tried library cfg g (((Op.rollback answers).perform library).run g) :=
        perform_tried applies
      exact tried.config
  | restore answers =>
      change ((restoreFromDisk library answers).run g).2.files.config = _
      rw [restoreFromDisk_run applies]
      exact (applyLocked_tried library answers cfg g).config

theorem stopped_fails (answers : Answers) (message : String) (g : GatewayRuntime) :
    succeeded ((do stopProcesses; teardown answers; answer false message).run g).1 = false := by
  have stop : stopProcesses.run g = (.ok (), { g with hostapd := none, dnsmasq := none }) := rfl
  rw [run_bind_ok stop]
  cases done : (teardown answers).run { g with hostapd := none, dnsmasq := none } with
  | mk result after =>
      cases result with
      | ok value =>
          rw [run_bind_ok done]
          rfl
      | error failure =>
          rw [run_bind_error done]
          rfl

theorem Call.idle_fails {g : GatewayRuntime} {call : Call} (idle : call.config library g = none) :
    succeeded ((call.perform library).run g).1 = false := by
  cases call with
  | apply cfg answers => cases idle
  | rollback answers =>
      change succeeded ((rollbackLocked library answers).run g).1 = false
      rw [rollbackLocked, run_get]
      cases made : g.lkg with
      | none => exact stopped_fails answers _ g
      | some lkg =>
          simp only [Call.config, made, Option.bind_some] at idle
          simp only [idle]
          exact stopped_fails answers _ g
  | restore answers =>
      change succeeded ((restoreFromDisk library answers).run g).1 = false
      simp only [Call.config, savedConfig] at idle
      rw [restoreFromDisk, run_get]
      cases kept : g.lkg.bind (·.config) with
      | some text =>
          simp only [kept] at idle
          simp only [idle]
          rfl
      | none =>
          simp only [kept] at idle
          simp only [idle]
          rfl

/-- The record is true of the call exactly if no exception interrupts it while the record of an
earlier call says ok. -/
theorem Call.truthful_iff (library : Library) (g : GatewayRuntime) (call : Call) :
    call.Truthful library g ↔ ¬(call.interrupted library g = true ∧ recordsOk g) := by
  by_cases nothing : call.findsNothing library g
  · have free : call.interrupted library g = false := by
      cases call with
      | restore answers =>
          have idle : (Call.restore answers).config library g = none := by
            simp only [Call.config, savedConfig, nothing.1]
            exact nothing.2
          simp only [Call.interrupted, idle, nothing.1, Option.isSome_none]
      | apply cfg answers => cases nothing
      | rollback answers => cases nothing
    simp [free, Call.Truthful, nothing]
  · have told := Call.told nothing
    cases interrupted : call.interrupted library g with
    | true =>
        obtain ⟨failed, same⟩ := told.failed interrupted
        have record : recordsOk (call.step library g) ↔ recordsOk g := by
          simp only [recordsOk, Call.step, same]
        simp only [Call.Truthful, nothing, not_false_eq_true, true_implies, record, failed,
          Bool.false_eq_true, iff_false, true_and]
        exact ⟨fun truthful => truthful.1, fun silent => ⟨silent, fun ok => absurd ok silent⟩⟩
    | false =>
        obtain ⟨message, written⟩ := told.ended interrupted
        have record : recordsOk (call.step library g) ↔
            succeeded ((call.perform library).run g).1 = true := by
          simp [recordsOk, Call.step, written]
        refine ⟨fun _ => by simp, fun _ _ => ⟨record, fun ok => ?_⟩⟩
        cases applies : call.config library g with
        | none =>
            have fails := Call.idle_fails applies
            rw [record.mp ok] at fails
            cases fails
        | some cfg => exact ⟨cfg, rfl, Call.stores applies⟩

end Steps

/-- In a run of calls the record is true after each exactly if no call is interrupted while the
record before it says ok. -/
theorem status_truthful_iff (library : Library) (g : GatewayRuntime) (calls : List Call) :
    Runs.Meets (Call.step library) (Call.Truthful library) g calls ↔
      Runs.Meets (Call.step library)
        (fun g call => ¬(call.interrupted library g = true ∧ recordsOk g)) g calls :=
  Runs.meets_congr (fun _ _ (_ : True) => trivial)
    (fun g call (_ : True) => call.truthful_iff library g) trivial calls

/-- The interface cannot be set up. -/
def linkFails : Answers :=
  { goodAnswers with
    command := fun command =>
      if command = ["ip", "link", "set", "wlan0", "up"] then .failure "Cannot find device" else .success }

/-- A gateway that was applied once and then cannot be applied again still says ok. -/
theorem stale_after_failed_apply :
    ¬ ∀ (library : Library) (calls : List Call),
      Runs.Meets (Call.step library) (Call.Truthful library) .fresh calls := by
  intro claimed
  have meets := claimed sampleLibrary [.apply homeConfig goodAnswers, .apply homeConfig linkFails]
  have truthful := meets.2.1 id
  have recorded : recordsOk ((Call.apply homeConfig linkFails).step sampleLibrary
      ((Call.apply homeConfig goodAnswers).step sampleLibrary .fresh)) := ⟨"ap applied", by decide⟩
  have failed : succeeded (((Call.apply homeConfig linkFails).perform sampleLibrary).run
      ((Call.apply homeConfig goodAnswers).step sampleLibrary .fresh)).1 = false := by decide
  rw [truthful.1.mp recorded] at failed
  cases failed

end PiAgents.Gateway
