import PiAgents.Lib.Runs
import PiAgents.Gateway.Runtime

/-! Which configuration a restart brings back: what every operation leaves in the state directory,
and what the last successful one has to be for the restore to apply it again. -/

namespace PiAgents.Gateway

inductive Op where
  | apply (cfg : WifiConfig) (answers : Answers)
  | rollback (answers : Answers)

/-- A configuration that an operation has tried, and whether it succeeded. -/
structure Attempt where
  config : WifiConfig
  ok : Bool
deriving DecidableEq

structure History where
  runtime : GatewayRuntime
  attempts : List Attempt

def succeeded : Except Failure (Bool × String) → Bool
  | .ok (ok, _) => ok
  | .error _ => false

section Model

variable (library : Library)

def Op.perform : Op → Act (Bool × String)
  | .apply cfg answers => applyLocked library answers cfg
  | .rollback answers => rollbackLocked library answers

/-- The configuration that the operation tries. -/
def Op.config (g : GatewayRuntime) : Op → Option WifiConfig
  | .apply cfg _ => some cfg
  | .rollback _ => g.lkg.bind fun lkg => readConfig library lkg.config

def History.step (h : History) (op : Op) : History :=
  let result := (op.perform library).run h.runtime
  ⟨result.2, h.attempts ++
    ((op.config library h.runtime).map fun cfg => ⟨cfg, succeeded result.1⟩).toList⟩

def reached (ops : List Op) : History := Runs.run (History.step library) ⟨.fresh, []⟩ ops

/-- After a restart, restoring does what applying the configuration does. -/
def Restores (g : GatewayRuntime) (cfg : WifiConfig) : Prop :=
  ∀ answers, ((restoreFromDisk library answers).run g.restart).2 =
    ((applyLocked library answers cfg).run g.restart).2

end Model

def lastApplied (attempts : List Attempt) : Option WifiConfig :=
  ((attempts.filter (·.ok)).getLast?).map (·.config)

/-- The configuration is enabled; or no enabled one has succeeded, and none other was tried
last. -/
def Stands (attempts : List Attempt) (cfg : WifiConfig) : Prop :=
  cfg.enabled = true ∨ (∀ attempt ∈ attempts, attempt.ok = true → attempt.config.enabled = false) ∧
    attempts.getLast?.map (·.config) = some cfg

/-- Nothing in the state directory but the record of the last operation changes. -/
def Keeps {α : Type} (act : Act α) : Prop :=
  ∀ g : GatewayRuntime, (act.run g).2.files = g.files ∧ (act.run g).2.lkg = g.lkg

section Effects

variable {α β : Type} {act : Act α} {next : α → Act β} {g after : GatewayRuntime}

private theorem state_bind {first : StateM GatewayRuntime α}
    {second : α → StateM GatewayRuntime β} :
    (first >>= second) g = second (first g).1 (first g).2 := rfl

theorem run_bind_ok {value : α} (ok : act.run g = (.ok value, after)) :
    (act >>= next).run g = (next value).run after := by
  rw [ExceptT.run_bind, state_bind, ok]

theorem run_bind_error {failure : Failure} (error : act.run g = (.error failure, after)) :
    (act >>= next).run g = (.error failure, after) := by
  rw [ExceptT.run_bind, state_bind, error]
  rfl

theorem run_tryCatch_ok {handle : Failure → Act α} {value : α}
    (ok : act.run g = (.ok value, after)) : (tryCatch act handle).run g = (.ok value, after) := by
  rw [ExceptT.run_tryCatch, state_bind, ok]
  rfl

theorem run_tryCatch_error {handle : Failure → Act α} {failure : Failure}
    (error : act.run g = (.error failure, after)) :
    (tryCatch act handle).run g = (handle failure).run after := by
  rw [ExceptT.run_tryCatch, state_bind, error]

theorem run_get {next : GatewayRuntime → Act β} : (get >>= next).run g = (next g).run g := rfl

namespace Keeps

theorem pure (value : α) : Keeps (Pure.pure value : Act α) := fun _ => ⟨rfl, rfl⟩

theorem throw (failure : Failure) : Keeps (throw failure : Act α) := fun _ => ⟨rfl, rfl⟩

theorem bind (first : Keeps act) (second : ∀ value, Keeps (next value)) :
    Keeps (act >>= next) := by
  intro g
  have before := first g
  cases done : act.run g with
  | mk result after =>
      rw [done] at before
      cases result with
      | ok value =>
          rw [run_bind_ok done]
          have last := second value after
          exact ⟨last.1.trans before.1, last.2.trans before.2⟩
      | error failure =>
          rw [run_bind_error done]
          exact before

end Keeps

end Effects

section Steps

variable {library : Library} {answers : Answers}

theorem keeps_ipNetwork (cidr : String) : Keeps (ipNetwork library cidr) := by
  unfold ipNetwork
  split
  · exact .pure _
  · exact .throw _

theorem keeps_runCommand (command : List String) : Keeps (runCommand answers command) := by
  unfold runCommand
  split
  · exact .pure _
  · exact .throw _

theorem keeps_runUnchecked (command : List String) : Keeps (runUnchecked answers command) := by
  unfold runUnchecked
  split
  · exact .throw _
  · exact .pure _

theorem keeps_ensureChain (table chain : String) : Keeps (ensureChain answers table chain) := by
  unfold ensureChain
  split
  · exact .pure _
  · exact keeps_runUnchecked _

theorem keeps_ensureRule (table : String) (add : List String) (chain : String)
    (rule : List String) : Keeps (ensureRule answers table add chain rule) := by
  unfold ensureRule
  split
  · exact .pure _
  · exact keeps_runCommand _

theorem keeps_ensureChains : Keeps (ensureChains answers) :=
  (keeps_ensureChain _ _).bind fun _ => (keeps_ensureChain _ _).bind fun _ => keeps_ensureChain _ _

theorem keeps_ensureJumpRules : Keeps (ensureJumpRules answers) :=
  (keeps_ensureRule _ _ _ _).bind fun _ =>
    (keeps_ensureRule _ _ _ _).bind fun _ => keeps_ensureRule _ _ _ _

theorem keeps_ensureNatRules (subnetCidr apInterface upstreamInterface : String) :
    Keeps (ensureNatRules answers subnetCidr apInterface upstreamInterface) :=
  (keeps_ensureRule _ _ _ _).bind fun _ =>
    (keeps_ensureRule _ _ _ _).bind fun _ => keeps_ensureRule _ _ _ _

theorem keeps_teardown : Keeps (teardown answers) := by
  unfold teardown
  repeat refine (keeps_runUnchecked _).bind fun _ => ?_
  exact keeps_runUnchecked _

theorem keeps_stopProcesses : Keeps stopProcesses := fun _ => ⟨rfl, rfl⟩

theorem keeps_startDnsmasq : Keeps (startDnsmasq answers) := by
  unfold startDnsmasq
  split
  · exact fun _ => ⟨rfl, rfl⟩
  · exact .throw _

theorem keeps_startHostapd : Keeps (startHostapd answers) := by
  unfold startHostapd
  split
  · exact fun _ => ⟨rfl, rfl⟩
  · exact .throw _

theorem keeps_answer (ok : Bool) (message : String) : Keeps (answer ok message) :=
  fun _ => ⟨rfl, rfl⟩

theorem keeps_configure (library : Library) (answers : Answers) (cfg : WifiConfig) : Keeps (configure library answers cfg) := by
  unfold configure
  refine (keeps_ipNetwork _).bind fun net => ?_
  refine (keeps_runCommand _).bind fun _ => ?_
  refine (keeps_runCommand _).bind fun _ => ?_
  refine (keeps_runCommand _).bind fun _ => ?_
  refine keeps_ensureChains.bind fun _ => ?_
  refine keeps_ensureJumpRules.bind fun _ => ?_
  refine (keeps_ensureNatRules _ _ _).bind fun _ => ?_
  refine keeps_stopProcesses.bind fun _ => ?_
  exact keeps_startDnsmasq.bind fun _ => keeps_startHostapd

theorem keeps_disable (answers : Answers) (cfg : WifiConfig) : Keeps (disable answers cfg) := by
  unfold disable
  refine keeps_stopProcesses.bind fun _ => ?_
  refine keeps_teardown.bind fun _ => ?_
  exact (keeps_runCommand _).bind fun _ => keeps_answer _ _

theorem persist_run (library : Library) (cfg : WifiConfig) (g : GatewayRuntime) :
    ((persist library cfg).run g).2.files.config = some (library.modelDumpJson cfg) ∧
      ((persist library cfg).run g).2.lkg = g.lkg := by
  cases found : library.ipNetwork cfg.subnetCidr with
  | none =>
      have stopped : ipNetwork library cfg.subnetCidr =
          MonadExcept.throw (.invalidSubnet cfg.subnetCidr) := by
        unfold ipNetwork
        rw [found]
      unfold persist renderDnsmasq
      rw [stopped]
      exact ⟨rfl, rfl⟩
  | some net =>
      have known : ipNetwork library cfg.subnetCidr = pure net := by
        unfold ipNetwork
        rw [found]
      unfold persist renderDnsmasq
      rw [known]
      exact ⟨rfl, rfl⟩

theorem finish_run (g : GatewayRuntime) : (finish.run g).2.files = g.files ∧
    (finish.run g).2.lkg = if succeeded (finish.run g).1 then some g.files else g.lkg := by
  have start : finish.run g = (if isRunning g.dnsmasq = false then
      answer false ("dnsmasq failed to start: " ++ orUnknown g.dnsmasqError)
    else if isRunning g.hostapd = false then
      answer false ("hostapd failed to start: " ++ orUnknown g.hostapdError)
    else saveLastKnownGood >>= fun _ => answer true "ap applied").run g := rfl
  rw [start]
  by_cases dnsmasq : isRunning g.dnsmasq = false
  · rw [if_pos dnsmasq]
    exact ⟨rfl, rfl⟩
  · rw [if_neg dnsmasq]
    by_cases hostapd : isRunning g.hostapd = false
    · rw [if_pos hostapd]
      exact ⟨rfl, rfl⟩
    · rw [if_neg hostapd]
      exact ⟨rfl, rfl⟩

/-- What trying a configuration leaves. -/
structure Tried (library : Library) (cfg : WifiConfig) (g : GatewayRuntime)
    (outcome : Except Failure (Bool × String) × GatewayRuntime) : Prop where
  config : outcome.2.files.config = some (library.modelDumpJson cfg)
  lkg : outcome.2.lkg =
    if succeeded outcome.1 && cfg.enabled then some outcome.2.files else g.lkg

theorem applyLocked_tried (library : Library) (answers : Answers) (cfg : WifiConfig) (g : GatewayRuntime) :
    Tried library cfg g ((applyLocked library answers cfg).run g) := by
  have persisted := persist_run library cfg g
  cases saved : (persist library cfg).run g with
  | mk result before =>
      rw [saved] at persisted
      cases result with
      | error failure =>
          rw [applyLocked, run_bind_error saved]
          exact ⟨persisted.1, persisted.2⟩
      | ok value =>
          rw [applyLocked, run_bind_ok saved]
          by_cases enabled : cfg.enabled = true
          · rw [if_pos enabled]
            have kept := keeps_configure library answers cfg before
            cases configured : (configure library answers cfg).run before with
            | mk result after =>
                rw [configured] at kept
                have unchanged := kept.2.trans persisted.2
                cases result with
                | error failure =>
                    rw [run_bind_error configured]
                    exact ⟨(congrArg Files.config kept.1).trans persisted.1, unchanged⟩
                | ok value =>
                    rw [run_bind_ok configured]
                    have finished := finish_run after
                    constructor
                    · rw [finished.1, kept.1]
                      exact persisted.1
                    · rw [finished.2, finished.1, enabled, Bool.and_true, unchanged]
          · rw [if_neg enabled]
            have kept := keeps_disable answers cfg before
            constructor
            · rw [kept.1]
              exact persisted.1
            · rw [kept.2, eq_false_of_ne_true enabled, Bool.and_false]
              exact persisted.2

theorem Tried.relabel {cfg : WifiConfig} {g : GatewayRuntime} {act : Act (Bool × String)}
    (tried : Tried library cfg g (act.run g)) (label : String) : Tried library cfg g
      ((act >>= fun answer => pure (answer.1, label ++ answer.2)).run g) := by
  cases done : act.run g with
  | mk result after =>
      rw [done] at tried
      cases result with
      | error failure =>
          rw [run_bind_error done]
          exact ⟨tried.config, tried.lkg⟩
      | ok answer =>
          rw [run_bind_ok done]
          exact ⟨tried.config, tried.lkg⟩

theorem perform_tried {op : Op} {cfg : WifiConfig} {g : GatewayRuntime}
    (tries : op.config library g = some cfg) :
    Tried library cfg g ((op.perform library).run g) := by
  cases op with
  | apply other answers =>
      cases tries
      exact applyLocked_tried library answers cfg g
  | rollback answers =>
      cases made : g.lkg with
      | none =>
          rw [Op.config, made] at tries
          cases tries
      | some lkg =>
          rw [Op.config, made, Option.bind_some] at tries
          have again : (rollbackLocked library answers).run g =
              (applyLocked library answers cfg >>= fun answer =>
                pure (answer.1, "rollback: " ++ answer.2)).run g := by
            rw [rollbackLocked, run_get]
            simp only [made, tries]
          change Tried library cfg g ((rollbackLocked library answers).run g)
          rw [again]
          exact (applyLocked_tried library answers cfg g).relabel _

theorem keeps_perform {op : Op} {g : GatewayRuntime} (idle : op.config library g = none) :
    ((op.perform library).run g).2.files = g.files ∧
      ((op.perform library).run g).2.lkg = g.lkg := by
  cases op with
  | apply cfg answers => cases idle
  | rollback answers =>
      have stopped : ∀ message, Keeps (stopProcesses >>= fun _ => teardown answers >>= fun _ =>
          answer false message) := fun message =>
        keeps_stopProcesses.bind fun _ => keeps_teardown.bind fun _ => keeps_answer _ _
      change ((rollbackLocked library answers).run g).2.files = _ ∧
        ((rollbackLocked library answers).run g).2.lkg = _
      rw [rollbackLocked, run_get]
      cases made : g.lkg with
      | none =>
          have kept := stopped "no last-known-good config; services stopped" g
          exact ⟨kept.1, kept.2.trans made⟩
      | some lkg =>
          rw [Op.config, made, Option.bind_some] at idle
          simp only [idle]
          have kept := stopped "invalid last-known-good config; services stopped" g
          exact ⟨kept.1, kept.2.trans made⟩

end Steps

section Restore

variable {library : Library}

/-- What the state directory holds of the attempts: the last configuration tried, and the last
enabled one that succeeded. -/
structure Recorded (library : Library) (h : History) : Prop where
  config : h.runtime.files.config =
    h.attempts.getLast?.map fun attempt => library.modelDumpJson attempt.config
  lkg : h.runtime.lkg.bind (·.config) =
    ((h.attempts.filter fun attempt => attempt.ok && attempt.config.enabled).getLast?).map
      fun attempt => library.modelDumpJson attempt.config

theorem Recorded.step {h : History} (recorded : Recorded library h) (op : Op) :
    Recorded library (h.step library op) := by
  cases tries : op.config library h.runtime with
  | none =>
      have kept := keeps_perform tries
      have same : h.step library op = ⟨((op.perform library).run h.runtime).2, h.attempts⟩ := by
        rw [History.step, tries]
        exact congrArg (History.mk _) (List.append_nil _)
      rw [same]
      constructor
      · exact (congrArg Files.config kept.1).trans recorded.config
      · exact (congrArg (·.bind Files.config) kept.2).trans recorded.lkg
  | some cfg =>
      have tried := perform_tried tries
      have same : h.step library op = ⟨((op.perform library).run h.runtime).2, h.attempts ++
          [⟨cfg, succeeded ((op.perform library).run h.runtime).1⟩]⟩ := by
        rw [History.step, tries]
        rfl
      rw [same]
      constructor
      · rw [List.getLast?_concat]
        exact tried.config
      · change Option.bind ((op.perform library).run h.runtime).2.lkg _ = _
        rw [tried.lkg, List.filter_append, List.filter_singleton]
        cases saved : succeeded ((op.perform library).run h.runtime).1 && cfg.enabled with
        | true =>
            rw [if_pos rfl, cond_true, List.getLast?_concat]
            exact tried.config
        | false =>
            rw [if_neg Bool.false_ne_true, cond_false, List.append_nil]
            exact recorded.lkg

theorem recorded_reached (library : Library) (ops : List Op) :
    Recorded library (reached library ops) := by
  have kept : ∀ h : History, Recorded library h →
      Recorded library (Runs.run (History.step library) h ops) := by
    induction ops with
    | nil => exact fun _ recorded => recorded
    | cons op rest ih => exact fun h recorded => ih _ (recorded.step op)
  exact kept _ ⟨rfl, rfl⟩

/-- The configuration that the state directory holds for a restore. -/
def savedConfig (library : Library) (g : GatewayRuntime) : Option WifiConfig :=
  match g.lkg.bind (·.config) with
  | some text => library.modelValidateJson text
  | none => readConfig library g.files.config

theorem restoreWith_run (source : String) (cfg : WifiConfig) (answers : Answers)
    (g : GatewayRuntime) : ((restoreWith library answers source cfg).run g).2 =
      ((applyLocked library answers cfg).run g).2 := by
  cases applied : (applyLocked library answers cfg).run g with
  | mk result after =>
      cases result with
      | error failure =>
          rw [restoreWith, run_tryCatch_error (run_bind_error applied)]
          rfl
      | ok answer =>
          let relabel (answer : Bool × String) : Act (Bool × String) :=
            pure (answer.1, "restore(" ++ source ++ "): " ++ answer.2)
          have told : (applyLocked library answers cfg >>= relabel).run g =
              (.ok (answer.1, "restore(" ++ source ++ "): " ++ answer.2), after) :=
            run_bind_ok applied
          rw [restoreWith, run_tryCatch_ok told]

theorem restoreFromDisk_run {g : GatewayRuntime} {cfg : WifiConfig}
    (saved : savedConfig library g = some cfg) (answers : Answers) :
    ((restoreFromDisk library answers).run g).2 =
      ((applyLocked library answers cfg).run g).2 := by
  rw [restoreFromDisk, run_get]
  unfold savedConfig at saved
  cases text : g.lkg.bind (·.config) with
  | some text =>
      simp only [text] at saved
      simp only [saved]
      exact restoreWith_run _ _ _ _
  | none =>
      simp only [text] at saved
      simp only [saved]
      exact restoreWith_run _ _ _ _

/-- A configuration that was tried can be read back. -/
def ReadsBack (library : Library) (attempts : List Attempt) : Prop :=
  ∀ attempt ∈ attempts, library.modelValidateJson (library.modelDumpJson attempt.config) =
    some attempt.config

theorem restores_iff {g : GatewayRuntime} {attempts : List Attempt}
    (reads : ReadsBack library attempts) {saved tried : Attempt} (inAttempts : saved ∈ attempts)
    (triedIn : tried ∈ attempts) (found : savedConfig library g = some saved.config) :
    Restores library g tried.config ↔ saved.config = tried.config := by
  have restored : savedConfig library g.restart = some saved.config := found
  constructor
  · intro same
    let quiet : Answers := ⟨fun _ => .success, none, none⟩
    have effect := same quiet
    rw [restoreFromDisk_run restored] at effect
    have first := (applyLocked_tried library quiet saved.config g.restart).config
    have second := (applyLocked_tried library quiet tried.config g.restart).config
    rw [effect, second] at first
    have texts := Option.some.inj first
    have read := reads saved inAttempts
    rw [← texts, reads tried triedIn] at read
    exact (Option.some.inj read).symm
  · intro same answers
    rw [restoreFromDisk_run restored, same]

theorem mem_of_lastApplied {attempts : List Attempt} {cfg : WifiConfig}
    (last : lastApplied attempts = some cfg) :
    ∃ front attempt, attempts.filter (·.ok) = front ++ [attempt] ∧ attempt.config = cfg := by
  rcases List.eq_nil_or_concat (attempts.filter (·.ok)) with none | ⟨front, attempt, parts⟩
  · rw [lastApplied, none] at last
    cases last
  · rw [List.concat_eq_append] at parts
    rw [lastApplied, parts, List.getLast?_concat] at last
    exact ⟨front, attempt, parts, Option.some.inj last⟩

/-- After a restart the restore applies the last configuration that was applied successfully
exactly when it is enabled, or no enabled one ever succeeded and none other was tried after it. -/
theorem restore_applies_last_iff (library : Library) (ops : List Op)
    (reads : ReadsBack library (reached library ops).attempts) {cfg : WifiConfig}
    (last : lastApplied (reached library ops).attempts = some cfg) :
    Restores library (reached library ops).runtime cfg ↔
      Stands (reached library ops).attempts cfg := by
  have recorded := recorded_reached library ops
  rcases mem_of_lastApplied last with ⟨front, attempt, parts, rfl⟩
  have member : attempt ∈ (reached library ops).attempts ∧ attempt.ok = true := by
    have inFilter : attempt ∈ (reached library ops).attempts.filter (·.ok) := by
      rw [parts]
      exact List.mem_append_right _ (List.mem_singleton_self _)
    exact List.mem_filter.mp inFilter
  have enabledOnes : (reached library ops).attempts.filter
      (fun attempt => attempt.ok && attempt.config.enabled) =
      (front ++ [attempt]).filter (·.config.enabled) := by
    rw [← parts, List.filter_filter]
    apply List.filter_congr
    intro other _
    exact Bool.and_comm _ _
  have kept := recorded.lkg
  cases newest : ((reached library ops).attempts.filter
      fun attempt => attempt.ok && attempt.config.enabled).getLast? with
  | some saved =>
      have found := List.mem_filter.mp (List.mem_of_getLast? newest)
      have successful := Bool.and_eq_true_iff.mp found.2
      rw [newest] at kept
      have read : savedConfig library (reached library ops).runtime = some saved.config := by
        unfold savedConfig
        rw [kept]
        exact reads saved found.1
      rw [restores_iff reads found.1 member.1 read]
      by_cases enabled : attempt.config.enabled = true
      · rw [enabledOnes, List.filter_append, List.filter_singleton, enabled, cond_true,
          List.getLast?_concat] at newest
        cases newest
        exact iff_of_true rfl (Or.inl enabled)
      · apply iff_of_false
        · intro same
          rw [same] at successful
          exact enabled successful.2
        · rintro (isEnabled | ⟨none, _⟩)
          · exact enabled isEnabled
          · have disabled := none saved found.1 successful.1
            rw [successful.2] at disabled
            cases disabled
  | none =>
      have without := List.getLast?_eq_none_iff.mp newest
      rw [newest] at kept
      have disabled : ∀ other ∈ (reached library ops).attempts, other.ok = true →
          other.config.enabled = false := by
        intro other inAttempts ok
        by_contra enabled
        have listed : other ∈ (reached library ops).attempts.filter
            fun attempt => attempt.ok && attempt.config.enabled := by
          apply List.mem_filter.mpr
          exact ⟨inAttempts, Bool.and_eq_true_iff.mpr ⟨ok, eq_true_of_ne_false enabled⟩⟩
        rw [without] at listed
        cases listed
      have unable := disabled attempt member.1 member.2
      cases final : (reached library ops).attempts.getLast? with
      | none =>
          have empty := List.getLast?_eq_none_iff.mp final
          have listed := member.1
          rw [empty] at listed
          cases listed
      | some tried =>
          have inAttempts := List.mem_of_getLast? final
          have read : savedConfig library (reached library ops).runtime = some tried.config := by
            unfold savedConfig
            rw [kept, readConfig, recorded.config, final]
            exact reads tried inAttempts
          rw [restores_iff reads inAttempts member.1 read, Stands, unable, final]
          constructor
          · intro same
            exact Or.inr ⟨disabled, congrArg some same⟩
          · rintro (isEnabled | ⟨_, same⟩)
            · cases isEnabled
            · exact Option.some.inj same

end Restore

def homeConfig : WifiConfig where
  ssid := "home"
  psk := "correct horse"
  countryCode := "PL"
  channel := 6
  apInterface := "wlan0"
  upstreamInterface := "eth0"
  subnetCidr := "192.168.50.0/24"
  gatewayIp := "192.168.50.1"
  dhcpRangeStart := "192.168.50.100"
  dhcpRangeEnd := "192.168.50.200"
  enabled := true
  ssid_length := by decide
  psk_length := by decide
  countryCode_length := by decide
  channel_range := by decide
  apInterface_length := by decide
  upstreamInterface_length := by decide

def offConfig : WifiConfig := { homeConfig with enabled := false }

/-- The JSON text of a configuration whose strings need no escapes. -/
def plainJson (cfg : WifiConfig) : String :=
  "\x7b\"ssid\":\"" ++ cfg.ssid ++ "\",\"psk\":\"" ++ cfg.psk ++
    "\",\"country_code\":\"" ++ cfg.countryCode ++ "\",\"channel\":" ++ toString cfg.channel ++
    ",\"ap_interface\":\"" ++ cfg.apInterface ++
    "\",\"upstream_interface\":\"" ++ cfg.upstreamInterface ++
    "\",\"subnet_cidr\":\"" ++ cfg.subnetCidr ++ "\",\"gateway_ip\":\"" ++ cfg.gatewayIp ++
    "\",\"dhcp_range_start\":\"" ++ cfg.dhcpRangeStart ++
    "\",\"dhcp_range_end\":\"" ++ cfg.dhcpRangeEnd ++
    "\",\"enabled\":" ++ (if cfg.enabled then "true" else "false") ++ "\x7d"

def sampleLibrary : Library where
  modelDumpJson := plainJson
  modelValidateJson text :=
    if text = plainJson homeConfig then some homeConfig
    else if text = plainJson offConfig then some offConfig
    else none
  ipNetwork cidr := if cidr = "192.168.50.0/24" then some ⟨24, "255.255.255.0"⟩ else none
  errorText _ := "error"

/-- Every command succeeds and both processes run. -/
def goodAnswers : Answers := ⟨fun _ => .success, some ⟨true, none⟩, some ⟨true, none⟩⟩

private theorem sample_reads_home :
    sampleLibrary.modelValidateJson (sampleLibrary.modelDumpJson homeConfig) = some homeConfig := by
  simp only [sampleLibrary, if_true]

private theorem sample_reads_off :
    sampleLibrary.modelValidateJson (sampleLibrary.modelDumpJson offConfig) = some offConfig := by
  have different : plainJson offConfig ≠ plainJson homeConfig := by decide +kernel
  simp only [sampleLibrary, different, if_true, if_false]

theorem restore_applies_home :
    Restores sampleLibrary (reached sampleLibrary [.apply homeConfig goodAnswers]).runtime
      homeConfig := by
  have attempts : (reached sampleLibrary [.apply homeConfig goodAnswers]).attempts =
      [⟨homeConfig, true⟩] := by decide
  have reads : ReadsBack sampleLibrary
      (reached sampleLibrary [.apply homeConfig goodAnswers]).attempts := by
    rw [attempts]
    intro attempt member
    rw [List.mem_singleton.mp member]
    exact sample_reads_home
  have last : lastApplied (reached sampleLibrary [.apply homeConfig goodAnswers]).attempts =
      some homeConfig := by
    rw [attempts]
    rfl
  exact (restore_applies_last_iff sampleLibrary [.apply homeConfig goodAnswers] reads last).mpr
    (Or.inl rfl)

/-- A gateway that was switched off after it worked comes back on with the restart. -/
theorem restore_enables_disabled_gateway :
    ¬ ∀ (library : Library) (ops : List Op), ReadsBack library (reached library ops).attempts →
      ∀ cfg, lastApplied (reached library ops).attempts = some cfg →
        Restores library (reached library ops).runtime cfg := by
  intro claimed
  have attempts : (reached sampleLibrary [.apply homeConfig goodAnswers,
      .apply offConfig goodAnswers]).attempts = [⟨homeConfig, true⟩, ⟨offConfig, true⟩] := by decide
  have reads : ReadsBack sampleLibrary [⟨homeConfig, true⟩, ⟨offConfig, true⟩] := by
    intro attempt member
    rcases List.mem_cons.mp member with rfl | later
    · exact sample_reads_home
    · rw [List.mem_singleton.mp later]
      exact sample_reads_off
  have restores := claimed sampleLibrary [.apply homeConfig goodAnswers,
    .apply offConfig goodAnswers] (attempts ▸ reads) offConfig (attempts ▸ rfl)
  have found : savedConfig sampleLibrary (reached sampleLibrary [.apply homeConfig goodAnswers,
      .apply offConfig goodAnswers]).runtime = some homeConfig := sample_reads_home
  let home : Attempt := ⟨homeConfig, true⟩
  let off : Attempt := ⟨offConfig, true⟩
  have first : home ∈ [home, off] := List.mem_cons_self ..
  have second : off ∈ [home, off] := List.mem_cons_of_mem _ (List.mem_singleton_self _)
  have same : homeConfig = offConfig := (restores_iff reads first second found).mp restores
  have enabled := congrArg WifiConfig.enabled same
  cases enabled

end PiAgents.Gateway
