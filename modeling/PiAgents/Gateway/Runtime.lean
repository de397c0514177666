import Mathlib.Data.List.Basic

/-! The gateway agent's runtime: the files of its state directory, the processes it manages, and
the commands it runs to apply, roll back and restore a configuration. The state directory is there
from the start, and no file operation fails. -/

namespace PiAgents.Gateway

structure WifiConfig where
  ssid : String
  psk : String
  countryCode : String
  channel : Int
  apInterface : String
  upstreamInterface : String
  subnetCidr : String
  gatewayIp : String
  dhcpRangeStart : String
  dhcpRangeEnd : String
  enabled : Bool
  ssid_length : 1 ≤ ssid.length ∧ ssid.length ≤ 32
  psk_length : 8 ≤ psk.length ∧ psk.length ≤ 63
  countryCode_length : countryCode.length = 2
  channel_range : 1 ≤ channel ∧ channel ≤ 165
  apInterface_length : 1 ≤ apInterface.length
  upstreamInterface_length : 1 ≤ upstreamInterface.length
deriving DecidableEq

structure Network where
  prefixlen : Nat
  netmask : String

inductive Exit where
  | success
  | failure (stderr : String)
  /-- It could not be started. -/
  | missing

inductive Failure where
  | invalidConfig (text : String)
  | invalidSubnet (cidr : String)
  | command (command : List String) (exit : Exit)
  | start (command : List String)

/-- What the agent uses of its libraries. -/
structure Library where
  modelDumpJson : WifiConfig → String
  modelValidateJson : String → Option WifiConfig
  /-- `ip_network` with `strict=True`. -/
  ipNetwork : String → Option Network
  errorText : Failure → String

/-- A process one second after its start, and the error text that there is of it by then. -/
structure Started where
  running : Bool
  error : Option String

/-- What the operating system answers during one operation. No command is run twice in it. -/
structure Answers where
  command : List String → Exit
  /-- Without a value the process cannot be started. -/
  dnsmasq : Option Started
  hostapd : Option Started

structure Files where
  config : Option String
  hostapd : Option String
  dnsmasq : Option String

structure GatewayRuntime where
  files : Files
  lastApply : Option (Bool × String)
  /-- The directory `last_known_good`, once it is made. -/
  lkg : Option Files
  hostapd : Option Started
  dnsmasq : Option Started
  hostapdError : Option String
  dnsmasqError : Option String

def GatewayRuntime.fresh : GatewayRuntime := ⟨⟨none, none, none⟩, none, none, none, none, none, none⟩

/-- Of a stopped agent the state directory is left. -/
def GatewayRuntime.restart (g : GatewayRuntime) : GatewayRuntime :=
  { g with hostapd := none, dnsmasq := none, hostapdError := none, dnsmasqError := none }

/-- What an exception interrupts keeps what was done before. -/
abbrev Act (α : Type) := ExceptT Failure (StateM GatewayRuntime) α

def hostapdPath : String := "/data/hostapd.conf"

def dnsmasqPath : String := "/data/dnsmasq.conf"

def buildHostapdCommand (configPath : String) : List String := ["hostapd", configPath]

def buildDnsmasqCommand (configPath : String) : List String :=
  ["dnsmasq", "--no-daemon", "--conf-file=" ++ configPath]

def renderHostapd (cfg : WifiConfig) : String :=
  "\n".intercalate
    ["interface=" ++ cfg.apInterface,
      "driver=nl80211",
      "ctrl_interface=/var/run/hostapd",
      "ctrl_interface_group=0",
      "ssid=" ++ cfg.ssid,
      "country_code=" ++ cfg.countryCode,
      "channel=" ++ toString cfg.channel,
      "hw_mode=g",
      "ieee80211n=1",
      "wmm_enabled=1",
      "ignore_broadcast_ssid=0",
      "auth_algs=1",
      "wpa=2",
      "wpa_passphrase=" ++ cfg.psk,
      "wpa_key_mgmt=WPA-PSK",
      "rsn_pairwise=CCMP",
      "\n"]

section Operations

variable (library : Library) (answers : Answers)

def ipNetwork (cidr : String) : Act Network :=
  match library.ipNetwork cidr with
  | some network => pure network
  | none => throw (.invalidSubnet cidr)

def renderDnsmasq (cfg : WifiConfig) : Act String := do
  let net ← ipNetwork library cfg.subnetCidr
  return "\n".intercalate
    ["# Managed by gateway-agent",
      "domain-needed",
      "bogus-priv",
      "no-resolv",
      "dhcp-authoritative",
      "server=1.1.1.1",
      "server=8.8.8.8",
      "log-dhcp",
      "log-queries",
      "interface=" ++ cfg.apInterface,
      "bind-interfaces",
      "except-interface=lo",
      "dhcp-leasefile=/data/dnsmasq.leases",
      "dhcp-range=" ++ cfg.dhcpRangeStart ++ "," ++ cfg.dhcpRangeEnd ++ "," ++ net.netmask ++ ",12h",
      "dhcp-option=option:router," ++ cfg.gatewayIp,
      "dhcp-option=option:dns-server," ++ cfg.gatewayIp,
      "\n"]

def runCommand (command : List String) : Act Unit :=
  match answers.command command with
  | .success => pure ()
  | exit => throw (.command command exit)

/-- `subprocess.run` with `check=False`. -/
def runUnchecked (command : List String) : Act Unit :=
  match answers.command command with
  | .missing => throw (.command command .missing)
  | _ => pure ()

def succeeds (command : List String) : Bool :=
  match answers.command command with
  | .success => true
  | _ => false

def natTable : String := "nat"

def filterTable : String := "filter"

def natChain : String := "IOT_GATEWAY_NAT"

def fwdChain : String := "IOT_GATEWAY_FWD"

def blockChain : String := "IOT_DEVICE_BLOCK"

def ensureChain (table chain : String) : Act Unit :=
  if succeeds answers ["iptables", "-t", table, "-S", chain] then pure ()
  else runUnchecked answers ["iptables", "-t", table, "-N", chain]

def ensureChains : Act Unit := do
  ensureChain answers natTable natChain
  ensureChain answers filterTable fwdChain
  ensureChain answers filterTable blockChain

def ensureRule (table : String) (add : List String) (chain : String) (rule : List String) :
    Act Unit :=
  if succeeds answers (["iptables", "-t", table, "-C", chain] ++ rule) then pure ()
  else runCommand answers (["iptables", "-t", table] ++ add ++ rule)

def ensureJumpRules : Act Unit := do
  ensureRule answers natTable ["-A", "POSTROUTING"] "POSTROUTING" ["-j", natChain]
  ensureRule answers filterTable ["-A", "FORWARD"] "FORWARD" ["-j", fwdChain]
  ensureRule answers filterTable ["-I", "FORWARD", "1"] "FORWARD" ["-j", blockChain]

def ensureNatRules (subnetCidr apInterface upstreamInterface : String) : Act Unit := do
  ensureRule answers natTable ["-A", natChain] natChain
    ["-s", subnetCidr, "-o", upstreamInterface, "-j", "MASQUERADE"]
  ensureRule answers filterTable ["-A", fwdChain] fwdChain
    ["-i", apInterface, "-o", upstreamInterface, "-j", "ACCEPT"]
  ensureRule answers filterTable ["-A", fwdChain] fwdChain
    ["-i", upstreamInterface, "-o", apInterface, "-m", "conntrack", "--ctstate",
      "RELATED,ESTABLISHED", "-j", "ACCEPT"]

def teardown : Act Unit := do
  runUnchecked answers ["iptables", "-t", natTable, "-D", "POSTROUTING", "-j", natChain]
  runUnchecked answers ["iptables", "-t", filterTable, "-D", "FORWARD", "-j", fwdChain]
  runUnchecked answers ["iptables", "-t", filterTable, "-D", "FORWARD", "-j", blockChain]
  runUnchecked answers ["iptables", "-t", natTable, "-F", natChain]
  runUnchecked answers ["iptables", "-t", filterTable, "-F", fwdChain]
  runUnchecked answers ["iptables", "-t", filterTable, "-F", blockChain]
  runUnchecked answers ["iptables", "-t", natTable, "-X", natChain]
  runUnchecked answers ["iptables", "-t", filterTable, "-X", fwdChain]
  runUnchecked answers ["iptables", "-t", filterTable, "-X", blockChain]

def stopProcesses : Act Unit := modify fun g => { g with hostapd := none, dnsmasq := none }

def startDnsmasq : Act Unit :=
  match answers.dnsmasq with
  | some process => modify fun g => { g with dnsmasq := some process, dnsmasqError := process.error }
  | none => throw (.start (buildDnsmasqCommand dnsmasqPath))

def startHostapd : Act Unit :=
  match answers.hostapd with
  | some process => modify fun g => { g with hostapd := some process, hostapdError := process.error }
  | none => throw (.start (buildHostapdCommand hostapdPath))

def writeLastApply (ok : Bool) (message : String) : Act Unit :=
  modify fun g => { g with lastApply := some (ok, message) }

def answer (ok : Bool) (message : String) : Act (Bool × String) := do
  writeLastApply ok message
  return (ok, message)

/-- An error text that is missing or empty is replaced. -/
def orUnknown (error : Option String) : String :=
  match error with
  | some text => if text = "" then "unknown error" else text
  | none => "unknown error"

def isRunning (process : Option Started) : Bool :=
  match process with
  | some started => started.running
  | none => false

/-- The intent and the rendered files. -/
def persist (cfg : WifiConfig) : Act Unit := do
  modify fun g => { g with hostapdError := none, dnsmasqError := none }
  modify fun g => { g with files := { g.files with config := some (library.modelDumpJson cfg) } }
  modify fun g => { g with files := { g.files with hostapd := some (renderHostapd cfg) } }
  let text ← renderDnsmasq library cfg
  modify fun g => { g with files := { g.files with dnsmasq := some text } }

def disable (cfg : WifiConfig) : Act (Bool × String) := do
  stopProcesses
  teardown answers
  runCommand answers ["ip", "-4", "addr", "flush", "dev", cfg.apInterface]
  answer true "gateway disabled"

/-- The interface, the forwarding, the rules and the processes. -/
def configure (cfg : WifiConfig) : Act Unit := do
  let net ← ipNetwork library cfg.subnetCidr
  runCommand answers ["ip", "link", "set", cfg.apInterface, "up"]
  runCommand answers ["ip", "addr", "replace", cfg.gatewayIp ++ "/" ++ toString net.prefixlen,
    "dev", cfg.apInterface]
  runCommand answers ["sysctl", "-w", "net.ipv4.ip_forward=1"]
  ensureChains answers
  ensureJumpRules answers
  ensureNatRules answers cfg.subnetCidr cfg.apInterface cfg.upstreamInterface
  stopProcesses
  startDnsmasq answers
  startHostapd answers

def saveLastKnownGood : Act Unit := modify fun g => { g with lkg := some g.files }

/-- What is found a second after the start. -/
def finish : Act (Bool × String) := do
  let g ← get
  if isRunning g.dnsmasq = false then
    answer false ("dnsmasq failed to start: " ++ orUnknown g.dnsmasqError)
  else if isRunning g.hostapd = false then
    answer false ("hostapd failed to start: " ++ orUnknown g.hostapdError)
  else do
    saveLastKnownGood
    answer true "ap applied"

def applyLocked (cfg : WifiConfig) : Act (Bool × String) := do
  persist library cfg
  if cfg.enabled then do
    configure library answers cfg
    finish
  else disable answers cfg

/-- The configuration in a file, when there is a valid one. -/
def readConfig (file : Option String) : Option WifiConfig := file.bind library.modelValidateJson

def rollbackLocked : Act (Bool × String) := do
  let g ← get
  match g.lkg with
  | none => do
      stopProcesses
      teardown answers
      answer false "no last-known-good config; services stopped"
  | some lkg =>
      match readConfig library lkg.config with
      | none => do
          stopProcesses
          teardown answers
          answer false "invalid last-known-good config; services stopped"
      | some cfg => do
          let (ok, message) ← applyLocked library answers cfg
          return (ok, "rollback: " ++ message)

/-- An exception becomes part of the answer. -/
def restoreWith (source : String) (cfg : WifiConfig) : Act (Bool × String) :=
  tryCatch (do
    let (ok, message) ← applyLocked library answers cfg
    return (ok, "restore(" ++ source ++ "): " ++ message))
    fun e => return (false, "restore(" ++ source ++ ") failed: " ++ library.errorText e)

def restoreFromDisk : Act (Bool × String) := do
  let g ← get
  match g.lkg.bind (·.config) with
  | some text =>
      match library.modelValidateJson text with
      | some cfg => restoreWith library answers "lkg" cfg
      | none =>
          return (false, "restore(lkg) failed: " ++ library.errorText (.invalidConfig text))
  | none =>
      match readConfig library g.files.config with
      | some cfg => restoreWith library answers "config" cfg
      | none => return (false, "no saved config")

end Operations

end PiAgents.Gateway
