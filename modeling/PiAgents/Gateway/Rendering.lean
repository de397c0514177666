import PiAgents.Lib.Decimal
import PiAgents.Lib.Directives
import PiAgents.Gateway.Restore

/-! What the rendered files say: the directives that a configuration stands for, which
configurations are accepted, and when the files are read as these directives. -/

namespace PiAgents.Gateway

open Directives

structure IpAddress where
  version : Nat
  value : Nat
  scope : Option String
deriving DecidableEq

/-- What the validation finds out about its surroundings and from `ipaddress`. -/
structure Surroundings where
  interfaceExists : String → Bool
  binaryExists : String → Bool
  /-- The text of the exception where there is no network. -/
  networkError : String → String
  ipAddress : String → Except String IpAddress
  /-- An address is in the network of this text. -/
  contains : String → IpAddress → Bool
  /-- The text of the exception that a comparison of two versions raises. -/
  mismatch : IpAddress → IpAddress → String

def IpAddress.atMost (s : Surroundings) (a b : IpAddress) : Except String Bool :=
  if a.version ≠ b.version then .error (s.mismatch a b)
  else .ok (decide (a.value < b.value) || decide (a = b))

structure ValidationResult where
  ok : Bool
  issues : List String

def issueIf (found : Bool) (issue : String) : List String := if found then [issue] else []

/-- The issues of the range, and the text of the exception that ends the check. -/
def rangeIssues (s : Surroundings) (cfg : WifiConfig) (gateway : Option IpAddress) :
    List String × Option String :=
  match s.ipAddress cfg.dhcpRangeStart with
  | .error e => ([], some e)
  | .ok first =>
      match s.ipAddress cfg.dhcpRangeEnd with
      | .error e => ([], some e)
      | .ok last =>
          let found := issueIf (!s.contains cfg.subnetCidr first || !s.contains cfg.subnetCidr last)
              "dhcp range not in subnet" ++
            issueIf (decide (last.value < first.value)) "dhcp_range_start must be <= dhcp_range_end"
          match gateway with
          | none => (found, none)
          | some gw =>
              match first.atMost s gw with
              | .error e => (found, some e)
              | .ok false => (found, none)
              | .ok true =>
                  match gw.atMost s last with
                  | .error e => (found, some e)
                  | .ok inside =>
                      (found ++ issueIf inside "gateway_ip must not be inside dhcp range", none)

def validateConfig (library : Library) (s : Surroundings) (cfg : WifiConfig) : ValidationResult :=
  if !cfg.enabled then ⟨true, []⟩
  else
    let interfaces := issueIf (cfg.apInterface == cfg.upstreamInterface)
        "ap_interface must differ from upstream_interface" ++
      issueIf (!s.interfaceExists cfg.apInterface)
        ("ap_interface " ++ cfg.apInterface ++ " not found") ++
      issueIf (!s.interfaceExists cfg.upstreamInterface)
        ("upstream_interface " ++ cfg.upstreamInterface ++ " not found")
    match library.ipNetwork cfg.subnetCidr with
    | none => ⟨false, interfaces ++ ["invalid subnet_cidr: " ++ s.networkError cfg.subnetCidr]⟩
    | some _ =>
        let gateway := s.ipAddress cfg.gatewayIp
        let gatewayIssues := match gateway with
          | .error e => ["invalid gateway_ip: " ++ e]
          | .ok gw => issueIf (!s.contains cfg.subnetCidr gw) "gateway_ip not in subnet"
        let range := rangeIssues s cfg gateway.toOption
        let rangeIssues := range.1 ++ (range.2.map ("invalid dhcp range: " ++ ·)).toList
        let rest := issueIf (cfg.apInterface == "eth0") "refusing to use eth0 as AP interface" ++
          issueIf (!s.binaryExists "hostapd") "hostapd not installed" ++
          issueIf (!s.binaryExists "dnsmasq") "dnsmasq not installed" ++
          issueIf (!s.binaryExists "iptables") "iptables not installed"
        let issues := interfaces ++ gatewayIssues ++ rangeIssues ++ rest
        ⟨issues.isEmpty, issues⟩

/-! The directives of a configuration. -/

def hostapdDirectives (cfg : WifiConfig) : List Directive :=
  [⟨"interface", some cfg.apInterface⟩,
    ⟨"driver", some "nl80211"⟩,
    ⟨"ctrl_interface", some "/var/run/hostapd"⟩,
    ⟨"ctrl_interface_group", some "0"⟩,
    ⟨"ssid", some cfg.ssid⟩,
    ⟨"country_code", some cfg.countryCode⟩,
    ⟨"channel", some (toString cfg.channel)⟩,
    ⟨"hw_mode", some "g"⟩,
    ⟨"ieee80211n", some "1"⟩,
    ⟨"wmm_enabled", some "1"⟩,
    ⟨"ignore_broadcast_ssid", some "0"⟩,
    ⟨"auth_algs", some "1"⟩,
    ⟨"wpa", some "2"⟩,
    ⟨"wpa_passphrase", some cfg.psk⟩,
    ⟨"wpa_key_mgmt", some "WPA-PSK"⟩,
    ⟨"rsn_pairwise", some "CCMP"⟩]

def dnsmasqSettings (cfg : WifiConfig) (net : Network) : List Setting :=
  [⟨"domain-needed", []⟩,
    ⟨"bogus-priv", []⟩,
    ⟨"no-resolv", []⟩,
    ⟨"dhcp-authoritative", []⟩,
    ⟨"server", ["1.1.1.1"]⟩,
    ⟨"server", ["8.8.8.8"]⟩,
    ⟨"log-dhcp", []⟩,
    ⟨"log-queries", []⟩,
    ⟨"interface", [cfg.apInterface]⟩,
    ⟨"bind-interfaces", []⟩,
    ⟨"except-interface", ["lo"]⟩,
    ⟨"dhcp-leasefile", ["/data/dnsmasq.leases"]⟩,
    ⟨"dhcp-range", [cfg.dhcpRangeStart, cfg.dhcpRangeEnd, net.netmask, "12h"]⟩,
    ⟨"dhcp-option", ["option:router", cfg.gatewayIp]⟩,
    ⟨"dhcp-option", ["option:dns-server", cfg.gatewayIp]⟩]

/-- Both files are rendered, and read line by line they are the directives of the configuration. -/
def MeansWhatItSays (library : Library) (cfg : WifiConfig) : Prop :=
  read (renderHostapd cfg) = hostapdDirectives cfg ∧
    ∃ net text, library.ipNetwork cfg.subnetCidr = some net ∧
      (∀ g, (renderDnsmasq library cfg).run g = (.ok text, g)) ∧
      readSettings text = dnsmasqSettings cfg net

def OnOneLine (field : String) : Prop := '\n' ∉ field.toList

def OneArgument (field : String) : Prop := '\n' ∉ field.toList ∧ ',' ∉ field.toList

def Plain (cfg : WifiConfig) : Prop :=
  OnOneLine cfg.ssid ∧ OnOneLine cfg.psk ∧ OnOneLine cfg.countryCode ∧ OneArgument cfg.apInterface ∧
    OneArgument cfg.dhcpRangeStart ∧ OneArgument cfg.dhcpRangeEnd ∧ OneArgument cfg.gatewayIp

theorem renderHostapd_eq (cfg : WifiConfig) :
    renderHostapd cfg = rendered [] (hostapdDirectives cfg) := rfl

private theorem option_line (option gateway : String) :
    (Setting.directive ⟨"dhcp-option", [option, gateway]⟩).line =
      "dhcp-option=" ++ option ++ "," ++ gateway := by
  change "dhcp-option" ++ "=" ++ (option ++ "," ++ gateway) = _
  rw [← String.append_assoc, ← String.append_assoc]
  rfl

private theorem range_line (first last netmask : String) :
    (Setting.directive ⟨"dhcp-range", [first, last, netmask, "12h"]⟩).line =
      "dhcp-range=" ++ first ++ "," ++ last ++ "," ++ netmask ++ ",12h" := by
  change "dhcp-range" ++ "=" ++ (first ++ "," ++ last ++ "," ++ netmask ++ "," ++ "12h") = _
  have time : ",12h" = "," ++ "12h" := rfl
  simp only [time, ← String.append_assoc]
  rfl

theorem renderDnsmasq_eq {library : Library} {cfg : WifiConfig} {net : Network}
    (found : library.ipNetwork cfg.subnetCidr = some net) (g : GatewayRuntime) :
    (renderDnsmasq library cfg).run g =
      (.ok (rendered ["# Managed by gateway-agent"]
        ((dnsmasqSettings cfg net).map Setting.directive)), g) := by
  have known : ipNetwork library cfg.subnetCidr = pure net := by
    unfold ipNetwork
    rw [found]
  have lines : ((dnsmasqSettings cfg net).map Setting.directive).map Directive.line =
      ["domain-needed", "bogus-priv", "no-resolv", "dhcp-authoritative", "server=1.1.1.1",
        "server=8.8.8.8", "log-dhcp", "log-queries", "interface=" ++ cfg.apInterface,
        "bind-interfaces", "except-interface=lo", "dhcp-leasefile=/data/dnsmasq.leases",
        (Setting.directive ⟨"dhcp-range",
          [cfg.dhcpRangeStart, cfg.dhcpRangeEnd, net.netmask, "12h"]⟩).line,
        (Setting.directive ⟨"dhcp-option", ["option:router", cfg.gatewayIp]⟩).line,
        (Setting.directive ⟨"dhcp-option", ["option:dns-server", cfg.gatewayIp]⟩).line] := rfl
  rw [range_line, option_line, option_line] at lines
  unfold renderDnsmasq
  rw [known, pure_bind, rendered, lines]
  rfl

theorem hostapd_named (cfg : WifiConfig) :
    ∀ directive ∈ hostapdDirectives cfg, Named directive.name := by
  have names : ∀ name ∈ (hostapdDirectives cfg).map Directive.name, Named name := by
    change ∀ name ∈ ["interface", "driver", "ctrl_interface", "ctrl_interface_group", "ssid",
      "country_code", "channel", "hw_mode", "ieee80211n", "wmm_enabled", "ignore_broadcast_ssid",
      "auth_algs", "wpa", "wpa_passphrase", "wpa_key_mgmt", "rsn_pairwise"], Named name
    decide
  exact fun directive member => names _ (List.mem_map_of_mem member)

theorem dnsmasq_named (cfg : WifiConfig) (net : Network) :
    ∀ setting ∈ dnsmasqSettings cfg net, Named setting.name := by
  have names : ∀ name ∈ (dnsmasqSettings cfg net).map Setting.name, Named name := by
    change ∀ name ∈ ["domain-needed", "bogus-priv", "no-resolv", "dhcp-authoritative", "server",
      "server", "log-dhcp", "log-queries", "interface", "bind-interfaces", "except-interface",
      "dhcp-leasefile", "dhcp-range", "dhcp-option", "dhcp-option"], Named name
    decide
  exact fun setting member => names _ (List.mem_map_of_mem member)

theorem hostapd_read_iff (cfg : WifiConfig) :
    read (renderHostapd cfg) = hostapdDirectives cfg ↔
      OnOneLine cfg.apInterface ∧ OnOneLine cfg.ssid ∧ OnOneLine cfg.countryCode ∧
        OnOneLine cfg.psk := by
  have channel : '\n' ∉ cfg.channel.repr.toList :=
    fun member => absurd (Decimal.int_digits cfg.channel '\n' member) (by decide)
  rw [renderHostapd_eq,
    read_rendered_iff (by simp [hostapdDirectives]) (by simp) (hostapd_named cfg)]
  simp [hostapdDirectives, OnOneLine, channel]

theorem dnsmasq_read_iff (cfg : WifiConfig) {net : Network} (netmask : OneArgument net.netmask) :
    readSettings (rendered ["# Managed by gateway-agent"]
        ((dnsmasqSettings cfg net).map Setting.directive)) = dnsmasqSettings cfg net ↔
      OneArgument cfg.apInterface ∧ OneArgument cfg.dhcpRangeStart ∧
        OneArgument cfg.dhcpRangeEnd ∧ OneArgument cfg.gatewayIp := by
  have comment : ∀ line ∈ ["# Managed by gateway-agent"], Comment line := by
    intro line member
    rw [List.mem_singleton.mp member]
    exact ⟨by decide, by decide⟩
  rw [readSettings_rendered_iff (by simp [dnsmasqSettings]) comment (dnsmasq_named cfg net)]
  simp only [OneArgument] at netmask
  simp [dnsmasqSettings, OneArgument, netmask, and_assoc]

theorem means_iff {library : Library}
    (netmasks : ∀ cidr net, library.ipNetwork cidr = some net → OneArgument net.netmask)
    (cfg : WifiConfig) :
    MeansWhatItSays library cfg ↔ Plain cfg ∧ (library.ipNetwork cfg.subnetCidr).isSome := by
  rw [MeansWhatItSays, hostapd_read_iff]
  constructor
  · rintro ⟨⟨interface, ssid, country, psk⟩, net, text, found, renders, reads⟩
    have same := renders .fresh
    rw [renderDnsmasq_eq found] at same
    rw [← Except.ok.inj (Prod.mk.inj same).1] at reads
    obtain ⟨argument, first, last, gateway⟩ := (dnsmasq_read_iff cfg (netmasks _ _ found)).mp reads
    exact ⟨⟨ssid, psk, country, argument, first, last, gateway⟩, by simp [found]⟩
  · rintro ⟨⟨ssid, psk, country, argument, first, last, gateway⟩, network⟩
    obtain ⟨net, found⟩ := Option.isSome_iff_exists.mp network
    exact ⟨⟨argument.1, ssid, country, psk⟩, net, _, found, renderDnsmasq_eq found,
      (dnsmasq_read_iff cfg (netmasks _ _ found)).mpr ⟨argument, first, last, gateway⟩⟩

theorem network_of_accepted {library : Library} {s : Surroundings} {cfg : WifiConfig}
    (enabled : cfg.enabled = true) (accepted : (validateConfig library s cfg).ok = true) :
    (library.ipNetwork cfg.subnetCidr).isSome := by
  cases found : library.ipNetwork cfg.subnetCidr with
  | none => simp [validateConfig, enabled, found] at accepted
  | some net => rfl

/-- For every accepted configuration: what is rendered is read as the directives of the
configuration exactly if no field breaks a line or, in the file of `dnsmasq`, an argument, and the
subnet of a disabled one is a network. -/
theorem rendered_as_validated_iff (library : Library)
    (netmasks : ∀ cidr net, library.ipNetwork cidr = some net → OneArgument net.netmask)
    (s : Surroundings) (cfg : WifiConfig) (accepted : (validateConfig library s cfg).ok = true) :
    MeansWhatItSays library cfg ↔
      Plain cfg ∧ (cfg.enabled = false → (library.ipNetwork cfg.subnetCidr).isSome) := by
  rw [means_iff netmasks]
  refine and_congr_right fun _ => ⟨fun network _ => network, fun disabled => ?_⟩
  cases enabled : cfg.enabled with
  | true => exact network_of_accepted enabled accepted
  | false => exact disabled enabled

def homeSurroundings : Surroundings where
  interfaceExists name := name == "wlan0" || name == "eth0"
  binaryExists _ := true
  networkError _ := "not a network"
  ipAddress text :=
    if text = "192.168.50.1" then .ok ⟨4, 3232248321, none⟩
    else if text = "192.168.50.100" then .ok ⟨4, 3232248420, none⟩
    else if text = "192.168.50.200" then .ok ⟨4, 3232248520, none⟩
    else .error "not an address"
  contains cidr address := cidr == "192.168.50.0/24" && address.version == 4 &&
    address.value / 256 == 12625970
  mismatch _ _ := "not of the same version"

private theorem sample_netmasks (cidr : String) (net : Network)
    (found : sampleLibrary.ipNetwork cidr = some net) : OneArgument net.netmask := by
  simp only [sampleLibrary] at found
  split at found
  · cases found
    exact ⟨by decide, by decide⟩
  · cases found

theorem rendered_as_validated_home :
    MeansWhatItSays sampleLibrary homeConfig ↔ Plain homeConfig ∧
      (homeConfig.enabled = false →
        (sampleLibrary.ipNetwork homeConfig.subnetCidr).isSome) :=
  rendered_as_validated_iff sampleLibrary sample_netmasks homeSurroundings homeConfig (by decide)

/-- A name that goes on with a directive of its own on the next line. -/
def brokenConfig : WifiConfig := { homeConfig with ssid := "home\nwpa=0", ssid_length := by decide }

/-- It is accepted, and the file is not read as its directives. -/
theorem broken_name_accepted :
    (validateConfig sampleLibrary homeSurroundings brokenConfig).ok = true ∧
      ¬MeansWhatItSays sampleLibrary brokenConfig := by
  have accepted : (validateConfig sampleLibrary homeSurroundings brokenConfig).ok = true := by decide
  have broken : '\n' ∈ brokenConfig.ssid.toList := by decide
  refine ⟨accepted, fun means => ?_⟩
  obtain ⟨_, ssid, _⟩ := (hostapd_read_iff brokenConfig).mp means.1
  exact ssid broken

end PiAgents.Gateway
