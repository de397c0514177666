import Mathlib.Data.List.Basic
import Mathlib.Logic.Function.Basic
import PiAgents.Lib.Scripts
import PiAgents.Gateway.Runtime

/-! The agent's firewall: its chains as ordered lists of rules, the commands on them, and the
scripts of commands by which the agent sets them up, tears them down and blocks devices. -/

namespace PiAgents.Gateway.Iptables

open Scripts

/-- The two built-in chains that the agent adds a jump to, and its own chains. -/
inductive Chain where
  | postrouting
  | forward
  | nat
  | fwd
  | block
deriving DecidableEq

namespace Chain

def table : Chain → String
  | postrouting | nat => natTable
  | forward | fwd | block => filterTable

def name : Chain → String
  | postrouting => "POSTROUTING"
  | forward => "FORWARD"
  | nat => natChain
  | fwd => fwdChain
  | block => blockChain

def builtIn : Chain → Bool
  | postrouting | forward => true
  | nat | fwd | block => false

def all : List Chain := [postrouting, forward, nat, fwd, block]

end Chain

inductive Rule where
  | jump (target : Chain)
  | masquerade (subnet output : String)
  | accept (input output : String)
  | acceptEstablished (input output : String)
  | drop (mac : String)
deriving DecidableEq

def Rule.arguments : Rule → List String
  | jump target => ["-j", target.name]
  | masquerade subnet output => ["-s", subnet, "-o", output, "-j", "MASQUERADE"]
  | accept input output => ["-i", input, "-o", output, "-j", "ACCEPT"]
  | acceptEstablished input output =>
      ["-i", input, "-o", output, "-m", "conntrack", "--ctstate", "RELATED,ESTABLISHED", "-j",
        "ACCEPT"]
  | drop mac => ["-m", "mac", "--mac-source", mac, "-j", "DROP"]

/-- A rule as it is stored: its source network as `iptables` reads the text of it. -/
def Rule.read (network : String → String) : Rule → Rule
  | masquerade subnet output => masquerade (network subnet) output
  | rule => rule

/-- A rule of a chain: one of the agent's, or one that other software has put there. -/
inductive Entry (Other : Type) where
  | own (rule : Rule)
  | other (rule : Other)
deriving DecidableEq

/-- The rules of each chain in their order, of the chains that there are. -/
abbrev Firewall (Other : Type) := Chain → Option (List (Entry Other))

/-- A host with other software's rules only. -/
def Firewall.clean {Other : Type} (postrouting forward : List Other) : Firewall Other
  | .postrouting => some (postrouting.map .other)
  | .forward => some (forward.map .other)
  | .nat => none
  | .fwd => none
  | .block => none

inductive Command where
  | list (chain : Chain)
  | create (chain : Chain)
  | check (chain : Chain) (rule : Rule)
  | append (chain : Chain) (rule : Rule)
  /-- At the front. -/
  | insert (chain : Chain) (rule : Rule)
  | delete (chain : Chain) (rule : Rule)
  | flush (chain : Chain)
  | remove (chain : Chain)

def Command.arguments : Command → List String
  | list chain => ["iptables", "-t", chain.table, "-S", chain.name]
  | create chain => ["iptables", "-t", chain.table, "-N", chain.name]
  | check chain rule => ["iptables", "-t", chain.table, "-C", chain.name] ++ rule.arguments
  | append chain rule => ["iptables", "-t", chain.table, "-A", chain.name] ++ rule.arguments
  | insert chain rule => ["iptables", "-t", chain.table, "-I", chain.name, "1"] ++ rule.arguments
  | delete chain rule => ["iptables", "-t", chain.table, "-D", chain.name] ++ rule.arguments
  | flush chain => ["iptables", "-t", chain.table, "-F", chain.name]
  | remove chain => ["iptables", "-t", chain.table, "-X", chain.name]

def Command.chain : Command → Chain
  | list chain | create chain | check chain _ | append chain _ | insert chain _ | delete chain _
  | flush chain | remove chain => chain

section Execution

variable {Other : Type} [DecidableEq Other] (network : String → String)

def Firewall.set (fw : Firewall Other) (chain : Chain) (rules : List (Entry Other)) :
    Firewall Other :=
  Function.update fw chain (some rules)

def Firewall.unset (fw : Firewall Other) (chain : Chain) : Firewall Other :=
  Function.update fw chain none

/-- A rule can only jump to a chain that there is. -/
def Firewall.knows (fw : Firewall Other) : Rule → Bool
  | .jump target => (fw target).isSome
  | _ => true

def Firewall.jumpsTo (fw : Firewall Other) (target : Chain) : Bool :=
  Chain.all.any fun chain =>
    chain.table == target.table && ((fw chain).getD []).contains (.own (.jump target))

/-- Without a value the command is refused. -/
def Command.effect (command : Command) (fw : Firewall Other) : Option (Firewall Other) :=
  match command with
  | list chain => if (fw chain).isSome then some fw else none
  | create chain => if (fw chain).isSome then none else some (fw.set chain [])
  | check chain rule =>
      (fw chain).bind fun rules => if .own (rule.read network) ∈ rules then some fw else none
  | append chain rule =>
      if fw.knows rule then
        (fw chain).map fun rules => fw.set chain (rules ++ [.own (rule.read network)])
      else none
  | insert chain rule =>
      if fw.knows rule then
        (fw chain).map fun rules => fw.set chain (.own (rule.read network) :: rules)
      else none
  | delete chain rule =>
      (fw chain).bind fun rules =>
        if .own (rule.read network) ∈ rules then
          some (fw.set chain (rules.erase (.own (rule.read network))))
        else none
  | flush chain => (fw chain).map fun _ => fw.set chain []
  | remove chain =>
      if chain.builtIn ∨ fw chain ≠ some [] ∨ fw.jumpsTo chain then none
      else some (fw.unset chain)

/-- The text differs from case to case, and nothing reads it. -/
def refused : Exit := .failure "iptables: No chain/target/match by that name."

def execute (command : Command) (fw : Firewall Other) : Exit × Firewall Other :=
  match command.effect network fw with
  | some after => (.success, after)
  | none => (refused, fw)

end Execution

abbrev Procedure (Result : Type) := Script Command Exit Failure Result

/-- `_run` -/
def run (command : Command) : Procedure Unit :=
  .call command fun exit =>
    match exit with
    | .success => .done ()
    | exit => .fail (.command command.arguments exit)

/-- `subprocess.run` with `check=False`. -/
def runUnchecked (command : Command) : Procedure Unit :=
  .call command fun exit =>
    match exit with
    | .missing => .fail (.command command.arguments .missing)
    | _ => .done ()

/-- `_exists` -/
def succeeds (command : Command) : Procedure Bool :=
  .call command fun exit =>
    match exit with
    | .success => .done true
    | _ => .done false

def ensureChain (chain : Chain) : Procedure Unit := do
  let there ← succeeds (.list chain)
  if there then pure () else runUnchecked (.create chain)

def ensureChains : Procedure Unit := do
  ensureChain .nat
  ensureChain .fwd
  ensureChain .block

/-- A rule is added, by the given command, unless it is there. -/
def ensureRule (add : Chain → Rule → Command) (chain : Chain) (rule : Rule) : Procedure Unit := do
  let there ← succeeds (.check chain rule)
  if there then pure () else run (add chain rule)

def ensureJumpRules : Procedure Unit := do
  ensureRule .append .postrouting (.jump .nat)
  ensureRule .append .forward (.jump .fwd)
  ensureRule .insert .forward (.jump .block)

def ensureNatRules (subnetCidr apInterface upstreamInterface : String) : Procedure Unit := do
  ensureRule .append .nat (.masquerade subnetCidr upstreamInterface)
  ensureRule .append .fwd (.accept apInterface upstreamInterface)
  ensureRule .append .fwd (.acceptEstablished upstreamInterface apInterface)

def teardown : Procedure Unit := do
  runUnchecked (.delete .postrouting (.jump .nat))
  runUnchecked (.delete .forward (.jump .fwd))
  runUnchecked (.delete .forward (.jump .block))
  runUnchecked (.flush .nat)
  runUnchecked (.flush .fwd)
  runUnchecked (.flush .block)
  runUnchecked (.remove .nat)
  runUnchecked (.remove .fwd)
  runUnchecked (.remove .block)

/-- The three steps of an apply of an enabled configuration. -/
def ensureAll (subnetCidr apInterface upstreamInterface : String) : Procedure Unit := do
  ensureChains
  ensureJumpRules
  ensureNatRules subnetCidr apInterface upstreamInterface

/-! The addresses of devices. -/

/-- The characters that `str.strip` removes. -/
def isSpace (c : Char) : Bool :=
  (9 ≤ c.toNat && c.toNat ≤ 13) || (28 ≤ c.toNat && c.toNat ≤ 32) ||
    (8192 ≤ c.toNat && c.toNat ≤ 8202) ||
    [133, 160, 5760, 8232, 8233, 8239, 8287, 12288].contains c.toNat

def strip (text : List Char) : List Char :=
  ((text.dropWhile isSpace).reverse.dropWhile isSpace).reverse

/-- Letters outside ASCII stay as they are: in lower case too they are no hexadecimal digits. -/
def lower (text : List Char) : List Char := text.map Char.toLower

def isHexDigit (c : Char) : Bool :=
  ('0' ≤ c && c ≤ '9') || ('A' ≤ c && c ≤ 'F') || ('a' ≤ c && c ≤ 'f')

/-- So many pairs with a colon after each, and one more pair. -/
def isMac : Nat → List Char → Bool
  | 0, [high, low] => isHexDigit high && isHexDigit low
  | pairs + 1, high :: low :: ':' :: rest => isHexDigit high && isHexDigit low && isMac pairs rest
  | _, _ => false

structure InvalidMac where
  message : String

/-- No line end is left for the `$` of the pattern once the text is stripped. -/
def validateMac (mac : String) : Except InvalidMac String :=
  let stripped := lower (strip mac.toList)
  if isMac 5 stripped then .ok (String.ofList stripped)
  else .error ⟨"Invalid MAC address: " ++ String.ofList stripped⟩

/-- `block_device` once the address is validated. -/
def blockAddress (mac : String) : Procedure Bool := do
  let there ← succeeds (.check .block (.drop mac))
  if there then pure false
  else do
    run (.append .block (.drop mac))
    pure true

def unblockAddress (mac : String) : Procedure Bool := do
  let there ← succeeds (.check .block (.drop mac))
  if there then do
    run (.delete .block (.drop mac))
    pure true
  else pure false

/-! The way of a packet. -/

structure Packet where
  /-- The source address of its frame, as the rules write it. -/
  source : String
  input : String
  output : String
  /-- It belongs or is related to a connection that there is. -/
  established : Bool

inductive Verdict where
  | accept
  | drop
deriving DecidableEq

/-- A name that ends in a plus sign stands for all interfaces that begin with the rest of it. -/
def matchesInterface (pattern interface : String) : Bool :=
  match pattern.toList.reverse with
  | '+' :: rest => rest.reverse.isPrefixOf interface.toList
  | _ => pattern == interface

/-- What a rule decides by itself. -/
def Rule.decides (rule : Rule) (packet : Packet) : Option Verdict :=
  match rule with
  | jump _ => none
  | masquerade _ _ => none
  | accept input output =>
      if matchesInterface input packet.input && matchesInterface output packet.output then
        some .accept
      else none
  | acceptEstablished input output =>
      if matchesInterface input packet.input && matchesInterface output packet.output &&
        packet.established then some .accept
      else none
  | drop mac => if packet.source = mac then some .drop else none

section Traversal

variable {Other : Type}

/-- A jump goes on with the rules of its chain. -/
def Entry.followed (rules : Chain → List (Chain × Entry Other)) :
    Entry Other → List (Chain × Entry Other)
  | own (.jump target) => rules target
  | _ => []

/-- The rules that a packet meets from a chain on, in their order, each with its chain, while none
decides: those of a chain that is jumped to follow the jump. Chains are not nested more deeply than
said. -/
def passage (fw : Firewall Other) : Nat → Chain → List (Chain × Entry Other)
  | 0, _ => []
  | depth + 1, chain =>
      ((fw chain).getD []).flatMap fun entry =>
        (chain, entry) :: entry.followed (passage fw depth)

variable (verdicts : Other → Packet → Option Verdict)

def Entry.decides (entry : Entry Other) (packet : Packet) : Option Verdict :=
  match entry with
  | own rule => rule.decides packet
  | other rule => verdicts rule packet

/-- The first rule that decides on a packet to be forwarded, with its chain. -/
def decision (fw : Firewall Other) (depth : Nat) (packet : Packet) :
    Option (Chain × Entry Other) :=
  (passage fw depth .forward).find? fun item => (item.2.decides verdicts packet).isSome

end Traversal

/-! What the steps of the scripts do. -/

section Steps

variable {Other : Type} [DecidableEq Other] {network : String → String}
  {always : Firewall Other → Prop} {ends : Except Failure Unit → Firewall Other → Prop}
  {fw : Firewall Other} {chain : Chain} {rule : Rule} {rules : List (Entry Other)}

omit [DecidableEq Other] in
@[simp] theorem set_self : (fw.set chain rules) chain = some rules := Function.update_self ..

omit [DecidableEq Other] in
@[simp] theorem set_other {another : Chain} (differs : another ≠ chain) :
    (fw.set chain rules) another = fw another := Function.update_of_ne differs ..

omit [DecidableEq Other] in
@[simp] theorem unset_self : (fw.unset chain) chain = none := Function.update_self ..

omit [DecidableEq Other] in
@[simp] theorem unset_other {another : Chain} (differs : another ≠ chain) :
    (fw.unset chain) another = fw another := Function.update_of_ne differs ..

theorem execute_some {command : Command} {after : Firewall Other}
    (effect : command.effect network fw = some after) :
    execute network command fw = (.success, after) := by simp [execute, effect]

theorem execute_none {command : Command} (effect : command.effect network fw = none) :
    execute network command fw = (refused, fw) := by simp [execute, effect]

theorem effect_cases {command : Command} {after : Firewall Other}
    (effect : command.effect network fw = some after) :
    after = fw ∨ (∃ rules, after = fw.set command.chain rules) ∨
      after = fw.unset command.chain := by
  cases command with
  | list chain =>
      simp only [Command.effect, Option.ite_none_right_eq_some, Option.some.injEq] at effect
      exact .inl effect.2.symm
  | create chain =>
      simp only [Command.effect, Option.ite_none_left_eq_some, Option.some.injEq] at effect
      exact .inr (.inl ⟨[], effect.2.symm⟩)
  | check chain rule =>
      simp only [Command.effect, Option.bind_eq_some_iff, Option.ite_none_right_eq_some,
        Option.some.injEq] at effect
      obtain ⟨rules, _, _, same⟩ := effect
      exact .inl same.symm
  | append chain rule =>
      simp only [Command.effect, Option.ite_none_right_eq_some, Option.map_eq_some_iff] at effect
      obtain ⟨_, rules, _, changed⟩ := effect
      exact .inr (.inl ⟨_, changed.symm⟩)
  | insert chain rule =>
      simp only [Command.effect, Option.ite_none_right_eq_some, Option.map_eq_some_iff] at effect
      obtain ⟨_, rules, _, changed⟩ := effect
      exact .inr (.inl ⟨_, changed.symm⟩)
  | delete chain rule =>
      simp only [Command.effect, Option.bind_eq_some_iff, Option.ite_none_right_eq_some,
        Option.some.injEq] at effect
      obtain ⟨rules, _, _, changed⟩ := effect
      exact .inr (.inl ⟨_, changed.symm⟩)
  | flush chain =>
      simp only [Command.effect, Option.map_eq_some_iff] at effect
      obtain ⟨rules, _, changed⟩ := effect
      exact .inr (.inl ⟨_, changed.symm⟩)
  | remove chain =>
      simp only [Command.effect, Option.ite_none_left_eq_some, Option.some.injEq] at effect
      exact .inr (.inr effect.2.symm)

theorem execute_elsewhere (network : String → String) (command : Command) {another : Chain}
    (differs : another ≠ command.chain) (fw : Firewall Other) : (execute network command fw).2 another = fw another := by
  cases effect : command.effect network fw with
  | none => rw [execute_none effect]
  | some after =>
      rw [execute_some effect]
      rcases effect_cases effect with rfl | ⟨rules, rfl⟩ | rfl
      · rfl
      · exact set_other differs
      · exact unset_other differs

theorem execute_delete (network : String → String) (rule : Rule) (there : fw chain = some rules) :
    (execute network (.delete chain rule) fw).2 chain =
      some (rules.erase (.own (rule.read network))) := by
  by_cases member : .own (rule.read network) ∈ rules
  · rw [execute_some 
      (show (Command.delete chain rule).effect network fw =
        some (fw.set chain (rules.erase (.own (rule.read network)))) by simp [Command.effect, there, member])]
    exact set_self
  · rw [execute_none (by simp [Command.effect, there, member]), List.erase_of_not_mem member]
    exact there

theorem execute_flush :
    (execute network (.flush chain) fw).2 chain = (fw chain).map fun _ => [] := by
  cases found : fw chain with
  | none => simp [execute, Command.effect, found]
  | some rules => simp [execute, Command.effect, found]

theorem execute_remove (network : String → String) (own : chain.builtIn = false)
    (empty : fw chain = none ∨ fw chain = some []) (unused : fw.jumpsTo chain = false) :
    (execute network (.remove chain) fw).2 chain = none := by
  rcases empty with absent | empty
  · rw [execute_none (by simp [Command.effect, absent])]
    exact absent
  · rw [execute_some (show (Command.remove chain).effect network fw = some (fw.unset chain) by
      simp [Command.effect, own, empty, unused])]
    exact unset_self

theorem runUnchecked_then {command : Command} {rest : Unit → Procedure Unit} (now : always fw)
    (later : (rest ()).Meets (execute network) always ends (execute network command fw).2) :
    (runUnchecked command >>= rest).Meets (execute network) always ends fw := by
  cases effect : command.effect network fw with
  | none =>
      rw [execute_none effect] at later
      simpa [runUnchecked, Script.Meets, execute_none effect, refused, now] using later
  | some after =>
      rw [execute_some effect] at later
      simpa [runUnchecked, Script.Meets, execute_some effect, now] using later

/-- With an empty chain of this name if there was none. -/
def Firewall.withChain (fw : Firewall Other) (chain : Chain) : Firewall Other :=
  if (fw chain).isSome then fw else fw.set chain []

omit [DecidableEq Other] in
theorem withChain_there (there : fw chain = some rules) : fw.withChain chain = fw := by
  simp [Firewall.withChain, there]

omit [DecidableEq Other] in
theorem withChain_new (absent : fw chain = none) : fw.withChain chain = fw.set chain [] := by
  simp [Firewall.withChain, absent]

omit [DecidableEq Other] in
theorem withChain_elsewhere {another : Chain} (differs : another ≠ chain) :
    fw.withChain chain another = fw another := by
  cases found : fw chain with
  | some rules => rw [withChain_there found]
  | none => rw [withChain_new found, set_other differs]

omit [DecidableEq Other] in
theorem withChain_self : (fw.withChain chain chain).isSome := by
  cases found : fw chain with
  | some rules => simp [withChain_there found, found]
  | none => simp [withChain_new found]

omit [DecidableEq Other] in
theorem withChain_isSome {another : Chain} (there : (fw another).isSome) :
    (fw.withChain chain another).isSome := by
  by_cases same : another = chain
  · subst another
    exact withChain_self
  · rwa [withChain_elsewhere same]

theorem ensureChain_then {rest : Unit → Procedure Unit} (now : always fw)
    (later : (rest ()).Meets (execute network) always ends (fw.withChain chain)) :
    (ensureChain chain >>= rest).Meets (execute network) always ends fw := by
  cases found : fw chain with
  | some rules =>
      rw [withChain_there found] at later
      have listed : (Command.list chain).effect network fw = some fw := by
        simp [Command.effect, found]
      simpa [ensureChain, succeeds, Script.Meets, execute_some listed, now] using later
  | none =>
      rw [withChain_new found] at later
      have listed : (Command.list chain).effect network fw = none := by
        simp [Command.effect, found]
      have created : (Command.create chain).effect network fw = some (fw.set chain []) := by
        simp [Command.effect, found]
      simpa [ensureChain, succeeds, runUnchecked, Script.Meets, execute_none listed, refused,
        execute_some created, now] using later

/-- A command that puts a rule in its place in a chain. -/
def Adds (network : String → String) (add : Chain → Rule → Command)
    (place : List (Entry Other) → Entry Other → List (Entry Other)) : Prop :=
  ∀ (fw : Firewall Other) chain rule rules, fw.knows rule → fw chain = some rules →
    (add chain rule).effect network fw =
      some (fw.set chain (place rules (.own (rule.read network))))

def atEnd (rules : List (Entry Other)) (entry : Entry Other) : List (Entry Other) :=
  rules ++ [entry]

def atFront (rules : List (Entry Other)) (entry : Entry Other) : List (Entry Other) :=
  entry :: rules

theorem adds_append :
    Adds network .append (atEnd : List (Entry Other) → Entry Other → List (Entry Other)) := by
  intro fw chain rule rules known there
  simp [Command.effect, known, there, atEnd]

theorem adds_insert :
    Adds network .insert (atFront : List (Entry Other) → Entry Other → List (Entry Other)) := by
  intro fw chain rule rules known there
  simp [Command.effect, known, there, atFront]

/-- With the rule in a chain where it was not. -/
def Firewall.withRule (fw : Firewall Other)
    (place : List (Entry Other) → Entry Other → List (Entry Other)) (chain : Chain)
    (entry : Entry Other) : Firewall Other :=
  match fw chain with
  | some rules => if entry ∈ rules then fw else fw.set chain (place rules entry)
  | none => fw

section WithRule

variable {place : List (Entry Other) → Entry Other → List (Entry Other)} {entry : Entry Other}

theorem withRule_there (there : fw chain = some rules) (member : entry ∈ rules) :
    fw.withRule place chain entry = fw := by
  simp [Firewall.withRule, there, member]

theorem withRule_new (there : fw chain = some rules) (absent : entry ∉ rules) :
    fw.withRule place chain entry = fw.set chain (place rules entry) := by
  simp [Firewall.withRule, there, absent]

theorem withRule_none (absent : fw chain = none) : fw.withRule place chain entry = fw := by
  simp [Firewall.withRule, absent]

theorem withRule_elsewhere {another : Chain} (differs : another ≠ chain) :
    fw.withRule place chain entry another = fw another := by
  cases found : fw chain with
  | none => rw [withRule_none found]
  | some rules =>
      by_cases member : entry ∈ rules
      · rw [withRule_there found member]
      · rw [withRule_new found member, set_other differs]

theorem withRule_isSome {another : Chain} (there : (fw another).isSome) :
    (fw.withRule place chain entry another).isSome := by
  by_cases same : another = chain
  · subst another
    obtain ⟨rules, there⟩ := Option.isSome_iff_exists.mp there
    by_cases member : entry ∈ rules
    · simp [withRule_there there member, there]
    · simp [withRule_new there member]
  · rwa [withRule_elsewhere same]

end WithRule

theorem ensureRule_then {add : Chain → Rule → Command}
    {place : List (Entry Other) → Entry Other → List (Entry Other)} (adds : Adds network add place)
    {rest : Unit → Procedure Unit} (there : (fw chain).isSome) (known : fw.knows rule)
    (now : always fw)
    (later : (rest ()).Meets (execute network) always ends
      (fw.withRule place chain (.own (rule.read network)))) :
    (ensureRule add chain rule >>= rest).Meets (execute network) always ends fw := by
  obtain ⟨rules, there⟩ := Option.isSome_iff_exists.mp there
  by_cases member : .own (rule.read network) ∈ rules
  · have checked : (Command.check chain rule).effect network fw = some fw := by
      simp [Command.effect, there, member]
    simp only [Firewall.withRule, there, member, if_true] at later
    simpa [ensureRule, succeeds, Script.Meets, execute_some checked, now] using later
  · have checked : (Command.check chain rule).effect network fw = none := by
      simp [Command.effect, there, member]
    have added := adds fw chain rule rules known there
    simp only [Firewall.withRule, there, member, if_false] at later
    simpa [ensureRule, succeeds, Gateway.Iptables.run, Script.Meets, execute_none checked, refused,
      execute_some added, now] using later

def Firewall.withChains (fw : Firewall Other) : Firewall Other :=
  ((fw.withChain .nat).withChain .fwd).withChain .block

def Firewall.withJumps (fw : Firewall Other) : Firewall Other :=
  ((fw.withRule atEnd .postrouting (.own (.jump .nat))).withRule atEnd .forward
    (.own (.jump .fwd))).withRule atFront .forward (.own (.jump .block))

def Firewall.withNatRules (network : String → String) (fw : Firewall Other)
    (subnetCidr apInterface upstreamInterface : String) : Firewall Other :=
  ((fw.withRule atEnd .nat (.own (.masquerade (network subnetCidr) upstreamInterface))).withRule
    atEnd .fwd (.own (.accept apInterface upstreamInterface))).withRule
    atEnd .fwd (.own (.acceptEstablished upstreamInterface apInterface))

/-- The rules of an apply, each with its chain. -/
def applied (subnetCidr apInterface upstreamInterface : String) : List (Chain × Rule) :=
  [(.postrouting, .jump .nat), (.forward, .jump .fwd), (.forward, .jump .block),
    (.nat, .masquerade subnetCidr upstreamInterface), (.fwd, .accept apInterface upstreamInterface),
    (.fwd, .acceptEstablished upstreamInterface apInterface)]

/-- Every chain is there. -/
def Firewall.Complete (fw : Firewall Other) : Prop := ∀ chain, (fw chain).isSome

omit [DecidableEq Other] in
theorem withChains_complete (postrouting : (fw .postrouting).isSome)
    (forward : (fw .forward).isSome) : fw.withChains.Complete := by
  intro chain
  cases chain with
  | postrouting => exact withChain_isSome (withChain_isSome (withChain_isSome postrouting))
  | forward => exact withChain_isSome (withChain_isSome (withChain_isSome forward))
  | nat => exact withChain_isSome (withChain_isSome withChain_self)
  | fwd => exact withChain_isSome withChain_self
  | block => exact withChain_self

omit [DecidableEq Other] in
theorem Firewall.Complete.knows (complete : fw.Complete) : fw.knows rule := by
  cases rule with
  | jump target => exact complete target
  | masquerade subnet output => rfl
  | accept input output => rfl
  | acceptEstablished input output => rfl
  | drop mac => rfl

theorem Firewall.Complete.withRule (complete : fw.Complete)
    {place : List (Entry Other) → Entry Other → List (Entry Other)} {entry : Entry Other} :
    (fw.withRule place chain entry).Complete := fun another => withRule_isSome (complete another)

theorem withJumps_complete (complete : fw.Complete) : fw.withJumps.Complete :=
  complete.withRule.withRule.withRule

section Sequence

variable {subnetCidr apInterface upstreamInterface : String} {rest : Unit → Procedure Unit}

theorem ensureChains_then (now : always fw)
    (chains : ∀ fw chain, always fw → always (fw.withChain chain))
    (later : (rest ()).Meets (execute network) always ends fw.withChains) :
    (ensureChains >>= rest).Meets (execute network) always ends fw := by
  have first := chains fw .nat now
  have second := chains (fw.withChain .nat) .fwd first
  simp only [ensureChains, Script.bind_bind]
  apply ensureChain_then now
  apply ensureChain_then first
  exact ensureChain_then second later

theorem ensureJumpRules_then (complete : fw.Complete) (now : always fw)
    (rules : ∀ fw place item, item ∈ applied subnetCidr apInterface upstreamInterface → always fw →
      always (fw.withRule place item.1 (.own (item.2.read network))))
    (later : (rest ()).Meets (execute network) always ends fw.withJumps) :
    (ensureJumpRules >>= rest).Meets (execute network) always ends fw := by
  have first := rules fw atEnd (.postrouting, .jump .nat) (by simp [applied]) now
  have second := rules _ atEnd (.forward, .jump .fwd) (by simp [applied]) first
  simp only [ensureJumpRules, Script.bind_bind]
  apply ensureRule_then adds_append (complete .postrouting) complete.knows now
  apply ensureRule_then adds_append (complete.withRule .forward) complete.withRule.knows first
  exact ensureRule_then adds_insert (complete.withRule.withRule .forward)
    complete.withRule.withRule.knows second later

theorem ensureNatRules_then (complete : fw.Complete) (now : always fw)
    (rules : ∀ fw place item, item ∈ applied subnetCidr apInterface upstreamInterface → always fw →
      always (fw.withRule place item.1 (.own (item.2.read network))))
    (later : (rest ()).Meets (execute network) always ends
      (fw.withNatRules network subnetCidr apInterface upstreamInterface)) :
    (ensureNatRules subnetCidr apInterface upstreamInterface >>= rest).Meets (execute network)
      always ends fw := by
  have first := rules fw atEnd (.nat, .masquerade subnetCidr upstreamInterface) (by simp [applied])
    now
  have second := rules _ atEnd (.fwd, .accept apInterface upstreamInterface) (by simp [applied])
    first
  simp only [ensureNatRules, Script.bind_bind]
  apply ensureRule_then adds_append (complete .nat) complete.knows now
  apply ensureRule_then adds_append (complete.withRule .fwd) complete.withRule.knows first
  exact ensureRule_then adds_append (complete.withRule.withRule .fwd)
    complete.withRule.withRule.knows second later

/-- An apply succeeds on a host with both built-in chains. -/
theorem ensureAll_meets (postrouting : (fw .postrouting).isSome) (forward : (fw .forward).isSome)
    (now : always fw) (chains : ∀ fw chain, always fw → always (fw.withChain chain))
    (rules : ∀ fw place item, item ∈ applied subnetCidr apInterface upstreamInterface → always fw →
      always (fw.withRule place item.1 (.own (item.2.read network))))
    (ended : always (fw.withChains.withJumps.withNatRules network subnetCidr apInterface
        upstreamInterface) →
      ends (.ok ()) (fw.withChains.withJumps.withNatRules network subnetCidr apInterface
        upstreamInterface)) :
    (ensureAll subnetCidr apInterface upstreamInterface).Meets (execute network) always ends fw := by
  have complete := withChains_complete postrouting forward
  have chained : always fw.withChains := chains _ .block (chains _ .fwd (chains _ .nat now))
  have jumped : always fw.withChains.withJumps :=
    rules _ atFront (.forward, .jump .block) (by simp [applied])
      (rules _ atEnd (.forward, .jump .fwd) (by simp [applied])
        (rules _ atEnd (.postrouting, .jump .nat) (by simp [applied]) chained))
  have forwarded := rules _ atEnd (.fwd, .acceptEstablished upstreamInterface apInterface)
    (by simp [applied])
    (rules _ atEnd (.fwd, .accept apInterface upstreamInterface) (by simp [applied])
      (rules _ atEnd (.nat, .masquerade subnetCidr upstreamInterface) (by simp [applied]) jumped))
  rw [ensureAll, ← Script.bind_done (ensureNatRules subnetCidr apInterface upstreamInterface)]
  apply ensureChains_then now chains
  apply ensureJumpRules_then complete chained rules
  apply ensureNatRules_then (withJumps_complete complete) jumped rules
  exact ⟨forwarded, ended forwarded⟩

end Sequence

end Steps

/-! Answered by the operating system, the scripts are the operations of the runtime. -/

section Answered

variable (answers : Answers)

def answered {Result : Type} : Procedure Result → Act Result
  | .done result => pure result
  | .fail error => throw error
  | .call command next => answered (next (answers.command command.arguments))

@[simp] theorem answered_bind {Result Next : Type} (script : Procedure Result)
    (rest : Result → Procedure Next) :
    answered answers (script >>= rest) =
      answered answers script >>= fun result => answered answers (rest result) := by
  induction script with
  | done result => exact (pure_bind result fun value => answered answers (rest value)).symm
  | fail error => rfl
  | call command next ih => exact ih (answers.command command.arguments)

theorem answered_run (command : Command) :
    answered answers (run command) = runCommand answers command.arguments := by
  simp only [run, answered, runCommand]
  cases answers.command command.arguments <;> rfl

theorem answered_runUnchecked (command : Command) :
    answered answers (runUnchecked command) = Gateway.runUnchecked answers command.arguments := by
  simp only [runUnchecked, answered, Gateway.runUnchecked]
  cases answers.command command.arguments <;> rfl

theorem answered_succeeds (command : Command) :
    answered answers (succeeds command) = pure (Gateway.succeeds answers command.arguments) := by
  simp only [succeeds, answered, Gateway.succeeds]
  cases answers.command command.arguments <;> rfl

theorem answered_ensureChain (chain : Chain) :
    answered answers (ensureChain chain) = Gateway.ensureChain answers chain.table chain.name := by
  simp only [ensureChain, answered_bind, answered_succeeds, pure_bind, Gateway.ensureChain,
    Command.arguments]
  split
  · rfl
  · exact answered_runUnchecked answers (.create chain)

theorem answered_ensureChains :
    answered answers ensureChains = Gateway.ensureChains answers := by
  simp only [ensureChains, answered_bind, answered_ensureChain]
  rfl

theorem answered_append (chain : Chain) (rule : Rule) :
    answered answers (ensureRule .append chain rule) =
      Gateway.ensureRule answers chain.table ["-A", chain.name] chain.name rule.arguments := by
  simp only [ensureRule, answered_bind, answered_succeeds, pure_bind, Gateway.ensureRule,
    Command.arguments]
  split
  · rfl
  · exact answered_run answers (.append chain rule)

theorem answered_insert (chain : Chain) (rule : Rule) :
    answered answers (ensureRule .insert chain rule) =
      Gateway.ensureRule answers chain.table ["-I", chain.name, "1"] chain.name rule.arguments := by
  simp only [ensureRule, answered_bind, answered_succeeds, pure_bind, Gateway.ensureRule,
    Command.arguments]
  split
  · rfl
  · exact answered_run answers (.insert chain rule)

theorem answered_ensureJumpRules :
    answered answers ensureJumpRules = Gateway.ensureJumpRules answers := by
  simp only [ensureJumpRules, answered_bind, answered_append, answered_insert]
  rfl

theorem answered_ensureNatRules (subnetCidr apInterface upstreamInterface : String) :
    answered answers (ensureNatRules subnetCidr apInterface upstreamInterface) =
      Gateway.ensureNatRules answers subnetCidr apInterface upstreamInterface := by
  simp only [ensureNatRules, answered_bind, answered_append]
  rfl

theorem answered_teardown : answered answers teardown = Gateway.teardown answers := by
  simp only [teardown, answered_bind, answered_runUnchecked]
  rfl

end Answered

end PiAgents.Gateway.Iptables
