import PiAgents.Lib.Runs
import PiAgents.Gateway.Firewall

/-! Devices that stay blocked: the agent answers one request after the other, each a script of
commands, and other software adds rules of its own to the chain `FORWARD` between any two commands.
A blocked device meets its drop rule before any rule that forwards, until it is unblocked or the
agent tears its chains down. -/

namespace PiAgents.Gateway.Iptables

open Scripts Runs

variable {Other : Type}

inductive Request where
  | block (mac : String)
  | unblock (mac : String)
  /-- An apply of an enabled configuration, or a rollback to one. -/
  | enable (subnetCidr apInterface upstreamInterface : String)
  /-- An apply of a disabled configuration, or a rollback without a usable one. -/
  | disable

/-- A request with its address in the form of the rules. -/
inductive Task where
  | block (mac : String)
  | unblock (mac : String)
  | enable (subnetCidr apInterface upstreamInterface : String)
  | disable

/-- An invalid address is refused before any command. -/
def Request.task : Request → Except InvalidMac Task
  | block mac => (validateMac mac).map .block
  | unblock mac => (validateMac mac).map .unblock
  | enable subnetCidr apInterface upstreamInterface =>
      .ok (.enable subnetCidr apInterface upstreamInterface)
  | disable => .ok .disable

def Task.script : Task → Procedure Unit
  | block mac => do
      let _ ← blockAddress mac
      pure ()
  | unblock mac => do
      let _ ← unblockAddress mac
      pure ()
  | enable subnetCidr apInterface upstreamInterface =>
      ensureAll subnetCidr apInterface upstreamInterface
  | disable => teardown

/-- Of the blocked addresses those that are still blocked once the task is begun. -/
def Task.begun (task : Task) (blocked : List String) : List String :=
  match task with
  | unblock mac => blocked.filter (· ≠ mac)
  | _ => blocked

/-- The blocked addresses after the task is done. -/
def Task.finished (task : Task) (blocked : List String) : List String :=
  match task with
  | block mac => mac :: blocked
  | disable => []
  | _ => blocked

/-- They are unchanged by a task that fails. -/
def Task.left (task : Task) (blocked : List String) : Except Failure Unit → List String
  | .ok _ => task.finished blocked
  | .error _ => blocked

structure Agent (Other : Type) where
  firewall : Firewall Other
  /-- The addresses of which a block was answered with success, with no unblock and no teardown
  since. -/
  blocked : List String
  running : Option (Task × Procedure Unit)

def Agent.initial (postrouting forward : List Other) : Agent Other where
  firewall := .clean postrouting forward
  blocked := []
  running := none

inductive Event (Other : Type) where
  /-- A request is taken up, when no other is under way. -/
  | request (request : Request)
  /-- The request under way goes on by one command, or ends. -/
  | next
  /-- Other software puts a rule at a position of `FORWARD`, or after all. -/
  | other (position : Nat) (rule : Other)

variable [DecidableEq Other] (network : String → String)

def Agent.begin (agent : Agent Other) (request : Request) : Agent Other :=
  match agent.running, request.task with
  | none, .ok task =>
      { agent with blocked := task.begun agent.blocked, running := some (task, task.script) }
  | _, _ => agent

def Agent.next (agent : Agent Other) : Agent Other :=
  match agent.running with
  | none => agent
  | some (task, .done ()) => { agent with blocked := task.finished agent.blocked, running := none }
  | some (_, .fail _) => { agent with running := none }
  | some (task, .call command rest) =>
      { agent with
        firewall := (execute network command agent.firewall).2
        running := some (task, rest (execute network command agent.firewall).1) }

def Firewall.place (fw : Firewall Other) (position : Nat) (rule : Other) : Firewall Other :=
  Function.update fw .forward
    ((fw .forward).map fun rules => rules.take position ++ .other rule :: rules.drop position)

def Agent.step (agent : Agent Other) : Event Other → Agent Other
  | .request request => agent.begin request
  | .next => agent.next network
  | .other position rule => { agent with firewall := agent.firewall.place position rule }

/-! Without the rules of other software. -/

def Entry.isOwn : Entry Other → Bool
  | own _ => true
  | other _ => false

/-- What is left of the rules of a chain. -/
def Chain.kept (chain : Chain) (rules : List (Entry Other)) : List (Entry Other) :=
  if chain = .forward then rules.filter Entry.isOwn else rules

def Firewall.quiet (fw : Firewall Other) : Firewall Other := fun chain =>
  (fw chain).map chain.kept

omit [DecidableEq Other] in
@[simp] theorem kept_nil (chain : Chain) : chain.kept ([] : List (Entry Other)) = [] := by
  simp [Chain.kept]

omit [DecidableEq Other] in
@[simp] theorem mem_kept (chain : Chain) (rule : Rule) (rules : List (Entry Other)) :
    .own rule ∈ chain.kept rules ↔ .own rule ∈ rules := by
  by_cases forward : chain = .forward <;> simp [Chain.kept, Entry.isOwn, forward]

omit [DecidableEq Other] in
@[simp] theorem kept_cons (chain : Chain) (rule : Rule) (rules : List (Entry Other)) :
    chain.kept (.own rule :: rules) = .own rule :: chain.kept rules := by
  by_cases forward : chain = .forward
  · simp only [Chain.kept, forward, if_true]
    exact List.filter_cons_of_pos rfl
  · simp [Chain.kept, forward]

omit [DecidableEq Other] in
@[simp] theorem kept_append (chain : Chain) (rule : Rule) (rules : List (Entry Other)) :
    chain.kept (rules ++ [.own rule]) = chain.kept rules ++ [.own rule] := by
  by_cases forward : chain = .forward <;> simp [Chain.kept, Entry.isOwn, forward]

@[simp] theorem kept_erase (chain : Chain) (rule : Rule) (rules : List (Entry Other)) :
    chain.kept (rules.erase (.own rule)) = (chain.kept rules).erase (.own rule) := by
  unfold Chain.kept
  split
  · exact (List.erase_filter ..).symm
  · rfl

omit [DecidableEq Other] in
theorem quiet_set (fw : Firewall Other) (chain : Chain) (rules : List (Entry Other)) :
    (fw.set chain rules).quiet = fw.quiet.set chain (chain.kept rules) := by
  funext another
  by_cases same : another = chain
  · subst another
    simp [Firewall.quiet]
  · simp [Firewall.quiet, same]

omit [DecidableEq Other] in
theorem quiet_unset (fw : Firewall Other) (chain : Chain) :
    (fw.unset chain).quiet = fw.quiet.unset chain := by
  funext another
  by_cases same : another = chain
  · subst another
    simp [Firewall.quiet]
  · simp [Firewall.quiet, same]

omit [DecidableEq Other] in
theorem quiet_own {chain : Chain} (own : chain.builtIn = false) (fw : Firewall Other) :
    fw.quiet chain = fw chain := by
  have another : chain ≠ .forward := by
    rintro rfl
    simp [Chain.builtIn] at own
  cases found : fw chain <;> simp [Firewall.quiet, Chain.kept, another, found]

omit [DecidableEq Other] in
@[simp] theorem quiet_knows (fw : Firewall Other) (rule : Rule) :
    fw.quiet.knows rule = fw.knows rule := by
  cases rule <;> simp [Firewall.knows, Firewall.quiet]

@[simp] theorem quiet_jumpsTo (fw : Firewall Other) (target : Chain) :
    fw.quiet.jumpsTo target = fw.jumpsTo target := by
  have same (chain : Chain) : ((fw.quiet chain).getD []).contains (.own (.jump target)) =
      ((fw chain).getD []).contains (.own (.jump target)) := by
    cases found : fw chain with
    | none => simp [Firewall.quiet, found]
    | some rules => simp [Firewall.quiet, found]
  simp only [Firewall.jumpsTo, same]

/-- The agent's commands do the same whatever other rules there are. -/
theorem effect_quiet (command : Command) (fw : Firewall Other) :
    command.effect network fw.quiet = (command.effect network fw).map Firewall.quiet := by
  have kept (chain : Chain) : fw.quiet chain = (fw chain).map chain.kept := rfl
  cases command with
  | list chain => cases found : fw chain <;> simp [Command.effect, kept, found]
  | create chain => cases found : fw chain <;> simp [Command.effect, kept, found, quiet_set]
  | check chain rule =>
      cases found : fw chain with
      | none => simp [Command.effect, kept, found]
      | some rules =>
          by_cases member : .own (rule.read network) ∈ rules <;>
            simp [Command.effect, kept, found, member]
  | append chain rule => cases found : fw chain <;> simp [Command.effect, kept, found, quiet_set]
  | insert chain rule => cases found : fw chain <;> simp [Command.effect, kept, found, quiet_set]
  | delete chain rule =>
      cases found : fw chain with
      | none => simp [Command.effect, kept, found]
      | some rules =>
          by_cases member : .own (rule.read network) ∈ rules <;>
            simp [Command.effect, kept, found, member, quiet_set]
  | flush chain => cases found : fw chain <;> simp [Command.effect, kept, found, quiet_set]
  | remove chain =>
      cases builtIn : chain.builtIn with
      | true => simp [Command.effect, builtIn]
      | false =>
          have same := quiet_own builtIn fw
          by_cases stays : fw chain ≠ some [] ∨ fw.jumpsTo chain
          · simp [Command.effect, same, builtIn, stays]
          · simp [Command.effect, same, builtIn, stays, quiet_unset]

theorem execute_quiet (command : Command) (fw : Firewall Other) :
    execute network command fw.quiet =
      ((execute network command fw).1, (execute network command fw).2.quiet) := by
  simp only [execute, effect_quiet]
  cases command.effect network fw <;> rfl

omit [DecidableEq Other] in
theorem quiet_place (fw : Firewall Other) (position : Nat) (rule : Other) :
    (fw.place position rule).quiet = fw.quiet := by
  funext chain
  by_cases forward : chain = .forward
  · subst chain
    cases found : fw .forward with
    | none => simp [Firewall.quiet, Firewall.place, found]
    | some rules =>
        simp only [Firewall.quiet, Firewall.place, found, Function.update_self, Option.map_some,
          Chain.kept, if_true, Option.some.injEq]
        rw [List.filter_append, List.filter_cons_of_neg (by simp [Entry.isOwn]),
          ← List.filter_append, List.take_append_drop]
  · simp [Firewall.quiet, Firewall.place, forward]

/-! The invariant, without other rules. -/

/-- Both jumps are there in their order, and the blocked addresses have their rules. -/
structure Up (blocked : List String) (fw : Firewall Other) : Prop where
  forward : fw .forward = some [.own (.jump .block), .own (.jump .fwd)]
  drops : ∃ rules, fw .block = some rules ∧ (∀ entry ∈ rules, ∃ mac, entry = .own (.drop mac)) ∧
    ∀ mac ∈ blocked, .own (.drop mac) ∈ rules

structure Down (fw : Firewall Other) : Prop where
  forward : fw .forward = some []
  fwd : fw .fwd = none
  block : fw .block = none

/-- Between two requests. -/
structure Idle (blocked : List String) (fw : Firewall Other) : Prop where
  postrouting : (fw .postrouting).isSome
  state : Up blocked fw ∨ Down fw ∧ blocked = []

/-- Nothing is forwarded by the agent's rules. -/
def Unforwarded (fw : Firewall Other) : Prop :=
  ∀ rules, fw .forward = some rules → .own (.jump .fwd) ∉ rules

/-- At any time. -/
def Guarded (blocked : List String) (fw : Firewall Other) : Prop :=
  blocked = [] ∨ Up blocked fw ∨ Unforwarded fw

omit [DecidableEq Other] in
theorem Down.unforwarded {fw : Firewall Other} (down : Down fw) : Unforwarded fw := by
  intro rules there
  rw [down.forward] at there
  cases there
  exact List.not_mem_nil

omit [DecidableEq Other] in
theorem Idle.guarded {blocked : List String} {fw : Firewall Other} (idle : Idle blocked fw) :
    Guarded blocked fw := by
  rcases idle.state with up | ⟨down, _⟩
  · exact .inr (.inl up)
  · exact .inr (.inr down.unforwarded)

omit [DecidableEq Other] in
theorem Up.congr {blocked : List String} {fw other : Firewall Other} (up : Up blocked fw)
    (forward : other .forward = fw .forward) (block : other .block = fw .block) :
    Up blocked other :=
  ⟨forward.trans up.forward, by rw [block]; exact up.drops⟩

omit [DecidableEq Other] in
theorem Up.fewer {blocked fewer : List String} {fw : Firewall Other} (up : Up blocked fw)
    (contained : ∀ mac ∈ fewer, mac ∈ blocked) : Up fewer fw := by
  obtain ⟨rules, there, drops, blocks⟩ := up.drops
  exact ⟨up.forward, rules, there, drops, fun mac member => blocks mac (contained mac member)⟩

section Tasks

variable {network} {blocked : List String} {fw : Firewall Other}

omit [DecidableEq Other] in
theorem Up.withChain (up : Up blocked fw) (chain : Chain) : Up blocked (fw.withChain chain) := by
  obtain ⟨rules, there, _⟩ := up.drops
  cases found : fw chain with
  | some rules => rwa [withChain_there found]
  | none =>
      refine up.congr (withChain_elsewhere ?_) (withChain_elsewhere ?_)
      · rintro rfl
        simp [up.forward] at found
      · rintro rfl
        simp [there] at found

theorem Up.withRule (up : Up blocked fw) {subnetCidr apInterface upstreamInterface : String}
    {place : List (Entry Other) → Entry Other → List (Entry Other)} {item : Chain × Rule}
    (member : item ∈ applied subnetCidr apInterface upstreamInterface) :
    Up blocked (fw.withRule place item.1 (.own (item.2.read network))) := by
  simp only [applied, List.mem_cons, List.not_mem_nil, or_false] at member
  rcases member with rfl | rfl | rfl | rfl | rfl | rfl
  · exact up.congr (withRule_elsewhere (by simp)) (withRule_elsewhere (by simp))
  · rwa [withRule_there up.forward (by simp [Rule.read])]
  · rwa [withRule_there up.forward (by simp [Rule.read])]
  · exact up.congr (withRule_elsewhere (by simp)) (withRule_elsewhere (by simp))
  · exact up.congr (withRule_elsewhere (by simp)) (withRule_elsewhere (by simp))
  · exact up.congr (withRule_elsewhere (by simp)) (withRule_elsewhere (by simp))

theorem postrouting_kept {subnetCidr apInterface upstreamInterface : String}
    (there : (fw .postrouting).isSome) :
    (fw.withChains.withJumps.withNatRules network subnetCidr apInterface upstreamInterface
      .postrouting).isSome :=
  withRule_isSome (withRule_isSome (withRule_isSome (withRule_isSome (withRule_isSome
    (withRule_isSome (withChain_isSome (withChain_isSome (withChain_isSome there))))))))

theorem Down.raised (down : Down fw) (subnetCidr apInterface upstreamInterface : String) :
    Up [] (fw.withChains.withJumps.withNatRules network subnetCidr apInterface
      upstreamInterface) := by
  have forward : fw.withChains .forward = some [] := by
    simp only [Firewall.withChains, withChain_elsewhere, ne_eq, reduceCtorEq, not_false_eq_true,
      down.forward]
  have block : fw.withChains .block = some [] := by
    have absent : ((fw.withChain .nat).withChain .fwd) .block = none := by
      simp only [withChain_elsewhere, ne_eq, reduceCtorEq, not_false_eq_true, down.block]
    rw [Firewall.withChains, withChain_new absent]
    exact set_self
  have jumps : fw.withChains.withJumps .forward =
      some [.own (.jump .block), .own (.jump .fwd)] := by
    have first : (fw.withChains.withRule atEnd .postrouting (.own (.jump .nat))) .forward =
        some [] := by rw [withRule_elsewhere (by simp), forward]
    have second : ((fw.withChains.withRule atEnd .postrouting (.own (.jump .nat))).withRule atEnd
        .forward (.own (.jump .fwd))) .forward = some [.own (.jump .fwd)] := by
      rw [withRule_new first (by simp), set_self]
      rfl
    rw [Firewall.withJumps, withRule_new second (by simp), set_self]
    rfl
  refine ⟨?_, [], ?_, by simp, by simp⟩
  · simp only [Firewall.withNatRules, withRule_elsewhere, ne_eq, reduceCtorEq, not_false_eq_true,
      jumps]
  · simp only [Firewall.withNatRules, Firewall.withJumps, withRule_elsewhere, ne_eq, reduceCtorEq,
      not_false_eq_true, block]

theorem enable_meets (idle : Idle blocked fw) (subnetCidr apInterface upstreamInterface : String) :
    (ensureAll subnetCidr apInterface upstreamInterface).Meets (execute network) (Guarded blocked)
      (fun _ after => Idle blocked after) fw := by
  rcases idle.state with up | ⟨down, rfl⟩
  · have meets : (ensureAll subnetCidr apInterface upstreamInterface).Meets (execute network)
        (Up blocked) (fun _ after => Idle blocked after) fw := by
      apply ensureAll_meets idle.postrouting (by simp [up.forward]) up
        (fun fw chain up => up.withChain chain) (fun fw place item member up => up.withRule member)
      exact fun after => ⟨postrouting_kept idle.postrouting, .inl after⟩
    exact meets.weaken (fun state up => .inr (.inl up)) fun _ _ ended => ended
  · apply ensureAll_meets idle.postrouting (by simp [down.forward]) (.inl rfl)
      (fun _ _ _ => .inl rfl) (fun _ _ _ _ _ => .inl rfl)
    exact fun _ => ⟨postrouting_kept idle.postrouting, .inl (down.raised ..)⟩

/-! A teardown. -/

/-- Both jumps are gone. -/
structure Cut (fw : Firewall Other) : Prop where
  postrouting : (fw .postrouting).isSome
  forward : fw .forward = some []

omit [DecidableEq Other] in
theorem Cut.guarded (cut : Cut fw) : Guarded blocked fw := by
  refine .inr (.inr fun rules there => ?_)
  rw [cut.forward] at there
  cases there
  exact List.not_mem_nil

theorem Cut.kept (cut : Cut fw) (network : String → String) (command : Command) (own : command.chain.builtIn = false) :
    Cut (execute network command fw).2 := by
  have outside {chain : Chain} (builtIn : chain.builtIn = true) : chain ≠ command.chain := by
    rintro rfl
    simp [own] at builtIn
  constructor
  · rw [execute_elsewhere network command (outside rfl)]
    exact cut.postrouting
  · rw [execute_elsewhere network command (outside rfl)]
    exact cut.forward

def Empty (fw : Firewall Other) (chain : Chain) : Prop := fw chain = none ∨ fw chain = some []

theorem unreferenced (forward : fw .forward = some []) (fwd : Empty fw .fwd)
    (block : Empty fw .block) : fw.jumpsTo .fwd = false ∧ fw.jumpsTo .block = false := by
  have different : (natTable == filterTable) = false := by decide
  rcases fwd with fwd | fwd <;> rcases block with block | block <;>
    simp [Firewall.jumpsTo, Chain.all, Chain.table, different, forward, fwd, block]

theorem flush_empty (network : String → String) (fw : Firewall Other) (chain : Chain) :
    Empty (execute network (.flush chain) fw).2 chain := by
  rw [Empty, execute_flush]
  cases fw chain with
  | none => exact .inl rfl
  | some rules => exact .inr rfl

theorem Empty.kept {chain : Chain} (empty : Empty fw chain) (network : String → String)
    (command : Command) (differs : chain ≠ command.chain) : Empty (execute network command fw).2 chain := by
  rwa [Empty, execute_elsewhere network command differs]

/-- Once both jumps are gone, the chains are emptied and removed. -/
theorem clear_meets (cut : Cut fw) :
    (do
      runUnchecked (.flush .nat)
      runUnchecked (.flush .fwd)
      runUnchecked (.flush .block)
      runUnchecked (.remove .nat)
      runUnchecked (.remove .fwd)
      runUnchecked (.remove .block) : Procedure Unit).Meets (execute network) (Guarded blocked)
      (fun result after => Idle (Task.disable.left blocked result) after) fw := by
  apply runUnchecked_then cut.guarded
  have cut := cut.kept network (.flush .nat) rfl
  generalize (execute network (.flush .nat) fw).2 = fw at *
  apply runUnchecked_then cut.guarded
  have cut := cut.kept network (.flush .fwd) rfl
  have fwd := flush_empty network fw .fwd
  generalize (execute network (.flush .fwd) fw).2 = fw at *
  apply runUnchecked_then cut.guarded
  have cut := cut.kept network (.flush .block) rfl
  have fwd := fwd.kept network (.flush .block) (by simp [Command.chain])
  have block := flush_empty network fw .block
  generalize (execute network (.flush .block) fw).2 = fw at *
  apply runUnchecked_then cut.guarded
  have cut := cut.kept network (.remove .nat) rfl
  have fwd := fwd.kept network (.remove .nat) (by simp [Command.chain])
  have block := block.kept network (.remove .nat) (by simp [Command.chain])
  generalize (execute network (.remove .nat) fw).2 = fw at *
  apply runUnchecked_then cut.guarded
  have gone := execute_remove network rfl fwd
    (unreferenced cut.forward fwd block).1
  have cut := cut.kept network (.remove .fwd) rfl
  have block := block.kept network (.remove .fwd) (by simp [Command.chain])
  generalize (execute network (.remove .fwd) fw).2 = fw at *
  rw [← Script.bind_done (runUnchecked (.remove .block))]
  apply runUnchecked_then cut.guarded
  have removed := execute_remove network rfl block
    (unreferenced cut.forward (.inl gone) block).2
  have cut := cut.kept network (.remove .block) rfl
  have gone : (execute network (.remove .block) fw).2 .fwd = none := by
    rwa [execute_elsewhere network _ (by simp [Command.chain])]
  exact ⟨cut.guarded, cut.postrouting, .inr ⟨⟨cut.forward, gone, removed⟩, rfl⟩⟩

theorem teardown_meets (idle : Idle blocked fw) :
    teardown.Meets (execute network) (Guarded blocked)
      (fun result after => Idle (Task.disable.left blocked result) after) fw := by
  obtain ⟨sources, source⟩ := Option.isSome_iff_exists.mp idle.postrouting
  obtain ⟨rules, there, known⟩ : ∃ rules : List (Entry Other), fw .forward = some rules ∧
      (rules = [.own (.jump .block), .own (.jump .fwd)] ∨ rules = []) := by
    rcases idle.state with up | ⟨down, _⟩
    · exact ⟨_, up.forward, .inl rfl⟩
    · exact ⟨_, down.forward, .inr rfl⟩
  apply runUnchecked_then idle.guarded
  have postrouting := execute_delete network (.jump .nat) source
  have forward := execute_elsewhere network (.delete .postrouting (.jump .nat))
    (show .forward ≠ _ by simp [Command.chain]) fw
  have block := execute_elsewhere network (.delete .postrouting (.jump .nat))
    (show .block ≠ _ by simp [Command.chain]) fw
  have guarded : Guarded blocked
      (execute network (.delete .postrouting (.jump .nat)) fw).2 := by
    rcases idle.state with up | ⟨_, none⟩
    · exact .inr (.inl (up.congr forward block))
    · exact .inl none
  rw [there] at forward
  generalize (execute network (.delete .postrouting (.jump .nat)) fw).2 = fw at *
  apply runUnchecked_then guarded
  have postrouting : (execute network (.delete .forward (.jump .fwd)) fw).2 .postrouting =
      some _ := (execute_elsewhere network _ (by simp [Command.chain]) fw).trans postrouting
  have forward := execute_delete network (.jump .fwd) forward
  generalize (execute network (.delete .forward (.jump .fwd)) fw).2 = fw at *
  have guarded : Guarded blocked fw := by
    refine .inr (.inr fun left found => ?_)
    rw [forward] at found
    rcases known with rfl | rfl <;> cases found <;> simp [Rule.read]
  apply runUnchecked_then guarded
  have postrouting : (execute network (.delete .forward (.jump .block)) fw).2 .postrouting =
      some _ := (execute_elsewhere network _ (by simp [Command.chain]) fw).trans postrouting
  have forward := execute_delete network (.jump .block) forward
  apply clear_meets
  refine ⟨by simp [postrouting], ?_⟩
  rw [forward]
  rcases known with rfl | rfl <;> simp [Rule.read]

/-! A device. -/

theorem block_meets (idle : Idle blocked fw) (mac : String) :
    (Task.block mac).script.Meets (execute network) (Guarded blocked)
      (fun result after => Idle ((Task.block mac).left blocked result) after) fw := by
  have start := idle.guarded
  rcases idle.state with up | ⟨down, rfl⟩
  · obtain ⟨rules, there, drops, blocks⟩ := up.drops
    by_cases member : .own (.drop mac) ∈ rules
    · have checked : (Command.check .block (.drop mac)).effect network fw = some fw := by
        simp [Command.effect, there, member, Rule.read]
      have after : Idle (mac :: blocked) fw :=
        ⟨idle.postrouting, .inl ⟨up.forward, rules, there, drops, by simpa [member]⟩⟩
      simpa [Task.script, blockAddress, succeeds, Script.Meets, execute_some checked, start]
    · have checked : (Command.check .block (.drop mac)).effect network fw = none := by
        simp [Command.effect, there, member, Rule.read]
      have added : (Command.append .block (.drop mac)).effect network fw =
          some (fw.set .block (rules ++ [.own (.drop mac)])) := by
        simp [Command.effect, there, Rule.read, Firewall.knows]
      have more : Up (mac :: blocked) (fw.set .block (rules ++ [.own (.drop mac)])) := by
        refine ⟨by simpa using up.forward, _, set_self, ?_, ?_⟩
        · intro entry among
          rcases List.mem_append.mp among with old | new
          · exact drops entry old
          · exact ⟨mac, List.mem_singleton.mp new⟩
        · intro other among
          rcases List.mem_cons.mp among with rfl | old
          · simp
          · exact List.mem_append_left _ (blocks other old)
      have after : Idle (mac :: blocked) (fw.set .block (rules ++ [.own (.drop mac)])) :=
        ⟨by simpa using idle.postrouting, .inl more⟩
      have guarded : Guarded blocked (fw.set .block (rules ++ [.own (.drop mac)])) :=
        .inr (.inl (more.fewer fun _ among => List.mem_cons_of_mem _ among))
      simpa [Task.script, blockAddress, succeeds, Gateway.Iptables.run, Script.Meets,
        execute_none checked, refused, execute_some added, start, guarded]
  · have checked : (Command.check .block (.drop mac)).effect network fw = none := by
      simp [Command.effect, down.block]
    have added : (Command.append .block (.drop mac)).effect network fw = none := by
      simp [Command.effect, down.block]
    have after : Idle [] fw := idle
    simpa [Task.script, blockAddress, succeeds, Gateway.Iptables.run, Script.Meets,
      execute_none checked, refused, execute_none added, start]

theorem unblock_meets (idle : Idle blocked fw) {mac : String} (free : mac ∉ blocked) :
    (Task.unblock mac).script.Meets (execute network) (Guarded blocked)
      (fun _ after => Idle blocked after) fw := by
  have start := idle.guarded
  rcases idle.state with up | ⟨down, rfl⟩
  · obtain ⟨rules, there, drops, blocks⟩ := up.drops
    by_cases member : .own (.drop mac) ∈ rules
    · have checked : (Command.check .block (.drop mac)).effect network fw = some fw := by
        simp [Command.effect, there, member, Rule.read]
      have deleted : (Command.delete .block (.drop mac)).effect network fw =
          some (fw.set .block (rules.erase (.own (.drop mac)))) := by
        simp [Command.effect, there, member, Rule.read]
      have fewer : Up blocked (fw.set .block (rules.erase (.own (.drop mac)))) := by
        refine ⟨by simpa using up.forward, _, set_self, ?_, ?_⟩
        · exact fun entry among => drops entry (List.mem_of_mem_erase among)
        · intro other among
          have differs : other ≠ mac := fun same => free (same ▸ among)
          exact (List.mem_erase_of_ne (by simpa using differs)).mpr (blocks other among)
      have after : Idle blocked (fw.set .block (rules.erase (.own (.drop mac)))) :=
        ⟨by simpa using idle.postrouting, .inl fewer⟩
      have guarded : Guarded blocked (fw.set .block (rules.erase (.own (.drop mac)))) :=
        .inr (.inl fewer)
      simpa [Task.script, unblockAddress, succeeds, Gateway.Iptables.run, Script.Meets,
        execute_some checked, execute_some deleted, start, guarded]
    · have checked : (Command.check .block (.drop mac)).effect network fw = none := by
        simp [Command.effect, there, member, Rule.read]
      simpa [Task.script, unblockAddress, succeeds, Script.Meets, execute_none checked, refused,
        start]
  · have checked : (Command.check .block (.drop mac)).effect network fw = none := by
      simp [Command.effect, down.block]
    simpa [Task.script, unblockAddress, succeeds, Script.Meets, execute_none checked, refused,
      start]

omit [DecidableEq Other] in
theorem Idle.fewer (idle : Idle blocked fw) {fewer : List String}
    (contained : ∀ mac ∈ fewer, mac ∈ blocked) : Idle fewer fw := by
  refine ⟨idle.postrouting, ?_⟩
  rcases idle.state with up | ⟨down, rfl⟩
  · exact .inl (up.fewer contained)
  · exact .inr ⟨down, List.eq_nil_iff_forall_not_mem.mpr fun mac member =>
      List.not_mem_nil (contained mac member)⟩

/-- What each task keeps and what it leaves. -/
theorem Task.meets (task : Task) (network : String → String) (idle : Idle blocked fw) :
    task.script.Meets (execute network) (Guarded (task.begun blocked))
      (fun result after => Idle (task.left (task.begun blocked) result) after) fw := by
  cases task with
  | block mac => exact block_meets idle mac
  | unblock mac =>
      have fewer : Idle (blocked.filter (· ≠ mac)) fw :=
        idle.fewer fun other member => List.mem_of_mem_filter member
      apply (unblock_meets fewer (by simp)).weaken (fun _ guarded => guarded)
      intro result after ended
      cases result <;> exact ended
  | enable subnetCidr apInterface upstreamInterface =>
      apply (enable_meets idle subnetCidr apInterface upstreamInterface).weaken
        (fun _ guarded => guarded)
      intro result after ended
      cases result <;> exact ended
  | disable => exact teardown_meets idle

end Tasks

/-! Runs. -/

/-- Between two requests the agent is idle, and within one it keeps its script's promise. -/
def Agent.Keeps (agent : Agent Other) : Prop :=
  match agent.running with
  | none => Idle agent.blocked agent.firewall.quiet
  | some (task, script) =>
      script.Meets (execute network) (Guarded agent.blocked)
        (fun result after => Idle (task.left agent.blocked result) after) agent.firewall.quiet

variable {network}

theorem Agent.Keeps.guarded {agent : Agent Other} (keeps : agent.Keeps network) :
    Guarded agent.blocked agent.firewall.quiet := by
  unfold Agent.Keeps at keeps
  split at keeps
  · exact keeps.guarded
  · exact keeps.now

theorem Agent.Keeps.begin {agent : Agent Other} (keeps : agent.Keeps network) (request : Request) :
    (agent.begin request).Keeps network := by
  obtain ⟨firewall, blocked, running⟩ := agent
  cases running with
  | some task => exact keeps
  | none =>
      cases found : request.task with
      | error error => simpa [Agent.begin, found] using keeps
      | ok task =>
          have meets := task.meets network (show Idle blocked firewall.quiet from keeps)
          simpa [Agent.begin, found, Agent.Keeps] using meets

theorem Agent.Keeps.next {agent : Agent Other} (keeps : agent.Keeps network) :
    (agent.next network).Keeps network := by
  obtain ⟨firewall, blocked, running⟩ := agent
  cases running with
  | none => exact keeps
  | some pair =>
      obtain ⟨task, script⟩ := pair
      cases script with
      | done result => exact keeps.2
      | fail error => exact keeps.2
      | call command rest =>
          have later := keeps.2
          rw [execute_quiet] at later
          exact later

theorem Agent.Keeps.step {agent : Agent Other} (keeps : agent.Keeps network)
    (event : Event Other) : (agent.step network event).Keeps network := by
  cases event with
  | request request => exact keeps.begin request
  | next => exact keeps.next
  | other position rule =>
      unfold Agent.Keeps at keeps ⊢
      simpa only [Agent.step, quiet_place] using keeps

theorem Agent.initial_keeps (network : String → String) (postrouting forward : List Other) :
    (Agent.initial postrouting forward).Keeps network := by
  refine ⟨?_, .inr ⟨⟨?_, rfl, rfl⟩, rfl⟩⟩
  · simp [Agent.initial, Firewall.clean, Firewall.quiet]
  · simp [Agent.initial, Firewall.clean, Firewall.quiet, Chain.kept, Entry.isOwn]

theorem Agent.run_keeps (network : String → String) (postrouting forward : List Other)
    (events : List (Event Other)) :
    (Runs.run (Agent.step network) (Agent.initial postrouting forward) events).Keeps network := by
  suffices kept : ∀ agent : Agent Other, agent.Keeps network →
      (Runs.run (Agent.step network) agent events).Keeps network from
    kept _ (Agent.initial_keeps network postrouting forward)
  induction events with
  | nil => exact fun _ keeps => keeps
  | cons event rest ih => exact fun agent keeps => ih _ (keeps.step event)

/-! The way of a packet. -/

section Way

variable {fw : Firewall Other} {blocked : List String}

omit [DecidableEq Other] in
theorem Up.rules (up : Up blocked fw.quiet) :
    ∃ first rest, fw .forward = some (first ++ .own (.jump .block) :: rest) ∧
      ∀ entry ∈ first, ∃ rule, entry = .other rule := by
  obtain ⟨rules, there, kept⟩ := Option.map_eq_some_iff.mp up.forward
  obtain ⟨first, rest, rfl, others, _, _⟩ := List.filter_eq_cons_iff.mp kept
  refine ⟨first, rest, there, fun entry member => ?_⟩
  cases entry with
  | own rule => exact absurd rfl (others _ member)
  | other rule => exact ⟨rule, rfl⟩

omit [DecidableEq Other] in
theorem passage_leaves (depth : Nat) (chain : Chain) {entries : List (Entry Other)}
    (leaves : ∀ entry ∈ entries, ∀ target, entry ≠ .own (.jump target)) :
    (entries.flatMap fun entry => (chain, entry) :: entry.followed (passage fw depth)) =
      entries.map fun entry => (chain, entry) := by
  induction entries with
  | nil => rfl
  | cons entry rest ih =>
      have alone := leaves entry List.mem_cons_self
      rw [List.flatMap_cons, List.map_cons,
        ih fun entry member => leaves entry (List.mem_cons_of_mem _ member)]
      cases entry with
      | other rule => rfl
      | own rule =>
          cases rule with
          | jump target => exact absurd rfl (alone target)
          | masquerade subnet output => rfl
          | accept input output => rfl
          | acceptEstablished input output => rfl
          | drop mac => rfl

omit [DecidableEq Other] in
/-- Before the drop rule of a blocked device stand rules of other software and drop rules only. -/
theorem Up.passage (up : Up blocked fw.quiet) {mac : String} (member : mac ∈ blocked)
    (depth : Nat) :
    ∃ (first drops : List (Entry Other)) (after : List (Chain × Entry Other)),
      Iptables.passage fw (depth + 2) .forward =
        first.map (fun entry => (.forward, entry)) ++ (.forward, .own (.jump .block)) ::
          (drops.map (fun entry => (.block, entry)) ++ (.block, .own (.drop mac)) :: after) ∧
      (∀ entry ∈ first, ∃ rule, entry = .other rule) ∧
      ∀ entry ∈ drops, ∃ mac, entry = .own (.drop mac) := by
  obtain ⟨first, rest, forward, others⟩ := up.rules
  obtain ⟨rules, there, drops, blocks⟩ := up.drops
  rw [quiet_own rfl] at there
  obtain ⟨before, after, rfl⟩ := List.append_of_mem (blocks mac member)
  have leaves : ∀ entry ∈ before, ∀ target, entry ≠ .own (.jump target) := by
    intro entry among target same
    obtain ⟨other, isDrop⟩ := drops entry (List.mem_append_left _ among)
    simp [same] at isDrop
  have outside : ∀ entry ∈ first, ∀ target, entry ≠ .own (.jump target) := by
    intro entry among target same
    obtain ⟨rule, isOther⟩ := others entry among
    simp [same] at isOther
  obtain ⟨later, chain⟩ : ∃ later, Iptables.passage fw (depth + 1) .block =
      before.map (fun entry => (.block, entry)) ++ (.block, .own (.drop mac)) :: later := by
    refine ⟨after.flatMap fun entry => (.block, entry) :: entry.followed (Iptables.passage fw depth),
      ?_⟩
    rw [Iptables.passage, there, Option.getD_some, List.flatMap_append,
      passage_leaves depth .block leaves, List.flatMap_cons]
    rfl
  refine ⟨first, before, later ++ rest.flatMap fun entry =>
    (.forward, entry) :: entry.followed (Iptables.passage fw (depth + 1)), ?_, others,
    fun entry among => drops entry (List.mem_append_left _ among)⟩
  rw [Iptables.passage, forward, Option.getD_some, List.flatMap_append,
    passage_leaves (depth + 1) .forward outside, List.flatMap_cons, Entry.followed, chain]
  simp only [List.cons_append, List.append_assoc]

end Way

/-- In every run, while the agent's chain of accepting rules is jumped to, a packet meets the drop
rule of a blocked device before any rule of that chain; and if a rule decides on a packet of the
device before, then it is one of other software. -/
theorem blocked_stays_blocked (network : String → String) (postrouting forward : List Other)
    (events : List (Event Other)) (depth : Nat) {mac : String} {agent : Agent Other}
    (reached : agent = Runs.run (Agent.step network) (Agent.initial postrouting forward) events)
    (jumps : .own (.jump .fwd) ∈ (agent.firewall .forward).getD []) (member : mac ∈ agent.blocked) :
    (∃ before after, passage agent.firewall (depth + 2) .forward =
        before ++ (.block, .own (.drop mac)) :: after ∧ ∀ item ∈ before, item.1 ≠ .fwd) ∧
      ∀ verdicts packet, packet.source = mac →
        decision verdicts agent.firewall (depth + 2) packet = some (.block, .own (.drop mac)) ∨
          ∃ rule, decision verdicts agent.firewall (depth + 2) packet =
            some (.forward, .other rule) := by
  have guarded := (reached ▸ Agent.run_keeps network postrouting forward events :
    agent.Keeps network).guarded
  have up : Up agent.blocked agent.firewall.quiet := by
    rcases guarded with none | up | unforwarded
    · simp [none] at member
    · exact up
    · cases there : agent.firewall .forward with
      | none => simp [there] at jumps
      | some rules =>
          have kept : agent.firewall.quiet .forward = some (Chain.forward.kept rules) := by
            simp [Firewall.quiet, there]
          exact absurd (by simpa [there] using jumps) (unforwarded _ kept)
  obtain ⟨first, drops, after, way, others, dropped⟩ := up.passage member depth
  refine ⟨⟨first.map (fun entry => (.forward, entry)) ++ (.forward, .own (.jump .block)) ::
    drops.map fun entry => (.block, entry), after, by simp [way], ?_⟩, ?_⟩
  · intro item among
    simp only [List.mem_append, List.mem_map, List.mem_cons] at among
    rcases among with ⟨entry, _, rfl⟩ | rfl | ⟨entry, _, rfl⟩ <;> simp
  · rintro verdicts packet rfl
    rw [decision, way, List.find?_append]
    cases early : (first.map fun entry => (Chain.forward, entry)).find? fun item =>
        (item.2.decides verdicts packet).isSome with
    | some item =>
        obtain ⟨entry, among, rfl⟩ := List.mem_map.mp (List.mem_of_find?_eq_some early)
        obtain ⟨rule, rfl⟩ := others entry among
        exact .inr ⟨rule, rfl⟩
    | none =>
        left
        rw [Option.none_or, List.find?_cons_of_neg (by simp [Entry.decides, Rule.decides]),
          List.find?_append]
        cases blocks : (drops.map fun entry => (Chain.block, entry)).find? fun item =>
            (item.2.decides verdicts packet).isSome with
        | some item =>
            obtain ⟨entry, among, rfl⟩ := List.mem_map.mp (List.mem_of_find?_eq_some blocks)
            obtain ⟨mac, rfl⟩ := dropped entry among
            have decides := List.find?_some blocks
            have same : packet.source = mac := by
              simpa [Entry.decides, Rule.decides] using decides
            rw [same]
            rfl
        | none =>
            rw [Option.none_or, List.find?_cons_of_pos (by simp [Entry.decides, Rule.decides])]

def configured : List (Event Nat) :=
  .request (.enable "192.168.50.0/24" "wlan0" "eth0") :: List.replicate 19 .next

def blockedProbe : List (Event Nat) :=
  configured ++ .request (.block "AA:BB:CC:DD:EE:FF") :: List.replicate 3 .next

theorem blocked_stays_blocked_probe :
    let agent := Runs.run (Agent.step id) (Agent.initial [] [4])
      (blockedProbe ++ [.other 0 7, .request .disable, .other 5 9])
    (∃ before after, passage agent.firewall (0 + 2) .forward =
        before ++ (.block, .own (.drop "aa:bb:cc:dd:ee:ff")) :: after ∧
          ∀ item ∈ before, item.1 ≠ .fwd) ∧
      ∀ verdicts packet, packet.source = "aa:bb:cc:dd:ee:ff" →
        decision verdicts agent.firewall (0 + 2) packet =
            some (.block, .own (.drop "aa:bb:cc:dd:ee:ff")) ∨
          ∃ rule, decision verdicts agent.firewall (0 + 2) packet = some (.forward, .other rule) :=
  blocked_stays_blocked id [] [4]
    (blockedProbe ++ [.other 0 7, .request .disable, .other 5 9]) 0 rfl (by decide +kernel)
    (by decide +kernel)

def Event.unblocks : Event Other → Bool
  | request (.unblock _) => true
  | _ => false

def phone : Packet := ⟨"aa:bb:cc:dd:ee:ff", "wlan0", "eth0", false⟩

/-- A device is blocked and never unblocked, the agent is switched off and on again, and the packets
of the device are accepted. -/
theorem blocked_not_after_disable :
    let blocked := Runs.run (Agent.step id) (Agent.initial [] []) blockedProbe
    let later := .request .disable :: List.replicate 10 .next ++ configured
    let agent := Runs.run (Agent.step id) blocked later
    "aa:bb:cc:dd:ee:ff" ∈ blocked.blocked ∧ later.all (fun event => !event.unblocks) ∧
      .own (.jump .fwd) ∈ (agent.firewall .forward).getD [] ∧
      decision (fun _ _ => none) agent.firewall 2 phone =
        some (.fwd, .own (.accept "wlan0" "eth0")) := by
  decide +kernel

end PiAgents.Gateway.Iptables
