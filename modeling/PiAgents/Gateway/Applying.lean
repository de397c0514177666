import PiAgents.Gateway.Restore
import PiAgents.Gateway.Firewall

/-! Configurations applied one after another: what is left of the earlier ones in the chains of the
gateway. -/

namespace PiAgents.Gateway.Iptables

open Scripts

variable {Other : Type} [DecidableEq Other] (network : String → String)

/-- The part of `_apply_locked` that changes the rules, for an enabled configuration. -/
def applyRules (fw : Firewall Other) (cfg : WifiConfig) : Firewall Other :=
  ((ensureAll cfg.subnetCidr cfg.apInterface cfg.upstreamInterface).run (execute network) fw).2

def applyAll (fw : Firewall Other) (configs : List WifiConfig) : Firewall Other :=
  configs.foldl (applyRules network) fw

def times (fw : Firewall Other) (chain : Chain) (rule : Rule) : Nat :=
  ((fw chain).getD []).count (.own rule)

/-- The chains of the gateway are those of the last configuration alone, each jump is there once, and
another apply of it changes nothing. -/
def Independent (fw : Firewall Other) (configs : List WifiConfig) (last : WifiConfig) : Prop :=
  let after := applyAll network fw (configs ++ [last])
  let alone := applyAll network fw [last]
  after .nat = alone .nat ∧ after .fwd = alone .fwd ∧
    times after .postrouting (.jump .nat) = 1 ∧ times after .forward (.jump .fwd) = 1 ∧
    times after .forward (.jump .block) = 1 ∧ applyRules network after last = after

/-- The rules of an apply all in place. -/
def withAll (fw : Firewall Other) (cfg : WifiConfig) : Firewall Other :=
  fw.withChains.withJumps.withNatRules network cfg.subnetCidr cfg.apInterface cfg.upstreamInterface

/-- The rules of a configuration, each with its chain, as they are stored. -/
def stored (cfg : WifiConfig) : List (Chain × Rule) :=
  (applied cfg.subnetCidr cfg.apInterface cfg.upstreamInterface).map fun item =>
    (item.1, item.2.read network)

structure BuiltIn (fw : Firewall Other) : Prop where
  postrouting : (fw .postrouting).isSome
  forward : (fw .forward).isSome

variable {network} {fw : Firewall Other} {cfg : WifiConfig}

theorem applyRules_eq (builtIn : BuiltIn fw) : applyRules network fw cfg = withAll network fw cfg := by
  have meets : (ensureAll cfg.subnetCidr cfg.apInterface cfg.upstreamInterface).Meets
      (execute network) (fun _ => True) (fun _ after => after = withAll network fw cfg) fw :=
    ensureAll_meets builtIn.postrouting builtIn.forward trivial (fun _ _ _ => trivial)
      (fun _ _ _ _ _ => trivial) fun _ => rfl
  exact meets.run

/-! What stays in the chains. -/

def Has (fw : Firewall Other) (chain : Chain) (entry : Entry Other) : Prop :=
  ∃ rules, fw chain = some rules ∧ entry ∈ rules

/-- Nothing is lost when a rule is put in its place. -/
structure Places (place : List (Entry Other) → Entry Other → List (Entry Other)) : Prop where
  itself : ∀ rules entry, entry ∈ place rules entry
  others : ∀ rules entry other, other ∈ rules → other ∈ place rules entry
  count : ∀ rules entry other, (place rules entry).count other = rules.count other +
    [entry].count other

private theorem places_atEnd :
    Places (atEnd : List (Entry Other) → Entry Other → List (Entry Other)) where
  itself _ entry := List.mem_append_right _ (List.mem_singleton_self entry)
  others _ _ _ := List.mem_append_left _
  count _ _ _ := List.count_append

private theorem places_atFront :
    Places (atFront : List (Entry Other) → Entry Other → List (Entry Other)) where
  itself _ _ := List.mem_cons_self
  others _ _ _ := List.mem_cons_of_mem _
  count rules entry other := by
    rw [atFront, ← List.singleton_append, List.count_append, Nat.add_comm]

section Kept

variable {place : List (Entry Other) → Entry Other → List (Entry Other)} {chain another : Chain}
  {entry other : Entry Other}

omit [DecidableEq Other] in
theorem Has.withChain (has : Has fw another other) : Has (fw.withChain chain) another other := by
  obtain ⟨rules, there, member⟩ := has
  cases found : fw chain with
  | some rules =>
      rw [withChain_there found]
      exact ⟨_, there, member⟩
  | none =>
      refine ⟨rules, ?_, member⟩
      rw [withChain_elsewhere ?_, there]
      rintro rfl
      simp [there] at found

theorem Has.withRule (has : Has fw another other) (places : Places place) :
    Has (fw.withRule place chain entry) another other := by
  obtain ⟨rules, there, member⟩ := has
  by_cases same : another = chain
  · subst another
    by_cases already : entry ∈ rules
    · rw [withRule_there there already]
      exact ⟨rules, there, member⟩
    · rw [withRule_new there already]
      exact ⟨_, set_self, places.others rules entry other member⟩
  · exact ⟨rules, (withRule_elsewhere same).trans there, member⟩

theorem has_withRule (there : (fw chain).isSome) (places : Places place) :
    Has (fw.withRule place chain entry) chain entry := by
  obtain ⟨rules, there⟩ := Option.isSome_iff_exists.mp there
  by_cases already : entry ∈ rules
  · rw [withRule_there there already]
    exact ⟨rules, there, already⟩
  · rw [withRule_new there already]
    exact ⟨_, set_self, places.itself rules entry⟩

theorem times_withRule (places : Places place) {rule : Rule} (most : times fw another rule ≤ 1) :
    times (fw.withRule place chain entry) another rule ≤ 1 := by
  by_cases same : another = chain
  · subst another
    cases found : fw chain with
    | none => rwa [withRule_none found]
    | some rules =>
        by_cases already : entry ∈ rules
        · rwa [withRule_there found already]
        · rw [withRule_new found already, times, set_self, Option.getD_some, places.count]
          rw [times, found, Option.getD_some] at most
          by_cases it : entry = .own rule
          · subst entry
            rw [List.count_eq_zero_of_not_mem already]
            simp
          · simpa [List.count_singleton, it] using most
  · rwa [times, withRule_elsewhere same]

theorem times_withChain {rule : Rule} (most : times fw another rule ≤ 1) :
    times (fw.withChain chain) another rule ≤ 1 := by
  by_cases same : another = chain
  · subst another
    cases found : fw chain with
    | some rules => rwa [withChain_there found]
    | none => simp [withChain_new found, times]
  · rwa [times, withChain_elsewhere same]

end Kept

/-! One apply. -/

omit [DecidableEq Other] in
theorem Has.withChains {chain : Chain} {entry : Entry Other} (has : Has fw chain entry) :
    Has fw.withChains chain entry := has.withChain.withChain.withChain

theorem Has.withAll {chain : Chain} {entry : Entry Other} (has : Has fw chain entry) :
    Has (withAll network fw cfg) chain entry :=
  (((((has.withChains.withRule places_atEnd).withRule places_atEnd).withRule
    places_atFront).withRule places_atEnd).withRule places_atEnd).withRule places_atEnd

theorem withAll_complete (builtIn : BuiltIn fw) : (withAll network fw cfg).Complete :=
  (withJumps_complete (withChains_complete builtIn.postrouting
    builtIn.forward)).withRule.withRule.withRule

theorem withAll_has (builtIn : BuiltIn fw) {item : Chain × Rule} (member : item ∈ stored network cfg) :
    Has (withAll network fw cfg) item.1 (.own item.2) := by
  have chains := withChains_complete builtIn.postrouting builtIn.forward
  have jumps := withJumps_complete chains
  simp only [stored, applied, List.map_cons, List.map_nil, List.mem_cons, List.not_mem_nil,
    or_false] at member
  rcases member with rfl | rfl | rfl | rfl | rfl | rfl
  · exact (((((has_withRule (chains .postrouting) places_atEnd).withRule places_atEnd).withRule
      places_atFront).withRule places_atEnd).withRule places_atEnd).withRule places_atEnd
  · exact ((((has_withRule (chains.withRule .forward) places_atEnd).withRule
      places_atFront).withRule places_atEnd).withRule places_atEnd).withRule places_atEnd
  · exact (((has_withRule (chains.withRule.withRule .forward) places_atFront).withRule
      places_atEnd).withRule places_atEnd).withRule places_atEnd
  · exact ((has_withRule (jumps .nat) places_atEnd).withRule places_atEnd).withRule places_atEnd
  · exact (has_withRule (jumps.withRule .fwd) places_atEnd).withRule places_atEnd
  · exact has_withRule (jumps.withRule.withRule .fwd) places_atEnd

/-- Where every chain and every rule is in place an apply changes nothing. -/
theorem withAll_settled (complete : fw.Complete)
    (has : ∀ item ∈ stored network cfg, Has fw item.1 (.own item.2)) :
    withAll network fw cfg = fw := by
  have chain (chain : Chain) : fw.withChain chain = fw := by
    obtain ⟨rules, there⟩ := Option.isSome_iff_exists.mp (complete chain)
    exact withChain_there there
  have rule {place : List (Entry Other) → Entry Other → List (Entry Other)} {chain : Chain}
      {rule : Rule} (member : (chain, rule) ∈ stored network cfg) :
      fw.withRule place chain (.own rule) = fw := by
    obtain ⟨rules, there, member⟩ := has _ member
    exact withRule_there there member
  have jumps : fw.withJumps = fw := by
    rw [Firewall.withJumps, rule (by simp [stored, applied, Rule.read]),
      rule (by simp [stored, applied, Rule.read]), rule (by simp [stored, applied, Rule.read])]
  rw [withAll, Firewall.withChains, chain, chain, chain, jumps, Firewall.withNatRules,
    rule (by simp [stored, applied, Rule.read]), rule (by simp [stored, applied, Rule.read]),
    rule (by simp [stored, applied, Rule.read])]

theorem withAll_clean (network : String → String) (cfg : WifiConfig)
    (postrouting forward : List Other) :
    withAll network (.clean postrouting forward) cfg .nat =
        some [.own (.masquerade (network cfg.subnetCidr) cfg.upstreamInterface)] ∧
      withAll network (.clean postrouting forward) cfg .fwd =
        some [.own (.accept cfg.apInterface cfg.upstreamInterface),
          .own (.acceptEstablished cfg.upstreamInterface cfg.apInterface)] := by
  have created {fw : Firewall Other} {chain : Chain} (absent : fw chain = none) :
      fw.withChain chain chain = some [] := by
    rw [withChain_new absent, set_self]
  have nat : (Firewall.clean postrouting forward).withChains.withJumps .nat = some [] := by
    simp only [Firewall.withJumps, Firewall.withChains, withRule_elsewhere, withChain_elsewhere,
      ne_eq, reduceCtorEq, not_false_eq_true]
    exact created rfl
  have fwd : (Firewall.clean postrouting forward).withChains.withJumps .fwd = some [] := by
    simp only [Firewall.withJumps, Firewall.withChains, withRule_elsewhere, withChain_elsewhere,
      ne_eq, reduceCtorEq, not_false_eq_true]
    apply created
    rw [withChain_elsewhere (by simp)]
    rfl
  constructor
  · simp only [withAll, Firewall.withNatRules, withRule_elsewhere, ne_eq, reduceCtorEq,
      not_false_eq_true]
    rw [withRule_new nat (by simp), set_self]
    rfl
  · have first : ((Firewall.clean postrouting forward).withChains.withJumps.withRule atEnd .nat
        (.own (.masquerade (network cfg.subnetCidr) cfg.upstreamInterface))) .fwd = some [] := by
      rw [withRule_elsewhere (by simp), fwd]
    have second : (((Firewall.clean postrouting forward).withChains.withJumps.withRule atEnd .nat
        (.own (.masquerade (network cfg.subnetCidr) cfg.upstreamInterface))).withRule atEnd .fwd
        (.own (.accept cfg.apInterface cfg.upstreamInterface))) .fwd =
        some [.own (.accept cfg.apInterface cfg.upstreamInterface)] := by
      rw [withRule_new first (by simp), set_self]
      rfl
    rw [withAll, Firewall.withNatRules, withRule_new second (by simp), set_self]
    rfl

theorem times_withAll {chain : Chain} {rule : Rule} (most : times fw chain rule ≤ 1) :
    times (withAll network fw cfg) chain rule ≤ 1 :=
  times_withRule places_atEnd (times_withRule places_atEnd (times_withRule places_atEnd
    (times_withRule places_atFront (times_withRule places_atEnd (times_withRule places_atEnd
      (times_withChain (times_withChain (times_withChain most))))))))

private theorem times_one {chain : Chain} {rule : Rule} (has : Has fw chain (.own rule))
    (most : times fw chain rule ≤ 1) : times fw chain rule = 1 := by
  obtain ⟨rules, there, member⟩ := has
  rw [times, there, Option.getD_some] at most ⊢
  exact Nat.le_antisymm most (List.count_pos_iff.mpr member)

/-! Many. -/

omit [DecidableEq Other] in
theorem Firewall.Complete.builtIn (complete : fw.Complete) : BuiltIn fw :=
  ⟨complete .postrouting, complete .forward⟩

theorem applyAll_keeps (network : String → String) (keeps : Firewall Other → Prop) (builtIn : BuiltIn fw) (holds : keeps fw)
    (step : ∀ fw cfg, keeps fw → keeps (withAll network fw cfg)) (configs : List WifiConfig) :
    BuiltIn (applyAll network fw configs) ∧ keeps (applyAll network fw configs) := by
  induction configs generalizing fw with
  | nil => exact ⟨builtIn, holds⟩
  | cons cfg rest ih =>
      rw [applyAll, List.foldl_cons, applyRules_eq builtIn]
      exact ih (withAll_complete builtIn).builtIn (step fw cfg holds)

theorem applyAll_append (first second : List WifiConfig) :
    applyAll network fw (first ++ second) = applyAll network (applyAll network fw first) second :=
  List.foldl_append

theorem applyAll_has (network : String → String) (builtIn : BuiltIn fw) {configs : List WifiConfig}
    (member : cfg ∈ configs) (item : Chain × Rule) (named : item ∈ stored network cfg) :
    Has (applyAll network fw configs) item.1 (.own item.2) := by
  obtain ⟨before, after, rfl⟩ := List.append_of_mem member
  have reached := (applyAll_keeps network (fun _ => True) builtIn trivial (fun _ _ _ => trivial)
    before).1
  rw [applyAll_append, applyAll, List.foldl_cons, applyRules_eq reached]
  exact (applyAll_keeps network (fun fw => Has fw item.1 (.own item.2)) (withAll_complete
    reached).builtIn (withAll_has reached named) (fun _ _ has => Has.withAll has) after).2

/-- The values of a configuration that its rules are made of. -/
def SameRules (network : String → String) (first second : WifiConfig) : Prop :=
  network first.subnetCidr = network second.subnetCidr ∧ first.apInterface = second.apInterface ∧
    first.upstreamInterface = second.upstreamInterface

theorem SameRules.stored {first second : WifiConfig} (same : SameRules network first second) :
    stored network first = stored network second := by
  obtain ⟨subnet, apInterface, upstream⟩ := same
  simp [Iptables.stored, applied, Rule.read, subnet, apInterface, upstream]

theorem SameRules.withAll {first second : WifiConfig} (same : SameRules network first second) :
    withAll network fw first = withAll network fw second := by
  obtain ⟨subnet, apInterface, upstream⟩ := same
  simp [Iptables.withAll, Firewall.withNatRules, subnet, apInterface, upstream]

theorem withAll_twice (builtIn : BuiltIn fw) :
    withAll network (withAll network fw cfg) cfg = withAll network fw cfg :=
  withAll_settled (withAll_complete builtIn) fun _ member => withAll_has builtIn member

theorem applyAll_same (builtIn : BuiltIn fw) {last : WifiConfig} {configs : List WifiConfig}
    (same : ∀ cfg ∈ configs, SameRules network cfg last) :
    applyAll network (withAll network fw last) configs = withAll network fw last := by
  induction configs with
  | nil => rfl
  | cons cfg rest ih =>
      rw [applyAll, List.foldl_cons, applyRules_eq (withAll_complete builtIn).builtIn,
        (same cfg List.mem_cons_self).withAll, withAll_twice builtIn]
      exact ih fun cfg member => same cfg (List.mem_cons_of_mem _ member)

theorem applyAll_once (builtIn : BuiltIn fw) {chain : Chain} {rule : Rule}
    (most : times fw chain rule ≤ 1) {configs : List WifiConfig} (member : cfg ∈ configs)
    (named : (chain, rule) ∈ stored network cfg) :
    times (applyAll network fw configs) chain rule = 1 :=
  times_one (applyAll_has network builtIn member _ named)
    (applyAll_keeps network (fun fw => times fw chain rule ≤ 1) builtIn most
      (fun _ _ most => times_withAll most) configs).2

/-- Nothing of an earlier configuration is left exactly when all of them name the same rules. -/
theorem independent_iff_sameRules (network : String → String) (postrouting forward : List Other)
    (configs : List WifiConfig) (last : WifiConfig) :
    Independent network (.clean postrouting forward) configs last ↔
      ∀ cfg ∈ configs, SameRules network cfg last := by
  have builtIn : BuiltIn (Firewall.clean postrouting forward) := ⟨rfl, rfl⟩
  have alone : applyAll network (Firewall.clean postrouting forward) [last] =
      withAll network (.clean postrouting forward) last := applyRules_eq builtIn
  obtain ⟨nat, fwd⟩ := withAll_clean network last postrouting forward
  constructor
  · rintro ⟨sameNat, sameFwd, _⟩ cfg member
    have among : cfg ∈ configs ++ [last] := List.mem_append_left _ member
    obtain ⟨natRules, natThere, masquerades⟩ := applyAll_has network builtIn among
      (.nat, .masquerade (network cfg.subnetCidr) cfg.upstreamInterface)
      (by simp [stored, applied, Rule.read])
    obtain ⟨fwdRules, fwdThere, accepts⟩ := applyAll_has network builtIn among
      (.fwd, .accept cfg.apInterface cfg.upstreamInterface)
      (by simp [stored, applied, Rule.read])
    rw [sameNat, alone, nat] at natThere
    rw [sameFwd, alone, fwd] at fwdThere
    cases natThere
    cases fwdThere
    simp only [List.mem_singleton, Entry.own.injEq, Rule.masquerade.injEq] at masquerades
    simp only [List.mem_cons, List.not_mem_nil, or_false, Entry.own.injEq, Rule.accept.injEq,
      reduceCtorEq] at accepts
    exact ⟨masquerades.1, accepts.1, masquerades.2⟩
  · intro same
    have result : applyAll network (Firewall.clean postrouting forward) (configs ++ [last]) =
        withAll network (.clean postrouting forward) last := by
      cases configs with
      | nil => exact alone
      | cons cfg rest =>
          rw [List.cons_append, applyAll, List.foldl_cons, applyRules_eq builtIn,
            (same cfg List.mem_cons_self).withAll]
          refine applyAll_same builtIn fun other member => ?_
          rcases List.mem_append.mp member with earlier | it
          · exact same other (List.mem_cons_of_mem _ earlier)
          · rw [List.mem_singleton.mp it]
            exact ⟨rfl, rfl, rfl⟩
    have among : last ∈ configs ++ [last] := List.mem_append_right _ (List.mem_singleton_self _)
    have absent (rules : List Other) (rule : Rule) :
        (rules.map Entry.other).count (Entry.own rule) = 0 :=
      List.count_eq_zero_of_not_mem (by simp)
    refine ⟨by rw [result, alone], by rw [result, alone], ?_, ?_, ?_, ?_⟩
    · exact applyAll_once builtIn (by simp [times, Firewall.clean, absent]) among
        (by simp [stored, applied, Rule.read])
    · exact applyAll_once builtIn (by simp [times, Firewall.clean, absent]) among
        (by simp [stored, applied, Rule.read])
    · exact applyAll_once builtIn (by simp [times, Firewall.clean, absent]) among
        (by simp [stored, applied, Rule.read])
    · rw [result, applyRules_eq (withAll_complete builtIn).builtIn, withAll_twice builtIn]

/-- The home network behind the given upstream interface. -/
def homeBehind (upstream : String) (named : 1 ≤ upstream.length) : WifiConfig :=
  { homeConfig with upstreamInterface := upstream, upstreamInterface_length := named }

/-- Once the upstream interface is another, the gateway still forwards to the earlier one. -/
theorem not_independent_of_upstream :
    ¬Independent id (.clean [] [] : Firewall Nat) [homeBehind "eth0" (by decide)]
      (homeBehind "wlan1" (by decide)) := by
  rintro ⟨_, fwd, _⟩
  exact absurd fwd (by decide +kernel)

end PiAgents.Gateway.Iptables
