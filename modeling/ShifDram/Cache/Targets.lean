import ShifDram.Cache.Mshr
import Mathlib.Data.List.Forall2
import ShifDram.Queue.Log

/-!
The targets of one register over its life (`mem/cache/mshr.cc`, and its callers in
`mem/cache/cache.cc` and `mem/cache/mshr_queue.cc`).

A register is allocated, collects targets, is sent, collects more targets and snoops while its
request is in service, and is answered in one call of `recvTimingResp`: that may splice the
deferred targets into the list it serves, pops the list to its end, and either promotes deferred
targets to a new request or frees the register.
-/

namespace ShifDram

open List

variable {source : TargetSource} (l : TargetList)

/-! ### What becomes of a target -/

lemma Packet.replaceUpgrade_replaceUpgrade (pkt : Packet) :
    pkt.replaceUpgrade.replaceUpgrade = pkt.replaceUpgrade := by
  cases hcmd : pkt.cmd <;> simp [Packet.replaceUpgrade, hcmd]

/-- Requests that only ask to write a copy already held. -/
def Packet.takesUpgrade (pkt : Packet) : Bool :=
  pkt.cmd == .upgradeReq || pkt.cmd == .scUpgradeReq || pkt.cmd == .storeCondReq

lemma Packet.takesUpgrade_replaceUpgrade (pkt : Packet) :
    pkt.replaceUpgrade.takesUpgrade = false := by
  cases hcmd : pkt.cmd <;> simp [Packet.replaceUpgrade, Packet.takesUpgrade, hcmd]

namespace Target

/-- `u` is `t`, perhaps with its upgrade replaced. -/
structure Becomes (t u : Target) : Prop where
  readyTime : u.readyTime = t.readyTime
  order : u.order = t.order
  source : u.source = t.source
  pkt : u.pkt = t.pkt ∨ u.pkt = t.pkt.replaceUpgrade

lemma Becomes.refl (t : Target) : t.Becomes t := ⟨rfl, rfl, rfl, .inl rfl⟩

lemma Becomes.trans {t u v : Target} (h : t.Becomes u) (h' : u.Becomes v) : t.Becomes v := by
  refine ⟨h'.readyTime.trans h.readyTime, h'.order.trans h.order, h'.source.trans h.source, ?_⟩
  rcases h.pkt with hu | hu <;> rcases h'.pkt with hv | hv
  · exact .inl (hv.trans hu)
  · exact .inr (by rw [hv, hu])
  · exact .inr (hv.trans hu)
  · exact .inr (by rw [hv, hu, Packet.replaceUpgrade_replaceUpgrade])

lemma becomes_replaceUpgrade (t : Target) : t.Becomes { t with pkt := t.pkt.replaceUpgrade } :=
  ⟨rfl, rfl, rfl, .inr rfl⟩

/-- Target by target, `us` is what became of `ts`. -/
def AllBecome (ts us : List Target) : Prop := List.Forall₂ Becomes ts us

lemma AllBecome.refl (ts : List Target) : AllBecome ts ts := forall₂_same.mpr fun t _ => .refl t

lemma AllBecome.append {ts us ts' us' : List Target} (h : AllBecome ts us)
    (h' : AllBecome ts' us') : AllBecome (ts ++ ts') (us ++ us') :=
  rel_append h h'

lemma AllBecome.trans {ts us vs : List Target} (h : AllBecome ts us) (h' : AllBecome us vs) :
    AllBecome ts vs := by
  induction h generalizing vs with
  | nil => exact h'
  | cons ht _ ih =>
    obtain ⟨v, vs', hv, hvs, rfl⟩ := forall₂_cons_left_iff.mp h'
    exact .cons (ht.trans hv) (ih hvs)

/-- Only a snoop stands behind an exclusive snoop. -/
def Behind (s t : Target) : Prop :=
  s.source = .fromSnoop → s.pkt.needsExclusive = true → t.source = .fromSnoop

end Target

namespace TargetList

/-- The requests of the CPU side, in order. -/
def cpuSide : List Target := l.list.filter fun t => t.source != .fromSnoop

def NoUpgrade : Prop := ∀ t ∈ l.list, t.source ≠ .fromSnoop → t.pkt.takesUpgrade = false

/-- `hasUpgrade` covers the list, so `replaceUpgrades` may skip it. -/
def Flagged : Prop := l.hasUpgrade = false → l.NoUpgrade

lemma cpuSide_add (pkt : Packet) (readyTime order : ℕ) (hsource : source ≠ .fromSnoop) :
    (l.add pkt readyTime order source).cpuSide =
      l.cpuSide ++ [⟨readyTime, order, pkt, source⟩] := by
  simp [cpuSide, add, filter_append, hsource]

lemma cpuSide_add_fromSnoop (pkt : Packet) (readyTime order : ℕ) :
    (l.add pkt readyTime order .fromSnoop).cpuSide = l.cpuSide := by
  simp [cpuSide, add, filter_append]

lemma mem_add {l : TargetList} {pkt : Packet} {readyTime order : ℕ} {t : Target} :
    t ∈ (l.add pkt readyTime order source).list ↔
      t ∈ l.list ∨ t = ⟨readyTime, order, pkt, source⟩ := by
  rw [add, mem_append, mem_singleton]

lemma Flagged.add {l : TargetList} (h : l.Flagged) (pkt : Packet) (readyTime order : ℕ)
    (source : TargetSource) : (l.add pkt readyTime order source).Flagged := by
  intro hflag t ht hsource
  simp only [TargetList.add, Bool.or_eq_false_iff, Bool.and_eq_false_iff] at hflag
  rcases mem_add.mp ht with ht | rfl
  · exact h hflag.1 t ht hsource
  · rcases hflag.2 with hsnoop | ⟨hupgrade, hcond⟩
    · exact absurd (by simpa using hsnoop) hsource
    · rw [Packet.isUpgrade] at hupgrade
      cases hcmd : pkt.cmd <;> simp_all [Packet.takesUpgrade, MemCmd.isUpgrade]

/-- **After `replaceUpgrades` a flagged list has no upgrade.** -/
lemma noUpgrade_replaceUpgrades {l : TargetList} (h : l.Flagged) : l.replaceUpgrades.NoUpgrade := by
  rw [replaceUpgrades]
  split_ifs with hflag
  · intro t ht _
    obtain ⟨u, -, rfl⟩ := mem_map.mp ht
    exact u.pkt.takesUpgrade_replaceUpgrade
  · exact h (by simpa using hflag)

lemma replaceUpgrades_list : l.replaceUpgrades.list = l.list ∨
      l.replaceUpgrades.list = l.list.map fun t => { t with pkt := t.pkt.replaceUpgrade } := by
  rw [replaceUpgrades]
  split_ifs
  · exact .inr rfl
  · exact .inl rfl

lemma allBecome_replaceUpgrades : Target.AllBecome l.cpuSide l.replaceUpgrades.cpuSide := by
  rcases l.replaceUpgrades_list with hlist | hlist
  · rw [cpuSide, cpuSide, hlist]
    exact .refl _
  · have hmap : l.replaceUpgrades.cpuSide =
        l.cpuSide.map fun t => { t with pkt := t.pkt.replaceUpgrade } := by
      rw [cpuSide, cpuSide, hlist, filter_map]
      rfl
    rw [hmap, Target.AllBecome, forall₂_map_right_iff, forall₂_same]
    exact fun t _ => t.becomes_replaceUpgrade

lemma exists_of_mem_replaceUpgrades {l : TargetList} {t : Target}
    (ht : t ∈ l.replaceUpgrades.list) :
    ∃ u ∈ l.list, t.source = u.source ∧ t.pkt.needsExclusive = u.pkt.needsExclusive := by
  rcases l.replaceUpgrades_list with hlist | hlist <;> rw [hlist] at ht
  · exact ⟨t, ht, rfl, rfl⟩
  · obtain ⟨u, hu, rfl⟩ := mem_map.mp ht
    refine ⟨u, hu, rfl, ?_⟩
    cases hcmd : u.pkt.cmd <;>
      simp [Packet.replaceUpgrade, Packet.needsExclusive, MemCmd.needsExclusive, hcmd]

end TargetList

/-! ### The invariant of a register -/

namespace MSHR

/-- A register's requests, in the order they are served. -/
def cpuSide (m : MSHR) : List Target := m.targets.cpuSide ++ m.deferredTargets.cpuSide

/-- **Between two operations.** In a response, spliced targets are not covered by the flag. -/
structure Sound (m : MSHR) (responding : Bool) : Prop where
  deferredCpu : ∀ t ∈ m.deferredTargets.list, t.source ≠ .fromSnoop
  deferredFlag : m.deferredTargets.Flagged
  targetsFlag : responding = false → m.targets.Flagged
  waiting : m.inService = false →
    m.deferredTargets.list = [] ∧ ∀ t ∈ m.targets.list, t.source ≠ .fromSnoop
  -- an exclusive snoop among the targets has left its mark on the register
  invalidates : m.postInvalidate = false →
    ∀ t ∈ m.targets.list, t.source = .fromSnoop → t.pkt.needsExclusive = false
  behind : m.targets.list.Pairwise Target.Behind

variable {m m' : MSHR} {pkt : Packet} {whenReady order now : ℕ} {responding : Bool}

lemma Sound.unused : unused.Sound false := by
  refine ⟨?_, ?_, ?_, ?_, ?_, .nil⟩ <;> simp [MSHR.unused, TargetList.empty, TargetList.Flagged,
    TargetList.NoUpgrade]

lemma Sound.of_empty (htargets : m.targets.list = [])
    (hdeferred : m.deferredTargets.list = []) : m.Sound responding := by
  refine ⟨?_, fun _ => ?_, fun _ _ => ?_, fun _ => ⟨hdeferred, ?_⟩, fun _ => ?_, ?_⟩
  · simp [hdeferred]
  · simp [TargetList.NoUpgrade, hdeferred]
  · simp [TargetList.NoUpgrade, htargets]
  · simp [htargets]
  · simp [htargets]
  · simp [htargets]

section

variable (h : m.Sound responding)

include h

/-- A request may join targets that no exclusive snoop has reached. -/
lemma Sound.add_targets (hclear : m.inService = false ∨ m.postInvalidate = false)
    (hsource : source ≠ .fromSnoop) :
    ({ m with targets := m.targets.add pkt whenReady order source } : MSHR).Sound responding := by
  -- no exclusive snoop is among the targets
  have hnone : ∀ t ∈ m.targets.list, t.source = .fromSnoop → t.pkt.needsExclusive = false := by
    intro t ht hsnoop
    rcases hclear with hin | hpost
    · exact absurd hsnoop ((h.waiting hin).2 t ht)
    · exact h.invalidates hpost t ht hsnoop
  refine ⟨h.deferredCpu, h.deferredFlag, fun hr => (h.targetsFlag hr).add _ _ _ _,
    fun hin => ⟨(h.waiting hin).1, fun t ht => ?_⟩, fun _ t ht hsnoop => ?_, ?_⟩
  · rcases TargetList.mem_add.mp ht with ht | rfl
    · exact (h.waiting hin).2 t ht
    · exact hsource
  · rcases TargetList.mem_add.mp ht with ht | rfl
    · exact hnone t ht hsnoop
    · exact absurd hsnoop hsource
  · refine pairwise_snoc.mpr ⟨h.behind, fun s hs hsnoop hexcl => ?_⟩
    rw [hnone s hs hsnoop] at hexcl
    cases hexcl

omit h in
lemma mustDefer_inService (h : m.mustDefer pkt = true) : m.inService = true :=
  (Bool.and_eq_true_iff.mp h).1

lemma Sound.of_not_mustDefer (hdefer : m.mustDefer pkt = false) :
    m.deferredTargets.list = [] ∧ (m.inService = false ∨ m.postInvalidate = false) := by
  rw [mustDefer, Bool.and_eq_false_iff] at hdefer
  rcases hdefer with hin | hdefer
  · exact ⟨(h.waiting hin).1, .inl hin⟩
  · simp only [Bool.or_eq_false_iff, Bool.not_eq_false', List.isEmpty_iff] at hdefer
    exact ⟨hdefer.1.1, .inr hdefer.1.2⟩

omit h in
lemma allocateTarget_cases (h : m.allocateTarget pkt whenReady order = some m') :
    (m.mustDefer pkt = true ∧ ∃ p, (p = pkt ∨ p = pkt.replaceUpgrade) ∧
      m' = { m with deferredTargets := m.deferredTargets.add p whenReady order .fromCPU }) ∨
    (m.mustDefer pkt = false ∧
      m' = { m with targets := m.targets.add pkt whenReady order .fromCPU }) := by
  rw [allocateTarget] at h
  split_ifs at h with _ hdefer hpost
  · exact .inl ⟨hdefer, _, .inr rfl, (Option.some.inj h).symm⟩
  · exact .inl ⟨hdefer, _, .inl rfl, (Option.some.inj h).symm⟩
  · exact .inr ⟨by simpa using hdefer, (Option.some.inj h).symm⟩

lemma Sound.allocateTarget (hstep : m.allocateTarget pkt whenReady order = some m') :
    m'.Sound responding := by
  rcases allocateTarget_cases hstep with ⟨hdefer, p, -, rfl⟩ | ⟨hdefer, rfl⟩
  · refine ⟨fun t ht => ?_, h.deferredFlag.add _ _ _ _, h.targetsFlag, fun hin => ?_,
      h.invalidates, h.behind⟩
    · rcases TargetList.mem_add.mp ht with ht | rfl
      · exact h.deferredCpu t ht
      · exact fun hsource => by cases hsource
    · exact absurd (mustDefer_inService hdefer) (by simpa using hin)
  · exact h.add_targets (h.of_not_mustDefer hdefer).2 (fun hsource => by cases hsource)

lemma Sound.cpuSide_allocateTarget (hstep : m.allocateTarget pkt whenReady order = some m') :
    ∃ t, Target.Becomes ⟨whenReady, order, pkt, .fromCPU⟩ t ∧ m'.cpuSide = m.cpuSide ++ [t] := by
  have hcpu : TargetSource.fromCPU ≠ .fromSnoop := fun h => by cases h
  rcases allocateTarget_cases hstep with ⟨-, p, hp, rfl⟩ | ⟨hdefer, rfl⟩
  · refine ⟨⟨whenReady, order, p, .fromCPU⟩, ⟨rfl, rfl, rfl, hp⟩, ?_⟩
    rw [cpuSide, cpuSide, TargetList.cpuSide_add _ _ _ _ hcpu, append_assoc]
  · refine ⟨⟨whenReady, order, pkt, .fromCPU⟩, .refl _, ?_⟩
    have hnil : m.deferredTargets.cpuSide = [] := by
      rw [TargetList.cpuSide, (h.of_not_mustDefer hdefer).1, filter_nil]
    rw [cpuSide, cpuSide, hnil, TargetList.cpuSide_add _ _ _ _ hcpu, append_nil, append_nil]

/-! ### Snoops -/

lemma Sound.replace_deferred :
    ({ m with deferredTargets := m.deferredTargets.replaceUpgrades } : MSHR).Sound responding := by
  refine ⟨fun t ht => ?_, fun _ => TargetList.noUpgrade_replaceUpgrades h.deferredFlag,
    h.targetsFlag, fun hin => ⟨?_, (h.waiting hin).2⟩, h.invalidates, h.behind⟩
  · obtain ⟨u, hu, hsource, -⟩ := TargetList.exists_of_mem_replaceUpgrades ht
    exact hsource ▸ h.deferredCpu u hu
  · refine eq_nil_iff_forall_not_mem.mpr fun t ht => ?_
    obtain ⟨u, hu, -⟩ := TargetList.exists_of_mem_replaceUpgrades ht
    rw [(h.waiting hin).1] at hu
    exact not_mem_nil hu

omit h in
lemma Sound.replace_targets (h : m.Sound false) :
    ({ m with targets := m.targets.replaceUpgrades } : MSHR).Sound false := by
  refine ⟨h.deferredCpu, h.deferredFlag,
    fun _ _ => TargetList.noUpgrade_replaceUpgrades (h.targetsFlag rfl),
    fun hin => ⟨(h.waiting hin).1, fun t ht => ?_⟩, fun hpost t ht hsnoop => ?_, ?_⟩
  · obtain ⟨u, hu, hsource, -⟩ := TargetList.exists_of_mem_replaceUpgrades ht
    exact hsource ▸ (h.waiting hin).2 u hu
  · obtain ⟨u, hu, hsource, hexcl⟩ := TargetList.exists_of_mem_replaceUpgrades ht
    rw [hexcl]
    exact h.invalidates hpost u hu (hsource ▸ hsnoop)
  · rcases m.targets.replaceUpgrades_list with hlist | hlist <;> rw [hlist]
    · exact h.behind
    · refine pairwise_map.mpr (h.behind.imp fun {s t} hst hsnoop hexcl => hst hsnoop ?_)
      rw [← hexcl]
      cases hcmd : s.pkt.cmd <;>
        simp [Packet.replaceUpgrade, Packet.needsExclusive, MemCmd.needsExclusive, hcmd]

lemma Sound.saveSnoop (hin : m.inService = true) :
    (m.saveSnoop pkt now order).1.Sound responding := by
  refine ⟨h.deferredCpu, h.deferredFlag, fun hr => (h.targetsFlag hr).add _ _ _ _,
    fun hout => ?_, fun hpost t ht hsnoop => ?_, ?_⟩
  · exact absurd (hin.symm.trans hout) (fun h => by cases h)
  · obtain ⟨hpost, hexcl⟩ := Bool.or_eq_false_iff.mp hpost
    rcases TargetList.mem_add.mp ht with ht | rfl
    · exact h.invalidates hpost t ht hsnoop
    · exact hexcl
  · exact pairwise_snoc.mpr ⟨h.behind, fun s _ _ _ => rfl⟩

lemma Sound.downgrade : ({ m with postDowngrade := true } : MSHR).Sound responding := { h with }

lemma Sound.snoopAfter (hin : m.inService = true) :
    (m.snoopAfter pkt now order).1.Sound responding := by
  rw [MSHR.snoopAfter]
  split_ifs
  · exact h
  · exact (h.saveSnoop hin).downgrade
  · exact h.saveSnoop hin
  · exact h.downgrade
  · exact h

end

lemma cpuSide_snoopAfter : (m.snoopAfter pkt now order).1.cpuSide = m.cpuSide := by
  have hsave : (m.saveSnoop pkt now order).1.cpuSide = m.cpuSide := by
    rw [cpuSide, cpuSide, saveSnoop, TargetList.cpuSide_add_fromSnoop]
  rw [snoopAfter]
  split_ifs
  · rfl
  · exact hsave
  · exact hsave
  · rfl
  · rfl

lemma deferredTargets_snoopAfter :
    (m.snoopAfter pkt now order).1.deferredTargets = m.deferredTargets := by
  rw [snoopAfter]
  split_ifs <;> rfl

/-- The snoop is before a request to be sent, or after one in service. -/
lemma handleSnoop_cases (m : MSHR) (pkt : Packet) (now order : ℕ) :
    ((m.handleSnoop pkt now order).2.2 = false ∧
      (m.handleSnoop pkt now order).1 = if pkt.needsExclusive then
        { m with targets := m.targets.replaceUpgrades
                 deferredTargets := m.deferredTargets.replaceUpgrades } else m) ∨
    (m.inService = true ∧ (m.handleSnoop pkt now order).2.2 = true ∧
      (m.handleSnoop pkt now order).1 = ((if pkt.needsExclusive then
        { m with deferredTargets := m.deferredTargets.replaceUpgrades } else m : MSHR).snoopAfter
          pkt now order).1) := by
  rw [handleSnoop]
  by_cases hbefore : (!m.inService || (pkt.expressSnoop && m.downstreamPending)) = true
  · split_ifs
    · exact .inl ⟨rfl, rfl⟩
    · exact .inl ⟨rfl, rfl⟩
  · rw [if_neg hbefore]
    have hin : m.inService = true := by
      cases hin : m.inService
      · exact absurd (by rw [hin]; rfl) hbefore
      · rfl
    exact .inr ⟨hin, rfl, rfl⟩

lemma Sound.handleSnoop (h : m.Sound false) : (m.handleSnoop pkt now order).1.Sound false := by
  rcases m.handleSnoop_cases pkt now order with ⟨-, heq⟩ | ⟨hin, -, heq⟩ <;> rw [heq]
  · split_ifs
    · exact h.replace_targets.replace_deferred
    · exact h
  · split_ifs
    · exact h.replace_deferred.snoopAfter hin
    · exact h.snoopAfter hin

lemma allBecome_handleSnoop (m : MSHR) (pkt : Packet) (now order : ℕ) :
    Target.AllBecome m.cpuSide (m.handleSnoop pkt now order).1.cpuSide := by
  rcases m.handleSnoop_cases pkt now order with ⟨-, heq⟩ | ⟨-, -, heq⟩ <;> rw [heq]
  · split_ifs
    · exact m.targets.allBecome_replaceUpgrades.append m.deferredTargets.allBecome_replaceUpgrades
    · exact .refl _
  · rw [cpuSide_snoopAfter]
    split_ifs
    · exact Target.AllBecome.append (.refl _) m.deferredTargets.allBecome_replaceUpgrades
    · exact .refl _

/-- **An exclusive snoop leaves no upgrade** in a list whose request comes after it. -/
lemma Sound.noUpgrade_handleSnoop (h : m.Sound false) (hexcl : pkt.needsExclusive = true) :
    (m.handleSnoop pkt now order).1.deferredTargets.NoUpgrade ∧
      ((m.handleSnoop pkt now order).2.2 = false →
        (m.handleSnoop pkt now order).1.targets.NoUpgrade) := by
  have hdeferred := TargetList.noUpgrade_replaceUpgrades h.deferredFlag
  rcases m.handleSnoop_cases pkt now order with ⟨-, heq⟩ | ⟨-, hafter, heq⟩ <;>
    rw [heq, if_pos hexcl]
  · exact ⟨hdeferred, fun _ => TargetList.noUpgrade_replaceUpgrades (h.targetsFlag rfl)⟩
  · rw [deferredTargets_snoopAfter, hafter]
    exact ⟨hdeferred, fun h => by cases h⟩

lemma Sound.markInService {dirty : Bool} (h : m.Sound false)
    (hstep : m.markInService dirty = some (m', false)) :
    m'.Sound false ∧ m'.cpuSide = m.cpuSide := by
  rw [MSHR.markInService] at hstep
  split_ifs at hstep with hin hno
  · cases (Prod.mk.inj (Option.some.inj hstep)).2
  · cases hstep
    have hsnoop := (h.waiting (by simpa using hin)).2
    refine ⟨{ h with
      waiting := fun hout => (by cases hout)
      invalidates := fun _ t ht hsource => absurd hsource (hsnoop t ht) }, rfl⟩

lemma Sound.handleFill (h : m.Sound true) : (m.handleFill pkt).Sound true := by
  rw [MSHR.handleFill]
  split_ifs with hsplice
  · simp only [Bool.and_eq_true, Bool.not_eq_true', Bool.or_eq_false_iff] at hsplice
    have hnone := h.invalidates hsplice.1.2.1
    refine ⟨by simp [TargetList.empty], fun _ => by simp [TargetList.NoUpgrade, TargetList.empty],
      fun hr => (by cases hr), fun hin => ⟨rfl, fun t ht => ?_⟩, fun _ t ht hsnoop => ?_, ?_⟩
    · rcases mem_append.mp ht with ht | ht
      · exact (h.waiting hin).2 t ht
      · exact h.deferredCpu t ht
    · rcases mem_append.mp ht with ht | ht
      · exact hnone t ht hsnoop
      · exact absurd hsnoop (h.deferredCpu t ht)
    · -- the deferred targets are requests, so they are behind no one another
      refine pairwise_append.mpr ⟨h.behind, pairwise_of_forall_mem_list ?_, ?_⟩
      · exact fun s hs _ _ hsnoop => absurd hsnoop (h.deferredCpu s hs)
      · intro s hs t _ hsnoop hexcl
        rw [hnone s hs hsnoop] at hexcl
        cases hexcl
  · exact h

lemma cpuSide_handleFill : (m.handleFill pkt).cpuSide = m.cpuSide := by
  rw [handleFill]
  split_ifs
  · rw [cpuSide, cpuSide, TargetList.cpuSide, filter_append]
    exact append_nil _
  · rfl

lemma Sound.popTarget (h : m.Sound responding) : m.popTarget.Sound responding :=
  ⟨h.deferredCpu, h.deferredFlag,
    fun hr hflag t ht => h.targetsFlag hr hflag t (mem_of_mem_tail ht),
    fun hin => ⟨(h.waiting hin).1, fun t ht => (h.waiting hin).2 t (mem_of_mem_tail ht)⟩,
    fun hpost t ht => h.invalidates hpost t (mem_of_mem_tail ht), h.behind.tail⟩

/-- The request that `popTarget` takes, if the first target is one. -/
def frontRequest (m : MSHR) : List Target :=
  (m.targets.list.take 1).filter fun t => t.source != .fromSnoop

lemma frontRequest_append_cpuSide : m.frontRequest ++ m.popTarget.cpuSide = m.cpuSide := by
  rw [frontRequest, popTarget, cpuSide, cpuSide, ← append_assoc, TargetList.cpuSide,
    ← filter_append, ← drop_one, take_append_drop]
  rfl

lemma Sound.promoteDeferredTargets (h : m.Sound responding) (hempty : m.targets.list = [])
    (hstep : m.promoteDeferredTargets now = some m') :
    ({ m' with inService := false } : MSHR).Sound false ∧ m'.cpuSide = m.cpuSide := by
  rw [MSHR.promoteDeferredTargets] at hstep
  split at hstep
  · cases hstep
  · cases hstep
    have hnil : m.targets.resetFlags.list = [] := hempty
    refine ⟨⟨by simp [hnil], fun _ => by simp [TargetList.NoUpgrade, hnil], fun _ => h.deferredFlag,
      fun _ => ⟨hnil, h.deferredCpu⟩, fun _ t ht hsnoop => absurd hsnoop (h.deferredCpu t ht),
      pairwise_of_forall_mem_list fun s hs _ _ hsnoop => absurd hsnoop (h.deferredCpu s hs)⟩,
      ?_⟩
    rw [cpuSide, cpuSide, TargetList.cpuSide, TargetList.cpuSide, TargetList.cpuSide, hnil, hempty,
      filter_nil, append_nil, nil_append]

lemma promoteDeferredTargets_eq_none (h : m.promoteDeferredTargets now = none) :
    m.deferredTargets.list = [] := by
  rw [MSHR.promoteDeferredTargets] at h
  split at h
  · assumption
  · cases h

lemma deallocate_cases (h : m.deallocate = some m') :
    m.targets.list = [] ∧ m' = { m with targets := m.targets.resetFlags, inService := false } := by
  rw [deallocate] at h
  split_ifs at h with hassert
  exact ⟨List.isEmpty_iff.mp (Bool.and_eq_true_iff.mp hassert).1, (Option.some.inj h).symm⟩

/-! ### A life of a register -/

/-- Where a register stands; `responding` is one call of `recvTimingResp`. -/
inductive Phase where
  | free | waiting | inService | responding
  deriving DecidableEq, Repr

/-- A register, its phase, the requests that arrived, and those popped. -/
structure Life where
  mshr : MSHR
  phase : Phase
  arrived : List Target
  served : List Target
  deriving DecidableEq, Repr

namespace Life

variable {pkt : Packet}

inductive Act where
  /-- `MSHRQueue::allocate`. -/
  | allocate (blkAddr : ℕ) (pkt : Packet) (whenReady order : ℕ)
  | allocateTarget (pkt : Packet) (whenReady order : ℕ)
  | handleSnoop (pkt : Packet) (now order : ℕ)
  /-- `getTimingPacket` decides on forwarding; `MSHRQueue::markInService` sends. -/
  | markInService (isForward pendingDirtyResp : Bool)
  /-- `MSHRQueue::forceDeallocateTarget`, of a prefetch held above. -/
  | forceDeallocateTarget (now : ℕ)
  /-- The response arrives, and `recvTimingResp` begins. -/
  | recvTimingResp
  | handleFill (pkt : Packet)
  | popTarget
  /-- `recvTimingResp` ends in another request or the register's end. -/
  | promoteDeferredTargets (now : ℕ)
  /-- A register below sets or clears its mark. -/
  | downstreamPending (mark : Bool)
  deriving DecidableEq, Repr

def start : Life := ⟨unused, .free, [], []⟩

def Enabled (x : Life) : Act → Prop
  | .allocate .. => x.phase = .free
  | .allocateTarget .. => x.phase = .waiting ∨ x.phase = .inService
  | .handleSnoop .. => x.phase = .waiting ∨ x.phase = .inService
  | .markInService .. => x.phase = .waiting
  | .forceDeallocateTarget _ => x.phase = .waiting ∧
      (x.mshr.targets.list.head?.any fun t => t.source == .fromPrefetcher) = true
  | .recvTimingResp => x.phase = .inService
  | .handleFill _ => x.phase = .responding
  | .popTarget => x.phase = .responding ∧ x.mshr.targets.list ≠ []
  | .promoteDeferredTargets _ => x.phase = .responding ∧ x.mshr.targets.list = []
  | .downstreamPending _ => x.phase ≠ .free

instance (x : Life) (a : Act) : Decidable (x.Enabled a) := by
  cases a <;> unfold Enabled <;> infer_instance

def pop (x : Life) : Life :=
  { x with mshr := x.mshr.popTarget, served := x.served ++ x.mshr.frontRequest }

def free (x : Life) : Option Life :=
  x.mshr.deallocate.map fun m => { x with mshr := m, phase := .free }

def next (x : Life) (now : ℕ) : Option Life :=
  match x.mshr.promoteDeferredTargets now with
  | some m => some { x with mshr := { m with inService := false }, phase := .waiting }
  | none => x.free

/-- The register as `getTimingPacket` leaves it. -/
def chosen (x : Life) (isForward : Bool) : MSHR :=
  if x.mshr.isForwardNoResponse then x.mshr else { x.mshr with isForward := isForward }

/-- One call; `none` is a failed assertion. -/
def step (x : Life) : Act → Option Life
  | .allocate blkAddr pkt whenReady order =>
    (x.mshr.allocate blkAddr pkt whenReady order).map fun m =>
      ⟨m, .waiting, [⟨whenReady, order, pkt, sourceOf pkt⟩], []⟩
  | .allocateTarget pkt whenReady order =>
    (x.mshr.allocateTarget pkt whenReady order).map fun m =>
      { x with mshr := m, arrived := x.arrived ++ [⟨whenReady, order, pkt, .fromCPU⟩] }
  | .handleSnoop pkt now order => some { x with mshr := (x.mshr.handleSnoop pkt now order).1 }
  | .markInService isForward pendingDirtyResp =>
    match (x.chosen isForward).markInService pendingDirtyResp with
    | none => none
    | some (m, false) => some { x with mshr := m, phase := .inService }
    -- no response is expected: the only target is gone, and so is the register
    | some (_, true) => ({ x with mshr := x.chosen isForward } : Life).pop.free
  | .forceDeallocateTarget now =>
    if x.pop.mshr.targets.list.isEmpty then x.pop.next now else some x.pop
  | .recvTimingResp => some { x with phase := .responding }
  | .handleFill pkt => some { x with mshr := x.mshr.handleFill pkt }
  | .popTarget => some x.pop
  | .promoteDeferredTargets now => x.next now
  | .downstreamPending mark => some { x with mshr := { x.mshr with downstreamPending := mark } }

inductive Run : Life → Prop where
  | start : Run start
  | step {x x' : Life} {a : Act} (h : Run x) (hen : x.Enabled a) (hstep : x.step a = some x') :
      Run x'

structure Inv (x : Life) : Prop where
  kept : Target.AllBecome x.arrived (x.served ++ x.mshr.cpuSide)
  sound : x.mshr.Sound (x.phase == .responding)
  phase : x.mshr.inService = true ↔ x.phase = .inService ∨ x.phase = .responding
  free : x.phase = .free → x.mshr.targets.list = [] ∧ x.mshr.deferredTargets.list = []

lemma Inv.start : start.Inv :=
  ⟨.nil, .unused, by simp [Life.start, MSHR.unused], fun _ => ⟨rfl, rfl⟩⟩

variable {x x' : Life}

section

variable (h : x.Inv)

include h

lemma Inv.sound_of_not_responding (hphase : x.phase ≠ .responding) : x.mshr.Sound false := by
  have hsound := h.sound
  rwa [beq_false_of_ne hphase] at hsound

lemma Inv.sound_responding (hphase : x.phase = .responding) : x.mshr.Sound true := by
  have hsound := h.sound
  rwa [hphase] at hsound

lemma Inv.not_inService (hphase : x.phase = .waiting ∨ x.phase = .free) :
    x.mshr.inService = false := by
  refine Bool.eq_false_iff.mpr fun hin => ?_
  rcases h.phase.mp hin with hin | hin <;> rcases hphase with hphase | hphase <;>
    cases hin.symm.trans hphase

omit h in
lemma kept_pop (h : Target.AllBecome x.arrived (x.served ++ x.mshr.cpuSide)) :
    Target.AllBecome x.pop.arrived (x.pop.served ++ x.pop.mshr.cpuSide) := by
  rw [← frontRequest_append_cpuSide, ← append_assoc] at h
  exact h

lemma Inv.pop (hphase : x.phase ≠ .free) : x.pop.Inv :=
  ⟨kept_pop h.kept, h.sound.popTarget, h.phase, fun hfree => absurd hfree hphase⟩

omit h in
lemma inv_free (hkept : Target.AllBecome x.arrived (x.served ++ x.mshr.cpuSide))
    (hdeferred : x.mshr.deferredTargets.list = []) (hstep : x.free = some x') : x'.Inv := by
  obtain ⟨m, hm, rfl⟩ := Option.map_eq_some_iff.mp hstep
  obtain ⟨htargets, rfl⟩ := deallocate_cases hm
  refine ⟨hkept, ?_, by simp, fun _ => ⟨htargets, hdeferred⟩⟩
  apply Sound.of_empty
  · exact htargets
  · exact hdeferred

lemma Inv.next {now : ℕ} (hempty : x.mshr.targets.list = []) (hstep : x.next now = some x') :
    x'.Inv := by
  rw [Life.next] at hstep
  split at hstep
  · next m hm =>
    cases hstep
    obtain ⟨hsound, hcpu⟩ := h.sound.promoteDeferredTargets hempty hm
    refine ⟨?_, hsound, by simp, fun hfree => (by cases hfree)⟩
    have hkept := h.kept
    rw [← hcpu] at hkept
    exact hkept
  · next hnone => exact inv_free h.kept (promoteDeferredTargets_eq_none hnone) hstep

omit h in
lemma chosen_spec (x : Life) (isForward : Bool) : (x.chosen isForward).targets = x.mshr.targets ∧
      (x.chosen isForward).deferredTargets = x.mshr.deferredTargets ∧
      (x.chosen isForward).inService = x.mshr.inService ∧
      (x.chosen isForward).postInvalidate = x.mshr.postInvalidate := by
  rw [chosen]
  split_ifs <;> exact ⟨rfl, rfl, rfl, rfl⟩

lemma Inv.chosen (isForward : Bool) : ({ x with mshr := x.chosen isForward } : Life).Inv := by
  obtain ⟨htargets, hdeferred, hin, hpost⟩ := x.chosen_spec isForward
  refine ⟨?_, ?_, ?_, ?_⟩
  · rw [MSHR.cpuSide, htargets, hdeferred]
    exact h.kept
  · have hsound := h.sound
    refine ⟨?_, ?_, ?_, ?_, ?_, ?_⟩ <;> simp only [htargets, hdeferred, hin, hpost]
    · exact hsound.deferredCpu
    · exact hsound.deferredFlag
    · exact hsound.targetsFlag
    · exact hsound.waiting
    · exact hsound.invalidates
    · exact hsound.behind
  · rw [hin]
    exact h.phase
  · rw [htargets, hdeferred]
    exact h.free

lemma Inv.allocate {blkAddr : ℕ} {whenReady order : ℕ} (hen : x.phase = .free)
    (hstep : x.step (.allocate blkAddr pkt whenReady order) = some x') : x'.Inv := by
  obtain ⟨m, hm, rfl⟩ := Option.map_eq_some_iff.mp hstep
  rw [MSHR.allocate] at hm
  split_ifs at hm
  cases hm
  obtain ⟨htargets, hdeferred⟩ := h.free hen
  refine ⟨?_, ?_, by simp, fun hfree => (by cases hfree)⟩
  · rw [MSHR.cpuSide, TargetList.cpuSide_add _ _ _ _ (sourceOf_ne_fromSnoop pkt),
      TargetList.cpuSide, TargetList.cpuSide, htargets, hdeferred]
    exact .refl _
  · have hempty : ({ x.mshr with
        readyTime := whenReady, order := order, blkAddr := blkAddr, isSecure := pkt.isSecure
        isUncacheable := pkt.req.isUncacheable, inService := false, isForward := false
        downstreamPending := false } : MSHR).Sound false := by
      apply Sound.of_empty
      · exact htargets
      · exact hdeferred
    exact hempty.add_targets (.inl rfl) (sourceOf_ne_fromSnoop pkt)

lemma Inv.allocateTarget {whenReady order : ℕ} (hen : x.phase = .waiting ∨ x.phase = .inService)
    (hstep : x.step (.allocateTarget pkt whenReady order) = some x') : x'.Inv := by
  obtain ⟨m, hm, rfl⟩ := Option.map_eq_some_iff.mp hstep
  obtain ⟨t, ht, hcpu⟩ := h.sound.cpuSide_allocateTarget hm
  refine ⟨?_, h.sound.allocateTarget hm, ?_, fun hfree => ?_⟩
  · rw [hcpu, ← append_assoc]
    exact h.kept.append (.cons ht .nil)
  · rw [(allocateTarget_of_pending hm).1]
    exact h.phase
  · rcases hen with hphase | hphase <;> cases hphase.symm.trans hfree

lemma Inv.handleSnoop {now order : ℕ} (hen : x.phase = .waiting ∨ x.phase = .inService) :
    ({ x with mshr := (x.mshr.handleSnoop pkt now order).1 } : Life).Inv := by
  have hphase : x.phase ≠ .responding ∧ x.phase ≠ .free := by
    rcases hen with hphase | hphase <;> rw [hphase] <;> exact ⟨by decide, by decide⟩
  refine ⟨?_, ?_, ?_, fun hfree => absurd hfree hphase.2⟩
  · have hsnoop := x.mshr.allBecome_handleSnoop pkt now order
    exact h.kept.trans (Target.AllBecome.append (.refl _) hsnoop)
  · rw [beq_false_of_ne hphase.1]
    exact (h.sound_of_not_responding hphase.1).handleSnoop
  · rw [(x.mshr.handleSnoop_inService pkt now order).1]
    exact h.phase

lemma Inv.markInService {isForward dirty : Bool} (hen : x.phase = .waiting)
    (hstep : x.step (.markInService isForward dirty) = some x') : x'.Inv := by
  have hchosen := h.chosen isForward
  have hsound := hchosen.sound_of_not_responding (by rw [hen]; decide)
  simp only [Life.step] at hstep
  split at hstep
  · cases hstep
  · next m hm =>
    cases hstep
    obtain ⟨hm', hcpu⟩ := hsound.markInService hm
    refine ⟨?_, hm', ?_, fun hfree => (by cases hfree)⟩
    · rw [hcpu]
      exact hchosen.kept
    · simp [(markInService_inService hm).2.1]
  · refine inv_free (kept_pop hchosen.kept) ?_ hstep
    exact (hsound.waiting (hchosen.not_inService (.inl hen))).1

lemma Inv.step {a : Act} (hen : x.Enabled a) (hstep : x.step a = some x') : x'.Inv := by
  cases a with
  | allocate blkAddr pkt whenReady order => exact h.allocate hen hstep
  | allocateTarget pkt whenReady order => exact h.allocateTarget hen hstep
  | handleSnoop pkt now order =>
    cases hstep
    exact h.handleSnoop hen
  | markInService isForward dirty => exact h.markInService hen hstep
  | forceDeallocateTarget now =>
    have hpop : x.pop.Inv := h.pop (by rw [hen.1]; decide)
    simp only [Life.step] at hstep
    split_ifs at hstep with hempty
    · exact hpop.next (List.isEmpty_iff.mp hempty) hstep
    · cases hstep
      exact hpop
  | recvTimingResp =>
    cases hstep
    have hphase : x.phase = .inService := hen
    have hsound := h.sound
    refine ⟨h.kept, { hsound with targetsFlag := fun hr => (by cases hr) }, ?_,
      fun hfree => (by cases hfree)⟩
    simp [h.phase, hphase]
  | handleFill pkt =>
    cases hstep
    have hphase : x.phase = .responding := hen
    refine ⟨?_, ?_, ?_, fun hfree => by cases hphase.symm.trans hfree⟩
    · rw [cpuSide_handleFill]
      exact h.kept
    · rw [hphase]
      exact (h.sound_responding hphase).handleFill
    · rw [← h.phase, MSHR.handleFill]
      split_ifs <;> rfl
  | popTarget =>
    cases hstep
    exact h.pop (by rw [hen.1]; decide)
  | promoteDeferredTargets now => exact h.next hen.2 hstep
  | downstreamPending mark =>
    cases hstep
    have hsound := h.sound
    exact { h with sound := { hsound with } }

end

lemma Run.inv (h : Run x) : x.Inv := by
  induction h with
  | start => exact .start
  | step _ hen hstep ih => exact ih.step hen hstep

/-- **The targets of a register over its life.** The requests popped, in `targets` and in
`deferredTargets` are the arrivals in order, upgrades perhaps replaced; a freed register has served
them all. Nothing is deferred out of service, and behind an exclusive snoop there is no request, nor
an upgrade in a list whose request comes after it. -/
theorem targets_kept (h : Run x) : Target.AllBecome x.arrived
        (x.served ++ (x.mshr.targets.cpuSide ++ x.mshr.deferredTargets.cpuSide)) ∧
      (x.phase = .free → x.mshr.targets.list = [] ∧ x.mshr.deferredTargets.list = []) ∧
      (x.mshr.inService = false → x.mshr.deferredTargets.list = []) ∧
      x.mshr.targets.list.Pairwise Target.Behind ∧
      ∀ pkt now order, x.Enabled (.handleSnoop pkt now order) → pkt.needsExclusive = true →
        (x.mshr.handleSnoop pkt now order).1.deferredTargets.NoUpgrade ∧
          ((x.mshr.handleSnoop pkt now order).2.2 = false →
            (x.mshr.handleSnoop pkt now order).1.targets.NoUpgrade) := by
  have hinv := h.inv
  refine ⟨hinv.kept, hinv.free, fun hin => (hinv.sound.waiting hin).1, hinv.sound.behind, ?_⟩
  intro pkt now order hen hexcl
  have hphase : x.phase ≠ .responding := by
    rcases hen with hphase | hphase <;> rw [hphase] <;> decide
  exact (hinv.sound_of_not_responding hphase).noUpgrade_handleSnoop hexcl

def forBlock (cmd : MemCmd) : Packet :=
  ⟨cmd, ⟨64, some 64, 64, 0#32, 0, 0⟩, 64, 64, false, [], ⟨.rowAnd, 0, 0, 0⟩, false, false, false⟩

/-- A read in service with an upgrade deferred behind it. -/
def upgradeDeferred : Life :=
  { mshr := { unused with
      readyTime := 3, order := 0, blkAddr := 64, inService := true
      targets := TargetList.empty.add (forBlock .readReq) 3 0 .fromCPU
      deferredTargets := TargetList.empty.add (forBlock .upgradeReq) 7 1 .fromCPU }
    phase := .inService
    arrived := [⟨3, 0, forBlock .readReq, .fromCPU⟩, ⟨7, 1, forBlock .upgradeReq, .fromCPU⟩]
    served := [] }

lemma run_upgradeDeferred : Run upgradeDeferred := by
  have hallocate : Run ⟨{ unused with
      readyTime := 3, blkAddr := 64
      targets := TargetList.empty.add (forBlock .readReq) 3 0 .fromCPU },
      .waiting, [⟨3, 0, forBlock .readReq, .fromCPU⟩], []⟩ :=
    Run.start.step (a := .allocate 64 (forBlock .readReq) 3 0) rfl rfl
  have hsend := hallocate.step (a := .markInService false false) rfl rfl
  exact hsend.step (a := .allocateTarget (forBlock .upgradeReq) 7 1) (.inr rfl) rfl

/-- The snoop takes the block away: the upgrade becomes a read. -/
theorem targets_kept_upgradeDeferred :
    (upgradeDeferred.mshr.handleSnoop (forBlock .readExReq) 9 2).1.deferredTargets.NoUpgrade ∧
      (upgradeDeferred.mshr.handleSnoop (forBlock .readExReq) 9 2).1.deferredTargets.list =
        [⟨7, 1, forBlock .readExReq, .fromCPU⟩] :=
  ⟨((targets_kept run_upgradeDeferred).2.2.2.2 (forBlock .readExReq) 9 2 (.inr rfl) rfl).1,
    by decide⟩

end Life
end MSHR
end ShifDram
