/-
# What the ARP module can do

Every call of the module is a sequence of moves, each of which changes one entry at most.  `Quiet`
lists the moves of a transmission: they ask for addresses and keep packets, but they do not
change the address of a stable entry.  `Move` adds what receptions and the timer do.  That a
property holds throughout is proved for each move, and for no function separately.

The relation `D` tells which packets have been submitted for which address; `Sends` and the moves
mention it, so that packets can be followed.
-/
import Mathlib.Logic.Relation
import Fx3Ncm.Lwip.ArpTable

namespace Fx3Ncm.Lwip

open Runs ByteMemory Relation

/-- The Ethernet address of a broadcast or multicast address. -/
def castAddr (netif : Netif) (a : UInt32) : Option EthAddr :=
  if isBroadcast netif a then some ethbroadcast
  else if isMulticast a then some (mcastaddr a)
  else none

section Moves

variable (netif : Netif) (D : ℕ → UInt32 → Prop)

/-- What is sent: requests, and packets to stable entries or to groups. -/
inductive Sends (s : Arp) : ArpCall → Prop
  | request (dst : EthAddr) (a : UInt32) :
      Sends s (.etharpRaw netif.hwaddr dst
        (etharpHdr arpRequest netif.hwaddr netif.ipAddr ethzero a))
  | unicast (q : ℕ) (i : ArpIdx) (hstable : (s.table i).state.isStable)
      (hD : D q (s.table i).ipaddr) :
      Sends s (.ethernetOutput q netif.hwaddr (s.table i).ethaddr)
  | cast (q : ℕ) (a : UInt32) (dst : EthAddr) (h : castAddr netif a = some dst) (hD : D q a) :
      Sends s (.ethernetOutput q netif.hwaddr dst)

/-- A packet `p` is kept: by a reference, or by a copy. -/
inductive Keeps (p : ℕ) : ArpCall → Prop
  | ref : Keeps p (.pbufRef p)
  | clone (q : ℕ) : Keeps p (.pbufClone q p)

/-- The moves of a transmission. -/
inductive Quiet (s : Arp) : Arp → Prop
  | send (c : ArpCall) (h : Sends netif D s c) : Quiet s (s.record c)
  | cache (i : ArpIdx) : Quiet s { s with cachedEntry := i }
  | take (i : ArpIdx) (a : UInt32) (hunknown : Unknown s.table a)
      (hstatic : (s.table i).state ≠ .static) : Quiet s (s.take i a)
  | pend (i : ArpIdx) (hempty : (s.table i).state = .empty) (halone : Alone s.table i)
      (hunicast : isUnicast netif (s.table i).ipaddr) (hctime : (s.table i).ctime = 0) :
      Quiet s (s.setEntry i { s.table i with state := .pending, netif := true })
  | touch (i : ArpIdx) (hpending : (s.table i).state = .pending) :
      Quiet s (s.setEntry i { s.table i with ctime := 0 })
  | rerequest (i : ArpIdx) (hstable : (s.table i).state = .stable) :
      Quiet s (s.setEntry i { s.table i with state := .stableRerequesting1 })
  | enqueue (i : ArpIdx) (p : ℕ) (c : ArpCall) (hpending : (s.table i).state = .pending)
      (hc : Keeps p c) (hD : D p (s.table i).ipaddr) :
      Quiet s (((s.record c).release i).setEntry i { s.table i with q := some p })

/-- The entry after a tick of the timer, if it does not expire. -/
def EtharpEntry.older (e : EtharpEntry) : EtharpEntry where
  q := e.q
  ipaddr := e.ipaddr
  netif := e.netif
  ethaddr := e.ethaddr
  ctime := (e.ctime + 1) % 2 ^ 16
  state :=
    match e.state with
    | .stableRerequesting1 => .stableRerequesting2
    | .stableRerequesting2 => .stable
    | state => state

/-- The entry expires at the next tick. -/
def EtharpEntry.Expires (e : EtharpEntry) : Prop :=
  (e.ctime + 1) % 2 ^ 16 ≥ arpMaxage ∨ e.state = .pending ∧ (e.ctime + 1) % 2 ^ 16 ≥ arpMaxpending

/-- The address of the entry `i` is learnt; the packet that waits for it is sent. -/
def Arp.learn (s : Arp) (i : ArpIdx) (ethaddr : EthAddr) (static : Bool) : Arp :=
  sendQueued netif i ethaddr (s.setEntry i { s.table i with
    state := if static then .static else .stable
    netif := true
    ethaddr := ethaddr
    ctime := 0 })

/-- All moves. -/
inductive Move (s : Arp) : Arp → Prop
  | quiet {s' : Arp} (h : Quiet netif D s s') : Move s s'
  | learn (i : ArpIdx) (ethaddr : EthAddr) (static : Bool) (halone : Alone s.table i)
      (hunicast : isUnicast netif (s.table i).ipaddr) :
      Move s (s.learn netif i ethaddr static)
  | free (i : ArpIdx) (ctime : ℕ) : Move s ((s.release i).setEntry i
      { s.table i with q := none, state := .empty, ctime := ctime })
  | tick (i : ArpIdx) (hused : (s.table i).state ≠ .empty) (hstatic : (s.table i).state ≠ .static)
      (hage : ¬ (s.table i).Expires) : Move s (s.setEntry i (s.table i).older)

/-- Several moves of a transmission. -/
abbrev Quiets : Arp → Arp → Prop := ReflTransGen (Quiet netif D)

/-- Several moves. -/
abbrev Moves : Arp → Arp → Prop := ReflTransGen (Move netif D)

variable {netif D} {s s' : Arp}

lemma Quiets.moves (h : Quiets netif D s s') : Moves netif D s s' :=
  ReflTransGen.mono (fun _ _ => Move.quiet) s s' h

/-! ### The moves keep the invariant -/

lemma EntryOk.update {e e' : EtharpEntry} (h : EntryOk netif e) (hused : e.state ≠ .empty)
    (hq : e'.q = e.q) (hip : e'.ipaddr = e.ipaddr) (hnetif : e'.netif = e.netif)
    (hpending : e'.state = .pending ↔ e.state = .pending) (hage : e'.ctime < arpMaxage)
    (hyoung : e'.state = .pending → e'.ctime < arpMaxpending)
    (hstatic : e'.state ≠ .static) : EntryOk netif e' where
  waiting hne := hpending.2 (h.waiting (hq ▸ hne))
  unicast _ := hip ▸ h.unicast hused
  netif _ := hnetif.trans (h.netif hused)
  age _ := hage
  pending := hyoung
  static he := absurd he hstatic

lemma Quiet.inv (h : Quiet netif D s s') (hs : ArpInv netif s) : ArpInv netif s' := by
  cases h with
  | send c h => exact hs.congr rfl rfl
  | cache i => exact hs.congr rfl rfl
  | take i a hunknown hstatic => exact hs.empty rfl rfl
  | pend i hempty halone hunicast hctime =>
    refine hs.setEntry ?_ fun _ => halone
    have hq : (s.table i).q = none := by
      by_contra hne
      simp [(hs.entry i).waiting hne] at hempty
    constructor <;> simp [hq, hunicast, hctime]
  | touch i hpending =>
    have hused : (s.table i).state ≠ .empty := by simp [hpending]
    refine hs.setEntry ?_ fun _ => hs.alone hused
    exact (hs.entry i).update hused rfl rfl rfl Iff.rfl (by simp) (by simp) (by simp [hpending])
  | rerequest i hstable =>
    have hused : (s.table i).state ≠ .empty := by simp [hstable]
    refine hs.setEntry ?_ fun _ => hs.alone hused
    exact (hs.entry i).update hused rfl rfl rfl (by simp [hstable]) ((hs.entry i).age hused)
      (by simp) (by simp)
  | enqueue i p c hpending hc hD =>
    have hused : (s.table i).state ≠ .empty := by simp [hpending]
    have hrecord : ArpInv netif (s.record c) := hs.congr rfl rfl
    have hrelease := hrecord.release i
    refine hrelease.setEntry ?_ fun _ => ?_
    · obtain ⟨-, hunicast, hnetif, hage, hyoung, -⟩ := hs.entry i
      exact ⟨fun _ => hpending, hunicast, hnetif, hage, hyoung, by simp [hpending]⟩
    · rw [Arp.release_table, Arp.record_table]
      exact hs.alone hused

lemma sendQueued_eq (netif : Netif) (s : Arp) (i : ArpIdx) (ethaddr : EthAddr) :
    (sendQueued netif i ethaddr s).table =
      (s.setEntry i { s.table i with q := none }).table ∧
      (sendQueued netif i ethaddr s).assertFailed = s.assertFailed := by
  unfold sendQueued
  cases hq : (s.table i).q with
  | some p => exact ⟨rfl, rfl⟩
  | none =>
    refine ⟨?_, rfl⟩
    simp only [← hq]
    exact (Function.update_eq_self i s.table).symm

/-- The entry that has been learnt. -/
lemma Arp.learn_eq (s : Arp) (netif : Netif) (i : ArpIdx) (ethaddr : EthAddr) (static : Bool) :
    (s.learn netif i ethaddr static).table = (s.setEntry i
      ⟨none, (s.table i).ipaddr, true, ethaddr, 0, if static then .static else .stable⟩).table ∧
      (s.learn netif i ethaddr static).assertFailed = s.assertFailed := by
  obtain ⟨htable, hassert⟩ := sendQueued_eq netif (s.setEntry i { s.table i with
    state := if static then .static else .stable
    netif := true
    ethaddr := ethaddr
    ctime := 0 }) i ethaddr
  refine ⟨?_, hassert⟩
  rw [Arp.learn, htable]
  simp

lemma EtharpEntry.older_ne_static {e : EtharpEntry} (h : e.state ≠ .static) :
    e.older.state ≠ .static := by
  unfold EtharpEntry.older
  cases hstate : e.state <;> simp_all

lemma EtharpEntry.older_pending_iff (e : EtharpEntry) :
    e.older.state = .pending ↔ e.state = .pending := by
  unfold EtharpEntry.older
  cases e.state <;> simp

lemma Move.inv (h : Move netif D s s') (hs : ArpInv netif s) : ArpInv netif s' := by
  cases h with
  | quiet h => exact h.inv hs
  | learn i ethaddr static halone hunicast =>
    obtain ⟨htable, hassert⟩ := s.learn_eq netif i ethaddr static
    have hentry : EntryOk netif ⟨none, (s.table i).ipaddr, true, ethaddr, 0,
        if static then .static else .stable⟩ := by
      cases static <;> constructor <;> simp [hunicast]
    have hset : ArpInv netif (s.setEntry i _) := hs.setEntry hentry fun _ => halone
    exact hset.congr htable hassert
  | free i ctime => exact hs.empty rfl rfl
  | tick i hused hstatic hage =>
    obtain ⟨hold, hyoung⟩ := not_or.1 hage
    refine hs.setEntry ?_ fun _ => hs.alone hused
    refine (hs.entry i).update hused rfl rfl rfl (s.table i).older_pending_iff (not_le.1 hold) ?_
      (EtharpEntry.older_ne_static hstatic)
    intro hpending
    rw [EtharpEntry.older_pending_iff] at hpending
    exact not_le.1 fun hle => hyoung ⟨hpending, hle⟩

lemma Quiets.inv (h : Quiets netif D s s') (hs : ArpInv netif s) : ArpInv netif s' := by
  induction h with
  | refl => exact hs
  | tail _ h ih => exact h.inv ih

lemma Moves.inv (h : Moves netif D s s') (hs : ArpInv netif s) : ArpInv netif s' := by
  induction h with
  | refl => exact hs
  | tail _ h ih => exact h.inv ih

end Moves

/-! ### Transmissions are quiet -/

/-- The packet has been submitted for the address, and so has its copy, if one is made. -/
structure Submitted (D : ℕ → UInt32 → Prop) (env : ArpEnv) (q : OutPacket) (a : UInt32) : Prop where
  own : D q.pbuf a
  copy : q.needsCopy → ∀ p, env.pbufClone = some p → D p a

section Transmission

variable {netif : Netif} {env : ArpEnv} {D : ℕ → UInt32 → Prop} {s : Arp} {i : ArpIdx}
  {a : UInt32} {q : OutPacket}

lemma requestDst_table (dst : EthAddr) :
    (etharpRequestDst netif env i a dst s).2.table = s.table := by
  unfold etharpRequestDst etharpRaw
  split <;> rfl

lemma quiets_requestDst (dst : EthAddr) :
    Quiets netif D s (etharpRequestDst netif env i a dst s).2 := by
  unfold etharpRequestDst etharpRaw
  split
  · exact .single (.send _ (.request dst a))
  · exact .refl

lemma quiets_queryRequest (isNew : Bool) :
    Quiets netif D s (queryRequest netif env isNew i a s).2 := by
  have hrequest : Quiets netif D s (etharpRequest netif env i a s).2 := quiets_requestDst _
  unfold queryRequest
  dsimp only
  split
  · next h => exact hrequest.tail (.touch i h.2.1)
  · exact hrequest

/-- A request does not change the state of an entry, nor its address. -/
lemma queryRequest_entry (isNew : Bool) (j : ArpIdx) :
    ((queryRequest netif env isNew i a s).2.table j).state = (s.table j).state ∧
      ((queryRequest netif env isNew i a s).2.table j).ipaddr = (s.table j).ipaddr := by
  have htable : (etharpRequest netif env i a s).2.table = s.table := requestDst_table _
  unfold queryRequest
  dsimp only
  split
  · by_cases hj : j = i
    · subst hj
      simp [htable]
    · simp [Arp.setEntry_of_ne _ _ _ hj, htable]
  · simp [htable]

lemma takeOver_cases (env : ArpEnv) (q : OutPacket) (s : Arp) :
    takeOver env q s = (none, s) ∨ ∃ p c, takeOver env q s = (some p, s.record c) ∧ Keeps p c ∧
      (p = q.pbuf ∨ q.needsCopy ∧ env.pbufClone = some p) := by
  unfold takeOver
  split_ifs with hcopy
  · cases hclone : env.pbufClone with
    | none => exact .inl rfl
    | some p => exact .inr ⟨p, _, rfl, .clone q.pbuf, .inr ⟨hcopy, rfl⟩⟩
  · exact .inr ⟨q.pbuf, _, rfl, .ref, .inl rfl⟩

lemma enqueue_cases (env : ArpEnv) (i : ArpIdx) (q : OutPacket) (s : Arp) :
    enqueue env i q s = (.mem, s) ∨ ∃ p c, Keeps p c ∧
      (p = q.pbuf ∨ q.needsCopy ∧ env.pbufClone = some p) ∧ enqueue env i q s =
        (.ok, ((s.record c).release i).setEntry i { s.table i with q := some p }) := by
  unfold enqueue
  rcases takeOver_cases env q s with heq | ⟨p, c, heq, hkeeps, hp⟩
  · rw [heq]
    exact .inl rfl
  · rw [heq]
    refine .inr ⟨p, c, hkeeps, hp, ?_⟩
    unfold Arp.release
    simp only [Arp.record_table]
    cases (s.table i).q <;> rfl

lemma quiets_enqueue (hpending : (s.table i).state = .pending)
    (hD : Submitted D env q (s.table i).ipaddr) : Quiets netif D s (enqueue env i q s).2 := by
  rcases enqueue_cases env i q s with heq | ⟨p, c, hkeeps, hp, heq⟩
  · rw [heq]
  · rw [heq]
    refine .single (.enqueue i p c hpending hkeeps ?_)
    rcases hp with rfl | ⟨hcopy, hp⟩
    · exact hD.own
    · exact hD.copy hcopy p hp

lemma quiets_queryPacket (result : Err) (hD : Submitted D env q (s.table i).ipaddr) :
    Quiets netif D s (queryPacket netif env i q result s).2 := by
  unfold queryPacket
  split_ifs with hstable hpending
  · have hcache : Quiet netif D s { s with cachedEntry := i } := .cache i
    exact ReflTransGen.tail (.single hcache) (.send _ (.unicast q.pbuf i hstable hD.own))
  · exact quiets_enqueue hpending hD
  · exact .refl

/-- The entry that a query finds becomes pending if it is new. -/
lemma Entry.quiets {s' : Arp} (h : Entry a s i s') (hs : ArpInv netif s)
    (hunicast : isUnicast netif a) : Quiets netif D s (markPending i s') := by
  have halone := h.alone hs
  unfold markPending
  cases h with
  | hit hused heq => rw [if_neg hused]
  | taken hunknown hstatic =>
    rw [if_pos (by simp)]
    refine ReflTransGen.tail (.single (.take i a hunknown hstatic)) (.pend i ?_ halone ?_ ?_)
    · simp
    · simpa using hunicast
    · simp

lemma markPending_state (i : ArpIdx) (s : Arp) :
    ((markPending i s).table i).state = .pending ∨
      ((markPending i s).table i).state.isStable := by
  unfold markPending
  split_ifs with h
  · simp
  · cases hstate : (s.table i).state <;> simp_all [EtharpState.isStable]

lemma markPending_ipaddr (i j : ArpIdx) (s : Arp) :
    ((markPending i s).table j).ipaddr = (s.table j).ipaddr := by
  unfold markPending
  split_ifs with h
  · by_cases hj : j = i
    · subst hj
      simp
    · simp [Arp.setEntry_of_ne _ _ _ hj]
  · rfl

lemma isUnicast_iff {a : UInt32} : isUnicast netif a = true ↔
    ¬ (isBroadcast netif a || isMulticast a || isAny a) = true := by
  simp [isUnicast]

lemma quiets_etharpQuery (hs : ArpInv netif s) (o : Option OutPacket)
    (hD : ∀ q, o = some q → Submitted D env q a) :
    Quiets netif D s (etharpQuery netif env a o s).2 := by
  unfold etharpQuery
  split_ifs with hcast
  · exact .refl
  · have hfinds := hs.finds a .hard
    generalize etharpFindEntry a .hard s = r at hfinds
    obtain ⟨i | i, s'⟩ := r
    · cases hfinds
      exact .refl
    · have hentry := hfinds.entry
      have hpend := hentry.quiets (D := D) hs (isUnicast_iff.2 hcast)
      have hstate := markPending_state i s'
      have hip : ((markPending i s').table i).ipaddr = a :=
        (markPending_ipaddr i i s').trans hentry.ipaddr
      have hassert : (((markPending i s').table i).state == .pending ||
          ((markPending i s').table i).state.isStable) = true := by
        simpa using hstate
      simp only [hassert, Arp.lwipAssert_true]
      -- the request, if one is sent
      generalize hr : (if (s'.table i).state == .empty || o.isNone then
        queryRequest netif env ((s'.table i).state == .empty) i a (markPending i s')
        else (Err.mem, markPending i s')) = r
      have hquiets : Quiets netif D s r.2 := by
        rw [← hr]
        split
        · exact hpend.trans (quiets_queryRequest _)
        · exact hpend
      have hsame : (r.2.table i).ipaddr = a := by
        rw [← hr]
        split
        · exact (queryRequest_entry _ i).2.trans hip
        · exact hip
      cases o with
      | none => exact hquiets
      | some q => exact hquiets.trans (quiets_queryPacket _ (hsame ▸ hD q rfl))

/-- An entry is requested again or not; after a request that was sent it is marked. -/
lemma rerequest_cases (netif : Netif) (env : ArpEnv) (i : ArpIdx) (s : Arp) :
    rerequest netif env i s = s ∨ ∃ dst s',
      s' = (etharpRequestDst netif env i (s.table i).ipaddr dst s).2 ∧
        (rerequest netif env i s = s' ∨ (s.table i).state = .stable ∧
          rerequest netif env i s =
            s'.setEntry i { s.table i with state := .stableRerequesting1 }) := by
  unfold rerequest
  dsimp only
  split_ifs with hstable hbroadcast hunicast
  · refine .inr ⟨ethbroadcast, _, rfl, ?_⟩
    unfold etharpRequest
    obtain ⟨err, s'⟩ := etharpRequestDst netif env i (s.table i).ipaddr ethbroadcast s
    cases err with
    | ok => exact .inr ⟨hstable, rfl⟩
    | _ => exact .inl rfl
  · refine .inr ⟨(s.table i).ethaddr, _, rfl, ?_⟩
    obtain ⟨err, s'⟩ := etharpRequestDst netif env i (s.table i).ipaddr (s.table i).ethaddr s
    cases err with
    | ok => exact .inr ⟨hstable, rfl⟩
    | _ => exact .inl rfl
  · exact .inl rfl
  · exact .inl rfl

lemma quiets_rerequest : Quiets netif D s (rerequest netif env i s) := by
  rcases rerequest_cases netif env i s with heq | ⟨dst, s', hs', hcases⟩
  · rw [heq]
  · have hrequest : Quiets netif D s s' := hs' ▸ quiets_requestDst dst
    have hentry : s'.table i = s.table i := hs' ▸ congrFun (requestDst_table dst) i
    rcases hcases with heq | ⟨hstable, heq⟩
    · rw [heq]
      exact hrequest
    · have hmark : Quiet netif D s' _ := .rerequest i (hentry ▸ hstable)
      rw [heq, ← hentry]
      exact hrequest.tail hmark

/-- A request for an entry leaves its addresses as they are. -/
lemma rerequest_entry (netif : Netif) (env : ArpEnv) (s : Arp) (i j : ArpIdx) :
    ((rerequest netif env i s).table j).ipaddr = (s.table j).ipaddr ∧
      ((rerequest netif env i s).table j).ethaddr = (s.table j).ethaddr ∧
      ((rerequest netif env i s).table j).state.isStable = (s.table j).state.isStable := by
  rcases rerequest_cases netif env i s with heq | ⟨dst, s', rfl, heq | ⟨hstable, heq⟩⟩
  · simp [heq]
  · simp [heq, requestDst_table]
  · by_cases hj : j = i
    · subst hj
      simp [heq, hstable, EtharpState.isStable]
    · simp [heq, Arp.setEntry_of_ne _ _ _ hj, requestDst_table]

lemma quiets_outputToArpIndex (hstable : (s.table i).state.isStable)
    (hD : D q.pbuf (s.table i).ipaddr) :
    Quiets netif D s (etharpOutputToArpIndex netif env q i s).2 := by
  unfold etharpOutputToArpIndex
  simp only [hstable, Arp.lwipAssert_true]
  obtain ⟨hip, -, hst⟩ := rerequest_entry netif env s i i
  exact quiets_rerequest.tail (.send _ (.unicast q.pbuf i (hst.trans hstable) (hip ▸ hD)))

/-- The address for which a packet is submitted: a group, or the next hop. -/
def target (netif : Netif) (ipaddr : UInt32) : Option UInt32 :=
  if isBroadcast netif ipaddr || isMulticast ipaddr then some ipaddr else dstAddr netif ipaddr

lemma quiets_etharpOutput (hs : ArpInv netif s) {ipaddr : UInt32}
    (hD : ∀ dst, target netif ipaddr = some dst → Submitted D env q dst) :
    Quiets netif D s (etharpOutput netif env q ipaddr s).2 := by
  unfold etharpOutput
  split_ifs with hbroadcast hmulticast
  · have hcast : castAddr netif ipaddr = some ethbroadcast := by simp [castAddr, hbroadcast]
    have hsub := hD ipaddr (by simp [target, hbroadcast])
    exact .single (.send _ (.cast q.pbuf ipaddr _ hcast hsub.own))
  · have hcast : castAddr netif ipaddr = some (mcastaddr ipaddr) := by
      simp [castAddr, hbroadcast, hmulticast]
    have hsub := hD ipaddr (by simp [target, hmulticast])
    exact .single (.send _ (.cast q.pbuf ipaddr _ hcast hsub.own))
  · have htarget : target netif ipaddr = dstAddr netif ipaddr := by
      simp [target, hbroadcast, hmulticast]
    rw [htarget] at hD
    cases hdst : dstAddr netif ipaddr with
    | none => exact .refl
    | some dst =>
      have hsub := hD dst hdst
      have hresolves (j : ArpIdx) (hj : resolves s.table dst j = true) :
          (s.table j).state.isStable = true ∧ dst = (s.table j).ipaddr := by
        simpa [resolves] using hj
      simp only
      split_ifs with hcached
      · obtain ⟨hstable, heq⟩ := hresolves _ hcached
        exact quiets_outputToArpIndex hstable (heq ▸ hsub.own)
      · cases hfind : (List.finRange arpTableSize).find? (resolves s.table dst) with
        | some j =>
          obtain ⟨hstable, heq⟩ := hresolves j (List.find?_some hfind)
          have hcache : Quiet netif D s { s with cachedEntry := j } := .cache j
          have houtput : Quiets netif D { s with cachedEntry := j }
              (etharpOutputToArpIndex netif env q j { s with cachedEntry := j }).2 :=
            quiets_outputToArpIndex hstable (heq ▸ hsub.own)
          exact ReflTransGen.head hcache houtput
        | none =>
          exact quiets_etharpQuery hs (some q) fun q' hq' => Option.some.inj hq' ▸ hsub

end Transmission

/-! ### Receptions, the timer and the rest -/

section Updates

variable {netif : Netif} {env : ArpEnv} {D : ℕ → UInt32 → Prop} {s : Arp} {i : ArpIdx}
  {a : UInt32}

/-- What `etharp_update_arp_entry` can do. -/
inductive Updates (netif : Netif) (a : UInt32) (ethaddr : EthAddr) (flags : FindFlags) (s : Arp) :
    Err × Arp → Prop
  | cast (h : ¬ isUnicast netif a) : Updates netif a ethaddr flags s (.arg, s)
  | refused (h : Finds a flags s (none, s)) : Updates netif a ethaddr flags s (.mem, s)
  | static (i : ArpIdx) (hip : (s.table i).ipaddr = a) (hstatic : (s.table i).state = .static)
      (hflags : ¬ flags.staticEntry) : Updates netif a ethaddr flags s (.val, s)
  | learnt (i : ArpIdx) (s' : Arp) (hunicast : isUnicast netif a) (hentry : Entry a s i s')
      (hstatic : (s'.table i).state = .static → flags.staticEntry) :
      Updates netif a ethaddr flags s (.ok, s'.learn netif i ethaddr flags.staticEntry)

lemma updates_etharpUpdateArpEntry (hs : ArpInv netif s) (a : UInt32) (ethaddr : EthAddr)
    (flags : FindFlags) :
    Updates netif a ethaddr flags s (etharpUpdateArpEntry netif a ethaddr flags s) := by
  unfold etharpUpdateArpEntry
  by_cases hcast : (isAny a || isBroadcast netif a || isMulticast a) = true
  · rw [if_pos hcast]
    refine .cast fun hunicast => isUnicast_iff.1 hunicast ?_
    rcases Bool.or_eq_true_iff.1 hcast with h | h
    · rcases Bool.or_eq_true_iff.1 h with h | h <;> simp [h]
    · simp [h]
  · have hunicast : isUnicast netif a = true := by
      rw [isUnicast_iff]
      intro h
      rcases Bool.or_eq_true_iff.1 h with h | h
      · rcases Bool.or_eq_true_iff.1 h with h | h <;> simp [h] at hcast
      · simp [h] at hcast
    rw [if_neg hcast]
    have hfinds := hs.finds a flags
    generalize etharpFindEntry a flags s = r at hfinds
    obtain ⟨i | i, s'⟩ := r
    · obtain rfl : s' = s := by cases hfinds; rfl
      exact .refused hfinds
    · have hentry := hfinds.entry
      by_cases hstatic : (s'.table i).state = .static ∧ ¬ flags.staticEntry
      · simp only [if_pos hstatic]
        cases hentry with
        | hit hused heq => exact .static i heq hstatic.1 hstatic.2
        | taken => simp at hstatic
      · simp only [if_neg hstatic]
        refine .learnt i s' hunicast hentry fun h => ?_
        by_contra hflags
        exact hstatic ⟨h, hflags⟩

lemma Updates.moves {ethaddr : EthAddr} {flags : FindFlags} {r : Err × Arp}
    (h : Updates netif a ethaddr flags s r) (hs : ArpInv netif s) : Moves netif D s r.2 := by
  cases h with
  | cast => exact .refl
  | refused => exact .refl
  | static => exact .refl
  | learnt i s' hunicast hentry hstatic =>
    have hlearn : Move netif D s' (s'.learn netif i ethaddr flags.staticEntry) :=
      .learn i ethaddr _ (hentry.alone hs) (hentry.ipaddr.symm ▸ hunicast)
    cases hentry with
    | hit => exact .single hlearn
    | taken hunknown hne => exact .tail (.single (.quiet (.take i a hunknown hne))) hlearn

instance (e : EtharpEntry) : Decidable e.Expires := inferInstanceAs (Decidable (_ ∨ _))

/-- An entry after a tick of the timer. -/
def EtharpEntry.ticked (e : EtharpEntry) : EtharpEntry :=
  if e.state = .empty ∨ e.state = .static then e
  else if e.Expires then { e with q := none, state := .empty, ctime := (e.ctime + 1) % 2 ^ 16 }
  else e.older

/-- An entry after the clean-up. -/
def EtharpEntry.cleaned (e : EtharpEntry) : EtharpEntry :=
  if e.state ≠ .empty ∧ e.netif then { e with q := none, state := .empty } else e

lemma Arp.release_setEntry (s : Arp) (i : ArpIdx) {e : EtharpEntry} (h : e.q = (s.table i).q) :
    (s.setEntry i e).release i = (s.release i).setEntry i e := by
  unfold Arp.release
  rw [Arp.setEntry_self, h]
  cases (s.table i).q <;> rfl

/-- What the timer does with one entry. -/
inductive Ticks (netif : Netif) (env : ArpEnv) (s : Arp) (i : ArpIdx) : Arp → Prop
  | skip (h : (s.table i).state = .empty ∨ (s.table i).state = .static) : Ticks netif env s i s
  | expire (hused : (s.table i).state ≠ .empty) (hstatic : (s.table i).state ≠ .static)
      (h : (s.table i).Expires) : Ticks netif env s i ((s.release i).setEntry i
        { s.table i with q := none, state := .empty, ctime := ((s.table i).ctime + 1) % 2 ^ 16 })
  | older (hused : (s.table i).state ≠ .empty) (hstatic : (s.table i).state ≠ .static)
      (h : ¬ (s.table i).Expires) : Ticks netif env s i (s.setEntry i (s.table i).older)
  | request (hpending : (s.table i).state = .pending) (h : ¬ (s.table i).Expires) :
      Ticks netif env s i
        (etharpRequest netif env i (s.table i).ipaddr (s.setEntry i (s.table i).older)).2

lemma ticks_tmrEntry (hs : ArpInv netif s) (i : ArpIdx) :
    Ticks netif env s i (tmrEntry netif env s i) := by
  unfold tmrEntry
  by_cases hrun : (s.table i).state ≠ .empty ∧ (s.table i).state ≠ .static
  · rw [if_pos hrun]
    dsimp only
    by_cases hexp : (s.table i).Expires
    · have hfree : Ticks netif env s i _ := .expire hrun.1 hrun.2 hexp
      have hcond : ((s.table i).ctime + 1) % 2 ^ 16 ≥ arpMaxage ∨ (s.table i).state = .pending ∧
        ((s.table i).ctime + 1) % 2 ^ 16 ≥ arpMaxpending := hexp
      rw [if_pos hcond, etharpFreeEntry_eq, Arp.release_setEntry]
      · simpa using hfree
      · rfl
    · have hcond : ¬ (((s.table i).ctime + 1) % 2 ^ 16 ≥ arpMaxage ∨ (s.table i).state = .pending ∧
        ((s.table i).ctime + 1) % 2 ^ 16 ≥ arpMaxpending) := hexp
      have holder : Ticks netif env s i _ := .older hrun.1 hrun.2 hexp
      rw [if_neg hcond]
      unfold EtharpEntry.older at holder
      cases hstate : (s.table i).state with
      | pending =>
        have hrequest : Ticks netif env s i _ := .request hstate hexp
        unfold EtharpEntry.older at hrequest
        rw [hstate] at hrequest
        simpa [(hs.entry i).netif hrun.1] using hrequest
      | empty => exact absurd hstate hrun.1
      | static => exact absurd hstate hrun.2
      | _ =>
        rw [hstate] at holder
        exact holder
  · rw [if_neg hrun]
    refine .skip ?_
    by_contra hne
    exact hrun (not_or.1 hne)

lemma Ticks.moves {s' : Arp} (h : Ticks netif env s i s') : Moves netif D s s' := by
  cases h with
  | skip => exact .refl
  | expire => exact .single (.free i _)
  | older hused hstatic h => exact .single (.tick i hused hstatic h)
  | request hpending h =>
    have htick : Move netif D s (s.setEntry i (s.table i).older) :=
      .tick i (by simp [hpending]) (by simp [hpending]) h
    exact ReflTransGen.head htick (quiets_requestDst _).moves

lemma Ticks.table {s' : Arp} (h : Ticks netif env s i s') :
    s'.table = Function.update s.table i (s.table i).ticked := by
  unfold EtharpEntry.ticked
  cases h with
  | skip h => rw [if_pos h, Function.update_eq_self]
  | expire hused hstatic h =>
    rw [if_neg (not_or.2 ⟨hused, hstatic⟩), if_pos h]
    simp [Arp.setEntry]
  | older hused hstatic h =>
    rw [if_neg (not_or.2 ⟨hused, hstatic⟩), if_neg h]
    rfl
  | request hpending h =>
    rw [if_neg (by simp [hpending]), if_neg h]
    exact requestDst_table _

lemma cleanupEntry_eq (s : Arp) (i : ArpIdx) : cleanupEntry s i = s ∨
    cleanupEntry s i = (s.release i).setEntry i { s.table i with q := none, state := .empty } := by
  unfold cleanupEntry
  split_ifs with h
  · exact .inr (etharpFreeEntry_eq i s)
  · exact .inl rfl

lemma cleanupEntry_table (s : Arp) (i : ArpIdx) :
    (cleanupEntry s i).table = Function.update s.table i (s.table i).cleaned := by
  unfold cleanupEntry EtharpEntry.cleaned
  split_ifs with h
  · rw [etharpFreeEntry_eq]
    simp [Arp.setEntry]
  · rw [Function.update_eq_self]

lemma moves_cleanupEntry (s : Arp) (i : ArpIdx) : Moves netif D s (cleanupEntry s i) := by
  rcases cleanupEntry_eq s i with heq | heq
  · rw [heq]
  · rw [heq]
    exact .single (.free i (s.table i).ctime)

/-! A loop over the table, whose iterations are moves and change one entry each. -/

lemma moves_foldl {f : Arp → ArpIdx → Arp} (hf : ∀ s i, ArpInv netif s → Moves netif D s (f s i))
    (hs : ArpInv netif s) (l : List ArpIdx) : Moves netif D s (l.foldl f s) := by
  induction l generalizing s with
  | nil => exact .refl
  | cons i l ih => exact (hf s i hs).trans (ih ((hf s i hs).inv hs))

lemma foldl_table {f : Arp → ArpIdx → Arp} {g : EtharpEntry → EtharpEntry}
    (hf : ∀ s i, ArpInv netif s → Moves netif (fun _ _ => True) s (f s i) ∧
      (f s i).table = Function.update s.table i (g (s.table i)))
    (hs : ArpInv netif s) {l : List ArpIdx} (hl : l.Nodup) (j : ArpIdx) :
    (l.foldl f s).table j = if j ∈ l then g (s.table j) else s.table j := by
  induction l generalizing s with
  | nil => simp
  | cons i l ih =>
    obtain ⟨hmoves, htable⟩ := hf s i hs
    obtain ⟨hi, hl⟩ := List.nodup_cons.1 hl
    rw [List.foldl_cons, ih (hmoves.inv hs) hl, htable]
    by_cases hj : j = i
    · subst hj
      simp [hi]
    · simp [hj]

lemma moves_etharpTmr (hs : ArpInv netif s) : Moves netif D s (etharpTmr netif env s) :=
  moves_foldl (fun _ i hs => (ticks_tmrEntry hs i).moves) hs _

lemma etharpTmr_table (hs : ArpInv netif s) (j : ArpIdx) :
    (etharpTmr netif env s).table j = (s.table j).ticked := by
  have hf (s : Arp) (i : ArpIdx) (hs : ArpInv netif s) :
      Moves netif (fun _ _ => True) s (tmrEntry netif env s i) ∧
        (tmrEntry netif env s i).table = Function.update s.table i (s.table i).ticked :=
    ⟨(ticks_tmrEntry hs i).moves, (ticks_tmrEntry hs i).table⟩
  rw [etharpTmr, foldl_table hf hs (List.nodup_finRange arpTableSize) j,
    if_pos (List.mem_finRange j)]

lemma moves_etharpCleanupNetif (hs : ArpInv netif s) : Moves netif D s (etharpCleanupNetif s) :=
  moves_foldl (fun s i _ => moves_cleanupEntry s i) hs _

lemma etharpCleanupNetif_table (hs : ArpInv netif s) (j : ArpIdx) :
    (etharpCleanupNetif s).table j = (s.table j).cleaned := by
  have hf (s : Arp) (i : ArpIdx) (_ : ArpInv netif s) :
      Moves netif (fun _ _ => True) s (cleanupEntry s i) ∧
        (cleanupEntry s i).table = Function.update s.table i (s.table i).cleaned :=
    ⟨moves_cleanupEntry s i, cleanupEntry_table s i⟩
  rw [etharpCleanupNetif, foldl_table hf hs (List.nodup_finRange arpTableSize) j,
    if_pos (List.mem_finRange j)]

lemma removeStatic_cases (hs : ArpInv netif s) (a : UInt32) :
    etharpRemoveStaticEntry a s = (.mem, s) ∨ etharpRemoveStaticEntry a s = (.arg, s) ∨
      ∃ i, (s.table i).state = .static ∧ (s.table i).ipaddr = a ∧ etharpRemoveStaticEntry a s =
        (.ok, (s.release i).setEntry i { s.table i with q := none, state := .empty }) := by
  unfold etharpRemoveStaticEntry
  have hfinds := hs.finds a .onlyFind
  generalize etharpFindEntry a .onlyFind s = r at hfinds
  obtain ⟨i | i, s'⟩ := r
  · cases hfinds
    exact .inl rfl
  · cases hfinds with
    | hit _ hused heq =>
      by_cases hstatic : (s.table i).state ≠ .static
      · simp only [if_pos hstatic]
        exact .inr (.inl trivial)
      · simp only [if_neg hstatic, etharpFreeEntry_eq]
        exact .inr (.inr ⟨i, not_not.1 hstatic, heq, rfl⟩)
    | fresh _ _ hmay => simp at hmay
    | recycled _ _ hmay => simp at hmay

end Updates

/-! ### Frames -/

section Frames

variable (netif : Netif) (env : ArpEnv)

/-- The ARP message in a frame, if there is one that `etharp_input` looks at. -/
def arpMessage (len : ℕ) (frame : Mem) : Option Mem :=
  if sizeofEthHdr < len ∧ UInt16.ofNat (read16 frame 12) = ppHtons ethtypeArp ∧
      netif.flagEtharp ∧ isEtharp (fun o => frame (sizeofEthHdr + o)) then
    some fun o => frame (sizeofEthHdr + o)
  else none

/-- The message is a request for our address, not sent by us. -/
def asksUs (m : Mem) : Bool :=
  opcode m == ppHtons arpRequest && forUs netif m && !fromUs netif m

/-- A request for our address is answered. -/
def answered (m : Mem) (s : Arp) : Arp := if asksUs netif m then etharpAnswer netif env m s else s

/-- The update that a message makes. -/
def heard (m : Mem) (s : Arp) : Arp :=
  (etharpUpdateArpEntry netif (sipaddr m) (shwaddr m)
    (if forUs netif m then .hard else .onlyFind) s).2

variable {netif env} {len : ℕ} {frame m : Mem} {s : Arp} (p : ℕ)

lemma ethernetInput_of_none (env : ArpEnv) (s : Arp) (h : arpMessage netif len frame = none) :
    ethernetInput netif env p len frame s = s.record (.pbufFree p) ∨
      ethernetInput netif env p len frame s = s.record (.ip4Input p) := by
  unfold ethernetInput
  by_cases hlen : len ≤ sizeofEthHdr
  · exact .inl (if_pos hlen)
  rw [if_neg hlen]
  by_cases hip : UInt16.ofNat (read16 frame 12) = ppHtons ethtypeIp
  · rw [if_pos hip]
    split_ifs
    · exact .inr rfl
    · exact .inl rfl
  rw [if_neg hip]
  by_cases harp : UInt16.ofNat (read16 frame 12) = ppHtons ethtypeArp
  · rw [if_pos harp]
    by_cases hflag : netif.flagEtharp = true
    · have hmessage : ¬ isEtharp (fun o => frame (sizeofEthHdr + o)) = true := by
        intro hmessage
        rw [arpMessage, if_pos ⟨not_le.1 hlen, harp, hflag, hmessage⟩] at h
        cases h
      rw [if_neg (not_not.2 hflag), etharpInput, if_pos hmessage]
      exact .inl rfl
    · exact .inl (if_pos hflag)
  · exact .inl (if_neg harp)

lemma ethernetInput_of_some (h : arpMessage netif len frame = some m) :
    ethernetInput netif env p len frame s =
      (answered netif env m (heard netif m s)).record (.pbufFree p) := by
  unfold arpMessage at h
  split_ifs at h with hcond
  obtain ⟨hlen, harp, hflag, hmessage⟩ := hcond
  obtain rfl := Option.some.inj h
  have hip : ¬ UInt16.ofNat (read16 frame 12) = ppHtons ethtypeIp := by
    rw [harp]
    decide
  unfold ethernetInput etharpInput answered heard asksUs
  rw [if_neg (not_le.2 hlen), if_neg hip, if_pos harp, if_neg (not_not.2 hflag),
    if_neg (not_not.2 hmessage)]
  simp only [Bool.and_eq_true, beq_iff_eq, Bool.not_eq_true', Bool.not_eq_true, and_assoc]

lemma answered_eq (netif : Netif) (env : ArpEnv) (m : Mem) (s : Arp) : answered netif env m s = s ∨
    asksUs netif m ∧ env.rawAlloc 0 ∧ answered netif env m s = s.record (.etharpRaw netif.hwaddr
      (shwaddr m) (etharpHdr arpReply netif.hwaddr netif.ipAddr (shwaddr m) (sipaddr m))) := by
  unfold answered etharpAnswer etharpRaw
  split_ifs with hasks halloc
  · exact .inr ⟨hasks, halloc, rfl⟩
  · exact .inl rfl
  · exact .inl rfl

lemma ArpInv.answered (h : ArpInv netif s) (m : Mem) : ArpInv netif (answered netif env m s) := by
  rcases answered_eq netif env m s with heq | ⟨-, -, heq⟩
  · rwa [heq]
  · rw [heq]
    exact h.congr rfl rfl

end Frames

/-! ### The invariant over runs -/

/-- A call other than `ethernet_input` consists of moves. -/
lemma moves_step {netif : Netif} {s : Arp} (hs : ArpInv netif s) {event : ArpEvent} (env : ArpEnv)
    (h : ∀ p len frame, event ≠ .ethernetInput p len frame) :
    Moves netif (fun _ _ => True) s (s.step netif (event, env)) := by
  cases event with
  | ethernetInput p len frame => exact absurd rfl (h p len frame)
  | output q ipaddr =>
    have hquiets : Quiets netif (fun _ _ => True) s (etharpOutput netif env q ipaddr s).2 :=
      quiets_etharpOutput hs fun _ _ => ⟨trivial, fun _ _ _ => trivial⟩
    exact hquiets.moves
  | query ipaddr q =>
    have hquiets : Quiets netif (fun _ _ => True) s (etharpQuery netif env ipaddr q s).2 :=
      quiets_etharpQuery hs q fun _ _ => ⟨trivial, fun _ _ _ => trivial⟩
    exact hquiets.moves
  | request ipaddr => exact (quiets_requestDst _).moves
  | tmr =>
    simp only [Arp.step, perform]
    exact moves_etharpTmr hs
  | addStaticEntry ipaddr ethaddr =>
    simp only [Arp.step, perform, etharpAddStaticEntry]
    split_ifs with hroute
    · exact (updates_etharpUpdateArpEntry hs ipaddr ethaddr .hardStatic).moves hs
    · exact .refl
  | removeStaticEntry ipaddr =>
    simp only [Arp.step, perform]
    rcases removeStatic_cases hs ipaddr with heq | heq | ⟨i, -, -, heq⟩
    · rw [heq]
    · rw [heq]
    · rw [heq]
      exact .single (.free i (s.table i).ctime)
  | cleanupNetif =>
    simp only [Arp.step, perform]
    exact moves_etharpCleanupNetif hs

/-- A message that is heard is a move as well. -/
lemma moves_heard {netif : Netif} {s : Arp} {D : ℕ → UInt32 → Prop} (hs : ArpInv netif s)
    (m : Mem) : Moves netif D s (heard netif m s) :=
  (updates_etharpUpdateArpEntry hs _ _ _).moves hs

/-- What a call does: it consists of moves; or it receives a frame without an ARP message, which is
freed or handed to `ip4_input`; or a message is heard, answered if it asks for us, and freed. -/
inductive Steps (netif : Netif) (s : Arp) : ArpInput → Arp → Prop
  | moves (event : ArpEvent) (env : ArpEnv) (s' : Arp)
      (hevent : ∀ p len frame, event ≠ .ethernetInput p len frame)
      (h : Moves netif (fun _ _ => True) s s') : Steps netif s (event, env) s'
  | ignored (env : ArpEnv) (p len : ℕ) (frame : Mem) (c : ArpCall)
      (hm : arpMessage netif len frame = none) (hc : c = .pbufFree p ∨ c = .ip4Input p) :
      Steps netif s (.ethernetInput p len frame, env) (s.record c)
  | message (env : ArpEnv) (p len : ℕ) (frame m : Mem) (hm : arpMessage netif len frame = some m) :
      Steps netif s (.ethernetInput p len frame, env)
        ((answered netif env m (heard netif m s)).record (.pbufFree p))

lemma steps_step {netif : Netif} {s : Arp} (hs : ArpInv netif s) (input : ArpInput) :
    Steps netif s input (s.step netif input) := by
  obtain ⟨event, env⟩ := input
  by_cases hframe : ∀ p len frame, event ≠ .ethernetInput p len frame
  · exact .moves event env _ hframe (moves_step hs env hframe)
  · push Not at hframe
    obtain ⟨p, len, frame, rfl⟩ := hframe
    simp only [Arp.step, perform]
    cases hm : arpMessage netif len frame with
    | none =>
      rcases ethernetInput_of_none p env s hm with heq | heq
      · rw [heq]
        exact .ignored env p len frame _ hm (.inl rfl)
      · rw [heq]
        exact .ignored env p len frame _ hm (.inr rfl)
    | some m =>
      rw [ethernetInput_of_some p hm]
      exact .message env p len frame m hm

lemma ArpInv.step {netif : Netif} {s : Arp} (hs : ArpInv netif s) (input : ArpInput) :
    ArpInv netif (s.step netif input) := by
  have hsteps := steps_step hs input
  generalize s.step netif input = s' at hsteps
  cases hsteps with
  | moves _ _ _ _ h => exact h.inv hs
  | ignored => exact hs.congr rfl rfl
  | message env p len frame m hm =>
    have hheard := (moves_heard (D := fun _ _ => True) hs m).inv hs
    exact (hheard.answered m).congr rfl rfl

lemma arpInv_run (netif : Netif) (es : List ArpInput) :
    ArpInv netif (run (Arp.step netif) Arp.init es) :=
  run_invariant (G := fun _ _ => True) (fun _ e hs _ => hs.step e) arpInv_init
    (.of_forall fun _ _ => trivial)

/-- In every run of the ARP module, with any frames received, any packets sent, any timer ticks
and any answers of the other modules: no assertion about the table fails, no two entries in use have
the same address, an entry in use has a unicast address and its interface, only pending entries
hold a packet, and no entry grows older than the timer allows. -/
theorem arp_table_sound (netif : Netif) (es : List ArpInput) :
    ArpInv netif (run (Arp.step netif) Arp.init es) :=
  arpInv_run netif es

/-- In every state that a run reaches, `etharp_find_entry` is exactly this: the entry of the
address, if there is one; otherwise, if an entry may be created, the first empty entry, or else
the oldest stable entry that is not static, or else the oldest pending one without a packet, or
else the oldest pending one; and nothing if all entries are static. -/
theorem arp_search_exact (netif : Netif) (es : List ArpInput) (a : UInt32) (flags : FindFlags) :
    Finds a flags (run (Arp.step netif) Arp.init es)
      (etharpFindEntry a flags (run (Arp.step netif) Arp.init es)) :=
  (arpInv_run netif es).finds a flags

end Fx3Ncm.Lwip
