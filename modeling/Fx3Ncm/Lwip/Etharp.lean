/-
# The ARP module of lwIP

`link_output_app` is called by the ARP module (`etharp.c`) for what the stack sends, and
`ethernet_input` hands it the ARP frames that arrive.  The module keeps a table of ten entries,
`arp_table`, which maps IP addresses to Ethernet addresses.  An entry is pending while its
address is being asked for, and holds at most one packet then; it is stable once an ARP packet has
announced the address, and a timer removes it when it has become old.

This file is the module as `lwipopts.h` configures it: static entries are compiled in, queues of
packets and the hints of connections are not, and there is one network interface.  A pbuf is its
name; calls of the pbuf and the Ethernet modules are recorded.  A failed `LWIP_ASSERT` is
remembered.
-/
import Mathlib.Logic.Function.Basic
import Mathlib.Data.List.FinRange
import Fx3Ncm.Lib.Memory
import Fx3Ncm.Lib.Oldest

namespace Fx3Ncm.Lwip

open ByteMemory

/-! ### Constants -/

@[simp, reducible] def arpTableSize : ℕ := 10
@[simp, reducible] def arpMaxage : ℕ := 300
@[simp, reducible] def arpMaxpending : ℕ := 5
@[simp, reducible] def arpAgeRerequestUsedUnicast : ℕ := arpMaxage - 30
@[simp, reducible] def arpAgeRerequestUsedBroadcast : ℕ := arpMaxage - 15
@[simp, reducible] def sizeofEthHdr : ℕ := 14
@[simp, reducible] def sizeofEtharpHdr : ℕ := 28
@[simp, reducible] def ethtypeIp : UInt16 := 0x0800
@[simp, reducible] def ethtypeArp : UInt16 := 0x0806
@[simp, reducible] def ianaHwtypeEthernet : UInt16 := 1
@[simp, reducible] def ethHwaddrLen : UInt8 := 6
@[simp, reducible] def sizeofIp4Addr : UInt8 := 4
@[simp, reducible] def arpRequest : UInt16 := 1
@[simp, reducible] def arpReply : UInt16 := 2
@[simp, reducible] def ipaddrAny : UInt32 := 0
@[simp, reducible] def ipaddrBroadcast : UInt32 := 0xFFFFFFFF

/-- `PP_HTONS` -/
def ppHtons (x : UInt16) : UInt16 := ((x &&& 0x00FF) <<< 8) ||| ((x &&& 0xFF00) >>> 8)

/-- `PP_HTONL` -/
def ppHtonl (x : UInt32) : UInt32 :=
  ((x &&& 0x000000FF) <<< 24) ||| ((x &&& 0x0000FF00) <<< 8) |||
    ((x &&& 0x00FF0000) >>> 8) ||| ((x &&& 0xFF000000) >>> 24)

/-! ### Addresses

The `addr` of an `ip4_addr_t` holds the address in network order, on a little-endian processor. -/

/-- `struct eth_addr` -/
abbrev EthAddr := Vector UInt8 6

def ethbroadcast : EthAddr := .replicate 6 0xFF
def ethzero : EthAddr := .replicate 6 0

/-- What the ARP module reads of `struct netif`. -/
structure Netif where
  ipAddr : UInt32
  netmask : UInt32
  gw : UInt32
  hwaddr : EthAddr
  flagBroadcast : Bool
  flagEtharp : Bool

/-- `ip4_addr_isany_val` -/
def isAny (addr : UInt32) : Bool := addr == ipaddrAny

/-- `ip4_addr_net_eq` -/
def netEq (addr1 addr2 mask : UInt32) : Bool := addr1 &&& mask == addr2 &&& mask

/-- `ip4_addr_ismulticast` -/
def isMulticast (addr : UInt32) : Bool := addr &&& ppHtonl 0xF0000000 == ppHtonl 0xE0000000

/-- `ip4_addr_islinklocal` -/
def isLinklocal (addr : UInt32) : Bool := addr &&& ppHtonl 0xFFFF0000 == ppHtonl 0xA9FE0000

/-- `ip4_addr_isbroadcast_u32` -/
def isBroadcast (netif : Netif) (addr : UInt32) : Bool :=
  if ~~~addr = ipaddrAny ∨ addr = ipaddrAny then true
  else if ¬ netif.flagBroadcast then false
  else if addr = netif.ipAddr then false
  else netEq addr netif.ipAddr netif.netmask &&
    (addr &&& ~~~netif.netmask == ipaddrBroadcast &&& ~~~netif.netmask)

/-- The addresses that may stand in the table. -/
def isUnicast (netif : Netif) (addr : UInt32) : Bool :=
  !(isBroadcast netif addr || isMulticast addr || isAny addr)

/-- `ip4_addr_get_byte` -/
def addrByte (addr : UInt32) (idx : ℕ) : UInt8 := (addr >>> UInt32.ofNat (8 * idx)).toUInt8

/-- The Ethernet address of an IP multicast group. -/
def mcastaddr (addr : UInt32) : EthAddr :=
  #v[0x01, 0x00, 0x5E, addrByte addr 1 &&& 0x7F, addrByte addr 2, addrByte addr 3]

/-! ### The table -/

/-- `enum etharp_state` -/
inductive EtharpState where
  | empty
  | pending
  | stable
  | stableRerequesting1
  | stableRerequesting2
  | static
deriving DecidableEq, Repr

/-- `state >= ETHARP_STATE_STABLE` -/
def EtharpState.isStable : EtharpState → Bool
  | .empty | .pending => false
  | _ => true

/-- `struct etharp_entry`; `netif` tells whether the pointer to the interface is set. -/
structure EtharpEntry where
  q : Option ℕ
  ipaddr : UInt32
  netif : Bool
  ethaddr : EthAddr
  ctime : ℕ
  state : EtharpState
deriving DecidableEq

/-- The calls that are recorded. -/
inductive ArpCall where
  /-- `ethernet_output` of an IP packet -/
  | ethernetOutput (q : ℕ) (src dst : EthAddr)
  /-- `etharp_raw`: a pbuf is allocated, filled, sent and freed -/
  | etharpRaw (src dst : EthAddr) (hdr : List UInt8)
  | ip4Input (p : ℕ)
  | pbufRef (p : ℕ)
  | pbufClone (q p : ℕ)
  | pbufFree (p : ℕ)
deriving DecidableEq

/-- An index of `arp_table`. -/
abbrev ArpIdx := Fin arpTableSize

instance : NeZero arpTableSize := ⟨by decide⟩

/-- The static variables of the module, the calls it has made, and whether an assertion has
failed. -/
structure Arp where
  table : ArpIdx → EtharpEntry
  cachedEntry : ArpIdx
  calls : List ArpCall
  assertFailed : Bool

namespace Arp

/-- The module at start-up. -/
def init : Arp where
  table := fun _ => ⟨none, 0, false, ethzero, 0, .empty⟩
  cachedEntry := 0
  calls := []
  assertFailed := false

def setEntry (s : Arp) (i : ArpIdx) (e : EtharpEntry) : Arp :=
  { s with table := Function.update s.table i e }

def record (s : Arp) (c : ArpCall) : Arp := { s with calls := s.calls ++ [c] }

/-- `LWIP_ASSERT` -/
def lwipAssert (s : Arp) (condition : Bool) : Arp :=
  { s with assertFailed := s.assertFailed || !condition }

end Arp

/-- `err_t`, as far as the module returns it or hands it on. -/
inductive Err where
  | ok
  | mem
  | buf
  | rte
  | val
  | use
  | arg
deriving DecidableEq, Repr

/-- The answers of the modules that are called: whether `pbuf_alloc` succeeds in `etharp_raw` (for
each entry, since the timer may send a request for every one of them), the result of `pbuf_clone`
and of `ethernet_output`, and whether `ip4_route` finds the interface. -/
structure ArpEnv where
  rawAlloc : ArpIdx → Bool
  pbufClone : Option ℕ
  ethernetOutput : Err
  ip4Route : Bool

/-- `etharp_free_entry` -/
def etharpFreeEntry (i : ArpIdx) (s : Arp) : Arp :=
  match (s.table i).q with
  | some q =>
    (s.record (.pbufFree q)).setEntry i { s.table i with q := none, state := .empty }
  | none => s.setEntry i { s.table i with state := .empty }

/-! ### Search -/

/-- The flags of `etharp_find_entry`. -/
structure FindFlags where
  tryHard : Bool
  findOnly : Bool
  staticEntry : Bool

@[reducible] def FindFlags.onlyFind : FindFlags := ⟨false, true, false⟩
@[reducible] def FindFlags.hard : FindFlags := ⟨true, false, false⟩
@[reducible] def FindFlags.hardStatic : FindFlags := ⟨true, false, true⟩

/-- The candidates that the sweep remembers: `empty`, and `old_stable`, `old_pending` and
`old_queue` with their ages. -/
structure Candidates where
  empty : Option ArpIdx
  oldStable : Oldest.Best ArpIdx
  oldPending : Oldest.Best ArpIdx
  oldQueue : Oldest.Best ArpIdx

def Candidates.none : Candidates := ⟨.none, (.none, 0), (.none, 0), (.none, 0)⟩

/-- The age of an entry. -/
def age (table : ArpIdx → EtharpEntry) (i : ArpIdx) : ℕ := (table i).ctime

/-- What the sweep remembers of an entry that does not match. -/
def remember (table : ArpIdx → EtharpEntry) (c : Candidates) (i : ArpIdx) : Candidates :=
  match (table i).state with
  | .empty => if c.empty.isNone then { c with empty := some i } else c
  | .pending =>
    if (table i).q.isSome then { c with oldQueue := Oldest.see (age table) c.oldQueue i }
    else { c with oldPending := Oldest.see (age table) c.oldPending i }
  | .static => c
  | _ => { c with oldStable := Oldest.see (age table) c.oldStable i }

/-- The sweep over the entries that are left: the index of a match, or the candidates. -/
def sweep (table : ArpIdx → EtharpEntry) (ipaddr : UInt32) :
    List ArpIdx → Candidates → ArpIdx ⊕ Candidates
  | [], c => .inr c
  | i :: is, c =>
    if (table i).state ≠ .empty ∧ ipaddr = (table i).ipaddr then .inl i
    else sweep table ipaddr is (remember table c i)

/-- The entry to recycle: the oldest stable one, the oldest pending one without a packet, the
oldest pending one with a packet. -/
def Candidates.recycle (c : Candidates) : Option ArpIdx :=
  c.oldStable.1.or (c.oldPending.1.or c.oldQueue.1)

/-- The new entry `i`, which is empty, is given its address. -/
def newEntry (ipaddr : UInt32) (i : ArpIdx) (s : Arp) : Arp :=
  (s.lwipAssert ((s.table i).state == .empty)).setEntry i
    { s.table i with ipaddr := ipaddr, ctime := 0 }

/-- `etharp_find_entry`; no index stands for `ERR_MEM`. -/
def etharpFindEntry (ipaddr : UInt32) (flags : FindFlags) (s : Arp) : Option ArpIdx × Arp :=
  match sweep s.table ipaddr (List.finRange arpTableSize) .none with
  | .inl i => (some i, s)
  | .inr c =>
    if flags.findOnly ∨ c.empty.isNone ∧ ¬ flags.tryHard then (none, s)
    else
      match c.empty with
      | some i => (some i, newEntry ipaddr i s)
      | none =>
        match c.recycle with
        | some i =>
          -- no queued packets should exist on stable entries
          let s := s.lwipAssert (c.oldStable.1.isNone || (s.table i).q.isNone)
          (some i, newEntry ipaddr i (etharpFreeEntry i s))
        | none => (none, s)

/-! ### ARP packets -/

/-- The message that `etharp_raw` builds. -/
def etharpHdr (opcode : UInt16) (hwsrc : EthAddr) (ipsrc : UInt32) (hwdst : EthAddr)
    (ipdst : UInt32) : List UInt8 :=
  leBytes 2 (ppHtons ianaHwtypeEthernet).toNat ++ leBytes 2 (ppHtons ethtypeIp).toNat ++
    [ethHwaddrLen, sizeofIp4Addr] ++ leBytes 2 (ppHtons opcode).toNat ++ hwsrc.toList ++
    leBytes 4 ipsrc.toNat ++ hwdst.toList ++ leBytes 4 ipdst.toNat

/-- The `struct eth_addr` at offset `o`. -/
def readEth (m : Mem) (o : ℕ) : EthAddr := Vector.ofFn fun i => m (o + i)

/-! The fields of a `struct etharp_hdr`. -/

def hwtype (m : Mem) : UInt16 := UInt16.ofNat (read16 m 0)
def proto (m : Mem) : UInt16 := UInt16.ofNat (read16 m 2)
def hwlen (m : Mem) : UInt8 := m 4
def protolen (m : Mem) : UInt8 := m 5
def opcode (m : Mem) : UInt16 := UInt16.ofNat (read16 m 6)
def shwaddr (m : Mem) : EthAddr := readEth m 8
def sipaddr (m : Mem) : UInt32 := UInt32.ofNat (read32 m 14)
def dhwaddr (m : Mem) : EthAddr := readEth m 18
def dipaddr (m : Mem) : UInt32 := UInt32.ofNat (read32 m 24)

/-- The checks of `etharp_input`. -/
def isEtharp (m : Mem) : Bool :=
  hwtype m == ppHtons ianaHwtypeEthernet && hwlen m == ethHwaddrLen &&
    protolen m == sizeofIp4Addr && proto m == ppHtons ethtypeIp

/-- `etharp_raw`.  The pbuf that `pbuf_alloc` gives for the message is long enough for it. -/
def etharpRaw (alloc : Bool) (ethsrc ethdst hwsrc : EthAddr) (ipsrc : UInt32) (hwdst : EthAddr)
    (ipdst : UInt32) (opcode : UInt16) (s : Arp) : Err × Arp :=
  if alloc then
    (.ok, s.record (.etharpRaw ethsrc ethdst (etharpHdr opcode hwsrc ipsrc hwdst ipdst)))
  else (.mem, s)

section Module

variable (netif : Netif) (env : ArpEnv)

/-- `etharp_request_dst`, for the entry `i` -/
def etharpRequestDst (i : ArpIdx) (ipaddr : UInt32) (hwDst : EthAddr) (s : Arp) : Err × Arp :=
  etharpRaw (env.rawAlloc i) netif.hwaddr hwDst netif.hwaddr netif.ipAddr ethzero ipaddr
    arpRequest s

/-- `etharp_request` -/
def etharpRequest (i : ArpIdx) (ipaddr : UInt32) (s : Arp) : Err × Arp :=
  etharpRequestDst netif env i ipaddr ethbroadcast s

/-! ### Updates -/

/-- The packet that waits at the entry `i` is sent and freed. -/
def sendQueued (i : ArpIdx) (ethaddr : EthAddr) (s : Arp) : Arp :=
  match (s.table i).q with
  | some p =>
    ((s.setEntry i { s.table i with q := none }).record
      (.ethernetOutput p netif.hwaddr ethaddr)).record (.pbufFree p)
  | none => s

/-- `etharp_update_arp_entry` -/
def etharpUpdateArpEntry (ipaddr : UInt32) (ethaddr : EthAddr) (flags : FindFlags) (s : Arp) :
    Err × Arp :=
  if isAny ipaddr || isBroadcast netif ipaddr || isMulticast ipaddr then (.arg, s)
  else
    match etharpFindEntry ipaddr flags s with
    | (none, s) => (.mem, s)
    | (some i, s) =>
      if (s.table i).state = .static ∧ ¬ flags.staticEntry then (.val, s)
      else
        (.ok, sendQueued netif i ethaddr (s.setEntry i { s.table i with
          state := if flags.staticEntry then .static else .stable
          netif := true
          ethaddr := ethaddr
          ctime := 0 }))

/-- `etharp_add_static_entry` -/
def etharpAddStaticEntry (ipaddr : UInt32) (ethaddr : EthAddr) (s : Arp) : Err × Arp :=
  if ¬ env.ip4Route then (.rte, s)
  else etharpUpdateArpEntry netif ipaddr ethaddr .hardStatic s

/-- `etharp_remove_static_entry` -/
def etharpRemoveStaticEntry (ipaddr : UInt32) (s : Arp) : Err × Arp :=
  match etharpFindEntry ipaddr .onlyFind s with
  | (none, s) => (.mem, s)
  | (some i, s) =>
    if (s.table i).state ≠ .static then (.arg, s) else (.ok, etharpFreeEntry i s)

/-- One entry of `etharp_cleanup_netif`, for the only interface. -/
def cleanupEntry (s : Arp) (i : ArpIdx) : Arp :=
  if (s.table i).state ≠ .empty ∧ (s.table i).netif then etharpFreeEntry i s else s

/-- `etharp_cleanup_netif` -/
def etharpCleanupNetif (s : Arp) : Arp := (List.finRange arpTableSize).foldl cleanupEntry s

/-- One entry of `etharp_tmr`. -/
def tmrEntry (s : Arp) (i : ArpIdx) : Arp :=
  if (s.table i).state ≠ .empty ∧ (s.table i).state ≠ .static then
    let e := { s.table i with ctime := ((s.table i).ctime + 1) % 2 ^ 16 }
    if e.ctime ≥ arpMaxage ∨ e.state = .pending ∧ e.ctime ≥ arpMaxpending then
      etharpFreeEntry i (s.setEntry i e)
    else
      match e.state with
      | .stableRerequesting1 => s.setEntry i { e with state := .stableRerequesting2 }
      | .stableRerequesting2 => s.setEntry i { e with state := .stable }
      | .pending =>
        (etharpRequest netif env i e.ipaddr ((s.setEntry i e).lwipAssert e.netif)).2
      | _ => s.setEntry i e
  else s

/-- `etharp_tmr` -/
def etharpTmr (s : Arp) : Arp := (List.finRange arpTableSize).foldl (tmrEntry netif env) s

/-! ### Reception -/

/-- The reply of `etharp_input` to a request for our address. -/
def etharpAnswer (m : Mem) (s : Arp) : Arp :=
  (etharpRaw (env.rawAlloc 0) netif.hwaddr (shwaddr m) netif.hwaddr netif.ipAddr (shwaddr m)
    (sipaddr m) arpReply s).2

/-- An ARP packet directed to us -/
def forUs (m : Mem) : Bool := !isAny netif.ipAddr && dipaddr m == netif.ipAddr

/-- An ARP packet from us -/
def fromUs (m : Mem) : Bool := !isAny netif.ipAddr && sipaddr m == netif.ipAddr

/-- `etharp_input` for the packet `p`, whose payload begins at the memory `m`.  The length of the
packet is not looked at. -/
def etharpInput (p : ℕ) (m : Mem) (s : Arp) : Arp :=
  if ¬ isEtharp m then s.record (.pbufFree p)
  else
    let s := (etharpUpdateArpEntry netif (sipaddr m) (shwaddr m)
      (if forUs netif m then .hard else .onlyFind) s).2
    let s :=
      if opcode m = ppHtons arpRequest ∧ forUs netif m ∧ ¬ fromUs netif m then
        etharpAnswer netif env m s
      else s
    s.record (.pbufFree p)

/-- `ethernet_input` for the packet `p`, whose first pbuf has `len` bytes at `frame`. -/
def ethernetInput (p len : ℕ) (frame : Mem) (s : Arp) : Arp :=
  if len ≤ sizeofEthHdr then s.record (.pbufFree p)
  else if UInt16.ofNat (read16 frame 12) = ppHtons ethtypeIp then
    if ¬ netif.flagEtharp then s.record (.pbufFree p) else s.record (.ip4Input p)
  else if UInt16.ofNat (read16 frame 12) = ppHtons ethtypeArp then
    if ¬ netif.flagEtharp then s.record (.pbufFree p)
    else etharpInput netif env p (fun o => frame (sizeofEthHdr + o)) s
  else s.record (.pbufFree p)

/-! ### Transmission -/

/-- A packet that is to be sent: its pbuf, and whether one of the chain has to be copied to be
kept (`PBUF_NEEDS_COPY`). -/
structure OutPacket where
  pbuf : ℕ
  needsCopy : Bool
deriving DecidableEq

/-- The part of `etharp_query` that sends a request for the entry `i`. -/
def queryRequest (isNew : Bool) (i : ArpIdx) (ipaddr : UInt32) (s : Arp) : Err × Arp :=
  let r := etharpRequest netif env i ipaddr s
  if r.1 = .ok ∧ (r.2.table i).state = .pending ∧ ¬ isNew then
    (r.1, r.2.setEntry i { r.2.table i with ctime := 0 })
  else r

/-- The packet, or a copy of it, is kept by a reference.  That the packet is no queue of packets is
left to the caller. -/
def takeOver (q : OutPacket) (s : Arp) : Option ℕ × Arp :=
  if q.needsCopy then
    match env.pbufClone with
    | some p => (some p, s.record (.pbufClone q.pbuf p))
    | none => (none, s)
  else (some q.pbuf, s.record (.pbufRef q.pbuf))

/-- The part of `etharp_query` that keeps the packet at the pending entry `i`, in place of the one
that waits there. -/
def enqueue (i : ArpIdx) (q : OutPacket) (s : Arp) : Err × Arp :=
  match takeOver env q s with
  | (none, s) => (.mem, s)
  | (some p, s) =>
    match (s.table i).q with
    | some old => (.ok, (s.record (.pbufFree old)).setEntry i { s.table i with q := some p })
    | none => (.ok, s.setEntry i { s.table i with q := some p })

/-- What `etharp_query` does with a packet at the entry `i`. -/
def queryPacket (i : ArpIdx) (q : OutPacket) (result : Err) (s : Arp) : Err × Arp :=
  if (s.table i).state.isStable then
    (env.ethernetOutput, { s with cachedEntry := i }.record
      (.ethernetOutput q.pbuf netif.hwaddr (s.table i).ethaddr))
  else if (s.table i).state = .pending then enqueue env i q s
  else (result, s)

/-- A fresh entry becomes pending. -/
def markPending (i : ArpIdx) (s : Arp) : Arp :=
  if (s.table i).state = .empty then
    s.setEntry i { s.table i with state := .pending, netif := true }
  else s

/-- `etharp_query` -/
def etharpQuery (ipaddr : UInt32) (q : Option OutPacket) (s : Arp) : Err × Arp :=
  if isBroadcast netif ipaddr || isMulticast ipaddr || isAny ipaddr then (.arg, s)
  else
    match etharpFindEntry ipaddr .hard s with
    | (none, s) => (.mem, s)
    | (some i, s) =>
      let isNew := (s.table i).state == .empty
      let s := markPending i s
      let s := s.lwipAssert ((s.table i).state == .pending || (s.table i).state.isStable)
      let r := if isNew || q.isNone then queryRequest netif env isNew i ipaddr s else (.mem, s)
      match q with
      | none => r
      | some q => queryPacket netif env i q r.1 r.2

/-- The request of `etharp_output_to_arp_index` for an entry that is about to expire. -/
def rerequest (i : ArpIdx) (s : Arp) : Arp :=
  let e := s.table i
  if e.state = .stable then
    if e.ctime ≥ arpAgeRerequestUsedBroadcast then
      match etharpRequest netif env i e.ipaddr s with
      | (.ok, s) => s.setEntry i { e with state := .stableRerequesting1 }
      | (_, s) => s
    else if e.ctime ≥ arpAgeRerequestUsedUnicast then
      match etharpRequestDst netif env i e.ipaddr e.ethaddr s with
      | (.ok, s) => s.setEntry i { e with state := .stableRerequesting1 }
      | (_, s) => s
    else s
  else s

/-- `etharp_output_to_arp_index` -/
def etharpOutputToArpIndex (q : OutPacket) (i : ArpIdx) (s : Arp) : Err × Arp :=
  let s := rerequest netif env i (s.lwipAssert (s.table i).state.isStable)
  (env.ethernetOutput, s.record (.ethernetOutput q.pbuf netif.hwaddr (s.table i).ethaddr))

/-- The address on the link to which a packet for `ipaddr` goes, if there is one. -/
def dstAddr (ipaddr : UInt32) : Option UInt32 :=
  if !netEq ipaddr netif.ipAddr netif.netmask && !isLinklocal ipaddr then
    if !isAny netif.gw then some netif.gw else none
  else some ipaddr

/-- The entry `i` is stable and the right one. -/
def resolves (table : ArpIdx → EtharpEntry) (dst : UInt32) (i : ArpIdx) : Bool :=
  (table i).state.isStable && dst == (table i).ipaddr

/-- `etharp_output` -/
def etharpOutput (q : OutPacket) (ipaddr : UInt32) (s : Arp) : Err × Arp :=
  if isBroadcast netif ipaddr then
    (env.ethernetOutput, s.record (.ethernetOutput q.pbuf netif.hwaddr ethbroadcast))
  else if isMulticast ipaddr then
    (env.ethernetOutput, s.record (.ethernetOutput q.pbuf netif.hwaddr (mcastaddr ipaddr)))
  else
    match dstAddr netif ipaddr with
    | none => (.rte, s)
    | some dst =>
      if resolves s.table dst s.cachedEntry then
        etharpOutputToArpIndex netif env q s.cachedEntry s
      else
        match (List.finRange arpTableSize).find? (resolves s.table dst) with
        | some i => etharpOutputToArpIndex netif env q i { s with cachedEntry := i }
        | none => etharpQuery netif env dst (some q) s

/-! ### Runs -/

/-- The functions of the module that others call, and `ethernet_input`. -/
inductive ArpEvent where
  | ethernetInput (p len : ℕ) (frame : Mem)
  | output (q : OutPacket) (ipaddr : UInt32)
  | query (ipaddr : UInt32) (q : Option OutPacket)
  | request (ipaddr : UInt32)
  | tmr
  | addStaticEntry (ipaddr : UInt32) (ethaddr : EthAddr)
  | removeStaticEntry (ipaddr : UInt32)
  | cleanupNetif

abbrev ArpInput := ArpEvent × ArpEnv

/-- A call of the module, with its result. -/
def perform (s : Arp) (input : ArpInput) : Err × Arp :=
  match input.1 with
  | .ethernetInput p len frame => (.ok, ethernetInput netif input.2 p len frame s)
  | .output q ipaddr => etharpOutput netif input.2 q ipaddr s
  | .query ipaddr q => etharpQuery netif input.2 ipaddr q s
  | .request ipaddr => etharpRequest netif input.2 0 ipaddr s
  | .tmr => (.ok, etharpTmr netif input.2 s)
  | .addStaticEntry ipaddr ethaddr => etharpAddStaticEntry netif input.2 ipaddr ethaddr s
  | .removeStaticEntry ipaddr => etharpRemoveStaticEntry ipaddr s
  | .cleanupNetif => (.ok, etharpCleanupNetif s)

def Arp.step (s : Arp) (input : ArpInput) : Arp := (perform netif s input).2

end Module

/-- `netif_data`, as `init_lwip` and `netif_init_cb` of `main.c` set it up: 192.168.7.1/24, no
gateway. -/
def netifData : Netif where
  ipAddr := ppHtonl 0xC0A80701
  netmask := ppHtonl 0xFFFFFF00
  gw := ppHtonl 0
  hwaddr := #v[0x2E, 0xF5, 0xF3, 0x68, 0xDC, 0xE6 ^^^ 0x01]
  flagBroadcast := true
  flagEtharp := true

end Fx3Ncm.Lwip
