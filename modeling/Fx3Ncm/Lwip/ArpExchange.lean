/-
# Two stations resolve an address

What `etharp_raw` and `ethernet_output` write is what `ethernet_input` and `etharp_input` read:
the fields of a message come back as they were (`fields_etharpHdr`), whatever stands behind the
frame in the memory of the receiver.

`arp_resolution` is about two stations that both run the module.  A request of the one for the
address of the other, delivered in whatever state the other is in, is answered by exactly one
reply; and that reply, delivered in whatever state the first station is in then, enters the
address into its table and sends the packet that has waited for it.
-/
import Fx3Ncm.Lwip.ArpPackets

namespace Fx3Ncm.Lwip

open Runs ByteMemory

/-! ### Messages on the link -/

/-- The frame that `ethernet_output` makes of a packet. -/
def ethernetFrame (src dst : EthAddr) (ethType : UInt16) (payload : List UInt8) : List UInt8 :=
  dst.toList ++ src.toList ++ leBytes 2 (ppHtons ethType).toNat ++ payload

/-- The event is the reception of the ARP message that the call has sent; the frame may be
followed by anything. -/
inductive Delivers : ArpCall → ArpEvent → Prop
  | frame (src dst : EthAddr) (hdr : List UInt8) (rest : Mem) (p len : ℕ)
      (h : sizeofEthHdr + hdr.length ≤ len) :
      Delivers (.etharpRaw src dst hdr) (.ethernetInput p len
        (store rest 0 (ethernetFrame src dst ethtypeArp hdr)))

section Messages

variable (rest : Mem) (op : UInt16) (hwsrc hwdst : EthAddr) (ipsrc ipdst : UInt32)

/-- The message fills the pbuf that `etharp_raw` allocates for it. -/
lemma length_etharpHdr : (etharpHdr op hwsrc ipsrc hwdst ipdst).length = sizeofEtharpHdr := by
  simp [etharpHdr]

/-- The message behind the Ethernet header of a frame. -/
lemma payload_ethernetFrame (src dst : EthAddr) (ethType : UInt16) (payload : List UInt8) :
    (fun o => store rest 0 (ethernetFrame src dst ethType payload) (sizeofEthHdr + o)) =
      store (fun o => rest (sizeofEthHdr + o)) 0 payload := by
  have hlen : (dst.toList ++ src.toList ++ leBytes 2 (ppHtons ethType).toNat).length =
      sizeofEthHdr := by simp
  funext o
  have hget : (ethernetFrame src dst ethType payload)[sizeofEthHdr + o]? = payload[o]? := by
    rw [ethernetFrame, List.getElem?_append_right (by omega), hlen, Nat.add_sub_cancel_left]
  simp only [store, Nat.zero_le, if_true, Nat.sub_zero, hget]

/-- A part of what has been stored. -/
lemma load_store_part {xs ys zs : List UInt8} {o n : ℕ} (hx : xs.length = o) (hy : ys.length = n) :
    load (store rest 0 (xs ++ (ys ++ zs))) o n = ys := by
  subst hx hy
  rw [load_store_inside rest (Nat.zero_le _) (by simp), Nat.sub_zero, List.drop_left,
    List.take_left]

/-- The type field of a frame. -/
lemma type_ethernetFrame (src dst : EthAddr) (ethType : UInt16) (payload : List UInt8) :
    UInt16.ofNat (read16 (store rest 0 (ethernetFrame src dst ethType payload)) 12) =
      ppHtons ethType := by
  rw [read16, ethernetFrame, List.append_assoc _ _ payload,
    load_store_part rest (by simp) (length_leBytes 2 _), leNat_leBytes]
  simp

lemma readEth_of_load {m : Mem} {o : ℕ} {a : EthAddr} (h : load m o 6 = a.toList) :
    readEth m o = a := by
  apply Vector.toList_inj.1
  rw [← h]
  apply List.ext_getElem
  · simp
  · intro j h₁ h₂
    simp [readEth, load]

lemma ofNat_read32_of_load {m : Mem} {o : ℕ} {a : UInt32} (h : load m o 4 = leBytes 4 a.toNat) :
    UInt32.ofNat (read32 m o) = a := by
  rw [read32, h, leNat_leBytes]
  simp

/-- What has been written into a message is read from it. -/
lemma fields_etharpHdr :
    let m := store rest 0 (etharpHdr op hwsrc ipsrc hwdst ipdst)
    isEtharp m = true ∧ opcode m = ppHtons op ∧ shwaddr m = hwsrc ∧ sipaddr m = ipsrc ∧
      dhwaddr m = hwdst ∧ dipaddr m = ipdst := by
  intro m
  -- the constant part, the operation and the four addresses
  have hparts : etharpHdr op hwsrc ipsrc hwdst ipdst = [0, 1, 8, 0, 6, 4] ++
      (leBytes 2 (ppHtons op).toNat ++ (hwsrc.toList ++ (leBytes 4 ipsrc.toNat ++
        (hwdst.toList ++ (leBytes 4 ipdst.toNat ++ []))))) := by
    simp only [etharpHdr, List.append_assoc, List.append_nil]
    rfl
  refine ⟨?_, ?_, readEth_of_load ?_, ofNat_read32_of_load ?_, readEth_of_load ?_,
    ofNat_read32_of_load ?_⟩
  · simp [m, hparts, isEtharp, hwtype, hwlen, protolen, proto, read16, load, store, leNat,
      List.range_succ]
    decide
  · rw [opcode, read16]
    simp only [m, hparts]
    rw [load_store_part rest (by simp) (length_leBytes 2 _), leNat_leBytes]
    simp
  · simp only [m, hparts]
    rw [← List.append_assoc]
    exact load_store_part rest (by simp) (by simp)
  · simp only [m, hparts]
    rw [← List.append_assoc, ← List.append_assoc]
    exact load_store_part rest (by simp) (by simp)
  · simp only [m, hparts]
    rw [← List.append_assoc, ← List.append_assoc, ← List.append_assoc]
    exact load_store_part rest (by simp) (by simp)
  · simp only [m, hparts]
    rw [← List.append_assoc, ← List.append_assoc, ← List.append_assoc, ← List.append_assoc]
    exact load_store_part rest (by simp) (by simp)

variable {op hwsrc hwdst ipsrc ipdst}

/-- A message that is delivered is read as it has been sent. -/
lemma Delivers.message {netif : Netif} {src dst : EthAddr} {event : ArpEvent}
    (h : Delivers (.etharpRaw src dst (etharpHdr op hwsrc ipsrc hwdst ipdst)) event)
    (hflag : netif.flagEtharp) :
    ∃ p len frame m, event = .ethernetInput p len frame ∧ arpMessage netif len frame = some m ∧
      opcode m = ppHtons op ∧ shwaddr m = hwsrc ∧ sipaddr m = ipsrc ∧ dipaddr m = ipdst := by
  cases h with
  | frame _ _ _ rest p len hlen =>
    rw [length_etharpHdr] at hlen
    obtain ⟨hetharp, hop, hhw, hip, -, hdip⟩ := fields_etharpHdr
      (fun o => rest (sizeofEthHdr + o)) op hwsrc hwdst ipsrc ipdst
    refine ⟨p, len, _, _, rfl, ?_, hop, hhw, hip, hdip⟩
    have hlt : sizeofEthHdr < len := by
      simp only [sizeofEtharpHdr, sizeofEthHdr] at *
      omega
    unfold arpMessage
    rw [payload_ethernetFrame, type_ethernetFrame]
    exact if_pos ⟨hlt, rfl, hflag, hetharp⟩

end Messages

/-! ### The exchange -/

/-- The request of a station for an address. -/
def requestCall (netif : Netif) (ipaddr : UInt32) : ArpCall :=
  .etharpRaw netif.hwaddr ethbroadcast
    (etharpHdr arpRequest netif.hwaddr netif.ipAddr ethzero ipaddr)

/-- The reply of a station to another one. -/
def replyCall (netif peer : Netif) : ArpCall :=
  .etharpRaw netif.hwaddr peer.hwaddr
    (etharpHdr arpReply netif.hwaddr netif.ipAddr peer.hwaddr peer.ipAddr)

/-- The station has a fresh entry for the address, with nothing waiting there. -/
def Knows (s : Arp) (a : UInt32) (hw : EthAddr) : Prop :=
  ∃ i, s.table i = ⟨none, a, true, hw, 0, .stable⟩

section Exchange

variable {A B : Netif} {s : Arp} {event : ArpEvent} {env : ArpEnv} {a : UInt32} {hw : EthAddr}
  {r : Err × Arp}

/-- A request that is delivered asks for the reply. -/
lemma answer_requestCall (h : Delivers (requestCall A B.ipAddr) event) (hB : B.flagEtharp)
    (hany : isAny B.ipAddr = false) (hne : A.ipAddr ≠ B.ipAddr) (halloc : env.rawAlloc 0) :
    answer B (event, env) = [replyCall B A] := by
  obtain ⟨p, len, frame, m, rfl, hm, hop, hhw, hip, hdip⟩ := h.message hB
  have hasks : asksUs B m = true := by
    simp [asksUs, forUs, fromUs, hop, hip, hdip, hany, hne]
  simp [answer, hm, hasks, halloc, replyCall, hhw, hip]

/-- What a reply that is delivered does to the table. -/
lemma step_replyCall (h : Delivers (replyCall B A) event) (hA : A.flagEtharp)
    (hown : isAny A.ipAddr = false) :
    ∃ p, s.step A (event, env) =
      (etharpUpdateArpEntry A B.ipAddr B.hwaddr .hard s).2.record (.pbufFree p) := by
  obtain ⟨p, len, frame, m, rfl, hm, hop, hhw, hip, hdip⟩ := h.message hA
  have hforUs : forUs A m = true := by simp [forUs, hown, hdip]
  have hreply : ppHtons arpReply ≠ ppHtons arpRequest := by decide
  have hasks : asksUs A m = false := by simp [asksUs, hop, hreply]
  refine ⟨p, ?_⟩
  simp only [Arp.step, perform]
  rw [ethernetInput_of_some p hm, answered, hasks, heard, hforUs, hhw, hip]
  rfl

/-- After an update for a unicast address it is known, unless it is static or there is no room. -/
lemma Updates.knows (h : Updates A a hw .hard s r) (hunicast : isUnicast A a) :
    Knows r.2 a hw ∨ (∃ i, (s.table i).ipaddr = a ∧ (s.table i).state = .static) ∨
      ∀ i, (s.table i).state = .static := by
  cases h with
  | cast h => exact absurd hunicast h
  | refused h =>
    cases h with
    | refused _ h =>
      rcases h with h | ⟨-, h⟩
      · cases h
      · exact .inr (.inr (h rfl))
  | static i hip hstatic => exact .inr (.inl ⟨i, hip, hstatic⟩)
  | learnt i s' _ hentry =>
    refine .inl ⟨i, ?_⟩
    rw [(s'.learn_eq A i hw _).1, hentry.ipaddr]
    simp

/-- The packet that has waited for the address is sent. -/
lemma Updates.sends (h : Updates A a hw .hard s r) (hs : ArpInv A s) (hunicast : isUnicast A a)
    {i : ArpIdx} {p : ℕ} (hip : (s.table i).ipaddr = a) (hq : (s.table i).q = some p) :
    r.2.calls = s.calls ++ [.ethernetOutput p A.hwaddr hw, .pbufFree p] := by
  have hpending : (s.table i).state = .pending := (hs.entry i).waiting (by simp [hq])
  have hused : (s.table i).state ≠ .empty := by simp [hpending]
  cases h with
  | cast h => exact absurd hunicast h
  | refused h =>
    cases h with
    | refused hunknown => exact absurd hip (hunknown i hused)
  | static j hjp hstatic =>
    obtain rfl := hs.unique i j hused (by simp [hstatic]) (hip.trans hjp.symm)
    rw [hpending] at hstatic
    cases hstatic
  | learnt j s' _ hentry =>
    cases hentry with
    | hit husedj hjp =>
      obtain rfl := hs.unique i j hused husedj (hip.trans hjp.symm)
      simp [Arp.learn, sendQueued, hq]
    | taken hunknown => exact absurd hip (hunknown i hused)

end Exchange

/-- Two stations on one link, with different addresses of which that of `A` is set and that of `B`
is unicast, resolve each other's addresses, whatever either has done before: `A` asks for the
address of `B`, the request is answered by one reply, for which `B` gets a pbuf, and when `A`
receives it, `A` has a fresh entry for `B` and sends the packet that has waited for it.  (The
exceptions are an address that is static already, and a table full of static entries.) -/
theorem arp_resolution (A B : Netif) (hA : A.flagEtharp) (hB : B.flagEtharp)
    (hown : isAny A.ipAddr = false) (hunicast : isUnicast A B.ipAddr)
    (hne : A.ipAddr ≠ B.ipAddr) (es fs : List ArpInput) (request reply : ArpInput)
    (hrequest : Delivers (requestCall A B.ipAddr) request.1) (halloc : request.2.rawAlloc 0)
    (hreply : Delivers (replyCall B A) reply.1) :
    let a := run (Arp.step A) Arp.init es
    let b := run (Arp.step B) Arp.init fs
    let a' := a.step A reply
    (∀ env i, env.rawAlloc i → etharpRequest A env i B.ipAddr a =
      (.ok, a.record (requestCall A B.ipAddr))) ∧
    replies (b.step B request).calls = replies b.calls ++ [replyCall B A] ∧
    (Knows a' B.ipAddr B.hwaddr ∨
      (∃ i, (a.table i).ipaddr = B.ipAddr ∧ (a.table i).state = .static) ∨
      ∀ i, (a.table i).state = .static) ∧
    ∀ i p, (a.table i).ipaddr = B.ipAddr → (a.table i).q = some p →
      ∃ cs, a'.calls = a.calls ++ .ethernetOutput p A.hwaddr B.hwaddr :: cs := by
  intro a b a'
  have hs : ArpInv A a := arpInv_run A es
  have hany : isAny B.ipAddr = false := by
    by_contra hany
    simp [isUnicast, hany] at hunicast
  have hupdates := updates_etharpUpdateArpEntry hs B.ipAddr B.hwaddr .hard
  obtain ⟨p, hstep⟩ : ∃ p, a' = _ := step_replyCall (s := a) hreply hA hown
  refine ⟨?_, ?_, ?_, ?_⟩
  · intro env i halloc
    simp [etharpRequest, etharpRequestDst, etharpRaw, halloc, requestCall]
  · rw [replies_step (arpInv_run B fs)]
    exact congrArg _ (answer_requestCall hrequest hB hany hne halloc)
  · rw [hstep]
    exact hupdates.knows hunicast
  · intro i q hip hq
    rw [hstep, Arp.record, hupdates.sends hs hunicast hip hq, List.append_assoc]
    exact ⟨_, rfl⟩

/-- A host on the link of the firmware. -/
def hostNetif : Netif where
  ipAddr := ppHtonl 0xC0A80702
  netmask := ppHtonl 0xFFFFFF00
  gw := ppHtonl 0
  hwaddr := #v[0x2E, 0xF5, 0xF3, 0x68, 0xDC, 0xE6]
  flagBroadcast := true
  flagEtharp := true

/-- The memory is never short, and the message is received as the packet 1. -/
def receive (src dst : EthAddr) (hdr : List UInt8) : ArpInput :=
  (.ethernetInput 1 42 (store (fun _ => 0) 0 (ethernetFrame src dst ethtypeArp hdr)),
    ⟨fun _ => true, none, .ok, true⟩)

/-- The firmware sends a packet to the host, which has to wait until the host is resolved. -/
theorem arp_resolution_firmware :
    let request := receive netifData.hwaddr ethbroadcast
      (etharpHdr arpRequest netifData.hwaddr netifData.ipAddr ethzero hostNetif.ipAddr)
    let reply := receive hostNetif.hwaddr netifData.hwaddr
      (etharpHdr arpReply hostNetif.hwaddr hostNetif.ipAddr netifData.hwaddr netifData.ipAddr)
    let a := Arp.init.step netifData
      (.output ⟨0, false⟩ hostNetif.ipAddr, ⟨fun _ => true, none, .ok, true⟩)
    replies (Arp.init.step hostNetif request).calls = [replyCall hostNetif netifData] ∧
      a.calls = [requestCall netifData hostNetif.ipAddr, .pbufRef 0] ∧
      ∃ cs, (a.step netifData reply).calls =
        a.calls ++ .ethernetOutput 0 netifData.hwaddr hostNetif.hwaddr :: cs := by
  intro request reply a
  obtain ⟨-, hreplies, -, hsent⟩ := arp_resolution netifData hostNetif rfl rfl (by decide)
    (by decide) (by decide)
    [(.output ⟨0, false⟩ hostNetif.ipAddr, ⟨fun _ => true, none, .ok, true⟩)] [] request reply
    (.frame _ _ _ _ _ _ (by simp [etharpHdr])) rfl (.frame _ _ _ _ _ _ (by simp [etharpHdr]))
  exact ⟨hreplies, by decide +kernel, hsent 0 0 (by decide +kernel) (by decide +kernel)⟩

end Fx3Ncm.Lwip
