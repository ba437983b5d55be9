/-
# The bytes of a received frame

`net_rx_cb` asks lwIP for a pbuf of the size of the datagram and copies the datagram to its
payload.  `pbuf_alloc` builds a chain of buffers of the pool, each of `PBUF_POOL_BUFSIZE` bytes;
the copy takes the chain for one piece of memory.  `FrameSlot` follows the pbufs as such; here
it is the memory that counts.

A frame is stored intact exactly if it fits into the first buffer of its chain
(`frame_intact`).
-/
import Fx3Ncm.Lib.Memory

namespace Fx3Ncm

open ByteMemory

/-! ### Constants

The options of `lwipopts.h`, and the sizes that `opt.h` and `pbuf.h` derive from them. -/

@[simp, reducible] def memAlignment : ℕ := 4
@[simp, reducible] def tcpMss : ℕ := 1500 - 20 - 20
@[simp, reducible] def pbufTransportHlen : ℕ := 20
@[simp, reducible] def pbufIpHlen : ℕ := 20
@[simp, reducible] def pbufLinkHlen : ℕ := 14
@[simp, reducible] def pbufLinkEncapsulationHlen : ℕ := 0

/-- `LWIP_MEM_ALIGN_SIZE` -/
@[simp, reducible] def lwipMemAlignSize (size : ℕ) : ℕ :=
  (size + memAlignment - 1) / memAlignment * memAlignment

/-- `PBUF_POOL_BUFSIZE` -/
@[simp, reducible] def pbufPoolBufsize : ℕ :=
  lwipMemAlignSize (tcpMss + pbufIpHlen + pbufTransportHlen + pbufLinkEncapsulationHlen +
    pbufLinkHlen)

/-! ### The pool -/

/-- A pbuf: the address of its payload, and its fields `len` and `tot_len`. -/
structure Pbuf where
  payload : ℕ
  len : ℕ
  totLen : ℕ
deriving DecidableEq, Repr

/-- The loop of `pbuf_alloc( PBUF_RAW, length, PBUF_POOL )`, where `pool` lists the payloads of
the free buffers and `remLen` is what remains to be allocated.  The result is the chain and the
buffers that are still free, or `NULL`. -/
def pbufAlloc : List ℕ → ℕ → Option (List Pbuf × List ℕ)
  | [], _ => none
  | q :: pool, remLen =>
    let qlen := min remLen (pbufPoolBufsize - lwipMemAlignSize 0)
    let p : Pbuf := ⟨q, qlen, remLen⟩
    if remLen - qlen > 0 then (pbufAlloc pool (remLen - qlen)).map fun r => (p :: r.1, r.2)
    else some ([p], pool)

/-- The chain is as lwIP documents it: the buffers hold at most `PBUF_POOL_BUFSIZE` bytes each,
and the length asked for together. -/
lemma pbufAlloc_lens {pool rest : List ℕ} {remLen : ℕ} {chain : List Pbuf}
    (h : pbufAlloc pool remLen = some (chain, rest)) :
    (∀ p ∈ chain, p.len ≤ pbufPoolBufsize) ∧ (chain.map Pbuf.len).sum = remLen := by
  induction pool generalizing remLen chain with
  | nil => cases h
  | cons q pool ih =>
    rw [pbufAlloc] at h
    split_ifs at h with hrem
    · obtain ⟨⟨chain', rest'⟩, hr, heq⟩ := Option.map_eq_some_iff.1 h
      obtain ⟨rfl, rfl⟩ := Prod.mk.inj heq
      obtain ⟨hle, hsum⟩ := ih hr
      refine ⟨?_, ?_⟩
      · intro p hp
        rcases List.mem_cons.1 hp with rfl | hp
        · simp
        · exact hle p hp
      · rw [List.map_cons, List.sum_cons, hsum]
        exact Nat.add_sub_cancel' (Nat.min_le_left _ _)
    · obtain ⟨rfl, -⟩ := Prod.mk.inj (Option.some.inj h)
      refine ⟨by simp, ?_⟩
      simp only [List.map_singleton, List.sum_singleton]
      omega

/-- The chain begins with the first free buffer. -/
lemma pbufAlloc_head {pool rest : List ℕ} {remLen : ℕ} {chain : List Pbuf}
    (h : pbufAlloc pool remLen = some (chain, rest)) :
    ∃ q tail, chain = ⟨q, min remLen pbufPoolBufsize, remLen⟩ :: tail ∧
      (remLen ≤ pbufPoolBufsize → tail = []) := by
  cases pool with
  | nil => cases h
  | cons q pool =>
    rw [pbufAlloc] at h
    split_ifs at h with hrem
    · obtain ⟨⟨chain', rest'⟩, -, heq⟩ := Option.map_eq_some_iff.1 h
      obtain ⟨rfl, -⟩ := Prod.mk.inj heq
      refine ⟨q, chain', rfl, fun hle => ?_⟩
      simp at hle hrem
      omega
    · obtain ⟨rfl, -⟩ := Prod.mk.inj (Option.some.inj h)
      exact ⟨q, [], rfl, fun _ => rfl⟩

/-- The pool is exhausted exactly if its buffers are too few. -/
lemma pbufAlloc_eq_none_iff (pool : List ℕ) {remLen : ℕ} (hpos : 0 < remLen) :
    pbufAlloc pool remLen = none ↔ pool.length * pbufPoolBufsize < remLen := by
  induction pool generalizing remLen with
  | nil => simpa [pbufAlloc] using hpos
  | cons q pool ih =>
    rw [pbufAlloc]
    rw [List.length_cons]
    split_ifs with hrem
    · rw [Option.map_eq_none_iff, ih hrem]
      simp at hrem ⊢
      omega
    · simp at hrem ⊢
      omega

/-! ### net_rx_cb -/

/-- The memory, the free buffers of the pool, and `received_frame`. -/
structure RxMemory where
  memory : Mem
  pool : List ℕ
  receivedFrame : Option (List Pbuf)

namespace RxMemory

/-- `net_rx_cb` for the bytes of a datagram: its result, the state after it, and the copies made,
each with the pbuf whose payload it goes to and its byte count. -/
def netRxCb (datagram : List UInt8) (s : RxMemory) : Bool × RxMemory × List (Pbuf × ℕ) :=
  if s.receivedFrame.isSome then (false, s, [])
  else if datagram.length ≠ 0 then
    match pbufAlloc s.pool datagram.length with
    | some (p :: tail, rest) =>
      (true, ⟨store s.memory p.payload datagram, rest, some (p :: tail)⟩, [(p, datagram.length)])
    | _ => (true, s, [])
  else (true, s, [])

/-- The payloads of a chain, one after the other. -/
def payloads (s : RxMemory) (chain : List Pbuf) : List UInt8 :=
  chain.flatMap fun p => load s.memory p.payload p.len

end RxMemory

/-- If the datagram is stored in `received_frame`, then the chain holds it, and each copy stays
within the `len` of its pbuf. -/
def StoredIntact (datagram : List UInt8) (s : RxMemory) : Prop :=
  let r := s.netRxCb datagram
  s.receivedFrame = none → ∀ chain, r.2.1.receivedFrame = some chain →
    r.2.1.payloads chain = datagram ∧ ∀ c ∈ r.2.2, c.2 ≤ c.1.len

section Store

variable {datagram : List UInt8} {s : RxMemory}

/-- The outcome of `net_rx_cb` when it stores a frame. -/
lemma netRxCb_of_some (hslot : s.receivedFrame = none) (hsize : datagram.length ≠ 0) {p : Pbuf}
    {tail : List Pbuf} {rest : List ℕ}
    (halloc : pbufAlloc s.pool datagram.length = some (p :: tail, rest)) :
    s.netRxCb datagram =
      (true, ⟨store s.memory p.payload datagram, rest, some (p :: tail)⟩,
        [(p, datagram.length)]) := by
  rw [RxMemory.netRxCb, if_neg (by simp [hslot]), if_pos hsize, halloc]

/-- The outcome of `net_rx_cb` when the datagram is empty or the pool is exhausted. -/
lemma netRxCb_of_none (hslot : s.receivedFrame = none)
    (h : datagram.length = 0 ∨ pbufAlloc s.pool datagram.length = none) :
    s.netRxCb datagram = (true, s, []) := by
  rw [RxMemory.netRxCb, if_neg (by simp [hslot])]
  rcases h with h | h
  · rw [if_neg (not_not.2 h)]
  · split_ifs
    · rw [h]
    · rfl

/-- A frame that has been stored is intact exactly if it fits into one buffer. -/
lemma storedIntact_iff_of_some (hslot : s.receivedFrame = none) (hsize : datagram.length ≠ 0)
    {chain : List Pbuf} {rest : List ℕ}
    (halloc : pbufAlloc s.pool datagram.length = some (chain, rest)) :
    StoredIntact datagram s ↔ datagram.length ≤ pbufPoolBufsize := by
  obtain ⟨q, tail, rfl, htail⟩ := pbufAlloc_head halloc
  rw [StoredIntact, netRxCb_of_some hslot hsize halloc]
  constructor
  · intro h
    obtain ⟨-, hcopies⟩ := h hslot _ rfl
    have hle := hcopies _ (List.mem_singleton.2 rfl)
    exact hle.trans ((pbufAlloc_lens halloc).1 _ List.mem_cons_self)
  · intro hle _ chain hchain
    obtain rfl := Option.some.inj hchain
    obtain rfl := htail hle
    rw [Nat.min_eq_left hle]
    refine ⟨?_, by simp⟩
    simp [RxMemory.payloads]

end Store

/-- For every datagram and every state of the pool, the frame is stored intact exactly if a frame
is already there, or the datagram fits into one buffer, or the pool cannot hold it. -/
theorem frame_intact (datagram : List UInt8) (s : RxMemory) :
    StoredIntact datagram s ↔ s.receivedFrame ≠ none ∨ datagram.length ≤ pbufPoolBufsize ∨
      s.pool.length * pbufPoolBufsize < datagram.length := by
  by_cases hslot : s.receivedFrame = none
  · by_cases hsize : datagram.length = 0
    · refine iff_of_true ?_ (Or.inr (Or.inl (by simp [hsize])))
      rw [StoredIntact, netRxCb_of_none hslot (Or.inl hsize)]
      intro _ chain hchain
      exact absurd (hslot.symm.trans hchain) (by simp)
    · have hnone := pbufAlloc_eq_none_iff s.pool (Nat.pos_of_ne_zero hsize)
      cases halloc : pbufAlloc s.pool datagram.length with
      | none =>
        refine iff_of_true ?_ (Or.inr (Or.inr (hnone.1 halloc)))
        rw [StoredIntact, netRxCb_of_none hslot (Or.inr halloc)]
        intro _ chain hchain
        exact absurd (hslot.symm.trans hchain) (by simp)
      | some r =>
        obtain ⟨chain, rest⟩ := r
        rw [storedIntact_iff_of_some hslot hsize halloc]
        have hroom : ¬ s.pool.length * pbufPoolBufsize < datagram.length := by
          intro h
          rw [hnone.2 h] at halloc
          cases halloc
        constructor
        · exact fun hle => Or.inr (Or.inl hle)
        · rintro (h | h | h)
          · exact absurd hslot h
          · exact h
          · exact absurd h hroom
  · exact iff_of_true (fun h => absurd h hslot) (Or.inl hslot)

/-- A datagram of one byte more than a buffer holds, with a fresh pool of four buffers: its last
byte is copied beyond the first buffer. -/
theorem frame_intact_fails :
    ¬ StoredIntact (List.replicate 1517 0x2a) ⟨fun _ => 0, [0, 2000, 4000, 6000], none⟩ := by
  have hfails : ∀ datagram : List UInt8, datagram.length = 1517 →
      ¬ StoredIntact datagram ⟨fun _ => 0, [0, 2000, 4000, 6000], none⟩ := by
    intro datagram hlen
    have halloc : pbufAlloc [0, 2000, 4000, 6000] datagram.length =
        some ([⟨0, 1516, 1517⟩, ⟨2000, 1, 1⟩], [4000, 6000]) := by
      rw [hlen]
      rfl
    rw [storedIntact_iff_of_some rfl (by omega) halloc, hlen]
    decide
  exact hfails _ List.length_replicate

end Fx3Ncm
