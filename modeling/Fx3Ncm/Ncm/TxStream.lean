/-
# The transmitted stream

What the IN direction does as a whole, over every run that follows the caller protocol:
every NTB has exactly one holder and an NTB that has been handed to USB keeps its bytes;
the NTBs are well-formed; and the NTBs handed to USB contain the stored datagrams, in
order.
-/
import Fx3Ncm.Ncm.TxInv

namespace Fx3Ncm

open ByteMemory Runs

/-- The data interface is activated and one datagram of one byte is transmitted. -/
def oneDatagram : List Input :=
  [(.netUsbControlTransfer (.setInterface 1), .accepting), (.netCanTx 1, .accepting),
    (.netTx [0x2a] 1, .accepting)]

/-! ### Ownership and immutability -/

/-- In every reachable state each transmit NTB has exactly one holder, and as long as an NTB
that was passed to `usb_transfer_ep` is in `tx_usbd_ntb` its bytes are those it had then. -/
theorem tx_ownership {w : World} (hw : Reached TxProtocol w) :
    (∀ i, (w.tx.txFreeNtb.ntbList ++ w.tx.txWaitNtb.ntbList ++
        [w.tx.txUsbdNtb, w.tx.txUserNtb]).count (some i) = 1) ∧
      ∀ i data bytes ok, (i, data, bytes, ok) ∈ sentNtbs w.log →
        w.tx.txUsbdNtb = some i → w.tx.txNtb i = data := by
  obtain ⟨p, h, -, -⟩ := TxInv.of_reached txStable_true hw
  constructor
  · rw [h.state]
    exact p.count_holders
  · intro i data bytes ok hsent hi
    rw [h.usbd] at hi
    rcases p.usbd_cases with hnone | hsome
    · rw [hnone] at hi
      cases hi
    · obtain ⟨ok', hlog⟩ := h.sent hsome
      rw [hlog, List.mem_singleton] at hsent
      cases hsent
      rfl

/-- After one datagram has been transmitted `tx_ntb[0]` is in flight, and `tx_ntb[1]` is free. -/
theorem tx_ownership_oneDatagram :
    (run step World.init oneDatagram).tx.txUsbdNtb = some 0 ∧
      ∀ data bytes ok, (0, data, bytes, ok) ∈ sentNtbs (run step World.init oneDatagram).log →
        (run step World.init oneDatagram).tx.txNtb 0 = data := by
  have husbd : (run step World.init oneDatagram).tx.txUsbdNtb = some 0 := rfl
  have hrun : Along step TxProtocol World.init oneDatagram :=
    ⟨trivial, trivial, ⟨rfl, by decide, rfl⟩, trivial⟩
  refine ⟨husbd, fun data bytes ok hsent => ?_⟩
  exact (tx_ownership ⟨oneDatagram, hrun, rfl⟩).2 0 data bytes ok hsent husbd

/-! ### The stream of datagrams -/

/-- The caller protocol for datagrams that are not empty. -/
def StreamProtocol (w : World) (input : Input) : Prop :=
  TxProtocol w input ∧ ∀ written size, input.1 = .netTx written size → 1 ≤ size.toNat

/-- No NTB has an empty datagram. -/
def NoneEmpty (ds : NtbPtr → List (List UInt8)) : Prop := ∀ i, ∀ d ∈ ds i, d ≠ []

lemma NoneEmpty.update {ds : NtbPtr → List (List UInt8)} (h : NoneEmpty ds) {i : NtbPtr}
    {written : List UInt8} (hne : written ≠ []) :
    NoneEmpty (Function.update ds i (ds i ++ [written])) := by
  intro j d hd
  by_cases hj : j = i
  · subst hj
    rw [Function.update_self, List.mem_append, List.mem_singleton] at hd
    rcases hd with hd | rfl
    · exact h j d hd
    · exact hne
  · rw [Function.update_of_ne hj] at hd
    exact h j d hd

lemma txStable_noneEmpty : TxStable StreamProtocol fun ds _ => NoneEmpty ds where
  protocol hG := hG.1
  init _ _ hd := absurd hd (by simp)
  start _ _ h := h
  accept _ _ _ _ _ h := h
  store {w input ds p i written size} hG hinput hlen _ h := by
    have hsize := hG.2 written size hinput
    refine h.update ?_
    rintro rfl
    rw [← hlen] at hsize
    simp at hsize

/-- The datagrams in the NTBs passed to `usb_transfer_ep` are a prefix of the datagrams stored
by `net_tx`; the sequence numbers count the NTBs opened, and the NTBs are sent in that order. -/
theorem tx_stream {w : World} (hw : Reached StreamProtocol w) :
    (sentBlocks w.log).flatMap datagrams <+: storedDatagrams w.log ∧
      (∃ n, openedSequences w.log = (List.range n).map (· % 2 ^ 16)) ∧
      (sentBlocks w.log).map wSequence <+: openedSequences w.log := by
  obtain ⟨p, hs, hc, -, hne⟩ := TxInv.of_reached txStable_noneEmpty hw
  refine ⟨?_, ⟨p.opened, ?_⟩, ?_⟩
  · rcases p.usbd_cases with hnone | hsome
    · rw [sentBlocks, hs.unsent hnone]
      exact List.nil_prefix
    · obtain ⟨ok, hlog⟩ := hs.sent hsome
      have henc := hc.encodes 0 (TxPhase.opened_pos_of_usbd hsome)
      rw [sentBlocks, hlog, List.map_singleton, List.flatMap_singleton, henc.datagrams_eq (hne 0),
        hc.stored]
      exact List.prefix_append _ _
  · have hmod : ∀ n ∈ List.range p.opened, n % 2 ^ 16 = n := by
      intro n hn
      have hlt := List.mem_range.1 hn
      have hle := p.opened_le
      omega
    rw [hc.opened, List.map_congr_left hmod, List.map_id']
  · rcases p.usbd_cases with hnone | hsome
    · rw [sentBlocks, hs.unsent hnone]
      exact List.nil_prefix
    · obtain ⟨ok, hlog⟩ := hs.sent hsome
      have hpos := TxPhase.opened_pos_of_usbd hsome
      obtain ⟨n, hn⟩ : ∃ n, p.opened = n + 1 := ⟨p.opened - 1, by omega⟩
      have henc := hc.encodes 0 hpos
      rw [sentBlocks, hlog, List.map_singleton, List.map_singleton, henc.sequence, hc.opened, hn,
        List.range_succ_eq_map]
      exact ⟨_, rfl⟩

/-- Three datagrams are stored into one NTB, the last of them after the data interface has been
activated, and the NTB is sent. -/
def threeDatagrams : List Input :=
  [(.netCanTx 2, .accepting), (.netTx [1, 2] 2, .accepting), (.netCanTx 1, .accepting),
    (.netTx [0x2a] 1, .accepting), (.netUsbControlTransfer (.setInterface 1), .accepting),
    (.netCanTx 3, .accepting), (.netTx [5, 6, 7] 3, .accepting)]

lemma along_threeDatagrams : Along step StreamProtocol World.init threeDatagrams := by
  refine ⟨⟨trivial, ?_⟩, ⟨⟨rfl, by decide, rfl⟩, ?_⟩, ⟨trivial, ?_⟩, ⟨⟨rfl, by decide, rfl⟩, ?_⟩,
    ⟨trivial, ?_⟩, ⟨trivial, ?_⟩, ⟨⟨rfl, by decide, rfl⟩, ?_⟩, trivial⟩ <;>
    rintro written size ⟨⟩ <;> decide

/-- One NTB has been sent in `threeDatagrams`, and the three datagrams are found in it. -/
theorem tx_stream_threeDatagrams :
    (sentBlocks (run step World.init threeDatagrams).log).map datagrams =
        [[[1, 2], [0x2a], [5, 6, 7]]] ∧
      (sentBlocks (run step World.init threeDatagrams).log).flatMap datagrams <+:
        [[1, 2], [0x2a], [5, 6, 7]] :=
  ⟨by decide +kernel, (tx_stream ⟨threeDatagrams, along_threeDatagrams, rfl⟩).1⟩

/-! ### The encoder -/

/-- The caller protocol for datagrams that are not empty and fit into an empty NTB. -/
def EncoderProtocol (w : World) (input : Input) : Prop :=
  StreamProtocol w input ∧
    ∀ size, input.1 = .netCanTx size → 1 ≤ size.toNat ∧ size.toNat ≤ maxDatagramSize

/-- Every NTB that has been opened and is no longer being filled has a datagram. -/
def Filled (ds : NtbPtr → List (List UInt8)) (p : TxPhase) : Prop :=
  ∀ i : NtbPtr, i < p.opened → p.user ≠ some i → ds i ≠ []

/-- A user NTB that has no room for a datagram that fits into an empty NTB is not empty. -/
lemma placed_ne_nil_of_not_fits {w : World} {p : TxPhase} (hs : TxShape w p) (hc : TxContent w p)
    {size : UInt16} (hsize : size.toNat ≤ maxDatagramSize)
    (hfits : ¬ txDatagramFitsUserNtb size w = true) {i : NtbPtr} (hi : p.user = some i) :
    placed w i ≠ [] := by
  intro hnil
  have hnil' : datagramsIn i w.log = [] := hnil
  have hopened := TxPhase.user_add_one_eq_opened hi
  have hindex : w.tx.txUserNtbDatagramIndex = 0 := by rw [hc.index i hi, hnil']; rfl
  have hblock : wBlockLength (w.tx.txNtb i) = 56 := by
    rw [(hc.encodes i (by omega)).block, hnil']
    rfl
  apply hfits
  rw [txDatagramFitsUserNtb, hs.user, hi]
  simp only [hindex, hblock]
  exact decide_eq_true (add_alignOffset_le_of_le hsize)

lemma txStable_filled :
    TxStable EncoderProtocol fun ds p => NoneEmpty ds ∧ Filled ds p where
  protocol hG := hG.1.1
  init := ⟨txStable_noneEmpty.init, fun i hi => absurd hi (by simp [TxPhase.opened])⟩
  start {ds p index} hstart hindex h := by
    refine ⟨h.1, ?_⟩
    intro i hi hne
    rw [p.opened_start] at hi
    by_cases hu : p.user = some i
    · -- only an NTB with a datagram is taken from the user
      have hlen := hindex i hu
      intro hnil
      rw [hnil, List.length_nil] at hlen
      subst hlen
      exact hne (TxPhase.user_start_of_startable_zero hstart hu)
    · exact h.2 i hi hu
  accept {w p input size} hG hinput hfits hs hc h := by
    refine ⟨h.1, ?_⟩
    intro i hi hne
    by_cases hu : p.user = some i
    · exact placed_ne_nil_of_not_fits hs hc (hG.2 size hinput).2 hfits hu
    · refine h.2 i ?_ hu
      exact TxPhase.lt_opened_of_accept hi hne
  store {w input ds p i written size} hG hinput hlen hi h := by
    refine ⟨txStable_noneEmpty.store hG.1 hinput hlen hi h.1, ?_⟩
    intro j hj hne
    have hji : j ≠ i := by
      rintro rfl
      exact hne hi
    rw [Function.update_of_ne hji]
    exact h.2 j hj hne

/-- In every reachable state the NTBs in the hands of the user, waiting or in flight are
well-formed, and every NTB that was passed to `usb_transfer_ep` is well-formed, not empty, and
was passed with its length. -/
theorem tx_encoder {w : World} (hw : Reached EncoderProtocol w) :
    (∀ i, w.tx.txUserNtb = some i →
        WellFormed (w.tx.txNtb i) w.tx.txUserNtbDatagramIndex) ∧
      (∀ i, some i ∈ w.tx.txWaitNtb.ntbList ∨ w.tx.txUsbdNtb = some i →
        ∃ k, WellFormed (w.tx.txNtb i) k) ∧
      ∀ i data bytes ok, (i, data, bytes, ok) ∈ sentNtbs w.log →
        ∃ k, 1 ≤ k ∧ WellFormed data k ∧ bytes = wBlockLength data := by
  obtain ⟨p, hs, hc, -, hne, hfilled⟩ := TxInv.of_reached txStable_filled hw
  have hwell : ∀ i : NtbPtr, i < p.opened →
      WellFormed (w.tx.txNtb i) (datagramsIn i w.log).length :=
    fun i hi => (hc.encodes i hi).wellFormed (hne i)
  refine ⟨?_, ?_, ?_⟩
  · intro i hi
    have hi' := hs.user.symm.trans hi
    rw [hc.index i hi']
    exact hwell i (by have := TxPhase.user_add_one_eq_opened hi'; omega)
  · intro i hi
    rw [hs.state] at hi
    exact ⟨_, hwell i (TxPhase.lt_opened_of_held hi)⟩
  · intro i data bytes ok hsent
    rcases p.usbd_cases with hnone | hsome
    · rw [hs.unsent hnone] at hsent
      simp at hsent
    · obtain ⟨ok', hlog⟩ := hs.sent hsome
      rw [hlog, List.mem_singleton] at hsent
      cases hsent
      have hpos := TxPhase.opened_pos_of_usbd hsome
      have huser : p.user ≠ some 0 := fun h => TxPhase.user_ne_usbd h hsome
      exact ⟨_, List.length_pos_of_ne_nil (hfilled 0 hpos huser), hwell 0 hpos, rfl⟩

/-- In `threeDatagrams` an NTB is sent, with three entries in its table and the length of its
block. -/
theorem tx_encoder_threeDatagrams :
    (run step World.init threeDatagrams).tx.txUsbdNtb = some 0 ∧
      (∃ k, WellFormed ((run step World.init threeDatagrams).tx.txNtb 0) k) ∧
      ∀ i data bytes ok, (i, data, bytes, ok) ∈ sentNtbs (run step World.init threeDatagrams).log →
        ∃ k, 1 ≤ k ∧ WellFormed data k ∧ bytes = wBlockLength data := by
  have husbd : (run step World.init threeDatagrams).tx.txUsbdNtb = some 0 := rfl
  have hsizes : ∀ input ∈ threeDatagrams, ∀ size, input.1 = .netCanTx size →
      1 ≤ size.toNat ∧ size.toNat ≤ maxDatagramSize := by
    simp [threeDatagrams]
  have hrun : Along step EncoderProtocol World.init threeDatagrams :=
    along_and.2 ⟨along_threeDatagrams, along_iff_forall_mem.2 hsizes⟩
  obtain ⟨-, hheld, hsent⟩ := tx_encoder ⟨threeDatagrams, hrun, rfl⟩
  exact ⟨husbd, hheld 0 (Or.inr husbd), hsent⟩

end Fx3Ncm
