/-
# The answer of usb_transfer_ep

The driver moves NTBs from one holder to another according to the boolean that
`usb_transfer_ep` returns.  `TellsTruth` says what it may conclude from that answer, and
`transfer_truthful` says when this is the case: on the notification endpoint, unless a commit
fails.

The three endpoints take different paths.  The OUT endpoint is served as if it were an IN
endpoint: the NTB that is to be received is copied into a buffer of the IN channel, which is
much smaller, two bytes are committed, and the answer is `false`.  For the IN endpoint nothing
is done at all.
-/
import Fx3Ncm.App.Channels

namespace Fx3Ncm

/-! ### Channels as they are created -/

/-- The size of the buffers with which `CyFxAppStart` creates a channel. -/
def createdSize (channel : DmaChannel) : Option ℕ :=
  cyFxAppStart.findSome? fun
    | .dma (.create c _ size) => if c = channel then some size else none
    | _ => none

/-- The socket with which `CyFxAppStart` creates a channel. -/
def createdSocket (channel : DmaChannel) : Option Socket :=
  cyFxAppStart.findSome? fun
    | .dma (.create c socket _) => if c = channel then some socket else none
    | _ => none

/-- The channel is the one of the endpoint. -/
def BelongsTo (channel : DmaChannel) (ep : UInt8) : Prop :=
  createdSocket channel = endpointSocket ep

/-! ### What the driver may conclude -/

/-- The transfers that the driver asks for: the two notifications, whole NTBs on the OUT
endpoint, and blocks of any length on the IN endpoint. -/
def DriverTransfers (ep : UInt8) (bytes : ℕ) : Prop :=
  (ep = ncmEpNotify ∧ (bytes = notifySpeed.length ∨ bytes = notifyConnection.length)) ∨
    (ep = ncmEpDataOut ∧ bytes = ncmNtbMaxSize) ∨ (ep = ncmEpDataIn ∧ bytes < 2 ^ 16)

/-- One of the two attempts to get a buffer succeeds. -/
def SdkStatus.getsBuffer (status : SdkStatus) : Bool := status.getBuffer || status.getBufferAgain

/-- The transfers that were committed, as channel and byte count. -/
def committed (status : SdkStatus) (ops : List DmaOp) : List (DmaChannel × ℕ) :=
  ops.filterMap fun
    | .commitBuffer channel _ count => if status.commitBuffer then some (channel, count) else none
    | _ => none

/-- The copies into buffers of channels, as channel and byte count. -/
def copied (ops : List DmaOp) : List (DmaChannel × ℕ) :=
  ops.filterMap fun
    | .copy channel _ bytes => some (channel, bytes)
    | _ => none

/-- The answer of `usb_transfer_ep` is true exactly if the transfer has been committed on the
channel of the endpoint; after a refusal nothing has been committed, and a later call can
succeed; and no copy is longer than the buffer it goes to. -/
structure TellsTruth (ep : UInt8) (bytes : ℕ) (status : SdkStatus) : Prop where
  answer : (Firmware.usbTransferEp status ep bytes).1 = true ↔
    ∃ channel, BelongsTo channel ep ∧
      (channel, bytes) ∈ committed status (Firmware.usbTransferEp status ep bytes).2
  refused : (Firmware.usbTransferEp status ep bytes).1 = false →
    committed status (Firmware.usbTransferEp status ep bytes).2 = [] ∧
      ∃ status', (Firmware.usbTransferEp status' ep bytes).1 = true
  bounded : ∀ channel n, (channel, n) ∈ copied (Firmware.usbTransferEp status ep bytes).2 →
    ∃ size, createdSize channel = some size ∧ n ≤ size

section Transfer

variable (status : SdkStatus) (channel : DmaChannel) (ep : UInt8) (bytes count : ℕ)

lemma dmaTransfer_answer :
    (dmaTransfer status channel ep bytes count).1 = status.getsBuffer := by
  rw [dmaTransfer, SdkStatus.getsBuffer]
  cases status.getBuffer || status.getBufferAgain <;> rfl

/-- What is committed does not depend on the resets around it. -/
lemma committed_dmaTransfer :
    committed status (dmaTransfer status channel ep bytes count).2 =
      if status.getsBuffer ∧ status.commitBuffer then [(channel, count)] else [] := by
  obtain ⟨get, again, commit⟩ := status
  cases get <;> cases again <;> cases commit <;> rfl

lemma copied_dmaTransfer :
    copied (dmaTransfer status channel ep bytes count).2 =
      if status.getsBuffer then [(channel, bytes)] else [] := by
  obtain ⟨get, again, commit⟩ := status
  cases get <;> cases again <;> cases commit <;> rfl

end Transfer

section Endpoints

variable {bytes : ℕ} {status : SdkStatus}

lemma usbTransferEp_notify :
    Firmware.usbTransferEp status ncmEpNotify bytes =
      dmaTransfer status .notifier ncmEpNotify bytes bytes := rfl

/-- On the notification endpoint the answer is right unless a commit fails. -/
lemma tellsTruth_notify (hbytes : bytes ≤ 16) : TellsTruth ncmEpNotify bytes status ↔
    (status.getsBuffer = true → status.commitBuffer = true) := by
  constructor
  · rintro ⟨hanswer, -, -⟩ hget
    rw [usbTransferEp_notify, dmaTransfer_answer, committed_dmaTransfer] at hanswer
    obtain ⟨channel, -, hmem⟩ := hanswer.1 hget
    by_contra hcommit
    rw [if_neg fun h => hcommit h.2] at hmem
    exact absurd hmem List.not_mem_nil
  · intro hcommit
    refine ⟨?_, ?_, ?_⟩
    · rw [usbTransferEp_notify, dmaTransfer_answer, committed_dmaTransfer]
      constructor
      · intro hget
        refine ⟨.notifier, rfl, ?_⟩
        rw [if_pos ⟨hget, hcommit hget⟩]
        exact List.mem_singleton.2 rfl
      · rintro ⟨channel, -, hmem⟩
        by_contra hget
        rw [if_neg fun h => hget h.1] at hmem
        exact absurd hmem List.not_mem_nil
    · intro hrefused
      rw [usbTransferEp_notify, dmaTransfer_answer] at hrefused
      rw [usbTransferEp_notify, committed_dmaTransfer, if_neg (by simp [hrefused])]
      exact ⟨rfl, .success, rfl⟩
    · intro channel n hmem
      rw [usbTransferEp_notify, copied_dmaTransfer] at hmem
      split_ifs at hmem with hget
      · obtain ⟨rfl, rfl⟩ : channel = .notifier ∧ n = bytes := by simpa using hmem
        exact ⟨16, rfl, hbytes⟩
      · exact absurd hmem List.not_mem_nil

/-- On the two data endpoints the answer is never `true`, so that no retry can succeed. -/
lemma not_tellsTruth_of_ne {ep : UInt8} (hep : ep ≠ ncmEpNotify) :
    ¬ TellsTruth ep bytes status := by
  have hrefused : ∀ status, (Firmware.usbTransferEp status ep bytes).1 = false := by
    intro status
    rw [Firmware.usbTransferEp, if_neg hep]
    split_ifs <;> rfl
  rintro ⟨-, h, -⟩
  obtain ⟨-, status', hok⟩ := h (hrefused status)
  rw [hrefused status'] at hok
  exact absurd hok (by decide)

end Endpoints

/-- For every transfer that the driver asks for and all answers of the SDK, `usb_transfer_ep`
tells the truth exactly if the endpoint is the one for notifications and no commit fails after a
buffer has been obtained. -/
theorem transfer_truthful {ep : UInt8} {bytes : ℕ} (h : DriverTransfers ep bytes)
    (status : SdkStatus) : TellsTruth ep bytes status ↔
      ep = ncmEpNotify ∧ (status.getsBuffer = true → status.commitBuffer = true) := by
  by_cases hep : ep = ncmEpNotify
  · subst hep
    have hbytes : bytes ≤ 16 := by
      rcases h with ⟨-, rfl | rfl⟩ | ⟨h, -⟩ | ⟨h, -⟩
      · decide
      · decide
      · exact absurd h (by decide)
      · exact absurd h (by decide)
    rw [tellsTruth_notify hbytes]
    simp
  · refine iff_of_false (not_tellsTruth_of_ne hep) fun h => hep h.1

/-- The speed notification is sent although the first attempt to get a buffer fails. -/
theorem transfer_truthful_again :
    DriverTransfers ncmEpNotify 16 ∧ TellsTruth ncmEpNotify 16 ⟨false, true, true⟩ := by
  have h : DriverTransfers ncmEpNotify 16 := Or.inl ⟨rfl, Or.inl rfl⟩
  exact ⟨h, (transfer_truthful h _).2 ⟨rfl, fun _ => rfl⟩⟩

/-- To receive an NTB, 3200 bytes are copied into a buffer of 512 bytes of the IN channel and
two of them are committed, and the answer is that nothing has been done. -/
theorem transfer_truthful_fails :
    DriverTransfers ncmEpDataOut ncmNtbMaxSize ∧
      copied (Firmware.usbTransferEp .success ncmEpDataOut ncmNtbMaxSize).2 = [(.bulkSink, 3200)] ∧
      committed .success (Firmware.usbTransferEp .success ncmEpDataOut ncmNtbMaxSize).2 =
        [(.bulkSink, 2)] ∧
      ¬ TellsTruth ncmEpDataOut ncmNtbMaxSize .success := by
  refine ⟨Or.inr (Or.inl ⟨rfl, rfl⟩), rfl, rfl, ?_⟩
  rintro ⟨-, -, hbounded⟩
  obtain ⟨size, hsize, hle⟩ := hbounded .bulkSink 3200 (List.mem_singleton.2 rfl)
  have hcreated : createdSize .bulkSink = some 512 := rfl
  obtain rfl : 512 = size := Option.some.inj (hcreated.symm.trans hsize)
  exact absurd hle (by decide)

end Fx3Ncm
