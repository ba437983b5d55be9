/-
# The record of a run

Projections of the record `World.log`, and what the functions of one direction of the
driver do to the other.  A function of the OUT direction leaves the IN direction as it is
and records only calls of the OUT direction (`TxQuiet`), and the other way round
(`RxQuiet`); properties of one direction are therefore carried across the functions of the
other without looking at them.
-/
import Fx3Ncm.Ncm.Ntb16

namespace Fx3Ncm

open ByteMemory

/-! ### Transfers that have been started and not yet completed -/

/-- The number of pending transfers of an endpoint after one more call. -/
def pendingStep (epAddr : UInt8) (n : ℕ) : Call → ℕ
  | .usbTransferEp ep _ _ ok => if ep = epAddr ∧ ok then n + 1 else n
  | .netUsbTransfer ep _ _ => if ep = epAddr then n - 1 else n
  | _ => n

/-- The number of transfers of an endpoint that `usb_transfer_ep` has started and that have
not been reported to `net_usb_transfer`. -/
def pending (epAddr : UInt8) (log : List Call) : ℕ := log.foldl (pendingStep epAddr) 0

@[simp] lemma pending_append_singleton (epAddr : UInt8) (log : List Call) (c : Call) :
    pending epAddr (log ++ [c]) = pendingStep epAddr (pending epAddr log) c := by
  simp [pending]

lemma pending_append_of_step_eq {epAddr : UInt8} {log cs : List Call}
    (h : ∀ c ∈ cs, ∀ n, pendingStep epAddr n c = n) :
    pending epAddr (log ++ cs) = pending epAddr log := by
  induction cs using List.reverseRecOn with
  | nil => rw [List.append_nil]
  | append_singleton cs c ih =>
    rw [← List.append_assoc, pending_append_singleton, h c (by simp),
      ih fun c' hc' => h c' (by simp [hc'])]

/-- A completion of an endpoint is reported only for a transfer that was started and has not
been reported yet. -/
def CompletesPending (epAddr : UInt8) (w : World) (input : Input) : Prop :=
  ∀ bytes, input.1 = .netUsbTransfer epAddr bytes → 0 < pending epAddr w.log

/-! ### Histories of the IN direction -/

/-- The datagrams stored by `net_tx`. -/
def storedDatagrams (log : List Call) : List (List UInt8) :=
  log.filterMap fun
    | .netTxCb _ _ written => some written
    | _ => none

/-- The sequence numbers of the NTBs opened by `tx_accept_user_ntb`, in order of opening. -/
def openedSequences (log : List Call) : List ℕ :=
  log.filterMap fun
    | .openNtb _ sequence => some sequence
    | _ => none

/-- The NTBs passed to `usb_transfer_ep` for the IN endpoint, with their bytes at that time,
the byte count passed and the answer. -/
def sentNtbs (log : List Call) : List (NtbPtr × Mem × ℕ × Bool) :=
  log.filterMap fun
    | .usbTransferEp ep (.txNtb i data) bytes ok =>
      if ep = ncmEpDataIn then some (i, data, bytes, ok) else none
    | _ => none

/-- A call that hands no NTB to USB. -/
lemma sentNtbs_record {c : Call} (hc : sentNtbs [c] = []) (log : List Call) :
    sentNtbs (log ++ [c]) = sentNtbs log := by
  rw [sentNtbs] at hc
  rw [sentNtbs, List.filterMap_append, hc, List.append_nil]
  rfl

/-- The bytes of the NTBs passed to `usb_transfer_ep` for the IN endpoint. -/
def sentBlocks (log : List Call) : List Mem := (sentNtbs log).map fun s => s.2.1

/-- The datagrams of an NTB after one more call. -/
def datagramsInStep (i : NtbPtr) (ds : List (List UInt8)) : Call → List (List UInt8)
  | .openNtb i' _ => if i' = i then [] else ds
  | .netTxCb i' _ written => if i' = i then ds ++ [written] else ds
  | _ => ds

/-- The datagrams that `net_tx` has placed into `tx_ntb[i]` since it was last opened. -/
def datagramsIn (i : NtbPtr) (log : List Call) : List (List UInt8) :=
  log.foldl (datagramsInStep i) []

@[simp] lemma datagramsIn_append_singleton (i : NtbPtr) (log : List Call) (c : Call) :
    datagramsIn i (log ++ [c]) = datagramsInStep i (datagramsIn i log) c := by
  simp [datagramsIn]

/-! ### Calls of one direction -/

/-- Calls that leave no trace in the histories of the IN direction. -/
def Call.NotTx : Call → Prop
  | .usbTransferEp ep _ _ _ => ep ≠ ncmEpDataIn
  | .netTxCb _ _ _ => False
  | .openNtb _ _ => False
  | .netUsbTransfer ep _ _ => ep ≠ ncmEpDataIn
  | _ => True

/-- Calls that leave no trace in the histories of the OUT direction. -/
def Call.NotRx : Call → Prop
  | .usbTransferEp ep _ _ _ => ep ≠ ncmEpDataOut
  | .netRxCb _ _ _ _ _ => False
  | .ndpEntry _ _ => False
  | .pushNtb list _ _ => list ≠ .rxFree
  | .netUsbTransfer ep _ _ => ep ≠ ncmEpDataOut
  | _ => True

/-- The record `l'` continues the record `l` with calls that satisfy `Q`. -/
def Continues (Q : Call → Prop) (l l' : List Call) : Prop := ∃ cs, l' = l ++ cs ∧ ∀ c ∈ cs, Q c

namespace Continues

variable {Q : Call → Prop} {l l' l'' : List Call}

lemma refl (l : List Call) : Continues Q l l := ⟨[], by simp, by simp⟩

lemma single {c : Call} (hc : Q c) : Continues Q l (l ++ [c]) := ⟨[c], rfl, by simpa using hc⟩

lemma trans (h : Continues Q l l') (h' : Continues Q l' l'') : Continues Q l l'' := by
  obtain ⟨cs, rfl, hQ⟩ := h
  obtain ⟨cs', rfl, hQ'⟩ := h'
  refine ⟨cs ++ cs', by rw [List.append_assoc], ?_⟩
  intro c hc
  rcases List.mem_append.1 hc with hc | hc
  · exact hQ c hc
  · exact hQ' c hc

lemma mono {Q' : Call → Prop} (h : Continues Q l l') (hQ : ∀ c, Q c → Q' c) :
    Continues Q' l l' := by
  obtain ⟨cs, hl, hcs⟩ := h
  exact ⟨cs, hl, fun c hc => hQ c (hcs c hc)⟩

/-- A projection that ignores the calls recorded is unchanged. -/
lemma filterMap_eq {γ : Type} {g : Call → Option γ} (h : Continues Q l l')
    (hg : ∀ c, Q c → g c = none) : l'.filterMap g = l.filterMap g := by
  obtain ⟨cs, rfl, hQ⟩ := h
  have hnil : cs.filterMap g = [] := List.filterMap_eq_nil_iff.2 fun c hc => hg c (hQ c hc)
  rw [List.filterMap_append, hnil, List.append_nil]

/-- A fold that ignores the calls recorded is unchanged. -/
lemma foldl_eq {γ : Type} {g : γ → Call → γ} {a : γ} (h : Continues Q l l')
    (hg : ∀ c, Q c → ∀ x, g x c = x) : l'.foldl g a = l.foldl g a := by
  obtain ⟨cs, rfl, hQ⟩ := h
  rw [List.foldl_append]
  generalize l.foldl g a = x
  induction cs with
  | nil => rfl
  | cons c cs ih =>
    rw [List.foldl_cons, hg c (hQ c (by simp)) x]
    exact ih fun c' hc' => hQ c' (by simp [hc'])

section Tx

variable (h : Continues Call.NotTx l l')
include h

lemma stored : storedDatagrams l' = storedDatagrams l :=
  h.filterMap_eq fun c hc => by cases c <;> first | rfl | exact absurd hc id

lemma opened : openedSequences l' = openedSequences l :=
  h.filterMap_eq fun c hc => by cases c <;> first | rfl | exact absurd hc id

lemma sent : sentNtbs l' = sentNtbs l := by
  refine h.filterMap_eq fun c hc => ?_
  cases c with
  | usbTransferEp ep buffer bytes ok => cases buffer <;> first | rfl | exact if_neg hc
  | _ => rfl

lemma placed (i : NtbPtr) : datagramsIn i l' = datagramsIn i l :=
  h.foldl_eq fun c hc x => by cases c <;> first | rfl | exact absurd hc id

lemma pendingIn : pending ncmEpDataIn l' = pending ncmEpDataIn l := by
  refine h.foldl_eq fun c hc n => ?_
  cases c with
  | usbTransferEp ep buffer bytes ok => exact if_neg fun h' => hc h'.1
  | netUsbTransfer ep bytes block => exact if_neg hc
  | _ => rfl

end Tx

lemma pendingOut (h : Continues Call.NotRx l l') :
    pending ncmEpDataOut l' = pending ncmEpDataOut l := by
  refine h.foldl_eq fun c hc n => ?_
  cases c with
  | usbTransferEp ep buffer bytes ok => exact if_neg fun h' => hc h'.1
  | netUsbTransfer ep bytes block => exact if_neg hc
  | _ => rfl

end Continues

/-- Nothing but calls that satisfy `Q` was recorded, and the part `f` of the world is the same. -/
structure Quiet {β : Type} (f : World → β) (Q : Call → Prop) (w w' : World) : Prop where
  same : f w' = f w
  calls : Continues Q w.log w'.log

namespace Quiet

variable {β : Type} {f : World → β} {Q : Call → Prop} {w w' w'' : World}

lemma refl (w : World) : Quiet f Q w w := ⟨rfl, .refl _⟩

lemma trans (h : Quiet f Q w w') (h' : Quiet f Q w' w'') : Quiet f Q w w'' :=
  ⟨h'.same.trans h.same, h.calls.trans h'.calls⟩

/-- Less is the same, or more calls are allowed. -/
lemma weaken {γ : Type} (g : β → γ) {Q' : Call → Prop} (h : Quiet f Q w w')
    (hQ : ∀ c, Q c → Q' c) : Quiet (fun w => g (f w)) Q' w w' :=
  ⟨congrArg g h.same, h.calls.mono hQ⟩

/-- A step that records nothing. -/
lemma of_log_eq (hf : f w' = f w) (hlog : w'.log = w.log) : Quiet f Q w w' :=
  ⟨hf, by rw [hlog]; exact .refl _⟩

/-- A step that records one call. -/
lemma of_log_append {c : Call} (hf : f w' = f w) (hlog : w'.log = w.log ++ [c]) (hc : Q c) :
    Quiet f Q w w' :=
  ⟨hf, by rw [hlog]; exact .single hc⟩

end Quiet

/-- The IN direction and its histories are not touched. -/
abbrev TxQuiet : World → World → Prop := Quiet (fun w => w.tx) Call.NotTx

/-- The OUT direction and its histories are not touched. -/
abbrev RxQuiet : World → World → Prop := Quiet (fun w => w.rx) Call.NotRx

/-! ### What an offer records -/

section Offer

variable (env : Env) (i : NtbPtr) (w : World)

/-- The calls recorded when the datagram of entry `j` of the block `m` in `rx_ntb[i]` is
offered and `net_rx_cb` answers `ok`. -/
def offerCalls (i : NtbPtr) (m : Mem) (j : ℕ) (ok : Bool) : List Call :=
  [.ndpEntry i (ndp16DatagramOffset m + 4 * j),
    .netRxCb i (wDatagramIndex m (ndp16DatagramOffset m) j)
      (wDatagramLength m (ndp16DatagramOffset m) j) (entryDatagram m j) ok]

/-- Record the offer of the current datagram, and the look at the entry after it if the
datagram is taken. -/
def recordOffer (ok : Bool) : World :=
  let m := w.rx.rxNtb i
  let j := w.rx.rxUserNtbDatagramIndex
  { w with log := w.log ++ offerCalls i m j ok ++
      if ok then [.ndpEntry i (ndp16DatagramOffset m + 4 * (j + 1))] else [] }

/-- A refused datagram stays the current one. -/
lemma rxOfferDatagram_of_refused (h : env.netRxCb = false) :
    rxOfferDatagram env i w = (true, recordOffer i w false) := by
  simp [rxOfferDatagram, recordOffer, offerCalls, World.record, h, entryDatagram]

/-- After a datagram that is taken the cursor moves on when the next entry is used. -/
lemma rxOfferDatagram_of_used (h : env.netRxCb = true)
    (hused : EntryUsed (w.rx.rxNtb i) (w.rx.rxUserNtbDatagramIndex + 1)) :
    rxOfferDatagram env i w = (true, (recordOffer i w true).setRx { w.rx with
      rxUserNtbDatagramIndex := (w.rx.rxUserNtbDatagramIndex + 1) % 2 ^ 16 }) := by
  rw [EntryUsed] at hused
  simp [rxOfferDatagram, recordOffer, offerCalls, World.record, World.setRx, h, hused,
    entryDatagram]

/-- After the last datagram the NTB is pushed to `rx_free_ntb`. -/
lemma rxOfferDatagram_of_last (h : env.netRxCb = true)
    (hlast : ¬ EntryUsed (w.rx.rxNtb i) (w.rx.rxUserNtbDatagramIndex + 1)) :
    rxOfferDatagram env i w = pushRxFree w.rx.rxUserNtb (recordOffer i w true) := by
  rw [EntryUsed] at hlast
  simp [rxOfferDatagram, recordOffer, offerCalls, World.record, h, hlast, entryDatagram]

/-- The calls that are recorded when datagrams are offered. -/
def Call.IsOffer : Call → Prop
  | .netRxCb _ _ _ _ _ | .ndpEntry _ _ => True
  | .pushNtb list _ _ => list = .rxFree
  | _ => False

/-- Nothing but the OUT direction is changed, and only offers are recorded. -/
abbrev OfferQuiet : World → World → Prop :=
  Quiet (fun w => (w.tx, w.interfaceActive, w.notificationState)) Call.IsOffer

lemma isOffer_of_mem_offerCalls {m : Mem} {j : ℕ} {ok : Bool} {c : Call}
    (hc : c ∈ offerCalls i m j ok) : c.IsOffer := by
  simp only [offerCalls, List.mem_cons, List.not_mem_nil, or_false] at hc
  rcases hc with rfl | rfl <;> trivial

lemma offerQuiet_recordOffer (ok : Bool) : OfferQuiet w (recordOffer i w ok) := by
  refine ⟨rfl, _, List.append_assoc _ _ _, ?_⟩
  intro c hc
  rcases List.mem_append.1 hc with hc | hc
  · exact isOffer_of_mem_offerCalls i hc
  · cases ok with
    | false => simp at hc
    | true =>
      rw [if_pos rfl, List.mem_singleton] at hc
      subst hc
      trivial

lemma offerQuiet_rxFetchUserNtb : OfferQuiet w (rxFetchUserNtb w) := by
  unfold rxFetchUserNtb
  split
  · exact .of_log_eq rfl rfl
  · exact .refl w

lemma offerQuiet_rxOfferDatagram : OfferQuiet w (rxOfferDatagram env i w).2 := by
  cases h : env.netRxCb with
  | false =>
    rw [rxOfferDatagram_of_refused env i w h]
    exact offerQuiet_recordOffer i w false
  | true =>
    by_cases hused : EntryUsed (w.rx.rxNtb i) (w.rx.rxUserNtbDatagramIndex + 1)
    · rw [rxOfferDatagram_of_used env i w h hused]
      exact (offerQuiet_recordOffer i w true).trans (.of_log_eq rfl rfl)
    · rw [rxOfferDatagram_of_last env i w h hused]
      exact (offerQuiet_recordOffer i w true).trans (.of_log_append rfl rfl rfl)

lemma offerQuiet_rxUpdateUserNtb : OfferQuiet w (rxUpdateUserNtb env w).2 := by
  refine Quiet.trans (offerQuiet_rxFetchUserNtb w) ?_
  unfold rxUpdateUserNtb
  dsimp only
  split
  · exact .refl _
  · exact offerQuiet_rxOfferDatagram env _ _

end Offer

/-! ### What a completion of an IN transfer does -/

lemma netDataIn_eq (env : Env) (bytes : UInt16) (w : World) :
    netDataIn env bytes w =
      if bytes.toNat = 0 ∨ bytes.toNat % ncmEpSize ≠ 0 then
        (txTryStart env (pushRxFree w.rx.rxUsbdNtb w).2).2
      else (pushRxFree w.rx.rxUsbdNtb w).2.record
        (.usbTransferEp ncmEpDataIn .null 0 (env.usbTransferEp ncmEpDataIn .null 0)) := by
  by_cases hz : bytes.toNat = 0 ∨ bytes.toNat % ncmEpSize ≠ 0
  · have hzlp : ∀ w, txInsertZlp env bytes w = (false, w) := fun w => if_pos hz
    rw [if_pos hz, netDataIn, hzlp]
    rfl
  · have hzlp : ∀ w, txInsertZlp env bytes w =
        (true, (usbTransferEp env ncmEpDataIn .null 0 w).2) := fun w => if_neg hz
    rw [if_neg hz, netDataIn, hzlp]
    rfl

/-! ### The functions of the OUT direction leave the IN direction alone -/

section TxQuiet

variable (env : Env) (w : World)

lemma txQuiet_pushRxFree (ntb : Option NtbPtr) : TxQuiet w (pushRxFree ntb w).2 :=
  .of_log_append rfl rfl trivial

lemma txQuiet_pushRxWait (ntb : Option NtbPtr) : TxQuiet w (pushRxWait ntb w).2 :=
  .of_log_append rfl rfl trivial

lemma txQuiet_usbTransferEp {ep : UInt8} (hep : ep ≠ ncmEpDataIn) (buffer : Buffer) (bytes : ℕ) :
    TxQuiet w (usbTransferEp env ep buffer bytes w).2 :=
  .of_log_append rfl rfl hep

lemma txQuiet_rxUpdateUserNtb : TxQuiet w (rxUpdateUserNtb env w).2 := by
  refine (offerQuiet_rxUpdateUserNtb env w).weaken (fun x => x.1) fun c hc => ?_
  cases c <;> trivial

lemma txQuiet_rxTryStart : TxQuiet w (rxTryStart env w).2 := by
  unfold rxTryStart
  dsimp only
  split_ifs with h₁ h₂ h₃
  · exact .refl w
  · exact .refl w
  · exact .refl w
  · split
    · exact .of_log_eq rfl rfl
    · split_ifs
      · exact .of_log_append rfl rfl (by simp [Call.NotTx])
      · refine Quiet.trans ?_ (txQuiet_pushRxFree _ _)
        exact .of_log_append rfl rfl (by simp [Call.NotTx])

lemma txQuiet_netRxRenew : TxQuiet w (netRxRenew env w) :=
  (txQuiet_rxUpdateUserNtb env w).trans (txQuiet_rxTryStart env _)

lemma txQuiet_txNotification (forceNext : Bool) : TxQuiet w (txNotification env forceNext w) := by
  unfold txNotification
  split_ifs
  · exact .refl w
  · have h₁ := txQuiet_usbTransferEp env { w with notificationState := .speedChange }
      (show ncmEpNotify ≠ _ by decide) (.message notifySpeed) notifySpeed.length
    have h₂ := h₁.trans (txQuiet_usbTransferEp env _ (show ncmEpNotify ≠ _ by decide)
      (.message notifyConnection) notifyConnection.length)
    exact ⟨h₂.same, h₂.calls⟩
  · exact .of_log_eq rfl rfl
  · exact .refl w

lemma txQuiet_netDataOut (bytes : UInt16) : TxQuiet w (netDataOut bytes w) :=
  txQuiet_pushRxWait w _

lemma txQuiet_netUsbTransfer {ep : UInt8} (hep : ep ≠ ncmEpDataIn) (bytes : UInt16) :
    TxQuiet w (netUsbTransfer env ep bytes w) := by
  have hrecord : TxQuiet w (recordCompletion ep bytes w) := .of_log_append rfl rfl hep
  refine hrecord.trans ?_
  unfold netUsbTransfer
  dsimp only
  split_ifs
  · exact (txQuiet_netDataOut _ bytes).trans (txQuiet_netRxRenew env _)
  · exact txQuiet_txNotification env _ true
  · exact .refl _

lemma txQuiet_netUsbControlTransfer (request : UsbControlRequest) :
    TxQuiet w (netUsbControlTransfer env request w).2 := by
  have hset : ∀ v, TxQuiet w (setInterface env v w) := by
    intro v
    unfold setInterface
    dsimp only
    split_ifs
    · have hactive : TxQuiet w { w with interfaceActive := v.toNat % 2 ^ 8 } := .of_log_eq rfl rfl
      refine hactive.trans ?_
      exact (txQuiet_rxUpdateUserNtb env _).trans
        ((txQuiet_txNotification env _ false).trans (.of_log_append rfl rfl trivial))
    · exact .of_log_append rfl rfl (c := .usbControlStatus) trivial
  unfold netUsbControlTransfer
  split_ifs
  · exact .of_log_append rfl rfl trivial
  · exact hset _
  · exact .refl w
  · exact .of_log_append rfl rfl trivial
  · exact .refl w
  · exact .refl w

lemma txQuiet_usbWrite (block : Mem) : TxQuiet w (usbWrite block w) := by
  unfold usbWrite
  split
  · exact .refl w
  · exact .of_log_eq rfl rfl

/-- The entry points that can change the IN direction. -/
def Event.TouchesTx : Event → Prop
  | .netCanTx _ | .netTx _ _ => True
  | .netUsbTransfer ep _ => ep = ncmEpDataIn
  | _ => False

lemma txQuiet_step {input : Input} (h : ¬ input.1.TouchesTx) : TxQuiet w (step w input) := by
  have hq : TxQuiet (perform w input) (step w input) := .of_log_eq rfl rfl
  refine Quiet.trans ?_ hq
  obtain ⟨event, env⟩ := input
  cases event with
  | netCanTx size => exact absurd trivial h
  | netTx written size => exact absurd trivial h
  | netRxRenew => exact txQuiet_netRxRenew env w
  | rxUpdateUserNtb => exact txQuiet_rxUpdateUserNtb env w
  | netUsbTransfer ep bytes => exact txQuiet_netUsbTransfer env w h bytes
  | netUsbControlTransfer request => exact txQuiet_netUsbControlTransfer env w request
  | usbWrite block => exact txQuiet_usbWrite w block

end TxQuiet

/-! ### The functions of the IN direction leave the OUT direction alone -/

section RxQuiet

variable (env : Env) (w : World)

lemma rxQuiet_usbTransferEp {ep : UInt8} (hep : ep ≠ ncmEpDataOut) (buffer : Buffer) (bytes : ℕ) :
    RxQuiet w (usbTransferEp env ep buffer bytes w).2 :=
  .of_log_append rfl rfl hep

lemma rxQuiet_txNotification (forceNext : Bool) : RxQuiet w (txNotification env forceNext w) := by
  unfold txNotification
  split_ifs
  · exact .refl w
  · have h₁ := rxQuiet_usbTransferEp env { w with notificationState := .speedChange }
      (show ncmEpNotify ≠ _ by decide) (.message notifySpeed) notifySpeed.length
    have h₂ := h₁.trans (rxQuiet_usbTransferEp env _ (show ncmEpNotify ≠ _ by decide)
      (.message notifyConnection) notifyConnection.length)
    exact ⟨h₂.same, h₂.calls⟩
  · exact .of_log_eq rfl rfl
  · exact .refl w

lemma rxQuiet_txOpenUserNtb : RxQuiet w (txOpenUserNtb w).2 := by
  unfold txOpenUserNtb
  dsimp only
  split
  · exact .of_log_eq rfl rfl
  · exact .of_log_append rfl rfl trivial

lemma rxQuiet_txAcceptUserNtb : RxQuiet w (txAcceptUserNtb w).2 := by
  have hpush : RxQuiet w (pushTxWait w.tx.txUserNtb w).2 :=
    .of_log_append rfl rfl (by simp [Call.NotRx])
  unfold txAcceptUserNtb
  dsimp only
  split_ifs
  · exact hpush.trans (rxQuiet_txOpenUserNtb _)
  · exact hpush
  · exact rxQuiet_txOpenUserNtb w

lemma rxQuiet_txStartTransfer : RxQuiet w (txStartTransfer env w).2 := by
  unfold txStartTransfer
  split
  · exact .refl w
  · exact rxQuiet_usbTransferEp env w (by decide) _ _

lemma rxQuiet_txTryStart : RxQuiet w (txTryStart env w).2 := by
  unfold txTryStart
  dsimp only
  split_ifs
  · exact .refl w
  · exact .refl w
  · exact .refl w
  · exact .of_log_eq rfl rfl
  · refine Quiet.trans ?_ (rxQuiet_txStartTransfer env _)
    exact .of_log_eq rfl rfl
  · refine Quiet.trans ?_ (rxQuiet_txStartTransfer env _)
    exact .of_log_eq rfl rfl

lemma rxQuiet_netCanTx (size : UInt16) : RxQuiet w (netCanTx env size w).2 := by
  unfold netCanTx
  dsimp only
  split_ifs
  · exact .refl w
  · exact rxQuiet_txAcceptUserNtb w
  · exact (rxQuiet_txAcceptUserNtb w).trans (rxQuiet_txTryStart env _)

lemma rxQuiet_netTx (written : List UInt8) (size : UInt16) :
    RxQuiet w (netTx env written size w) := by
  unfold netTx
  dsimp only
  split
  · exact .refl w
  · split_ifs
    · exact .of_log_append rfl rfl trivial
    · refine Quiet.trans ?_ (rxQuiet_txTryStart env _)
      exact .of_log_append rfl rfl trivial

end RxQuiet

end Fx3Ncm
