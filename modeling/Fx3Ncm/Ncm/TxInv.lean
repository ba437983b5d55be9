/-
# Invariants of the IN direction

Two invariants of all runs.  `TxShape w p` needs no assumption about the callers: the
holders are those of the phase `p`, and `tx_usbd_ntb` tells exactly what has been handed to
USB.  `TxContent w p` needs the caller protocol of `net_can_tx` and `net_tx`: every opened
NTB encodes the datagrams that were placed into it.

A step changes the IN direction by a few elementary moves: an NTB is opened, a datagram is
stored, an NTB is handed to USB, a transfer is recorded.  `step_rule` says so once, and each
invariant has one lemma for each move.
-/
import Fx3Ncm.Ncm.TxPhase

namespace Fx3Ncm

open ByteMemory Runs

/-- The largest datagram that fits into an empty NTB. -/
@[simp, reducible] def maxDatagramSize : ℕ := ncmNtbMaxSize - sizeofNtbHeader

/-- The caller protocol: `net_tx` is called only after `net_can_tx` returned `true` for a size
that fits, with no call of these two functions between, and `net_tx_cb` writes exactly that
many bytes and returns their number. -/
def TxProtocol (w : World) (input : Input) : Prop :=
  match input.1 with
  | .netTx written size =>
    w.admitted = some size ∧ size.toNat ≤ maxDatagramSize ∧ written.length = size.toNat
  | _ => True

/-! ### The moves of a step -/

section Moves

variable {w : World}

lemma netCanTx_of_fits (env : Env) {size : UInt16} (h : txDatagramFitsUserNtb size w = true) :
    netCanTx env size w = (true, w) := by
  rw [netCanTx, if_pos h]

lemma netCanTx_of_accepts (env : Env) {size : UInt16} (h : ¬ txDatagramFitsUserNtb size w = true)
    (haccept : (txAcceptUserNtb w).1 = true) :
    netCanTx env size w = (true, (txAcceptUserNtb w).2) := by
  rw [netCanTx, if_neg h]
  exact if_pos haccept

lemma netCanTx_of_refuses (env : Env) {size : UInt16} (h : ¬ txDatagramFitsUserNtb size w = true)
    (haccept : ¬ (txAcceptUserNtb w).1 = true) :
    netCanTx env size w = (false, (txTryStart env (txAcceptUserNtb w).2).2) := by
  rw [netCanTx, if_neg h]
  exact if_neg haccept

/-- What a step can do to the IN direction.  A property that survives each of these moves
survives the step. -/
lemma step_rule {I : World → Prop} {input : Input} (hw : I w)
    (quiet : ∀ {w w' : World}, TxQuiet w w' → I w → I w')
    (complete : ∀ bytes, input.1 = .netUsbTransfer ncmEpDataIn bytes →
      I (recordCompletion ncmEpDataIn bytes w))
    (zlp : ∀ {w : World} (bytes : UInt16) (ok : Bool),
      input.1 = .netUsbTransfer ncmEpDataIn bytes → I w →
      I (w.record (.usbTransferEp ncmEpDataIn .null 0 ok)))
    (start : ∀ {w : World} (env : Env), I w → I (txTryStart env w).2)
    (accept : ∀ size, input.1 = .netCanTx size → ¬ txDatagramFitsUserNtb size w = true →
      I (txAcceptUserNtb w).2)
    (store : ∀ i written size, input.1 = .netTx written size → w.tx.txUserNtb = some i →
      I (txStoreDatagram i written size.toNat w)) :
    I (step w input) := by
  by_cases htouch : input.1.TouchesTx
  · -- `admitted` belongs to the run and not to the driver
    have hq : TxQuiet (perform w input) (step w input) := .of_log_eq rfl rfl
    refine quiet hq ?_
    obtain ⟨event, env⟩ := input
    cases event with
    | netCanTx size =>
      change I (netCanTx env size w).2
      by_cases hfits : txDatagramFitsUserNtb size w = true
      · rw [netCanTx_of_fits env hfits]
        exact hw
      · by_cases haccept : (txAcceptUserNtb w).1 = true
        · rw [netCanTx_of_accepts env hfits haccept]
          exact accept size rfl hfits
        · rw [netCanTx_of_refuses env hfits haccept]
          exact start env (accept size rfl hfits)
    | netTx written size =>
      change I (netTx env written size w)
      unfold netTx
      cases hi : w.tx.txUserNtb with
      | none => exact hw
      | some i =>
        dsimp only
        split_ifs
        · exact store i written size rfl hi
        · exact start env (store i written size rfl hi)
    | netUsbTransfer ep bytes =>
      obtain rfl : ep = ncmEpDataIn := htouch
      -- the completion pushes an NTB of the OUT direction, which is quiet here
      have hpush := quiet (txQuiet_pushRxFree _ w.rx.rxUsbdNtb) (complete bytes rfl)
      change I (netDataIn env bytes (recordCompletion ncmEpDataIn bytes w))
      rw [netDataIn_eq]
      split_ifs
      · exact start env hpush
      · exact zlp bytes _ rfl hpush
    | _ => exact absurd htouch id
  · exact quiet (txQuiet_step w htouch) hw

end Moves

/-! ### The holders -/

/-- The holders of the IN direction are those of phase `p`, and `tx_ntb[0]` is the one NTB
that was handed to USB, if any; its bytes are still those it had then. -/
structure TxShape (w : World) (p : TxPhase) : Prop where
  state : w.tx = p.state w.tx.txNtb w.tx.txUserNtbDatagramIndex w.tx.txSeqCount
  unsent : p.usbd = none → sentNtbs w.log = []
  sent : p.usbd = some 0 → ∃ ok,
    sentNtbs w.log = [(0, w.tx.txNtb 0, wBlockLength (w.tx.txNtb 0), ok)]

namespace TxShape

variable {w w' : World} {p : TxPhase}

lemma user (h : TxShape w p) : w.tx.txUserNtb = p.user := by rw [h.state]; rfl

lemma usbd (h : TxShape w p) : w.tx.txUsbdNtb = p.usbd := by rw [h.state]; rfl

lemma init : TxShape World.init .idle where
  state := rfl
  unsent _ := rfl
  sent h := absurd h (by decide)

lemma quiet (h : TxShape w p) (hq : TxQuiet w w') : TxShape w' p := by
  have htx : w'.tx = w.tx := hq.same
  refine ⟨?_, ?_, ?_⟩
  · rw [htx]
    exact h.state
  · rw [hq.calls.sent]
    exact h.unsent
  · rw [hq.calls.sent, htx]
    exact h.sent

/-- Recording a call that hands no NTB to USB. -/
lemma record (h : TxShape w p) {c : Call} (hc : sentNtbs [c] = []) : TxShape (w.record c) p := by
  refine ⟨h.state, ?_, ?_⟩
  · rw [World.record_log, sentNtbs_record hc]
    exact h.unsent
  · rw [World.record_log, sentNtbs_record hc]
    exact h.sent

/-- Opening an NTB hands none to USB. -/
lemma sentNtbs_accept (h : TxShape w p) :
    sentNtbs (txAcceptUserNtb w).2.log = sentNtbs w.log := by
  cases hp : p.accepts with
  | false =>
    obtain ⟨-, -, hlog⟩ := txAcceptUserNtb_of_refuses h.state hp
    exact hlog.sent
  | true =>
    obtain ⟨-, -, l, hl, hlog⟩ := txAcceptUserNtb_of_accepts h.state hp
    rw [hlog, ← hl.sent]
    exact sentNtbs_record rfl l

lemma accept (h : TxShape w p) : TxShape (txAcceptUserNtb w).2 p.accept := by
  have hsent := h.sentNtbs_accept
  cases hp : p.accepts with
  | false =>
    obtain ⟨-, htx, -⟩ := txAcceptUserNtb_of_refuses h.state hp
    refine ⟨by rw [htx]; rfl, ?_, ?_⟩
    · rw [p.usbd_accept, hsent]
      exact h.unsent
    · rw [p.usbd_accept, hsent, htx]
      exact h.sent
  | true =>
    obtain ⟨-, htx, -⟩ := txAcceptUserNtb_of_accepts h.state hp
    refine ⟨by rw [htx]; rfl, ?_, ?_⟩
    · rw [p.usbd_accept, hsent]
      exact h.unsent
    · rw [p.usbd_accept, hsent, htx]
      intro hu
      -- the NTB that is opened is not the one that was sent
      have hne : (0 : NtbPtr) ≠ p.next := fun h0 => TxPhase.next_ne_zero_of_usbd hu h0.symm
      simp only [TxPhase.state, Function.update_of_ne hne]
      exact h.sent hu

lemma start (h : TxShape w p) (env : Env) :
    TxShape (txTryStart env w).2 p ∨ TxShape (txTryStart env w).2 p.start := by
  rcases txTryStart_cases env h.state with ⟨-, hq, -⟩ | ⟨hp, -, -, ok, -, htx, hlog⟩
  · exact Or.inl (h.quiet hq)
  · have husbd := TxPhase.usbd_start hp
    refine Or.inr ⟨by rw [htx]; rfl, fun hu => absurd (husbd.symm.trans hu) (by simp), ?_⟩
    intro _
    refine ⟨ok, ?_⟩
    rw [hlog, htx]
    have hold := h.unsent (TxPhase.usbd_eq_none_of_startable hp)
    rw [sentNtbs] at hold
    simp [sentNtbs, List.filterMap_append, hold, TxPhase.state]

lemma store (h : TxShape w p) {i : NtbPtr} (hi : p.user = some i) (written : List UInt8)
    (size : ℕ) : TxShape (txStoreDatagram i written size w) p := by
  have hsent : sentNtbs (txStoreDatagram i written size w).log = sentNtbs w.log := by
    exact sentNtbs_record rfl w.log
  refine ⟨?_, ?_, ?_⟩
  · have hstate := h.state
    simp only [txStoreDatagram, World.setTx_tx]
    rw [hstate]
    rfl
  · rw [hsent]
    exact h.unsent
  · rw [hsent]
    intro hu
    have hne : (0 : NtbPtr) ≠ i := by
      rintro rfl
      exact TxPhase.user_ne_usbd hi hu
    simp only [txStoreDatagram, World.setTx_tx, Function.update_of_ne hne]
    exact h.sent hu

/-- The step lemma: the holders stay those of some phase. -/
lemma step (h : TxShape w p) (input : Input) : ∃ p', TxShape (Fx3Ncm.step w input) p' := by
  apply step_rule (I := fun w => ∃ p, TxShape w p) ⟨p, h⟩
  case quiet =>
    rintro w w' hq ⟨p, h⟩
    exact ⟨p, h.quiet hq⟩
  case complete =>
    intro bytes _
    exact ⟨p, h.record rfl⟩
  case zlp =>
    rintro w bytes ok - ⟨p, h⟩
    exact ⟨p, h.record rfl⟩
  case start =>
    rintro w env ⟨p, h⟩
    rcases h.start env with h' | h'
    · exact ⟨p, h'⟩
    · exact ⟨p.start, h'⟩
  case accept =>
    intro size _ _
    exact ⟨p.accept, h.accept⟩
  case store =>
    intro i written size _ hi
    exact ⟨p, h.store (h.user.symm.trans hi) written size.toNat⟩

/-- The run lemma: the holders are those of some phase, whatever the callers do. -/
lemma of_reached {G : World → Input → Prop} (hw : Reached G w) : ∃ p, TxShape w p := by
  refine hw.invariant (I := fun w => ∃ p, TxShape w p) ⟨.idle, init⟩ ?_
  rintro w input ⟨p, h⟩ -
  exact h.step input

end TxShape

/-! ### The contents -/

/-- Every opened NTB encodes the datagrams placed into it, under its own sequence number, and
the datagrams stored so far are those of the NTBs, in the order of opening. -/
structure TxContent (w : World) (p : TxPhase) : Prop where
  opened : openedSequences w.log = List.range p.opened
  seq : w.tx.txSeqCount = p.opened
  stored : storedDatagrams w.log = datagramsIn 0 w.log ++ datagramsIn 1 w.log
  unopened : ∀ i : NtbPtr, p.opened ≤ i → datagramsIn i w.log = []
  encodes : ∀ i : NtbPtr, i < p.opened → Encodes (w.tx.txNtb i) i (datagramsIn i w.log)
  index : ∀ i, p.user = some i → w.tx.txUserNtbDatagramIndex = (datagramsIn i w.log).length

namespace TxContent

variable {w w' : World} {p : TxPhase}

lemma init : TxContent World.init .idle where
  opened := rfl
  seq := rfl
  stored := rfl
  unopened _ _ := rfl
  encodes i hi := absurd hi (by simp [TxPhase.opened])
  index i hi := absurd hi (by simp [TxPhase.user])

lemma quiet (h : TxContent w p) (hq : TxQuiet w w') : TxContent w' p := by
  have htx : w'.tx = w.tx := hq.same
  have hin := hq.calls.placed
  refine ⟨?_, ?_, ?_, ?_, ?_, ?_⟩
  · rw [hq.calls.opened]
    exact h.opened
  · rw [htx]
    exact h.seq
  · rw [hq.calls.stored, hin, hin]
    exact h.stored
  · intro i hi
    rw [hin]
    exact h.unopened i hi
  · intro i hi
    rw [hin, htx]
    exact h.encodes i hi
  · intro i hi
    rw [hin, htx]
    exact h.index i hi

/-- Recording a call that neither opens an NTB nor stores a datagram. -/
lemma record (h : TxContent w p) {c : Call} (hstored : storedDatagrams [c] = [])
    (hopened : openedSequences [c] = []) (hin : ∀ i ds, datagramsInStep i ds c = ds) :
    TxContent (w.record c) p := by
  have hin' : ∀ i, datagramsIn i (w.record c).log = datagramsIn i w.log := by
    intro i
    rw [World.record_log, datagramsIn_append_singleton, hin]
  refine ⟨?_, h.seq, ?_, ?_, ?_, ?_⟩
  · rw [← h.opened, World.record_log, openedSequences, List.filterMap_append]
    rw [openedSequences] at hopened
    rw [hopened, List.append_nil]
    rfl
  · rw [hin', hin', ← h.stored, World.record_log, storedDatagrams, List.filterMap_append]
    rw [storedDatagrams] at hstored
    rw [hstored, List.append_nil]
    rfl
  · intro i hi
    rw [hin']
    exact h.unopened i hi
  · intro i hi
    rw [hin']
    exact h.encodes i hi
  · intro i hi
    rw [hin']
    exact h.index i hi

/-- Opening an NTB changes the datagrams of no NTB: the one opened had none. -/
lemma placed_accept (h : TxContent w p) (hs : TxShape w p) (i : NtbPtr) :
    datagramsIn i (txAcceptUserNtb w).2.log = datagramsIn i w.log := by
  cases hp : p.accepts with
  | false =>
    obtain ⟨-, -, hlog⟩ := txAcceptUserNtb_of_refuses hs.state hp
    exact hlog.placed i
  | true =>
    obtain ⟨-, -, l, hl, hlog⟩ := txAcceptUserNtb_of_accepts hs.state hp
    rw [hlog, datagramsIn_append_singleton, hl.placed]
    by_cases hi : p.next = i
    · subst hi
      rw [h.unopened p.next (TxPhase.next_eq_opened hp).symm.le]
      simp [datagramsInStep]
    · simp [datagramsInStep, hi]

lemma accept (h : TxContent w p) (hs : TxShape w p) :
    TxContent (txAcceptUserNtb w).2 p.accept := by
  cases hp : p.accepts with
  | false =>
    -- nothing is opened, but the old user NTB may have been moved to the wait list
    obtain ⟨-, htx, hlog⟩ := txAcceptUserNtb_of_refuses hs.state hp
    have hq : TxQuiet w { w with log := (txAcceptUserNtb w).2.log } := ⟨rfl, hlog⟩
    have h' := h.quiet hq
    refine ⟨?_, ?_, h'.stored, ?_, ?_, ?_⟩
    · rw [TxPhase.opened_accept_of_refuses hp]
      exact h'.opened
    · rw [TxPhase.opened_accept_of_refuses hp, htx]
      exact h'.seq
    · rw [TxPhase.opened_accept_of_refuses hp]
      exact h'.unopened
    · rw [TxPhase.opened_accept_of_refuses hp, htx]
      exact h'.encodes
    · rw [TxPhase.user_accept_of_refuses hp]
      intro i hi
      exact absurd hi (by simp)
  | true =>
    obtain ⟨-, htx, l, hl, hlog⟩ := txAcceptUserNtb_of_accepts hs.state hp
    have hnext := TxPhase.next_eq_opened hp
    -- NTBs are opened in the order of their indices, so the index is the sequence number
    have hseq : w.tx.txSeqCount = p.next := by rw [h.seq, hnext]
    have hlt : (p.next : ℕ) < 65536 := lt_trans p.next.isLt (by decide)
    have hopen := encodes_populateNtb (w.tx.txNtb p.next) hlt
    have hin := h.placed_accept hs
    refine ⟨?_, ?_, ?_, ?_, ?_, ?_⟩
    · rw [hlog, hseq, hopen.sequence, TxPhase.opened_accept hp, List.range_succ, ← h.opened,
        ← hl.opened, ← hnext]
      simp [openedSequences]
    · rw [htx, TxPhase.opened_accept hp]
      simp only [TxPhase.state]
      rw [h.seq]
      have := p.opened_le
      omega
    · rw [hin, hin, ← h.stored, ← hl.stored, hlog]
      simp [storedDatagrams]
    · intro i hi
      rw [TxPhase.opened_accept hp] at hi
      rw [hin]
      exact h.unopened i (by omega)
    · intro i hi
      rw [TxPhase.opened_accept hp] at hi
      rw [hin, htx]
      simp only [TxPhase.state]
      by_cases hi' : i = p.next
      · subst hi'
        rw [Function.update_self, hseq, h.unopened p.next hnext.symm.le]
        exact hopen
      · rw [Function.update_of_ne hi']
        have hne : (i : ℕ) ≠ p.next := fun h' => hi' (Fin.ext h')
        exact h.encodes i (by omega)
    · intro i hi
      rw [TxPhase.user_accept hp] at hi
      obtain rfl : p.next = i := by simpa using hi
      rw [htx, hin, h.unopened p.next hnext.symm.le]
      rfl

lemma placed_start (hs : TxShape w p) (env : Env) (i : NtbPtr) :
    datagramsIn i (txTryStart env w).2.log = datagramsIn i w.log := by
  rcases txTryStart_cases env hs.state with ⟨-, hq, -⟩ | ⟨-, -, -, ok, -, -, hlog⟩
  · exact hq.calls.placed i
  · rw [hlog, datagramsIn_append_singleton]
    rfl

lemma start (h : TxContent w p) (hs : TxShape w p) (env : Env) :
    (TxShape (txTryStart env w).2 p ∧ TxContent (txTryStart env w).2 p) ∨
      (p.startable w.tx.txUserNtbDatagramIndex ∧
        TxShape (txTryStart env w).2 p.start ∧ TxContent (txTryStart env w).2 p.start) := by
  have hshape := hs.start env
  rcases txTryStart_cases env hs.state with ⟨-, hq, -⟩ | ⟨hp, -, -, ok, -, htx, hlog⟩
  · exact Or.inl ⟨hs.quiet hq, h.quiet hq⟩
  · right
    have hin := placed_start hs env
    refine ⟨hp, ?_, ?_, ?_, ?_, ?_, ?_, ?_⟩
    · rcases hshape with hshape | hshape
      · -- the phase before the start has an empty `tx_usbd_ntb`
        have h₁ := hshape.usbd
        rw [TxPhase.usbd_eq_none_of_startable hp, htx] at h₁
        exact absurd ((TxPhase.usbd_start hp).symm.trans h₁) (by simp)
      · exact hshape
    · rw [p.opened_start, ← h.opened, hlog]
      simp [openedSequences]
    · rw [p.opened_start, htx]
      exact h.seq
    · rw [hin, hin, ← h.stored, hlog]
      simp [storedDatagrams]
    · intro i hi
      rw [p.opened_start] at hi
      rw [hin]
      exact h.unopened i hi
    · intro i hi
      rw [p.opened_start] at hi
      rw [hin, htx]
      exact h.encodes i hi
    · intro i hi
      rw [hin, htx]
      exact h.index i (TxPhase.user_start hi)

lemma placed_store (i : NtbPtr) (written : List UInt8) (size : ℕ) :
    datagramsIn i (txStoreDatagram i written size w).log = datagramsIn i w.log ++ [written] := by
  simp [txStoreDatagram, datagramsInStep]

lemma placed_store_of_ne {i j : NtbPtr} (h : j ≠ i) (written : List UInt8) (size : ℕ) :
    datagramsIn j (txStoreDatagram i written size w).log = datagramsIn j w.log := by
  simp [txStoreDatagram, datagramsInStep, h.symm]

lemma store (h : TxContent w p) {i : NtbPtr} (hi : p.user = some i) {written : List UInt8}
    (hcount : w.tx.txUserNtbDatagramIndex < ncmMaxDatagramsPerNtb)
    (hfits : wBlockLength (w.tx.txNtb i) + written.length + alignOffset written.length ≤
      ncmNtbMaxSize) :
    TxContent (txStoreDatagram i written written.length w) p := by
  have hopened := TxPhase.user_add_one_eq_opened hi
  have henc := h.encodes i (by omega)
  have hindex := h.index i hi
  have hself := placed_store (w := w) i written written.length
  have hother : ∀ j, j ≠ i →
      datagramsIn j (txStoreDatagram i written written.length w).log = datagramsIn j w.log :=
    fun j hj => placed_store_of_ne hj written written.length
  refine ⟨?_, h.seq, ?_, ?_, ?_, ?_⟩
  · rw [← h.opened]
    simp [txStoreDatagram, openedSequences]
  · have hstored : storedDatagrams (txStoreDatagram i written written.length w).log =
        storedDatagrams w.log ++ [written] := by
      simp [txStoreDatagram, storedDatagrams]
    rw [hstored, h.stored]
    -- the user fills the NTB opened last, so the new datagram is the last of all
    match i, hself, hother, hopened with
    | 0, hself, hother, hopened =>
      rw [hself, hother 1 (by decide), h.unopened 1 (by simp at hopened ⊢; omega)]
      simp
    | 1, hself, hother, _ =>
      rw [hself, hother 0 (by decide), List.append_assoc]
  · intro j hj
    have hne : j ≠ i := by
      rintro rfl
      omega
    rw [hother j hne]
    exact h.unopened j hj
  · intro j hj
    by_cases hji : j = i
    · subst hji
      rw [hself]
      simp only [txStoreDatagram, World.setTx_tx, Function.update_self, hindex]
      rw [hindex] at hcount
      rw [henc.block, Nat.add_assoc] at hfits
      exact henc.append hcount hfits
    · rw [hother j hji]
      simp only [txStoreDatagram, World.setTx_tx, Function.update_of_ne hji]
      exact h.encodes j hj
  · intro j hj
    obtain rfl : i = j := by simpa [hi] using hj
    rw [hself, List.length_append, List.length_singleton, ← hindex]
    simp only [txStoreDatagram, World.setTx_tx]
    simp only [ncmMaxDatagramsPerNtb] at hcount
    omega

end TxContent

/-! ### Admission -/

/-- What is known once `net_can_tx( size )` has returned `true`: the user NTB, if it is still
there, has a table entry left, and if the size fits into an empty NTB then it fits into this
one. -/
def Admits (w : World) (size : UInt16) : Prop :=
  ∀ i, w.tx.txUserNtb = some i → w.tx.txUserNtbDatagramIndex < ncmMaxDatagramsPerNtb ∧
    56 ≤ wBlockLength (w.tx.txNtb i) ∧
    (size.toNat ≤ maxDatagramSize →
      wBlockLength (w.tx.txNtb i) + size.toNat + alignOffset size.toNat ≤ ncmNtbMaxSize)

lemma wBlockLength_populateNtb (m : Mem) (seq : ℕ) : wBlockLength (populateNtb m seq) = 56 := by
  simp (disch := simp) [wBlockLength, populateNtb, read16_store_of_disjoint,
    read16_write16_of_disjoint, read16_write32_of_disjoint]

lemma add_alignOffset_le_of_le {n : ℕ} (h : n ≤ maxDatagramSize) :
    56 + n + alignOffset n ≤ ncmNtbMaxSize := by
  rw [alignOffset_eq]
  simp only [ncmNtbMaxSize, maxDatagramSize] at h ⊢
  simp at h
  omega

section Admission

variable {w : World} {p : TxPhase}

lemma admits_of_fits (hs : TxShape w p) (hc : TxContent w p) {size : UInt16}
    (h : txDatagramFitsUserNtb size w = true) : Admits w size := by
  intro i hi
  rw [txDatagramFitsUserNtb, hi] at h
  dsimp only at h
  split_ifs at h with hindex
  have hfits := of_decide_eq_true h
  have hi' : p.user = some i := hs.user.symm.trans hi
  have henc := hc.encodes i (by have := TxPhase.user_add_one_eq_opened hi'; omega)
  refine ⟨Nat.lt_of_not_le hindex, ?_, fun _ => hfits⟩
  rw [henc.block]
  exact le_blockLength _

lemma admits_of_accepts (hs : TxShape w p) {size : UInt16}
    (h : (txAcceptUserNtb w).1 = true) : Admits (txAcceptUserNtb w).2 size := by
  cases hp : p.accepts with
  | false =>
    have h' := (txAcceptUserNtb_of_refuses hs.state hp).1
    exact absurd (h'.symm.trans h) (by decide)
  | true =>
    obtain ⟨-, htx, -⟩ := txAcceptUserNtb_of_accepts hs.state hp
    intro i hi
    rw [htx] at hi ⊢
    obtain rfl : p.next = i := Option.some_inj.1 ((TxPhase.user_accept hp).symm.trans hi)
    simp only [TxPhase.state, Function.update_self, wBlockLength_populateNtb]
    exact ⟨by decide, le_rfl, add_alignOffset_le_of_le⟩

/-- Handing an NTB to USB either leaves the user NTB alone or takes it away. -/
lemma Admits.start (hs : TxShape w p) {size : UInt16} (h : Admits w size) (env : Env) :
    Admits (txTryStart env w).2 size := by
  rcases txTryStart_cases env hs.state with ⟨-, hq, -⟩ | ⟨-, -, -, ok, -, htx, -⟩
  · rw [Admits, show (txTryStart env w).2.tx = w.tx from hq.same]
    exact h
  · intro i hi
    rw [htx] at hi ⊢
    exact h i (hs.user.trans (TxPhase.user_start hi))

/-- The room that the caller protocol leaves for the datagram of a `net_tx`. -/
lemma room_of_protocol (ha : ∀ size, w.admitted = some size → Admits w size) {input : Input}
    (hp : TxProtocol w input) {written : List UInt8} {size : UInt16} {i : NtbPtr}
    (hinput : input.1 = .netTx written size) (hi : w.tx.txUserNtb = some i) :
    written.length = size.toNat ∧ w.tx.txUserNtbDatagramIndex < ncmMaxDatagramsPerNtb ∧
      wBlockLength (w.tx.txNtb i) + size.toNat + alignOffset size.toNat ≤ ncmNtbMaxSize := by
  rw [TxProtocol, hinput] at hp
  obtain ⟨hadmitted, hsize, hlen⟩ := hp
  obtain ⟨hcount, -, hfits⟩ := ha size hadmitted i hi
  exact ⟨hlen, hcount, hfits hsize⟩

/-- An admission stays true until the next `net_can_tx` or `net_tx`. -/
lemma admits_step (hs : TxShape w p) (hc : TxContent w p)
    (ha : ∀ size, w.admitted = some size → Admits w size) (input : Input) {size : UInt16}
    (h : (step w input).admitted = some size) : Admits (step w input) size := by
  by_cases hcan : ∃ size', input.1 = .netCanTx size'
  · obtain ⟨event, env⟩ := input
    obtain ⟨size', rfl⟩ := hcan
    change (if (netCanTx env size' w).1 then some size' else none) = some size at h
    change Admits (netCanTx env size' w).2 size
    by_cases hfits : txDatagramFitsUserNtb size' w = true
    · rw [netCanTx_of_fits env hfits] at h ⊢
      obtain rfl : size' = size := by simpa using h
      exact admits_of_fits hs hc hfits
    · by_cases haccept : (txAcceptUserNtb w).1 = true
      · rw [netCanTx_of_accepts env hfits haccept]
        exact admits_of_accepts hs haccept
      · rw [netCanTx_of_refuses env hfits haccept] at h
        simp at h
  · -- an admission that is still there after the step was there before it
    have htx : ¬ ∃ written size', input.1 = .netTx written size' := by
      rintro ⟨written, size', hinput⟩
      simp [step, nextAdmitted, hinput] at h
    have hadmitted : w.admitted = some size := by
      rw [← h]
      obtain ⟨event, env⟩ := input
      cases event with
      | netCanTx size' => exact absurd ⟨size', rfl⟩ hcan
      | netTx written size' => exact absurd ⟨written, size', rfl⟩ htx
      | _ => rfl
    have hrule : ∃ p', TxShape (step w input) p' ∧ Admits (step w input) size := by
      apply step_rule (I := fun w => ∃ p, TxShape w p ∧ Admits w size) ⟨p, hs, ha size hadmitted⟩
      case quiet =>
        rintro w w' hq ⟨p, hs, ha⟩
        refine ⟨p, hs.quiet hq, ?_⟩
        rw [Admits, show w'.tx = w.tx from hq.same]
        exact ha
      case complete =>
        intro bytes _
        exact ⟨p, hs.record rfl, ha size hadmitted⟩
      case zlp =>
        rintro w bytes ok - ⟨p, hs, ha⟩
        exact ⟨p, hs.record rfl, ha⟩
      case start =>
        rintro w env ⟨p, hs, ha⟩
        rcases hs.start env with hs' | hs'
        · exact ⟨p, hs', ha.start hs env⟩
        · exact ⟨p.start, hs', ha.start hs env⟩
      case accept =>
        intro size' hinput _
        exact absurd ⟨size', hinput⟩ hcan
      case store =>
        intro i written size' hinput _
        exact absurd ⟨written, size', hinput⟩ htx
    obtain ⟨p', -, h'⟩ := hrule
    exact h'

end Admission

/-! ### The invariant of runs that follow the caller protocol -/

/-- The datagrams of each NTB. -/
def placed (w : World) (i : NtbPtr) : List (List UInt8) := datagramsIn i w.log

/-- The invariant of the IN direction for runs that follow the caller protocol, together with
a further property `J` of the datagrams of the NTBs and the phase. -/
def TxInv (J : (NtbPtr → List (List UInt8)) → TxPhase → Prop) (w : World) : Prop :=
  ∃ p, TxShape w p ∧ TxContent w p ∧ (∀ size, w.admitted = some size → Admits w size) ∧
    J (placed w) p

/-- What one move of a protocol-following step does to the datagrams and the phase keeps `J`. -/
structure TxStable (G : World → Input → Prop)
    (J : (NtbPtr → List (List UInt8)) → TxPhase → Prop) : Prop where
  protocol : ∀ {w input}, G w input → TxProtocol w input
  init : J (fun _ => []) .idle
  start : ∀ {ds p index}, p.startable index → (∀ i, p.user = some i → index = (ds i).length) →
    J ds p → J ds p.start
  accept : ∀ {w p input size}, G w input → input.1 = .netCanTx size →
    ¬ txDatagramFitsUserNtb size w = true → TxShape w p → TxContent w p →
    J (placed w) p → J (placed w) p.accept
  store : ∀ {w input ds p i written size}, G w input → input.1 = .netTx written size →
    written.length = size.toNat → p.user = some i → J ds p →
    J (Function.update ds i (ds i ++ [written])) p

/-- The caller protocol alone. -/
lemma txStable_true : TxStable TxProtocol fun _ _ => True where
  protocol := id
  init := trivial
  start _ _ _ := trivial
  accept _ _ _ _ _ _ := trivial
  store _ _ _ _ _ := trivial

namespace TxInv

variable {G : World → Input → Prop} {J : (NtbPtr → List (List UInt8)) → TxPhase → Prop}
  {w : World}

lemma init (hJ : TxStable G J) : TxInv J World.init :=
  ⟨.idle, TxShape.init, TxContent.init, fun _ h => absurd h (by simp [World.init]), hJ.init⟩

/-- The step lemma. -/
lemma step (hJ : TxStable G J) (h : TxInv J w) {input : Input} (hG : G w input) :
    TxInv J (Fx3Ncm.step w input) := by
  obtain ⟨p, hs, hc, ha, hw⟩ := h
  have hsame : ∀ {w w' : World} {p : TxPhase},
      (∀ i, datagramsIn i w'.log = datagramsIn i w.log) → J (placed w) p → J (placed w') p := by
    intro w w' p heq h
    rwa [show placed w' = placed w from funext heq]
  have hstep : ∃ p', TxShape (Fx3Ncm.step w input) p' ∧ TxContent (Fx3Ncm.step w input) p' ∧
      J (placed (Fx3Ncm.step w input)) p' := by
    apply step_rule (I := fun w => ∃ p, TxShape w p ∧ TxContent w p ∧ J (placed w) p)
      ⟨p, hs, hc, hw⟩
    case quiet =>
      rintro w w' hq ⟨p, hs, hc, hw⟩
      exact ⟨p, hs.quiet hq, hc.quiet hq, hsame hq.calls.placed hw⟩
    case complete =>
      intro bytes _
      refine ⟨p, hs.record rfl, hc.record rfl rfl fun _ _ => rfl, ?_⟩
      exact hsame (fun i => datagramsIn_append_singleton i _ _) hw
    case zlp =>
      rintro w bytes ok - ⟨p, hs, hc, hw⟩
      refine ⟨p, hs.record rfl, hc.record rfl rfl fun _ _ => rfl, ?_⟩
      exact hsame (fun i => datagramsIn_append_singleton i _ _) hw
    case start =>
      rintro w env ⟨p, hs, hc, hw⟩
      have hw' := hsame (TxContent.placed_start hs env) hw
      rcases hc.start hs env with ⟨hs', hc'⟩ | ⟨hstart, hs', hc'⟩
      · exact ⟨p, hs', hc', hw'⟩
      · refine ⟨p.start, hs', hc', hJ.start hstart ?_ hw'⟩
        intro i hi
        rw [placed, TxContent.placed_start hs env]
        exact hc.index i hi
    case accept =>
      intro size hinput hfits
      exact ⟨p.accept, hs.accept, hc.accept hs,
        hsame (hc.placed_accept hs) (hJ.accept hG hinput hfits hs hc hw)⟩
    case store =>
      intro i written size hinput hi
      -- the room was promised by `net_can_tx`
      obtain ⟨hlen, hcount, hroom⟩ := room_of_protocol ha (hJ.protocol hG) hinput hi
      have hi' : p.user = some i := hs.user.symm.trans hi
      rw [← hlen] at hroom ⊢
      refine ⟨p, hs.store hi' written written.length, hc.store hi' hcount hroom, ?_⟩
      have hplaced : placed (txStoreDatagram i written written.length w) =
          Function.update (placed w) i (placed w i ++ [written]) := by
        funext j
        by_cases hj : j = i
        · subst hj
          rw [Function.update_self]
          exact TxContent.placed_store j written _
        · rw [Function.update_of_ne hj]
          exact TxContent.placed_store_of_ne hj written _
      rw [hplaced]
      exact hJ.store hG hinput hlen hi' hw
  obtain ⟨p', hs', hc', hw'⟩ := hstep
  exact ⟨p', hs', hc', fun _ h' => admits_step hs hc ha input h', hw'⟩

lemma shape (h : TxInv J w) : ∃ p, TxShape w p := by
  obtain ⟨p, hs, -⟩ := h
  exact ⟨p, hs⟩

/-- The run lemma. -/
lemma of_reached (hJ : TxStable G J) (hw : Reached G w) : TxInv J w :=
  hw.invariant (init hJ) fun _ _ h hG => h.step hJ hG

end TxInv

end Fx3Ncm
