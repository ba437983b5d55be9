/-
# Zero-length packets on the IN endpoint

A host knows the end of an NTB by a short packet, so that an NTB whose length is a multiple of
`NCM_EP_SIZE` must be followed by a zero-length packet.  The driver does not remember that it
owes one: `tx_insert_zlp` decides from the byte count of the completion alone.  The result of
this file is about the trace of the IN endpoint, that is, the calls of `usb_transfer_ep` and
the completions in the order in which they happened.

`tx_usbd_ntb` is not cleared by a completion, and so the trace has one of the few shapes of
`InShape`, whatever `net_can_tx` and `net_tx` do in the meantime.

`tx_insert_zlp` drops the answer of `usb_transfer_ep`, and reports a zero-length packet that was
refused as one that was sent.  The packets are framed as long as none of them is refused, and
no longer (`zlp_framing`).
-/
import Fx3Ncm.Ncm.TxCompletion
import Mathlib.Data.List.TakeWhile

namespace Fx3Ncm

open ByteMemory Runs

/-! ### The trace of the IN endpoint -/

/-- An entry of the trace: `usb_transfer_ep` was asked to send `bytes` bytes or a zero-length
packet and answered `ok`, or a transfer of `bytes` bytes was reported as completed. -/
inductive InEvent where
  | data (bytes : ℕ) (ok : Bool)
  | zlp (ok : Bool)
  | completed (bytes : ℕ)
deriving DecidableEq, Repr

namespace InEvent

/-- A data transfer. -/
def isData : InEvent → Bool
  | data _ _ => true
  | _ => false

/-- A call for a zero-length packet. -/
def isZlp : InEvent → Bool
  | zlp _ => true
  | _ => false

/-- What a call contributes to the trace. -/
def ofCall : Call → Option InEvent
  | .usbTransferEp ep _ bytes ok =>
    if ep = ncmEpDataIn then some (if bytes = 0 then zlp ok else data bytes ok) else none
  | .netUsbTransfer ep bytes _ => if ep = ncmEpDataIn then some (completed bytes) else none
  | _ => none

end InEvent

/-- The trace of the IN endpoint. -/
def inTrace (log : List Call) : List InEvent := log.filterMap InEvent.ofCall

/-- The lengths of the transfers under way after one more entry. -/
def underWayStep (ns : List ℕ) : InEvent → List ℕ
  | .data bytes ok => if ok then ns ++ [bytes] else ns
  | .zlp ok => if ok then ns ++ [0] else ns
  | .completed bytes => ns.erase bytes

/-- The lengths of the transfers that were started and have not been completed. -/
def underWay (t : List InEvent) : List ℕ := t.foldl underWayStep []

/-- A completion on the IN endpoint belongs to a transfer that was started, has not been
completed yet, and has the length reported. -/
def CompletesUnderWay (w : World) (input : Input) : Prop :=
  ∀ bytes, input.1 = .netUsbTransfer ncmEpDataIn bytes → bytes.toNat ∈ underWay (inTrace w.log)

/-- The entries up to the next data transfer. -/
def beforeNextData (t : List InEvent) : List InEvent := t.takeWhile fun e => !e.isData

/-- Zero-length packets are framed: a completed data transfer is followed by exactly one of
them before the next data transfer if its length is a multiple of `NCM_EP_SIZE`, and this one is
accepted, and none stands between its start and its completion; a data transfer of any other
length is followed by none; and none follows the completion of a zero-length packet. -/
structure ZlpFramed (t : List InEvent) : Prop where
  multiple : ∀ before n ok between after,
    t = before ++ .data n ok :: between ++ .completed n :: after →
    (∀ e ∈ between, e.isData = false) → n % ncmEpSize = 0 →
    between.countP InEvent.isZlp = 0 ∧ (beforeNextData after).filter InEvent.isZlp = [.zlp true]
  other : ∀ before n ok after, t = before ++ .data n ok :: after → n % ncmEpSize ≠ 0 →
    (beforeNextData after).countP InEvent.isZlp = 0
  zlp : ∀ before after, t = before ++ .completed 0 :: after →
    (beforeNextData after).countP InEvent.isZlp = 0

/-! ### The shapes of the trace -/

/-- The traces that occur once `tx_ntb[0]`, of `n` bytes, has been handed to USB: it was refused
or is under way, it has been completed, a zero-length packet was added, and that was completed
as well. -/
inductive InShape (n : ℕ) : List InEvent → Prop
  | data (ok : Bool) : InShape n [.data n ok]
  | completed : n % ncmEpSize ≠ 0 → InShape n [.data n true, .completed n]
  | zlp (ok : Bool) : n % ncmEpSize = 0 → InShape n [.data n true, .completed n, .zlp ok]
  | zlpCompleted : n % ncmEpSize = 0 →
    InShape n [.data n true, .completed n, .zlp true, .completed 0]

lemma beforeNextData_eq_self {t : List InEvent} (h : ∀ e ∈ t, e.isData = false) :
    beforeNextData t = t := by
  refine List.takeWhile_eq_self_iff.2 fun e he => ?_
  rw [h e he]
  rfl

/-- Framing in a trace with a single data transfer, at its beginning. -/
lemma framed_of_single {n : ℕ} {ok : Bool} {tail : List InEvent}
    (htail : ∀ e ∈ tail, e.isData = false)
    (hmultiple : n % ncmEpSize = 0 → ∀ between after, tail = between ++ .completed n :: after →
      between.countP InEvent.isZlp = 0 ∧ after.filter InEvent.isZlp = [.zlp true])
    (hother : n % ncmEpSize ≠ 0 → tail.countP InEvent.isZlp = 0)
    (hzlp : ∀ between after, tail = between ++ .completed 0 :: after →
      after.countP InEvent.isZlp = 0) : ZlpFramed (.data n ok :: tail) := by
  -- a data transfer found in the trace is the first entry
  have hfirst : ∀ {before m ok' after}, .data n ok :: tail = before ++ .data m ok' :: after →
      m = n ∧ after = tail := by
    intro before m ok' after h
    cases before with
    | nil =>
      cases h
      exact ⟨rfl, rfl⟩
    | cons e before =>
      obtain ⟨-, rfl⟩ := List.cons.inj h
      exact absurd (htail (.data m ok') (by simp)) (by simp [InEvent.isData])
  have hafter : ∀ {before e after}, tail = before ++ e :: after → beforeNextData after = after := by
    rintro before e after rfl
    exact beforeNextData_eq_self fun e' he' => htail e' (by simp [he'])
  refine ⟨?_, ?_, ?_⟩
  · intro before m ok' between after h _ hm
    rw [List.append_assoc] at h
    obtain ⟨rfl, h'⟩ := hfirst h
    rw [hafter h'.symm]
    exact hmultiple hm between after h'.symm
  · intro before m ok' after h hm
    obtain ⟨rfl, rfl⟩ := hfirst h
    rw [beforeNextData_eq_self htail]
    exact hother hm
  · intro before after h
    cases before with
    | nil => cases h
    | cons e before =>
      obtain ⟨-, h'⟩ := List.cons.inj h
      rw [hafter h']
      exact hzlp before after h'

/-- In each of these shapes the zero-length packets are framed unless one was refused. -/
lemma InShape.framed_iff {n : ℕ} {t : List InEvent} (hn : n ≠ 0) (h : InShape n t) :
    ZlpFramed t ↔ .zlp false ∉ t := by
  cases h with
  | data ok =>
    refine iff_of_true (framed_of_single ?_ ?_ ?_ ?_) (by simp) <;> simp
  | completed hmod =>
    refine iff_of_true (framed_of_single ?_ (fun h => absurd h hmod) (fun _ => rfl) ?_) (by simp)
    · simp [InEvent.isData]
    · simp [List.cons_eq_append_iff, hn.symm]
  | zlp ok hmod =>
    cases ok with
    | false =>
      -- the packet that was asked for is the only one
      refine iff_of_false (fun h => ?_) (by simp)
      have hone := (h.multiple [] n true [] [.zlp false] rfl (by simp) hmod).2
      exact absurd hone (by decide)
    | true =>
      refine iff_of_true (framed_of_single ?_ (fun _ => ?_) (fun h => absurd hmod h) ?_) (by simp)
      · simp [InEvent.isData]
      · simp [List.cons_eq_append_iff, InEvent.isZlp]
      · simp [List.cons_eq_append_iff, hn.symm]
  | zlpCompleted hmod =>
    refine iff_of_true (framed_of_single ?_ (fun _ => ?_) (fun h => absurd hmod h) ?_) (by simp)
    · simp [InEvent.isData]
    · simp [List.cons_eq_append_iff, List.filter_cons, InEvent.isZlp, hn]
    · simp +contextual [List.cons_eq_append_iff, hn.symm]

/-! ### What a step adds to the trace -/

section Step

variable {w : World} {p : TxPhase} {input : Input}

lemma inTrace_append (l l' : List Call) : inTrace (l ++ l') = inTrace l ++ inTrace l' :=
  List.filterMap_append

/-- Calls of the OUT direction are not in the trace. -/
lemma Continues.inTrace_eq {l l' : List Call} (h : Continues Call.NotTx l l') :
    inTrace l' = inTrace l := by
  refine h.filterMap_eq fun c hc => ?_
  cases c with
  | usbTransferEp ep buffer bytes ok => exact if_neg hc
  | netUsbTransfer ep bytes block => exact if_neg hc
  | _ => rfl

/-- The entry for an NTB handed to USB. -/
def InEvent.ofSent (s : NtbPtr × Mem × ℕ × Bool) : InEvent :=
  if s.2.2.1 = 0 then .zlp s.2.2.2 else .data s.2.2.1 s.2.2.2

/-- A step that is not a completion adds the NTBs handed to USB in it. -/
lemma inTrace_step (hs : TxShape w p)
    (hinput : ∀ bytes, input.1 ≠ .netUsbTransfer ncmEpDataIn bytes) :
    ∃ l, sentNtbs (step w input).log = sentNtbs w.log ++ l ∧
      inTrace (step w input).log = inTrace w.log ++ l.map InEvent.ofSent := by
  have hrule : (∃ p', TxShape (step w input) p') ∧
      ∃ l, sentNtbs (step w input).log = sentNtbs w.log ++ l ∧
        inTrace (step w input).log = inTrace w.log ++ l.map InEvent.ofSent := by
    apply step_rule (I := fun w' => (∃ p', TxShape w' p') ∧
      ∃ l, sentNtbs w'.log = sentNtbs w.log ++ l ∧
        inTrace w'.log = inTrace w.log ++ l.map InEvent.ofSent)
      ⟨⟨p, hs⟩, [], (List.append_nil _).symm, (List.append_nil _).symm⟩
    case quiet =>
      rintro w₁ w₂ hq ⟨⟨p, hs⟩, l, hsent, htrace⟩
      refine ⟨⟨p, hs.quiet hq⟩, l, ?_, ?_⟩
      · rw [hq.calls.sent, hsent]
      · rw [hq.calls.inTrace_eq, htrace]
    case complete =>
      intro bytes hin
      exact absurd hin (hinput bytes)
    case zlp =>
      intro w' bytes ok hin
      exact absurd hin (hinput bytes)
    case start =>
      rintro w' env ⟨⟨p, hs⟩, l, hsent, htrace⟩
      have hshape : ∃ p', TxShape (txTryStart env w').2 p' := by
        rcases hs.start env with hs' | hs'
        · exact ⟨p, hs'⟩
        · exact ⟨p.start, hs'⟩
      refine ⟨hshape, ?_⟩
      rcases txTryStart_cases env hs.state with ⟨-, hq, -⟩ | ⟨-, -, -, ok, -, -, hlog⟩
      · refine ⟨l, ?_, ?_⟩
        · rw [hq.calls.sent, hsent]
        · rw [hq.calls.inTrace_eq, htrace]
      · refine ⟨l ++ [(0, w'.tx.txNtb 0, wBlockLength (w'.tx.txNtb 0), ok)], ?_, ?_⟩
        · rw [hlog, ← List.append_assoc, ← hsent]
          simp [sentNtbs]
        · rw [hlog, inTrace_append, htrace, List.map_append, List.append_assoc]
          rfl
    case accept =>
      intro size _ _
      refine ⟨⟨p.accept, hs.accept⟩, [], ?_, ?_⟩
      · rw [hs.sentNtbs_accept, List.append_nil]
      · rw [List.map_nil, List.append_nil]
        cases hp : p.accepts with
        | false =>
          obtain ⟨-, -, hlog⟩ := txAcceptUserNtb_of_refuses hs.state hp
          exact hlog.inTrace_eq
        | true =>
          obtain ⟨-, -, l, hl, hlog⟩ := txAcceptUserNtb_of_accepts hs.state hp
          rw [hlog, inTrace_append, hl.inTrace_eq]
          exact List.append_nil _
    case store =>
      intro i written size _ hi
      refine ⟨⟨p, hs.store (hs.user.symm.trans hi) written size.toNat⟩, [], ?_, ?_⟩
      · rw [List.append_nil]
        exact sentNtbs_record rfl w.log
      · exact inTrace_append w.log _
  exact hrule.2

/-- A completion while `tx_usbd_ntb` is set adds itself and, if the byte count asks for it, a
zero-length packet. -/
lemma inTrace_dataIn {i : NtbPtr} (h : w.tx.txUsbdNtb = some i) (env : Env) (bytes : UInt16) :
    inTrace (step w (.netUsbTransfer ncmEpDataIn bytes, env)).log =
      inTrace w.log ++ .completed bytes.toNat ::
        if bytes.toNat = 0 ∨ bytes.toNat % ncmEpSize ≠ 0 then []
        else [.zlp (env.usbTransferEp ncmEpDataIn .null 0)] := by
  set w₁ := (pushRxFree w.rx.rxUsbdNtb (recordCompletion ncmEpDataIn bytes w)).2 with hw₁
  have htrace : inTrace w₁.log = inTrace w.log ++ [.completed bytes.toNat] := by
    have hlog : w₁.log = w.log ++ ([.netUsbTransfer ncmEpDataIn bytes.toNat none,
        .pushNtb .rxFree w.rx.rxUsbdNtb (pushNtb w.rx.rxFreeNtb w.rx.rxUsbdNtb).1] : List Call) :=
      List.append_assoc _ _ _
    rw [hlog, inTrace_append]
    rfl
  -- `tx_usbd_ntb` is still set, so that `tx_try_start` gives up at once
  have hstart : (txTryStart env w₁).2 = w₁ := by
    rw [txTryStart, if_pos (by rw [show w₁.tx = w.tx from rfl, h]; rfl)]
  have hstep : (step w (.netUsbTransfer ncmEpDataIn bytes, env)).log =
      (netDataIn env bytes (recordCompletion ncmEpDataIn bytes w)).log := rfl
  rw [hstep, netDataIn_eq]
  change inTrace (World.log (if _ then (txTryStart env w₁).2 else w₁.record _)) = _
  split_ifs with hz
  · rw [hstart, htrace]
  · rw [World.record_log, inTrace_append, htrace, List.append_assoc]
    rfl

end Step

/-! ### Framing in every run -/

/-- The steps of the runs considered: the callers follow the protocol, and every completion of
an IN transfer belongs to a transfer under way. -/
def FramedRun (w : World) (input : Input) : Prop := TxProtocol w input ∧ CompletesUnderWay w input

/-- When an IN transfer of a nonzero multiple of `NCM_EP_SIZE` bytes is completed,
`usb_transfer_ep` accepts a zero-length packet. -/
def ZlpAccepted (_ : World) (input : Input) : Prop :=
  ∀ bytes, input.1 = .netUsbTransfer ncmEpDataIn bytes → bytes.toNat ≠ 0 →
    bytes.toNat % ncmEpSize = 0 → input.2.usbTransferEp ncmEpDataIn .null 0 = true

/-- Before `tx_usbd_ntb` is set the trace is empty, and afterwards it has one of the shapes. -/
structure InFramed (w : World) : Prop where
  inv : TxInv (fun _ _ => True) w
  unsent : w.tx.txUsbdNtb = none → inTrace w.log = []
  sent : ∀ i, w.tx.txUsbdNtb = some i → ∃ n, n ≠ 0 ∧ InShape n (inTrace w.log)

namespace InFramed

variable {w : World} {input : Input}

lemma init : InFramed World.init where
  inv := TxInv.init txStable_true
  unsent _ := rfl
  sent i hi := absurd (TxShape.init.usbd.symm.trans hi) (by simp [TxPhase.usbd])

/-- An NTB that has been handed to USB is not empty. -/
lemma blockLength_ne_zero {p : TxPhase} (hc : TxContent w p) (hu : p.usbd = some 0) :
    wBlockLength (w.tx.txNtb 0) ≠ 0 := by
  have henc := hc.encodes 0 (TxPhase.opened_pos_of_usbd hu)
  have hle := le_blockLength (datagramsIn 0 w.log)
  rw [henc.block]
  omega

/-- A step that is not a completion adds nothing to the trace, or it hands the first NTB to
USB. -/
lemma trace_of_other (h : InFramed w) (hp : TxProtocol w input)
    (hinput : ∀ bytes, input.1 ≠ .netUsbTransfer ncmEpDataIn bytes) :
    ((step w input).tx.txUsbdNtb = w.tx.txUsbdNtb ∧
        inTrace (step w input).log = inTrace w.log) ∨
      ∃ n ok, n ≠ 0 ∧ (step w input).tx.txUsbdNtb = some 0 ∧ inTrace w.log = [] ∧
        inTrace (step w input).log = [.data n ok] := by
  obtain ⟨p, hs⟩ := h.inv.shape
  obtain ⟨p', hs', hc', -⟩ := h.inv.step txStable_true hp
  obtain ⟨l, hsent, htrace⟩ := inTrace_step hs hinput
  rcases p'.usbd_cases with hu' | hu'
  · -- nothing has been sent after the step, and so nothing had been sent before it
    rw [hs'.unsent hu'] at hsent
    obtain ⟨hbefore, rfl⟩ := List.append_eq_nil_iff.1 hsent.symm
    rcases p.usbd_cases with hu | hu
    · refine Or.inl ⟨(hs'.usbd.trans hu').trans (hs.usbd.trans hu).symm, ?_⟩
      rw [htrace, List.map_nil, List.append_nil]
    · obtain ⟨ok, hone⟩ := hs.sent hu
      exact absurd (hbefore.symm.trans hone) (by simp)
  · obtain ⟨ok', hone'⟩ := hs'.sent hu'
    rw [hone'] at hsent
    rcases p.usbd_cases with hu | hu
    · -- the NTB is handed to USB in this step
      rw [hs.unsent hu, List.nil_append] at hsent
      rw [h.unsent (hs.usbd.trans hu), List.nil_append, ← hsent, List.map_singleton,
        InEvent.ofSent, if_neg (blockLength_ne_zero hc' hu')] at htrace
      exact Or.inr ⟨_, ok', blockLength_ne_zero hc' hu', hs'.usbd.trans hu',
        h.unsent (hs.usbd.trans hu), htrace⟩
    · obtain ⟨ok, hone⟩ := hs.sent hu
      rw [hone, List.singleton_append] at hsent
      obtain ⟨-, rfl⟩ := List.cons.inj hsent
      refine Or.inl ⟨(hs'.usbd.trans hu').trans (hs.usbd.trans hu).symm, ?_⟩
      rw [htrace, List.map_nil, List.append_nil]

/-- A step that is not a completion. -/
lemma step_of_other (h : InFramed w) (hp : TxProtocol w input)
    (hinput : ∀ bytes, input.1 ≠ .netUsbTransfer ncmEpDataIn bytes) : InFramed (step w input) := by
  have hinv' := h.inv.step txStable_true hp
  rcases h.trace_of_other hp hinput with ⟨husbd, htrace⟩ | ⟨n, ok, hn, husbd, -, htrace⟩
  · refine ⟨hinv', ?_, ?_⟩
    · rw [husbd, htrace]
      exact h.unsent
    · rw [husbd, htrace]
      exact h.sent
  · refine ⟨hinv', ?_, ?_⟩
    · rw [husbd]
      exact fun h' => absurd h' (by simp)
    · intro _ _
      rw [htrace]
      exact ⟨n, hn, .data ok⟩

/-- A completion of a transfer under way leads from one shape to another. -/
lemma shape_dataIn {n : ℕ} {t : List InEvent} (hn : n ≠ 0) (h : InShape n t) {bytes : ℕ}
    (hbytes : bytes ∈ underWay t) (ok : Bool) :
    InShape n (t ++ .completed bytes ::
      if bytes = 0 ∨ bytes % ncmEpSize ≠ 0 then [] else [.zlp ok]) := by
  cases h with
  | data ok' =>
    cases ok' with
    | false => simp [underWay, underWayStep] at hbytes
    | true =>
      obtain rfl : bytes = n := by simpa [underWay, underWayStep] using hbytes
      by_cases hmod : bytes % ncmEpSize = 0
      · rw [if_neg (by simp [hn, hmod])]
        exact .zlp ok hmod
      · rw [if_pos (Or.inr hmod)]
        exact .completed hmod
  | completed hmod => simp [underWay, underWayStep] at hbytes
  | zlp ok' hmod =>
    cases ok' with
    | false => simp [underWay, underWayStep] at hbytes
    | true =>
      obtain rfl : bytes = 0 := by simpa [underWay, underWayStep] using hbytes
      rw [if_pos (Or.inl rfl)]
      exact .zlpCompleted hmod
  | zlpCompleted hmod => simp [underWay, underWayStep] at hbytes

/-- The step lemma. -/
lemma step (h : InFramed w) (hG : FramedRun w input) : InFramed (step w input) := by
  by_cases hinput : ∃ bytes, input.1 = .netUsbTransfer ncmEpDataIn bytes
  · obtain ⟨bytes, hin⟩ := hinput
    have hbytes := hG.2 bytes hin
    have hinv' := h.inv.step txStable_true hG.1
    obtain ⟨event, env⟩ := input
    obtain rfl : event = .netUsbTransfer ncmEpDataIn bytes := hin
    cases hu : w.tx.txUsbdNtb with
    | none =>
      rw [h.unsent hu] at hbytes
      exact absurd hbytes List.not_mem_nil
    | some i =>
      have htx := (dataIn_of_usbd hu env bytes).1
      refine ⟨hinv', ?_, ?_⟩
      · rw [htx, hu]
        exact fun h' => absurd h' (by simp)
      · intro _ _
        obtain ⟨n, hn, hshape⟩ := h.sent i hu
        rw [inTrace_dataIn hu env bytes]
        exact ⟨n, hn, shape_dataIn hn hshape hbytes _⟩
  · exact h.step_of_other hG.1 fun bytes hin => hinput ⟨bytes, hin⟩

/-- In the states of these runs the zero-length packets are framed unless one was refused. -/
lemma framed_iff (h : InFramed w) : ZlpFramed (inTrace w.log) ↔ .zlp false ∉ inTrace w.log := by
  cases hu : w.tx.txUsbdNtb with
  | none =>
    rw [h.unsent hu]
    refine iff_of_true ?_ List.not_mem_nil
    refine ⟨?_, ?_, ?_⟩ <;> simp
  | some i =>
    obtain ⟨n, hn, hshape⟩ := h.sent i hu
    exact hshape.framed_iff hn

/-- In a step from a state in which none was refused, a zero-length packet is refused if
`usb_transfer_ep` does not accept it. -/
lemma refused_iff (h : InFramed w) (hG : FramedRun w input) (hw : .zlp false ∉ inTrace w.log) :
    .zlp false ∉ inTrace (Fx3Ncm.step w input).log ↔ ZlpAccepted w input := by
  by_cases hinput : ∃ bytes, input.1 = .netUsbTransfer ncmEpDataIn bytes
  · obtain ⟨bytes, hin⟩ := hinput
    have hbytes := hG.2 bytes hin
    obtain ⟨event, env⟩ := input
    obtain rfl : event = .netUsbTransfer ncmEpDataIn bytes := hin
    cases hu : w.tx.txUsbdNtb with
    | none =>
      rw [h.unsent hu] at hbytes
      exact absurd hbytes List.not_mem_nil
    | some i =>
      rw [inTrace_dataIn hu env bytes, List.mem_append, List.mem_cons]
      simp only [hw, reduceCtorEq, false_or]
      by_cases hlen : bytes.toNat = 0 ∨ bytes.toNat % ncmEpSize ≠ 0
      · -- no zero-length packet is asked for
        rw [if_pos hlen]
        refine iff_of_true List.not_mem_nil ?_
        rintro _ ⟨⟩ hne hmod
        exact absurd hlen (not_or.2 ⟨hne, not_not.2 hmod⟩)
      · rw [if_neg hlen, List.mem_singleton, InEvent.zlp.injEq, eq_comm, Bool.not_eq_false]
        obtain ⟨hne, hmod⟩ := not_or.1 hlen
        constructor
        · rintro hok _ ⟨⟩ - -
          exact hok
        · exact fun hacc => hacc bytes rfl hne (not_not.1 hmod)
  · have hother : ∀ bytes, input.1 ≠ .netUsbTransfer ncmEpDataIn bytes :=
      fun bytes hin => hinput ⟨bytes, hin⟩
    refine iff_of_true ?_ fun bytes hin => absurd hin (hother bytes)
    rcases h.trace_of_other hG.1 hother with ⟨-, htrace⟩ | ⟨n, ok, -, -, -, htrace⟩
    · rw [htrace]
      exact hw
    · rw [htrace]
      simp

end InFramed

/-- In a run that follows the caller protocol and in which each IN transfer is completed at most
once and with its own length, the zero-length packets are framed in all states if and only if
`usb_transfer_ep` accepts every one of them. -/
theorem zlp_framing {es : List Input} (hes : Along step FramedRun World.init es) :
    Along step (fun w input => ZlpFramed (inTrace (step w input).log)) World.init es ↔
      Along step ZlpAccepted World.init es := by
  refine along_iff_along (I := fun w => InFramed w ∧ .zlp false ∉ inTrace w.log) ?_ ?_
    ⟨InFramed.init, List.not_mem_nil⟩ hes
  · rintro w input ⟨h, -⟩ hG hframed
    exact ⟨h.step hG, (h.step hG).framed_iff.1 hframed⟩
  · rintro w input ⟨h, hw⟩ hG
    rw [(h.step hG).framed_iff, h.refused_iff hG hw]

/-- An NTB of 512 bytes is handed to USB. -/
def fullPackets : List Input :=
  [(.netUsbControlTransfer (.setInterface 1), .accepting), (.netCanTx 456, .accepting),
    (.netTx (List.replicate 456 0x2a) 456, .accepting)]

lemma framedRun_fullPackets : Along step FramedRun World.init fullPackets := by
  have hlen : (List.replicate 456 (0x2a : UInt8)).length = (456 : UInt16).toNat :=
    List.length_replicate
  refine ⟨⟨trivial, ?_⟩, ⟨trivial, ?_⟩, ⟨⟨rfl, by decide, hlen⟩, ?_⟩, trivial⟩ <;>
    rintro bytes ⟨⟩

/-- The NTB of `fullPackets` is completed, and so is the zero-length packet after it. -/
theorem zlp_framing_fullPackets :
    inTrace (run step World.init (fullPackets ++ [(.netUsbTransfer ncmEpDataIn 512, .accepting),
        (.netUsbTransfer ncmEpDataIn 0, .accepting)])).log =
      [.data 512 true, .completed 512, .zlp true, .completed 0] ∧
    Along step (fun w input => ZlpFramed (inTrace (step w input).log)) World.init
      (fullPackets ++ [(.netUsbTransfer ncmEpDataIn 512, .accepting),
        (.netUsbTransfer ncmEpDataIn 0, .accepting)]) := by
  refine ⟨by decide +kernel, (zlp_framing ?_).2 ?_⟩
  · refine along_append.2 ⟨framedRun_fullPackets, ⟨trivial, ?_⟩, ⟨trivial, ?_⟩, trivial⟩
    · rintro bytes ⟨⟩
      decide +kernel
    · rintro bytes ⟨⟩
      decide +kernel
  · exact ⟨fun _ _ _ _ => rfl, fun _ _ _ _ => rfl, fun _ _ _ _ => rfl, fun _ _ _ _ => rfl,
      fun _ _ _ _ => rfl, trivial⟩

/-- Everything is accepted but a zero-length packet. -/
def Env.refusingZlp : Env := { Env.accepting with usbTransferEp := fun _ _ bytes => bytes != 0 }

/-- The zero-length packet after `fullPackets` is refused, and no other takes its place. -/
theorem zlp_framing_fails :
    Along step FramedRun World.init
      (fullPackets ++ [(.netUsbTransfer ncmEpDataIn 512, .refusingZlp)]) ∧
    inTrace (run step World.init
        (fullPackets ++ [(.netUsbTransfer ncmEpDataIn 512, .refusingZlp)])).log =
      [.data 512 true, .completed 512, .zlp false] ∧
    ¬ ZlpFramed (inTrace (run step World.init
      (fullPackets ++ [(.netUsbTransfer ncmEpDataIn 512, .refusingZlp)])).log) := by
  have htrace : inTrace (run step World.init
      (fullPackets ++ [(.netUsbTransfer ncmEpDataIn 512, .refusingZlp)])).log =
      [.data 512 true, .completed 512, .zlp false] := by decide +kernel
  refine ⟨?_, htrace, ?_⟩
  · refine along_append.2 ⟨framedRun_fullPackets, ⟨trivial, ?_⟩, trivial⟩
    rintro bytes ⟨⟩
    decide +kernel
  · rw [htrace, (InShape.zlp false (by decide)).framed_iff (by decide)]
    simp

end Fx3Ncm
