/-
# How much the OUT direction takes

`rx_usbd_ntb` is never cleared, so that `rx_try_start` has its way only once.  `one_reception` says
so for every run, whatever the callers and USB do: no more than one OUT transfer is ever started,
and every datagram that `net_rx_cb` is offered comes from its NTB.
-/
import Fx3Ncm.Ncm.RxOwnership

namespace Fx3Ncm

open ByteMemory Runs

/-- The transfers started on the OUT endpoint, with their buffers and the answers. -/
def outTransfers (log : List Call) : List (Buffer × Bool) :=
  log.filterMap fun
    | .usbTransferEp ep buffer _ ok => if ep = ncmEpDataOut then some (buffer, ok) else none
    | _ => none

/-- The NTBs from which datagrams have been offered. -/
def offeringNtbs (log : List Call) : List NtbPtr :=
  log.filterMap fun
    | .netRxCb i _ _ _ _ => some i
    | _ => none

/-- A call that neither starts an OUT transfer nor offers a datagram of another NTB than
`rx_ntb[0]`. -/
def Call.IsHarmless : Call → Prop
  | .usbTransferEp ep _ _ _ => ep ≠ ncmEpDataOut
  | .netRxCb i _ _ _ _ => i = 0
  | _ => True

/-- A transfer is started exactly when `rx_usbd_ntb` is set, and all datagrams come from its NTB. -/
structure RxOnce (w : World) (p : RxPhase) : Prop where
  shape : RxShape w p
  unstarted : p.usbd = none → outTransfers w.log = []
  started : p.usbd ≠ none → ∃ ok, outTransfers w.log = [(.rxNtb 0, ok)]
  offering : ∀ i ∈ offeringNtbs w.log, i = 0

section Harmless

variable {l l' : List Call}

lemma outTransfers_of_harmless (h : Continues Call.IsHarmless l l') :
    outTransfers l' = outTransfers l := by
  refine h.filterMap_eq fun c hc => ?_
  cases c with
  | usbTransferEp ep buffer bytes ok => exact if_neg hc
  | _ => rfl

lemma offeringNtbs_of_harmless (h : Continues Call.IsHarmless l l')
    (hl : ∀ i ∈ offeringNtbs l, i = 0) : ∀ i ∈ offeringNtbs l', i = 0 := by
  obtain ⟨cs, rfl, hcs⟩ := h
  intro i hi
  rw [offeringNtbs, List.filterMap_append, List.mem_append] at hi
  rcases hi with hi | hi
  · exact hl i hi
  · obtain ⟨c, hc, heq⟩ := List.mem_filterMap.1 hi
    have hharmless := hcs c hc
    cases c with
    | netRxCb j o n d ok =>
      cases heq
      exact hharmless
    | _ => cases heq

lemma harmless_of_notRx (h : Continues Call.NotRx l l') : Continues Call.IsHarmless l l' := by
  refine h.mono fun c hc => ?_
  cases c with
  | usbTransferEp ep buffer bytes ok => exact hc
  | netRxCb => exact absurd hc id
  | _ => trivial

lemma harmless_walkCalls (l : List Call) (m : Mem) (j : ℕ) (ok pushed : Bool) :
    Continues Call.IsHarmless l (l ++ walkCalls 0 m j ok pushed) := by
  refine ⟨_, rfl, fun c hc => ?_⟩
  rw [walkCalls, List.mem_append] at hc
  rcases hc with hc | hc
  · simp only [offerCalls, List.mem_cons, List.not_mem_nil, or_false] at hc
    rcases hc with rfl | rfl
    · trivial
    · rfl
  · split_ifs at hc
    · rw [List.mem_singleton] at hc
      subst hc
      trivial
    · simp only [List.mem_cons, List.not_mem_nil, or_false] at hc
      rcases hc with rfl | rfl <;> trivial
    · exact absurd hc List.not_mem_nil

end Harmless

namespace RxOnce

variable {w w' : World} {p p' : RxPhase}

lemma init : RxOnce World.init .fresh :=
  ⟨.init, fun _ => rfl, fun h => absurd rfl h, fun _ h => absurd h List.not_mem_nil⟩

/-- A move that starts nothing. -/
lemma congr (h : RxOnce w p) (hs : RxShape w' p') (husbd : p'.usbd = p.usbd)
    (hlog : Continues Call.IsHarmless w.log w'.log) : RxOnce w' p' := by
  refine ⟨hs, ?_, ?_, offeringNtbs_of_harmless hlog h.offering⟩
  · rw [husbd, outTransfers_of_harmless hlog]
    exact h.unstarted
  · rw [husbd, outTransfers_of_harmless hlog]
    exact h.started

/-- `rx_update_user_ntb` only offers a datagram. -/
lemma harmless_update {ntb : NtbPtr → Mem} {index : ℕ} (h : w.rx = p.state ntb index) (env : Env) :
    Continues Call.IsHarmless w.log (rxUpdateUserNtb env w).2.log := by
  rcases p.fetch.user_cases with hu | hu
  · rw [rxUpdateUserNtb_of_none env h hu]
    exact .refl _
  · obtain ⟨-, hlog, -⟩ := rxUpdateUserNtb_of_some env h hu rfl
    rw [hlog]
    exact harmless_walkCalls _ _ _ _ _

lemma start (h : RxOnce w p) (env : Env) : ∃ p', RxOnce (rxTryStart env w).2 p' := by
  rcases h.shape.start env with ⟨heq, -⟩ | ⟨hu, hactive, hbusy, hs, -⟩
  · rw [heq]
    exact ⟨p, h⟩
  · obtain ⟨-, hlog, -⟩ := rxTryStart_of_free env h.shape.state hu hactive hbusy
    have hempty : outTransfers w.log = [] := h.unstarted hu
    have hoffers := h.offering
    refine ⟨p.start, hs, fun hnone => ?_, fun _ => ?_, ?_⟩
    · rw [p.usbd_start] at hnone
      cases hnone
    · rw [outTransfers] at hempty
      refine ⟨env.usbTransferEp ncmEpDataOut (.rxNtb 0) ncmNtbMaxSize, ?_⟩
      rw [hlog, outTransfers, List.filterMap_append, hempty, List.nil_append]
      split_ifs <;> rfl
    · rw [offeringNtbs] at hoffers
      rw [hlog, offeringNtbs, List.filterMap_append]
      split_ifs <;> simpa using hoffers

/-- The step lemma. -/
lemma step (h : RxOnce w p) (input : Input) : ∃ p', RxOnce (Fx3Ncm.step w input) p' := by
  apply rx_step_rule (I := fun w => ∃ p, RxOnce w p) ⟨p, h⟩
  case quiet =>
    rintro w w' hq ⟨p, h⟩
    exact ⟨p, h.congr (h.shape.quiet hq) rfl (harmless_of_notRx hq.calls)⟩
  case push =>
    rintro w ⟨p, h⟩
    refine ⟨p, h.congr h.shape.push rfl ?_⟩
    rw [pushRxFree_usbd h.shape.state]
    exact .single trivial
  case update =>
    intro v hq _
    have hv := h.congr (h.shape.quiet hq) rfl (harmless_of_notRx hq.calls)
    exact ⟨p, hv.congr (hv.shape.update _).1 rfl (harmless_update hv.shape.state _)⟩
  case start =>
    rintro w ⟨p, h⟩
    exact h.start input.2
  case dataOut =>
    intro bytes _
    refine ⟨_, h.congr (h.shape.dataOut _ bytes).1 ?_ ?_⟩
    · rw [RxPhase.usbd_fetch, RxPhase.usbd_complete]
    · have hstate : (recordCompletion ncmEpDataOut bytes w).rx =
          p.state w.rx.rxNtb w.rx.rxUserNtbDatagramIndex := h.shape.state
      obtain ⟨ok, heq⟩ := netDataOut_eq bytes hstate h.shape.stable
      have hcompletion : Continues Call.IsHarmless w.log
          (recordCompletion ncmEpDataOut bytes w).log := .single trivial
      have hpush : Continues Call.IsHarmless (recordCompletion ncmEpDataOut bytes w).log
          (netDataOut bytes (recordCompletion ncmEpDataOut bytes w)).log := by
        rw [heq]
        exact .single trivial
      have hupdate := harmless_update (p := p.complete)
        (w := netDataOut bytes (recordCompletion ncmEpDataOut bytes w)) (by rw [heq]; rfl) input.2
      exact (hcompletion.trans hpush).trans hupdate
  case write =>
    intro block _
    refine ⟨p, h.congr (h.shape.write block) rfl ?_⟩
    rw [usbWrite]
    split <;> exact .refl _

end RxOnce

/-- In every run, whatever the callers do, whatever USB answers and reports, and whatever it writes,
as long as all writes stay inside the NTBs (what lies behind one is not modelled): no more than one
transfer is ever started on the OUT endpoint, the one into `rx_ntb[0]`, and all the datagrams that
`net_rx_cb` is offered come from this NTB. -/
theorem one_reception {w : World} (hw : Reached (fun _ _ => True) w) :
    (outTransfers w.log = [] ∨ ∃ ok, outTransfers w.log = [(.rxNtb 0, ok)]) ∧
      ∀ i ∈ offeringNtbs w.log, i = 0 := by
  obtain ⟨p, h⟩ : ∃ p, RxOnce w p := by
    refine hw.invariant (I := fun w => ∃ p, RxOnce w p) ⟨.fresh, .init⟩ ?_
    rintro w input ⟨p, h⟩ -
    exact h.step input
  refine ⟨?_, h.offering⟩
  by_cases hu : p.usbd = none
  · exact .inl (h.unstarted hu)
  · exact .inr (h.started hu)

/-- The host selects the interface and completes three transfers. -/
theorem one_reception_example :
    (outTransfers (run step World.init [(.netUsbControlTransfer (.setInterface 1), .accepting),
      (.netRxRenew, .accepting), (.netUsbTransfer ncmEpDataOut 100, .accepting),
      (.netUsbTransfer ncmEpDataOut 100, .accepting), (.netRxRenew, .accepting),
      (.netUsbTransfer ncmEpDataOut 100, .accepting)]).log).length ≤ 1 := by
  rcases (one_reception ⟨_, Along.of_forall fun _ _ => trivial, rfl⟩).1 with h | ⟨ok, h⟩
  · rw [h]
    exact Nat.zero_le 1
  · rw [h]
    exact le_rfl

end Fx3Ncm
