/-
# The receive path of the firmware

The driver together with the slot for a received frame: `net_rx_cb` is called by
`rx_update_user_ntb`, at most once in a step, and the loop of `lwipThread_Entry` calls
`service_traffic`, which calls `net_rx_renew` only after it has delivered a frame.

`net_rx_cb` takes a datagram also when no pbuf can be allocated for it.  The slot stays empty
then, and nothing makes the loop ask for the datagrams behind it.
-/
import Fx3Ncm.App.FrameSlot
import Fx3Ncm.Ncm.Control
import Fx3Ncm.Ncm.RxDelivery

namespace Fx3Ncm

open ByteMemory Runs

/-! ### The machine -/

/-- The driver, the slot, and the positions of the datagrams of `rx_user_ntb` that `net_rx_cb` has
taken, whether it stored them or dropped them. -/
structure Receiver where
  driver : World
  slot : FrameSlot
  taken : List ℕ

/-- A step of the receive path: an entry point of the driver is called (or the hardware writes), or
the loop of `lwipThread_Entry` comes round. -/
inductive ReceiverEvent where
  | driver (event : Event)
  | serviceTraffic

/-- A step, with the answers of `pbuf_alloc` and of the USB side during it. -/
structure ReceiverInput where
  event : ReceiverEvent
  pbufAlloc : Bool
  env : Env

/-- The positions taken after a call of `rx_update_user_ntb` in the state `v` during which
`net_rx_cb` answers `ok`.  They start anew when an NTB is fetched. -/
def takenAfter (v : World) (ok : Bool) (taken : List ℕ) : List ℕ :=
  let taken := if v.rx.rxUserNtb = none then [] else taken
  if (rxFetchUserNtb v).rx.rxUserNtb.isSome ∧ ok then
    (rxFetchUserNtb v).rx.rxUserNtbDatagramIndex :: taken
  else taken

namespace Receiver

/-- After `net_init`. -/
def init : Receiver := ⟨World.init, FrameSlot.init, []⟩

/-- The environment of the driver: whatever `net_rx_cb` is called with, it refuses exactly while the
slot is occupied. -/
def answers (s : Receiver) (env : Env) : Env := { env with netRxCb := s.slot.receivedFrame.isNone }

/-- The datagrams that the driver offers to `net_rx_cb` when an entry point is called. -/
def offered (event : Event) (pbufAlloc : Bool) (env : Env) (s : Receiver) :
    List (List UInt8 × Bool) :=
  let log := (Fx3Ncm.step s.driver (event, s.answers env)).log
  (offers (log.drop s.driver.log.length)).map fun d => (d.1, pbufAlloc)

/-- An entry point of the driver is called, and `net_rx_cb` handles what it is offered. -/
def callDriver (event : Event) (pbufAlloc : Bool) (env : Env) (s : Receiver) : Receiver where
  driver := Fx3Ncm.step s.driver (event, s.answers env)
  slot := s.slot.netRxCbs (s.offered event pbufAlloc env)
  taken := (rxCall s.driver (event, s.answers env)).elim s.taken
    fun v => takenAfter v s.slot.receivedFrame.isNone s.taken

/-- One step.  `service_traffic` gives the frame to lwIP and then calls `net_rx_renew`. -/
def step (s : Receiver) (input : ReceiverInput) : Receiver :=
  match input.event with
  | .driver event => s.callDriver event input.pbufAlloc input.env
  | .serviceTraffic =>
    match s.slot.receivedFrame with
    | none => s
    | some p =>
      callDriver .netRxRenew input.pbufAlloc input.env { s with slot := s.slot.deliver p }

end Receiver

/-! ### The property and its condition -/

/-- The USB side of a run: a completed OUT transfer reports a well-formed block, and the hardware
does not write into an NTB that the user has. -/
structure ReportsBlocks (s : Receiver) (input : ReceiverInput) : Prop where
  wellFormed : ∀ bytes i, input.event = .driver (.netUsbTransfer ncmEpDataOut bytes) →
    s.driver.rx.rxUsbdNtb = some i → WellFormedBlock (s.driver.rx.rxNtb i) bytes.toNat
  writes : ∀ block, input.event = .driver (.usbWrite block) → s.driver.rx.rxUserNtb = none

/-- What is to hold between steps: if a datagram of `rx_user_ntb` has not been taken then
`received_frame` is set; and the next `service_traffic` offers the first such datagram. -/
def NoLostWakeup (s : Receiver) : Prop :=
  ∀ i j d, s.driver.rx.rxUserNtb = some i → (datagrams (s.driver.rx.rxNtb i))[j]? = some d →
    j ∉ s.taken → s.slot.receivedFrame ≠ none ∧
      ((∀ k < j, k ∈ s.taken) → ∀ pbufAlloc env,
        offers (s.step ⟨.serviceTraffic, pbufAlloc, env⟩).driver.log =
          offers s.driver.log ++ [(d, true)])

/-- The state in which a step calls `rx_update_user_ntb` while the slot is empty, if it does. -/
def emptyCall (s : Receiver) (input : ReceiverInput) : Option World :=
  match input.event with
  | .driver event =>
    if s.slot.receivedFrame = none then rxCall s.driver (event, s.answers input.env) else none
  | .serviceTraffic => if s.slot.receivedFrame = none then none else some s.driver

/-- The condition on a step: `pbuf_alloc` fails only for the last datagram of its NTB. -/
def DropsOnlyLast (s : Receiver) (input : ReceiverInput) : Prop :=
  ∀ v i, emptyCall s input = some v → (rxFetchUserNtb v).rx.rxUserNtb = some i →
    input.pbufAlloc = false →
    ¬ EntryUsed ((rxFetchUserNtb v).rx.rxNtb i) ((rxFetchUserNtb v).rx.rxUserNtbDatagramIndex + 1)

/-! ### The cursor and the positions taken -/

/-- Of `n` positions those before `j` have been taken, and none behind it; `j` itself has been taken
only if it is the last. -/
structure Cursor (n j : ℕ) (taken : List ℕ) : Prop where
  lt : j < n
  before : ∀ k < j, k ∈ taken
  le : ∀ k ∈ taken, k ≤ j
  last : j ∈ taken → j + 1 = n

namespace Cursor

variable {n j : ℕ} {taken : List ℕ}

lemma zero (hn : 0 < n) : Cursor n 0 [] := ⟨hn, nofun, nofun, nofun⟩

/-- The position of the cursor is taken. -/
lemma take (h : Cursor n j taken) : Cursor n (if j + 1 < n then j + 1 else j) (j :: taken) := by
  split_ifs with hnext
  · refine ⟨hnext, ?_, ?_, ?_⟩
    · intro k hk
      rcases Nat.lt_succ_iff_lt_or_eq.1 hk with hk | rfl
      · exact List.mem_cons_of_mem _ (h.before k hk)
      · exact List.mem_cons_self
    · intro k hk
      rcases List.mem_cons.1 hk with rfl | hk
      · exact Nat.le_succ _
      · exact Nat.le_succ_of_le (h.le k hk)
    · intro hmem
      rcases List.mem_cons.1 hmem with hmem | hmem
      · omega
      · have hle := h.le _ hmem
        omega
  · have hlt := h.lt
    refine ⟨hlt, fun k hk => List.mem_cons_of_mem _ (h.before k hk), ?_, fun _ => by omega⟩
    intro k hk
    rcases List.mem_cons.1 hk with rfl | hk
    · exact le_rfl
    · exact h.le k hk

/-- A position that has not been taken is not before the cursor, and the cursor has not been
taken either. -/
lemma untaken (h : Cursor n j taken) {k : ℕ} (hk : k < n) (hmem : k ∉ taken) :
    j ≤ k ∧ j ∉ taken := by
  have hle : j ≤ k := by
    by_contra hlt
    exact hmem (h.before k (by omega))
  refine ⟨hle, fun hj => ?_⟩
  have hlast := h.last hj
  obtain rfl : k = j := by omega
  exact hmem hj

/-- After the position of the cursor is taken, the cursor is at one that has not been taken if
there is another. -/
lemma take_untaken_iff (h : Cursor n j taken) :
    (if j + 1 < n then j + 1 else j) ∉ j :: taken ↔ j + 1 < n := by
  split_ifs with hnext
  · refine iff_of_true (fun hmem => ?_) hnext
    rcases List.mem_cons.1 hmem with hmem | hmem
    · omega
    · have hle := h.le _ hmem
      omega
  · exact iff_of_false (fun hmem => hmem List.mem_cons_self) hnext

end Cursor

/-! ### The user's side of a step of the driver -/

/-- Calls other than `net_rx_cb`. -/
def Call.NotOffer : Call → Prop
  | .netRxCb _ _ _ _ _ => False
  | _ => True

/-- No datagram is offered, and what the user reads is not touched. -/
abbrev UserQuiet : World → World → Prop :=
  Quiet (fun w => (w.rx.rxNtb, w.rx.rxUserNtb, w.rx.rxUserNtbDatagramIndex)) Call.NotOffer

section UserQuiet

variable {w w' : World}

lemma UserQuiet.offers (h : UserQuiet w w') : offers w'.log = offers w.log :=
  h.calls.filterMap_eq fun c hc => by cases c <;> first | rfl | exact absurd hc id

lemma UserQuiet.reading (h : UserQuiet w w') {i : NtbPtr} {m : Mem} {j : ℕ}
    (hread : Reading w i m j) : Reading w' i m j := by
  obtain ⟨hntb, huser, hindex⟩ : w'.rx.rxNtb = w.rx.rxNtb ∧ w'.rx.rxUserNtb = w.rx.rxUserNtb ∧
      w'.rx.rxUserNtbDatagramIndex = w.rx.rxUserNtbDatagramIndex := by
    simpa only [Prod.mk.injEq] using h.same
  exact ⟨huser.trans hread.user, (congrFun hntb i).trans hread.block, hindex.trans hread.index⟩

lemma UserQuiet.user (h : UserQuiet w w') : w'.rx.rxUserNtb = w.rx.rxUserNtb :=
  congrArg (fun t => t.2.1) h.same

lemma RxQuiet.userQuiet (h : RxQuiet w w') : UserQuiet w w' := by
  have hrx : w'.rx = w.rx := h.same
  refine ⟨by simp only [hrx], h.calls.mono fun c hc => ?_⟩
  cases c with
  | netRxCb => exact hc
  | _ => trivial

lemma userQuiet_rxTryStart (env : Env) (w : World) : UserQuiet w (rxTryStart env w).2 := by
  have hcalls : Continues Call.NotOffer w.log (rxTryStart env w).2.log := by
    refine (continues_rxTryStart env w).mono fun c hc => ?_
    cases c with
    | netRxCb => exact hc
    | _ => trivial
  refine ⟨?_, hcalls⟩
  rw [rxTryStart]
  split_ifs
  · rfl
  · rfl
  · rfl
  · dsimp only
    split
    · rfl
    · split_ifs <;> rfl

lemma userQuiet_netDataOut (bytes : UInt16) (w : World) : UserQuiet w (netDataOut bytes w) :=
  .of_log_append rfl rfl trivial

lemma userQuiet_recordCompletion (ep : UInt8) (bytes : UInt16) (w : World) :
    UserQuiet w (recordCompletion ep bytes w) := .of_log_append rfl rfl trivial

/-- A step in which `rx_update_user_ntb` is not called. -/
lemma userQuiet_step_of_none {input : Input} (h : rxCall w input = none)
    (hwrite : ∀ block, input.1 ≠ .usbWrite block) : UserQuiet w (step w input) := by
  apply rx_step_rule (I := UserQuiet w) (.refl w)
  case quiet => exact fun hq hw => hw.trans hq.userQuiet
  case push =>
    intro v hw
    exact hw.trans (.of_log_append rfl rfl trivial)
  case update =>
    intro v _ hcall
    rw [h] at hcall
    cases hcall
  case start => exact fun hw => hw.trans (userQuiet_rxTryStart _ _)
  case dataOut =>
    intro bytes hin
    rw [rxCall, hin] at h
    cases h
  case write => exact fun block hin => absurd hin (hwrite block)

/-- A step in which `rx_update_user_ntb` is called, before and after the call. -/
lemma userQuiet_step_of_call {input : Input} {v : World} (h : rxCall w input = some v) :
    UserQuiet w v ∧ UserQuiet (rxUpdateUserNtb input.2 v).2 (step w input) := by
  have hq : UserQuiet (perform w input) (step w input) := .of_log_eq rfl rfl
  suffices hperform : UserQuiet w v ∧ UserQuiet (rxUpdateUserNtb input.2 v).2 (perform w input) from
    ⟨hperform.1, hperform.2.trans hq⟩
  obtain ⟨event, env⟩ := input
  cases event with
  | netRxRenew =>
    cases h
    exact ⟨.refl _, userQuiet_rxTryStart env _⟩
  | rxUpdateUserNtb =>
    cases h
    exact ⟨.refl _, .refl _⟩
  | netUsbTransfer ep bytes =>
    simp only [rxCall, Option.ite_none_right_eq_some, Option.some.injEq] at h
    obtain ⟨rfl, rfl⟩ := h
    exact ⟨(userQuiet_recordCompletion _ bytes w).trans (userQuiet_netDataOut bytes _),
      userQuiet_rxTryStart env _⟩
  | netUsbControlTransfer request =>
    simp only [rxCall, Option.ite_none_right_eq_some, Option.some.injEq] at h
    obtain ⟨⟨htype, hset, hvalue⟩, rfl⟩ := h
    refine ⟨.of_log_eq rfl rfl, ?_⟩
    change UserQuiet _ (netUsbControlTransfer env request w).2
    rw [netUsbControlTransfer_of_isSetInterface env w ⟨htype, hset⟩, setInterface, if_pos hvalue]
    refine (rxQuiet_txNotification env _ false).userQuiet.trans ?_
    exact .of_log_append rfl rfl trivial
  | netCanTx | netTx | usbWrite => cases h

end UserQuiet

/-! ### Walking through a block -/

/-- The user walks through a well-formed block: the datagrams before the cursor have been taken. -/
structure Walk (w : World) (i : NtbPtr) (m : Mem) (j : ℕ) (taken : List ℕ) : Prop extends
    Reading w i m j where
  lists : Lists m (datagrams m)
  cursor : Cursor (datagrams m).length j taken

namespace Walk

variable {w w' : World} {i : NtbPtr} {m : Mem} {j : ℕ} {taken : List ℕ}

lemma quiet (h : Walk w i m j taken) (hq : UserQuiet w w') : Walk w' i m j taken :=
  ⟨hq.reading h.toReading, h.lists, h.cursor⟩

/-- The datagram at the cursor is offered. -/
lemma offers_update (h : Walk w i m j taken) (env : Env) :
    offers (rxUpdateUserNtb env w).2.log =
      offers w.log ++ [(entryDatagram m j, env.netRxCb)] := by
  obtain ⟨-, hlog, -⟩ := h.toReading.update env
  rw [hlog, offers_append, offers_walkCalls]

/-- The datagram at the cursor is taken. -/
lemma update_taken (h : Walk w i m j taken) {env : Env} (hok : env.netRxCb = true) :
    Walk (rxUpdateUserNtb env w).2 i m (if j + 1 < (datagrams m).length then j + 1 else j)
      (j :: taken) := by
  have hread := h.toReading.update_reading env
  rw [h.lists.cursorStep_eq h.cursor.lt] at hread
  simp only [hok, true_and] at hread
  exact ⟨hread, h.lists, h.cursor.take⟩

/-- The datagram at the cursor is refused. -/
lemma update_refused (h : Walk w i m j taken) {env : Env} (hok : env.netRxCb = false) :
    Walk (rxUpdateUserNtb env w).2 i m j taken := by
  have hread := h.toReading.update_reading env
  rw [h.lists.cursorStep_eq h.cursor.lt, if_neg (by simp [hok])] at hread
  exact ⟨hread, h.lists, h.cursor⟩

lemma getElem?_datagrams (h : Walk w i m j taken) :
    (datagrams m)[j]? = some (entryDatagram m j) := by
  rw [List.getElem?_eq_getElem h.cursor.lt, h.lists.datagram j h.cursor.lt]

/-- The datagram at the cursor has a byte. -/
lemma entryDatagram_ne_nil (h : Walk w i m j taken) : entryDatagram m j ≠ [] := by
  intro hnil
  have hlength : (entryDatagram m j).length = wDatagramLength m (ndp16DatagramOffset m) j :=
    length_load _ _ _
  rw [hnil] at hlength
  exact (h.lists.used j h.cursor.lt).2 hlength.symm

end Walk

/-- The datagram at the cursor has not been taken. -/
def Behind (s : Receiver) : Prop :=
  ∃ i, s.driver.rx.rxUserNtb = some i ∧ s.driver.rx.rxUserNtbDatagramIndex ∉ s.taken

lemma Walk.behind_iff {s : Receiver} {i : NtbPtr} {m : Mem} {j : ℕ}
    (h : Walk s.driver i m j s.taken) : Behind s ↔ j ∉ s.taken := by
  constructor
  · rintro ⟨i, -, hmem⟩
    rwa [h.index] at hmem
  · intro hmem
    exact ⟨i, h.user, by rwa [h.index]⟩

/-- The NTB that the user has when `rx_update_user_ntb` is called in a step: the one it had before
the step, or none, or the one whose transfer has been completed. -/
lemma RxShape.fetch_call {w v : World} {p : RxPhase} (h : RxShape w p) {input : Input}
    (hcall : rxCall w input = some v) (huser : w.rx.rxUserNtb = none) :
    (rxFetchUserNtb v).rx.rxUserNtb = none ∨
      (∃ bytes, input.1 = .netUsbTransfer ncmEpDataOut bytes) ∧ w.rx.rxUsbdNtb = some 0 ∧
        Reading (rxFetchUserNtb v) 0 (w.rx.rxNtb 0) 0 := by
  have hp : p.user = none := by
    rw [← huser, h.state]
    rfl
  have hsame : v.rx = w.rx → (rxFetchUserNtb v).rx.rxUserNtb = none := by
    intro hrx
    rw [rxFetchUserNtb_eq (hrx.trans h.state), RxPhase.fetch_of_ne_waiting h.stable]
    exact hp
  obtain ⟨event, env⟩ := input
  cases event with
  | netRxRenew | rxUpdateUserNtb =>
    cases hcall
    exact Or.inl (hsame rfl)
  | netUsbControlTransfer request =>
    simp only [rxCall, Option.ite_none_right_eq_some, Option.some.injEq] at hcall
    obtain ⟨-, rfl⟩ := hcall
    exact Or.inl (hsame rfl)
  | netUsbTransfer ep bytes =>
    simp only [rxCall, Option.ite_none_right_eq_some, Option.some.injEq] at hcall
    obtain ⟨rfl, rfl⟩ := hcall
    cases p with
    | armed =>
      have hfetch := h.fetch_received bytes
      refine Or.inr ⟨⟨bytes, rfl⟩, h.usbd, ?_⟩
      refine ⟨?_, ?_, ?_⟩ <;> rw [hfetch] <;> rfl
    | fresh =>
      have hrx : (recordCompletion ncmEpDataOut bytes w).rx =
        RxPhase.fresh.state w.rx.rxNtb w.rx.rxUserNtbDatagramIndex := h.state
      obtain ⟨ok, heq⟩ := netDataOut_eq bytes hrx (by decide)
      refine Or.inl (hsame ?_)
      rw [heq]
      exact h.state.symm
    | waiting => exact absurd rfl h.stable
    | reading | requeued => cases hp
  | netCanTx | netTx | usbWrite => cases hcall

/-! ### The invariant -/

/-- Under the promises of the USB side the user walks through a well-formed block, if it has an
NTB. -/
structure ReceiverInv (s : Receiver) : Prop where
  shape : ∃ p, RxShape s.driver p
  walk : ∀ i, s.driver.rx.rxUserNtb = some i → ∃ m j, Walk s.driver i m j s.taken

lemma offers_drop_step {w : World} {input : Input} {ds : List (List UInt8 × Bool)}
    (h : offers (step w input).log = offers w.log ++ ds) :
    offers ((step w input).log.drop w.log.length) = ds := by
  obtain ⟨cs, hlog, -⟩ := (step_follows w input).2
  rw [hlog, offers_append, List.append_cancel_left_eq] at h
  rw [hlog, List.drop_left, h]

namespace ReceiverInv

variable {s : Receiver} {event : Event} {pbufAlloc : Bool} {env : Env}

lemma init : ReceiverInv Receiver.init := ⟨⟨_, RxShape.init⟩, nofun⟩

/-- A call of the driver in which `rx_update_user_ntb` is not called. -/
lemma callDriver_of_none (hG : ReportsBlocks s ⟨.driver event, pbufAlloc, env⟩)
    (hcall : rxCall s.driver (event, s.answers env) = none) :
    (s.callDriver event pbufAlloc env).slot = s.slot ∧
      (s.callDriver event pbufAlloc env).taken = s.taken ∧
      ((s.driver.rx.rxUserNtb = none ∧
          (s.callDriver event pbufAlloc env).driver.rx.rxUserNtb = none) ∨
        UserQuiet s.driver (s.callDriver event pbufAlloc env).driver) := by
  have hslot : offers (step s.driver (event, s.answers env)).log = offers s.driver.log →
      (s.callDriver event pbufAlloc env).slot = s.slot := by
    intro hoffers
    have hnil := offers_drop_step (hoffers.trans (List.append_nil _).symm)
    simp only [Receiver.callDriver, Receiver.offered, hnil]
    rfl
  have htaken : (s.callDriver event pbufAlloc env).taken = s.taken := by
    simp only [Receiver.callDriver, hcall]
    rfl
  by_cases hwrite : ∃ block, event = .usbWrite block
  · obtain ⟨block, rfl⟩ := hwrite
    have hnone := hG.writes block rfl
    have hfix : (usbWrite block s.driver).log = s.driver.log ∧
        (usbWrite block s.driver).rx.rxUserNtb = s.driver.rx.rxUserNtb := by
      rw [usbWrite]
      split <;> exact ⟨rfl, rfl⟩
    exact ⟨hslot (congrArg offers hfix.1), htaken, Or.inl ⟨hnone, hfix.2.trans hnone⟩⟩
  · have hq := userQuiet_step_of_none hcall fun block hin => hwrite ⟨block, hin⟩
    exact ⟨hslot hq.offers, htaken, Or.inr hq⟩

/-- What the user walks through when `rx_update_user_ntb` is called. -/
lemma fetch_walk (h : ReceiverInv s) (hG : ReportsBlocks s ⟨.driver event, pbufAlloc, env⟩)
    {v : World} (hcall : rxCall s.driver (event, s.answers env) = some v) {i : NtbPtr}
    (hi : (rxFetchUserNtb v).rx.rxUserNtb = some i) :
    ∃ m j, Walk (rxFetchUserNtb v) i m j (if v.rx.rxUserNtb = none then [] else s.taken) := by
  have hq := (userQuiet_step_of_call hcall).1
  cases huser : s.driver.rx.rxUserNtb with
  | some i' =>
    have hv : v.rx.rxUserNtb = some i' := hq.user.trans huser
    rw [rxFetchUserNtb_of_user hv] at hi ⊢
    obtain rfl : i' = i := Option.some.inj (hv.symm.trans hi)
    obtain ⟨m, j, hw⟩ := h.walk i' huser
    rw [if_neg (by rw [hv]; exact Option.some_ne_none _)]
    exact ⟨m, j, hw.quiet hq⟩
  | none =>
    have hv : v.rx.rxUserNtb = none := hq.user.trans huser
    obtain ⟨p, hp⟩ := h.shape
    rw [if_pos hv]
    rcases hp.fetch_call hcall huser with hnone | ⟨⟨bytes, rfl⟩, husbd, hread⟩
    · rw [hnone] at hi
      cases hi
    · -- the block whose completion is reported in this step
      obtain rfl : 0 = i := Option.some.inj (hread.user.symm.trans hi)
      obtain ⟨hlists, hlen⟩ := (hG.wellFormed bytes 0 rfl husbd).lists
      exact ⟨_, 0, hread, hlists, .zero hlen⟩

/-- A call of the driver in which the datagram at the cursor is offered. -/
lemma callDriver_of_call (h : ReceiverInv s) (hG : ReportsBlocks s ⟨.driver event, pbufAlloc, env⟩)
    {v : World} (hcall : rxCall s.driver (event, s.answers env) = some v) {i : NtbPtr}
    (hi : (rxFetchUserNtb v).rx.rxUserNtb = some i) :
    ∃ m j taken, Walk (rxFetchUserNtb v) i m j taken ∧
      offers (s.callDriver event pbufAlloc env).driver.log =
        offers s.driver.log ++ [(entryDatagram m j, s.slot.receivedFrame.isNone)] ∧
      (s.callDriver event pbufAlloc env).slot =
        (s.slot.netRxCb (entryDatagram m j) pbufAlloc).2 ∧
      ∃ j', Walk (s.callDriver event pbufAlloc env).driver i m j'
          (s.callDriver event pbufAlloc env).taken ∧
        (s.slot.receivedFrame = none → (s.callDriver event pbufAlloc env).taken = j :: taken ∧
          j' = if j + 1 < (datagrams m).length then j + 1 else j) := by
  obtain ⟨m, j, hw⟩ := h.fetch_walk hG hcall hi
  set taken := if v.rx.rxUserNtb = none then [] else s.taken with ht
  obtain ⟨hbefore, hafter⟩ := userQuiet_step_of_call hcall
  have hfetchlog : (rxFetchUserNtb v).log = v.log := by
    rw [rxFetchUserNtb]
    split_ifs <;> rfl
  rw [← rxUpdateUserNtb_fetch _ hi] at hafter
  have hoffers : offers (step s.driver (event, s.answers env)).log =
      offers s.driver.log ++ [(entryDatagram m j, s.slot.receivedFrame.isNone)] := by
    rw [hafter.offers, hw.offers_update, hfetchlog, hbefore.offers]
    rfl
  have htaken : (s.callDriver event pbufAlloc env).taken =
      if s.slot.receivedFrame.isNone then j :: taken else taken := by
    simp only [Receiver.callDriver, hcall, Option.elim_some, takenAfter, hi, Option.isSome_some,
      true_and, hw.index, ← ht]
  refine ⟨m, j, taken, hw, hoffers, ?_, ?_⟩
  · simp only [Receiver.callDriver, Receiver.offered, offers_drop_step hoffers]
    rfl
  rw [htaken]
  cases hframe : s.slot.receivedFrame with
  | none =>
    refine ⟨_, (hw.update_taken ?_).quiet hafter, fun _ => ⟨rfl, rfl⟩⟩
    simp [Receiver.answers, hframe]
  | some p =>
    refine ⟨j, (hw.update_refused ?_).quiet hafter, fun h' => absurd h' (Option.some_ne_none p)⟩
    simp [Receiver.answers, hframe]

/-- A call of the driver in which `rx_update_user_ntb` finds nothing to offer. -/
lemma user_callDriver_of_idle {v : World} (hcall : rxCall s.driver (event, s.answers env) = some v)
    (hi : (rxFetchUserNtb v).rx.rxUserNtb = none) :
    (s.callDriver event pbufAlloc env).driver.rx.rxUserNtb = none := by
  have hafter := (userQuiet_step_of_call hcall).2
  refine hafter.user.trans ?_
  rw [user_rxUpdateUserNtb, hi]

/-- The step lemma for calls of the driver. -/
lemma callDriver (h : ReceiverInv s) (hG : ReportsBlocks s ⟨.driver event, pbufAlloc, env⟩) :
    ReceiverInv (s.callDriver event pbufAlloc env) := by
  obtain ⟨p, hp⟩ := h.shape
  refine ⟨hp.step _, ?_⟩
  intro i hi
  cases hcall : rxCall s.driver (event, s.answers env) with
  | none =>
    obtain ⟨-, htaken, ⟨-, hnone⟩ | hq⟩ := callDriver_of_none hG hcall
    · rw [hnone] at hi
      cases hi
    · obtain ⟨m, j, hw⟩ := h.walk i (hq.user.symm.trans hi)
      rw [htaken]
      exact ⟨m, j, hw.quiet hq⟩
  | some v =>
    cases huser : (rxFetchUserNtb v).rx.rxUserNtb with
    | none =>
      rw [user_callDriver_of_idle hcall huser] at hi
      cases hi
    | some i' =>
      obtain ⟨m, j, taken, -, -, -, j', hw, -⟩ := h.callDriver_of_call hG hcall huser
      obtain rfl : i' = i := Option.some.inj (hw.user.symm.trans hi)
      exact ⟨m, j', hw⟩

/-- Delivering the frame does not concern the driver. -/
lemma deliver (h : ReceiverInv s) (p : ℕ) : ReceiverInv { s with slot := s.slot.deliver p } :=
  ⟨h.shape, h.walk⟩

/-- `service_traffic` with a frame in the slot, while the user has an NTB: the datagram at the
cursor is offered, and taken. -/
lemma offers_serviceTraffic (h : ReceiverInv s) {i : NtbPtr} {m : Mem} {j : ℕ}
    (hw : Walk s.driver i m j s.taken) (hframe : s.slot.receivedFrame ≠ none) :
    offers (s.step ⟨.serviceTraffic, pbufAlloc, env⟩).driver.log =
      offers s.driver.log ++ [(entryDatagram m j, true)] := by
  obtain ⟨p, hp⟩ := Option.ne_none_iff_exists'.1 hframe
  have hfetch := rxFetchUserNtb_of_user hw.user
  have hG : ReportsBlocks { s with slot := s.slot.deliver p }
    ⟨.driver .netRxRenew, pbufAlloc, env⟩ := ⟨nofun, nofun⟩
  obtain ⟨m', j', taken, hw', hoffers, -⟩ :=
    (h.deliver p).callDriver_of_call hG rfl (by rw [hfetch]; exact hw.user)
  rw [hfetch] at hw'
  obtain rfl : m' = m := hw'.block.symm.trans hw.block
  obtain rfl : j' = j := hw'.index.symm.trans hw.index
  simp only [Receiver.step, hp]
  exact hoffers

/-- No wake-up is lost exactly if `received_frame` is set while the datagram at the cursor has not
been taken. -/
lemma noLostWakeup_iff (h : ReceiverInv s) :
    NoLostWakeup s ↔ (Behind s → s.slot.receivedFrame ≠ none) := by
  constructor
  · rintro hP ⟨i, hi, hmem⟩
    obtain ⟨m, j, hw⟩ := h.walk i hi
    rw [hw.index] at hmem
    have hd : (datagrams (s.driver.rx.rxNtb i))[j]? = some (entryDatagram m j) := by
      rw [hw.block]
      exact hw.getElem?_datagrams
    exact (hP i j _ hi hd hmem).1
  · intro hP i k d hi hd hmem
    obtain ⟨m, j, hw⟩ := h.walk i hi
    rw [hw.block] at hd
    obtain ⟨hk, -⟩ := List.getElem?_eq_some_iff.1 hd
    obtain ⟨hle, huntaken⟩ := hw.cursor.untaken hk hmem
    have hframe := hP (hw.behind_iff.2 huntaken)
    refine ⟨hframe, fun hfirst pbufAlloc env => ?_⟩
    -- the first datagram that has not been taken is the one at the cursor
    obtain rfl : j = k := by
      by_contra hne
      exact huntaken (hfirst j (by omega))
    rw [hw.getElem?_datagrams] at hd
    cases hd
    exact h.offers_serviceTraffic hw hframe

/-- A call of the driver in which no datagram is offered loses no wake-up. -/
lemma noLostWakeup_of_none (h : ReceiverInv s)
    (hG : ReportsBlocks s ⟨.driver event, pbufAlloc, env⟩)
    (hcall : rxCall s.driver (event, s.answers env) = none)
    (hP : Behind s → s.slot.receivedFrame ≠ none) :
    NoLostWakeup (s.callDriver event pbufAlloc env) := by
  refine (h.callDriver hG).noLostWakeup_iff.2 ?_
  obtain ⟨hslot, htaken, ⟨-, hnone⟩ | hq⟩ := callDriver_of_none hG hcall
  · rintro ⟨i, hi, -⟩
    rw [hnone] at hi
    cases hi
  · rintro ⟨i, hi, hmem⟩
    have hindex : (s.callDriver event pbufAlloc env).driver.rx.rxUserNtbDatagramIndex =
        s.driver.rx.rxUserNtbDatagramIndex := congrArg (fun t => t.2.2) hq.same
    rw [htaken, hindex] at hmem
    rw [hslot]
    exact hP ⟨i, hq.user.symm.trans hi, hmem⟩

/-- When a call of the driver that offers a datagram loses no wake-up. -/
lemma noLostWakeup_iff_of_call (h : ReceiverInv s)
    (hG : ReportsBlocks s ⟨.driver event, pbufAlloc, env⟩) {v : World}
    (hcall : rxCall s.driver (event, s.answers env) = some v) {i : NtbPtr}
    (hi : (rxFetchUserNtb v).rx.rxUserNtb = some i) :
    NoLostWakeup (s.callDriver event pbufAlloc env) ↔
      (s.slot.receivedFrame = none → pbufAlloc = false →
        ¬ EntryUsed ((rxFetchUserNtb v).rx.rxNtb i)
          ((rxFetchUserNtb v).rx.rxUserNtbDatagramIndex + 1)) := by
  rw [(h.callDriver hG).noLostWakeup_iff]
  obtain ⟨m, j, taken, hw, -, hslot, j', hw', hempty⟩ := h.callDriver_of_call hG hcall hi
  by_cases hframe : s.slot.receivedFrame = none
  · -- the slot is filled if there is a pbuf, and the cursor moves on if there is another datagram
    obtain ⟨htaken, hj'⟩ := hempty hframe
    rw [hw'.behind_iff, htaken, hj', hw.cursor.take_untaken_iff, hslot, hw.block, hw.index,
      hw.lists.entryUsed_succ_iff hw.cursor.lt, ne_eq,
      FrameSlot.receivedFrame_netRxCb hframe hw.entryDatagram_ne_nil]
    exact ⟨fun hP _ halloc hnext => hP hnext halloc, fun hP hnext halloc => hP hframe halloc hnext⟩
  · -- the datagram is refused
    refine iff_of_true (fun _ => ?_) fun h' => absurd h' hframe
    rw [hslot, FrameSlot.netRxCb, if_pos (Option.isSome_iff_ne_none.2 hframe)]
    exact hframe

/-- When a call of the driver loses no wake-up. -/
lemma noLostWakeup_callDriver_iff (h : ReceiverInv s)
    (hG : ReportsBlocks s ⟨.driver event, pbufAlloc, env⟩)
    (hP : rxCall s.driver (event, s.answers env) = none → Behind s → s.slot.receivedFrame ≠ none) :
    NoLostWakeup (s.callDriver event pbufAlloc env) ↔
      ∀ v i, rxCall s.driver (event, s.answers env) = some v →
        (rxFetchUserNtb v).rx.rxUserNtb = some i →
        s.slot.receivedFrame = none → pbufAlloc = false →
        ¬ EntryUsed ((rxFetchUserNtb v).rx.rxNtb i)
          ((rxFetchUserNtb v).rx.rxUserNtbDatagramIndex + 1) := by
  cases hcall : rxCall s.driver (event, s.answers env) with
  | none =>
    refine iff_of_true (h.noLostWakeup_of_none hG hcall (hP hcall)) ?_
    rintro v i ⟨⟩
  | some v =>
    cases huser : (rxFetchUserNtb v).rx.rxUserNtb with
    | none =>
      have hnone : (s.callDriver event pbufAlloc env).driver.rx.rxUserNtb = none :=
        user_callDriver_of_idle hcall huser
      refine iff_of_true ?_ ?_
      · intro i j d hi
        rw [hnone] at hi
        cases hi
      · rintro v' i ⟨⟩ hi
        rw [huser] at hi
        cases hi
    | some i =>
      rw [h.noLostWakeup_iff_of_call hG hcall huser]
      constructor
      · rintro hQ v' i' ⟨⟩ hi'
        obtain rfl : i = i' := Option.some.inj (huser.symm.trans hi')
        exact hQ
      · exact fun hC => hC v i rfl huser

/-- The step lemma. -/
lemma step (h : ReceiverInv s) {input : ReceiverInput} (hG : ReportsBlocks s input) :
    ReceiverInv (s.step input) := by
  obtain ⟨event, pbufAlloc, env⟩ := input
  cases event with
  | driver event => exact h.callDriver hG
  | serviceTraffic =>
    cases hframe : s.slot.receivedFrame with
    | none =>
      simp only [Receiver.step, hframe]
      exact h
    | some p =>
      simp only [Receiver.step, hframe]
      exact (h.deliver p).callDriver ⟨nofun, nofun⟩

/-- A step loses no wake-up exactly if no datagram but the last of an NTB is dropped in it. -/
lemma noLostWakeup_step_iff (h : ReceiverInv s) (hP : NoLostWakeup s) {input : ReceiverInput}
    (hG : ReportsBlocks s input) : NoLostWakeup (s.step input) ↔ DropsOnlyLast s input := by
  obtain ⟨event, pbufAlloc, env⟩ := input
  cases event with
  | driver event =>
    have hiff := h.noLostWakeup_callDriver_iff hG fun _ => h.noLostWakeup_iff.1 hP
    refine hiff.trans ?_
    simp only [DropsOnlyLast, emptyCall, Option.ite_none_right_eq_some]
    exact ⟨fun hC v i hv hi => hC v i hv.2 hi hv.1,
      fun hC v i hv hi hframe => hC v i ⟨hframe, hv⟩ hi⟩
  | serviceTraffic =>
    cases hframe : s.slot.receivedFrame with
    | none =>
      simp only [Receiver.step, DropsOnlyLast, emptyCall, hframe, if_true]
      refine iff_of_true hP ?_
      rintro v i ⟨⟩
    | some p =>
      have hiff := (h.deliver p).noLostWakeup_callDriver_iff
        (show ReportsBlocks { s with slot := s.slot.deliver p }
          ⟨.driver .netRxRenew, pbufAlloc, env⟩ from ⟨nofun, nofun⟩) nofun
      simp only [Receiver.step, DropsOnlyLast, emptyCall, hframe]
      refine hiff.trans ?_
      exact ⟨fun hC v i hv hi => hC v i hv hi rfl, fun hC v i hv hi _ => hC v i hv hi⟩

end ReceiverInv

/-- In a run whose completed OUT transfers report well-formed blocks, no wake-up is lost if and only
if `pbuf_alloc` never fails for a datagram that is not the last of its NTB. -/
theorem no_lost_wakeup {es : List ReceiverInput}
    (hes : Along Receiver.step ReportsBlocks Receiver.init es) :
    Along Receiver.step (fun s input => NoLostWakeup (s.step input)) Receiver.init es ↔
      Along Receiver.step DropsOnlyLast Receiver.init es := by
  have hinit : ReceiverInv Receiver.init ∧ NoLostWakeup Receiver.init :=
    ⟨ReceiverInv.init, fun _ _ _ hi => nomatch hi⟩
  refine along_iff_along (I := fun s => ReceiverInv s ∧ NoLostWakeup s) ?_ ?_ hinit hes
  · rintro s input ⟨h, -⟩ hG hQ
    exact ⟨h.step hG, hQ⟩
  · rintro s input ⟨h, hP⟩ hG
    exact h.noLostWakeup_step_iff hP hG

/-- A block with two datagrams of one byte. -/
def twoDatagrams : Mem := fun p =>
  ([0x4E, 0x43, 0x4D, 0x48, 12, 0, 0, 0, 34, 0, 12, 0,
    0x4E, 0x43, 0x4D, 0x30, 20, 0, 0, 0, 32, 0, 1, 0, 33, 0, 1, 0, 0, 0, 0, 0,
    0x2a, 0x2b] : List UInt8).getD p 0

/-- The interface is selected, a first completion, for which there is no NTB, arms the OUT endpoint,
and the block is received; `pbuf_alloc` answers `first` for its first datagram. -/
def blockOffered (first : Bool) : List ReceiverInput :=
  [⟨.driver (.netUsbControlTransfer (.setInterface 1)), true, .accepting⟩,
    ⟨.driver (.netUsbTransfer ncmEpDataOut 0), true, .accepting⟩,
    ⟨.driver (.usbWrite twoDatagrams), true, .accepting⟩,
    ⟨.driver (.netUsbTransfer ncmEpDataOut 34), first, .accepting⟩]

lemma entries_twoDatagrams : ∀ j < 2,
    EntryUsed (overwriteNtb (World.init.rx.rxNtb 0) twoDatagrams) j ∧
      wDatagramIndex (overwriteNtb (World.init.rx.rxNtb 0) twoDatagrams) 20 j +
        wDatagramLength (overwriteNtb (World.init.rx.rxNtb 0) twoDatagrams) 20 j ≤ 34 := by
  decide

lemma wellFormedBlock_twoDatagrams :
    WellFormedBlock (overwriteNtb (World.init.rx.rxNtb 0) twoDatagrams) 34 :=
  ⟨by decide, 2, by decide, by decide, entries_twoDatagrams, rfl, rfl⟩

lemma blockOffered_reportsBlocks (first : Bool) :
    Along Receiver.step ReportsBlocks Receiver.init (blockOffered first) := by
  refine ⟨⟨nofun, nofun⟩, ⟨?_, nofun⟩, ⟨nofun, ?_⟩, ⟨?_, nofun⟩, trivial⟩
  · rintro bytes i ⟨⟩ hi
    cases hi
  · rintro block ⟨⟩
    rfl
  · rintro bytes i ⟨⟩ hi
    obtain rfl : 0 = i := Option.some.inj hi
    exact wellFormedBlock_twoDatagrams

/-- The first datagram is stored, and the second one, which is the last, is dropped. -/
theorem no_lost_wakeup_blockOffered :
    Along Receiver.step (fun s input => NoLostWakeup (s.step input)) Receiver.init
      (blockOffered true ++ [⟨.serviceTraffic, false, .accepting⟩]) := by
  have hes : Along Receiver.step ReportsBlocks Receiver.init
      (blockOffered true ++ [⟨.serviceTraffic, false, .accepting⟩]) :=
    along_append.2 ⟨blockOffered_reportsBlocks true, ⟨nofun, nofun⟩, trivial⟩
  refine (no_lost_wakeup hes).2 ⟨?_, ?_, ?_, ?_, ?_, trivial⟩
  · rintro v i - - ⟨⟩
  · rintro v i - - ⟨⟩
  · rintro v i - - ⟨⟩
  · rintro v i - - ⟨⟩
  · rintro v i ⟨⟩ hi -
    obtain rfl : 0 = i := Option.some.inj hi
    exact fun hused => hused.1 rfl

/-- The first of two datagrams is dropped: nothing is left in the slot, and the second is not
offered by the loop. -/
theorem no_lost_wakeup_fails :
    Along Receiver.step ReportsBlocks Receiver.init (blockOffered false) ∧
      ¬ Along Receiver.step (fun s input => NoLostWakeup (s.step input)) Receiver.init
        (blockOffered false) := by
  refine ⟨blockOffered_reportsBlocks false, ?_⟩
  rintro ⟨-, -, -, h, -⟩
  have hd : (datagrams (overwriteNtb (World.init.rx.rxNtb 0) twoDatagrams))[1]? = some [0x2b] := by
    rw [datagrams_eq (show 2 < 800 by decide) (fun j hj => (entries_twoDatagrams j hj).1)
      fun hused => hused.1 rfl]
    rfl
  exact (h 0 1 [0x2b] rfl hd (by decide)).1 rfl

end Fx3Ncm
