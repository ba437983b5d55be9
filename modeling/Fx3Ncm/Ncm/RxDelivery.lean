/-
# Delivery of received datagrams

The datagrams of the received blocks are offered to `net_rx_cb` one after the other.  As long
as the last datagram of a block has not been accepted the offers follow the received stream.
When it is accepted the block is not released: `rx_user_ntb` is not cleared and the free list
refuses the NTB, and the same datagram will be offered again.
-/
import Fx3Ncm.Ncm.RxWalk

namespace Fx3Ncm

open ByteMemory Runs Offers

/-- The blocks reported by completions of OUT transfers. -/
def receivedBlocks (log : List Call) : List Mem :=
  log.filterMap fun
    | .netUsbTransfer ep _ block => if ep = ncmEpDataOut then block else none
    | _ => none

/-- The datagrams of the received blocks, in order. -/
def receivedDatagrams (log : List Call) : List (List UInt8) :=
  (receivedBlocks log).flatMap datagrams

/-- The first `n` bytes of `m` are a block with at least one datagram: some entries with nonzero
index and length that describe datagrams inside the block, followed by a zero entry. -/
def WellFormedBlock (m : Mem) (n : ℕ) : Prop :=
  n ≤ ncmNtbMaxSize ∧ ∃ k, 1 ≤ k ∧ ndp16DatagramOffset m + sizeofNdp16Datagram * (k + 1) ≤ n ∧
    (∀ j < k, EntryUsed m j ∧ wDatagramIndex m (ndp16DatagramOffset m) j +
      wDatagramLength m (ndp16DatagramOffset m) j ≤ n) ∧
    wDatagramIndex m (ndp16DatagramOffset m) k = 0 ∧ wDatagramLength m (ndp16DatagramOffset m) k = 0

/-- The environment of the OUT direction: completions belong to pending transfers and report
well-formed blocks, and the hardware writes only while a transfer is pending. -/
structure ReceivesBlocks (w : World) (input : Input) : Prop where
  completes : CompletesPending ncmEpDataOut w input
  wellFormed : ∀ bytes i, input.1 = .netUsbTransfer ncmEpDataOut bytes → w.rx.rxUsbdNtb = some i →
    WellFormedBlock (w.rx.rxNtb i) bytes.toNat
  writes : ∀ block, input.1 = .usbWrite block → 0 < pending ncmEpDataOut w.log

/-- A call of `rx_update_user_ntb` in the state `v` has the last datagram of `rx_ntb[i]`
accepted. -/
def AcceptsLast (v : World) (env : Env) (i : NtbPtr) : Prop :=
  (rxFetchUserNtb v).rx.rxUserNtb = some i ∧ env.netRxCb = true ∧
    ¬ EntryUsed ((rxFetchUserNtb v).rx.rxNtb i) ((rxFetchUserNtb v).rx.rxUserNtbDatagramIndex + 1)

/-- What is to hold of a step and of the state after it: each datagram offered is the next one
of the received blocks that has not been accepted, so that the accepted ones are a prefix of
those received; and a block is released when its last datagram is accepted. -/
structure DeliversOnce (w : World) (input : Input) : Prop where
  accepted_prefix : accepted (offers (step w input).log) <+: receivedDatagrams (step w input).log
  follows : Follows (receivedDatagrams (step w input).log) (offers (step w input).log)
  released : ∀ v i, rxCall w input = some v → AcceptsLast v input.2 i →
    (rxUpdateUserNtb input.2 v).2.rx.rxUserNtb = none ∧
      some i ∈ (rxUpdateUserNtb input.2 v).2.rx.rxFreeNtb.ntbList

lemma receivedBlocks_append (l l' : List Call) :
    receivedBlocks (l ++ l') = receivedBlocks l ++ receivedBlocks l' := List.filterMap_append

lemma receivedBlocks_walkCalls (i : NtbPtr) (m : Mem) (j : ℕ) (ok pushed : Bool) :
    receivedBlocks (walkCalls i m j ok pushed) = [] := by
  rw [walkCalls, receivedBlocks_append]
  split_ifs <;> rfl

/-! ### Well-formed blocks -/

lemma WellFormedBlock.lists {m : Mem} {n : ℕ} (h : WellFormedBlock m n) :
    Lists m (datagrams m) ∧ 0 < (datagrams m).length := by
  obtain ⟨hn, k, hk, htable, hentries, hzero, -⟩ := h
  simp only [ncmNtbMaxSize, sizeofNdp16Datagram] at hn htable
  have hend : ¬ EntryUsed m k := fun hused => hused.1 hzero
  have heq := datagrams_eq (show k < 800 by omega) (fun j hj => (hentries j hj).1) hend
  have hlen : (datagrams m).length = k := by rw [heq]; simp
  refine ⟨⟨?_, ?_, ?_, ?_⟩, by omega⟩
  · intro j hj
    exact (hentries j (by omega)).1
  · rw [hlen]
    exact hend
  · intro j hj
    simp only [heq, List.getElem_map, List.getElem_range]
  · rw [hlen]
    omega

/-- `rx_update_user_ntb` never takes an NTB away from the user. -/
lemma user_rxUpdateUserNtb (env : Env) (v : World) :
    (rxUpdateUserNtb env v).2.rx.rxUserNtb = (rxFetchUserNtb v).rx.rxUserNtb := by
  cases hu : (rxFetchUserNtb v).rx.rxUserNtb with
  | none =>
    simp only [rxUpdateUserNtb, hu]
  | some i =>
    have hread : Reading (rxFetchUserNtb v) i _ _ := ⟨hu, rfl, rfl⟩
    rw [← rxUpdateUserNtb_fetch env hu]
    exact (hread.update_reading env).user

/-! ### The invariant -/

/-- Nothing has been received yet. -/
structure NoneReceived (w : World) (p : RxPhase) : Prop extends RxShape w p where
  phase : p = .fresh ∨ p = .armed
  blocks : receivedBlocks w.log = []
  none_offered : offers w.log = []

/-- One block has been received and its last datagram has not been accepted. -/
structure Delivering (w : World) (m : Mem) (j : ℕ) : Prop extends
    RxShape w .reading, Reading w 0 m j where
  blocks : receivedBlocks w.log = [m]
  lists : Lists m (datagrams m)
  lt_length : j < (datagrams m).length
  follows : Follows (datagrams m) (offers w.log)
  accepted_length : (accepted (offers w.log)).length = j

/-- Calls that neither offer a datagram nor report a received block. -/
def Call.NotDelivery : Call → Prop
  | .netRxCb _ _ _ _ _ => False
  | .netUsbTransfer ep _ _ => ep ≠ ncmEpDataOut
  | _ => True

lemma Call.NotRx.notDelivery {c : Call} (h : c.NotRx) : c.NotDelivery := by
  cases c <;> first | exact h | trivial

section NotDelivery

variable {l l' : List Call} (h : Continues Call.NotDelivery l l')
include h

lemma Continues.receivedBlocks : receivedBlocks l' = receivedBlocks l := by
  refine h.filterMap_eq fun c hc => ?_
  cases c with
  | netUsbTransfer ep bytes block => exact if_neg hc
  | _ => rfl

lemma Continues.offers : offers l' = offers l :=
  h.filterMap_eq fun c hc => by cases c <;> first | rfl | exact absurd hc id

end NotDelivery

lemma continues_rxTryStart (env : Env) (w : World) :
    Continues Call.NotDelivery w.log (rxTryStart env w).2.log := by
  rw [rxTryStart]
  split_ifs
  · exact .refl _
  · exact .refl _
  · exact .refl _
  · dsimp only
    split
    · exact .refl _
    · split_ifs
      · exact .single trivial
      · exact ⟨[_, _], List.append_assoc _ _ _, by simp [Call.NotDelivery]⟩

namespace NoneReceived

variable {w w' : World} {p : RxPhase}

lemma init : NoneReceived World.init .fresh := ⟨RxShape.init, Or.inl rfl, rfl, rfl⟩

lemma of_continues (h : NoneReceived w p) {p' : RxPhase} (hs : RxShape w' p')
    (hp : p' = .fresh ∨ p' = .armed) (hlog : Continues Call.NotDelivery w.log w'.log) :
    NoneReceived w' p' :=
  ⟨hs, hp, hlog.receivedBlocks.trans h.blocks, hlog.offers.trans h.none_offered⟩

lemma quiet (h : NoneReceived w p) (hq : RxQuiet w w') : NoneReceived w' p :=
  h.of_continues (h.toRxShape.quiet hq) h.phase (hq.calls.mono fun _ hc => hc.notDelivery)

/-- Before the first block, `rx_update_user_ntb` finds nothing to offer. -/
lemma update (h : NoneReceived w p) (env : Env) : NoneReceived (rxUpdateUserNtb env w).2 p := by
  have hfetch : p.fetch.user = none := by
    rcases h.phase with rfl | rfl <;> rfl
  refine h.of_continues (h.toRxShape.update env).1 h.phase ?_
  rw [rxUpdateUserNtb_of_none env h.state hfetch]
  exact .refl _

lemma start (h : NoneReceived w p) (env : Env) : ∃ p', NoneReceived (rxTryStart env w).2 p' := by
  have hlog := continues_rxTryStart env w
  rcases h.toRxShape.start env with ⟨heq, -⟩ | ⟨hu, -, -, hs, -⟩
  · rw [heq]
    exact ⟨p, h⟩
  · exact ⟨p.start, h.of_continues hs (Or.inr (RxPhase.start_eq_armed hu)) hlog⟩

/-- The step lemma, for steps that receive nothing. -/
lemma step (h : NoneReceived w p) {input : Input}
    (hinput : ∀ bytes, input.1 ≠ .netUsbTransfer ncmEpDataOut bytes) :
    ∃ p', NoneReceived (Fx3Ncm.step w input) p' := by
  apply rx_step_rule (I := fun w => ∃ p, NoneReceived w p) ⟨p, h⟩
  case quiet =>
    rintro w w' hq ⟨p, h⟩
    exact ⟨p, h.quiet hq⟩
  case push =>
    rintro w ⟨p, h⟩
    exact ⟨p, h.of_continues h.toRxShape.push h.phase (.single trivial)⟩
  case update =>
    intro v hq _
    exact ⟨p, (h.quiet hq).update _⟩
  case start =>
    rintro w ⟨p, h⟩
    exact h.start _
  case dataOut =>
    intro bytes hin
    exact absurd hin (hinput bytes)
  case write =>
    intro block _
    refine ⟨p, h.of_continues (h.toRxShape.write block) h.phase ?_⟩
    rw [usbWrite]
    split <;> exact .refl _

/-- Receiving the first block. -/
lemma receive (h : NoneReceived w p) {env : Env} {bytes : UInt16}
    (hG : ReceivesBlocks w (.netUsbTransfer ncmEpDataOut bytes, env))
    (hC : ∀ v i, rxCall w (.netUsbTransfer ncmEpDataOut bytes, env) = some v →
      ¬ AcceptsLast v env i) :
    ∃ m j, Delivering (Fx3Ncm.step w (.netUsbTransfer ncmEpDataOut bytes, env)) m j := by
  have hpos := hG.completes bytes rfl
  obtain rfl := h.toRxShape.armed_of_pending hpos
  obtain ⟨hread, ok, hlog⟩ := h.toRxShape.received env bytes
  obtain ⟨hlists, hlen⟩ := (hG.wellFormed bytes 0 rfl h.usbd).lists
  set m := w.rx.rxNtb 0 with hm
  have hblocks :
      receivedBlocks (Fx3Ncm.step w (.netUsbTransfer ncmEpDataOut bytes, env)).log = [m] := by
    rw [hlog, receivedBlocks_append, receivedBlocks_append, h.blocks, receivedBlocks_walkCalls]
    rfl
  have hoffers : offers (Fx3Ncm.step w (.netUsbTransfer ncmEpDataOut bytes, env)).log =
      [((datagrams m)[0], env.netRxCb)] := by
    rw [hlog, offers_append, offers_append, h.none_offered, offers_walkCalls,
      hlists.datagram 0 hlen]
    rfl
  -- if the datagram is accepted there is another one
  have hmore : env.netRxCb = true → 0 + 1 < (datagrams m).length := by
    intro hok
    by_contra hlast
    have hfetch := h.toRxShape.fetch_received bytes
    refine hC _ 0 rfl ⟨?_, hok, ?_⟩
    · rw [hfetch]
      rfl
    · rw [hfetch]
      exact fun hused => hlast ((hlists.entryUsed_succ_iff hlen).1 hused)
  refine ⟨m, _, ⟨h.toRxShape.step_of_dataOut env bytes hpos, hread, hblocks, hlists, ?_, ?_, ?_⟩⟩
  · rw [hlists.cursorStep_eq hlen]
    split_ifs with hnext
    · exact hnext.2
    · exact hlen
  · rw [hoffers]
    exact (follows_nil (datagrams m)).append_due rfl hlen env.netRxCb
  · rw [hoffers, hlists.cursorStep_eq hlen]
    cases hok : env.netRxCb with
    | false => rfl
    | true =>
      rw [if_pos ⟨rfl, hmore hok⟩]
      rfl

end NoneReceived

namespace Delivering

variable {w w' : World} {m : Mem} {j : ℕ}

lemma of_continues (h : Delivering w m j) (hs : RxShape w' .reading) (hread : Reading w' 0 m j)
    (hlog : Continues Call.NotDelivery w.log w'.log) : Delivering w' m j := by
  refine ⟨hs, hread, hlog.receivedBlocks.trans h.blocks, h.lists, h.lt_length, ?_, ?_⟩
  · rw [hlog.offers]
    exact h.follows
  · rw [hlog.offers]
    exact h.accepted_length

lemma quiet (h : Delivering w m j) (hq : RxQuiet w w') : Delivering w' m j := by
  have hrx : w'.rx = w.rx := hq.same
  refine h.of_continues (h.toRxShape.quiet hq) ?_ (hq.calls.mono fun _ hc => hc.notDelivery)
  refine ⟨?_, ?_, ?_⟩ <;> rw [hrx]
  · exact h.toReading.user
  · exact h.block
  · exact h.index

lemma pending_eq_zero (h : Delivering w m j) : pending ncmEpDataOut w.log = 0 := by
  have hle := h.pending_le
  rw [if_neg (by decide)] at hle
  omega

/-- A call of `rx_update_user_ntb` that does not have the last datagram accepted. -/
lemma update (h : Delivering w m j) {env : Env} (hC : ¬ AcceptsLast w env 0) :
    ∃ j', Delivering (rxUpdateUserNtb env w).2 m j' := by
  have hlt := h.lt_length
  have hfetch := rxFetchUserNtb_of_user h.toReading.user
  have hmore : env.netRxCb = true → j + 1 < (datagrams m).length := by
    intro hok
    by_contra hlast
    refine hC ⟨?_, hok, ?_⟩
    · rw [hfetch]
      exact h.toReading.user
    · rw [hfetch, h.block, h.index]
      exact fun hused => hlast ((h.lists.entryUsed_succ_iff hlt).1 hused)
  obtain ⟨-, hlog, -⟩ := h.toReading.update env
  have hread := h.toReading.update_reading env
  have hoffers : offers (rxUpdateUserNtb env w).2.log =
      offers w.log ++ [((datagrams m)[j], env.netRxCb)] := by
    rw [hlog, offers_append, offers_walkCalls, h.lists.datagram j hlt]
  refine ⟨_, ⟨(h.toRxShape.update env).1, hread, ?_, h.lists, ?_, ?_, ?_⟩⟩
  · rw [hlog, receivedBlocks_append, receivedBlocks_walkCalls, List.append_nil]
    exact h.blocks
  · rw [h.lists.cursorStep_eq hlt]
    split_ifs with hnext
    · exact hnext.2
    · exact hlt
  · rw [hoffers]
    exact h.follows.append_due h.accepted_length hlt env.netRxCb
  · rw [hoffers, accepted_append, List.length_append, h.accepted_length,
      h.lists.cursorStep_eq hlt]
    cases hok : env.netRxCb with
    | false => rfl
    | true =>
      rw [if_pos ⟨rfl, hmore hok⟩]
      rfl

/-- The step lemma, for steps that do not have the last datagram accepted. -/
lemma step (h : Delivering w m j) {input : Input} (hG : ReceivesBlocks w input)
    (hC : ∀ v i, rxCall w input = some v → ¬ AcceptsLast v input.2 i) :
    ∃ j', Delivering (Fx3Ncm.step w input) m j' := by
  have hzero := h.pending_eq_zero
  apply rx_step_rule (I := fun w => ∃ j, Delivering w m j) ⟨j, h⟩
  case quiet =>
    rintro w w' hq ⟨j, h⟩
    exact ⟨j, h.quiet hq⟩
  case push =>
    rintro w ⟨j, h⟩
    refine ⟨j, h.of_continues h.toRxShape.push ?_ (.single trivial)⟩
    rw [pushRxFree_usbd h.state]
    exact ⟨h.toReading.user, h.block, h.index⟩
  case update =>
    intro v hq hcall
    exact (h.quiet hq).update (hC v 0 hcall)
  case start =>
    rintro w ⟨j, h⟩
    rw [rxTryStart_of_blocked _ (Or.inl (by rw [h.toRxShape.usbd]; exact Option.some_ne_none 0))]
    exact ⟨j, h⟩
  case dataOut =>
    -- reception is not started again, so no second block arrives
    intro bytes hin
    have hpos := hG.completes bytes hin
    omega
  case write =>
    intro block hin
    have hpos := hG.writes block hin
    omega

end Delivering

/-! ### Delivery -/

/-- A call that has the last datagram accepted does not release the block. -/
lemma DeliversOnce.not_acceptsLast {w : World} {input : Input} (h : DeliversOnce w input) :
    ∀ v i, rxCall w input = some v → ¬ AcceptsLast v input.2 i := by
  intro v i hcall hlast
  have huser := (h.released v i hcall hlast).1
  rw [user_rxUpdateUserNtb, hlast.1] at huser
  cases huser

lemma NoneReceived.follows {w : World} {p : RxPhase} (h : NoneReceived w p) :
    Follows (receivedDatagrams w.log) (Fx3Ncm.offers w.log) := by
  rw [h.none_offered]
  exact follows_nil _

lemma Delivering.follows_received {w : World} {m : Mem} {j : ℕ} (h : Delivering w m j) :
    Follows (receivedDatagrams w.log) (Fx3Ncm.offers w.log) := by
  rw [receivedDatagrams, h.blocks, List.flatMap_singleton]
  exact h.follows

/-- Nothing has been received, or the last datagram of the only block has not been accepted. -/
def InOrder (w : World) : Prop := (∃ p, NoneReceived w p) ∨ ∃ m j, Delivering w m j

lemma InOrder.follows {w : World} (h : InOrder w) :
    Follows (receivedDatagrams w.log) (Fx3Ncm.offers w.log) := by
  rcases h with ⟨p, h⟩ | ⟨m, j, h⟩
  · exact h.follows
  · exact h.follows_received

lemma InOrder.step {w : World} {input : Input} (h : InOrder w) (hG : ReceivesBlocks w input)
    (hC : ∀ v i, rxCall w input = some v → ¬ AcceptsLast v input.2 i) :
    InOrder (Fx3Ncm.step w input) := by
  rcases h with ⟨p, h⟩ | ⟨m, j, h⟩
  · obtain ⟨event, env⟩ := input
    by_cases hreceive : ∃ bytes, event = .netUsbTransfer ncmEpDataOut bytes
    · obtain ⟨bytes, rfl⟩ := hreceive
      exact Or.inr (h.receive hG hC)
    · exact Or.inl (h.step fun bytes hin => hreceive ⟨bytes, hin⟩)
  · exact Or.inr ⟨m, h.step hG hC⟩

/-- In a run that receives well-formed blocks, the datagrams are delivered exactly once and in
order, with every finished block released, if and only if the consumer never accepts the last
datagram of a block. -/
theorem rx_delivery {es : List Input} (hes : Along step ReceivesBlocks World.init es) :
    Along step DeliversOnce World.init es ↔
      Along step (fun w input => ∀ v i, rxCall w input = some v → ¬ AcceptsLast v input.2 i)
        World.init es := by
  have hinit : InOrder World.init := Or.inl ⟨_, NoneReceived.init⟩
  refine along_iff_along (I := InOrder) ?_ ?_ hinit hes
  · intro w input h hG hQ
    exact h.step hG hQ.not_acceptsLast
  · intro w input h hG
    refine ⟨DeliversOnce.not_acceptsLast, fun hC => ?_⟩
    have hfollows := (h.step hG hC).follows
    refine ⟨hfollows.accepted_prefix, hfollows, ?_⟩
    intro v i hcall hlast
    exact absurd hlast (hC v i hcall)

/-- The block of `oneDatagram` is received and its datagram is offered. -/
def blockReceived (env : Env) : List Input :=
  receptionStarted ++ [(.usbWrite ((run step World.init oneDatagram).tx.txNtb 0), env),
    (.netUsbTransfer ncmEpDataOut 60, env)]

lemma blockReceived_receivesBlocks (env : Env) :
    Along step ReceivesBlocks World.init (blockReceived env) := by
  -- the block has a single entry, which describes the byte at 56
  have hblock : WellFormedBlock (overwriteNtb (World.init.rx.rxNtb 0)
      ((run step World.init oneDatagram).tx.txNtb 0)) 60 := by
    refine ⟨by decide, 1, Nat.le_refl 1, by decide, ?_, rfl, rfl⟩
    intro j hj
    obtain rfl : j = 0 := Nat.lt_one_iff.1 hj
    exact ⟨⟨by decide, by decide⟩, by decide⟩
  have hquiet : ∀ w request, ReceivesBlocks w (.netUsbControlTransfer request, .accepting) :=
    fun _ _ => ⟨nofun, nofun, nofun⟩
  have hrenew : ∀ w, ReceivesBlocks w (.netRxRenew, .accepting) := fun _ => ⟨nofun, nofun, nofun⟩
  refine ⟨hquiet _ _, hrenew _, ⟨nofun, nofun, ?_⟩, ⟨?_, ?_, nofun⟩, trivial⟩
  · rintro block -
    exact Nat.one_pos
  · rintro bytes ⟨⟩
    exact Nat.one_pos
  · rintro bytes i ⟨⟩ hi
    obtain rfl : 0 = i := Option.some.inj hi
    exact hblock

/-- The datagram of the block is refused twice, and offered again. -/
theorem rx_delivery_blockReceived :
    Along step DeliversOnce World.init
      (blockReceived .refusing ++ [(.netRxRenew, .refusing)]) := by
  have hes : Along step ReceivesBlocks World.init
      (blockReceived .refusing ++ [(.netRxRenew, .refusing)]) :=
    along_append.2 ⟨blockReceived_receivesBlocks _, ⟨nofun, nofun, nofun⟩, trivial⟩
  refine (rx_delivery hes).2 ⟨?_, ?_, ?_, ?_, ?_, trivial⟩
  · rintro v i ⟨⟩ ⟨hnone, -⟩
    cases hnone
  · rintro v i ⟨⟩ ⟨hnone, -⟩
    cases hnone
  · rintro v i ⟨⟩
  · rintro v i - ⟨-, hok, -⟩
    cases hok
  · rintro v i - ⟨-, hok, -⟩
    cases hok

/-- The only datagram of the block is accepted, and the user NTB is not released. -/
theorem rx_delivery_fails :
    Along step ReceivesBlocks World.init (blockReceived .accepting) ∧
      ¬ Along step DeliversOnce World.init (blockReceived .accepting) := by
  refine ⟨blockReceived_receivesBlocks _, ?_⟩
  rintro ⟨-, -, -, h, -⟩
  obtain ⟨huser, -⟩ := h.released _ 0 rfl ⟨rfl, rfl, fun hused => hused.1 rfl⟩
  cases huser

end Fx3Ncm
