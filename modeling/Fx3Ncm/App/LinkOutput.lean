/-
# The transmit path of the firmware

lwIP hands a frame to `link_output_app`, which asks `net_can_tx` again and again until the driver
has room, and then calls `net_tx`; `net_tx_cb` copies the frame out of its chain of pbufs.  The
other contexts of the firmware come in between at any point of this loop.

* `frames_stored`: if no frame is longer than an NTB can hold, every frame for which
  `link_output_app` has returned `ERR_OK` is found in an NTB, once, complete and in order; there are
  at most sixteen of them, and one NTB is sent.
* `waiting_futile`: when `link_output_app` has to wait, it waits for ever: no later answer of
  `net_can_tx` is `true`, and the call ends only if the application is stopped.
-/
import Fx3Ncm.App.Pbuf
import Fx3Ncm.Ncm.TxCapacity
import Mathlib.Algebra.Order.BigOperators.Group.List
import Mathlib.Algebra.Order.Group.Nat

namespace Fx3Ncm

open ByteMemory Runs

/-! ### pbuf_copy_partial -/

/-- The loop of `pbuf_copy_partial`: `memory` holds the payloads, and the copies go to `dst` from
`dataptr` on.  The variables are of type `u16_t`. -/
def pbufCopyLoop (memory : Mem) (dataptr : ℕ) :
    List Pbuf → (len offset left copiedTotal : ℕ) → Mem → ℕ × Mem
  | [], _, _, _, copiedTotal, dst => (copiedTotal, dst)
  | p :: chain, len, offset, left, copiedTotal, dst =>
    if len ≠ 0 then
      if offset ≠ 0 ∧ p.len ≤ offset then
        pbufCopyLoop memory dataptr chain len ((offset - p.len) % 2 ^ 16) left copiedTotal dst
      else
        let bufCopyLen := (p.len - offset) % 2 ^ 16
        let bufCopyLen := if len < bufCopyLen then len else bufCopyLen
        let dst := store dst (dataptr + left) (load memory (p.payload + offset) bufCopyLen)
        pbufCopyLoop memory dataptr chain ((len - bufCopyLen) % 2 ^ 16) 0
          ((left + bufCopyLen) % 2 ^ 16) ((copiedTotal + bufCopyLen) % 2 ^ 16) dst
    else (copiedTotal, dst)

/-- `pbuf_copy_partial`, for pointers that are not `NULL`: the bytes copied, and the memory that the
data pointer leads to. -/
def pbufCopyPartial (memory : Mem) (chain : List Pbuf) (dataptr len offset : ℕ) (dst : Mem) :
    ℕ × Mem :=
  pbufCopyLoop memory dataptr chain len offset 0 0 dst

/-- The payloads of a chain, one after the other. -/
def chainBytes (memory : Mem) (chain : List Pbuf) : List UInt8 :=
  chain.flatMap fun p => load memory p.payload p.len

/-- The part of a chain that the first pbuf contributes, and the rest. -/
lemma take_drop_chainBytes (memory : Mem) (p : Pbuf) (chain : List Pbuf) {offset : ℕ} (len : ℕ)
    (h : offset ≤ p.len) :
    ((chainBytes memory (p :: chain)).drop offset).take len =
      load memory (p.payload + offset) (min len (p.len - offset)) ++
        (chainBytes memory chain).take (len - min len (p.len - offset)) := by
  have hlen : (load memory p.payload p.len).length = p.len := length_load _ _ _
  have hfirst : ((load memory p.payload p.len).drop offset).take len =
      load memory (p.payload + offset) (min len (p.len - offset)) := by
    rw [← take_drop_load memory (show offset + min len (p.len - offset) ≤ p.len by omega),
      List.take_eq_take_min, List.length_drop, hlen]
  rw [chainBytes, List.flatMap_cons, ← chainBytes,
    List.drop_append_of_le_length (by rw [hlen]; exact h), List.take_append, hfirst,
    List.length_drop, hlen]
  congr 2
  omega

lemma pbufCopyLoop_eq (memory : Mem) (dataptr : ℕ) {chain : List Pbuf} {len : ℕ}
    (hchain : ∀ p ∈ chain, p.len < 2 ^ 16) (offset : ℕ) (hoffset : offset < 2 ^ 16)
    (left copiedTotal : ℕ) (hleft : left + len < 2 ^ 16) (hcopied : copiedTotal + len < 2 ^ 16)
    (dst : Mem) :
    pbufCopyLoop memory dataptr chain len offset left copiedTotal dst =
      (copiedTotal + (((chainBytes memory chain).drop offset).take len).length,
        store dst (dataptr + left) (((chainBytes memory chain).drop offset).take len)) := by
  induction chain generalizing len offset left copiedTotal dst with
  | nil => simp [pbufCopyLoop, chainBytes]
  | cons p chain ih =>
    have hp : p.len < 2 ^ 16 := hchain p List.mem_cons_self
    have hchain' : ∀ q ∈ chain, q.len < 2 ^ 16 := fun q hq => hchain q (List.mem_cons_of_mem _ hq)
    rw [pbufCopyLoop]
    by_cases hlen : len = 0
    · simp [hlen]
    rw [if_pos hlen]
    by_cases hskip : offset ≠ 0 ∧ p.len ≤ offset
    · -- nothing is copied from this pbuf
      have hdrop : (chainBytes memory (p :: chain)).drop offset =
          (chainBytes memory chain).drop (offset - p.len) := by
        rw [chainBytes, List.flatMap_cons, ← chainBytes, List.drop_append,
          List.drop_eq_nil_of_le (by rw [length_load]; exact hskip.2), length_load, List.nil_append]
      rw [if_pos hskip, Nat.mod_eq_of_lt (by omega), hdrop]
      exact ih hchain' _ (by omega) _ _ hleft hcopied _
    · have hle : offset ≤ p.len := by omega
      have hmod : (p.len - offset) % 2 ^ 16 = p.len - offset := Nat.mod_eq_of_lt (by omega)
      have hmin : (if len < p.len - offset then len else p.len - offset) =
          min len (p.len - offset) := by
        split_ifs <;> omega
      rw [if_neg hskip, take_drop_chainBytes memory p chain len hle]
      simp only [hmod, hmin]
      generalize hn : min len (p.len - offset) = n
      rw [Nat.mod_eq_of_lt (show len - n < 2 ^ 16 by omega),
        Nat.mod_eq_of_lt (show left + n < 2 ^ 16 by omega),
        Nat.mod_eq_of_lt (show copiedTotal + n < 2 ^ 16 by omega),
        ih hchain' 0 (by omega) _ _ (by omega) (by omega), List.drop_zero, store_append,
        List.length_append, length_load, Nat.add_assoc, Nat.add_assoc]

/-! ### net_tx_cb -/

/-- A frame that lwIP hands over: a chain of pbufs with its memory.  As lwIP documents it, the
field `tot_len` of the first pbuf, an `u16_t`, is the sum of the fields `len`. -/
structure Packet where
  memory : Mem
  head : Pbuf
  tail : List Pbuf
  totLen_eq : head.totLen = ((head :: tail).map Pbuf.len).sum
  totLen_lt : head.totLen < 2 ^ 16

namespace Packet

variable (p : Packet)

/-- The chain of the frame. -/
def chain : List Pbuf := p.head :: p.tail

/-- The bytes of the frame. -/
def bytes : List UInt8 := chainBytes p.memory p.chain

/-- The field `tot_len`. -/
def totLen : UInt16 := UInt16.ofNat p.head.totLen

/-- `net_tx_cb` -/
def netTxCb (destination : ℕ) (dst : Mem) : ℕ × Mem :=
  pbufCopyPartial p.memory p.chain destination p.head.totLen 0 dst

/-- What `net_tx_cb` writes to the destination that it is given. -/
def written : List UInt8 :=
  let r := p.netTxCb 0 fun _ => 0
  load r.2 0 r.1

/-- What `net_tx_cb` returns. -/
def returned : UInt16 := UInt16.ofNat (p.netTxCb 0 fun _ => 0).1

lemma length_bytes : p.bytes.length = p.head.totLen := by
  rw [p.totLen_eq, bytes, chainBytes, chain, List.length_flatMap]
  congr 1
  exact List.map_congr_left fun q _ => length_load _ _ _

/-- Wherever it writes to, `net_tx_cb` writes the whole frame and returns its length. -/
lemma netTxCb_eq (destination : ℕ) (dst : Mem) :
    p.netTxCb destination dst = (p.bytes.length, store dst destination p.bytes) := by
  have hchain : ∀ q ∈ p.chain, q.len < 2 ^ 16 := by
    intro q hq
    have hle : q.len ≤ (p.chain.map Pbuf.len).sum := List.le_sum_of_mem (List.mem_map_of_mem hq)
    have hsum : p.head.totLen = (p.chain.map Pbuf.len).sum := p.totLen_eq
    have hlt := p.totLen_lt
    omega
  have hlt := p.totLen_lt
  rw [netTxCb, pbufCopyPartial, pbufCopyLoop_eq p.memory destination hchain 0 (by decide) 0 0
    (by omega) (by omega), ← bytes, List.drop_zero, List.take_of_length_le p.length_bytes.le,
    Nat.zero_add, Nat.add_zero]

lemma written_eq : p.written = p.bytes := by
  simp only [written, netTxCb_eq, load_store_self]

lemma returned_eq : p.returned = p.totLen := by
  rw [returned, netTxCb_eq, totLen, length_bytes]

lemma toNat_totLen : p.totLen.toNat = p.head.totLen :=
  UInt16.toNat_ofNat_of_lt' p.totLen_lt

/-- The frame is not empty, and an NTB has room for it.  The frames that lwIP hands over have the
`mtu` of the interface, 1514 bytes, and an Ethernet header at most. -/
def Fits : Prop := 1 ≤ p.head.totLen ∧ p.head.totLen ≤ maxDatagramSize

instance : Decidable p.Fits := inferInstanceAs (Decidable (_ ∧ _))

variable {p} in
/-- `net_tx` with this frame follows the protocol of its callers. -/
lemma Fits.streamProtocol (hfits : p.Fits) {w : World} (hadmitted : w.admitted = some p.totLen)
    (env : Env) : StreamProtocol w (.netTx p.written p.returned, env) := by
  refine ⟨⟨?_, ?_, ?_⟩, ?_⟩
  · rw [p.returned_eq]
    exact hadmitted
  · rw [p.returned_eq, p.toNat_totLen]
    exact hfits.2
  · rw [p.written_eq, p.length_bytes, p.returned_eq, p.toNat_totLen]
  · rintro _ _ ⟨⟩
    rw [p.returned_eq, p.toNat_totLen]
    exact hfits.1

end Packet

/-! ### link_output_app -/

/-- The values of type `err_t` that `link_output_app` returns. -/
inductive LinkErr where
  | ok
  | use
deriving DecidableEq, Repr

/-- Where the thread of lwIP is: outside `link_output_app`, at the head of its loop, or between
`net_can_tx` and `net_tx`. -/
inductive LinkPc where
  | idle
  | looping (p : Packet)
  | admitted (p : Packet)

/-- The driver, the thread, and what `link_output_app` has returned so far. -/
structure Link where
  world : World
  pc : LinkPc
  returned : List (Packet × LinkErr)

/-- A step: lwIP calls `link_output_app`; its loop comes round, with the value of
`glIsApplnActive`; `net_tx` is called; or another context takes a step. -/
inductive LinkEvent where
  | call (p : Packet)
  | attempt (glIsApplnActive : Bool) (env : Env)
  | send (env : Env)
  | other (input : Input)

namespace Link

/-- The start, after `net_init`. -/
def init : Link := ⟨World.init, .idle, []⟩

/-- `link_output_app`, step by step; a step that the thread cannot take changes nothing. -/
def step (s : Link) : LinkEvent → Link
  | .call p =>
    match s.pc with
    | .idle => { s with pc := .looping p }
    | _ => s
  | .attempt glIsApplnActive env =>
    match s.pc with
    | .looping p =>
      if !glIsApplnActive then { s with pc := .idle, returned := s.returned ++ [(p, .use)] }
      else { s with
        world := Fx3Ncm.step s.world (.netCanTx p.totLen, env)
        pc := if (netCanTx env p.totLen s.world).1 then .admitted p else .looping p }
    | _ => s
  | .send env =>
    match s.pc with
    | .admitted p => { s with
        world := Fx3Ncm.step s.world (.netTx p.written p.returned, env)
        pc := .idle
        returned := s.returned ++ [(p, .ok)] }
    | _ => s
  | .other input => { s with world := Fx3Ncm.step s.world input }

/-- The frames for which `link_output_app` has returned `ERR_OK`. -/
def accepted (s : Link) : List Packet :=
  s.returned.filterMap fun r => if r.2 = .ok then some r.1 else none

/-- The other contexts do not call `net_can_tx` and `net_tx`, and report completions only for
transfers that have been started. -/
def Others (s : Link) (e : LinkEvent) : Prop :=
  ∀ input, e = .other input → OtherContext s.world input

/-- The promises of the environment: those of the other contexts, and that lwIP hands over frames
that fit. -/
def Contract (s : Link) (e : LinkEvent) : Prop :=
  s.Others e ∧ ∀ p, e = .call p → p.Fits

/-- What a step can do. -/
inductive Moves (s : Link) : LinkEvent → Link → Prop
  | stay (e : LinkEvent) : Moves s e s
  | call (p : Packet) (hpc : s.pc = .idle) : Moves s (.call p) { s with pc := .looping p }
  | stop (p : Packet) (env : Env) (hpc : s.pc = .looping p) :
      Moves s (.attempt false env) { s with pc := .idle, returned := s.returned ++ [(p, .use)] }
  | allow (p : Packet) (env : Env) (hpc : s.pc = .looping p)
      (hcan : (netCanTx env p.totLen s.world).1 = true) : Moves s (.attempt true env)
      { s with world := Fx3Ncm.step s.world (.netCanTx p.totLen, env), pc := .admitted p }
  | refuse (p : Packet) (env : Env) (hpc : s.pc = .looping p)
      (hcan : (netCanTx env p.totLen s.world).1 = false) : Moves s (.attempt true env)
      { s with world := Fx3Ncm.step s.world (.netCanTx p.totLen, env), pc := .looping p }
  | send (p : Packet) (env : Env) (hpc : s.pc = .admitted p) : Moves s (.send env)
      { s with
        world := Fx3Ncm.step s.world (.netTx p.written p.returned, env)
        pc := .idle
        returned := s.returned ++ [(p, .ok)] }
  | other (input : Input) :
      Moves s (.other input) { s with world := Fx3Ncm.step s.world input }

lemma moves_step (s : Link) (e : LinkEvent) : s.Moves e (s.step e) := by
  cases e with
  | other input => exact .other input
  | call p =>
    cases hpc : s.pc with
    | idle =>
      rw [step, hpc]
      exact .call p hpc
    | _ =>
      rw [step, hpc]
      exact .stay _
  | attempt active env =>
    cases hpc : s.pc with
    | looping p =>
      rw [step, hpc]
      cases active with
      | false => exact .stop p env hpc
      | true =>
        simp only [Bool.not_true, Bool.false_eq_true, if_false]
        cases hcan : (netCanTx env p.totLen s.world).1 with
        | true => exact .allow p env hpc hcan
        | false => exact .refuse p env hpc hcan
    | _ =>
      rw [step, hpc]
      exact .stay _
  | send env =>
    cases hpc : s.pc with
    | admitted p =>
      rw [step, hpc]
      exact .send p env hpc
    | _ =>
      rw [step, hpc]
      exact .stay _

/-! ### Every accepted frame is stored -/

/-- What another context does keeps the stored datagrams and the admission. -/
lemma stored_of_other {w : World} {p : TxPhase} (hs : TxShape w p) {input : Input}
    (hinput : OtherContext w input) :
    storedDatagrams (Fx3Ncm.step w input).log = storedDatagrams w.log ∧
      (Fx3Ncm.step w input).admitted = w.admitted := by
  have hrule : ∃ p, TxShape (Fx3Ncm.step w input) p ∧
      storedDatagrams (Fx3Ncm.step w input).log = storedDatagrams w.log := by
    apply step_rule (I := fun v => ∃ p, TxShape v p ∧
      storedDatagrams v.log = storedDatagrams w.log) ⟨p, hs, rfl⟩
    case quiet =>
      rintro v v' hq ⟨p, hs, heq⟩
      exact ⟨p, hs.quiet hq, hq.calls.stored.trans heq⟩
    case complete =>
      intro bytes _
      refine ⟨p, hs.record rfl, ?_⟩
      simp [recordCompletion, storedDatagrams]
    case zlp =>
      rintro v bytes ok - ⟨p, hs, heq⟩
      refine ⟨p, hs.record rfl, ?_⟩
      rw [← heq]
      simp [storedDatagrams]
    case start =>
      rintro v env ⟨p, hs, heq⟩
      have heq' := (stored_start hs env).trans heq
      rcases hs.start env with hs' | hs'
      · exact ⟨p, hs', heq'⟩
      · exact ⟨p.start, hs', heq'⟩
    case accept =>
      intro size h _
      exact absurd h (hinput.1 size)
    case store =>
      intro i written size h _
      exact absurd h (hinput.2.1 written size)
  obtain ⟨-, -, hstored⟩ := hrule
  refine ⟨hstored, ?_⟩
  obtain ⟨event, env⟩ := input
  cases event with
  | netCanTx size => exact absurd rfl (hinput.1 size)
  | netTx written size => exact absurd rfl (hinput.2.1 written size)
  | _ => rfl

/-- `net_can_tx` stores nothing. -/
lemma stored_netCanTx {w : World} {p : TxPhase} (hs : TxShape w p) (env : Env) (size : UInt16) :
    storedDatagrams (netCanTx env size w).2.log = storedDatagrams w.log := by
  by_cases hfits : txDatagramFitsUserNtb size w = true
  · rw [netCanTx_of_fits env hfits]
  · by_cases haccept : (txAcceptUserNtb w).1 = true
    · rw [netCanTx_of_accepts env hfits haccept]
      exact stored_accept hs
    · rw [netCanTx_of_refuses env hfits haccept]
      exact (stored_start hs.accept env).trans (stored_accept hs)

/-- The datagrams found in the NTBs that have been taken from the free list, which are taken in
this order. -/
def ntbDatagrams (w : World) : List (List UInt8) :=
  ((List.finRange ncmNtbN).filter fun i => some i ∉ w.tx.txFreeNtb.ntbList).flatMap
    fun i => datagrams (w.tx.txNtb i)

lemma taken_eq : ∀ p : TxPhase,
    (List.finRange ncmNtbN).filter (fun i => some i ∉ p.free.ntbList) =
      (List.finRange ncmNtbN).take p.opened := by
  decide

/-- What is found in the NTBs is what was stored. -/
lemma ntbDatagrams_eq {w : World} (h : TxInv (fun ds _ => NoneEmpty ds) w) :
    ntbDatagrams w = storedDatagrams w.log := by
  obtain ⟨p, hs, hc, -, hne⟩ := h
  have hntb : ∀ i : NtbPtr, i < p.opened → datagrams (w.tx.txNtb i) = datagramsIn i w.log :=
    fun i hi => (hc.encodes i hi).datagrams_eq (hne i)
  have hunopened := hc.unopened
  have hle := p.opened_le
  rw [ntbDatagrams, hs.free, taken_eq, hc.stored]
  generalize p.opened = n at hntb hunopened hle ⊢
  obtain rfl | rfl | rfl : n = 0 ∨ n = 1 ∨ n = 2 := by omega
  · rw [hunopened 0 le_rfl, hunopened 1 (Nat.zero_le _), List.take_zero, List.flatMap_nil,
      List.append_nil]
  · rw [hunopened 1 le_rfl, ← hntb 0 Nat.one_pos,
      show (List.finRange ncmNtbN).take 1 = [0] from rfl, List.flatMap_singleton, List.append_nil]
  · rw [← hntb 0 Nat.two_pos, ← hntb 1 Nat.one_lt_two,
      show (List.finRange ncmNtbN).take 2 = [0, 1] from rfl, List.flatMap_cons,
      List.flatMap_singleton]

/-- The invariant of the transmit path. -/
structure Inv (s : Link) : Prop where
  counted : TxCounted s.world
  idle : IdleWithoutUsbd s.world
  content : TxInv (fun ds _ => NoneEmpty ds) s.world
  stored : storedDatagrams s.world.log = s.accepted.map Packet.bytes
  fits : ∀ p, s.pc = .looping p ∨ s.pc = .admitted p → p.Fits
  admitted : ∀ p, s.pc = .admitted p →
    s.world.admitted = some p.totLen ∧ s.world.tx.txUserNtb ≠ none

lemma inv_init : init.Inv where
  counted := txCounted_init
  idle _ := rfl
  content := TxInv.init txStable_noneEmpty
  stored := rfl
  fits _ h := by rcases h with h | h <;> cases h
  admitted _ h := by cases h

variable {s : Link}

/-- A call of `net_can_tx` keeps the contents of the NTBs. -/
lemma Inv.content_netCanTx (h : s.Inv) (size : UInt16) (env : Env) :
    TxInv (fun ds _ => NoneEmpty ds) (Fx3Ncm.step s.world (.netCanTx size, env)) :=
  h.content.step txStable_noneEmpty ⟨trivial, nofun⟩

/-- The step lemma. -/
lemma Inv.step (h : s.Inv) {e : LinkEvent} (he : s.Contract e) : (s.step e).Inv := by
  obtain ⟨p, hs⟩ := h.content.shape
  have hmove := s.moves_step e
  generalize s.step e = s' at hmove ⊢
  cases hmove with
  | stay => exact h
  | call q hpc =>
    refine ⟨h.counted, h.idle, h.content, h.stored, ?_, nofun⟩
    intro _ hq
    rcases hq with hq | hq <;> cases hq
    exact he.2 q rfl
  | stop q env hpc =>
    refine ⟨h.counted, h.idle, h.content, ?_, fun _ hq => hq.elim nofun nofun, nofun⟩
    simpa [accepted] using h.stored
  | allow q env hpc hcan =>
    obtain ⟨i, hi⟩ := exists_user_of_netCanTx hs hcan
    refine ⟨h.counted.step nofun, h.idle.step hs nofun, h.content_netCanTx _ _,
      (stored_netCanTx hs env _).trans h.stored, ?_, ?_⟩
    · intro _ hq
      rcases hq with hq | hq <;> cases hq
      exact h.fits q (Or.inl hpc)
    · rintro _ ⟨⟩
      refine ⟨?_, ?_⟩
      · change (if (netCanTx env q.totLen s.world).1 then some q.totLen else none) = _
        rw [if_pos hcan]
      · change (netCanTx env q.totLen s.world).2.tx.txUserNtb ≠ none
        rw [hi]
        exact Option.some_ne_none i
  | refuse q env hpc hcan =>
    refine ⟨h.counted.step nofun, h.idle.step hs nofun, h.content_netCanTx _ _,
      (stored_netCanTx hs env _).trans h.stored, ?_, nofun⟩
    intro _ hq
    rcases hq with hq | hq <;> cases hq
    exact h.fits q (Or.inl hpc)
  | send q env hpc =>
    obtain ⟨hadmitted, huser⟩ := h.admitted q hpc
    obtain ⟨i, hi⟩ := Option.ne_none_iff_exists'.1 huser
    obtain ⟨-, -, hstored⟩ := netTx_stores hs hi env q.written q.returned
    have hasked : s.world.admitted ≠ none := by
      rw [hadmitted]
      exact Option.some_ne_none _
    refine ⟨h.counted.step fun _ _ _ => hasked, h.idle.step hs nofun,
      h.content.step txStable_noneEmpty ((h.fits q (Or.inr hpc)).streamProtocol hadmitted env), ?_,
      fun _ hq => hq.elim nofun nofun, nofun⟩
    -- the frame is stored in the step in which it counts as accepted
    refine hstored.trans ?_
    rw [h.stored, q.written_eq]
    simp [accepted]
  | other input =>
    -- another context leaves the datagrams and the admission as they are
    have hinput := he.1 input rfl
    obtain ⟨hstored, hadmitted⟩ := stored_of_other hs hinput
    have htx := tx_step_of_other h.idle (hinput.2.2 _) hinput.1 hinput.2.1
    have hprotocol : StreamProtocol s.world input := by
      refine ⟨?_, fun written size heq => absurd heq (hinput.2.1 written size)⟩
      obtain ⟨event, env⟩ := input
      cases event with
      | netTx written size => exact absurd rfl (hinput.2.1 written size)
      | _ => trivial
    refine ⟨h.counted.step fun written size heq => absurd heq (hinput.2.1 written size),
      h.idle.step hs (hinput.2.2 _), h.content.step txStable_noneEmpty hprotocol,
      hstored.trans h.stored, h.fits, ?_⟩
    intro q hq
    rw [hadmitted, htx]
    exact h.admitted q hq

end Link

/-- However the other contexts come in between: if each frame handed over fits into an NTB, the
frames for which `link_output_app` has returned `ERR_OK` are the datagrams found in the NTBs, each
of them once, with all of its bytes, and in order.  But there are never more than sixteen of them,
since there are two NTBs for eight datagrams each; and one of these NTBs at most is passed to
USB. -/
theorem frames_stored (es : List LinkEvent) (h : Along Link.step Link.Contract Link.init es) :
    let s := run Link.step Link.init es
    Link.ntbDatagrams s.world = s.accepted.map Packet.bytes ∧
      s.accepted.length ≤ 2 * ncmMaxDatagramsPerNtb ∧ (sentNtbs s.world.log).length ≤ 1 := by
  intro s
  have hinv : s.Inv := run_invariant (fun _ _ hs he => hs.step he) Link.inv_init h
  obtain ⟨hcount, hsent⟩ := hinv.counted.le
  rw [hinv.stored, List.length_map] at hcount
  exact ⟨(Link.ntbDatagrams_eq hinv.content).trans hinv.stored, hcount, hsent⟩

/-! ### Waiting for room -/

namespace Link

variable {s : Link}

/-- The holders are those of some phase, whatever the other contexts do. -/
lemma shape_run (es : List LinkEvent) : ∃ p, TxShape (run Link.step init es).world p := by
  refine run_invariant (G := fun _ _ => True) (I := fun s : Link => ∃ p, TxShape s.world p) ?_
    ⟨.idle, .init⟩ (Along.of_forall fun _ _ => trivial)
  rintro s e ⟨p, hs⟩ -
  have hmove := s.moves_step e
  generalize s.step e = s' at hmove ⊢
  cases hmove with
  | stay | call | stop => exact ⟨p, hs⟩
  | allow | refuse | send | other => exact hs.step _

/-- The thread is stuck in the call for the frame `q`. -/
structure Stuck (q : Packet) (returned : List (Packet × LinkErr)) (s : Link) : Prop where
  spent : TxSpent s.world
  pc : s.pc = .looping q
  returned : s.returned = returned

/-- No frame is accepted any more. -/
structure Closed (accepted : List Packet) (s : Link) : Prop where
  spent : TxSpent s.world
  pc : ∀ q, s.pc ≠ .admitted q
  accepted : s.accepted = accepted

lemma Closed.step {accepted : List Packet} (h : Closed accepted s) (e : LinkEvent) :
    Closed accepted (s.step e) := by
  have hmove := s.moves_step e
  generalize s.step e = s' at hmove ⊢
  cases hmove with
  | stay => exact h
  | call q hpc => exact ⟨h.spent, nofun, h.accepted⟩
  | stop q env hpc =>
    refine ⟨h.spent, nofun, ?_⟩
    rw [← h.accepted]
    simp [Link.accepted]
  | allow q env hpc hcan => exact absurd ((h.spent.refuses env _).symm.trans hcan) (by decide)
  | refuse q env hpc hcan => exact ⟨h.spent.step _, nofun, h.accepted⟩
  | send q env hpc => exact absurd hpc (h.pc q)
  | other input => exact ⟨h.spent.step _, h.pc, h.accepted⟩

/-- While the application is active, the thread stays where it is. -/
lemma Stuck.step {q : Packet} {returned : List (Packet × LinkErr)} (h : Stuck q returned s)
    {e : LinkEvent} (he : ∀ env, e ≠ .attempt false env) : Stuck q returned (s.step e) := by
  have hmove := s.moves_step e
  generalize s.step e = s' at hmove ⊢
  have hpc' := h.pc
  cases hmove with
  | stay => exact h
  | stop q' env hpc => exact absurd rfl (he env)
  | allow q' env hpc hcan => exact absurd ((h.spent.refuses env _).symm.trans hcan) (by decide)
  | refuse q' env hpc hcan => exact ⟨h.spent.step _, hpc.symm.trans h.pc, h.returned⟩
  | other input => exact ⟨h.spent.step _, h.pc, h.returned⟩
  | call q' hpc | send q' env hpc =>
    rw [hpc] at hpc'
    cases hpc'

end Link

/-- When `link_output_app` has found no room for a frame, it finds none later, whatever the other
contexts do: no frame is accepted any more, and while the application is active the thread does not
come out of the call.  (Frames that an NTB cannot hold are taken to overwrite nothing else.) -/
theorem waiting_futile (es : List LinkEvent) (q : Packet) (env : Env)
    (hpc : (run Link.step Link.init es).pc = .looping q)
    (hrefused : (netCanTx env q.totLen (run Link.step Link.init es).world).1 = false)
    (es' : List LinkEvent) :
    let s := run Link.step Link.init es
    let s' := run Link.step s (.attempt true env :: es')
    s'.accepted = s.accepted ∧
      ((∀ e ∈ es', ∀ env', e ≠ .attempt false env') →
        s'.pc = .looping q ∧ s'.returned = s.returned) := by
  intro s s'
  obtain ⟨p, hs⟩ := Link.shape_run es
  have hspent := txSpent_of_refused hs hrefused
  have hstep : s.step (.attempt true env) =
      ⟨step s.world (.netCanTx q.totLen, env), .looping q, s.returned⟩ := by
    rw [Link.step, hpc]
    simp [hrefused, s]
  have hclosed : Link.Closed s.accepted (s.step (.attempt true env)) := by
    rw [hstep]
    exact ⟨hspent, nofun, rfl⟩
  have hstuck : Link.Stuck q s.returned (s.step (.attempt true env)) := by
    rw [hstep]
    exact ⟨hspent, rfl, rfl⟩
  refine ⟨?_, fun hes' => ?_⟩
  · have hclosed' : Link.Closed s.accepted (run Link.step (s.step (.attempt true env)) es') :=
      run_invariant (G := fun _ _ => True) (fun _ e h _ => h.step e) hclosed
        (Along.of_forall fun _ _ => trivial)
    exact hclosed'.accepted
  · have hstuck' : Link.Stuck q s.returned (run Link.step (s.step (.attempt true env)) es') :=
      run_invariant (fun _ _ h he => h.step he) hstuck (along_iff_forall_mem.2 hes')
    exact ⟨hstuck'.pc, hstuck'.returned⟩

/-- A frame of three bytes in two pbufs. -/
def shortPacket : Packet where
  memory := fun a => UInt8.ofNat a
  head := ⟨10, 2, 3⟩
  tail := [⟨20, 1, 1⟩]
  totLen_eq := rfl
  totLen_lt := by decide

/-- Two frames are sent.  The transfer that the first one starts comes to its end between
`net_can_tx` and `net_tx` of the second one. -/
def twoFrames : List LinkEvent :=
  [.other (.netUsbControlTransfer (.setInterface 1), .accepting),
    .call shortPacket, .attempt true .accepting, .send .accepting,
    .call shortPacket, .attempt true .accepting,
    .other (.netUsbTransfer ncmEpDataIn 100, .accepting), .send .accepting]

theorem frames_stored_example :
    (run Link.step Link.init twoFrames).accepted.map Packet.bytes = [[10, 11, 20], [10, 11, 20]] ∧
      Link.ntbDatagrams (run Link.step Link.init twoFrames).world =
        (run Link.step Link.init twoFrames).accepted.map Packet.bytes := by
  have hfits : ∀ e ∈ twoFrames, ∀ p, e = .call p → p.Fits := by
    have hshort : shortPacket.Fits := by decide
    simp [twoFrames, hshort]
  have hothers : Along Link.step Link.Others Link.init twoFrames := by
    refine ⟨?_, nofun, nofun, nofun, nofun, nofun, ?_, nofun, trivial⟩
    · rintro input ⟨⟩
      exact ⟨nofun, nofun, nofun⟩
    · rintro input ⟨⟩
      refine ⟨nofun, nofun, ?_⟩
      rintro ep bytes ⟨⟩
      decide +kernel
  have hrun : Along Link.step Link.Contract Link.init twoFrames :=
    along_and.2 ⟨hothers, along_iff_forall_mem.2 hfits⟩
  exact ⟨by decide +kernel, (frames_stored twoFrames hrun).1⟩

/-- What lwIP does to send sixteen frames. -/
def sixteenFrames : List LinkEvent :=
  (List.replicate 16 [.call shortPacket, .attempt true .accepting, .send .accepting]).flatten

/-- There is room for sixteen frames; with the seventeenth the thread is stuck, although the host
selects the interface now. -/
theorem waiting_futile_example :
    let s := run Link.step Link.init (sixteenFrames ++ [.call shortPacket])
    let s' := run Link.step s [.attempt true .accepting,
      .other (.netUsbControlTransfer (.setInterface 1), .accepting), .attempt true .accepting]
    s.accepted.length = 16 ∧ s'.accepted = s.accepted ∧ s'.pc = .looping shortPacket := by
  intro s s'
  have hcount : s.accepted.length = 16 := by decide +kernel
  have hrefused : (netCanTx .accepting shortPacket.totLen s.world).1 = false := by decide +kernel
  have hidle : (run Link.step Link.init sixteenFrames).pc matches .idle := by decide +kernel
  have hpc : s.pc = .looping shortPacket := by
    have hs : s = (run Link.step Link.init sixteenFrames).step (.call shortPacket) :=
      run_append _ _ _
    rw [hs]
    generalize run Link.step Link.init sixteenFrames = t at hidle ⊢
    obtain ⟨world, pc, returned⟩ := t
    cases pc with
    | idle => rfl
    | _ => cases hidle
  obtain ⟨haccepted, hstuck⟩ := waiting_futile _ shortPacket .accepting hpc hrefused
    [.other (.netUsbControlTransfer (.setInterface 1), .accepting), .attempt true .accepting]
  exact ⟨hcount, haccepted, (hstuck (by simp)).1⟩

end Fx3Ncm
