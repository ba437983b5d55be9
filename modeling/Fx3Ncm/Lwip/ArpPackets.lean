/-
# The packets of the ARP module

A packet is given to the module by `ethernet_input`, which takes over the reference of its caller,
or it is kept with a pending entry, for which the module takes a reference of its own or makes a
copy.  References are given up by `pbuf_free`, or handed on to `ip4_input`.

In every run the books balance (`arp_references`): the references obtained are those given up and
those of the packets that wait in the table.  The replies sent are exactly those to the requests
received (`arp_answers`).
-/
import Mathlib.Algebra.BigOperators.Fin
import Fx3Ncm.Lwip.ArpMoves

namespace Fx3Ncm.Lwip

open Runs ByteMemory Relation

/-! ### References -/

/-- The module obtains a reference to `p`. -/
def ArpCall.keeps (p : ℕ) : ArpCall → Bool
  | .pbufRef p' => p' == p
  | .pbufClone _ p' => p' == p
  | _ => false

/-- The module gives a reference to `p` up. -/
def ArpCall.givesUp (p : ℕ) : ArpCall → Bool
  | .pbufFree p' => p' == p
  | .ip4Input p' => p' == p
  | _ => false

/-- The packet `p` arrives with a frame. -/
def ArpEvent.brings (p : ℕ) : ArpEvent → Bool
  | .ethernetInput p' _ _ => p' == p
  | _ => false

/-- The number of references to `p` obtained from the pbuf module. -/
def kept (p : ℕ) (s : Arp) : ℕ := s.calls.countP (·.keeps p)

/-- The number of references to `p` given up. -/
def givenUp (p : ℕ) (s : Arp) : ℕ := s.calls.countP (·.givesUp p)

/-- The number of entries at which `p` waits. -/
def held (p : ℕ) (s : Arp) : ℕ := ∑ i, if (s.table i).q = some p then 1 else 0

section Balance

variable (p : ℕ) {netif : Netif} {D : ℕ → UInt32 → Prop} {s s' s'' : Arp} {i : ArpIdx}

lemma kept_record (s : Arp) (c : ArpCall) :
    kept p (s.record c) = kept p s + if c.keeps p then 1 else 0 := by
  simp [kept, List.countP_append, List.countP_singleton]

lemma givenUp_record (s : Arp) (c : ArpCall) :
    givenUp p (s.record c) = givenUp p s + if c.givesUp p then 1 else 0 := by
  simp [givenUp, List.countP_append, List.countP_singleton]

lemma held_congr (h : s'.table = s.table) : held p s' = held p s := by
  unfold held
  rw [h]

lemma held_setEntry (s : Arp) (i : ArpIdx) (e : EtharpEntry) :
    held p (s.setEntry i e) + (if (s.table i).q = some p then 1 else 0) =
      held p s + if e.q = some p then 1 else 0 := by
  have hupdate : (fun j => if ((s.setEntry i e).table j).q = some p then 1 else 0) =
      Function.update (fun j => if (s.table j).q = some p then 1 else 0) i
        (if e.q = some p then 1 else 0) := by
    funext j
    by_cases hj : j = i
    · subst hj
      simp
    · rw [Arp.setEntry_of_ne _ _ _ hj, Function.update_of_ne hj]
  unfold held
  rw [hupdate, Finset.sum_update_of_mem (Finset.mem_univ i),
    Finset.sum_eq_add_sum_sdiff_singleton_of_mem (Finset.mem_univ i)
      fun j => if (s.table j).q = some p then 1 else 0]
  omega

/-- The packet of an entry is freed. -/
lemma release_counts (s : Arp) (i : ArpIdx) :
    kept p (s.release i) = kept p s ∧
      givenUp p (s.release i) = givenUp p s + if (s.table i).q = some p then 1 else 0 := by
  unfold Arp.release
  cases (s.table i).q with
  | none => simp
  | some q =>
    rw [kept_record, givenUp_record]
    simp [ArpCall.keeps, ArpCall.givesUp]

/-- Between the two states, as many references to `p` are obtained as given up, apart from those
that wait in the table. -/
def Balanced (s s' : Arp) : Prop :=
  kept p s' + givenUp p s + held p s = kept p s + givenUp p s' + held p s'

variable {p}

lemma balanced_refl (s : Arp) : Balanced p s s := by
  unfold Balanced
  omega

lemma Balanced.trans (h : Balanced p s s') (h' : Balanced p s' s'') : Balanced p s s'' := by
  unfold Balanced at *
  omega

/-- A call that concerns no reference. -/
lemma balanced_record {c : ArpCall} (hkeeps : c.keeps p = false) (hgives : c.givesUp p = false) :
    Balanced p s (s.record c) := by
  have hheld : held p (s.record c) = held p s := held_congr p rfl
  rw [Balanced, kept_record, givenUp_record, hheld, hkeeps, hgives]
  simp

/-- A change of an entry that leaves its packet there. -/
lemma balanced_setEntry {e : EtharpEntry} (h : e.q = (s.table i).q) :
    Balanced p s (s.setEntry i e) := by
  have hkept : kept p (s.setEntry i e) = kept p s := rfl
  have hgiven : givenUp p (s.setEntry i e) = givenUp p s := rfl
  have hheld := held_setEntry p s i e
  rw [h] at hheld
  rw [Balanced, hkept, hgiven]
  omega

/-- The packet of an entry is freed, and the entry is emptied. -/
lemma balanced_empty {e : EtharpEntry} (h : e.q = none) :
    Balanced p s ((s.release i).setEntry i e) := by
  obtain ⟨hkept, hgiven⟩ := release_counts p s i
  have hkept' : kept p ((s.release i).setEntry i e) = kept p (s.release i) := rfl
  have hgiven' : givenUp p ((s.release i).setEntry i e) = givenUp p (s.release i) := rfl
  have hheld := held_setEntry p (s.release i) i e
  rw [held_congr p (s.release_table i), h, Arp.release_table] at hheld
  rw [Balanced, hkept', hgiven', hkept, hgiven]
  simp at hheld
  omega

/-- A packet is kept at an entry, and the one that waits there is freed. -/
lemma balanced_enqueue {c : ArpCall} {q : ℕ} (hc : Keeps q c) {e : EtharpEntry}
    (he : e.q = some q) : Balanced p s (((s.record c).release i).setEntry i e) := by
  obtain ⟨hkept, hgiven⟩ := release_counts p (s.record c) i
  have hkept' : kept p (((s.record c).release i).setEntry i e) =
    kept p ((s.record c).release i) := rfl
  have hgiven' : givenUp p (((s.record c).release i).setEntry i e) =
    givenUp p ((s.record c).release i) := rfl
  have hheld := held_setEntry p ((s.record c).release i) i e
  have hrelease : held p ((s.record c).release i) = held p s := held_congr p (by simp)
  have hcall : (c.keeps p = true ↔ q = p) ∧ c.givesUp p = false := by
    cases hc <;> simp [ArpCall.keeps, ArpCall.givesUp]
  rw [hrelease, he, Arp.release_table, Arp.record_table] at hheld
  rw [Arp.record_table] at hgiven
  rw [Balanced, hkept', hgiven', hkept, hgiven, kept_record, givenUp_record, hcall.2]
  simp only [hcall.1, Option.some.injEq] at hheld ⊢
  simp
  omega

/-- A packet that waits is sent and freed. -/
lemma balanced_sendQueued (ethaddr : EthAddr) : Balanced p s (sendQueued netif i ethaddr s) := by
  unfold sendQueued
  cases hq : (s.table i).q with
  | none => exact balanced_refl s
  | some q =>
    -- up to the order of the two calls, this is the release of the packet
    have hfree : Balanced p s ((s.release i).setEntry i { s.table i with q := none }) :=
      balanced_empty rfl
    have hsend : Balanced p ((s.release i).setEntry i { s.table i with q := none })
        (((s.setEntry i { s.table i with q := none }).record
          (.ethernetOutput q netif.hwaddr ethaddr)).record (.pbufFree q)) := by
      unfold Arp.release
      rw [hq]
      simp only [Arp.record_setEntry]
      generalize s.setEntry i _ = t
      have hheld : held p ((t.record (.ethernetOutput q netif.hwaddr ethaddr)).record
        (.pbufFree q)) = held p (t.record (.pbufFree q)) := held_congr p rfl
      simp only [Balanced, kept_record, givenUp_record, hheld, ArpCall.keeps, ArpCall.givesUp]
      simp
    exact hfree.trans hsend

lemma Quiet.balanced (h : Quiet netif D s s') : Balanced p s s' := by
  cases h with
  | send c h => cases h <;> exact balanced_record rfl rfl
  | cache i => exact balanced_refl s
  | take i a => exact balanced_empty rfl
  | pend i => exact balanced_setEntry rfl
  | touch i => exact balanced_setEntry rfl
  | rerequest i => exact balanced_setEntry rfl
  | enqueue i q c _ hc => exact balanced_enqueue hc rfl

lemma balanced_learn (i : ArpIdx) (ethaddr : EthAddr) (static : Bool) :
    Balanced p s (s.learn netif i ethaddr static) := by
  unfold Arp.learn
  generalize he : ({ s.table i with
    state := if static then .static else .stable
    netif := true
    ethaddr := ethaddr
    ctime := 0 } : EtharpEntry) = e
  have hset : Balanced p s (s.setEntry i e) := balanced_setEntry (he ▸ rfl)
  exact hset.trans (balanced_sendQueued ethaddr)

lemma Move.balanced (h : Move netif D s s') : Balanced p s s' := by
  cases h with
  | quiet h => exact h.balanced
  | learn i ethaddr static => exact balanced_learn i ethaddr static
  | free i ctime => exact balanced_empty rfl
  | tick i => exact balanced_setEntry rfl

lemma Moves.balanced (h : Moves netif D s s') : Balanced p s s' := by
  induction h with
  | refl => exact balanced_refl s
  | tail _ h ih => exact ih.trans h.balanced

end Balance

/-- The books of the module: `received` counts the frames that brought `p`. -/
def Books (p received : ℕ) (s : Arp) : Prop := received + kept p s = givenUp p s + held p s

lemma Books.of_balanced {p received : ℕ} {s s' : Arp} (h : Books p received s)
    (hb : Balanced p s s') : Books p received s' := by
  unfold Books Balanced at *
  omega

/-- A packet that has been received is given up. -/
lemma Books.receive {p received q : ℕ} {s : Arp} (h : Books p received s) {c : ArpCall}
    (hc : c = .pbufFree q ∨ c = .ip4Input q) :
    Books p (received + if q = p then 1 else 0) (s.record c) := by
  have hheld : held p (s.record c) = held p s := held_congr p rfl
  have hcall : (c.givesUp p = true ↔ q = p) ∧ c.keeps p = false := by
    rcases hc with rfl | rfl <;> simp [ArpCall.keeps, ArpCall.givesUp]
  unfold Books at *
  rw [kept_record, givenUp_record, hheld, hcall.2]
  simp only [hcall.1]
  simp
  omega

lemma Books.step {netif : Netif} {p received : ℕ} {s : Arp} (h : Books p received s)
    (hs : ArpInv netif s) (input : ArpInput) :
    Books p (received + if input.1.brings p then 1 else 0) (s.step netif input) := by
  have hsteps := steps_step hs input
  generalize s.step netif input = s' at hsteps
  cases hsteps with
  | moves event env s' hevent hmoves =>
    have hbrings : event.brings p = false := by
      cases event with
      | ethernetInput p len frame => exact absurd rfl (hevent p len frame)
      | _ => rfl
    simpa [hbrings] using h.of_balanced hmoves.balanced
  | ignored env q len frame c _ hc =>
    simp only [ArpEvent.brings, beq_iff_eq]
    exact h.receive hc
  | message env q len frame m =>
    have hheard : Books p received (heard netif m s) :=
      h.of_balanced (moves_heard (D := fun _ _ => True) hs m).balanced
    have hanswered : Books p received (answered netif env m (heard netif m s)) := by
      rcases answered_eq netif env m (heard netif m s) with heq | ⟨-, -, heq⟩
      · rwa [heq]
      · rw [heq]
        exact hheard.of_balanced (balanced_record rfl rfl)
    simp only [ArpEvent.brings, beq_iff_eq]
    exact hanswered.receive (.inl rfl)

lemma books_run (netif : Netif) {p received : ℕ} {s : Arp} (h : Books p received s)
    (hs : ArpInv netif s) (es : List ArpInput) :
    Books p (received + es.countP (·.1.brings p)) (run (Arp.step netif) s es) := by
  induction es generalizing s received with
  | nil => simpa using h
  | cons e es ih =>
    have hrun := ih (h.step hs e) (hs.step e)
    rw [List.countP_cons, Nat.add_comm (es.countP _), ← Nat.add_assoc]
    exact hrun

/-- In every run of the ARP module and for every packet, the references that the module has
obtained (with frames received, by `pbuf_ref` and by `pbuf_clone`) are those that it has given up
(by `pbuf_free`, or to `ip4_input`) and those of the entries at which the packet waits: none is
lost, and none is given up twice. -/
theorem arp_references (netif : Netif) (es : List ArpInput) (p : ℕ) :
    es.countP (·.1.brings p) + kept p (run (Arp.step netif) Arp.init es) =
      givenUp p (run (Arp.step netif) Arp.init es) +
        held p (run (Arp.step netif) Arp.init es) := by
  have hinit : Books p 0 Arp.init := by simp [Books, Arp.init, kept, givenUp, held]
  have hrun := books_run netif hinit arpInv_init es
  rwa [Books, Nat.zero_add] at hrun

/-! ### Replies -/

/-- An ARP reply. -/
def ArpCall.isReply : ArpCall → Bool
  | .etharpRaw _ _ hdr => (hdr.drop 6).take 2 == leBytes 2 (ppHtons arpReply).toNat
  | _ => false

lemma isReply_etharpRaw (src dst hwsrc hwdst : EthAddr) (op : UInt16) (ipsrc ipdst : UInt32) :
    (ArpCall.etharpRaw src dst (etharpHdr op hwsrc ipsrc hwdst ipdst)).isReply =
      (leBytes 2 (ppHtons op).toNat == leBytes 2 (ppHtons arpReply).toNat) := by
  simp [ArpCall.isReply, etharpHdr, leBytes]

/-- The replies among the calls. -/
def replies (calls : List ArpCall) : List ArpCall := calls.filter (·.isReply)

/-- The reply that an event asks for: our address, to the sender of a request for it. -/
def answer (netif : Netif) (input : ArpInput) : List ArpCall :=
  match input.1 with
  | .ethernetInput _ len frame =>
    match arpMessage netif len frame with
    | some m =>
      if asksUs netif m ∧ input.2.rawAlloc 0 then
        [.etharpRaw netif.hwaddr (shwaddr m)
          (etharpHdr arpReply netif.hwaddr netif.ipAddr (shwaddr m) (sipaddr m))]
      else []
    | none => []
  | _ => []

section Replies

variable {netif : Netif} {D : ℕ → UInt32 → Prop} {s s' : Arp}

lemma replies_record (s : Arp) {c : ArpCall} (h : c.isReply = false) :
    replies (s.record c).calls = replies s.calls := by
  simp [replies, h]

lemma replies_release (s : Arp) (i : ArpIdx) : replies (s.release i).calls = replies s.calls := by
  unfold Arp.release
  split
  · exact replies_record s rfl
  · rfl

lemma Quiet.replies_eq (h : Quiet netif D s s') : replies s'.calls = replies s.calls := by
  cases h with
  | send c h =>
    refine replies_record s ?_
    cases h with
    | request dst a =>
      rw [isReply_etharpRaw]
      decide
    | unicast => rfl
    | cast => rfl
  | cache => rfl
  | take i a => exact replies_release s i
  | pend => rfl
  | touch => rfl
  | rerequest => rfl
  | enqueue i p c _ hc =>
    rw [Arp.setEntry_calls, replies_release]
    cases hc <;> exact replies_record s rfl

lemma Moves.replies_eq (h : Moves netif D s s') : replies s'.calls = replies s.calls := by
  induction h with
  | refl => rfl
  | @tail b c _ h ih =>
    rw [← ih]
    cases h with
    | quiet h => exact h.replies_eq
    | learn i ethaddr static =>
      unfold Arp.learn sendQueued
      split
      · rw [replies_record _ rfl, replies_record _ rfl]
        rfl
      · rfl
    | free i ctime => exact replies_release b i
    | tick => rfl

lemma replies_step (hs : ArpInv netif s) (input : ArpInput) :
    replies (s.step netif input).calls = replies s.calls ++ answer netif input := by
  have hsteps := steps_step hs input
  generalize s.step netif input = s' at hsteps
  cases hsteps with
  | moves event env s' hevent hmoves =>
    have hnone : answer netif (event, env) = [] := by
      cases event with
      | ethernetInput p len frame => exact absurd rfl (hevent p len frame)
      | _ => rfl
    rw [hmoves.replies_eq, hnone, List.append_nil]
  | ignored env q len frame c hm hc =>
    have hreply : c.isReply = false := by rcases hc with rfl | rfl <;> rfl
    rw [replies_record _ hreply]
    simp [answer, hm]
  | message env q len frame m hm =>
    have hheard := (moves_heard (D := fun _ _ => True) hs m).replies_eq
    rw [replies_record _ rfl]
    simp only [answer, hm]
    unfold answered etharpAnswer etharpRaw
    by_cases hasks : asksUs netif m = true
    · by_cases halloc : env.rawAlloc 0 = true
      · rw [if_pos hasks, if_pos halloc, if_pos ⟨hasks, halloc⟩, ← hheard]
        simp [replies, isReply_etharpRaw]
      · rw [if_pos hasks, if_neg halloc, if_neg fun h => halloc h.2, List.append_nil, hheard]
    · rw [if_neg hasks, if_neg fun h => hasks h.1, List.append_nil, hheard]

end Replies

/-- In every run of the ARP module, the replies it sends are, in order, one for each request for
our address that is received (and for which a pbuf can be had): to the sender of the request, with
our Ethernet and IP addresses.  Nothing else is ever answered. -/
theorem arp_answers (netif : Netif) (es : List ArpInput) :
    replies (run (Arp.step netif) Arp.init es).calls = es.flatMap (answer netif) := by
  have hrun : ∀ s, ArpInv netif s →
      replies (run (Arp.step netif) s es).calls = replies s.calls ++ es.flatMap (answer netif) := by
    induction es with
    | nil => simp
    | cons e es ih =>
      intro s hs
      rw [run_cons, ih _ (hs.step e), replies_step hs, List.flatMap_cons, List.append_assoc]
  simpa [replies, Arp.init] using hrun Arp.init arpInv_init

end Fx3Ncm.Lwip
