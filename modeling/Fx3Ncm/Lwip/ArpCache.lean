/-
# The ARP table as a cache

What the table is for: the Ethernet address of an IP address is the one that was announced last.
`Bindings` is an ideal table, without limits, which remembers the last announcement of every
address and how many ticks of the timer ago it was; a permanent binding, made by
`etharp_add_static_entry`, is not changed by announcements.

The table of ten entries is a cache of the ideal one (`arp_cache`), and every IP packet goes to
the address that the ideal table has for its next hop (`arp_frames`).
-/
import Fx3Ncm.Lwip.ArpMoves

namespace Fx3Ncm.Lwip

open Runs ByteMemory Relation

/-! ### The ideal table -/

/-- An Ethernet address, whether it is permanent, and the ticks since its announcement. -/
structure Binding where
  hw : EthAddr
  permanent : Bool
  age : ℕ
deriving DecidableEq

/-- The ideal table. -/
abbrev Bindings := UInt32 → Option Binding

namespace Bindings

/-- The address `a` is bound permanently. -/
def Permanent (B : Bindings) (a : UInt32) : Prop := ∃ b, B a = some b ∧ b.permanent

instance (B : Bindings) (a : UInt32) : Decidable (B.Permanent a) :=
  match h : B a with
  | some b => decidable_of_iff (b.permanent = true) (by simp [Permanent, h])
  | none => isFalse (by simp [Permanent, h])

/-- An announcement is heard. -/
def announce (B : Bindings) (a : UInt32) (hw : EthAddr) : Bindings :=
  if B.Permanent a then B else Function.update B a (some ⟨hw, false, 0⟩)

/-- Time passes. -/
def tick (B : Bindings) : Bindings := fun a =>
  (B a).map fun b => if b.permanent then b else { b with age := b.age + 1 }

/-- The message `m` is heard. -/
def hear (netif : Netif) (B : Bindings) (m : Mem) : Bindings :=
  if isUnicast netif (sipaddr m) then B.announce (sipaddr m) (shwaddr m) else B

/-- The ideal table after a call of the module with the result `r`. -/
def after (netif : Netif) (B : Bindings) (event : ArpEvent) (r : Err) : Bindings :=
  match event with
  | .ethernetInput _ len frame =>
    match arpMessage netif len frame with
    | some m => B.hear netif m
    | none => B
  | .tmr => B.tick
  | .addStaticEntry a hw => if r = .ok then Function.update B a (some ⟨hw, true, 0⟩) else B
  | .removeStaticEntry a => if r = .ok then Function.update B a none else B
  | .cleanupNetif => fun _ => none
  | .output .. | .query .. | .request .. => B

end Bindings

/-- The packets that a call submits, each with the address for which it is. -/
def submits (netif : Netif) (input : ArpInput) : List (ℕ × UInt32) :=
  match input.1 with
  | .output q ipaddr =>
    match target netif ipaddr with
    | some a => (q.pbuf, a) :: copies q a
    | none => []
  | .query a (some q) => (q.pbuf, a) :: copies q a
  | _ => []
where
  copies (q : OutPacket) (a : UInt32) : List (ℕ × UInt32) :=
    if q.needsCopy then input.2.pbufClone.toList.map fun p => (p, a) else []

/-- The module, the ideal table beside it, and the packets submitted so far. -/
structure ArpHistory where
  arp : Arp
  bound : Bindings
  submitted : List (ℕ × UInt32)

namespace ArpHistory

def init : ArpHistory := ⟨Arp.init, fun _ => none, []⟩

def step (netif : Netif) (h : ArpHistory) (input : ArpInput) : ArpHistory :=
  let r := perform netif h.arp input
  ⟨r.2, h.bound.after netif input.1 r.1, h.submitted ++ submits netif input⟩

lemma arp_step (netif : Netif) (h : ArpHistory) (input : ArpInput) :
    (h.step netif input).arp = h.arp.step netif input := rfl

/-- The history is only looked at. -/
lemma arp_run (netif : Netif) (h : ArpHistory) (es : List ArpInput) :
    (run (step netif) h es).arp = run (Arp.step netif) h.arp es := by
  induction es generalizing h with
  | nil => rfl
  | cons e es ih => rw [run_cons, run_cons, ih, arp_step]

end ArpHistory

/-! ### Agreement -/

/-- The table agrees with the ideal one, and packets wait where they belong. -/
structure Agrees (B : Bindings) (D : ℕ → UInt32 → Prop) (s : Arp) : Prop where
  bound : ∀ i, (s.table i).state.isStable → B (s.table i).ipaddr =
    some ⟨(s.table i).ethaddr, decide ((s.table i).state = .static), (s.table i).ctime⟩
  static : ∀ a, B.Permanent a → ∃ i, (s.table i).state = .static ∧ (s.table i).ipaddr = a
  queued : ∀ i p, (s.table i).q = some p → D p (s.table i).ipaddr

/-- An IP packet goes out with our address, to a group or to a current binding. -/
structure Right (netif : Netif) (B : Bindings) (D : ℕ → UInt32 → Prop) (q : ℕ) (src dst : EthAddr) :
    Prop where
  src : src = netif.hwaddr
  dst : ∃ a, D q a ∧ (castAddr netif a = some dst ∨
    ∃ b, B a = some b ∧ b.hw = dst ∧ (b.permanent ∨ b.age < arpMaxage))

/-- All packets sent between the two states go out right. -/
def Emits (netif : Netif) (B : Bindings) (D : ℕ → UInt32 → Prop) (s s' : Arp) : Prop :=
  ∃ cs, s'.calls = s.calls ++ cs ∧
    ∀ q src dst, .ethernetOutput q src dst ∈ cs → Right netif B D q src dst

section Agreement

variable {netif : Netif} {B : Bindings} {D D' : ℕ → UInt32 → Prop} {s s' s'' : Arp} {i : ArpIdx}
  {a : UInt32} {B' : Bindings}

lemma emits_of_calls_eq (h : s'.calls = s.calls) : Emits netif B D s s' :=
  ⟨[], by simp [h], by simp⟩

lemma Emits.trans (h : Emits netif B D s s') (h' : Emits netif B D s' s'') :
    Emits netif B D s s'' := by
  obtain ⟨cs, hcs, hright⟩ := h
  obtain ⟨cs', hcs', hright'⟩ := h'
  refine ⟨cs ++ cs', by rw [hcs', hcs, List.append_assoc], ?_⟩
  intro q src dst hmem
  rcases List.mem_append.1 hmem with hmem | hmem
  · exact hright q src dst hmem
  · exact hright' q src dst hmem

lemma emits_record {c : ArpCall}
    (h : ∀ q src dst, c = .ethernetOutput q src dst → Right netif B D q src dst) :
    Emits netif B D s (s.record c) := by
  refine ⟨[c], rfl, ?_⟩
  intro q src dst hmem
  exact h q src dst (List.mem_singleton.1 hmem).symm

lemma emits_release (s : Arp) (i : ArpIdx) : Emits netif B D s (s.release i) := by
  unfold Arp.release
  split
  · exact emits_record (by simp)
  · exact emits_of_calls_eq rfl

lemma emits_release_setEntry (s : Arp) (i : ArpIdx) (e : EtharpEntry) :
    Emits netif B D s ((s.release i).setEntry i e) :=
  (emits_release s i).trans (emits_of_calls_eq rfl)

lemma Agrees.congr (h : Agrees B D s) (ht : s'.table = s.table) : Agrees B D s' where
  bound i := ht ▸ h.bound i
  static a := ht ▸ h.static a
  queued i := ht ▸ h.queued i

lemma Agrees.record (h : Agrees B D s) (c : ArpCall) : Agrees B D (s.record c) := h.congr rfl

lemma Agrees.mono (h : Agrees B D s) (hD : ∀ p a, D p a → D' p a) : Agrees B D' s :=
  ⟨h.bound, h.static, fun i p hp => hD _ _ (h.queued i p hp)⟩

/-- One entry changes, and the ideal table may change with it. -/
lemma Agrees.update (h : Agrees B D s) {e : EtharpEntry}
    (hother : ∀ j, j ≠ i → (s.table j).state.isStable →
      B' (s.table j).ipaddr = B (s.table j).ipaddr)
    (hbound : e.state.isStable →
      B' e.ipaddr = some ⟨e.ethaddr, decide (e.state = .static), e.ctime⟩)
    (hstatic : ∀ a, B'.Permanent a → e.state = .static ∧ e.ipaddr = a ∨
      ∃ j, j ≠ i ∧ (s.table j).state = .static ∧ (s.table j).ipaddr = a)
    (hq : ∀ p, e.q = some p → D p e.ipaddr) : Agrees B' D (s.setEntry i e) where
  bound j hj := by
    by_cases hji : j = i
    · subst hji
      rw [Arp.setEntry_self] at hj ⊢
      exact hbound hj
    · rw [Arp.setEntry_of_ne _ _ _ hji] at hj ⊢
      exact (hother j hji hj).trans (h.bound j hj)
  static a ha := by
    rcases hstatic a ha with hi | ⟨j, hji, hj⟩
    · exact ⟨i, by rwa [Arp.setEntry_self]⟩
    · exact ⟨j, by rwa [Arp.setEntry_of_ne _ _ _ hji]⟩
  queued j p hp := by
    by_cases hji : j = i
    · subst hji
      rw [Arp.setEntry_self] at hp ⊢
      exact hq p hp
    · rw [Arp.setEntry_of_ne _ _ _ hji] at hp ⊢
      exact h.queued j p hp

/-- The entry of a permanent binding is not an entry that is not static. -/
lemma Agrees.static_ne (h : Agrees B D s) (hi : (s.table i).state ≠ .static)
    (ha : B.Permanent a) :
    ∃ j, j ≠ i ∧ (s.table j).state = .static ∧ (s.table j).ipaddr = a := by
  obtain ⟨j, hj, hip⟩ := h.static a ha
  refine ⟨j, ?_, hj, hip⟩
  rintro rfl
  exact hi hj

/-- A change of an entry that is not stable after it. -/
lemma Agrees.setEntry (h : Agrees B D s) {e : EtharpEntry} (he : e.state.isStable = false)
    (hi : (s.table i).state ≠ .static) (hq : ∀ p, e.q = some p → D p e.ipaddr) :
    Agrees B D (s.setEntry i e) :=
  h.update (fun _ _ _ => rfl) (fun hstable => absurd hstable (by simp [he]))
    (fun _ ha => .inr (h.static_ne hi ha)) hq

lemma Quiet.agrees (h : Quiet netif D s s') (ha : Agrees B D s) : Agrees B D s' := by
  cases h with
  | send c h => exact ha.congr rfl
  | cache i => exact ha.congr rfl
  | take i a hunknown hstatic =>
    have hrelease : Agrees B D (s.release i) := ha.congr (by simp)
    exact hrelease.setEntry rfl (by simpa using hstatic) (by simp)
  | pend i hempty =>
    exact ha.setEntry rfl (by simp [hempty]) (ha.queued i)
  | touch i hpending =>
    refine ha.setEntry ?_ (by simp [hpending]) (ha.queued i)
    simp [hpending, EtharpState.isStable]
  | rerequest i hstable =>
    -- the entry is stable before and after
    have hbound := ha.bound i (by simp [hstable, EtharpState.isStable])
    refine ha.update (fun _ _ _ => rfl) (fun _ => ?_)
      (fun _ hperm => .inr (ha.static_ne (by simp [hstable]) hperm)) (ha.queued i)
    simpa [hstable] using hbound
  | enqueue i p c hpending hc hD =>
    have hrelease : Agrees B D ((s.record c).release i) := ha.congr (by simp)
    refine hrelease.setEntry ?_ (by simp [hpending]) ?_
    · simp [hpending, EtharpState.isStable]
    · intro q hq
      obtain rfl := Option.some.inj hq
      exact hD

lemma Sends.right {c : ArpCall} (h : Sends netif D s c) (hs : ArpInv netif s) (ha : Agrees B D s)
    {q : ℕ} {src dst : EthAddr} (hc : c = .ethernetOutput q src dst) :
    Right netif B D q src dst := by
  cases h with
  | request => cases hc
  | unicast q i hstable hD =>
    cases hc
    have hused : (s.table i).state ≠ .empty := by
      intro hempty
      simp [hempty, EtharpState.isStable] at hstable
    exact ⟨rfl, _, hD, .inr ⟨_, ha.bound i hstable, rfl, .inr ((hs.entry i).age hused)⟩⟩
  | cast q a dst h hD =>
    cases hc
    exact ⟨rfl, a, hD, .inl h⟩

lemma Quiet.emits (h : Quiet netif D s s') (hs : ArpInv netif s) (ha : Agrees B D s) :
    Emits netif B D s s' := by
  cases h with
  | send c h => exact emits_record fun q src dst hc => h.right hs ha hc
  | cache => exact emits_of_calls_eq rfl
  | take i a => exact emits_release_setEntry s i _
  | pend => exact emits_of_calls_eq rfl
  | touch => exact emits_of_calls_eq rfl
  | rerequest => exact emits_of_calls_eq rfl
  | enqueue i p c _ hc =>
    have hrecord : Emits netif B D s (s.record c) :=
      emits_record fun q src dst heq => by cases hc <;> cases heq
    exact hrecord.trans (emits_release_setEntry (s.record c) i _)

/-- Transmissions agree with the ideal table, and send right. -/
lemma Quiets.agrees (h : Quiets netif D s s') (hs : ArpInv netif s) (ha : Agrees B D s) :
    Agrees B D s' ∧ Emits netif B D s s' := by
  induction h with
  | refl => exact ⟨ha, emits_of_calls_eq rfl⟩
  | tail hpath h ih =>
    have hinv := Quiets.inv hpath hs
    exact ⟨h.agrees ih.1, ih.2.trans (h.emits hinv ih.1)⟩

/-! ### Announcements -/

/-- The address of an entry is learnt: the ideal table binds it, too. -/
lemma Agrees.learn (ha : Agrees B D s') (halone : Alone s'.table i)
    (hip : (s'.table i).ipaddr = a) (ethaddr : EthAddr) (static : Bool) :
    Agrees (Function.update B a (some ⟨ethaddr, static, 0⟩)) D
      (s'.learn netif i ethaddr static) := by
  refine Agrees.congr (s := s'.setEntry i _) ?_ (s'.learn_eq netif i ethaddr static).1
  have hne (j : ArpIdx) (hj : j ≠ i) (hused : (s'.table j).state ≠ .empty) :
      (s'.table j).ipaddr ≠ a := hip ▸ halone j hj hused
  refine ha.update ?_ ?_ ?_ (by simp)
  · intro j hj hstable
    have hused : (s'.table j).state ≠ .empty := by
      intro hempty
      simp [hempty, EtharpState.isStable] at hstable
    rw [Function.update_of_ne (hne j hj hused)]
  · intro _
    rw [hip, Function.update_self]
    cases static <;> rfl
  · rintro a' ⟨b, hb, hperm⟩
    by_cases haa : a' = a
    · subst haa
      rw [Function.update_self] at hb
      obtain rfl := Option.some.inj hb
      exact .inl ⟨if_pos hperm, hip⟩
    · rw [Function.update_of_ne haa] at hb
      obtain ⟨j, hj, hjp⟩ := ha.static a' ⟨b, hb, hperm⟩
      refine .inr ⟨j, ?_, hj, hjp⟩
      rintro rfl
      exact haa (hjp.symm.trans hip)

/-- An address that no entry has may be bound to anything that is not permanent. -/
lemma Agrees.unknown (ha : Agrees B D s) (hunknown : Unknown s.table a) (ethaddr : EthAddr) :
    Agrees (Function.update B a (some ⟨ethaddr, false, 0⟩)) D s where
  bound i hi := by
    have hused : (s.table i).state ≠ .empty := by
      intro hempty
      simp [hempty, EtharpState.isStable] at hi
    rw [Function.update_of_ne (hunknown i hused)]
    exact ha.bound i hi
  static a' := by
    rintro ⟨b, hb, hperm⟩
    by_cases haa : a' = a
    · subst haa
      rw [Function.update_self] at hb
      obtain rfl := Option.some.inj hb
      cases hperm
    · rw [Function.update_of_ne haa] at hb
      exact ha.static a' ⟨b, hb, hperm⟩
  queued := ha.queued

/-- The packet that has waited for an address is sent there. -/
lemma emits_learn (ha : Agrees B D s) (hip : (s.table i).ipaddr = a) (ethaddr : EthAddr)
    (static : Bool) :
    Emits netif (Function.update B a (some ⟨ethaddr, static, 0⟩)) D s
      (s.learn netif i ethaddr static) := by
  unfold Arp.learn sendQueued
  rw [Arp.setEntry_self]
  dsimp only
  cases hq : (s.table i).q with
  | none => exact emits_of_calls_eq rfl
  | some p =>
    refine ⟨[.ethernetOutput p netif.hwaddr ethaddr, .pbufFree p], by simp, ?_⟩
    intro q src dst hmem
    simp only [List.mem_cons, ArpCall.ethernetOutput.injEq, reduceCtorEq, List.not_mem_nil,
      or_false] at hmem
    obtain ⟨rfl, rfl, rfl⟩ := hmem
    refine ⟨rfl, a, hip ▸ ha.queued i q hq, .inr ⟨_, Function.update_self .., rfl, .inr ?_⟩⟩
    simp

/-- What has been learnt about a new entry, from the state before it was taken. -/
lemma Entry.agrees (h : Entry a s i s') (netif : Netif) (B' : Bindings) (ha : Agrees B D s) :
    Agrees B D s' ∧ Emits netif B' D s s' := by
  cases h with
  | hit => exact ⟨ha, emits_of_calls_eq rfl⟩
  | taken hunknown hstatic =>
    have hquiet : Quiet netif D s (s.take i a) := .take i a hunknown hstatic
    exact ⟨hquiet.agrees ha, emits_release_setEntry s i _⟩

/-- An update with an announcement, or with a static entry that could be made. -/
lemma Updates.agrees {ethaddr : EthAddr} {flags : FindFlags} {r : Err × Arp}
    (h : Updates netif a ethaddr flags s r) (hs : ArpInv netif s) (ha : Agrees B D s)
    (hok : r.1 = .ok) :
    Agrees (Function.update B a (some ⟨ethaddr, flags.staticEntry, 0⟩)) D r.2 ∧
      Emits netif (Function.update B a (some ⟨ethaddr, flags.staticEntry, 0⟩)) D s r.2 := by
  cases h with
  | cast => cases hok
  | refused => cases hok
  | static => cases hok
  | learnt i s' hunicast hentry hstatic =>
    obtain ⟨hagrees, hemits⟩ := hentry.agrees netif
      (Function.update B a (some ⟨ethaddr, flags.staticEntry, 0⟩)) ha
    exact ⟨hagrees.learn (hentry.alone hs) hentry.ipaddr ethaddr _,
      hemits.trans (emits_learn hagrees hentry.ipaddr ethaddr _)⟩

/-- A message is heard. -/
lemma agrees_heard (hs : ArpInv netif s) (ha : Agrees B D s) (m : Mem) :
    Agrees (B.hear netif m) D (heard netif m s) ∧
      Emits netif (B.hear netif m) D s (heard netif m s) := by
  have hupdates := updates_etharpUpdateArpEntry hs (sipaddr m) (shwaddr m)
    (if forUs netif m then .hard else .onlyFind)
  have hflags : (if forUs netif m then FindFlags.hard else .onlyFind).staticEntry = false := by
    split <;> rfl
  unfold Bindings.hear Bindings.announce heard
  generalize (if forUs netif m then FindFlags.hard else .onlyFind) = flags at *
  generalize etharpUpdateArpEntry netif (sipaddr m) (shwaddr m) flags s = r at *
  by_cases hok : r.1 = .ok
  · -- the entry has been learnt, so it was not static
    obtain ⟨hagrees, hemits⟩ := hupdates.agrees hs ha hok
    rw [hflags] at hagrees hemits
    cases hupdates with
    | learnt i s' hunicast hentry hstatic =>
      have hperm : ¬ B.Permanent (sipaddr m) := by
        intro hperm
        obtain ⟨j, hj, hip⟩ := ha.static _ hperm
        have hused : (s.table j).state ≠ .empty := by simp [hj]
        cases hentry with
        | hit husedi heq =>
          obtain rfl := hs.unique i j husedi hused (heq.trans hip.symm)
          simp [hflags] at hstatic
          exact hstatic hj
        | taken hunknown => exact hunknown j hused hip
      rw [if_pos hunicast, if_neg hperm]
      exact ⟨hagrees, hemits⟩
    | _ => cases hok
  · cases hupdates with
    | cast h =>
      rw [if_neg h]
      exact ⟨ha, emits_of_calls_eq rfl⟩
    | refused h =>
      have hunknown : Unknown s.table (sipaddr m) := by
        cases h with
        | refused hunknown => exact hunknown
      refine ⟨?_, emits_of_calls_eq rfl⟩
      split_ifs
      · exact ha
      · exact ha.unknown hunknown _
      · exact ha
    | static i hip hstatic _ =>
      have hperm : B.Permanent (sipaddr m) := by
        refine ⟨_, hip ▸ ha.bound i (by simp [hstatic, EtharpState.isStable]), ?_⟩
        simp [hstatic]
      rw [if_pos hperm]
      exact ⟨by split_ifs <;> exact ha, emits_of_calls_eq rfl⟩
    | learnt => exact absurd rfl hok

/-! ### The timer, removals and the clean-up -/

lemma Ticks.emits {env : ArpEnv} (h : Ticks netif env s i s') : Emits netif B D s s' := by
  cases h with
  | skip => exact emits_of_calls_eq rfl
  | expire => exact emits_release_setEntry s i _
  | older => exact emits_of_calls_eq rfl
  | request =>
    have hset : Emits netif B D s (s.setEntry i (s.table i).older) := emits_of_calls_eq rfl
    refine hset.trans ?_
    unfold etharpRequest etharpRequestDst etharpRaw
    split
    · exact emits_record (by simp)
    · exact emits_of_calls_eq rfl

lemma emits_cleanupEntry (s : Arp) (i : ArpIdx) : Emits netif B D s (cleanupEntry s i) := by
  rcases cleanupEntry_eq s i with heq | heq
  · rw [heq]
    exact emits_of_calls_eq rfl
  · rw [heq]
    exact emits_release_setEntry s i _

lemma emits_foldl {f : Arp → ArpIdx → Arp}
    (hf : ∀ s i, ArpInv netif s → ArpInv netif (f s i) ∧ Emits netif B D s (f s i))
    (hs : ArpInv netif s) (l : List ArpIdx) : Emits netif B D s (l.foldl f s) := by
  induction l generalizing s with
  | nil => exact emits_of_calls_eq rfl
  | cons i l ih => exact (hf s i hs).2.trans (ih (hf s i hs).1)

lemma emits_etharpTmr {env : ArpEnv} (hs : ArpInv netif s) :
    Emits netif B D s (etharpTmr netif env s) := by
  refine emits_foldl (fun s i hs => ?_) hs _
  have hticks : Ticks netif env s i (tmrEntry netif env s i) := ticks_tmrEntry hs i
  exact ⟨(hticks.moves (D := D)).inv hs, hticks.emits⟩

lemma emits_etharpCleanupNetif (hs : ArpInv netif s) :
    Emits netif B D s (etharpCleanupNetif s) := by
  refine emits_foldl (fun s i hs => ?_) hs _
  exact ⟨(moves_cleanupEntry (D := D) s i).inv hs, emits_cleanupEntry s i⟩

/-- An entry that is stable after a tick. -/
lemma EtharpEntry.stable_of_ticked {e : EtharpEntry} (he : EntryOk netif e)
    (h : e.ticked.state.isStable) :
    e.state.isStable ∧ e.ticked.ethaddr = e.ethaddr ∧
      (e.ticked.state = .static ↔ e.state = .static) ∧
      e.ticked.ctime = if e.state = .static then e.ctime else e.ctime + 1 := by
  unfold EtharpEntry.ticked at *
  split_ifs at h ⊢ with hskip hexp hstatic
  · exact ⟨h, rfl, Iff.rfl, rfl⟩
  · simp_all [EtharpState.isStable]
  · simp [EtharpState.isStable] at h
  · simp [EtharpState.isStable] at h
  · simp_all
  · obtain ⟨hempty, hstatic⟩ := not_or.1 hskip
    have hage := he.age hempty
    simp only [arpMaxage] at hage
    refine ⟨?_, rfl, iff_of_false (EtharpEntry.older_ne_static hstatic) hstatic, ?_⟩
    · unfold EtharpEntry.older at h
      cases hstate : e.state <;> simp_all [EtharpState.isStable]
    · simp only [EtharpEntry.older]
      omega

lemma EtharpEntry.ticked_ipaddr (e : EtharpEntry) : e.ticked.ipaddr = e.ipaddr := by
  unfold EtharpEntry.ticked EtharpEntry.older
  split_ifs <;> rfl

lemma EtharpEntry.q_of_ticked {e : EtharpEntry} {p : ℕ} (h : e.ticked.q = some p) :
    e.q = some p := by
  unfold EtharpEntry.ticked EtharpEntry.older at h
  split_ifs at h
  · exact h
  · exact h

lemma Agrees.tick {env : ArpEnv} (ha : Agrees B D s) (hs : ArpInv netif s) :
    Agrees B.tick D (etharpTmr netif env s) where
  bound i hi := by
    rw [etharpTmr_table hs] at hi ⊢
    obtain ⟨hstable, heth, hstatic, hctime⟩ := EtharpEntry.stable_of_ticked (hs.entry i) hi
    rw [EtharpEntry.ticked_ipaddr, Bindings.tick, ha.bound i hstable, heth, hctime]
    simp only [Option.map_some, decide_eq_true_eq, hstatic]
    split_ifs <;> rfl
  static a := by
    rintro ⟨b, hb, hperm⟩
    obtain ⟨b', hb', rfl⟩ := Option.map_eq_some_iff.1 hb
    have hperm' : b'.permanent := by
      split_ifs at hperm with h
      · exact h
      · exact hperm
    obtain ⟨i, hi, hip⟩ := ha.static a ⟨b', hb', hperm'⟩
    refine ⟨i, ?_⟩
    rw [etharpTmr_table hs, EtharpEntry.ticked, if_pos (.inr hi)]
    exact ⟨hi, hip⟩
  queued i p hp := by
    rw [etharpTmr_table hs] at hp ⊢
    rw [EtharpEntry.ticked_ipaddr]
    exact ha.queued i p (EtharpEntry.q_of_ticked hp)

lemma agrees_etharpCleanupNetif (hs : ArpInv netif s) :
    Agrees (fun _ => none) D (etharpCleanupNetif s) := by
  have hempty (i : ArpIdx) : ((etharpCleanupNetif s).table i).state = .empty := by
    rw [etharpCleanupNetif_table hs, EtharpEntry.cleaned]
    by_cases hi : (s.table i).state = .empty
    · rw [if_neg (by simp [hi])]
      exact hi
    · rw [if_pos ⟨hi, (hs.entry i).netif hi⟩]
  refine ⟨fun i hi => ?_, ?_, fun i p hp => ?_⟩
  · simp [hempty, EtharpState.isStable] at hi
  · rintro a ⟨b, hb, -⟩
    cases hb
  · have hinv := (moves_etharpCleanupNetif (D := D) hs).inv hs
    have hpending := (hinv.entry i).waiting (by simp [hp])
    simp [hempty] at hpending

lemma Agrees.remove (ha : Agrees B D s) (hs : ArpInv netif s)
    (hstatic : (s.table i).state = .static)
    (hip : (s.table i).ipaddr = a) :
    Agrees (Function.update B a none) D
      ((s.release i).setEntry i { s.table i with q := none, state := .empty }) := by
  have hused : (s.table i).state ≠ .empty := by simp [hstatic]
  have hrelease : Agrees B D (s.release i) := ha.congr (by simp)
  refine hrelease.update ?_ (by simp [EtharpState.isStable]) ?_ (by simp)
  · intro j hj hstable
    rw [Arp.release_table] at hstable ⊢
    have husedj : (s.table j).state ≠ .empty := by
      intro hempty
      simp [hempty, EtharpState.isStable] at hstable
    exact Function.update_of_ne (hip ▸ hs.alone hused j hj husedj) _ _
  · rintro a' ⟨b, hb, hperm⟩
    have haa : a' ≠ a := by
      rintro rfl
      simp at hb
    rw [Function.update_of_ne haa] at hb
    obtain ⟨j, hj, hjp⟩ := ha.static a' ⟨b, hb, hperm⟩
    refine .inr ⟨j, ?_, by simpa using hj, by simpa using hjp⟩
    rintro rfl
    exact haa (hjp.symm.trans hip)

lemma agrees_removeStatic (hs : ArpInv netif s) (ha : Agrees B D s) {r : Err × Arp}
    (hr : etharpRemoveStaticEntry a s = r) :
    Agrees (if r.1 = .ok then Function.update B a none else B) D r.2 ∧
      Emits netif (if r.1 = .ok then Function.update B a none else B) D s r.2 := by
  rcases removeStatic_cases hs a with heq | heq | ⟨i, hstatic, hip, heq⟩
  · obtain rfl := hr.symm.trans heq
    exact ⟨ha, emits_of_calls_eq rfl⟩
  · obtain rfl := hr.symm.trans heq
    exact ⟨ha, emits_of_calls_eq rfl⟩
  · obtain rfl := hr.symm.trans heq
    exact ⟨ha.remove hs hstatic hip, emits_release_setEntry s i _⟩

end Agreement

/-! ### Runs -/

namespace ArpHistory

/-- The packet has been submitted for the address. -/
def Sent (h : ArpHistory) (p : ℕ) (a : UInt32) : Prop := (p, a) ∈ h.submitted

/-- The module and its history agree. -/
def Good (h : ArpHistory) : Prop := Agrees h.bound h.Sent h.arp

variable {netif : Netif} {h : ArpHistory}

lemma good_init : Good init where
  bound i hi := by simp [init, Arp.init, EtharpState.isStable] at hi
  static a ha := by
    obtain ⟨b, hb, -⟩ := ha
    cases hb
  queued i p hp := by simp [init, Arp.init] at hp

/-- What a call submits has been submitted after it. -/
lemma submitted_step (input : ArpInput) {q : OutPacket} {a : UInt32}
    (hq : submits netif input = (q.pbuf, a) :: submits.copies input q a) :
    Submitted (h.step netif input).Sent input.2 q a where
  own := List.mem_append_right _ (by simp [hq])
  copy hcopy p hp := by
    refine List.mem_append_right _ ?_
    rw [hq, submits.copies, if_pos hcopy, hp]
    simp

lemma sent_step (input : ArpInput) (p : ℕ) (a : UInt32) (hp : h.Sent p a) :
    (h.step netif input).Sent p a := List.mem_append_left _ hp

/-- A call keeps the agreement, and sends right. -/
lemma Good.step (hg : h.Good) (hs : ArpInv netif h.arp) (input : ArpInput) :
    (h.step netif input).Good ∧
      Emits netif (h.step netif input).bound (h.step netif input).Sent h.arp
        (h.step netif input).arp := by
  have ha : Agrees h.bound (h.step netif input).Sent h.arp :=
    Agrees.mono hg (sent_step input)
  obtain ⟨event, env⟩ := input
  -- the relation of the packets is fixed from here on
  generalize hD : (h.step netif (event, env)).Sent = D at ha
  unfold Good
  rw [hD]
  cases event with
  | ethernetInput p len frame =>
    simp only [ArpHistory.step, perform, Bindings.after]
    cases hm : arpMessage netif len frame with
    | none =>
      simp only
      rcases ethernetInput_of_none p env h.arp hm with heq | heq
      · rw [heq]
        exact ⟨ha.record _, emits_record (by simp)⟩
      · rw [heq]
        exact ⟨ha.record _, emits_record (by simp)⟩
    | some m =>
      simp only
      obtain ⟨hheard, hemits⟩ := agrees_heard hs ha m
      rw [ethernetInput_of_some p hm]
      rcases answered_eq netif env m (heard netif m h.arp) with
        heq | ⟨-, -, heq⟩
      · rw [heq]
        exact ⟨hheard.record _, hemits.trans (emits_record (by simp))⟩
      · rw [heq]
        exact ⟨(hheard.record _).record _,
          (hemits.trans (emits_record (by simp))).trans (emits_record (by simp))⟩
  | output q ipaddr =>
    refine Quiets.agrees (quiets_etharpOutput hs fun a hdst => ?_) hs ha
    have hsubmits : submits netif (.output q ipaddr, env) =
        (q.pbuf, a) :: submits.copies (.output q ipaddr, env) q a := by
      simp [submits, hdst]
    rw [← hD]
    exact submitted_step (.output q ipaddr, env) hsubmits
  | query ipaddr o =>
    refine Quiets.agrees (quiets_etharpQuery hs o fun q hq => ?_) hs ha
    subst hq
    rw [← hD]
    exact submitted_step (.query ipaddr (some q), env) rfl
  | request ipaddr =>
    simp only [ArpHistory.step, perform, Bindings.after]
    exact Quiets.agrees (quiets_requestDst _) hs ha
  | tmr =>
    simp only [ArpHistory.step, perform, Bindings.after]
    exact ⟨ha.tick hs, emits_etharpTmr hs⟩
  | addStaticEntry a hw =>
    simp only [ArpHistory.step, perform, Bindings.after, etharpAddStaticEntry]
    split_ifs with hroute hok hok
    · have hupdates := updates_etharpUpdateArpEntry hs a hw .hardStatic
      exact hupdates.agrees hs ha hok
    · have hupdates := updates_etharpUpdateArpEntry hs a hw .hardStatic
      generalize etharpUpdateArpEntry netif a hw .hardStatic h.arp = r at *
      cases hupdates with
      | learnt => exact absurd rfl hok
      | _ => exact ⟨ha, emits_of_calls_eq rfl⟩
    · cases hok
    · exact ⟨ha, emits_of_calls_eq rfl⟩
  | removeStaticEntry a =>
    simp only [ArpHistory.step, perform, Bindings.after]
    exact agrees_removeStatic hs ha rfl
  | cleanupNetif =>
    simp only [ArpHistory.step, perform, Bindings.after]
    exact ⟨agrees_etharpCleanupNetif hs, emits_etharpCleanupNetif hs⟩

lemma good_run (netif : Netif) (es : List ArpInput) :
    (run (step netif) init es).Good ∧ ArpInv netif (run (step netif) init es).arp := by
  refine run_invariant (I := fun h : ArpHistory => h.Good ∧ ArpInv netif h.arp)
    (G := fun _ _ => True) ?_ ⟨good_init, arpInv_init⟩ (.of_forall fun _ _ => trivial)
  rintro h e ⟨hg, hs⟩ -
  refine ⟨(hg.step hs e).1, ?_⟩
  rw [arp_step]
  exact hs.step e

end ArpHistory

/-- In every run of the ARP module, the table of ten entries is a cache of the ideal table: the
entry of an address that is stable has the Ethernet address that was announced last for it (or
was made permanent) and the age of that announcement, which is less than `ARP_MAXAGE` ticks; and
a permanent binding is never lost. -/
theorem arp_cache (netif : Netif) (es : List ArpInput) :
    let h := run (ArpHistory.step netif) ArpHistory.init es
    h.arp = run (Arp.step netif) Arp.init es ∧
      (∀ i, (h.arp.table i).state.isStable → (h.arp.table i).ctime < arpMaxage ∧
        h.bound (h.arp.table i).ipaddr = some ⟨(h.arp.table i).ethaddr,
          decide ((h.arp.table i).state = .static), (h.arp.table i).ctime⟩) ∧
      ∀ a, h.bound.Permanent a →
        ∃ i, (h.arp.table i).state = .static ∧ (h.arp.table i).ipaddr = a := by
  intro h
  obtain ⟨hgood, hinv⟩ := ArpHistory.good_run netif es
  refine ⟨ArpHistory.arp_run netif .init es, fun i hi => ⟨?_, hgood.bound i hi⟩, hgood.static⟩
  refine (hinv.entry i).age fun hempty => ?_
  rw [hempty] at hi
  cases hi

/-- In every run of the ARP module, whatever is received, sent, timed out, made static or removed:
a call sends IP packets with our Ethernet address only, each of them submitted (itself or as a
copy) for some address, and to the Ethernet address of that group if the address is one, else to
the Ethernet address that was announced last for it, less than `ARP_MAXAGE` ticks ago, or is
permanent. -/
theorem arp_frames (netif : Netif) (es : List ArpInput) (input : ArpInput) :
    let h := run (ArpHistory.step netif) ArpHistory.init es
    let h' := h.step netif input
    ∃ cs, h'.arp.calls = h.arp.calls ++ cs ∧ ∀ q src dst, .ethernetOutput q src dst ∈ cs →
      src = netif.hwaddr ∧ ∃ a, (q, a) ∈ h'.submitted ∧ (castAddr netif a = some dst ∨
        ∃ b, h'.bound a = some b ∧ b.hw = dst ∧ (b.permanent ∨ b.age < arpMaxage)) := by
  intro h h'
  obtain ⟨hgood, hinv⟩ := ArpHistory.good_run netif es
  obtain ⟨cs, hcs, hright⟩ := (hgood.step hinv input).2
  exact ⟨cs, hcs, fun q src dst hmem => ⟨(hright q src dst hmem).src, (hright q src dst hmem).dst⟩⟩

end Fx3Ncm.Lwip
