/-
# The USB event log

`CyFxAppInit` registers `gl_UsbLogBuffer`, into which the USB driver logs events, and every
iteration of the loop of `appThread_Entry` prints what has been logged since the iteration before.
The buffer is a circular log (`Lib.Circular`) whose writer runs beside the thread: an entry can be
logged between any two steps of the loop, also while entries are being printed.

`event_log_drained` says that the loop that prints always ends and stays inside the buffer, and
that it prints the log, as long as the writer does not come round to what has not been printed.
-/
import Fx3Ncm.Lib.Circular
import Fx3Ncm.Lib.Run

namespace Fx3Ncm

open Runs CircularLog

/-! ### The model -/

@[simp, reducible] def usbLogSize : ℕ := 0x1000

/-- Where `appThread_Entry` stands: it is about to read the index, or it is in the loop that
prints, with its variables. -/
inductive DrainPc where
  | look
  | drain (tmp1 tmp2 : UInt16)
deriving DecidableEq, Repr

/-- The log, the variable `prevUsbLogIndex`, and what has been printed: each byte with the index at
which it was read.  Two numbers of log entries are kept for the specification: how many there were
when the index was last read, and how many when the last iteration that is through read it. -/
structure EventLog where
  usbLog : CircularLog UInt8 usbLogSize
  prevUsbLogIndex : UInt16
  pc : DrainPc
  prints : List (UInt16 × UInt8)
  looked : ℕ
  seen : ℕ

namespace EventLog

/-- The start of `appThread_Entry`, with anything in the buffer. -/
def init (buffer : ℕ → UInt8) : EventLog := ⟨.empty buffer, 0, .look, [], 0, 0⟩

/-- The number of entries that have been logged. -/
def logged (s : EventLog) : ℕ := s.usbLog.log.length

/-- The bytes that have been printed. -/
def printed (s : EventLog) : List UInt8 := s.prints.map Prod.snd

/-- `CyU3PUsbGetEventLogIndex` -/
def cyU3PUsbGetEventLogIndex (s : EventLog) : UInt16 := UInt16.ofNat s.usbLog.position

/-- The next value of `tmp2`. -/
def nextIndex (tmp2 : UInt16) : UInt16 :=
  if tmp2 + 1 = UInt16.ofNat usbLogSize then 0 else tmp2 + 1

/-- The end of an iteration, which stores the index. -/
def finish (s : EventLog) (tmp1 : UInt16) (looked : ℕ) : EventLog :=
  { s with prevUsbLogIndex := tmp1, pc := .look, looked := looked, seen := looked }

/-- A step of `appThread_Entry`: the index is read, or a byte is printed, or the iteration ends. -/
def threadStep (s : EventLog) : EventLog :=
  match s.pc with
  | .look =>
    let tmp1 := s.cyU3PUsbGetEventLogIndex
    if tmp1 ≠ s.prevUsbLogIndex then
      { s with pc := .drain tmp1 s.prevUsbLogIndex, looked := s.logged }
    else s.finish tmp1 s.logged
  | .drain tmp1 tmp2 =>
    if tmp2 ≠ tmp1 then
      { s with
        pc := .drain tmp1 (nextIndex tmp2)
        prints := s.prints ++ [(tmp2, s.usbLog.slots tmp2.toNat)] }
    else s.finish tmp1 s.looked

end EventLog

/-- The driver logs an entry, or the thread goes on. -/
inductive LogEvent where
  | log (entry : UInt8)
  | thread
deriving DecidableEq, Repr

def LogEvent.isThread : LogEvent → Bool
  | log _ => false
  | thread => true

/-- One step. -/
def EventLog.step (s : EventLog) : LogEvent → EventLog
  | .log entry => { s with usbLog := s.usbLog.push entry }
  | .thread => s.threadStep

/-- Fewer than `CYFX_USBLOG_SIZE` entries are logged between two iterations: from where an
iteration reads the index until the next one is through. -/
def WithinRound (s : EventLog) : LogEvent → Prop
  | .log _ => s.logged + 1 < s.seen + usbLogSize
  | .thread => True

instance (s : EventLog) : DecidablePred (WithinRound s)
  | .log _ => inferInstanceAs (Decidable (_ < _))
  | .thread => inferInstanceAs (Decidable True)

/-- The buffer has only been read inside its bounds, and the iteration in progress ends after at
most `CYFX_USBLOG_SIZE` steps of the thread, whatever is logged meanwhile. -/
structure DrainSafe (s : EventLog) : Prop where
  inBounds : ∀ p ∈ s.prints, p.1.toNat < usbLogSize
  ends : ∀ es : List LogEvent, usbLogSize ≤ es.countP LogEvent.isThread →
    ∃ es₁ es₂, es = es₁ ++ es₂ ∧ (run EventLog.step s es₁).pc = .look

/-- What has been printed are the first entries of the log, each of them once and in order.  Between
two iterations these are all entries that the last one has seen, and every entry is printed when the
thread has gone on long enough. -/
structure PrintsLog (s : EventLog) : Prop where
  isPrefix : s.printed <+: s.usbLog.log
  seen : s.pc = .look → s.printed = s.usbLog.log.take s.seen
  all : ∀ es : List LogEvent, Along EventLog.step WithinRound s es →
    2 * usbLogSize + 1 ≤ es.countP LogEvent.isThread →
    s.usbLog.log <+: (run EventLog.step s es).printed

namespace EventLog

/-! ### Indices -/

lemma toNat_cyU3PUsbGetEventLogIndex (s : EventLog) :
    s.cyU3PUsbGetEventLogIndex.toNat = s.logged % usbLogSize := by
  have hlt : s.usbLog.position < 2 ^ 16 := (Nat.mod_lt _ (by decide)).trans (by decide)
  exact UInt16.toNat_ofNat_of_lt' hlt

/-- The wrap of `tmp2` is that of a circular log. -/
lemma toNat_nextIndex {tmp2 : UInt16} (h : tmp2.toNat < usbLogSize) :
    (nextIndex tmp2).toNat = next usbLogSize tmp2.toNat := by
  have hadd : (tmp2 + 1).toNat = tmp2.toNat + 1 := by
    rw [UInt16.toNat_add]
    exact Nat.mod_eq_of_lt (by simp only [usbLogSize] at h; simp; omega)
  have hwrap : tmp2 + 1 = UInt16.ofNat usbLogSize ↔ tmp2.toNat + 1 = usbLogSize := by
    rw [← UInt16.toNat_inj, hadd]
    rfl
  rw [nextIndex, next]
  split_ifs with h₁ h₂ h₂
  · rfl
  · exact absurd (hwrap.1 h₁) h₂
  · exact absurd (hwrap.2 h₂) h₁
  · exact hadd

/-! ### Bounds and termination -/

/-- The variables of the thread are indices of the buffer, and so is what it has used. -/
structure Bounded (s : EventLog) : Prop where
  prev : s.prevUsbLogIndex.toNat < usbLogSize
  drain : ∀ tmp1 tmp2, s.pc = .drain tmp1 tmp2 →
    tmp1.toNat < usbLogSize ∧ tmp2.toNat < usbLogSize
  prints : ∀ p ∈ s.prints, p.1.toNat < usbLogSize

lemma bounded_init (buffer : ℕ → UInt8) : Bounded (init buffer) where
  prev := show 0 < usbLogSize by decide
  drain := by
    intro tmp1 tmp2 h
    cases h
  prints p hp := absurd hp List.not_mem_nil

/-- The three things that the thread can do. -/
lemma threadStep_cases (s : EventLog) :
    (s.pc = .look ∧ s.cyU3PUsbGetEventLogIndex ≠ s.prevUsbLogIndex ∧
      s.threadStep = { s with
        pc := .drain s.cyU3PUsbGetEventLogIndex s.prevUsbLogIndex, looked := s.logged }) ∨
    (s.pc = .look ∧ s.cyU3PUsbGetEventLogIndex = s.prevUsbLogIndex ∧
      s.threadStep = s.finish s.cyU3PUsbGetEventLogIndex s.logged) ∨
    (∃ tmp1 tmp2, s.pc = .drain tmp1 tmp2 ∧ tmp2 ≠ tmp1 ∧
      s.threadStep = { s with
        pc := .drain tmp1 (nextIndex tmp2)
        prints := s.prints ++ [(tmp2, s.usbLog.slots tmp2.toNat)] }) ∨
    (∃ tmp, s.pc = .drain tmp tmp ∧ s.threadStep = s.finish tmp s.looked) := by
  rw [threadStep]
  split
  · rename_i hpc
    by_cases h : s.cyU3PUsbGetEventLogIndex = s.prevUsbLogIndex
    · exact Or.inr (Or.inl ⟨hpc, h, if_neg (not_not.2 h)⟩)
    · exact Or.inl ⟨hpc, h, if_pos h⟩
  · rename_i tmp1 tmp2 hpc
    by_cases h : tmp2 = tmp1
    · subst h
      exact Or.inr (Or.inr (Or.inr ⟨tmp2, hpc, if_neg (not_not.2 rfl)⟩))
    · exact Or.inr (Or.inr (Or.inl ⟨tmp1, tmp2, hpc, h, if_pos h⟩))

lemma index_lt (s : EventLog) : s.cyU3PUsbGetEventLogIndex.toNat < usbLogSize := by
  rw [toNat_cyU3PUsbGetEventLogIndex]
  exact Nat.mod_lt _ (by decide)

lemma Bounded.finish {s : EventLog} (h : Bounded s) {tmp1 : UInt16}
    (htmp1 : tmp1.toNat < usbLogSize) (n : ℕ) : Bounded (s.finish tmp1 n) where
  prev := htmp1
  drain := by
    intro tmp1 tmp2 hpc
    cases hpc
  prints := h.prints

lemma Bounded.threadStep {s : EventLog} (h : Bounded s) : Bounded s.threadStep := by
  rcases threadStep_cases s with
    ⟨-, -, hs⟩ | ⟨-, -, hs⟩ | ⟨tmp1, tmp2, hpc, -, hs⟩ | ⟨tmp, hpc, hs⟩
  all_goals rw [hs]
  · refine ⟨h.prev, fun tmp1 tmp2 heq => ?_, h.prints⟩
    cases heq
    exact ⟨s.index_lt, h.prev⟩
  · exact h.finish s.index_lt _
  · obtain ⟨htmp1, htmp2⟩ := h.drain tmp1 tmp2 hpc
    refine ⟨h.prev, fun tmp1' tmp2' heq => ?_, fun p hp => ?_⟩
    · cases heq
      rw [toNat_nextIndex htmp2]
      exact ⟨htmp1, next_lt htmp2⟩
    · rcases List.mem_append.1 hp with hp | hp
      · exact h.prints p hp
      · rw [List.mem_singleton.1 hp]
        exact htmp2
  · exact h.finish (h.drain tmp tmp hpc).1 _

lemma Bounded.step {s : EventLog} (h : Bounded s) (e : LogEvent) : Bounded (s.step e) := by
  cases e with
  | log entry => exact ⟨h.prev, h.drain, h.prints⟩
  | thread => exact h.threadStep

lemma bounded_run (buffer : ℕ → UInt8) (es : List LogEvent) :
    Bounded (run step (init buffer) es) :=
  run_invariant (fun _ e h _ => h.step e) (bounded_init buffer) (Along.of_forall fun _ _ => trivial)

/-- The number of bytes that the iteration in progress still prints. -/
def toPrint (s : EventLog) : ℕ :=
  match s.pc with
  | .look => 0
  | .drain tmp1 tmp2 => gap usbLogSize tmp1.toNat tmp2.toNat

lemma toPrint_of_drain {s : EventLog} {tmp1 tmp2 : UInt16} (hpc : s.pc = .drain tmp1 tmp2) :
    s.toPrint = gap usbLogSize tmp1.toNat tmp2.toNat := by
  rw [toPrint, hpc]

lemma Bounded.toPrint_lt {s : EventLog} (h : Bounded s) : s.toPrint < usbLogSize := by
  cases hpc : s.pc with
  | look =>
    rw [toPrint, hpc]
    decide
  | drain tmp1 tmp2 =>
    obtain ⟨htmp1, htmp2⟩ := h.drain tmp1 tmp2 hpc
    rw [toPrint_of_drain hpc]
    exact gap_lt htmp1 htmp2

/-- One byte less is to be printed after a byte has been printed. -/
lemma Bounded.gap_nextIndex {s : EventLog} (h : Bounded s) {tmp1 tmp2 : UInt16}
    (hpc : s.pc = .drain tmp1 tmp2) (hne : tmp2 ≠ tmp1) :
    gap usbLogSize tmp1.toNat (nextIndex tmp2).toNat + 1 = s.toPrint := by
  obtain ⟨htmp1, htmp2⟩ := h.drain tmp1 tmp2 hpc
  rw [toNat_nextIndex htmp2, toPrint_of_drain hpc]
  exact gap_next htmp1 htmp2 fun heq => hne (UInt16.toNat_inj.1 heq)

/-- In the loop every step of the thread prints a byte, or ends the iteration. -/
lemma Bounded.step_drain {s : EventLog} (h : Bounded s) (hpc : s.pc ≠ .look) (e : LogEvent) :
    (s.step e).pc = .look ∨ (Bounded (s.step e) ∧ (s.step e).pc ≠ .look) ∧
      (s.step e).toPrint + (if e.isThread then 1 else 0) ≤ s.toPrint := by
  cases e with
  | log entry => exact Or.inr ⟨⟨h.step _, hpc⟩, le_rfl⟩
  | thread =>
    have hbounded := h.threadStep
    change s.threadStep.pc = .look ∨ (Bounded s.threadStep ∧ s.threadStep.pc ≠ .look) ∧
      s.threadStep.toPrint + 1 ≤ s.toPrint
    rcases threadStep_cases s with
      ⟨hlook, -, -⟩ | ⟨hlook, -, -⟩ | ⟨tmp1, tmp2, hdrain, hne, hs⟩ | ⟨tmp, -, hs⟩
    · exact absurd hlook hpc
    · exact absurd hlook hpc
    · rw [hs] at hbounded ⊢
      exact Or.inr ⟨⟨hbounded, by simp⟩, (h.gap_nextIndex hdrain hne).le⟩
    · rw [hs]
      exact Or.inl rfl

/-- Whatever the thread is doing, it comes back to where it reads the index. -/
lemma Bounded.ends {s : EventLog} (h : Bounded s) {es : List LogEvent}
    (hes : usbLogSize ≤ es.countP LogEvent.isThread) :
    ∃ es₁ es₂, es = es₁ ++ es₂ ∧ (run EventLog.step s es₁).pc = .look := by
  by_cases hpc : s.pc = .look
  · exact ⟨[], es, rfl, hpc⟩
  · exact exists_prefix_of_measure
      (I := fun s => Bounded s ∧ s.pc ≠ .look) (Q := fun s => s.pc = .look) toPrint
      (fun s e hs => hs.1.step_drain hs.2 e) ⟨h, hpc⟩ (h.toPrint_lt.trans_le hes)

/-! ### What is printed -/

/-- The thread follows the driver by less than a round.  The bytes printed are the first entries of
the log, and the indices are the slots of the entries that they stand for. -/
structure Follows (s : EventLog) : Prop where
  withinRound : s.logged < s.seen + usbLogSize
  prev : s.prevUsbLogIndex.toNat = s.seen % usbLogSize
  printed : s.printed = s.usbLog.log.take s.prints.length
  seen_le : s.seen ≤ s.prints.length
  le_logged : s.prints.length ≤ s.logged
  look : s.pc = .look → s.prints.length = s.seen
  drain : ∀ tmp1 tmp2, s.pc = .drain tmp1 tmp2 →
    s.prints.length ≤ s.looked ∧ s.looked ≤ s.logged ∧
      tmp1.toNat = s.looked % usbLogSize ∧ tmp2.toNat = s.prints.length % usbLogSize

lemma follows_init (buffer : ℕ → UInt8) : Follows (init buffer) where
  withinRound := show 0 < 0 + usbLogSize by decide
  prev := rfl
  printed := rfl
  seen_le := le_rfl
  le_logged := le_rfl
  look _ := rfl
  drain := by
    intro tmp1 tmp2 h
    cases h

lemma Follows.log {s : EventLog} (h : Follows s) {entry : UInt8}
    (hround : s.logged + 1 < s.seen + usbLogSize) : Follows (s.step (.log entry)) := by
  have hlogged : (s.step (.log entry)).logged = s.logged + 1 := List.length_append
  have hle := h.le_logged
  refine ⟨?_, h.prev, ?_, h.seen_le, ?_, h.look, fun tmp1 tmp2 hpc => ?_⟩
  · rw [hlogged]
    exact hround
  · exact h.printed.trans (List.take_append_of_le_length hle).symm
  · rw [hlogged]
    exact hle.trans (Nat.le_succ _)
  · obtain ⟨h₁, h₂, h₃⟩ := h.drain tmp1 tmp2 hpc
    rw [hlogged]
    exact ⟨h₁, h₂.trans (Nat.le_succ _), h₃⟩

/-- The end of an iteration that has printed all it has seen. -/
lemma Follows.finish {s : EventLog} (h : Follows s) {tmp1 : UInt16}
    (htmp1 : tmp1.toNat = s.prints.length % usbLogSize) :
    Follows (s.finish tmp1 s.prints.length) where
  withinRound := h.withinRound.trans_le (Nat.add_le_add_right h.seen_le _)
  prev := htmp1
  printed := h.printed
  seen_le := le_rfl
  le_logged := h.le_logged
  look _ := rfl
  drain := by
    intro tmp1 tmp2 hpc
    cases hpc

/-- The byte that the thread prints is the next entry of the log. -/
lemma Follows.print {s : EventLog} (h : Follows s) {tmp1 tmp2 : UInt16}
    (hpc : s.pc = .drain tmp1 tmp2) (hne : tmp2 ≠ tmp1) :
    Follows { s with
      pc := .drain tmp1 (nextIndex tmp2)
      prints := s.prints ++ [(tmp2, s.usbLog.slots tmp2.toNat)] } := by
  obtain ⟨hle, hlooked, htmp1, htmp2⟩ := h.drain tmp1 tmp2 hpc
  have hlt : s.prints.length < s.looked := by
    refine hle.lt_of_ne fun heq => hne (UInt16.toNat_inj.1 ?_)
    rw [htmp1, htmp2, heq]
  have hlog : s.prints.length < s.usbLog.log.length := hlt.trans_le hlooked
  -- the driver has not come round to it yet
  have hslot : s.usbLog.slots tmp2.toNat = s.usbLog.log[s.prints.length] := by
    rw [htmp2]
    exact s.usbLog.holds _ hlog (h.withinRound.le.trans (Nat.add_le_add_right h.seen_le _))
  have hlen : (s.prints ++ [(tmp2, s.usbLog.slots tmp2.toNat)]).length = s.prints.length + 1 :=
    List.length_append
  have hindex : tmp2.toNat < usbLogSize := htmp2 ▸ Nat.mod_lt _ (by decide)
  refine ⟨h.withinRound, h.prev, ?_, ?_, ?_, ?_, fun tmp1' tmp2' heq => ?_⟩
  · change (s.prints ++ [(tmp2, s.usbLog.slots tmp2.toNat)]).map Prod.snd = _
    rw [hlen, List.take_succ_eq_append_getElem hlog, ← h.printed, ← hslot, List.map_append]
    rfl
  · exact h.seen_le.trans (hlen ▸ Nat.le_succ _)
  · exact hlen.trans_le hlog
  · intro hlook
    cases hlook
  · cases heq
    refine ⟨hlen.trans_le hlt, hlooked, htmp1, ?_⟩
    calc (nextIndex tmp2).toNat
        = next usbLogSize (s.prints.length % usbLogSize) := by rw [toNat_nextIndex hindex, htmp2]
      _ = (s.prints.length + 1) % usbLogSize := next_mod (by decide) _
      _ = (s.prints ++ [(tmp2, s.usbLog.slots tmp2.toNat)]).length % usbLogSize := by rw [hlen]

lemma Follows.threadStep {s : EventLog} (h : Follows s) : Follows s.threadStep := by
  have hround := h.withinRound
  have hseen := h.seen_le
  have hlogged := h.le_logged
  rcases threadStep_cases s with
    ⟨hpc, -, hs⟩ | ⟨hpc, heq, hs⟩ | ⟨tmp1, tmp2, hpc, hne, hs⟩ | ⟨tmp, hpc, hs⟩
  all_goals rw [hs]
  · refine ⟨h.withinRound, h.prev, h.printed, h.seen_le, h.le_logged, ?_, fun tmp1 tmp2 heq => ?_⟩
    · intro hlook
      cases hlook
    · cases heq
      exact ⟨hlogged, le_rfl, s.toNat_cyU3PUsbGetEventLogIndex, h.look hpc ▸ h.prev⟩
  · -- the same index: nothing has been logged
    have hmod : s.seen % usbLogSize = s.logged % usbLogSize := by
      rw [← h.prev, ← heq, toNat_cyU3PUsbGetEventLogIndex]
    have hlen : s.prints.length = s.logged :=
      (h.look hpc).trans (eq_of_mod_eq (hseen.trans hlogged) hround hmod)
    rw [← hlen]
    exact h.finish (hlen ▸ s.toNat_cyU3PUsbGetEventLogIndex)
  · exact h.print hpc hne
  · obtain ⟨hle, hlooked, htmp1, htmp2⟩ := h.drain tmp tmp hpc
    have hlen : s.prints.length = s.looked :=
      eq_of_mod_eq hle (by omega) (htmp2.symm.trans htmp1)
    rw [← hlen]
    exact h.finish htmp2

lemma Follows.step {s : EventLog} (h : Follows s) {e : LogEvent} (he : WithinRound s e) :
    Follows (s.step e) := by
  cases e with
  | log entry => exact h.log he
  | thread => exact h.threadStep

lemma Follows.run {s : EventLog} (h : Follows s) {es : List LogEvent}
    (hes : Along EventLog.step WithinRound s es) : Follows (run EventLog.step s es) :=
  run_invariant (fun _ _ h he => h.step he) h hes

/-! ### Every entry is printed -/

/-- The number of steps until the thread has printed the first `n` entries: it ends the iteration
in progress, unless that has seen them, reads the index and prints what is there. -/
def toSee (n : ℕ) (s : EventLog) : ℕ :=
  match s.pc with
  | .look => usbLogSize
  | .drain _ _ => s.toPrint + if s.looked < n then usbLogSize + 1 else 0

lemma toSee_of_look {s : EventLog} (hpc : s.pc = .look) (n : ℕ) : s.toSee n = usbLogSize := by
  rw [toSee, hpc]

lemma toSee_of_drain {s : EventLog} {tmp1 tmp2 : UInt16} (hpc : s.pc = .drain tmp1 tmp2) (n : ℕ) :
    s.toSee n = s.toPrint + if s.looked < n then usbLogSize + 1 else 0 := by
  rw [toSee, hpc]

lemma Bounded.toSee_le {s : EventLog} (h : Bounded s) (n : ℕ) : s.toSee n ≤ 2 * usbLogSize := by
  have hlt := h.toPrint_lt
  simp only [usbLogSize] at hlt
  rw [toSee]
  split
  · decide
  · simp only [usbLogSize]
    split_ifs <;> omega

/-- Every step of the thread brings it closer to having seen the first `n` entries. -/
lemma Bounded.step_toSee {s : EventLog} {n : ℕ} (h : Bounded s) (hn : n ≤ s.logged)
    (e : LogEvent) :
    n ≤ (s.step e).seen ∨ (Bounded (s.step e) ∧ n ≤ (s.step e).logged) ∧
      (s.step e).toSee n + (if e.isThread then 1 else 0) ≤ s.toSee n := by
  cases e with
  | log entry =>
    refine Or.inr ⟨⟨h.step _, ?_⟩, le_rfl⟩
    exact hn.trans (by simp [logged, EventLog.step])
  | thread =>
    have hbounded := h.threadStep
    change n ≤ s.threadStep.seen ∨ (Bounded s.threadStep ∧ n ≤ s.threadStep.logged) ∧
      s.threadStep.toSee n + 1 ≤ s.toSee n
    rcases threadStep_cases s with
      ⟨hlook, -, hs⟩ | ⟨hlook, -, hs⟩ | ⟨tmp1, tmp2, hdrain, hne, hs⟩ | ⟨tmp, hdrain, hs⟩
    all_goals rw [hs] at hbounded ⊢
    · refine Or.inr ⟨⟨hbounded, hn⟩, ?_⟩
      rw [toSee_of_look hlook, toSee_of_drain rfl, if_neg (not_lt.2 hn)]
      exact hbounded.toPrint_lt
    · exact Or.inl hn
    · refine Or.inr ⟨⟨hbounded, hn⟩, ?_⟩
      rw [toSee_of_drain hdrain, toSee_of_drain rfl, ← h.gap_nextIndex hdrain hne,
        toPrint_of_drain rfl]
      exact (Nat.add_right_comm _ _ _).le
    · rcases Nat.lt_or_ge s.looked n with hlt | hge
      · refine Or.inr ⟨⟨hbounded, hn⟩, ?_⟩
        rw [toSee_of_drain hdrain, toSee_of_look rfl, if_pos hlt]
        exact Nat.le_add_left _ _
      · exact Or.inl hge

lemma isPrefix_prints_step (s : EventLog) (e : LogEvent) : s.prints <+: (s.step e).prints := by
  cases e with
  | log entry => exact List.prefix_rfl
  | thread =>
    have hcases := threadStep_cases s
    change s.prints <+: s.threadStep.prints
    generalize s.threadStep = s' at hcases ⊢
    rcases hcases with ⟨-, -, rfl⟩ | ⟨-, -, rfl⟩ | ⟨tmp1, tmp2, -, -, rfl⟩ | ⟨tmp, -, rfl⟩
    · exact List.prefix_rfl
    · exact List.prefix_rfl
    · exact List.prefix_append _ _
    · exact List.prefix_rfl

lemma isPrefix_log_step (s : EventLog) (e : LogEvent) :
    s.usbLog.log <+: (s.step e).usbLog.log := by
  cases e with
  | log entry => exact List.prefix_append _ _
  | thread =>
    have hcases := threadStep_cases s
    change s.usbLog.log <+: s.threadStep.usbLog.log
    generalize s.threadStep = s' at hcases ⊢
    rcases hcases with ⟨-, -, rfl⟩ | ⟨-, -, rfl⟩ | ⟨tmp1, tmp2, -, -, rfl⟩ | ⟨tmp, -, rfl⟩
    all_goals exact List.prefix_rfl

/-- What has been printed and what has been logged stays. -/
lemma isPrefix_run (s : EventLog) (es : List LogEvent) :
    s.prints <+: (run EventLog.step s es).prints ∧
      s.usbLog.log <+: (run EventLog.step s es).usbLog.log := by
  refine run_invariant (G := fun _ _ => True)
    (I := fun x : EventLog => s.prints <+: x.prints ∧ s.usbLog.log <+: x.usbLog.log) ?_
    ⟨List.prefix_rfl, List.prefix_rfl⟩ (Along.of_forall fun _ _ => trivial)
  intro x e hx _
  exact ⟨hx.1.trans (isPrefix_prints_step x e), hx.2.trans (isPrefix_log_step x e)⟩

/-- When the thread has gone on long enough, it has printed all that was in the log. -/
lemma Follows.isPrefix_printed_run {s : EventLog} (h : Follows s) (hb : Bounded s)
    {es : List LogEvent} (hes : Along EventLog.step WithinRound s es)
    (hcount : 2 * usbLogSize + 1 ≤ es.countP LogEvent.isThread) :
    s.usbLog.log <+: (Runs.run EventLog.step s es).printed := by
  obtain ⟨es₁, es₂, rfl, hseen⟩ := exists_prefix_of_measure
    (I := fun x => Bounded x ∧ s.logged ≤ x.logged) (Q := fun x => s.logged ≤ x.seen)
    (toSee s.logged) (fun x e hx => hx.1.step_toSee hx.2 e) ⟨hb, le_rfl⟩
    ((hb.toSee_le _).trans_lt hcount)
  have h₁ := h.run (along_append.1 hes).1
  have h₂ := h.run hes
  have hlen : s.logged ≤ (Runs.run EventLog.step s (es₁ ++ es₂)).prints.length := by
    rw [run_append]
    exact (hseen.trans h₁.seen_le).trans (isPrefix_run _ es₂).1.length_le
  rw [h₂.printed]
  exact List.prefix_take_iff.2 ⟨(isPrefix_run s _).2, hlen⟩

end EventLog

/-- The drain of the event log.  In every run the loop that prints ends and reads the buffer inside
its bounds.  In every run in which fewer than `CYFX_USBLOG_SIZE` entries are logged between two
iterations it prints every entry of the log once and in order. -/
theorem event_log_drained (buffer : ℕ → UInt8) (es : List LogEvent) :
    DrainSafe (run EventLog.step (EventLog.init buffer) es) ∧
      (Along EventLog.step WithinRound (EventLog.init buffer) es →
        PrintsLog (run EventLog.step (EventLog.init buffer) es)) := by
  have hbounded := EventLog.bounded_run buffer es
  refine ⟨⟨hbounded.prints, fun es' hes' => hbounded.ends hes'⟩, fun hes => ?_⟩
  have hfollows := (EventLog.follows_init buffer).run hes
  refine ⟨?_, fun hpc => ?_, fun es' hes' hcount => ?_⟩
  · rw [hfollows.printed]
    exact List.take_prefix _ _
  · rw [hfollows.printed, hfollows.look hpc]
  · exact hfollows.isPrefix_printed_run hbounded hes' hcount

/-- Two entries are logged, and an iteration prints them. -/
def twoEntries : List LogEvent := [.log 7, .log 9, .thread, .thread, .thread, .thread]

/-- The buffer of the run above is full of zeros. -/
theorem event_log_drained_twoEntries :
    (run EventLog.step (EventLog.init fun _ => 0) twoEntries).prints = [(0, 7), (1, 9)] ∧
      PrintsLog (run EventLog.step (EventLog.init fun _ => 0) twoEntries) := by
  refine ⟨by decide, (event_log_drained _ twoEntries).2 ⟨?_, ?_, ?_⟩⟩
  · decide
  · decide
  · exact ⟨trivial, trivial, trivial, trivial, trivial⟩

end Fx3Ncm
