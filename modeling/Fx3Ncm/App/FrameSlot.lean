/-
# The slot for a received frame

`net_rx_cb` copies a datagram into a pbuf and leaves it in `received_frame`; the loop of
`lwipThread_Entry` gives it to lwIP in `service_traffic`, and calls `net_rx_renew`, which
calls `net_rx_cb` again.

The calls that concern a pbuf are recorded.  lwIP's `ethernet_input` says of the pbuf passed to
it that it "is freed or consumed, so the caller doesn't have to free it again": both
`ethernet_input` and `pbuf_free` give up the only reference.  The pbufs are numbered in the
order in which they are allocated.
-/
import Fx3Ncm.Lib.Run
import Mathlib.Order.Basic
import Mathlib.Data.Nat.Basic

namespace Fx3Ncm

open Runs

/-! ### The model -/

/-- The calls that concern a pbuf. -/
inductive PbufCall where
  /-- `pbuf_alloc` has returned the pbuf. -/
  | pbufAlloc (p : ℕ)
  /-- `memcpy` to the payload. -/
  | memcpy (p : ℕ) (datagram : List UInt8)
  | ethernetInput (p : ℕ)
  | pbufFree (p : ℕ)
deriving DecidableEq, Repr

namespace PbufCall

/-- The pbuf that the call touches. -/
def pbuf : PbufCall → ℕ
  | pbufAlloc p | memcpy p _ | ethernetInput p | pbufFree p => p

/-- The call gives up the reference to its pbuf. -/
def releases : PbufCall → Bool
  | ethernetInput _ | pbufFree _ => true
  | pbufAlloc _ | memcpy _ _ => false

end PbufCall

/-- `received_frame`, the number of pbufs allocated so far, and the calls made so far. -/
structure FrameSlot where
  receivedFrame : Option ℕ
  allocated : ℕ
  calls : List PbufCall
deriving DecidableEq, Repr

namespace FrameSlot

/-- At the start `received_frame` is `NULL`. -/
def init : FrameSlot := ⟨none, 0, []⟩

/-- `net_rx_cb` for the bytes of a datagram, where `pbuf_alloc` succeeds if `pbufAlloc` says so. -/
def netRxCb (datagram : List UInt8) (pbufAlloc : Bool) (s : FrameSlot) : Bool × FrameSlot :=
  if s.receivedFrame.isSome then (false, s)
  else if datagram.length ≠ 0 then
    if pbufAlloc then
      (true,
        { receivedFrame := some s.allocated
          allocated := s.allocated + 1
          calls := s.calls ++ [.pbufAlloc s.allocated, .memcpy s.allocated datagram] })
    else (true, s)
  else (true, s)

/-- Calls of `net_rx_cb`, one after the other, with the answers of `pbuf_alloc`. -/
def netRxCbs (datagrams : List (List UInt8 × Bool)) (s : FrameSlot) : FrameSlot :=
  datagrams.foldl (fun s d => (s.netRxCb d.1 d.2).2) s

/-- What `service_traffic` does with the pbuf `p` in `received_frame` before it calls
`net_rx_renew`. -/
def deliver (p : ℕ) (s : FrameSlot) : FrameSlot :=
  { s with receivedFrame := none, calls := s.calls ++ [.ethernetInput p, .pbufFree p] }

/-- `service_traffic`, where `net_rx_renew` calls `net_rx_cb` for each of the `datagrams`. -/
def serviceTraffic (datagrams : List (List UInt8 × Bool)) (s : FrameSlot) : FrameSlot :=
  match s.receivedFrame with
  | none => s
  | some p => (s.deliver p).netRxCbs datagrams

end FrameSlot

/-- A step of the receive loop. -/
inductive FrameStep where
  | netRxCb (datagram : List UInt8) (pbufAlloc : Bool)
  | serviceTraffic (datagrams : List (List UInt8 × Bool))

/-- One step. -/
def FrameSlot.step (s : FrameSlot) : FrameStep → FrameSlot
  | .netRxCb datagram pbufAlloc => (s.netRxCb datagram pbufAlloc).2
  | .serviceTraffic datagrams => s.serviceTraffic datagrams

/-- The number of times that the reference to the pbuf has been given up. -/
def FrameSlot.releases (s : FrameSlot) (p : ℕ) : ℕ :=
  s.calls.countP fun c => c.releases && c.pbuf == p

/-- Each pbuf has been given to `ethernet_input` exactly once, unless it is still in the slot. -/
def GivenOnce (s : FrameSlot) : Prop :=
  ∀ p < s.allocated, s.calls.count (.ethernetInput p) = if s.receivedFrame = some p then 0 else 1

/-- What is to hold of the slot: each pbuf has been given to `ethernet_input` and released exactly
once, unless it is still in the slot; and no call touches a pbuf that has been released. -/
structure ReleasedOnce (s : FrameSlot) : Prop where
  given : GivenOnce s
  released : ∀ p < s.allocated, s.releases p = if s.receivedFrame = some p then 0 else 1
  untouched : s.calls.Pairwise fun c c' => c.releases = true → c'.pbuf ≠ c.pbuf

/-- The condition on a step: `service_traffic` does not find a frame. -/
def FindsNoFrame (s : FrameSlot) : FrameStep → Prop
  | .netRxCb _ _ => True
  | .serviceTraffic _ => s.receivedFrame = none

/-! ### The slot -/

namespace FrameSlot

/-- `net_rx_cb` leaves everything as it is, or stores a fresh pbuf in the empty slot. -/
lemma netRxCb_cases (datagram : List UInt8) (pbufAlloc : Bool) (s : FrameSlot) :
    (s.netRxCb datagram pbufAlloc).2 = s ∨
      s.receivedFrame = none ∧ (s.netRxCb datagram pbufAlloc).2 =
        ⟨some s.allocated, s.allocated + 1,
          s.calls ++ [.pbufAlloc s.allocated, .memcpy s.allocated datagram]⟩ := by
  rw [netRxCb]
  split_ifs with hframe hsize halloc
  · exact Or.inl rfl
  · exact Or.inr ⟨by simpa using hframe, rfl⟩
  · exact Or.inl rfl
  · exact Or.inl rfl

/-- Whether a pbuf is stored. -/
lemma receivedFrame_netRxCb {s : FrameSlot} (h : s.receivedFrame = none) {datagram : List UInt8}
    (hsize : datagram ≠ []) (pbufAlloc : Bool) :
    (s.netRxCb datagram pbufAlloc).2.receivedFrame = none ↔ pbufAlloc = false := by
  rw [netRxCb, h, if_neg (by simp), if_pos (by simpa using hsize)]
  cases pbufAlloc with
  | false => simp [h]
  | true => simp

end FrameSlot

/-- The invariant of all runs: calls concern allocated pbufs, and each of these is in the slot or
has been given to `ethernet_input` once. -/
structure SlotInv (s : FrameSlot) : Prop where
  bound : ∀ c ∈ s.calls, c.pbuf < s.allocated
  slot : ∀ p, s.receivedFrame = some p → p < s.allocated
  given : GivenOnce s

namespace SlotInv

variable {s : FrameSlot}

lemma init : SlotInv FrameSlot.init := ⟨nofun, nofun, nofun⟩

lemma netRxCb (h : SlotInv s) (datagram : List UInt8) (pbufAlloc : Bool) :
    SlotInv (s.netRxCb datagram pbufAlloc).2 := by
  rcases s.netRxCb_cases datagram pbufAlloc with heq | ⟨hnone, heq⟩
  · rw [heq]
    exact h
  · rw [heq]
    refine ⟨?_, ?_, ?_⟩
    · intro c hc
      rcases List.mem_append.1 hc with hc | hc
      · exact Nat.lt_succ_of_lt (h.bound c hc)
      · simp only [List.mem_cons, List.not_mem_nil, or_false] at hc
        rcases hc with rfl | rfl <;> exact Nat.lt_succ_self _
    · rintro p ⟨⟩
      exact Nat.lt_succ_self _
    · intro p hp
      have hcount : List.count (PbufCall.ethernetInput p)
          (s.calls ++ [.pbufAlloc s.allocated, .memcpy s.allocated datagram]) =
          s.calls.count (.ethernetInput p) := by
        simp [List.count_append]
      change List.count _ (_ ++ _) = if some s.allocated = some p then 0 else 1
      rw [hcount]
      rcases Nat.lt_succ_iff_lt_or_eq.1 hp with hp | rfl
      · rw [h.given p hp, hnone, if_neg nofun, if_neg fun heq => by cases heq; omega]
      · -- nothing has been done with the new pbuf
        rw [if_pos rfl, List.count_eq_zero]
        exact fun hmem => lt_irrefl _ (h.bound _ hmem)

lemma netRxCbs (h : SlotInv s) (datagrams : List (List UInt8 × Bool)) :
    SlotInv (s.netRxCbs datagrams) := by
  induction datagrams generalizing s with
  | nil => exact h
  | cons d datagrams ih => exact ih (h.netRxCb d.1 d.2)

lemma deliver (h : SlotInv s) {p : ℕ} (hp : s.receivedFrame = some p) : SlotInv (s.deliver p) := by
  refine ⟨?_, fun q hq => (nomatch hq), ?_⟩
  · intro c hc
    rcases List.mem_append.1 hc with hc | hc
    · exact h.bound c hc
    · simp only [List.mem_cons, List.not_mem_nil, or_false] at hc
      rcases hc with rfl | rfl <;> exact h.slot p hp
  · intro q hq
    have hgiven := h.given q hq
    rw [hp] at hgiven
    change List.count _ (_ ++ _) = if none = some q then 0 else 1
    rw [List.count_append, hgiven]
    by_cases heq : p = q
    · simp [heq]
    · simp [heq]

/-- The step lemma. -/
lemma step (h : SlotInv s) (e : FrameStep) : SlotInv (s.step e) := by
  cases e with
  | netRxCb datagram pbufAlloc => exact h.netRxCb datagram pbufAlloc
  | serviceTraffic datagrams =>
    rw [FrameSlot.step, FrameSlot.serviceTraffic]
    split
    · exact h
    · rename_i p hp
      exact (h.deliver hp).netRxCbs datagrams

/-- The run lemma. -/
lemma run (h : SlotInv s) (es : List FrameStep) : SlotInv (Runs.run FrameSlot.step s es) :=
  run_invariant (G := fun _ _ => True) (fun _ e h _ => h.step e) h
    (Along.of_forall fun _ _ => trivial)

end SlotInv

/-! ### Releases -/

section Releases

variable {s : FrameSlot}

/-- `net_rx_cb` releases nothing. -/
lemma releases_netRxCb (datagram : List UInt8) (pbufAlloc : Bool) (p : ℕ) :
    (s.netRxCb datagram pbufAlloc).2.releases p = s.releases p := by
  rcases s.netRxCb_cases datagram pbufAlloc with heq | ⟨-, heq⟩
  · rw [heq]
  · rw [heq]
    simp [FrameSlot.releases, List.countP_append, PbufCall.releases]

lemma releases_netRxCbs (datagrams : List (List UInt8 × Bool)) (p : ℕ) :
    (s.netRxCbs datagrams).releases p = s.releases p := by
  induction datagrams generalizing s with
  | nil => rfl
  | cons d datagrams ih => exact ih.trans (releases_netRxCb d.1 d.2 p)

lemma allocated_le_netRxCbs (datagrams : List (List UInt8 × Bool)) :
    s.allocated ≤ (s.netRxCbs datagrams).allocated := by
  induction datagrams generalizing s with
  | nil => exact le_rfl
  | cons d datagrams ih =>
    refine le_trans ?_ ih
    change s.allocated ≤ (s.netRxCb d.1 d.2).2.allocated
    rcases s.netRxCb_cases d.1 d.2 with heq | ⟨-, heq⟩
    · rw [heq]
    · rw [heq]
      exact Nat.le_succ _

/-- `service_traffic` releases the frame it finds twice. -/
lemma two_le_releases {p : ℕ} (hp : s.receivedFrame = some p)
    (datagrams : List (List UInt8 × Bool)) : 2 ≤ (s.serviceTraffic datagrams).releases p := by
  rw [FrameSlot.serviceTraffic, hp]
  dsimp only
  rw [releases_netRxCbs, FrameSlot.releases, FrameSlot.deliver, List.countP_append]
  simp [PbufCall.releases, PbufCall.pbuf]

lemma not_releasedOnce_serviceTraffic (h : SlotInv s) {p : ℕ} (hp : s.receivedFrame = some p)
    (datagrams : List (List UInt8 × Bool)) : ¬ ReleasedOnce (s.serviceTraffic datagrams) := by
  intro hQ
  have htwo := two_le_releases hp datagrams
  have hallocated : p < (s.serviceTraffic datagrams).allocated := by
    rw [FrameSlot.serviceTraffic, hp]
    exact lt_of_lt_of_le (h.slot p hp) (allocated_le_netRxCbs (s := s.deliver p) datagrams)
  rw [hQ.released p hallocated] at htwo
  split_ifs at htwo <;> omega

/-- As long as nothing has been released, every pbuf is still in the slot. -/
lemma releasedOnce_of_none_released (h : SlotInv s) (hnone : ∀ c ∈ s.calls, c.releases = false) :
    ReleasedOnce s := by
  have hzero : ∀ p, s.releases p = 0 := by
    intro p
    rw [FrameSlot.releases, List.countP_eq_zero]
    intro c hc
    simp [hnone c hc]
  refine ⟨h.given, ?_, ?_⟩
  · intro p hp
    have hgiven := h.given p hp
    have hcount : s.calls.count (.ethernetInput p) = 0 :=
      List.count_eq_zero.2 fun hmem => absurd (hnone _ hmem) (by simp [PbufCall.releases])
    rw [hzero, ← hgiven, hcount]
  · refine List.Pairwise.imp_of_mem (R := fun _ _ => True) ?_
      (List.pairwise_of_forall fun _ _ => trivial)
    intro c c' hc _ _ hreleases
    rw [hnone c hc] at hreleases
    cases hreleases

/-- `net_rx_cb` records no release. -/
lemma none_released_netRxCb (hnone : ∀ c ∈ s.calls, c.releases = false) (datagram : List UInt8)
    (pbufAlloc : Bool) : ∀ c ∈ (s.netRxCb datagram pbufAlloc).2.calls, c.releases = false := by
  rcases s.netRxCb_cases datagram pbufAlloc with heq | ⟨-, heq⟩
  · rw [heq]
    exact hnone
  · rw [heq]
    intro c hc
    rcases List.mem_append.1 hc with hc | hc
    · exact hnone c hc
    · simp only [List.mem_cons, List.not_mem_nil, or_false] at hc
      rcases hc with rfl | rfl <;> rfl

/-- A step keeps the pbufs released once exactly if it does not deliver a frame, and then nothing
has been released. -/
lemma releasedOnce_step_iff (h : SlotInv s) (hnone : ∀ c ∈ s.calls, c.releases = false)
    (e : FrameStep) :
    (ReleasedOnce (s.step e) ↔ FindsNoFrame s e) ∧
      (FindsNoFrame s e → ∀ c ∈ (s.step e).calls, c.releases = false) := by
  have hstep := h.step e
  cases e with
  | netRxCb datagram pbufAlloc =>
    have hnone' := none_released_netRxCb hnone datagram pbufAlloc
    exact ⟨iff_of_true (releasedOnce_of_none_released hstep hnone') trivial, fun _ => hnone'⟩
  | serviceTraffic datagrams =>
    cases hframe : s.receivedFrame with
    | none =>
      have heq : s.step (.serviceTraffic datagrams) = s := by
        simp only [FrameSlot.step, FrameSlot.serviceTraffic, hframe]
      rw [heq]
      exact ⟨iff_of_true (releasedOnce_of_none_released h hnone) hframe, fun _ => hnone⟩
    | some p =>
      have hno : ¬ FindsNoFrame s (.serviceTraffic datagrams) := by
        rw [FindsNoFrame, hframe]
        exact nofun
      exact ⟨iff_of_false (not_releasedOnce_serviceTraffic h hframe datagrams) hno,
        fun hC => absurd hC hno⟩

end Releases

/-- In every run of the receive loop each pbuf is given to `ethernet_input` exactly once, unless it
is still in the slot.  The pbufs are released exactly once and not touched afterwards if and
only if `service_traffic` never finds a frame. -/
theorem received_pbufs (es : List FrameStep) :
    GivenOnce (run FrameSlot.step FrameSlot.init es) ∧
      (Along FrameSlot.step (fun s e => ReleasedOnce (s.step e)) FrameSlot.init es ↔
        Along FrameSlot.step FindsNoFrame FrameSlot.init es) := by
  refine ⟨(SlotInv.init.run es).given, ?_⟩
  refine along_iff_along (G := fun _ _ => True)
    (I := fun s => SlotInv s ∧ ∀ c ∈ s.calls, c.releases = false) ?_ ?_ ⟨SlotInv.init, nofun⟩
    (Along.of_forall fun _ _ => trivial)
  · rintro s e ⟨h, hnone⟩ - hQ
    obtain ⟨hiff, hkeep⟩ := releasedOnce_step_iff h hnone e
    exact ⟨h.step e, hkeep (hiff.1 hQ)⟩
  · rintro s e ⟨h, hnone⟩ -
    exact (releasedOnce_step_iff h hnone e).1

/-- The first frame: it is released by `ethernet_input`, and once more by `pbuf_free`. -/
theorem received_pbufs_fails :
    ¬ Along FrameSlot.step (fun s e => ReleasedOnce (s.step e)) FrameSlot.init
      [.netRxCb [0x2a] true, .serviceTraffic []] := by
  rintro ⟨-, h, -⟩
  have hreleased : 2 = 1 := h.released 0 (by decide)
  cases hreleased

end Fx3Ncm
