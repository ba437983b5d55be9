/-
# The DMA buffer heap with checks

With checks enabled a buffer is a block of whole cache lines that begins with a header of 20 bytes,
and the client is given the address behind the header.  Clients may now also write to the memory:
anything that leaves the links and the sizes in the headers alone, so that the end signature of a
buffer can be overwritten by a client that writes past the end of its buffer.

* `active_list_exact`: the list `glBufInUseList` is the list of the buffers that are held.
* `corruption_check_exact`: the corruption check finds the newest buffer whose signatures are
  damaged, if there is one.
* `no_false_alarm`: clients that stay inside their buffers are never reported.
-/
import Fx3Ncm.Cyfx.BufHeap

namespace Fx3Ncm

open Bitmap Blocks ByteMemory Linked Loops Runs

/-! ### Blocks of buffers -/

/-- The whole block of a buffer: the header, the buffer and the end signature. -/
def DmaBuffer.whole (b : DmaBuffer) : DmaBuffer := ⟨b.addr - memBlockInfoSize, blkSize true b.size⟩

/-- The same as a block with a header. -/
def DmaBuffer.memBlock (b : DmaBuffer) : MemBlock :=
  ⟨b.addr - memBlockInfoSize, blkSize true b.size⟩

lemma blkSize_eq (size : ℕ) : 24 ≤ blkSize true size ∧ 4 ∣ blkSize true size ∧
    size + 24 ≤ blkSize true size ∧ blkSize true size < size + 28 := by
  simp only [blkSize, if_true, memBlockInfoSize]
  omega

/-- What a client does: a call, or bytes that it writes. -/
inductive BufAct where
  | call (c : BufCall)
  | poke (o : ℕ) (bytes : List UInt8)

namespace BufRun

variable (lay : BlockLayout)

/-- The heap with checks enabled, before it is initialised. -/
def startChecked (cb : Bool) (mem : Mem) : BufRun := (start mem).step lay (.enableChecks true cb)

/-- One action of a client. -/
def act (s : BufRun) : BufAct → BufRun
  | .call c => s.step lay c
  | .poke o bytes => { s with heap := { s.heap with track := s.heap.track.poke o bytes } }

/-- The buffers that are held are freed, the checks stay enabled, and the links and sizes in the
headers are not written to. -/
def Checked (s : BufRun) : BufAct → Prop
  | .call (.enableChecks enable _) => enable = true
  | .call (.free _ buffer) => ∃ b ∈ s.held, b.addr = buffer
  | .call _ => True
  | .poke o bytes => ∀ b ∈ s.held, ∀ f ∈ [lay.allocSize, lay.prevBlk, lay.nextBlk],
      b.memBlock.addr + f + 4 ≤ o ∨ o + bytes.length ≤ b.memBlock.addr + f

/-- The heap as it would be if the blocks themselves were held. -/
def shadow (s : BufRun) : BufRun := ⟨s.heap, s.held.map DmaBuffer.whole, s.fault⟩

/-- The heap is initialised: its blocks are those of the buffers that are held, and they are
linked. -/
structure Linked (s : BufRun) (P : Packing heapLines) : Prop where
  on : s.shadow.On P
  addr : ∀ b ∈ s.held, b.addr = b.memBlock.addr + memBlockInfoSize
  tracks : s.heap.track.Tracks lay (s.held.map DmaBuffer.memBlock)

/-- The invariant of runs with checks. -/
structure CheckedInv (s : BufRun) : Prop where
  fault : s.fault = false
  checks : s.heap.track.enableChecks = true
  counts : s.heap.track.allocCnt = (s.heap.track.freeCnt + s.held.length) % 4294967296
  mode : (s.Off ∧ s.heap.track.inUseList = 0) ∨ ∃ P, s.Linked lay P

variable {lay : BlockLayout} {s : BufRun}

/-! ### Steps -/

/-- The empty list of blocks. -/
lemma tracks_nil {t : InUse} (h : t.inUseList = 0) : t.Tracks lay [] :=
  ⟨⟨by simp, .nil⟩, h, trivial, by simp⟩

/-- The blocks of a packing do not overlap in the memory either. -/
lemma On.placed {P : Packing heapLines} (h : s.On P)
    (hsize : ∀ b ∈ s.held, 24 ≤ b.size ∧ 4 ∣ b.size) :
    Placed (s.held.map fun b => ⟨b.addr, b.size⟩) := by
  constructor
  · intro c hc
    obtain ⟨b, hb, rfl⟩ := List.mem_map.1 hc
    have haddr := h.addr b hb
    have hfin := P.fin_le _ (h.block_mem hb)
    have hlines := (cacheLines_eq (h.size_lt b hb)).2.1
    have hfin_eq := h.fin_eq hb
    have hdef : b.fin = b.addr + 32 * cacheLines b.size := rfl
    simp only [bufferHeapBase, heapLines] at *
    exact ⟨by simp only; omega, (hsize b hb).1, (hsize b hb).2, by simp only; omega⟩
  · have hapart := P.apart
    rw [h.live, List.pairwise_map] at hapart
    rw [List.pairwise_map]
    refine hapart.imp_of_mem ?_
    intro b c hb hc hbc
    have hb' := (cacheLines_eq (h.size_lt b hb)).2.1
    have hc' := (cacheLines_eq (h.size_lt c hc)).2.1
    have hbfin := h.fin_eq hb
    have hcfin := h.fin_eq hc
    have hbdef : b.fin = b.addr + 32 * cacheLines b.size := rfl
    have hcdef : c.fin = c.addr + 32 * cacheLines c.size := rfl
    have hbaddr := h.addr b hb
    have hcaddr := h.addr c hc
    rcases hbc with hle | hle
    · exact .inl (by simp only; omega)
    · exact .inr (by simp only; omega)

/-- The list is that of the blocks of the buffers that are held. -/
lemma CheckedInv.tracks (h : s.CheckedInv lay) :
    s.heap.track.Tracks lay (s.held.map DmaBuffer.memBlock) := by
  rcases h.mode with ⟨hoff, hzero⟩ | ⟨P, hlinked⟩
  · rw [hoff.held]
    exact tracks_nil hzero
  · exact hlinked.tracks

lemma checkedInv_startChecked (cb : Bool) (mem : Mem) : (startChecked lay cb mem).CheckedInv lay :=
  ⟨rfl, rfl, rfl, .inl ⟨⟨rfl, rfl, rfl⟩, rfl⟩⟩

/-- Calls that only look at the heap keep the invariant. -/
lemma CheckedInv.congr (h : s.CheckedInv lay) {t : BufRun} (hfault : t.fault = false)
    (hmgr : t.heap.mgr = s.heap.mgr) (hheld : t.held = s.held)
    (hchecks : t.heap.track.enableChecks = true)
    (hlist : t.heap.track.inUseList = s.heap.track.inUseList)
    (hmem : t.heap.track.mem = s.heap.track.mem)
    (halloc : t.heap.track.allocCnt = s.heap.track.allocCnt)
    (hfree : t.heap.track.freeCnt = s.heap.track.freeCnt) : t.CheckedInv lay := by
  refine ⟨hfault, hchecks, by rw [halloc, hfree, hheld, h.counts], ?_⟩
  rcases h.mode with ⟨hoff, hzero⟩ | ⟨P, hon, haddr, htr⟩
  · exact .inl ⟨hoff.congr hmgr hheld, hlist.trans hzero⟩
  · refine .inr ⟨P, hon.congr hmgr ?_, hheld ▸ haddr, ?_⟩
    · simp only [shadow, hheld]
    · rw [hheld]
      exact htr.congr hlist fun b _ o _ => by rw [hmem]

lemma CheckedInv.enableChecks (h : s.CheckedInv lay) (cb : Bool) :
    (s.step lay (.enableChecks true cb)).CheckedInv lay := by
  refine h.congr h.fault ?_ rfl ?_ ?_ ?_ ?_ ?_ <;>
    simp only [BufRun.step, cyU3PBufEnableChecks] <;> split_ifs
  all_goals first | rfl | exact h.checks

lemma CheckedInv.init (h : s.CheckedInv lay) (mutex alloc : Bool) :
    (s.step lay (.init mutex alloc)).CheckedInv lay := by
  rcases h.mode with ⟨hoff, hzero⟩ | ⟨P, hon, -, -⟩
  · obtain ⟨m, heq, hm⟩ := init_of_off hoff.startAddr mutex alloc
    refine ⟨h.fault, ?_, ?_, ?_⟩ <;> simp only [BufRun.step, heq]
    · exact h.checks
    · exact h.counts
    · rcases hm with rfl | ⟨h₁, h₂⟩
      · refine .inr ⟨_, on_fresh rfl ?_, ?_, ?_⟩
        · simp [shadow, hoff.held]
        · simp [hoff.held]
        · rw [hoff.held]
          exact tracks_nil hzero
      · exact .inl ⟨⟨h₁.trans hoff.startAddr, h₂.trans hoff.regionSize, hoff.held⟩, hzero⟩
  · have heq : cyU3PDmaBufferInit mutex alloc s.heap = s.heap := hon.init mutex alloc
    refine h.congr h.fault ?_ rfl ?_ ?_ ?_ ?_ ?_ <;> simp only [BufRun.step, heq]
    exact h.checks

lemma CheckedInv.deInit (h : s.CheckedInv lay) (lock : Bool) :
    (s.step lay (.deInit lock)).CheckedInv lay := by
  cases lock with
  | false => exact h.congr h.fault rfl rfl h.checks rfl rfl rfl rfl
  | true => exact ⟨h.fault, h.checks, rfl, .inl ⟨⟨rfl, rfl, rfl⟩, rfl⟩⟩

lemma blkSize_lt (size : UInt16) : blkSize true size.toNat < 70000 := by
  have := (blkSize_eq size.toNat).2.2.2
  have := size.toNat_lt
  omega

/-- `CyU3PDmaBufferAlloc` in an initialised heap with checks. -/
lemma Linked.alloc {P : Packing heapLines} (h : s.Linked lay P)
    (hchecks : s.heap.track.enableChecks = true) (size : UInt16) :
    (∃ p, ∃ hp : s.heap.mgr.Place P (cacheLines (blkSize true size.toNat)) p, ∃ m',
      cyU3PDmaBufferAlloc lay true size s.heap =
        some (bufferHeapBase + 32 * (p + 1) + memBlockInfoSize,
          ⟨m', s.heap.track.link lay (bufferHeapBase + 32 * (p + 1)) (blkSize true size.toNat)⟩) ∧
      m'.Ready (P.insert p _ (cacheLines_eq (blkSize_lt size)).1 (h.on.ready.fits hp))) ∨
    cyU3PDmaBufferAlloc lay true size s.heap = some (0, s.heap) := by
  have hready : s.heap.mgr.Ready P := h.on.ready
  obtain ⟨hn, -, hn'⟩ := cacheLines_eq (blkSize_lt size)
  have hne : ¬ (s.heap.mgr.startAddr = 0 ∨ s.heap.mgr.regionSize = 0) := by
    rw [hready.startAddr_eq, hready.regionSize_eq]
    decide
  have halloc : cyU3PDmaBufferAlloc lay true size s.heap =
      (s.heap.mgr.takeLines (cacheLines (blkSize true size.toNat))).bind fun r =>
        if r.1 = 0 then some (r.1, { s.heap with mgr := r.2 })
        else some (r.1 + memBlockInfoSize,
          ⟨r.2, s.heap.track.link lay r.1 (blkSize true size.toNat)⟩) := by
    rw [cyU3PDmaBufferAlloc, if_neg (by simp), if_neg hne, hchecks]
    simp
  rcases hready.takeLines hn hn' with ⟨p, hp, m', htake, hready'⟩ | ⟨-, htake⟩
  · refine .inl ⟨p, hp, m', ?_, hready'⟩
    rw [halloc, htake, Option.bind_some, if_neg (by simp)]
  · refine .inr ?_
    rw [halloc, htake, Option.bind_some, if_pos rfl]

lemma whole_mk (a size : ℕ) :
    DmaBuffer.whole ⟨a + memBlockInfoSize, size⟩ = ⟨a, blkSize true size⟩ := by
  rw [DmaBuffer.whole, Nat.add_sub_cancel]

lemma memBlock_mk (a size : ℕ) :
    DmaBuffer.memBlock ⟨a + memBlockInfoSize, size⟩ = ⟨a, blkSize true size⟩ := by
  rw [DmaBuffer.memBlock, Nat.add_sub_cancel]

lemma placed_shadow {P : Packing heapLines} (h : s.shadow.On P) :
    Placed (s.held.map DmaBuffer.memBlock) := by
  have hplaced := h.placed (by
    intro b hb
    obtain ⟨c, -, rfl⟩ := List.mem_map.1 hb
    exact ⟨(blkSize_eq c.size).1, (blkSize_eq c.size).2.1⟩)
  rw [shadow, List.map_map] at hplaced
  exact hplaced

/-- What `CyU3PDmaBufferAlloc` comes to: nothing, or a new block that is linked to the others. -/
lemma CheckedInv.alloc_cases (h : s.CheckedInv lay) (lock : Bool) (size : UInt16) :
    s.step lay (.alloc lock size) = s ∨ ∃ m' block,
      s.step lay (.alloc lock size) =
        ⟨⟨m', s.heap.track.link lay block (blkSize true size.toNat)⟩,
          ⟨block + memBlockInfoSize, size.toNat⟩ :: s.held, s.fault⟩ ∧
      (∃ P, (shadow (s.step lay (.alloc lock size))).On P) ∧
      Placed (⟨block, blkSize true size.toNat⟩ :: s.held.map DmaBuffer.memBlock) ∧
      ∀ b ∈ s.held, b.addr = b.memBlock.addr + memBlockInfoSize := by
  have hstay : cyU3PDmaBufferAlloc lay lock size s.heap = some (0, s.heap) →
      s.step lay (.alloc lock size) = s := by
    intro heq
    simp only [BufRun.step, heq]
    rfl
  cases lock with
  | false => exact .inl (hstay rfl)
  | true =>
    rcases h.mode with ⟨hoff, -⟩ | ⟨P, hlinked⟩
    · refine .inl (hstay ?_)
      rw [cyU3PDmaBufferAlloc, if_neg (by simp), if_pos (.inl hoff.startAddr)]
    · rcases hlinked.alloc h.checks size with ⟨p, hp, m', heq, hready⟩ | heq
      · have hstep : s.step lay (.alloc true size) =
            ⟨⟨m', s.heap.track.link lay (bufferHeapBase + 32 * (p + 1)) (blkSize true size.toNat)⟩,
              ⟨bufferHeapBase + 32 * (p + 1) + memBlockInfoSize, size.toNat⟩ :: s.held,
              s.fault⟩ := by
          have hne : bufferHeapBase + 32 * (p + 1) + memBlockInfoSize ≠ 0 := by simp
          simp only [BufRun.step, heq, handOut_of_ne_zero hne]
        have hon : (shadow (s.step lay (.alloc true size))).On
            (P.insert p _ (cacheLines_eq (blkSize_lt size)).1 (hlinked.on.ready.fits hp)) := by
          refine hlinked.on.cons (blkSize_lt size) hready ?_ ?_
          · rw [hstep]
            rfl
          · simp only [hstep, shadow, List.map_cons, whole_mk]
        have hplaced := placed_shadow hon
        rw [hstep] at hplaced
        simp only [List.map_cons, memBlock_mk] at hplaced
        exact .inr ⟨m', _, hstep, ⟨_, hon⟩, hplaced, hlinked.addr⟩
      · exact .inl (hstay heq)

lemma CheckedInv.alloc (h : s.CheckedInv lay) (hlay : lay.Valid) (lock : Bool) (size : UInt16) :
    (s.step lay (.alloc lock size)).CheckedInv lay := by
  rcases h.alloc_cases lock size with heq | ⟨m', block, heq, ⟨P, hon⟩, hplaced, haddr⟩
  · rwa [heq]
  · rw [heq] at hon ⊢
    refine ⟨h.fault, h.checks, ?_, .inr ⟨P, hon, ?_, ?_⟩⟩
    · simp only [InUse.link, h.counts, List.length_cons]
      omega
    · rintro b (_ | ⟨_, hb⟩)
      · rw [memBlock_mk]
      · exact haddr b hb
    · simp only [List.map_cons, memBlock_mk]
      exact h.tracks.link hlay hplaced

/-- The buffers that are held have different addresses. -/
lemma Linked.nodup {P : Packing heapLines} (h : s.Linked lay P) :
    (s.held.map DmaBuffer.addr).Nodup := by
  have hnd := h.tracks.placed.nodup
  rw [List.map_map, List.Nodup, List.pairwise_map] at hnd
  rw [List.Nodup, List.pairwise_map]
  refine hnd.imp_of_mem ?_
  intro b c hb hc hne heq
  apply hne
  have hb' := h.addr b hb
  have hc' := h.addr c hc
  simp only [Function.comp_apply, memBlockInfoSize] at *
  omega

lemma giveBack_middle {as cs : List DmaBuffer} {b : DmaBuffer}
    (h : ((as ++ b :: cs).map DmaBuffer.addr).Nodup) :
    giveBack true b.addr (as ++ b :: cs) = as ++ cs := by
  rw [List.map_append, List.map_cons, List.nodup_middle, List.nodup_cons, ← List.map_append] at h
  have hne : ∀ c ∈ as ++ cs, decide (c.addr ≠ b.addr) = true := by
    intro c hc
    rw [decide_eq_true_iff]
    intro heq
    exact h.1 (heq ▸ List.mem_map_of_mem hc)
  rw [giveBack, if_pos rfl, List.filter_append, List.filter_cons_of_neg (by simp),
    ← List.filter_append, List.filter_eq_self.2 hne]

/-- The blocks that are left when a buffer has been given back. -/
lemma Linked.shadow_giveBack {P : Packing heapLines} (h : s.Linked lay P) {b : DmaBuffer}
    (hb : b ∈ s.held) :
    (giveBack true b.addr s.held).map DmaBuffer.whole =
      giveBack true b.whole.addr (s.held.map DmaBuffer.whole) := by
  simp only [giveBack, if_true, List.filter_map]
  congr 1
  apply List.filter_congr
  intro c hc
  have hb' := h.addr b hb
  have hc' := h.addr c hc
  rw [Bool.eq_iff_iff, Function.comp_apply, decide_eq_true_iff, decide_eq_true_iff]
  simp only [DmaBuffer.whole, DmaBuffer.memBlock, memBlockInfoSize] at *
  omega

/-- What `CyU3PDmaBufferFree` comes to for a buffer that is held: nothing, or its block is taken out
of the list. -/
lemma CheckedInv.free_cases (h : s.CheckedInv lay) (lock : Bool) {b : DmaBuffer}
    (hb : b ∈ s.held) :
    s.step lay (.free lock b.addr) = s ∨ ∃ m' as cs, s.held = as ++ b :: cs ∧
      s.step lay (.free lock b.addr) =
        ⟨⟨m', s.heap.track.unlink lay b.memBlock.addr⟩, as ++ cs, s.fault⟩ ∧
      (∃ P, (shadow (s.step lay (.free lock b.addr))).On P) ∧
      ∀ c ∈ as ++ cs, c.addr = c.memBlock.addr + memBlockInfoSize := by
  rcases h.mode with ⟨hoff, -⟩ | ⟨P, hlinked⟩
  · rw [hoff.held] at hb
    cases hb
  have hwhole : b.whole ∈ s.shadow.held := List.mem_map_of_mem hb
  have haddr := hlinked.addr b hb
  have hbase := hlinked.on.addr _ hwhole
  have hge : ¬ b.addr < bufferHeapBase := by
    have heq : b.whole.addr = b.memBlock.addr := rfl
    omega
  cases lock with
  | false =>
    have heq : cyU3PDmaBufferFree lay false b.addr s.heap = some (false, s.heap) := by
      rw [cyU3PDmaBufferFree, if_neg hge, if_pos (by simp)]
    refine .inl ?_
    simp only [BufRun.step, heq]
    rfl
  | true =>
    obtain ⟨m', hdrop, hready⟩ := hlinked.on.ready.dropLines_block (hlinked.on.block_mem hwhole)
    rw [← hbase] at hdrop
    have heq : cyU3PDmaBufferFree lay true b.addr s.heap =
        some (true, ⟨m', s.heap.track.unlink lay b.memBlock.addr⟩) := by
      rw [cyU3PDmaBufferFree, if_neg hge, if_neg (by simp), if_pos h.checks]
      have hdrop' : s.heap.mgr.dropLines (b.addr - memBlockInfoSize) = some (true, m') := hdrop
      rw [hdrop']
      rfl
    have hstep : s.step lay (.free true b.addr) =
        ⟨⟨m', s.heap.track.unlink lay b.memBlock.addr⟩, giveBack true b.addr s.held, s.fault⟩ := by
      simp only [BufRun.step, heq]
    have hon : (shadow (s.step lay (.free true b.addr))).On (P.erase b.whole.block) := by
      rw [hstep]
      exact hlinked.on.drop hwhole hready rfl (hlinked.shadow_giveBack hb)
    have hnd := hlinked.nodup
    obtain ⟨as, cs, hsplit⟩ := List.append_of_mem hb
    rw [hsplit] at hnd
    refine .inr ⟨m', as, cs, hsplit, ?_, ⟨_, hon⟩, ?_⟩
    · rw [hstep, hsplit, giveBack_middle hnd]
    · intro c hc
      refine hlinked.addr c ?_
      rw [hsplit]
      exact ((List.sublist_cons_self b cs).append_left as).subset hc

lemma CheckedInv.free (h : s.CheckedInv lay) (hlay : lay.Valid) {lock : Bool} {b : DmaBuffer}
    (hb : b ∈ s.held) : (s.step lay (.free lock b.addr)).CheckedInv lay := by
  rcases h.free_cases lock hb with heq | ⟨m', as, cs, hsplit, heq, ⟨P, hon⟩, haddr⟩
  · rwa [heq]
  have htr := h.tracks
  have hcounts := h.counts
  rw [hsplit] at htr hcounts
  rw [List.map_append, List.map_cons] at htr
  obtain ⟨hchecks, halloc, hfree, -⟩ := s.heap.track.unlink_counts lay b.memBlock.addr
  rw [heq] at hon ⊢
  refine ⟨h.fault, hchecks.trans h.checks, ?_, .inr ⟨P, hon, haddr, ?_⟩⟩
  · simp only [halloc, hfree, hcounts, List.length_append, List.length_cons]
    omega
  · rw [List.map_append]
    exact htr.unlink hlay

lemma CheckedInv.poke (h : s.CheckedInv lay) {o : ℕ} {bytes : List UInt8}
    (hG : s.Checked lay (.poke o bytes)) : (s.act lay (.poke o bytes)).CheckedInv lay := by
  refine ⟨h.fault, h.checks, h.counts, ?_⟩
  rcases h.mode with ⟨hoff, hzero⟩ | ⟨P, hon, haddr, htr⟩
  · exact .inl ⟨hoff.congr rfl rfl, hzero⟩
  · refine .inr ⟨P, hon.congr rfl rfl, haddr, htr.poke ?_⟩
    intro c hc
    obtain ⟨b, hb, rfl⟩ := List.mem_map.1 hc
    exact hG b hb

lemma CheckedInv.act (h : s.CheckedInv lay) (hlay : lay.Valid) {a : BufAct}
    (hG : s.Checked lay a) : (s.act lay a).CheckedInv lay := by
  cases a with
  | poke o bytes => exact h.poke hG
  | call c =>
    cases c with
    | enableChecks enable cb =>
      obtain rfl : enable = true := hG
      exact h.enableChecks cb
    | init mutex alloc => exact h.init mutex alloc
    | deInit lock => exact h.deInit lock
    | alloc lock size => exact h.alloc hlay lock size
    | free lock buffer =>
      obtain ⟨b, hb, rfl⟩ := hG
      exact h.free hlay hb

lemma checkedInv_run (hlay : lay.Valid) {cb : Bool} {mem : Mem} {as : List BufAct}
    (h : Along (act lay) (Checked lay) (startChecked lay cb mem) as) :
    (run (act lay) (startChecked lay cb mem) as).CheckedInv lay :=
  run_invariant (fun _ _ hs hG => hs.act hlay hG) (checkedInv_startChecked cb mem) h

/-! ### The list of the buffers in use -/

/-- In every run with checks in which clients free only buffers that they hold and leave the
links and sizes in the headers alone: the list `glBufInUseList` visits the headers of the buffers
that are held, the newest first, and no others; the counters differ by the number of these
buffers; and the blocks of the buffers, headers and signatures included, do not overlap. -/
theorem active_list_exact (lay : BlockLayout) (hlay : lay.Valid) (cb : Bool) (mem : Mem)
    (as : List BufAct) (h : Along (act lay) (Checked lay) (startChecked lay cb mem) as) :
    let s := run (act lay) (startChecked lay cb mem) as
    s.fault = false ∧
      (∀ n, s.held.length ≤ n →
        follow 0 (fun a => read32 s.heap.track.mem (a + lay.prevBlk)) n s.heap.track.inUseList =
          s.held.map fun b => b.addr - memBlockInfoSize) ∧
      s.heap.track.allocCnt = (s.heap.track.freeCnt + s.held.length) % 4294967296 ∧
      (s.held.map DmaBuffer.memBlock).Pairwise MemBlock.Apart := by
  intro s
  have hinv : s.CheckedInv lay := checkedInv_run hlay h
  refine ⟨hinv.fault, ?_, hinv.counts, hinv.tracks.placed.apart⟩
  intro n hn
  rw [hinv.tracks.follow_eq (by rwa [List.length_map]), List.map_map]
  rfl

/-- Two buffers, the older of which is freed. -/
theorem active_list_exact_example :
    (run (act ⟨0, 4, 8, 12, 16⟩) (startChecked ⟨0, 4, 8, 12, 16⟩ true fun _ => 0)
      [.call (.init true true), .call (.alloc true 100), .call (.alloc true 10),
        .call (.free true 0x40040034)]).fault = false := by
  refine (active_list_exact ⟨0, 4, 8, 12, 16⟩ ⟨by decide, by decide⟩ true (fun _ => 0)
    [.call (.init true true), .call (.alloc true 100), .call (.alloc true 10),
      .call (.free true 0x40040034)] ⟨trivial, trivial, trivial, ?_, trivial⟩).1
  exact ⟨⟨0x40040034, 100⟩, by decide +kernel, rfl⟩

/-! ### Corruption -/

/-- The signatures of a buffer are in place. -/
def intact (lay : BlockLayout) (s : BufRun) (b : DmaBuffer) : Bool :=
  InUse.signed lay s.heap.track.mem b.memBlock.addr

lemma CheckedInv.addr_mem (h : s.CheckedInv lay) {b : DmaBuffer} (hb : b ∈ s.held) :
    b.addr = b.memBlock.addr + memBlockInfoSize ∧ bufferHeapBase ≤ b.memBlock.addr ∧
      b.memBlock.addr + b.memBlock.size ≤ sysMemTop := by
  rcases h.mode with ⟨hoff, -⟩ | ⟨P, hlinked⟩
  · rw [hoff.held] at hb
    cases hb
  · have hwhole : b.whole ∈ s.shadow.held := List.mem_map_of_mem hb
    have haddr := hlinked.on.addr _ hwhole
    have hfin := P.fin_le _ (hlinked.on.block_mem hwhole)
    have hfin_eq := hlinked.on.fin_eq hwhole
    have hlines := (cacheLines_eq (hlinked.on.size_lt _ hwhole)).2.1
    have hdef : b.whole.fin = b.whole.addr + 32 * cacheLines b.whole.size := rfl
    have h₁ : b.whole.addr = b.memBlock.addr := rfl
    have h₂ : b.whole.size = b.memBlock.size := rfl
    refine ⟨hlinked.addr b hb, ?_, ?_⟩ <;>
      simp only [bufferHeapBase, sysMemTop, heapLines] at * <;> omega

/-- What the check says in a state of the invariant. -/
lemma CheckedInv.check (h : s.CheckedInv lay) {n : ℕ} (hn : s.held.length < n) :
    cyU3PBufCorruptionCheck lay n s.heap.track =
      some (s.heap.track.verdict lay (s.held.map DmaBuffer.memBlock)) := by
  refine h.tracks.corruption_check ?_ (by rwa [List.length_map])
  intro c hc
  have hle := (h.tracks.placed.sized c hc).le
  obtain ⟨b, hb, rfl⟩ := List.mem_map.1 hc
  obtain ⟨-, hlo, hhi⟩ := h.addr_mem hb
  exact ⟨hlo, by omega⟩

/-- In every run with checks in which clients free only buffers that they hold and leave the links
and sizes in the headers alone, whatever they have written to signatures and payloads,
`CyU3PBufCorruptionCheck` comes to an end.  It succeeds if the signatures of all buffers that are
held are in place; otherwise it fails and reports the newest buffer whose signatures are not. -/
theorem corruption_check_exact (lay : BlockLayout) (hlay : lay.Valid) (cb : Bool) (mem : Mem)
    (as : List BufAct) (h : Along (act lay) (Checked lay) (startChecked lay cb mem) as) (n : ℕ)
    (hn : (run (act lay) (startChecked lay cb mem) as).held.length < n) :
    let s := run (act lay) (startChecked lay cb mem) as
    ((∀ b ∈ s.held, s.intact lay b = true) ∧
        cyU3PBufCorruptionCheck lay n s.heap.track = some (true, s.heap.track)) ∨
      ∃ newer b older, s.held = newer ++ b :: older ∧ (∀ c ∈ newer, s.intact lay c = true) ∧
        s.intact lay b = false ∧
        cyU3PBufCorruptionCheck lay n s.heap.track =
          some (false, s.heap.track.report b.addr) := by
  intro s
  have hinv : s.CheckedInv lay := checkedInv_run hlay h
  have hcheck := hinv.check hn
  rcases InUse.verdict_cases s.heap.track lay (s.held.map DmaBuffer.memBlock) with
    ⟨hall, heq⟩ | ⟨as', c, cs', hsplit, hnewer, hc, heq⟩
  · exact .inl ⟨fun b hb => hall _ (List.mem_map_of_mem hb), by rw [hcheck, heq]⟩
  · obtain ⟨newer, rest, hheld, rfl, hrest⟩ := List.map_eq_append_iff.1 hsplit
    obtain ⟨b, older, rfl, rfl, -⟩ := List.map_eq_cons_iff.1 hrest
    have hb : b ∈ s.held := by rw [hheld]; simp
    refine .inr ⟨newer, b, older, hheld, fun c hc => hnewer _ (List.mem_map_of_mem hc), hc, ?_⟩
    rw [hcheck, heq, (hinv.addr_mem hb).1]

/-- A client that writes eight bytes past the end of its buffer, over the end signature. -/
theorem corruption_check_exact_example :
    (run (act ⟨0, 4, 8, 12, 16⟩) (startChecked ⟨0, 4, 8, 12, 16⟩ true fun _ => 0)
        [.call (.init true true), .call (.alloc true 100),
          .poke 0x40040098 [1, 2, 3, 4, 5, 6, 7, 8]]).held = [⟨0x40040034, 100⟩] ∧
      ∃ ok t, cyU3PBufCorruptionCheck ⟨0, 4, 8, 12, 16⟩ 2
        (run (act ⟨0, 4, 8, 12, 16⟩) (startChecked ⟨0, 4, 8, 12, 16⟩ true fun _ => 0)
          [.call (.init true true), .call (.alloc true 100),
            .poke 0x40040098 [1, 2, 3, 4, 5, 6, 7, 8]]).heap.track = some (ok, t) := by
  refine ⟨by decide +kernel, ?_⟩
  rcases corruption_check_exact ⟨0, 4, 8, 12, 16⟩ ⟨by decide, by decide⟩ true (fun _ => 0)
    [.call (.init true true), .call (.alloc true 100), .poke 0x40040098 [1, 2, 3, 4, 5, 6, 7, 8]]
    ⟨trivial, trivial, by simp only [Checked]; decide +kernel, trivial⟩ 2 (by decide +kernel) with
    ⟨-, heq⟩ | ⟨_, b, _, -, -, -, heq⟩
  · exact ⟨_, _, heq⟩
  · exact ⟨_, _, heq⟩

/-- Clients write only inside a buffer that is held, up to the next multiple of 4 bytes of its size,
or outside all of the buffers' blocks. -/
def Careful (lay : BlockLayout) (s : BufRun) : BufAct → Prop
  | .call c => s.Checked lay (.call c)
  | .poke o bytes =>
    (∃ b ∈ s.held, b.addr ≤ o ∧ o + bytes.length ≤ b.addr + (b.size + 3) / 4 * 4) ∨
      ∀ b ∈ s.held, o + bytes.length ≤ b.memBlock.addr ∨
        b.memBlock.addr + b.memBlock.size ≤ o

/-- All signatures are in place, and nothing has been reported. -/
structure Sound (lay : BlockLayout) (s : BufRun) : Prop where
  inv : s.CheckedInv lay
  intact : ∀ b ∈ s.held, s.intact lay b = true
  quiet : s.heap.track.reported = []

lemma memBlock_size (b : DmaBuffer) : b.memBlock.size = (b.size + 3) / 4 * 4 + 24 := rfl

/-- A careful write touches no header and no signature. -/
lemma Careful.outside (h : s.CheckedInv lay) {o : ℕ} {bytes : List UInt8}
    (hG : s.Careful lay (.poke o bytes)) {c : MemBlock}
    (hc : c ∈ s.held.map DmaBuffer.memBlock) :
    (c.addr + 20 ≤ o ∨ o + bytes.length ≤ c.addr) ∧
      (c.addr + c.size ≤ o ∨ o + bytes.length ≤ c.addr + (c.size - 4)) := by
  have hplaced := h.tracks.placed
  have hcs := (hplaced.sized c hc).le
  rcases hG with ⟨b, hb, hlo, hhi⟩ | hout
  · obtain ⟨haddr, -, -⟩ := h.addr_mem hb
    have hbm : b.memBlock ∈ s.held.map DmaBuffer.memBlock := List.mem_map_of_mem hb
    have hsize := memBlock_size b
    simp only [memBlockInfoSize] at haddr
    rcases hplaced.eq_or_apart hbm hc with heq | hap
    · rw [← heq]
      omega
    · simp only [MemBlock.Apart] at hap
      omega
  · obtain ⟨b, hb, rfl⟩ := List.mem_map.1 hc
    have := hout b hb
    omega

lemma Careful.checked (h : s.CheckedInv lay) (hlay : lay.Valid) {a : BufAct}
    (hG : s.Careful lay a) : s.Checked lay a := by
  cases a with
  | call c => exact hG
  | poke o bytes =>
    intro b hb f hf
    have hout := (Careful.outside h hG (List.mem_map_of_mem hb)).1
    have hle := hlay.le f (by
      simp only [BlockLayout.fields, List.mem_cons, List.not_mem_nil, or_false] at hf ⊢
      tauto)
    omega

/-- Steps that change neither the memory nor what is held. -/
lemma Sound.congr (h : s.Sound lay) {t : BufRun} (hinv : t.CheckedInv lay)
    (hheld : ∀ b ∈ t.held, b ∈ s.held) (hmem : t.heap.track.mem = s.heap.track.mem)
    (hrep : t.heap.track.reported = s.heap.track.reported) : t.Sound lay := by
  refine ⟨hinv, fun b hb => ?_, hrep.trans h.quiet⟩
  have hb' := h.intact b (hheld b hb)
  rwa [BufRun.intact, hmem]

lemma Sound.alloc (h : s.Sound lay) (hlay : lay.Valid) (lock : Bool) (size : UInt16) :
    (s.step lay (.alloc lock size)).Sound lay := by
  rcases h.inv.alloc_cases lock size with heq | ⟨m', block, heq, -, hplaced, -⟩
  · rwa [heq]
  refine ⟨h.inv.alloc hlay lock size, ?_, ?_⟩ <;> rw [heq]
  · intro b hb
    rcases List.mem_cons.1 hb with rfl | hb
    · have hnew := h.inv.tracks.signed_link_new hlay hplaced
      rw [BufRun.intact, memBlock_mk]
      exact hnew
    · have hold := h.inv.tracks.signed_link hlay hplaced (List.mem_map_of_mem hb)
      rw [BufRun.intact]
      exact hold.trans (h.intact b hb)
  · exact h.quiet

lemma Sound.free (h : s.Sound lay) (hlay : lay.Valid) {lock : Bool} {b : DmaBuffer}
    (hb : b ∈ s.held) : (s.step lay (.free lock b.addr)).Sound lay := by
  rcases h.inv.free_cases lock hb with heq | ⟨m', as, cs, hsplit, heq, -, -⟩
  · rwa [heq]
  have htr := h.inv.tracks
  rw [hsplit, List.map_append, List.map_cons] at htr
  refine ⟨h.inv.free hlay hb, ?_, ?_⟩ <;> rw [heq]
  · intro c hc
    have hmem : c ∈ s.held := by
      rw [hsplit]
      exact ((List.sublist_cons_self b cs).append_left as).subset hc
    have hin : c.memBlock ∈ as.map DmaBuffer.memBlock ++ cs.map DmaBuffer.memBlock := by
      rw [← List.map_append]
      exact List.mem_map_of_mem hc
    have hkept := htr.signed_unlink hlay hin
    rw [BufRun.intact]
    exact hkept.trans (h.intact c hmem)
  · -- the block that is freed is signed
    have hsigned := h.intact b hb
    rw [BufRun.intact] at hsigned
    rw [(s.heap.track.unlink_counts lay b.memBlock.addr).2.2.2, if_pos hsigned, h.quiet]

lemma Sound.act (h : s.Sound lay) (hlay : lay.Valid) {a : BufAct} (hG : s.Careful lay a) :
    (s.act lay a).Sound lay := by
  have hinv := h.inv.act hlay (Careful.checked h.inv hlay hG)
  cases a with
  | poke o bytes =>
    refine ⟨hinv, fun b hb => ?_, h.quiet⟩
    have hkept := h.inv.tracks.signed_poke hlay (fun c hc => Careful.outside h.inv hG hc)
      (List.mem_map_of_mem hb)
    rw [BufRun.intact]
    exact hkept.trans (h.intact b hb)
  | call c =>
    cases c with
    | enableChecks enable cb =>
      refine h.congr hinv (fun b hb => hb) ?_ ?_ <;>
        simp only [BufRun.act, BufRun.step, cyU3PBufEnableChecks] <;> split_ifs <;> rfl
    | init mutex alloc =>
      refine h.congr hinv (fun b hb => hb) ?_ ?_ <;>
        simp only [BufRun.act, BufRun.step, cyU3PDmaBufferInit] <;> split_ifs <;> rfl
    | deInit lock =>
      cases lock with
      | false => exact h.congr hinv (fun b hb => hb) rfl rfl
      | true => exact h.congr hinv (fun b hb => absurd hb List.not_mem_nil) rfl rfl
    | alloc lock size => exact h.alloc hlay lock size
    | free lock buffer =>
      obtain ⟨b, hb, rfl⟩ := hG
      exact h.free hlay hb

/-- Clients that stay inside their buffers are never reported: in every run in which each write is
inside a buffer that is held, or outside all blocks, and only buffers that are held are freed, no
free reports damage, and every corruption check succeeds. -/
theorem no_false_alarm (lay : BlockLayout) (hlay : lay.Valid) (cb : Bool) (mem : Mem)
    (as : List BufAct) (h : Along (act lay) (Careful lay) (startChecked lay cb mem) as) (n : ℕ)
    (hn : (run (act lay) (startChecked lay cb mem) as).held.length < n) :
    let s := run (act lay) (startChecked lay cb mem) as
    s.heap.track.reported = [] ∧
      cyU3PBufCorruptionCheck lay n s.heap.track = some (true, s.heap.track) := by
  intro s
  have hsound : s.Sound lay := run_invariant (fun _ _ hs hG => hs.act hlay hG)
    ⟨checkedInv_startChecked cb mem, by simp [startChecked, start, BufRun.step], rfl⟩ h
  refine ⟨hsound.quiet, ?_⟩
  rw [hsound.inv.check hn]
  rcases InUse.verdict_cases s.heap.track lay (s.held.map DmaBuffer.memBlock) with
    ⟨-, heq⟩ | ⟨as', c, cs', hsplit, -, hc, -⟩
  · rw [heq]
  · have hmem : c ∈ s.held.map DmaBuffer.memBlock := by rw [hsplit]; simp
    obtain ⟨b, hb, rfl⟩ := List.mem_map.1 hmem
    have hb' := hsound.intact b hb
    rw [BufRun.intact, hc] at hb'
    cases hb'

/-- A client that fills the first bytes of its buffer. -/
theorem no_false_alarm_example :
    (run (act ⟨0, 4, 8, 12, 16⟩) (startChecked ⟨0, 4, 8, 12, 16⟩ true fun _ => 0)
      [.call (.init true true), .call (.alloc true 100),
        .poke 0x40040034 [1, 2, 3]]).heap.track.reported = [] := by
  refine (no_false_alarm ⟨0, 4, 8, 12, 16⟩ ⟨by decide, by decide⟩ true (fun _ => 0)
    [.call (.init true true), .call (.alloc true 100), .poke 0x40040034 [1, 2, 3]]
    ⟨trivial, trivial, ?_, trivial⟩ 2 ?_).1
  · exact .inl ⟨⟨0x40040034, 100⟩, by decide +kernel, by decide, by decide⟩
  · decide +kernel

end BufRun

end Fx3Ncm
