/-
# The DMA buffer heap

`CyU3PDmaBufferInit`, `CyU3PDmaBufferDeInit`, `CyU3PDmaBufferAlloc` and `CyU3PDmaBufferFree` of
`cyfx_tx.c`, which the application uses for the USB log and the drivers for all DMA buffers.  With
checks enabled each buffer gets a header and a footer, and the buffers in use are linked to each
other through their headers, in the buffer memory itself; `Cyfx.BufTrack` is about that list.

Here the heap is used as it is by default, without checks, by clients that may call it in any order
and whose calls may fail to get the lock.  What a client holds is read off the answers: the buffers
that were handed out and not given back.
-/
import Fx3Ncm.Cyfx.BufMgr
import Fx3Ncm.Cyfx.MemBlock
import Fx3Ncm.Lib.Run

namespace Fx3Ncm

open Bitmap Blocks ByteMemory Runs

/-! ### The model -/

/-- `CY_U3P_SYS_MEM_TOP - CY_U3P_BUFFER_HEAP_BASE` -/
@[simp, reducible] def bufferHeapSize : ℕ := 0x38000

@[simp, reducible] def cacheLineSize : ℕ := 32

/-- `CyU3PDmaBufMgr_t` without its lock; `usedStatus` is a null pointer until it is allocated. -/
structure DmaBufMgr where
  usedStatus : Option StatusWords
  startAddr : ℕ
  regionSize : ℕ
  statusSize : ℕ
  searchPos : ℕ
deriving DecidableEq, Repr

/-- The buffer manager and its checks. -/
structure BufHeap where
  mgr : DmaBufMgr
  track : InUse

/-- `CyU3PBufEnableChecks` -/
def cyU3PBufEnableChecks (enable cb : Bool) (h : BufHeap) : BufHeap :=
  if h.mgr.usedStatus = none then
    { h with track := { h.track with enableChecks := enable, badCb := cb } }
  else h

/-- The number of words of `usedStatus`. -/
def statusWords : ℕ := (bufferHeapSize / cacheLineSize + 31) / 32

/-- `CyU3PDmaBufferInit`; `mutex` and `alloc` say whether the mutex could be created and the array
be allocated. -/
def cyU3PDmaBufferInit (mutex alloc : Bool) (h : BufHeap) : BufHeap :=
  if h.mgr.startAddr ≠ 0 ∧ h.mgr.regionSize ≠ 0 then h
  else if !mutex then h
  else if !alloc then { h with mgr := { h.mgr with usedStatus := none } }
  else
    let words : StatusWords := List.replicate statusWords 0
    let rest := bufferHeapSize / cacheLineSize % 32
    let words := if rest ≠ 0 then words.set (statusWords - 1) (~~~((1#32 <<< (32 - rest)) - 1#32))
      else words
    { h with mgr := ⟨some words, bufferHeapBase, bufferHeapSize, statusWords, 0⟩ }

/-- `CyU3PDmaBufferDeInit` -/
def cyU3PDmaBufferDeInit (lock : Bool) (h : BufHeap) : BufHeap :=
  if !lock then h
  else
    { mgr := ⟨none, 0, 0, 0, h.mgr.searchPos⟩
      track := { h.track with allocCnt := 0, freeCnt := 0, inUseList := 0 } }

/-- The size of a block with what the checks add to it. -/
def blkSize (checks : Bool) (size : ℕ) : ℕ :=
  if checks then (size + 3) / 4 * 4 + (memBlockInfoSize + 4) else size

/-- The number of cache lines of a block, as a `uint16_t`. -/
def cacheLines (blk_size : ℕ) : ℕ :=
  (if blk_size ≤ cacheLineSize then 2 else (blk_size + cacheLineSize - 1) / cacheLineSize) % 65536

/-- The search of `CyU3PDmaBufferAlloc` and what it does with the lines it has found: the address
of the first one, null if there are none. -/
def DmaBufMgr.takeLines (m : DmaBufMgr) (lines : ℕ) : Option (ℕ × DmaBufMgr) := do
  let want := (lines + 1) % 65536
  let words ← m.usedStatus
  let r ← searchLines words m.statusSize m.searchPos want
  let m := { m with searchPos := r.searchPos }
  if r.count = want then
    let words ← cyU3PDmaBufMgrSetStatus words r.start (lines - 1) true
    pure (m.startAddr + 32 * r.start, { m with usedStatus := some words })
  else pure (0, m)

/-- `CyU3PDmaBufferAlloc`: the pointer, null for a failure, and the heap. -/
def cyU3PDmaBufferAlloc (lay : BlockLayout) (lock : Bool) (size : UInt16) (h : BufHeap) :
    Option (ℕ × BufHeap) :=
  if !lock then some (0, h)
  else if h.mgr.startAddr = 0 ∨ h.mgr.regionSize = 0 then some (0, h)
  else do
    let blk_size := blkSize h.track.enableChecks size.toNat
    let (ptr, mgr) ← h.mgr.takeLines (cacheLines blk_size)
    if ptr = 0 ∨ !h.track.enableChecks then pure (ptr, { h with mgr := mgr })
    else pure (ptr + memBlockInfoSize, ⟨mgr, h.track.link lay ptr blk_size⟩)

/-- The lines from an address on are given back, if it is in the heap. -/
def DmaBufMgr.dropLines (m : DmaBufMgr) (start : ℕ) : Option (Bool × DmaBufMgr) :=
  if m.startAddr < start ∧ start < m.startAddr + m.regionSize then do
    let line := (start - m.startAddr) / 32
    let words ← m.usedStatus
    let count ← countOnes words m.statusSize line
    let words ← cyU3PDmaBufMgrSetStatus words line count false
    pure (true, { m with usedStatus := some words, searchPos := 0 })
  else some (false, m)

/-- `CyU3PDmaBufferFree`: whether it answers 0, and the heap. -/
def cyU3PDmaBufferFree (lay : BlockLayout) (lock : Bool) (buffer : ℕ) (h : BufHeap) :
    Option (Bool × BufHeap) :=
  if buffer < bufferHeapBase then some (false, h)
  else if !lock then some (false, h)
  else if h.track.enableChecks then do
    let (ok, mgr) ← h.mgr.dropLines (buffer - memBlockInfoSize)
    pure (ok, ⟨mgr, h.track.unlink lay (buffer - memBlockInfoSize)⟩)
  else do
    let (ok, mgr) ← h.mgr.dropLines buffer
    pure (ok, { h with mgr := mgr })

/-! ### Clients -/

/-- A buffer that a client holds: its address and the size that was asked for. -/
structure DmaBuffer where
  addr : ℕ
  size : ℕ
deriving DecidableEq, Repr

/-- The calls of the buffer heap, with the answers of the operating system. -/
inductive BufCall where
  | enableChecks (enable cb : Bool)
  | init (mutex alloc : Bool)
  | deInit (lock : Bool)
  | alloc (lock : Bool) (size : UInt16)
  | free (lock : Bool) (buffer : ℕ)
deriving DecidableEq, Repr

/-- The heap and the buffers that are held; `fault` says that a call has gone outside the array of
the buffer manager. -/
structure BufRun where
  heap : BufHeap
  held : List DmaBuffer
  fault : Bool

/-- What a client holds after a call of `CyU3PDmaBufferAlloc`. -/
def handOut (ptr : ℕ) (size : UInt16) (held : List DmaBuffer) : List DmaBuffer :=
  if ptr ≠ 0 then ⟨ptr, size.toNat⟩ :: held else held

/-- What a client holds after a call of `CyU3PDmaBufferFree`. -/
def giveBack (ok : Bool) (ptr : ℕ) (held : List DmaBuffer) : List DmaBuffer :=
  if ok then held.filter (·.addr ≠ ptr) else held

namespace BufRun

variable (lay : BlockLayout)

/-- One call. -/
def step (s : BufRun) : BufCall → BufRun
  | .enableChecks enable cb => { s with heap := cyU3PBufEnableChecks enable cb s.heap }
  | .init mutex alloc => { s with heap := cyU3PDmaBufferInit mutex alloc s.heap }
  | .deInit lock =>
    ⟨cyU3PDmaBufferDeInit lock s.heap, if lock then [] else s.held, s.fault⟩
  | .alloc lock size =>
    match cyU3PDmaBufferAlloc lay lock size s.heap with
    | none => { s with fault := true }
    | some (ptr, heap) => { s with heap := heap, held := handOut ptr size s.held }
  | .free lock buffer =>
    match cyU3PDmaBufferFree lay lock buffer s.heap with
    | none => { s with fault := true }
    | some (ok, heap) => { s with heap := heap, held := giveBack ok buffer s.held }

/-- The start of the firmware, with anything in the memory. -/
def start (mem : Mem) : BufRun :=
  ⟨⟨⟨none, 0, 0, 0, 0⟩, ⟨false, 0, 0, 0, false, mem, []⟩⟩, [], false⟩

end BufRun

/-! ### Taking and giving back lines -/

/-- The number of lines of the heap. -/
@[simp, reducible] def heapLines : ℕ := 7168

lemma cacheLines_eq {size : ℕ} (h : size < 70000) :
    2 ≤ cacheLines size ∧ size ≤ 32 * cacheLines size ∧ cacheLines size < 65535 := by
  simp only [cacheLines, cacheLineSize]
  split_ifs <;> omega

/-- An address in the heap is in one of its lines. -/
lemma line_lt {start : ℕ} (h₁ : bufferHeapBase < start)
    (h₂ : start < bufferHeapBase + bufferHeapSize) : (start - bufferHeapBase) / 32 < heapLines := by
  simp only [bufferHeapBase, bufferHeapSize, heapLines] at *
  omega

/-- The manager is initialised, and its array is the bitmap of a packing of the heap's lines. -/
structure DmaBufMgr.Ready (m : DmaBufMgr) (P : Packing heapLines) : Prop where
  startAddr_eq : m.startAddr = bufferHeapBase
  regionSize_eq : m.regionSize = bufferHeapSize
  statusSize_eq : m.statusSize = 224
  searchPos_lt : m.searchPos < 224
  words : ∃ ws, m.usedStatus = some ws ∧ ws.length = 224 ∧ bit ws = P.mark

/-- The lines `p + 1, …, p + n` are free, and so is the line in front of them: the place that the
search finds. -/
def DmaBufMgr.Place (m : DmaBufMgr) (P : Packing heapLines) (n p : ℕ) : Prop :=
  Next P.mark (n + 1) (32 * m.searchPos) heapLines p

lemma DmaBufMgr.Ready.fits {m : DmaBufMgr} {P : Packing heapLines} (h : m.Ready P) {n p : ℕ}
    (hp : m.Place P n p) : Fits P.mark (n + 1) 0 heapLines p :=
  Next.fits hp (by have := h.searchPos_lt; simp only [heapLines]; omega)

/-- The lines that are handed out: the next place that fits, which becomes a block; nothing if there
is no such place. -/
lemma DmaBufMgr.Ready.takeLines {m : DmaBufMgr} {P : Packing heapLines} (h : m.Ready P) {n : ℕ}
    (hn : 2 ≤ n) (hn' : n < 65535) :
    (∃ p, ∃ hp : m.Place P n p, ∃ m',
      m.takeLines n = some (bufferHeapBase + 32 * (p + 1), m') ∧
        m'.Ready (P.insert p n hn (h.fits hp))) ∨
    (Full P.mark (n + 1) (32 * m.searchPos) heapLines ∧ m.takeLines n = some (0, m)) := by
  obtain ⟨ws, hws, hlen, hbits⟩ := h.words
  obtain ⟨r, hr, hres⟩ := search_spec (Nat.succ_pos n) (hlen ▸ h.searchPos_lt)
  have hwant : (n + 1) % 65536 = n + 1 := Nat.mod_eq_of_lt (by omega)
  have htake : m.takeLines n = if r.count = n + 1 then do
      let words ← cyU3PDmaBufMgrSetStatus ws r.start (n - 1) true
      pure (m.startAddr + 32 * r.start,
        { m with usedStatus := some words, searchPos := r.searchPos })
      else some (0, { m with searchPos := r.searchPos }) := by
    rw [DmaBufMgr.takeLines, hwant, hws, h.statusSize_eq, ← hlen]
    simp only [Option.bind_eq_bind, Option.bind_some, hr]
    rfl
  rw [Search.Result, hlen, hbits] at hres
  rcases hres with ⟨hcount, hpos, p, hstart, hnext⟩ | ⟨hcount, hpos, hfull⟩
  · have hp : m.Place P n p := hnext
    have hle := (h.fits hp).le_hi
    obtain ⟨ws', hset, hlen', hbits'⟩ := setStatus_eq (p + 1) (n - 1)
      (by rw [hlen]; simp only [heapLines] at hle; omega) true
    refine .inl ⟨p, hp, { m with usedStatus := some ws', searchPos := r.searchPos }, ?_,
      ⟨h.startAddr_eq, h.regionSize_eq, h.statusSize_eq, hpos, ws', rfl, hlen'.trans hlen, ?_⟩⟩
    · rw [htake, if_pos hcount, hstart, hset, h.startAddr_eq]
      rfl
    · funext i
      rw [hbits', P.mark_insert, hbits]
  · refine .inr ⟨hfull, ?_⟩
    rw [htake, if_neg (by omega), hpos]

/-- What `CyU3PDmaBufferFree` does to the array for an address in the heap. -/
lemma DmaBufMgr.dropLines_of_mem {m : DmaBufMgr} {start line k : ℕ} {ws ws' : StatusWords}
    (h₁ : m.startAddr < start) (h₂ : start < m.startAddr + m.regionSize)
    (hline : (start - m.startAddr) / 32 = line) (hws : m.usedStatus = some ws)
    (hcount : countOnes ws m.statusSize line = some k)
    (hset : cyU3PDmaBufMgrSetStatus ws line k false = some ws') :
    m.dropLines start = some (true, { m with usedStatus := some ws', searchPos := 0 }) := by
  rw [dropLines, if_pos ⟨h₁, h₂⟩, hline, hws]
  simp only [Option.bind_eq_bind, Option.bind_some, hcount, hset]
  rfl

/-- An address in the heap, by its line. -/
lemma DmaBufMgr.Ready.line {m : DmaBufMgr} {P : Packing heapLines} (h : m.Ready P) {start : ℕ}
    (h₁ : m.startAddr < start) (h₂ : start < m.startAddr + m.regionSize) :
    (start - m.startAddr) / 32 < heapLines := by
  rw [h.startAddr_eq, h.regionSize_eq] at *
  exact line_lt h₁ h₂

/-- The manager after the ones from `line` on, `k` of them, have been cleared. -/
lemma DmaBufMgr.Ready.dropLines_count {m : DmaBufMgr} {P Q : Packing heapLines} (h : m.Ready P)
    {start k : ℕ} (h₁ : m.startAddr < start) (h₂ : start < m.startAddr + m.regionSize)
    (hones : ∀ i, (start - m.startAddr) / 32 ≤ i → i < (start - m.startAddr) / 32 + k →
      P.mark i = true)
    (hzero : P.mark ((start - m.startAddr) / 32 + k) = false)
    (hQ : ∀ i, Q.mark i =
      if (start - m.startAddr) / 32 ≤ i ∧ i < (start - m.startAddr) / 32 + k then false
      else P.mark i) :
    ∃ m', m.dropLines start = some (true, m') ∧ m'.Ready Q := by
  obtain ⟨ws, hws, hlen, hbits⟩ := h.words
  have hline := h.line h₁ h₂
  simp only [heapLines] at hline
  generalize hdef : (start - m.startAddr) / 32 = line at hones hzero hQ hline
  obtain ⟨k', hk', hones', hzero'⟩ := countOnes_spec ws line
  rw [hbits] at hones' hzero'
  have hkk : k' = k := by
    by_contra hne
    rcases Nat.lt_or_gt_of_ne hne with hlt | hlt
    · rw [hones (line + k') (by omega) (by omega)] at hzero'
      cases hzero'
    · rw [hones' (line + k) (by omega) (by omega)] at hzero
      cases hzero
  have hbound : line + k ≤ 32 * ws.length := by
    by_contra hlt
    have hin := hones (line + k - 1) (by omega) (by omega)
    rw [← hbits, bit_of_le (by omega)] at hin
    cases hin
  subst hkk
  obtain ⟨ws', hset, hlen', hbits'⟩ := setStatus_eq line k' hbound false
  rw [hlen, ← h.statusSize_eq] at hk'
  refine ⟨_, dropLines_of_mem h₁ h₂ hdef hws hk' hset, ⟨h.startAddr_eq, h.regionSize_eq,
    h.statusSize_eq, by simp, ws', rfl, hlen'.trans hlen, ?_⟩⟩
  funext i
  rw [hbits', hbits, hQ]

/-- A block is given back by the address of its first line. -/
lemma DmaBufMgr.Ready.dropLines_block {m : DmaBufMgr} {P : Packing heapLines} (h : m.Ready P)
    {e : Block} (he : e ∈ P.live) :
    ∃ m', m.dropLines (bufferHeapBase + 32 * e.start) = some (true, m') ∧ m'.Ready (P.erase e) := by
  have hpos := P.pos e he
  have hlen := P.two_le e he
  have hfin := P.fin_le e he
  have hfin_eq : e.fin = e.start + e.len := rfl
  simp only [heapLines] at hfin
  have hline : (bufferHeapBase + 32 * e.start - m.startAddr) / 32 = e.start := by
    rw [h.startAddr_eq]
    omega
  -- the ones from the first line on are those of the block, up to the zero of its last line
  refine h.dropLines_count (k := e.len - 1) ?_ ?_ ?_ ?_ ?_
  · rw [h.startAddr_eq]
    omega
  · rw [h.startAddr_eq, h.regionSize_eq]
    simp only [bufferHeapSize]
    omega
  · intro i h₁ h₂
    exact P.mark_of_marks he ⟨by omega, by omega⟩
  · exact P.mark_last he (by omega)
  · intro i
    rw [P.mark_erase he, hline]
    congr 1
    simp only [Block.Marks, eq_iff_iff]
    omega

/-- An address whose line is not marked gives nothing back. -/
lemma DmaBufMgr.Ready.dropLines_clear {m : DmaBufMgr} {P : Packing heapLines} (h : m.Ready P)
    {start : ℕ} (hmark : P.mark ((start - m.startAddr) / 32) = false) :
    ∃ ok m', m.dropLines start = some (ok, m') ∧ m'.Ready P := by
  by_cases hin : m.startAddr < start ∧ start < m.startAddr + m.regionSize
  · obtain ⟨m', hdrop, hready⟩ := h.dropLines_count hin.1 hin.2 (k := 0) (Q := P)
      (by intro i h₁ h₂; omega) hmark (by intro i; rw [if_neg (by omega)])
    exact ⟨true, m', hdrop, hready⟩
  · exact ⟨false, m, by rw [dropLines, if_neg hin], h⟩

/-! ### Runs without checks -/

/-- The address behind the lines of a buffer. -/
def DmaBuffer.fin (b : DmaBuffer) : ℕ := b.addr + 32 * cacheLines b.size

/-- The lines of a buffer as a block. -/
def DmaBuffer.block (b : DmaBuffer) : Block := ⟨(b.addr - bufferHeapBase) / 32, cacheLines b.size⟩

namespace BufRun

/-- Checks stay off, and no address is freed that is inside a buffer that is held.  The address of
the buffer itself may be freed, and so may any other address, also twice. -/
def Plain (s : BufRun) : BufCall → Prop
  | .enableChecks enable _ => enable = false
  | .free _ buffer => ∀ b ∈ s.held, buffer ≤ b.addr ∨ b.fin ≤ buffer
  | _ => True

instance (s : BufRun) : (c : BufCall) → Decidable (s.Plain c)
  | .enableChecks enable _ => inferInstanceAs (Decidable (enable = false))
  | .free _ buffer => inferInstanceAs (Decidable (∀ b ∈ s.held, buffer ≤ b.addr ∨ b.fin ≤ buffer))
  | .init _ _ | .deInit _ | .alloc _ _ => isTrue trivial

/-- The heap is initialised, and its blocks are the buffers that are held. -/
structure On (s : BufRun) (P : Packing heapLines) : Prop where
  ready : s.heap.mgr.Ready P
  live : P.live = s.held.map DmaBuffer.block
  addr : ∀ b ∈ s.held, b.addr = bufferHeapBase + 32 * b.block.start
  size_lt : ∀ b ∈ s.held, b.size < 70000

/-- The heap is not initialised. -/
structure Off (s : BufRun) : Prop where
  startAddr : s.heap.mgr.startAddr = 0
  regionSize : s.heap.mgr.regionSize = 0
  held : s.held = []

/-- The invariant of runs without checks. -/
structure Inv (s : BufRun) : Prop where
  fault : s.fault = false
  checks : s.heap.track.enableChecks = false
  mode : s.Off ∨ ∃ P, s.On P

variable {lay : BlockLayout} {s : BufRun}

lemma inv_start (mem : Mem) : (start mem).Inv :=
  ⟨rfl, rfl, .inl ⟨rfl, rfl, rfl⟩⟩

lemma On.congr {P : Packing heapLines} (h : s.On P) {t : BufRun}
    (hmgr : t.heap.mgr = s.heap.mgr) (hheld : t.held = s.held) : t.On P :=
  ⟨hmgr ▸ h.ready, hheld ▸ h.live, hheld ▸ h.addr, hheld ▸ h.size_lt⟩

lemma Off.congr (h : s.Off) {t : BufRun} (hmgr : t.heap.mgr = s.heap.mgr)
    (hheld : t.held = s.held) : t.Off :=
  ⟨hmgr ▸ h.startAddr, hmgr ▸ h.regionSize, hheld ▸ h.held⟩

/-- The invariant does not look at the checks but for their being off. -/
lemma Inv.congr (h : s.Inv) {t : BufRun} (hfault : t.fault = false)
    (hchecks : t.heap.track.enableChecks = false) (hmgr : t.heap.mgr = s.heap.mgr)
    (hheld : t.held = s.held) : t.Inv := by
  refine ⟨hfault, hchecks, ?_⟩
  rcases h.mode with hoff | ⟨P, hon⟩
  · exact .inl (hoff.congr hmgr hheld)
  · exact .inr ⟨P, hon.congr hmgr hheld⟩

lemma Inv.enableChecks (h : s.Inv) (cb : Bool) : (s.step lay (.enableChecks false cb)).Inv := by
  refine h.congr h.fault ?_ ?_ rfl <;> simp only [step, cyU3PBufEnableChecks] <;> split_ifs
  · rfl
  · exact h.checks
  · rfl
  · rfl

lemma bit_replicate_zero (n i : ℕ) : bit (List.replicate n (0 : BitVec 32)) i = false := by
  rw [bit, List.getD_eq_getElem?_getD, List.getElem?_replicate]
  split_ifs <;> simp

/-- The manager of a heap that has just been initialised. -/
def fresh : DmaBufMgr := ⟨some (List.replicate 224 0), bufferHeapBase, bufferHeapSize, 224, 0⟩

lemma ready_fresh : fresh.Ready (.empty heapLines) := by
  refine ⟨rfl, rfl, rfl, by decide, List.replicate 224 0, rfl, List.length_replicate, ?_⟩
  funext i
  rw [bit_replicate_zero, Packing.mark_empty]

/-- What `CyU3PDmaBufferInit` makes of a heap that is not initialised: a fresh one, or nothing.  The
number of lines is a multiple of 32, so no bit of the array is without a line. -/
lemma init_of_off {h : BufHeap} (h₁ : h.mgr.startAddr = 0) (mutex alloc : Bool) :
    ∃ m, cyU3PDmaBufferInit mutex alloc h = { h with mgr := m } ∧
      (m = fresh ∨ m.startAddr = h.mgr.startAddr ∧ m.regionSize = h.mgr.regionSize) := by
  have hne : ¬ (h.mgr.startAddr ≠ 0 ∧ h.mgr.regionSize ≠ 0) := fun hn => hn.1 h₁
  rw [cyU3PDmaBufferInit, if_neg hne]
  cases mutex with
  | false => exact ⟨h.mgr, rfl, .inr ⟨rfl, rfl⟩⟩
  | true =>
    cases alloc with
    | false => exact ⟨{ h.mgr with usedStatus := none }, rfl, .inr ⟨rfl, rfl⟩⟩
    | true => exact ⟨fresh, rfl, .inl rfl⟩

lemma On.init {P : Packing heapLines} (h : s.On P) (mutex alloc : Bool) :
    cyU3PDmaBufferInit mutex alloc s.heap = s.heap := by
  have hne : s.heap.mgr.startAddr ≠ 0 ∧ s.heap.mgr.regionSize ≠ 0 := by
    rw [h.ready.startAddr_eq, h.ready.regionSize_eq]
    decide
  rw [cyU3PDmaBufferInit, if_pos hne]

/-- A fresh manager has no blocks. -/
lemma on_fresh {t : BufRun} (hmgr : t.heap.mgr = fresh) (hheld : t.held = []) :
    t.On (.empty heapLines) :=
  ⟨hmgr ▸ ready_fresh, by rw [hheld]; rfl, by simp [hheld], by simp [hheld]⟩

lemma Inv.init (h : s.Inv) (mutex alloc : Bool) : (s.step lay (.init mutex alloc)).Inv := by
  rcases h.mode with hoff | ⟨P, hon⟩
  · obtain ⟨m, heq, hm⟩ := init_of_off hoff.startAddr mutex alloc
    refine ⟨h.fault, ?_, ?_⟩ <;> simp only [step, heq]
    · exact h.checks
    · rcases hm with rfl | ⟨h₁, h₂⟩
      · exact .inr ⟨_, on_fresh rfl hoff.held⟩
      · exact .inl ⟨h₁.trans hoff.startAddr, h₂.trans hoff.regionSize, hoff.held⟩
  · exact h.congr h.fault (by simp only [step, hon.init]; exact h.checks)
      (by simp only [step, hon.init]) rfl

lemma Inv.deInit (h : s.Inv) (lock : Bool) : (s.step lay (.deInit lock)).Inv := by
  cases lock with
  | false => exact h.congr h.fault h.checks rfl rfl
  | true => exact ⟨h.fault, h.checks, .inl ⟨rfl, rfl, rfl⟩⟩

lemma request_lt (size : UInt16) : size.toNat < 70000 := by
  have := size.toNat_lt
  omega

/-- `CyU3PDmaBufferAlloc` in an initialised heap without checks. -/
lemma On.alloc {P : Packing heapLines} (h : s.On P) (hchecks : s.heap.track.enableChecks = false)
    (lay : BlockLayout) (size : UInt16) :
    (∃ p, ∃ hp : s.heap.mgr.Place P (cacheLines size.toNat) p, ∃ m',
      cyU3PDmaBufferAlloc lay true size s.heap =
        some (bufferHeapBase + 32 * (p + 1), { s.heap with mgr := m' }) ∧
      m'.Ready (P.insert p _ (cacheLines_eq (request_lt size)).1 (h.ready.fits hp))) ∨
    (Full P.mark (cacheLines size.toNat + 1) (32 * s.heap.mgr.searchPos) heapLines ∧
      cyU3PDmaBufferAlloc lay true size s.heap = some (0, s.heap)) := by
  obtain ⟨hn, -, hn'⟩ := cacheLines_eq (request_lt size)
  have hne : ¬ (s.heap.mgr.startAddr = 0 ∨ s.heap.mgr.regionSize = 0) := by
    rw [h.ready.startAddr_eq, h.ready.regionSize_eq]
    decide
  have halloc : cyU3PDmaBufferAlloc lay true size s.heap =
      (s.heap.mgr.takeLines (cacheLines size.toNat)).bind
        fun r => some (r.1, { s.heap with mgr := r.2 }) := by
    rw [cyU3PDmaBufferAlloc, if_neg (by simp), if_neg hne, hchecks]
    simp [blkSize]
  rcases h.ready.takeLines hn hn' with ⟨p, hp, m', htake, hready⟩ | ⟨hfull, htake⟩
  · exact .inl ⟨p, hp, m', by rw [halloc, htake, Option.bind_some], hready⟩
  · exact .inr ⟨hfull, by rw [halloc, htake, Option.bind_some]⟩

lemma block_mk (p : ℕ) (size : ℕ) :
    DmaBuffer.block ⟨bufferHeapBase + 32 * (p + 1), size⟩ = ⟨p + 1, cacheLines size⟩ := by
  rw [DmaBuffer.block]
  congr 1
  rw [Nat.add_sub_cancel_left]
  omega

lemma handOut_of_ne_zero {ptr : ℕ} (h : ptr ≠ 0) (size : UInt16) (held : List DmaBuffer) :
    handOut ptr size held = ⟨ptr, size.toNat⟩ :: held := if_pos h

/-- A block that has been handed out is one more block. -/
lemma On.cons {P : Packing heapLines} (h : s.On P) {p size : ℕ} (hsize : size < 70000)
    {hn : 2 ≤ cacheLines size} {hfits : Fits P.mark (cacheLines size + 1) 0 heapLines p}
    {m : DmaBufMgr} (hready : m.Ready (P.insert p (cacheLines size) hn hfits)) {t : BufRun}
    (hmgr : t.heap.mgr = m) (hheld : t.held = ⟨bufferHeapBase + 32 * (p + 1), size⟩ :: s.held) :
    t.On (P.insert p (cacheLines size) hn hfits) := by
  refine ⟨hmgr ▸ hready, ?_, ?_, ?_⟩ <;> rw [hheld]
  · rw [List.map_cons, block_mk, ← h.live]
    rfl
  · rintro b (_ | ⟨_, hb⟩)
    · rw [block_mk]
    · exact h.addr b hb
  · rintro b (_ | ⟨_, hb⟩)
    · exact hsize
    · exact h.size_lt b hb

lemma Inv.alloc (h : s.Inv) (lock : Bool) (size : UInt16) :
    (s.step lay (.alloc lock size)).Inv := by
  have hstay : cyU3PDmaBufferAlloc lay lock size s.heap = some (0, s.heap) →
      (s.step lay (.alloc lock size)).Inv := by
    intro heq
    refine h.congr ?_ ?_ ?_ ?_ <;> simp only [step, heq]
    · exact h.fault
    · exact h.checks
    · rfl
  cases lock with
  | false => exact hstay rfl
  | true =>
    rcases h.mode with hoff | ⟨P, hon⟩
    · apply hstay
      rw [cyU3PDmaBufferAlloc, if_neg (by simp), if_pos (.inl hoff.startAddr)]
    · rcases hon.alloc h.checks lay size with ⟨p, hp, m', heq, hready⟩ | ⟨-, heq⟩
      · refine ⟨?_, ?_, .inr
          ⟨P.insert p _ (cacheLines_eq (request_lt size)).1 (hon.ready.fits hp), ?_⟩⟩ <;>
          simp only [step, heq]
        · exact h.fault
        · exact h.checks
        · have hne : bufferHeapBase + 32 * (p + 1) ≠ 0 := by simp
          exact hon.cons (request_lt size) hready rfl (handOut_of_ne_zero hne size s.held)
      · exact hstay heq

/-- A line that is marked is freed only by the address of a buffer that is held. -/
lemma On.mark_line {P : Packing heapLines} (h : s.On P) {lock : Bool} {buffer : ℕ}
    (hG : s.Plain (.free lock buffer)) (hout : ∀ b ∈ s.held, b.addr ≠ buffer)
    (hbase : bufferHeapBase ≤ buffer) :
    P.mark ((buffer - s.heap.mgr.startAddr) / 32) = false := by
  rw [Packing.mark_eq_false, h.live, h.ready.startAddr_eq]
  intro e he hm
  obtain ⟨b, hb, rfl⟩ := List.mem_map.1 he
  have haddr := h.addr b hb
  have hlen : b.block.fin = b.block.start + cacheLines b.size := rfl
  have hne := hout b hb
  have hG := hG b hb
  rw [DmaBuffer.fin] at hG
  have h₁ := hm.1
  have h₂ := hm.2
  simp only [bufferHeapBase] at *
  omega

/-- `CyU3PDmaBufferFree` of an address that is not below the heap, without checks. -/
lemma free_eq {h : BufHeap} {buffer : ℕ} (hchecks : h.track.enableChecks = false)
    (hbase : ¬ buffer < bufferHeapBase) :
    cyU3PDmaBufferFree lay true buffer h =
      (h.mgr.dropLines buffer).bind fun r => some (r.1, { h with mgr := r.2 }) := by
  rw [cyU3PDmaBufferFree, if_neg hbase, if_neg (by simp), hchecks]
  rfl

lemma giveBack_of_forall_ne {ok : Bool} {buffer : ℕ} {held : List DmaBuffer}
    (h : ∀ b ∈ held, b.addr ≠ buffer) : giveBack ok buffer held = held := by
  cases ok with
  | false => rfl
  | true => exact List.filter_eq_self.2 fun b hb => by simp [h b hb]

/-- Two blocks of a packing that start at the same line are the same. -/
lemma eq_of_start_eq {P : Packing heapLines} {e f : Block} (he : e ∈ P.live) (hf : f ∈ P.live)
    (h : e.start = f.start) : e = f := by
  rcases P.eq_or_apart he hf with heq | hap
  · exact heq
  · have := P.two_le e he
    have := P.two_le f hf
    simp only [Block.Apart, Block.fin] at hap
    omega

/-- The blocks of what is held after a buffer has been given back. -/
lemma On.live_erase {P : Packing heapLines} (h : s.On P) {b : DmaBuffer} (hb : b ∈ s.held) :
    (P.erase b.block).live = (giveBack true b.addr s.held).map DmaBuffer.block := by
  have hmem : ∀ c ∈ s.held, c.block ∈ P.live := fun c hc => by
    rw [h.live]
    exact List.mem_map_of_mem hc
  have hiff : ∀ c ∈ s.held, (c.block = b.block ↔ c.addr = b.addr) := by
    intro c hc
    rw [h.addr c hc, h.addr b hb]
    constructor
    · intro heq
      rw [heq]
    · intro heq
      exact eq_of_start_eq (hmem c hc) (hmem b hb) (by omega)
  simp only [Packing.erase, giveBack, if_true, h.live, List.filter_map]
  congr 1
  apply List.filter_congr
  intro c hc
  rw [Bool.eq_iff_iff, Function.comp_apply, decide_eq_true_iff, decide_eq_true_iff]
  exact not_congr (hiff c hc)

/-- A block that has been given back is one block less. -/
lemma On.drop {P : Packing heapLines} (h : s.On P) {b : DmaBuffer} (hb : b ∈ s.held) {m : DmaBufMgr}
    (hready : m.Ready (P.erase b.block)) {t : BufRun} (hmgr : t.heap.mgr = m)
    (hheld : t.held = giveBack true b.addr s.held) : t.On (P.erase b.block) :=
  ⟨hmgr ▸ hready, by rw [hheld, h.live_erase hb],
    fun c hc => h.addr c (List.mem_of_mem_filter (hheld ▸ hc)),
    fun c hc => h.size_lt c (List.mem_of_mem_filter (hheld ▸ hc))⟩

lemma Inv.free (h : s.Inv) {lock : Bool} {buffer : ℕ} (hG : s.Plain (.free lock buffer)) :
    (s.step lay (.free lock buffer)).Inv := by
  have hstay : cyU3PDmaBufferFree lay lock buffer s.heap = some (false, s.heap) →
      (s.step lay (.free lock buffer)).Inv := by
    intro heq
    refine h.congr ?_ ?_ ?_ ?_ <;> simp only [step, heq]
    · exact h.fault
    · exact h.checks
    · rfl
  by_cases hbase : buffer < bufferHeapBase
  · apply hstay
    rw [cyU3PDmaBufferFree, if_pos hbase]
  cases lock with
  | false =>
    apply hstay
    rw [cyU3PDmaBufferFree, if_neg hbase, if_pos (by simp)]
  | true =>
    rcases h.mode with hoff | ⟨P, hon⟩
    · apply hstay
      rw [free_eq h.checks hbase, DmaBufMgr.dropLines,
        if_neg (by rw [hoff.startAddr, hoff.regionSize]; omega)]
      rfl
    · by_cases hheld : ∃ b ∈ s.held, b.addr = buffer
      · obtain ⟨b, hb, rfl⟩ := hheld
        have hmem : b.block ∈ P.live := by rw [hon.live]; exact List.mem_map_of_mem hb
        obtain ⟨m', hdrop, hready⟩ := hon.ready.dropLines_block hmem
        rw [← hon.addr b hb] at hdrop
        refine ⟨?_, ?_, .inr ⟨P.erase b.block, ?_⟩⟩ <;>
          simp only [step, free_eq h.checks hbase, hdrop, Option.bind_some]
        · exact h.fault
        · exact h.checks
        · exact hon.drop hb hready rfl rfl
      · have hout : ∀ b ∈ s.held, b.addr ≠ buffer := fun b hb heq => hheld ⟨b, hb, heq⟩
        obtain ⟨ok, m', hdrop, hready⟩ :=
          hon.ready.dropLines_clear (hon.mark_line hG hout (by omega))
        refine ⟨?_, ?_, .inr ⟨P, ?_⟩⟩ <;>
          simp only [step, free_eq h.checks hbase, hdrop, Option.bind_some,
            giveBack_of_forall_ne hout]
        · exact h.fault
        · exact h.checks
        · exact ⟨hready, hon.live, hon.addr, hon.size_lt⟩

lemma Inv.step (h : s.Inv) {c : BufCall} (hG : s.Plain c) : (s.step lay c).Inv := by
  cases c with
  | enableChecks enable cb =>
    obtain rfl : enable = false := hG
    exact h.enableChecks cb
  | init mutex alloc => exact h.init mutex alloc
  | deInit lock => exact h.deInit lock
  | alloc lock size => exact h.alloc lock size
  | free lock buffer => exact h.free hG

lemma inv_run {mem : Mem} {cs : List BufCall} (h : Along (step lay) Plain (start mem) cs) :
    (run (step lay) (start mem) cs).Inv :=
  run_invariant (fun _ _ hs hG => hs.step hG) (inv_start mem) h

/-! ### What clients can rely on -/

lemma On.block_mem {P : Packing heapLines} (h : s.On P) {b : DmaBuffer} (hb : b ∈ s.held) :
    b.block ∈ P.live := by
  rw [h.live]
  exact List.mem_map_of_mem hb

/-- The address behind a buffer, by its block. -/
lemma On.fin_eq {P : Packing heapLines} (h : s.On P) {b : DmaBuffer} (hb : b ∈ s.held) :
    b.fin = bufferHeapBase + 32 * b.block.fin := by
  have haddr := h.addr b hb
  have hfin : b.block.fin = b.block.start + cacheLines b.size := rfl
  rw [DmaBuffer.fin]
  omega

/-- Whatever clients do, short of freeing an address inside a buffer that is held, the buffers that
are held do not overlap.  Each is in the heap, aligned to the cache lines, and at least as large as
was asked for; no call goes outside the array of the manager. -/
theorem held_buffers_disjoint (lay : BlockLayout) (mem : Mem) (cs : List BufCall)
    (h : Along (step lay) Plain (start mem) cs) :
    let s := run (step lay) (start mem) cs
    s.fault = false ∧ s.held.Pairwise (fun b c => b.fin ≤ c.addr ∨ c.fin ≤ b.addr) ∧
      ∀ b ∈ s.held, 32 ∣ b.addr ∧ bufferHeapBase < b.addr ∧ b.addr + b.size ≤ b.fin ∧
        b.fin ≤ sysMemTop := by
  intro s
  have hinv : s.Inv := inv_run h
  refine ⟨hinv.fault, ?_⟩
  rcases hinv.mode with hoff | ⟨P, hon⟩
  · simp [hoff.held]
  constructor
  · have hapart := P.apart
    rw [hon.live, List.pairwise_map] at hapart
    refine hapart.imp_of_mem ?_
    intro b c hb hc hbc
    rw [hon.fin_eq hb, hon.fin_eq hc, hon.addr b hb, hon.addr c hc]
    rcases hbc with hle | hle
    · exact .inl (by omega)
    · exact .inr (by omega)
  · intro b hb
    have haddr := hon.addr b hb
    have hpos := P.pos _ (hon.block_mem hb)
    have hfin := P.fin_le _ (hon.block_mem hb)
    have hlines := (cacheLines_eq (hon.size_lt b hb)).2.1
    have hfin_eq := hon.fin_eq hb
    have hdef : b.fin = b.addr + 32 * cacheLines b.size := rfl
    simp only [bufferHeapBase, sysMemTop, heapLines] at *
    refine ⟨?_, ?_, ?_, ?_⟩ <;> omega

/-- Two buffers, the first of which is given back; then one that goes into its place. -/
theorem held_buffers_disjoint_example :
    Along (step ⟨0, 4, 8, 12, 16⟩) Plain (start fun _ => 0)
        [.init true true, .alloc true 100, .alloc true 4000, .free true 0x40040020, .alloc true 5] ∧
      (run (step ⟨0, 4, 8, 12, 16⟩) (start fun _ => 0)
        [.init true true, .alloc true 100, .alloc true 4000, .free true 0x40040020,
          .alloc true 5]).held.Pairwise (fun b c => b.fin ≤ c.addr ∨ c.fin ≤ b.addr) := by
  have h : Along (step ⟨0, 4, 8, 12, 16⟩) Plain (start fun _ => 0)
      [.init true true, .alloc true 100, .alloc true 4000, .free true 0x40040020,
        .alloc true 5] := by
    refine ⟨trivial, trivial, trivial, ?_, trivial, trivial⟩
    decide +kernel
  exact ⟨h, (held_buffers_disjoint _ _ _ h).2.1⟩

/-- Line `i` is a line of a buffer that is held, and not its last one. -/
def inner (held : List DmaBuffer) (i : ℕ) : Bool :=
  decide (∃ b ∈ held, b.addr ≤ bufferHeapBase + 32 * i ∧ bufferHeapBase + 32 * (i + 1) < b.fin)

/-- The bitmap is that of the buffers that are held. -/
lemma On.mark_eq {P : Packing heapLines} (h : s.On P) : P.mark = inner s.held := by
  funext i
  rw [Packing.mark, inner, decide_eq_decide, h.live]
  have hiff : ∀ b ∈ s.held, (b.block.Marks i ↔
      b.addr ≤ bufferHeapBase + 32 * i ∧ bufferHeapBase + 32 * (i + 1) < b.fin) := by
    intro b hb
    rw [Block.Marks, h.fin_eq hb, h.addr b hb]
    omega
  constructor
  · rintro ⟨e, he, hm⟩
    obtain ⟨b, hb, rfl⟩ := List.mem_map.1 he
    exact ⟨b, hb, (hiff b hb).1 hm⟩
  · rintro ⟨b, hb, hm⟩
    exact ⟨b.block, List.mem_map_of_mem hb, (hiff b hb).2 hm⟩

/-- A manager that has been initialised is on. -/
lemma Inv.on (h : s.Inv) (hstart : s.heap.mgr.startAddr ≠ 0) : ∃ P, s.On P := by
  rcases h.mode with hoff | hon
  · exact absurd hoff.startAddr hstart
  · exact hon

/-- Once the heap is initialised, and with the lock, `CyU3PDmaBufferAlloc` answers null exactly if
there is no place for the buffer: a row of free lines, one longer than the buffer, that does not
cross the start of the word `searchPos`.  A line counts as free if it is the last one of a buffer,
since only the line in front of the new buffer can be such a line.  Otherwise the buffer goes into
the first place from `searchPos` on, or, if there is none, into the first place of all. -/
theorem alloc_next_fit (lay : BlockLayout) (mem : Mem) (cs : List BufCall) (size : UInt16)
    (h : Along (step lay) Plain (start mem) cs)
    (hinit : (run (step lay) (start mem) cs).heap.mgr.startAddr ≠ 0) :
    let s := run (step lay) (start mem) cs
    let n := cacheLines size.toNat
    let pos := 32 * s.heap.mgr.searchPos
    pos < heapLines ∧
      ((∃ p heap, cyU3PDmaBufferAlloc lay true size s.heap =
          some (bufferHeapBase + 32 * (p + 1), heap) ∧
          Next (inner s.held) (n + 1) pos heapLines p) ∨
        (cyU3PDmaBufferAlloc lay true size s.heap = some (0, s.heap) ∧
          Full (inner s.held) (n + 1) pos heapLines)) := by
  intro s n pos
  have hinv : s.Inv := inv_run h
  obtain ⟨P, hon⟩ := hinv.on hinit
  refine ⟨?_, ?_⟩
  · have := hon.ready.searchPos_lt
    simp only [pos, heapLines]
    omega
  · rw [← hon.mark_eq]
    rcases hon.alloc hinv.checks lay size with ⟨p, hp, m', heq, -⟩ | ⟨hfull, heq⟩
    · exact .inl ⟨p, _, heq, hp⟩
    · exact .inr ⟨heq, hfull⟩

/-- A heap with one buffer. -/
theorem alloc_next_fit_example :
    (run (step ⟨0, 4, 8, 12, 16⟩) (start fun _ => 0)
        [.init true true, .alloc true 100]).heap.mgr.startAddr ≠ 0 ∧
      32 * (run (step ⟨0, 4, 8, 12, 16⟩) (start fun _ => 0)
        [.init true true, .alloc true 100]).heap.mgr.searchPos < heapLines := by
  have h : (run (step ⟨0, 4, 8, 12, 16⟩) (start fun _ => 0)
      [.init true true, .alloc true 100]).heap.mgr.startAddr ≠ 0 := by
    decide +kernel
  have hplain : Along (step ⟨0, 4, 8, 12, 16⟩) Plain (start fun _ => 0)
      [.init true true, .alloc true 100] := ⟨trivial, trivial, trivial⟩
  exact ⟨h, (alloc_next_fit _ _ _ 60 hplain h).1⟩

/-- Lines are taken back only in the heap; the next search begins at the first word. -/
lemma dropLines_true {m m' : DmaBufMgr} {start : ℕ} (h : m.dropLines start = some (true, m')) :
    start < m.startAddr + m.regionSize ∧ m'.startAddr = m.startAddr ∧ m'.searchPos = 0 := by
  rw [DmaBufMgr.dropLines] at h
  split_ifs at h with hin
  · simp only [Option.bind_eq_bind, Option.bind_eq_some_iff] at h
    obtain ⟨ws, -, count, -, ws', -, heq⟩ := h
    cases heq
    exact ⟨hin.2, rfl, rfl⟩
  · cases h

lemma dropLines_of_free {h h' : BufHeap} {lock : Bool} {buffer : ℕ}
    (hchecks : h.track.enableChecks = false)
    (hfree : cyU3PDmaBufferFree lay lock buffer h = some (true, h')) :
    h.mgr.dropLines buffer = some (true, h'.mgr) := by
  rw [cyU3PDmaBufferFree] at hfree
  simp only [hchecks, Bool.false_eq_true, if_false] at hfree
  split_ifs at hfree
  · cases hfree
  · cases hfree
  · simp only [Option.bind_eq_bind, Option.bind_eq_some_iff] at hfree
    obtain ⟨⟨ok, m'⟩, hm', heq⟩ := hfree
    cases heq
    exact hm'

/-- A successful free leads to an initialised heap whose next search begins at the first word. -/
lemma Inv.on_of_free (h : s.Inv) {buffer : ℕ} {heap : BufHeap} (hG : s.Plain (.free true buffer))
    (hfree : cyU3PDmaBufferFree lay true buffer s.heap = some (true, heap)) :
    heap.track.enableChecks = false ∧ heap.mgr.searchPos = 0 ∧
      ∃ P, On ⟨heap, giveBack true buffer s.held, s.fault⟩ P := by
  have hinv : (s.step lay (.free true buffer)).Inv := h.free hG
  have hstep : s.step lay (.free true buffer) = ⟨heap, giveBack true buffer s.held, s.fault⟩ := by
    simp only [BufRun.step, hfree]
  rw [hstep] at hinv
  obtain ⟨hlt, hstart, hpos⟩ := dropLines_true (dropLines_of_free h.checks hfree)
  refine ⟨hinv.checks, hpos, hinv.on ?_⟩
  rcases h.mode with hoff | ⟨P, hon⟩
  · rw [hoff.startAddr, hoff.regionSize] at hlt
    omega
  · rw [hstart, hon.ready.startAddr_eq]
    decide

/-- Right after a buffer has been given back, with the lock got both times, a buffer is refused only
if there is no row of free lines that is long enough, anywhere in the heap; otherwise it goes into
the lowest one. -/
theorem alloc_first_fit_after_free (lay : BlockLayout) (mem : Mem) (cs : List BufCall)
    (buffer : ℕ) (size : UInt16) (heap : BufHeap)
    (h : Along (step lay) Plain (start mem) (cs ++ [.free true buffer]))
    (hfree : cyU3PDmaBufferFree lay true buffer (run (step lay) (start mem) cs).heap =
      some (true, heap)) :
    let held := giveBack true buffer (run (step lay) (start mem) cs).held
    let n := cacheLines size.toNat
    (∃ p heap', cyU3PDmaBufferAlloc lay true size heap =
        some (bufferHeapBase + 32 * (p + 1), heap') ∧
        First (inner held) (n + 1) 0 heapLines p) ∨
      (cyU3PDmaBufferAlloc lay true size heap = some (0, heap) ∧
        ∀ p, ¬ Fits (inner held) (n + 1) 0 heapLines p) := by
  intro held n
  obtain ⟨hcs, hG, -⟩ := along_append.1 h
  obtain ⟨hchecks, hpos, P, hon⟩ := (inv_run hcs).on_of_free hG hfree
  have hmark : P.mark = inner held := hon.mark_eq
  rw [← hmark]
  rcases hon.alloc hchecks lay size with ⟨p, hp, m', heq, -⟩ | ⟨hfull, heq⟩
  · have hnext : Next P.mark (n + 1) (32 * heap.mgr.searchPos) heapLines p := hp
    rw [hpos] at hnext
    exact .inl ⟨p, _, heq, hnext.first⟩
  · simp only [hpos] at hfull
    exact .inr ⟨heq, hfull.1⟩

/-- The first of two buffers is given back. -/
theorem alloc_first_fit_after_free_example :
    ∃ heap, cyU3PDmaBufferFree ⟨0, 4, 8, 12, 16⟩ true 0x40040020
        (run (step ⟨0, 4, 8, 12, 16⟩) (start fun _ => 0)
          [.init true true, .alloc true 100, .alloc true 100]).heap = some (true, heap) ∧
      ((∃ p heap', cyU3PDmaBufferAlloc ⟨0, 4, 8, 12, 16⟩ true 128 heap =
        some (bufferHeapBase + 32 * (p + 1), heap')) ∨
        cyU3PDmaBufferAlloc ⟨0, 4, 8, 12, 16⟩ true 128 heap = some (0, heap)) := by
  have hplain : Along (step ⟨0, 4, 8, 12, 16⟩) Plain (start fun _ => 0)
      ([.init true true, .alloc true 100, .alloc true 100] ++ [.free true 0x40040020]) := by
    refine ⟨trivial, trivial, trivial, ?_, trivial⟩
    decide +kernel
  have hok : ((cyU3PDmaBufferFree ⟨0, 4, 8, 12, 16⟩ true 0x40040020
      (run (step ⟨0, 4, 8, 12, 16⟩) (start fun _ => 0)
        [.init true true, .alloc true 100, .alloc true 100]).heap).map Prod.fst) = some true := by
    decide +kernel
  obtain ⟨⟨ok, heap⟩, hfree, rfl⟩ := Option.map_eq_some_iff.1 hok
  refine ⟨heap, hfree, ?_⟩
  rcases alloc_first_fit_after_free _ _ _ _ 128 heap hplain hfree with ⟨p, heap', heq, -⟩ | ⟨heq, -⟩
  · exact .inl ⟨p, heap', heq⟩
  · exact .inr heq

/-- The array of an initialised manager is determined by the buffers that are held: it does not
depend on the order in which they were asked for, or on what was held in between. -/
theorem mgr_eq_of_held (lay : BlockLayout) (mem mem' : Mem) (cs cs' : List BufCall)
    (h : Along (step lay) Plain (start mem) cs) (h' : Along (step lay) Plain (start mem') cs')
    (hinit : (run (step lay) (start mem) cs).heap.mgr.startAddr ≠ 0)
    (hinit' : (run (step lay) (start mem') cs').heap.mgr.startAddr ≠ 0)
    (hheld : ∀ b, b ∈ (run (step lay) (start mem) cs).held ↔
      b ∈ (run (step lay) (start mem') cs').held) :
    { (run (step lay) (start mem) cs).heap.mgr with searchPos := 0 } =
      { (run (step lay) (start mem') cs').heap.mgr with searchPos := 0 } := by
  obtain ⟨P, hP⟩ := (inv_run h).on hinit
  obtain ⟨Q, hQ⟩ := (inv_run h').on hinit'
  generalize run (step lay) (start mem) cs = s at *
  generalize run (step lay) (start mem') cs' = t at *
  obtain ⟨ws, hws, hlen, hbits⟩ := hP.ready.words
  obtain ⟨ws', hws', hlen', hbits'⟩ := hQ.ready.words
  have hwords : ws = ws' := by
    apply ext_bit (hlen.trans hlen'.symm)
    intro i _
    rw [hbits, hbits', hP.mark_eq, hQ.mark_eq, inner, inner]
    simp only [hheld]
  rw [DmaBufMgr.mk.injEq]
  exact ⟨by rw [hws, hws', hwords], hP.ready.startAddr_eq.trans hQ.ready.startAddr_eq.symm,
    hP.ready.regionSize_eq.trans hQ.ready.regionSize_eq.symm,
    hP.ready.statusSize_eq.trans hQ.ready.statusSize_eq.symm, rfl⟩

/-- A heap whose only buffer has been given back is as after its initialisation. -/
theorem mgr_eq_of_held_example :
    { (run (step ⟨0, 4, 8, 12, 16⟩) (start fun _ => 0)
        [.init true true, .alloc true 100, .free true 0x40040020]).heap.mgr with searchPos := 0 } =
      { (run (step ⟨0, 4, 8, 12, 16⟩) (start fun _ => 0) [.init true true]).heap.mgr with
        searchPos := 0 } := by
  apply mgr_eq_of_held
  · refine ⟨trivial, trivial, ?_, trivial⟩
    decide +kernel
  · exact ⟨trivial, trivial⟩
  · decide +kernel
  · decide +kernel
  · have hheld : (run (step ⟨0, 4, 8, 12, 16⟩) (start fun _ => 0)
        [.init true true, .alloc true 100, .free true 0x40040020]).held = [] := by decide +kernel
    intro b
    rw [hheld]
    rfl

end BufRun

end Fx3Ncm
