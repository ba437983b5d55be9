/-
# Blocks with headers: the leak and corruption checks

With checks enabled, both heaps of `cyfx_tx.c` put a header of 20 bytes in front of each block and a
signature behind it, and link the blocks in use to each other through their headers.  The code is
the same in `CyU3PMemAlloc` and `CyU3PDmaBufferAlloc`, in `CyU3PMemFree` and `CyU3PDmaBufferFree`,
and in the corruption checks of the two heaps; it is modelled once, over the memory that holds the
blocks, with the check of the buffer heap.

`Tracks` says that the headers link a list of blocks that do not overlap.  It does not speak of the
signatures: whether they are in place is what the corruption check finds out.
-/
import Fx3Ncm.Lib.Memory
import Fx3Ncm.Lib.Linked
import Fx3Ncm.Lib.Loop

namespace Fx3Ncm

open ByteMemory Linked Loops

/-! ### The model -/

@[simp, reducible] def sysMemTop : ℕ := 0x40078000

/-- `CY_U3P_MEM_HEAP_BASE + CY_U3P_MEM_HEAP_SIZE` -/
@[simp, reducible] def bufferHeapBase : ℕ := 0x40040000

@[simp, reducible] def memStartSig : ℕ := 0x4658334D

@[simp, reducible] def memEndSig : ℕ := 0x454E444D

/-- `sizeof (MemBlockInfo)` -/
@[simp, reducible] def memBlockInfoSize : ℕ := 20

/-- Where the fields of `MemBlockInfo`, a type of the SDK, are in a block header. -/
structure BlockLayout where
  allocId : ℕ
  allocSize : ℕ
  prevBlk : ℕ
  nextBlk : ℕ
  startSig : ℕ

/-- The variables of the leak and corruption checks of a heap, with its memory and the calls of the
callback `badCb`, if there is one. -/
structure InUse where
  enableChecks : Bool
  allocCnt : ℕ
  freeCnt : ℕ
  inUseList : ℕ
  badCb : Bool
  mem : Mem
  reported : List ℕ

namespace InUse

/-- The header and the footer of a new block, which becomes the head of the list. -/
def link (lay : BlockLayout) (t : InUse) (block size : ℕ) : InUse :=
  let m := write32 t.mem (block + lay.allocId) t.allocCnt
  let m := write32 m (block + lay.allocSize) size
  let m := write32 m (block + lay.prevBlk) t.inUseList
  let m := write32 m (block + lay.nextBlk) 0
  let m := write32 m (block + lay.startSig) memStartSig
  let m := if t.inUseList ≠ 0 then write32 m (t.inUseList + lay.nextBlk) block else m
  let m := write32 m (block + 4 * (size / 4 - 1)) memEndSig
  { t with mem := m, allocCnt := (t.allocCnt + 1) % 4294967296, inUseList := block }

/-- The address of the end signature of a block, four bytes before the end that its header
states. -/
def endSigAddr (lay : BlockLayout) (m : Mem) (block : ℕ) : ℕ :=
  (block + read32 m (block + lay.allocSize) + 4294967292) % 4294967296

/-- Both signatures of a block are in their places. -/
def signed (lay : BlockLayout) (m : Mem) (block : ℕ) : Bool :=
  read32 m (block + lay.startSig) = memStartSig ∧ read32 m (endSigAddr lay m block) = memEndSig

/-- A call of the callback, if one is registered. -/
def report (t : InUse) (ptr : ℕ) : InUse :=
  if t.badCb then { t with reported := t.reported ++ [ptr] } else t

/-- A block is taken out of the list when it is freed. -/
def unlink (lay : BlockLayout) (t : InUse) (block : ℕ) : InUse :=
  let t := if signed lay t.mem block then t else t.report (block + memBlockInfoSize)
  let t := { t with freeCnt := (t.freeCnt + 1) % 4294967296 }
  let next := read32 t.mem (block + lay.nextBlk)
  let m := if next ≠ 0 then write32 t.mem (next + lay.prevBlk) (read32 t.mem (block + lay.prevBlk))
    else t.mem
  let prev := read32 m (block + lay.prevBlk)
  let m := if prev ≠ 0 then write32 m (prev + lay.nextBlk) (read32 m (block + lay.nextBlk)) else m
  { t with
    mem := m
    inUseList := if t.inUseList = block then read32 m (block + lay.prevBlk) else t.inUseList }

/-- The loop of the corruption checks, over blocks between `lo` and `hi`. -/
def corruptionStep (t : InUse) (lay : BlockLayout) (lo hi : ℕ) (block : ℕ) : ℕ ⊕ Bool × InUse :=
  if block = 0 then .inr (true, t)
  else if block < lo ∨ hi ≤ block then .inr (false, t)
  else if signed lay t.mem block then .inl (read32 t.mem (block + lay.prevBlk))
  else .inr (false, t.report (block + memBlockInfoSize))

end InUse

/-- `CyU3PBufCorruptionCheck`, for at most `fuel` blocks: whether it succeeds, and what it
reports. -/
def cyU3PBufCorruptionCheck (lay : BlockLayout) (fuel : ℕ) (t : InUse) : Option (Bool × InUse) :=
  iterate (t.corruptionStep lay bufferHeapBase sysMemTop) fuel t.inUseList

/-! ### Placement -/

/-- The offsets of the fields. -/
def BlockLayout.fields (lay : BlockLayout) : List ℕ :=
  [lay.allocId, lay.allocSize, lay.prevBlk, lay.nextBlk, lay.startSig]

/-- The fields of the header do not overlap. -/
structure BlockLayout.Valid (lay : BlockLayout) : Prop where
  le : ∀ o ∈ lay.fields, o + 4 ≤ 20
  apart : lay.fields.Pairwise fun o o' => o + 4 ≤ o' ∨ o' + 4 ≤ o

lemma BlockLayout.Valid.eq_or_apart {lay : BlockLayout} (h : lay.Valid) {o o' : ℕ}
    (ho : o ∈ lay.fields) (ho' : o' ∈ lay.fields) : o = o' ∨ o + 4 ≤ o' ∨ o' + 4 ≤ o := by
  have : Std.Symm fun o o' : ℕ => o + 4 ≤ o' ∨ o' + 4 ≤ o := ⟨fun _ _ h => Or.symm h⟩
  by_cases heq : o = o'
  · exact .inl heq
  · exact .inr (h.apart.forall ho ho' heq)

/-- A block with its header and its end signature. -/
structure MemBlock where
  addr : ℕ
  size : ℕ
deriving DecidableEq, Repr

namespace MemBlock

/-- Two blocks do not overlap. -/
def Apart (b c : MemBlock) : Prop := b.addr + b.size ≤ c.addr ∨ c.addr + c.size ≤ b.addr

instance : Std.Symm Apart := ⟨fun _ _ h => Or.symm h⟩

/-- A block has room for the header and the end signature, and an address. -/
structure Sized (b : MemBlock) : Prop where
  pos : 0 < b.addr
  le : 24 ≤ b.size
  dvd : 4 ∣ b.size
  lt : b.addr + b.size ≤ 4294967296

end MemBlock

/-- A word of a block that is a field of its header or does not overlap the fields. -/
structure BlockLayout.Word (lay : BlockLayout) (b : MemBlock) (o : ℕ) : Prop where
  le : o + 4 ≤ b.size
  apart : ∀ w ∈ lay.fields, o = w ∨ o + 4 ≤ w ∨ w + 4 ≤ o

lemma BlockLayout.Valid.word {lay : BlockLayout} (h : lay.Valid) {b : MemBlock} (hb : b.Sized)
    {o : ℕ} (ho : o ∈ lay.fields) : lay.Word b o :=
  ⟨by have := h.le o ho; have := hb.le; omega, fun _ hw => h.eq_or_apart ho hw⟩

lemma BlockLayout.Valid.word_end {lay : BlockLayout} (h : lay.Valid) {b : MemBlock}
    (hb : b.Sized) : lay.Word b (b.size - 4) := by
  have hle := hb.le
  refine ⟨by omega, fun w hw => .inr (.inr ?_)⟩
  have := h.le w hw
  omega

/-- Blocks that do not overlap. -/
structure Placed (bs : List MemBlock) : Prop where
  sized : ∀ b ∈ bs, b.Sized
  apart : bs.Pairwise MemBlock.Apart

namespace Placed

variable {bs : List MemBlock} {b c : MemBlock}

lemma eq_or_apart (h : Placed bs) (hb : b ∈ bs) (hc : c ∈ bs) : b = c ∨ b.Apart c := by
  by_cases heq : b = c
  · exact .inl heq
  · exact .inr (h.apart.forall hb hc heq)

lemma nodup (h : Placed bs) : (bs.map MemBlock.addr).Nodup := by
  rw [List.Nodup, List.pairwise_map]
  refine h.apart.imp_of_mem ?_
  intro b c hb hc hap heq
  have := (h.sized b hb).le
  have := (h.sized c hc).le
  simp only [MemBlock.Apart] at hap
  omega

lemma zero_notMem (h : Placed bs) : 0 ∉ bs.map MemBlock.addr := by
  intro hmem
  obtain ⟨b, hb, hzero⟩ := List.mem_map.1 hmem
  have := (h.sized b hb).pos
  omega

end Placed

/-! ### Reading headers -/

section Headers

variable {lay : BlockLayout} {m : Mem} {b c : MemBlock} {o o' v : ℕ}

lemma read32_lt (m : Mem) (o : ℕ) : read32 m o < 4294967296 := by
  have h := leNat_lt (load m o 4)
  rw [length_load] at h
  exact h

/-- A word of another block. -/
lemma read32_of_apart (hap : b.Apart c) (ho : o + 4 ≤ b.size) (ho' : o' + 4 ≤ c.size) :
    read32 (write32 m (c.addr + o') v) (b.addr + o) = read32 m (b.addr + o) := by
  apply read32_write32_of_disjoint
  rcases hap with h | h
  · exact .inl (by omega)
  · exact .inr (by omega)

/-- Another word of the same block. -/
lemma read32_of_ne (h : o + 4 ≤ o' ∨ o' + 4 ≤ o) (a : ℕ) :
    read32 (write32 m (a + o') v) (a + o) = read32 m (a + o) := by
  apply read32_write32_of_disjoint
  omega

end Headers

namespace InUse

/-- The headers link the blocks of a list, the newest first. -/
structure Tracks (t : InUse) (lay : BlockLayout) (bs : List MemBlock) : Prop where
  placed : Placed bs
  head : t.inUseList = (bs.map MemBlock.addr).headD 0
  chain : Chain 0 (fun a => read32 t.mem (a + lay.prevBlk))
    (fun a => read32 t.mem (a + lay.nextBlk)) 0 (bs.map MemBlock.addr)
  size_eq : ∀ b ∈ bs, read32 t.mem (b.addr + lay.allocSize) = b.size

variable {lay : BlockLayout} {t : InUse} {bs : List MemBlock}

/-- The memory may change wherever the links and the sizes of the blocks are not. -/
lemma Tracks.congr (h : t.Tracks lay bs) {t' : InUse} (hhead : t'.inUseList = t.inUseList)
    (hmem : ∀ b ∈ bs, ∀ o ∈ [lay.allocSize, lay.prevBlk, lay.nextBlk],
      read32 t'.mem (b.addr + o) = read32 t.mem (b.addr + o)) : t'.Tracks lay bs := by
  refine ⟨h.placed, hhead.trans h.head, h.chain.congr ?_ ?_, ?_⟩
  · intro a ha
    obtain ⟨b, hb, rfl⟩ := List.mem_map.1 ha
    exact hmem b hb _ (by simp)
  · intro a ha
    obtain ⟨b, hb, rfl⟩ := List.mem_map.1 ha
    exact hmem b hb _ (by simp)
  · intro b hb
    rw [hmem b hb _ (by simp), h.size_eq b hb]

/-- Following `prev_blk` from the head of the list visits the blocks. -/
lemma Tracks.follow_eq (h : t.Tracks lay bs) {n : ℕ} (hn : bs.length ≤ n) :
    follow 0 (fun a => read32 t.mem (a + lay.prevBlk)) n t.inUseList = bs.map MemBlock.addr := by
  rw [h.head]
  exact h.chain.follow_eq h.placed.zero_notMem (by rwa [List.length_map])

lemma Tracks.endSigAddr_eq (h : t.Tracks lay bs) {b : MemBlock} (hb : b ∈ bs) :
    endSigAddr lay t.mem b.addr = b.addr + b.size - 4 := by
  obtain ⟨hpos, hle, -, hlt⟩ := h.placed.sized b hb
  rw [endSigAddr, h.size_eq b hb]
  omega

/-- A link of one of the blocks, or of none, is changed. -/
lemma read32_patch (hlay : lay.Valid) {m : Mem} (hp : Placed bs) {y : MemBlock} (hy : y ∈ bs)
    {x o w v : ℕ} (hx : x = 0 ∨ ∃ d ∈ bs, x = d.addr) (ho : lay.Word y o) (hw : w ∈ lay.fields)
    (hv : v < 4294967296) :
    read32 (if x ≠ 0 then write32 m (x + w) v else m) (y.addr + o) =
      if y.addr = x ∧ o = w then v else read32 m (y.addr + o) := by
  rcases hx with rfl | ⟨d, hd, rfl⟩
  · have := (hp.sized y hy).pos
    rw [if_neg (by simp), if_neg (by omega)]
  have hds := hp.sized d hd
  rw [if_pos (by have := hds.pos; omega)]
  rcases hp.eq_or_apart hy hd with rfl | hap
  · rcases ho.apart w hw with rfl | hne
    · rw [read32_write32_self, if_pos ⟨rfl, rfl⟩, Nat.mod_eq_of_lt hv]
    · rw [read32_of_ne hne, if_neg (by omega)]
  · have hle := ho.le
    have hdle := hds.le
    have hwle := hlay.le w hw
    rw [read32_of_apart hap hle (by omega), if_neg]
    rintro ⟨haddr, -⟩
    simp only [MemBlock.Apart] at hap
    omega

/-! ### A new block -/

/-- The header of a new block, without the change of the block that was the newest. -/
def header (lay : BlockLayout) (t : InUse) (block size : ℕ) : Mem :=
  let m := write32 t.mem (block + lay.allocId) t.allocCnt
  let m := write32 m (block + lay.allocSize) size
  let m := write32 m (block + lay.prevBlk) t.inUseList
  let m := write32 m (block + lay.nextBlk) 0
  write32 m (block + lay.startSig) memStartSig

lemma mem_link (block size : ℕ) :
    (t.link lay block size).mem =
      write32 (if t.inUseList ≠ 0 then
          write32 (header lay t block size) (t.inUseList + lay.nextBlk) block
        else header lay t block size) (block + 4 * (size / 4 - 1)) memEndSig := rfl

lemma read32_header_of_apart (hlay : lay.Valid) {b c : MemBlock} (hap : b.Apart c)
    (hc : c.Sized) {o : ℕ} (ho : o + 4 ≤ b.size) :
    read32 (header lay t c.addr c.size) (b.addr + o) = read32 t.mem (b.addr + o) := by
  have hle := hc.le
  have hlay := hlay.le
  simp only [BlockLayout.fields, List.forall_mem_cons, List.not_mem_nil, false_imp_iff,
    implies_true] at hlay
  simp only [header]
  rw [read32_of_apart hap ho (by omega), read32_of_apart hap ho (by omega),
    read32_of_apart hap ho (by omega), read32_of_apart hap ho (by omega),
    read32_of_apart hap ho (by omega)]

/-- The head of the list is the newest block. -/
lemma Tracks.head_cases (h : t.Tracks lay bs) :
    (t.inUseList = 0 ∧ bs = []) ∨ ∃ d ∈ bs, t.inUseList = d.addr := by
  cases bs with
  | nil => exact .inl ⟨h.head, rfl⟩
  | cons d bs => exact .inr ⟨d, List.mem_cons_self, h.head⟩

lemma footer_eq {b : MemBlock} (hb : b.Sized) : 4 * (b.size / 4 - 1) = b.size - 4 := by
  obtain ⟨k, hk⟩ := hb.dvd
  have := hb.le
  omega

/-- The words of the older blocks, when a block has been put on the list: the newest of them has a
new `next_blk`. -/
lemma Tracks.read32_link (h : t.Tracks lay bs) (hlay : lay.Valid) {b c : MemBlock}
    (hc : Placed (c :: bs)) (hb : b ∈ bs) {o : ℕ} (ho : lay.Word b o) :
    read32 (t.link lay c.addr c.size).mem (b.addr + o) =
      if b.addr = t.inUseList ∧ o = lay.nextBlk then c.addr else read32 t.mem (b.addr + o) := by
  have hap : b.Apart c := Or.symm ((List.pairwise_cons.1 hc.apart).1 b hb)
  have hcs := hc.sized c List.mem_cons_self
  have hcle := hcs.le
  have hclt := hcs.lt
  have hhead : t.inUseList = 0 ∨ ∃ d ∈ bs, t.inUseList = d.addr := by
    rcases h.head_cases with ⟨hzero, -⟩ | hd
    · exact .inl hzero
    · exact .inr hd
  rw [mem_link, footer_eq hcs, read32_of_apart hap ho.le (by omega),
    read32_patch hlay h.placed hb hhead ho (by simp [BlockLayout.fields]) (by omega),
    read32_header_of_apart hlay hap hcs ho.le]

/-- The words of the new block. -/
lemma Tracks.read32_link_new (h : t.Tracks lay bs) (hlay : lay.Valid) {c : MemBlock}
    (hc : Placed (c :: bs)) {o : ℕ} (ho : o + 4 ≤ 20) :
    read32 (t.link lay c.addr c.size).mem (c.addr + o) =
      read32 (header lay t c.addr c.size) (c.addr + o) := by
  have hcs := hc.sized c List.mem_cons_self
  have hcle := hcs.le
  rw [mem_link, footer_eq hcs, read32_of_ne (by omega)]
  rcases h.head_cases with ⟨hzero, -⟩ | ⟨d, hd, hhead⟩
  · rw [if_neg (by simp [hzero])]
  · have hds := h.placed.sized d hd
    have hdle := hds.le
    have hnext := hlay.le lay.nextBlk (by simp [BlockLayout.fields])
    rw [if_pos (by have := hds.pos; omega), hhead,
      read32_of_apart ((List.pairwise_cons.1 hc.apart).1 d hd) (by omega) (by omega)]

/-- The end signature of a new block. -/
lemma read32_link_end {c : MemBlock} (hc : c.Sized) :
    read32 (t.link lay c.addr c.size).mem (c.addr + c.size - 4) = memEndSig := by
  have hle := hc.le
  rw [mem_link, footer_eq hc, show c.addr + c.size - 4 = c.addr + (c.size - 4) by omega,
    read32_write32_self, Nat.mod_eq_of_lt (by decide)]

/-- The header that is written for a new block. -/
lemma read32_header (hlay : lay.Valid) {c : MemBlock} (hc : c.Sized)
    (hhead : t.inUseList < 4294967296) :
    read32 (header lay t c.addr c.size) (c.addr + lay.allocSize) = c.size ∧
      read32 (header lay t c.addr c.size) (c.addr + lay.prevBlk) = t.inUseList ∧
      read32 (header lay t c.addr c.size) (c.addr + lay.nextBlk) = 0 ∧
      read32 (header lay t c.addr c.size) (c.addr + lay.startSig) = memStartSig := by
  have hap := hlay.apart
  simp only [BlockLayout.fields, List.pairwise_cons, List.forall_mem_cons, List.not_mem_nil,
    false_imp_iff, implies_true, List.Pairwise.nil, and_true] at hap
  have hlt := hc.lt
  have hpos := hc.pos
  simp only [header]
  refine ⟨?_, ?_, ?_, ?_⟩
  · rw [read32_of_ne (by omega), read32_of_ne (by omega), read32_of_ne (by omega),
      read32_write32_self, Nat.mod_eq_of_lt (by omega)]
  · rw [read32_of_ne (by omega), read32_of_ne (by omega), read32_write32_self,
      Nat.mod_eq_of_lt hhead]
  · rw [read32_of_ne (by omega), read32_write32_self]
  · rw [read32_write32_self, Nat.mod_eq_of_lt (by decide)]

lemma Tracks.head_lt (h : t.Tracks lay bs) : t.inUseList < 4294967296 := by
  rcases h.head_cases with ⟨hzero, -⟩ | ⟨d, hd, hhead⟩
  · omega
  · obtain ⟨-, hle, -, hlt⟩ := h.placed.sized d hd
    omega

/-- A new block is put on the list. -/
lemma Tracks.link (h : t.Tracks lay bs) (hlay : lay.Valid) {c : MemBlock}
    (hc : Placed (c :: bs)) : (t.link lay c.addr c.size).Tracks lay (c :: bs) := by
  have hle := hlay.le
  have hap := hlay.apart
  simp only [BlockLayout.fields, List.pairwise_cons, List.forall_mem_cons, List.not_mem_nil,
    false_imp_iff, implies_true, List.Pairwise.nil, and_true] at hle hap
  obtain ⟨hsize, hprev, hnext, -⟩ :=
    read32_header hlay (hc.sized c List.mem_cons_self) h.head_lt
  have hword : ∀ b ∈ bs, ∀ o ∈ lay.fields, lay.Word b o := fun b hb o ho =>
    hlay.word (h.placed.sized b hb) ho
  refine ⟨hc, rfl, ?_, ?_⟩
  · refine h.chain.push h.placed.nodup ?_ ?_ ?_ ?_
    · intro a ha
      obtain ⟨b, hb, rfl⟩ := List.mem_map.1 ha
      rw [h.read32_link hlay hc hb (hword b hb _ (by simp [BlockLayout.fields])), if_neg (by omega)]
    · intro a ha
      obtain ⟨b, hb, rfl⟩ := List.mem_map.1 ha
      rw [h.read32_link hlay hc hb (hword b hb _ (by simp [BlockLayout.fields])), h.head]
      simp only [and_true]
    · rw [h.read32_link_new hlay hc (by omega), hprev, h.head]
    · rw [h.read32_link_new hlay hc (by omega), hnext]
  · rintro b (_ | ⟨_, hb⟩)
    · rw [h.read32_link_new hlay hc (by omega), hsize]
    · rw [h.read32_link hlay hc hb (hword b hb _ (by simp [BlockLayout.fields])),
        if_neg (by omega), h.size_eq b hb]

/-! ### A block is freed -/

/-- The block above a block is linked to the one below it. -/
def bypassNext (lay : BlockLayout) (m : Mem) (block : ℕ) : Mem :=
  if read32 m (block + lay.nextBlk) ≠ 0 then
    write32 m (read32 m (block + lay.nextBlk) + lay.prevBlk) (read32 m (block + lay.prevBlk))
  else m

/-- The block below a block is linked to the one above it. -/
def bypassPrev (lay : BlockLayout) (m : Mem) (block : ℕ) : Mem :=
  if read32 m (block + lay.prevBlk) ≠ 0 then
    write32 m (read32 m (block + lay.prevBlk) + lay.nextBlk) (read32 m (block + lay.nextBlk))
  else m

lemma mem_report (ptr : ℕ) : (t.report ptr).mem = t.mem := by
  rw [report]
  split_ifs <;> rfl

lemma inUseList_report (ptr : ℕ) : (t.report ptr).inUseList = t.inUseList := by
  rw [report]
  split_ifs <;> rfl

lemma mem_unlink (block : ℕ) :
    (t.unlink lay block).mem = bypassPrev lay (bypassNext lay t.mem block) block := by
  have hmem : (if signed lay t.mem block then t else t.report (block + memBlockInfoSize)).mem =
      t.mem := by
    split_ifs
    · rfl
    · exact mem_report _
  simp only [unlink, hmem]
  rfl

lemma inUseList_unlink (block : ℕ) :
    (t.unlink lay block).inUseList =
      if t.inUseList = block then read32 (t.unlink lay block).mem (block + lay.prevBlk)
      else t.inUseList := by
  have hlist : (if signed lay t.mem block then t
      else t.report (block + memBlockInfoSize)).inUseList = t.inUseList := by
    split_ifs
    · rfl
    · exact inUseList_report _
  simp only [unlink, hlist]

lemma unlink_counts (t : InUse) (lay : BlockLayout) (block : ℕ) :
    (t.unlink lay block).enableChecks = t.enableChecks ∧
      (t.unlink lay block).allocCnt = t.allocCnt ∧
      (t.unlink lay block).freeCnt = (t.freeCnt + 1) % 4294967296 ∧
      (t.unlink lay block).reported = if signed lay t.mem block then t.reported
        else (t.report (block + memBlockInfoSize)).reported := by
  simp only [unlink, report]
  split_ifs <;> exact ⟨rfl, rfl, rfl, rfl⟩

section Unlink

variable {as cs : List MemBlock} {b : MemBlock}

/-- What a block in the list is linked to. -/
lemma Tracks.neighbours (h : t.Tracks lay (as ++ b :: cs)) :
    (read32 t.mem (b.addr + lay.nextBlk) = 0 ∧ as = [] ∨
      ∃ d ∈ as, read32 t.mem (b.addr + lay.nextBlk) = d.addr) ∧
    read32 t.mem (b.addr + lay.prevBlk) = (cs.map MemBlock.addr).headD 0 := by
  have hch := h.chain
  rw [List.map_append, List.map_cons] at hch
  refine ⟨?_, hch.prev_eq⟩
  rcases hch.next_mem_or with hmem | ⟨hnil, heq⟩
  · obtain ⟨d, hd, heq⟩ := List.mem_map.1 hmem
    exact .inr ⟨d, hd, heq.symm⟩
  · exact .inl ⟨heq, List.map_eq_nil_iff.1 hnil⟩

lemma headD_addr_cases (cs : List MemBlock) :
    (cs.map MemBlock.addr).headD 0 = 0 ∨ ∃ d ∈ cs, (cs.map MemBlock.addr).headD 0 = d.addr := by
  cases cs with
  | nil => exact .inl rfl
  | cons c cs => exact .inr ⟨c, List.mem_cons_self, rfl⟩

/-- A block is not one of its neighbours. -/
lemma Tracks.addr_ne (h : t.Tracks lay (as ++ b :: cs)) {d : MemBlock} (hd : d ∈ as ++ cs) :
    b.addr ≠ d.addr := by
  have hnd := h.placed.nodup
  rw [List.map_append, List.map_cons, List.nodup_middle, List.nodup_cons] at hnd
  intro heq
  apply hnd.1
  rw [← List.map_append, heq]
  exact List.mem_map_of_mem hd

/-- The words of the headers when a block has been taken out of the list. -/
lemma Tracks.read32_unlink (h : t.Tracks lay (as ++ b :: cs)) (hlay : lay.Valid) {y : MemBlock}
    (hy : y ∈ as ++ b :: cs) {o : ℕ} (ho : lay.Word y o) :
    read32 (t.unlink lay b.addr).mem (y.addr + o) =
      if y.addr = read32 t.mem (b.addr + lay.prevBlk) ∧ o = lay.nextBlk then
        read32 t.mem (b.addr + lay.nextBlk)
      else if y.addr = read32 t.mem (b.addr + lay.nextBlk) ∧ o = lay.prevBlk then
        read32 t.mem (b.addr + lay.prevBlk)
      else read32 t.mem (y.addr + o) := by
  obtain ⟨hnext, hprev⟩ := h.neighbours
  have hb : b ∈ as ++ b :: cs := by simp
  have hpos := (h.placed.sized b hb).pos
  have hprevF : lay.prevBlk ∈ lay.fields := by simp [BlockLayout.fields]
  have hnextF : lay.nextBlk ∈ lay.fields := by simp [BlockLayout.fields]
  -- the neighbours are other blocks of the list
  have hn : read32 t.mem (b.addr + lay.nextBlk) = 0 ∨
      ∃ d ∈ as ++ b :: cs, read32 t.mem (b.addr + lay.nextBlk) = d.addr := by
    rcases hnext with ⟨hzero, -⟩ | ⟨d, hd, heq⟩
    · exact .inl hzero
    · exact .inr ⟨d, List.mem_append_left _ hd, heq⟩
  have hp : read32 t.mem (b.addr + lay.prevBlk) = 0 ∨
      ∃ d ∈ as ++ b :: cs, read32 t.mem (b.addr + lay.prevBlk) = d.addr := by
    rw [hprev]
    rcases headD_addr_cases cs with hzero | ⟨d, hd, heq⟩
    · exact .inl hzero
    · exact .inr ⟨d, List.mem_append_right _ (List.mem_cons_of_mem b hd), heq⟩
  have hbn : b.addr ≠ read32 t.mem (b.addr + lay.nextBlk) := by
    rcases hnext with ⟨hzero, -⟩ | ⟨d, hd, heq⟩
    · omega
    · rw [heq]
      exact h.addr_ne (List.mem_append_left cs hd)
  have hfirst : ∀ y ∈ as ++ b :: cs, ∀ o, lay.Word y o →
      read32 (bypassNext lay t.mem b.addr) (y.addr + o) =
        if y.addr = read32 t.mem (b.addr + lay.nextBlk) ∧ o = lay.prevBlk then
          read32 t.mem (b.addr + lay.prevBlk)
        else read32 t.mem (y.addr + o) := fun y hy o ho =>
    read32_patch hlay h.placed hy hn ho hprevF (read32_lt _ _)
  have hbprev := hfirst b hb _ (hlay.word (h.placed.sized b hb) hprevF)
  have hbnext := hfirst b hb _ (hlay.word (h.placed.sized b hb) hnextF)
  rw [if_neg (fun hc => hbn hc.1)] at hbprev hbnext
  rw [mem_unlink, bypassPrev, hbprev, hbnext,
    read32_patch hlay h.placed hy hp ho hnextF (read32_lt _ _), hfirst y hy o ho]

/-- A block is taken out of the list, wherever in the list it is. -/
lemma Tracks.unlink (h : t.Tracks lay (as ++ b :: cs)) (hlay : lay.Valid) :
    (t.unlink lay b.addr).Tracks lay (as ++ cs) := by
  have hb : b ∈ as ++ b :: cs := by simp
  have hsub : (as ++ cs).Sublist (as ++ b :: cs) := (List.sublist_cons_self b cs).append_left as
  have hprevF : lay.prevBlk ∈ lay.fields := by simp [BlockLayout.fields]
  have hnextF : lay.nextBlk ∈ lay.fields := by simp [BlockLayout.fields]
  have hsizeF : lay.allocSize ∈ lay.fields := by simp [BlockLayout.fields]
  have hword : ∀ y ∈ as ++ cs, ∀ {o}, o ∈ lay.fields → lay.Word y o := fun y hy _ ho =>
    hlay.word (h.placed.sized y (hsub.subset hy)) ho
  have hne := hlay.apart
  simp only [BlockLayout.fields, List.pairwise_cons, List.forall_mem_cons, List.not_mem_nil,
    false_imp_iff, implies_true, List.Pairwise.nil, and_true] at hne
  have hmap : (as ++ b :: cs).map MemBlock.addr =
      as.map MemBlock.addr ++ b.addr :: cs.map MemBlock.addr := by simp
  refine ⟨⟨fun c hc => h.placed.sized c (hsub.subset hc), h.placed.apart.sublist hsub⟩, ?_, ?_, ?_⟩
  · -- the head moves on if the block was the newest one
    rw [inUseList_unlink]
    cases as with
    | nil =>
      have hhead : t.inUseList = b.addr := h.head
      rw [if_pos hhead, h.read32_unlink hlay hb (hlay.word (h.placed.sized b hb) hprevF),
        if_neg (by omega), h.neighbours.2]
      split_ifs <;> rfl
    | cons a as =>
      have hhead : t.inUseList = a.addr := h.head
      rw [if_neg (fun heq => h.addr_ne (by simp) (heq.symm.trans hhead)), hhead]
      rfl
  · rw [List.map_append]
    have hch := h.chain
    have hnd := h.placed.nodup
    have hzero := h.placed.zero_notMem
    rw [hmap] at hch hnd hzero
    refine hch.remove hnd hzero hzero ?_ ?_
    · intro a ha
      rw [← List.map_append] at ha
      obtain ⟨y, hy, rfl⟩ := List.mem_map.1 ha
      rw [h.read32_unlink hlay (hsub.subset hy) (hword y hy hprevF), if_neg (by omega)]
      simp only [and_true]
    · intro a ha
      rw [← List.map_append] at ha
      obtain ⟨y, hy, rfl⟩ := List.mem_map.1 ha
      rw [h.read32_unlink hlay (hsub.subset hy) (hword y hy hnextF)]
      simp only [and_true]
      split_ifs <;> first | rfl | omega
  · intro c hc
    rw [h.read32_unlink hlay (hsub.subset hc) (hword c hc hsizeF), if_neg (by omega),
      if_neg (by omega), h.size_eq c (hsub.subset hc)]

end Unlink

/-! ### Signatures and the corruption check -/

lemma Tracks.signed_eq (h : t.Tracks lay bs) {b : MemBlock} (hb : b ∈ bs) :
    signed lay t.mem b.addr = true ↔ read32 t.mem (b.addr + lay.startSig) = memStartSig ∧
      read32 t.mem (b.addr + (b.size - 4)) = memEndSig := by
  have hle := (h.placed.sized b hb).le
  rw [signed, decide_eq_true_iff, h.endSigAddr_eq hb,
    show b.addr + b.size - 4 = b.addr + (b.size - 4) by omega]

/-- A new block is signed. -/
lemma Tracks.signed_link_new (h : t.Tracks lay bs) (hlay : lay.Valid) {c : MemBlock}
    (hc : Placed (c :: bs)) : signed lay (t.link lay c.addr c.size).mem c.addr = true := by
  have hcs := hc.sized c List.mem_cons_self
  have hle := hcs.le
  rw [(h.link hlay hc).signed_eq List.mem_cons_self,
    h.read32_link_new hlay hc (hlay.le _ (by simp [BlockLayout.fields])),
    ← Nat.add_sub_assoc (by omega), read32_link_end hcs]
  exact ⟨(read32_header hlay hcs h.head_lt).2.2.2, rfl⟩

/-- The signatures of the other blocks do not change when a block is put on the list. -/
lemma Tracks.signed_link (h : t.Tracks lay bs) (hlay : lay.Valid) {b c : MemBlock}
    (hc : Placed (c :: bs)) (hb : b ∈ bs) :
    signed lay (t.link lay c.addr c.size).mem b.addr = signed lay t.mem b.addr := by
  have hbs := h.placed.sized b hb
  have hle := hbs.le
  have hnext := hlay.le lay.nextBlk (by simp [BlockLayout.fields])
  have hap := hlay.apart
  simp only [BlockLayout.fields, List.pairwise_cons, List.forall_mem_cons, List.not_mem_nil,
    false_imp_iff, implies_true, List.Pairwise.nil, and_true] at hap
  rw [Bool.eq_iff_iff, (h.link hlay hc).signed_eq (List.mem_cons_of_mem c hb), h.signed_eq hb,
    h.read32_link hlay hc hb (hlay.word hbs (by simp [BlockLayout.fields])),
    h.read32_link hlay hc hb (hlay.word_end hbs), if_neg (by omega), if_neg (by omega)]

/-- Nor when a block is taken out of it. -/
lemma Tracks.signed_unlink {as cs : List MemBlock} {b y : MemBlock}
    (h : t.Tracks lay (as ++ b :: cs)) (hlay : lay.Valid) (hy : y ∈ as ++ cs) :
    signed lay (t.unlink lay b.addr).mem y.addr = signed lay t.mem y.addr := by
  have hy' : y ∈ as ++ b :: cs := ((List.sublist_cons_self b cs).append_left as).subset hy
  have hys := h.placed.sized y hy'
  have hle := hys.le
  have hnext := hlay.le lay.nextBlk (by simp [BlockLayout.fields])
  have hprev := hlay.le lay.prevBlk (by simp [BlockLayout.fields])
  have hap := hlay.apart
  simp only [BlockLayout.fields, List.pairwise_cons, List.forall_mem_cons, List.not_mem_nil,
    false_imp_iff, implies_true, List.Pairwise.nil, and_true] at hap
  rw [Bool.eq_iff_iff, (h.unlink hlay).signed_eq hy, h.signed_eq hy',
    h.read32_unlink hlay hy' (hlay.word hys (by simp [BlockLayout.fields])),
    h.read32_unlink hlay hy' (hlay.word_end hys), if_neg (by omega), if_neg (by omega),
    if_neg (by omega), if_neg (by omega)]

/-- What a corruption check says of a list of blocks: the newest block without its signatures is
reported. -/
def verdict (t : InUse) (lay : BlockLayout) (bs : List MemBlock) : Bool × InUse :=
  match bs.find? fun b => !signed lay t.mem b.addr with
  | none => (true, t)
  | some b => (false, t.report (b.addr + memBlockInfoSize))

/-- The corruption check follows a list of linked blocks, up to one without its signatures. -/
lemma iterate_corruptionStep {prev next : ℕ → ℕ} {up lo hi n : ℕ}
    (hprev : prev = fun a => read32 t.mem (a + lay.prevBlk))
    (hch : Chain 0 prev next up (bs.map MemBlock.addr)) (hzero : 0 ∉ bs.map MemBlock.addr)
    (hin : ∀ b ∈ bs, lo ≤ b.addr ∧ b.addr < hi) (hn : bs.length < n) :
    iterate (t.corruptionStep lay lo hi) n ((bs.map MemBlock.addr).headD 0) =
      some (t.verdict lay bs) := by
  induction bs generalizing up n with
  | nil =>
    cases n with
    | zero => omega
    | succ n => exact iterate_of_inr rfl n
  | cons b bs ih =>
    obtain ⟨-, hb, hch⟩ := hch
    rw [List.map_cons, List.mem_cons, not_or] at hzero
    obtain ⟨hlo, hhi⟩ := hin b List.mem_cons_self
    cases n with
    | zero => omega
    | succ n =>
      rw [List.map_cons, List.headD_cons]
      cases hs : signed lay t.mem b.addr with
      | false =>
        have hstep : t.corruptionStep lay lo hi b.addr =
            .inr (false, t.report (b.addr + memBlockInfoSize)) := by
          rw [corruptionStep, if_neg (Ne.symm hzero.1), if_neg (by omega), hs]
          rfl
        rw [iterate_of_inr hstep, verdict, List.find?_cons_of_pos (by simp [hs])]
      | true =>
        have hstep : t.corruptionStep lay lo hi b.addr =
            .inl ((bs.map MemBlock.addr).headD 0) := by
          rw [corruptionStep, if_neg (Ne.symm hzero.1), if_neg (by omega), hs, ← hb, hprev]
          rfl
        rw [iterate_of_inl hstep, ih hch hzero.2 (fun c hc => hin c (List.mem_cons_of_mem b hc))
          (Nat.lt_of_succ_lt_succ hn), verdict, verdict, List.find?_cons_of_neg (by simp [hs])]

/-- The two ways a check can go. -/
lemma verdict_cases (t : InUse) (lay : BlockLayout) (bs : List MemBlock) :
    ((∀ b ∈ bs, signed lay t.mem b.addr = true) ∧ t.verdict lay bs = (true, t)) ∨
    ∃ as b cs, bs = as ++ b :: cs ∧ (∀ c ∈ as, signed lay t.mem c.addr = true) ∧
      signed lay t.mem b.addr = false ∧
      t.verdict lay bs = (false, t.report (b.addr + memBlockInfoSize)) := by
  cases hfind : bs.find? fun b => !signed lay t.mem b.addr with
  | none =>
    refine .inl ⟨fun b hb => ?_, by rw [verdict, hfind]⟩
    simpa using List.find?_eq_none.1 hfind b hb
  | some b =>
    obtain ⟨hb, as, cs, heq, has⟩ := List.find?_eq_some_iff_append.1 hfind
    exact .inr ⟨as, b, cs, heq, fun c hc => by simpa using has c hc, by simpa using hb,
      by rw [verdict, hfind]⟩

lemma Tracks.corruption_check (h : t.Tracks lay bs) {lo hi n : ℕ}
    (hin : ∀ b ∈ bs, lo ≤ b.addr ∧ b.addr < hi) (hn : bs.length < n) :
    iterate (t.corruptionStep lay lo hi) n t.inUseList = some (t.verdict lay bs) := by
  rw [h.head]
  exact iterate_corruptionStep rfl h.chain h.placed.zero_notMem hin hn

/-! ### Writes of the owners -/

/-- Bytes are written somewhere in the memory. -/
def poke (t : InUse) (o : ℕ) (bytes : List UInt8) : InUse := { t with mem := store t.mem o bytes }

/-- A write that does not touch the link and size fields keeps the list. -/
lemma Tracks.poke (h : t.Tracks lay bs) {o : ℕ} {bytes : List UInt8}
    (hout : ∀ b ∈ bs, ∀ f ∈ [lay.allocSize, lay.prevBlk, lay.nextBlk],
      b.addr + f + 4 ≤ o ∨ o + bytes.length ≤ b.addr + f) : (t.poke o bytes).Tracks lay bs :=
  h.congr rfl fun b hb f hf => read32_store_of_disjoint t.mem (hout b hb f hf)

/-- A write inside the payload of a block, or outside all blocks, touches no header and no
signature. -/
lemma Tracks.signed_poke (h : t.Tracks lay bs) (hlay : lay.Valid) {o : ℕ} {bytes : List UInt8}
    (hout : ∀ b ∈ bs, (b.addr + 20 ≤ o ∨ o + bytes.length ≤ b.addr) ∧
      (b.addr + b.size ≤ o ∨ o + bytes.length ≤ b.addr + (b.size - 4))) {b : MemBlock}
    (hb : b ∈ bs) : signed lay (t.poke o bytes).mem b.addr = signed lay t.mem b.addr := by
  have hfield : ∀ b ∈ bs, ∀ f ∈ lay.fields,
      b.addr + f + 4 ≤ o ∨ o + bytes.length ≤ b.addr + f := by
    intro b hb f hf
    have := hlay.le f hf
    have := (hout b hb).1
    omega
  have htr : (t.poke o bytes).Tracks lay bs := by
    refine h.poke fun b hb f hf => hfield b hb f ?_
    simp only [BlockLayout.fields, List.mem_cons, List.not_mem_nil, or_false] at hf ⊢
    tauto
  have hle := (h.placed.sized b hb).le
  have hend := (hout b hb).2
  rw [Bool.eq_iff_iff, htr.signed_eq hb, h.signed_eq hb]
  simp only [InUse.poke]
  rw [read32_store_of_disjoint t.mem (hfield b hb _ (by simp [BlockLayout.fields])),
    read32_store_of_disjoint t.mem (by omega)]

end InUse

end Fx3Ncm
