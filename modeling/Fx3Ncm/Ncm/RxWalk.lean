/-
# Walking the datagram table of a received NTB

Repeated calls of `rx_update_user_ntb` while the user has an NTB.  If the table of the NTB
lists the datagrams `ds`, the calls offer these datagrams, one at a time, until the last is
accepted; this is the decoder, and it agrees with the encoder of the transmit side.  For an
NTB with arbitrary contents, all accesses stay inside the bytes received exactly if the table
and the datagrams it describes do.
-/
import Fx3Ncm.Lib.Offers
import Fx3Ncm.Ncm.RxOwnership
import Fx3Ncm.Ncm.TxStream

namespace Fx3Ncm

open ByteMemory Runs Offers

/-- Repeated calls of `rx_update_user_ntb`. -/
def updates (w : World) (envs : List Env) : World :=
  envs.foldl (fun w env => (rxUpdateUserNtb env w).2) w

@[simp] lemma updates_nil (w : World) : updates w [] = w := rfl

@[simp] lemma updates_cons (w : World) (env : Env) (envs : List Env) :
    updates w (env :: envs) = updates (rxUpdateUserNtb env w).2 envs := rfl

lemma updates_append_singleton (w : World) (envs : List Env) (env : Env) :
    updates w (envs ++ [env]) = (rxUpdateUserNtb env (updates w envs)).2 := by
  simp [updates]

/-- The datagrams offered to `net_rx_cb`, with its answers. -/
def offers (log : List Call) : List (List UInt8 × Bool) :=
  log.filterMap fun
    | .netRxCb _ _ _ datagram ok => some (datagram, ok)
    | _ => none

/-- The NTBs that `push_ntb` was called with for `rx_free_ntb`. -/
def freePushes (log : List Call) : List (Option NtbPtr) :=
  log.filterMap fun
    | .pushNtb .rxFree ntb _ => some ntb
    | _ => none

lemma offers_append (l l' : List Call) : offers (l ++ l') = offers l ++ offers l' :=
  List.filterMap_append

lemma freePushes_append (l l' : List Call) : freePushes (l ++ l') = freePushes l ++ freePushes l' :=
  List.filterMap_append

@[simp] lemma offers_walkCalls (i : NtbPtr) (m : Mem) (j : ℕ) (ok pushed : Bool) :
    offers (walkCalls i m j ok pushed) = [(entryDatagram m j, ok)] := by
  rw [walkCalls, offers_append]
  split_ifs <;> rfl

@[simp] lemma freePushes_walkCalls (i : NtbPtr) (m : Mem) (j : ℕ) (ok pushed : Bool) :
    freePushes (walkCalls i m j ok pushed) =
      if ok = true ∧ ¬ EntryUsed m (j + 1) then [some i] else [] := by
  rw [walkCalls, freePushes_append]
  by_cases hok : ok = true
  · by_cases hused : EntryUsed m (j + 1)
    · rw [if_pos hok, if_pos hused, if_neg fun h => h.2 hused]
      rfl
    · rw [if_pos hok, if_neg hused, if_pos ⟨hok, hused⟩]
      rfl
  · rw [if_neg hok, if_neg fun h => hok h.1]
    rfl

lemma ndpEntry_mem_walkCalls {i i' : NtbPtr} {m : Mem} {j offset : ℕ} {ok pushed : Bool}
    (h : .ndpEntry i' offset ∈ walkCalls i m j ok pushed) :
    offset = ndp16DatagramOffset m + 4 * j ∨ offset = ndp16DatagramOffset m + 4 * (j + 1) := by
  rw [walkCalls, List.mem_append] at h
  rcases h with h | h
  · left
    simp only [offerCalls, List.mem_cons, List.not_mem_nil, or_false] at h
    rcases h with h | h <;> cases h
    rfl
  · right
    split_ifs at h
    · rw [List.mem_singleton] at h
      cases h
      rfl
    · simp only [List.mem_cons, List.not_mem_nil, or_false] at h
      rcases h with h | h <;> cases h
      rfl
    · exact absurd h List.not_mem_nil

/-! ### A table that lists datagrams -/

/-- The table of the block `m` lists exactly the datagrams `ds`. -/
structure Lists (m : Mem) (ds : List (List UInt8)) : Prop where
  used : ∀ j < ds.length, EntryUsed m j
  ends : ¬ EntryUsed m ds.length
  datagram : ∀ j (_ : j < ds.length), entryDatagram m j = ds[j]
  short : ds.length < 2 ^ 16

namespace Lists

variable {m : Mem} {ds : List (List UInt8)} {j : ℕ}

lemma entryUsed_succ_iff (h : Lists m ds) (hj : j < ds.length) :
    EntryUsed m (j + 1) ↔ j + 1 < ds.length := by
  constructor
  · intro hused
    by_contra hge
    have hend : j + 1 = ds.length := by omega
    rw [hend] at hused
    exact h.ends hused
  · intro hlt
    exact h.used (j + 1) hlt

/-- The cursor moves to the next datagram when one is accepted, except after the last. -/
lemma cursorStep_eq (h : Lists m ds) (hj : j < ds.length) (ok : Bool) :
    cursorStep m j ok = if ok = true ∧ j + 1 < ds.length then j + 1 else j := by
  have hshort := h.short
  simp only [cursorStep, h.entryUsed_succ_iff hj]
  split_ifs
  · omega
  · rfl

end Lists

lemma Encodes.lists {m : Mem} {seq : ℕ} {ds : List (List UInt8)} (h : Encodes m seq ds)
    (hne : ∀ d ∈ ds, d ≠ []) : Lists m ds where
  used _ hj := h.entryUsed hne hj
  ends := h.not_entryUsed
  datagram _ hj := h.entryDatagram_eq hj
  short := lt_of_le_of_lt h.count_le (by decide)

/-- The bytes behind an NTB do not matter. -/
lemma Encodes.congr {m m' : Mem} {seq : ℕ} {ds : List (List UInt8)} (h : Encodes m seq ds)
    (heq : ∀ p < ncmNtbMaxSize, m' p = m p) : Encodes m' seq ds := by
  have h16 : ∀ o, o + 2 ≤ 3200 → read16 m' o = read16 m o :=
    fun o ho => read16_congr fun p _ hp => heq p (by simp only [ncmNtbMaxSize]; omega)
  have h32 : ∀ o, o + 4 ≤ 3200 → read32 m' o = read32 m o := by
    intro o ho
    rw [read32, read32, load_congr fun p _ hp => heq p (by simp only [ncmNtbMaxSize]; omega)]
  have hentry : ∀ j ≤ 8,
      wDatagramIndex m' ndpDatagramOffset j = wDatagramIndex m ndpDatagramOffset j ∧
      wDatagramLength m' ndpDatagramOffset j = wDatagramLength m ndpDatagramOffset j :=
    fun j hj => ⟨h16 _ (by simp; omega), h16 _ (by simp; omega)⟩
  have hcount : ds.length ≤ 8 := h.count_le
  refine
    { signature := (h32 _ (by omega)).trans h.signature
      headerLength := (h16 _ (by omega)).trans h.headerLength
      sequence := (h16 _ (by omega)).trans h.sequence
      block := (h16 _ (by omega)).trans h.block
      ndpIndex := (h16 _ (by omega)).trans h.ndpIndex
      ndpSignature := (h32 _ (by omega)).trans h.ndpSignature
      ndpLength := (h16 _ (by omega)).trans h.ndpLength
      nextNdpIndex := (h16 _ (by omega)).trans h.nextNdpIndex
      index := fun j hj => (hentry j (by omega)).1.trans (h.index j hj)
      length := fun j hj => (hentry j (by omega)).2.trans (h.length j hj)
      data := ?_
      terminated := ?_
      count_le := h.count_le
      fits := h.fits }
  · intro j hj
    have hle := blockLength_take_add_le hj hj
    have hfits : blockLength ds ≤ 3200 := h.fits
    rw [List.take_length] at hle
    refine Eq.trans ?_ (h.data j hj)
    exact load_congr fun p _ hp => heq p (by simp only [ncmNtbMaxSize]; omega)
  · intro j hge hle
    obtain ⟨hi, hl⟩ := hentry j hle
    rw [hi, hl]
    exact h.terminated j hge hle

/-- One call of `rx_update_user_ntb` offers the datagram at the cursor, and pushes the NTB to the
free list if that was the last one and it is accepted. -/
lemma Reading.update_lists {w : World} {i : NtbPtr} {m : Mem} {j : ℕ} {ds : List (List UInt8)}
    (h : Reading w i m j) (hl : Lists m ds) (hj : j < ds.length) (env : Env) :
    ∃ cs, (rxUpdateUserNtb env w).2.log = w.log ++ cs ∧
      offers cs = [(ds[j], env.netRxCb)] ∧
      (freePushes cs = if env.netRxCb = true ∧ j + 1 = ds.length then [some i] else []) ∧
      ∀ i' offset, .ndpEntry i' offset ∈ cs →
        offset + 4 ≤ ndp16DatagramOffset m + 4 * (ds.length + 1) := by
  obtain ⟨-, hlog, -⟩ := h.update env
  refine ⟨_, hlog, ?_, ?_, ?_⟩
  · rw [offers_walkCalls, hl.datagram j hj]
  · have hiff : ¬ EntryUsed m (j + 1) ↔ j + 1 = ds.length := by
      rw [hl.entryUsed_succ_iff hj]
      omega
    simp only [freePushes_walkCalls, hiff]
  · intro i' offset hmem
    rcases ndpEntry_mem_walkCalls hmem with rfl | rfl <;> omega

/-- As long as fewer datagrams are accepted than there are, the calls of `rx_update_user_ntb`
offer the datagrams in order, and the cursor counts those accepted. -/
lemma Reading.updates_lists {w : World} {i : NtbPtr} {m : Mem} {ds : List (List UInt8)}
    (h : Reading w i m 0) (hl : Lists m ds) (envs : List Env)
    (hfew : envs.countP (·.netRxCb) < ds.length) :
    Reading (updates w envs) i m (envs.countP (·.netRxCb)) ∧
      ∃ cs, (updates w envs).log = w.log ++ cs ∧
      (offers cs).map Prod.snd = envs.map (·.netRxCb) ∧
      Follows ds (offers cs) ∧ (accepted (offers cs)).length = envs.countP (·.netRxCb) ∧
      freePushes cs = [] ∧
      ∀ i' offset, .ndpEntry i' offset ∈ cs →
        offset + 4 ≤ ndp16DatagramOffset m + 4 * (ds.length + 1) := by
  induction envs using List.reverseRecOn with
  | nil => exact ⟨h, [], by simp, rfl, by simp [offers], by simp [offers], rfl, by simp⟩
  | append_singleton envs env ih =>
    have hcount : (envs ++ [env]).countP (·.netRxCb) =
        envs.countP (·.netRxCb) + if env.netRxCb = true then 1 else 0 := by
      rw [List.countP_append, List.countP_singleton]
    rw [hcount] at hfew ⊢
    obtain ⟨hread, cs, hlog, hanswers, hfollows, hacc, hpush, hentry⟩ := ih (by omega)
    set j := envs.countP (·.netRxCb) with hj
    have hjlt : j < ds.length := by omega
    obtain ⟨cs', hlog', hoffers', hpush', hentry'⟩ := hread.update_lists hl hjlt env
    have hcursor := hread.update_reading env
    rw [hl.cursorStep_eq hjlt] at hcursor
    rw [updates_append_singleton]
    refine ⟨?_, cs ++ cs', ?_, ?_, ?_, ?_, ?_, ?_⟩
    · cases hok : env.netRxCb with
      | false => simpa [hok] using hcursor
      | true =>
        rw [hok, if_pos rfl] at hfew
        rw [hok, if_pos ⟨rfl, hfew⟩] at hcursor
        exact hcursor
    · rw [hlog', hlog, List.append_assoc]
    · rw [offers_append, hoffers', List.map_append, hanswers, List.map_append]
      rfl
    · rw [offers_append, hoffers']
      exact hfollows.append_due hacc hjlt env.netRxCb
    · rw [offers_append, hoffers', accepted_append, List.length_append, hacc]
      cases env.netRxCb <;> rfl
    · rw [freePushes_append, hpush, hpush', if_neg]
      · rfl
      · rintro ⟨hok, hlast⟩
        rw [if_pos hok] at hfew
        omega
    · intro i' offset hmem
      rcases List.mem_append.1 hmem with hmem | hmem
      · exact hentry i' offset hmem
      · exact hentry' i' offset hmem

/-! ### Decoding what was encoded -/

/-- Let the bytes of an NTB that `net_can_tx` and `net_tx` have filled be installed as the NTB the
user reads.  Then, whatever is refused in between, the datagrams are offered in order, all
table accesses stay in the header area, and the NTB is pushed to the free list exactly when
the last datagram is accepted. -/
theorem decode_encode {w v : World} {i r : NtbPtr} {envs : List Env} {env : Env}
    (hw : Reached StreamProtocol w) (huser : v.rx.rxUserNtb = some r)
    (hindex : v.rx.rxUserNtbDatagramIndex = 0)
    (hbytes : ∀ p < ncmNtbMaxSize, v.rx.rxNtb r p = w.tx.txNtb i p)
    (hfew : envs.countP (·.netRxCb) < (datagramsIn i w.log).length) :
    ∃ cs, (updates v (envs ++ [env])).log = v.log ++ cs ∧
      (offers cs).map Prod.snd = (envs ++ [env]).map (·.netRxCb) ∧
      Follows (datagramsIn i w.log) (offers cs) ∧
      (∀ i' offset, .ndpEntry i' offset ∈ cs → offset + sizeofNdp16Datagram ≤ sizeofNtbHeader) ∧
      freePushes cs =
        if env.netRxCb = true ∧ envs.countP (·.netRxCb) + 1 = (datagramsIn i w.log).length
        then [some r] else [] := by
  obtain ⟨p, hs, hc, -, hne⟩ := TxInv.of_reached txStable_noneEmpty hw
  have hopened : i < p.opened := by
    by_contra hge
    rw [hc.unopened i (by omega)] at hfew
    simp at hfew
  have henc := (hc.encodes i hopened).congr hbytes
  have hl := henc.lists (hne i)
  have htable : ndp16DatagramOffset (v.rx.rxNtb r) = 20 := henc.ndp16DatagramOffset_eq
  have hcount : (datagramsIn i w.log).length ≤ 8 := henc.count_le
  have hread : Reading v r (v.rx.rxNtb r) 0 := ⟨huser, rfl, hindex⟩
  obtain ⟨hread', cs, hlog, hanswers, hfollows, hacc, hpush, hentry⟩ :=
    hread.updates_lists hl envs hfew
  obtain ⟨cs', hlog', hoffers', hpush', hentry'⟩ := hread'.update_lists hl hfew env
  refine ⟨cs ++ cs', ?_, ?_, ?_, ?_, ?_⟩
  · rw [updates_append_singleton, hlog', hlog, List.append_assoc]
  · rw [offers_append, hoffers', List.map_append, hanswers, List.map_append]
    rfl
  · rw [offers_append, hoffers']
    exact hfollows.append_due hacc hfew env.netRxCb
  · intro i' offset hmem
    simp only [sizeofNdp16Datagram, sizeofNtbHeader]
    rcases List.mem_append.1 hmem with hmem | hmem
    · have hle := hentry i' offset hmem
      simp
      omega
    · have hle := hentry' i' offset hmem
      simp
      omega
  · rw [freePushes_append, hpush, hpush', List.nil_append]

/-- An environment in which `net_rx_cb` refuses. -/
def Env.refusing : Env := { Env.accepting with netRxCb := false }

/-- The NTB of `threeDatagrams` is read back; its first and its third datagram are refused
once. -/
theorem decode_encode_threeDatagrams :
    ∃ cs, (updates (World.init.setRx { World.init.rx with
        rxNtb := (run step World.init threeDatagrams).tx.txNtb
        rxUserNtb := some 0 })
        [.refusing, .accepting, .accepting, .refusing, .accepting]).log = cs ∧
      (offers cs).map Prod.snd = [false, true, true, false, true] ∧
      Follows [[1, 2], [0x2a], [5, 6, 7]] (offers cs) ∧ freePushes cs = [some 0] := by
  obtain ⟨cs, hlog, hanswers, hfollows, -, hpush⟩ :=
    decode_encode ⟨threeDatagrams, along_threeDatagrams, rfl⟩
      (show (World.init.setRx { World.init.rx with
        rxNtb := (run step World.init threeDatagrams).tx.txNtb
        rxUserNtb := some 0 }).rx.rxUserNtb = some 0 from rfl) rfl
      (show ∀ p < ncmNtbMaxSize, _ = (run step World.init threeDatagrams).tx.txNtb 0 p from
        fun _ _ => rfl)
      (show [Env.refusing, .accepting, .accepting, .refusing].countP (·.netRxCb) < 3 by decide)
  exact ⟨cs, hlog, hanswers, hfollows, hpush⟩

/-! ### Receiving a block -/

section Received

variable {w : World} {p : RxPhase}

lemma RxShape.armed_of_pending (h : RxShape w p) (hpos : 0 < pending ncmEpDataOut w.log) :
    p = .armed := by
  by_contra hne
  have hle := h.pending_le
  rw [if_neg hne] at hle
  omega

/-- The completion of a pending OUT transfer, up to the offer of the first datagram. -/
lemma RxShape.fetch_received (h : RxShape w .armed) (bytes : UInt16) :
    (rxFetchUserNtb (netDataOut bytes (recordCompletion ncmEpDataOut bytes w))).rx =
      RxPhase.reading.state w.rx.rxNtb 0 := by
  have hrx : (recordCompletion ncmEpDataOut bytes w).rx =
      RxPhase.armed.state w.rx.rxNtb w.rx.rxUserNtbDatagramIndex := h.state
  obtain ⟨ok, heq⟩ := netDataOut_eq bytes hrx (by decide)
  have hrx' : (netDataOut bytes (recordCompletion ncmEpDataOut bytes w)).rx =
      RxPhase.waiting.state w.rx.rxNtb w.rx.rxUserNtbDatagramIndex := by
    rw [heq]
    rfl
  rw [rxFetchUserNtb_eq hrx']
  rfl

/-- The completion of a pending OUT transfer: the block becomes the NTB the user reads, and its
first datagram is offered. -/
lemma RxShape.received (h : RxShape w .armed) (env : Env) (bytes : UInt16) :
    Reading (Fx3Ncm.step w (.netUsbTransfer ncmEpDataOut bytes, env)) 0 (w.rx.rxNtb 0)
        (cursorStep (w.rx.rxNtb 0) 0 env.netRxCb) ∧
      ∃ ok, (Fx3Ncm.step w (.netUsbTransfer ncmEpDataOut bytes, env)).log =
        w.log ++ [.netUsbTransfer ncmEpDataOut bytes.toNat (some (w.rx.rxNtb 0)),
          .pushNtb .rxWait (some 0) ok] ++ walkCalls 0 (w.rx.rxNtb 0) 0 env.netRxCb false := by
  set w₁ := recordCompletion ncmEpDataOut bytes w with hw₁
  have hrx₁ : w₁.rx = RxPhase.armed.state w.rx.rxNtb w.rx.rxUserNtbDatagramIndex := h.state
  have hblock : w.rx.rxUsbdNtb.map w.rx.rxNtb = some (w.rx.rxNtb 0) := by rw [h.usbd]; rfl
  have hlog₁ : w₁.log = w.log ++
      [.netUsbTransfer ncmEpDataOut bytes.toNat (some (w.rx.rxNtb 0))] := by
    rw [← hblock]
    rfl
  obtain ⟨ok, heq⟩ := netDataOut_eq bytes hrx₁ (by decide)
  set w₂ := netDataOut bytes w₁ with hw₂
  have hrx₂ : w₂.rx = RxPhase.waiting.state w.rx.rxNtb w.rx.rxUserNtbDatagramIndex := by
    rw [heq]
    rfl
  obtain ⟨hrx, hlog, -⟩ := rxUpdateUserNtb_of_some env hrx₂ rfl rfl
  have hstart : rxTryStart env (rxUpdateUserNtb env w₂).2 =
      (false, (rxUpdateUserNtb env w₂).2) := by
    refine rxTryStart_of_blocked env (Or.inl ?_)
    rw [hrx]
    exact Option.some_ne_none 0
  have hstep : Fx3Ncm.step w (.netUsbTransfer ncmEpDataOut bytes, env) =
      { (rxUpdateUserNtb env w₂).2 with admitted := w.admitted } := by
    change ({ (rxTryStart env (rxUpdateUserNtb env w₂).2).2 with
      admitted := w.admitted } : World) = _
    rw [hstart]
  rw [hstep]
  refine ⟨⟨?_, ?_, ?_⟩, ok, ?_⟩
  · exact congrArg RxState.rxUserNtb hrx
  · exact congrFun (congrArg RxState.rxNtb hrx) 0
  · exact congrArg RxState.rxUserNtbDatagramIndex hrx
  · have hlog₂ : w₂.log = w₁.log ++ [.pushNtb .rxWait (some 0) ok] := by rw [heq]; rfl
    change (rxUpdateUserNtb env w₂).2.log = _
    rw [hlog, hlog₂, hlog₁, List.append_assoc w.log]
    rfl

/-- The hardware writes `content` into the NTB of the pending transfer. -/
lemma RxShape.written (h : RxShape w .armed) (content : Mem) (env : Env) :
    RxShape (Fx3Ncm.step w (.usbWrite content, env)) .armed ∧
      (Fx3Ncm.step w (.usbWrite content, env)).rx.rxNtb 0 = overwriteNtb (w.rx.rxNtb 0) content ∧
      (Fx3Ncm.step w (.usbWrite content, env)).log = w.log := by
  have husbd : w.rx.rxUsbdNtb = some 0 := h.usbd
  have heq : perform w (.usbWrite content, env) = usbWrite content w := rfl
  have hq : RxQuiet (usbWrite content w) (Fx3Ncm.step w (.usbWrite content, env)) :=
    .of_log_eq rfl rfl
  refine ⟨(h.write content).quiet hq, ?_, ?_⟩
  · rw [step_rx, heq, usbWrite, husbd]
    simp
  · rw [step_log, heq, usbWrite, husbd]
    rfl

/-- The hardware writes a block and the transfer is completed. -/
lemma RxShape.written_received (h : RxShape w .armed) (content : Mem) (env : Env) (bytes : UInt16)
    {m : Mem} (hm : m = overwriteNtb (w.rx.rxNtb 0) content) :
    Reading (run Fx3Ncm.step w
        [(.usbWrite content, env), (.netUsbTransfer ncmEpDataOut bytes, env)])
        0 m (cursorStep m 0 env.netRxCb) ∧
      ∃ ok, (run Fx3Ncm.step w [(.usbWrite content, env),
          (.netUsbTransfer ncmEpDataOut bytes, env)]).log =
        w.log ++ ([.netUsbTransfer ncmEpDataOut bytes.toNat (some m),
          .pushNtb .rxWait (some 0) ok] ++ walkCalls 0 m 0 env.netRxCb false) := by
  obtain ⟨hshape, hblock, hlog⟩ := h.written content env
  obtain ⟨hread, ok, hlog'⟩ := hshape.received env bytes
  rw [hblock, ← hm] at hread hlog'
  rw [hlog, List.append_assoc] at hlog'
  exact ⟨hread, ok, hlog'⟩

end Received

/-! ### Bounds -/

/-- The accesses recorded lie inside the first `n` bytes of the NTB. -/
def Call.InBounds (n : ℕ) : Call → Prop
  | .ndpEntry _ offset => offset + sizeofNdp16Datagram ≤ n
  | .netRxCb _ offset length _ _ => ∀ p, offset ≤ p → p < offset + length → p < n
  | _ => True

/-- The datagram that entry `j` describes lies inside the first `n` bytes. -/
def SliceInBounds (m : Mem) (n j : ℕ) : Prop :=
  ∀ p, wDatagramIndex m (ndp16DatagramOffset m) j ≤ p →
    p < wDatagramIndex m (ndp16DatagramOffset m) j + wDatagramLength m (ndp16DatagramOffset m) j →
    p < n

/-- The first `n` bytes of the block hold its table, up to the first entry after entry 0 that is
not used, and the datagrams of the entries before that one. -/
def TableInBounds (m : Mem) (n : ℕ) : Prop :=
  ∃ k, (∀ j < k, EntryUsed m (j + 1)) ∧ ¬ EntryUsed m (k + 1) ∧
    ndp16DatagramOffset m + 4 * (k + 1) + 4 ≤ n ∧ ∀ j ≤ k, SliceInBounds m n j

section Bounds

variable {w : World} {i : NtbPtr} {m : Mem} {n j k : ℕ}

lemma inBounds_walkCalls {ok pushed : Bool}
    (hentry : ndp16DatagramOffset m + 4 * j + 4 ≤ n)
    (hnext : ok = true → ndp16DatagramOffset m + 4 * (j + 1) + 4 ≤ n)
    (hslice : SliceInBounds m n j) :
    ∀ c ∈ walkCalls i m j ok pushed, c.InBounds n := by
  intro c hc
  rw [walkCalls, List.mem_append] at hc
  rcases hc with hc | hc
  · simp only [offerCalls, List.mem_cons, List.not_mem_nil, or_false] at hc
    rcases hc with rfl | rfl
    · exact hentry
    · exact hslice
  · split_ifs at hc with hok
    · rw [List.mem_singleton] at hc
      subst hc
      exact hnext hok
    · simp only [List.mem_cons, List.not_mem_nil, or_false] at hc
      rcases hc with rfl | rfl
      · exact hnext hok
      · trivial
    · exact absurd hc List.not_mem_nil

/-- The cursor does not go past the last used entry. -/
lemma cursorStep_le (hend : ¬ EntryUsed m (k + 1)) (hj : j ≤ k) (ok : Bool) :
    cursorStep m j ok ≤ k := by
  rw [cursorStep]
  split_ifs with hnext
  · have hne : j ≠ k := by
      rintro rfl
      exact hend hnext.2
    have hmod := Nat.mod_le (j + 1) (2 ^ 16)
    omega
  · exact hj

/-- If the table and its datagrams are in bounds then so are all accesses. -/
lemma Reading.updates_inBounds (h : Reading w i m j) (hend : ¬ EntryUsed m (k + 1))
    (htable : ndp16DatagramOffset m + 4 * (k + 1) + 4 ≤ n) (hslices : ∀ j ≤ k, SliceInBounds m n j)
    (hj : j ≤ k) (envs : List Env) :
    ∃ cs, (updates w envs).log = w.log ++ cs ∧ ∀ c ∈ cs, c.InBounds n := by
  induction envs generalizing w j with
  | nil => exact ⟨[], by simp, by simp⟩
  | cons env envs ih =>
    obtain ⟨-, hlog, -⟩ := h.update env
    obtain ⟨cs, hcs, hbounds⟩ := ih (h.update_reading env) (cursorStep_le hend hj _)
    refine ⟨_, by rw [updates_cons, hcs, hlog, List.append_assoc], ?_⟩
    intro c hc
    rcases List.mem_append.1 hc with hc | hc
    · exact inBounds_walkCalls (by omega) (fun _ => by omega) (hslices j hj) c hc
    · exact hbounds c hc

/-- If everything is accepted the cursor reaches every entry that is preceded by used ones. -/
lemma Reading.updates_accepting (h : Reading w i m 0) {t : ℕ} (hused : ∀ j < t, EntryUsed m (j + 1))
    (ht : t < 2 ^ 16) : Reading (updates w (List.replicate t .accepting)) i m t := by
  induction t with
  | zero => exact h
  | succ t ih =>
    have hread := (ih (fun j hj => hused j (by omega)) (by omega)).update_reading .accepting
    rw [List.replicate_succ', updates_append_singleton]
    rw [cursorStep, if_pos ⟨rfl, hused t (by omega)⟩, Nat.mod_eq_of_lt ht] at hread
    exact hread

lemma Reading.length_log_le_updates (h : Reading w i m j) (envs : List Env) :
    w.log.length ≤ (updates w envs).log.length := by
  induction envs generalizing w j with
  | nil => exact le_rfl
  | cons env envs ih =>
    obtain ⟨-, hlog, -⟩ := h.update env
    refine le_trans ?_ (ih (h.update_reading env))
    rw [hlog, List.length_append]
    exact Nat.le_add_right _ _

/-- What is accessed when the cursor stands at entry `j` and the datagram is accepted. -/
lemma Reading.inBounds_of_update (h : Reading w i m j)
    (hbounds : ∀ c ∈ (rxUpdateUserNtb .accepting w).2.log.drop w.log.length, c.InBounds n) :
    ndp16DatagramOffset m + 4 * (j + 1) + 4 ≤ n ∧ SliceInBounds m n j := by
  obtain ⟨-, hlog, -⟩ := h.update .accepting
  rw [hlog, List.drop_left] at hbounds
  constructor
  · refine hbounds (.ndpEntry i (ndp16DatagramOffset m + 4 * (j + 1))) ?_
    simp [walkCalls, Env.accepting]
  · refine hbounds (.netRxCb i (wDatagramIndex m (ndp16DatagramOffset m) j)
      (wDatagramLength m (ndp16DatagramOffset m) j) (entryDatagram m j) true) ?_
    simp [walkCalls, offerCalls, Env.accepting]

/-- The memory behind the bytes received does not matter. -/
lemma TableInBounds.congr {m' : Mem} (h : TableInBounds m n) (hn : n ≤ ncmNtbMaxSize)
    (heq : ∀ p < ncmNtbMaxSize, m p = m' p) : TableInBounds m' n := by
  simp only [ncmNtbMaxSize] at hn heq
  obtain ⟨k, hused, hend, htable, hslices⟩ := h
  have h16 : ∀ o, o + 2 ≤ 3200 → read16 m o = read16 m' o :=
    fun o ho => read16_congr fun p _ hp => heq p (by omega)
  have hoffset : ndp16DatagramOffset m' = ndp16DatagramOffset m := by
    simp only [ndp16DatagramOffset, wNdpIndex]
    rw [h16 10 (by omega)]
  have hentry : ∀ j ≤ k + 1,
      wDatagramIndex m (ndp16DatagramOffset m) j = wDatagramIndex m' (ndp16DatagramOffset m') j ∧
      wDatagramLength m (ndp16DatagramOffset m) j =
        wDatagramLength m' (ndp16DatagramOffset m') j := by
    intro j hj
    rw [hoffset, wDatagramIndex_eq, wDatagramLength_eq, wDatagramIndex_eq, wDatagramLength_eq]
    exact ⟨h16 _ (by omega), h16 _ (by omega)⟩
  have hiff : ∀ j ≤ k + 1, EntryUsed m j ↔ EntryUsed m' j := by
    intro j hj
    rw [EntryUsed, EntryUsed, (hentry j hj).1, (hentry j hj).2]
  refine ⟨k, ?_, ?_, by rw [hoffset]; exact htable, ?_⟩
  · intro j hj
    exact (hiff (j + 1) (by omega)).1 (hused j hj)
  · exact fun hused' => hend ((hiff (k + 1) le_rfl).2 hused')
  · intro j hj
    rw [SliceInBounds, ← (hentry j (by omega)).1, ← (hentry j (by omega)).2]
    exact hslices j hj

lemma overwriteNtb_of_lt (m content : Mem) {p : ℕ} (hp : p < ncmNtbMaxSize) :
    overwriteNtb m content p = content p := if_pos hp

lemma tableInBounds_overwriteNtb (m content : Mem) (hn : n ≤ ncmNtbMaxSize) :
    TableInBounds (overwriteNtb m content) n ↔ TableInBounds content n :=
  ⟨fun h => h.congr hn fun _ hp => overwriteNtb_of_lt m content hp,
    fun h => h.congr hn fun _ hp => (overwriteNtb_of_lt m content hp).symm⟩

/-- If every entry that is preceded by used ones can be accessed in bounds then the table ends
inside the block: the look-ahead entry would leave it otherwise. -/
lemma tableInBounds_of_forall (hn : n ≤ ncmNtbMaxSize)
    (hat : ∀ t < 2 ^ 16, (∀ j < t, EntryUsed m (j + 1)) →
      ndp16DatagramOffset m + 4 * (t + 1) + 4 ≤ n ∧ SliceInBounds m n t) : TableInBounds m n := by
  have hsome : ∃ t < 800, ¬ EntryUsed m (t + 1) := by
    by_contra hno
    push Not at hno
    have hle := (hat 800 (by decide) hno).1
    simp only [ncmNtbMaxSize] at hn
    omega
  obtain ⟨t, ht, hend⟩ := hsome
  have hex : ∃ t, ¬ EntryUsed m (t + 1) := ⟨t, hend⟩
  have hle : Nat.find hex ≤ t := Nat.find_min' hex hend
  have hused : ∀ j < Nat.find hex, EntryUsed m (j + 1) :=
    fun j hj => not_not.1 (Nat.find_min hex hj)
  refine ⟨Nat.find hex, hused, Nat.find_spec hex, (hat _ (by omega) hused).1, ?_⟩
  intro j hj
  exact (hat j (by omega) fun j' hj' => hused j' (by omega)).2

end Bounds

/-- Let the host fill the NTB of a pending OUT transfer with arbitrary contents and let the
transfer be completed with `bytes` bytes.  Then all accesses to the table and all datagrams
offered by the calls of `rx_update_user_ntb` that follow lie inside the bytes received, if and
only if the table of the block and the datagrams it lists do. -/
theorem rx_bounds {w : World} (hw : Reached (fun _ _ => True) w)
    (hpending : 0 < pending ncmEpDataOut w.log) (content : Mem) {bytes : UInt16}
    (hbytes : bytes.toNat ≤ ncmNtbMaxSize) :
    (∀ env envs, ∀ c ∈ (updates (run step w [(.usbWrite content, env),
        (.netUsbTransfer ncmEpDataOut bytes, env)]) envs).log.drop w.log.length,
        c.InBounds bytes.toNat) ↔
      TableInBounds content bytes.toNat := by
  obtain ⟨p, h⟩ := RxShape.of_reached hw
  obtain rfl := h.armed_of_pending hpending
  -- the block as it is in memory after the transfer
  obtain ⟨m, hm⟩ : ∃ m, m = overwriteNtb (w.rx.rxNtb 0) content := ⟨_, rfl⟩
  rw [← tableInBounds_overwriteNtb (w.rx.rxNtb 0) content hbytes, ← hm]
  constructor
  · intro hall
    obtain ⟨hread, ok, hlog⟩ := h.written_received content .refusing bytes hm
    -- the cursor can be brought to every entry that is preceded by used ones
    refine tableInBounds_of_forall hbytes fun t ht hused => ?_
    have hread' := hread.updates_accepting hused ht
    refine hread'.inBounds_of_update fun c hc => ?_
    refine hall .refusing (List.replicate t .accepting ++ [.accepting]) c ?_
    have hlen := hread.length_log_le_updates (List.replicate t .accepting)
    rw [hlog, List.length_append] at hlen
    rw [updates_append_singleton]
    exact List.drop_subset_drop_left _ (by omega) hc
  · rintro ⟨k, hused, hend, htable, hslices⟩ env envs
    obtain ⟨hread, ok, hlog⟩ := h.written_received content env bytes hm
    obtain ⟨cs, hcs, hbounds⟩ := hread.updates_inBounds hend htable hslices
      (cursorStep_le hend (Nat.zero_le k) _) envs
    rw [hcs, hlog, List.append_assoc, List.drop_left]
    intro c hc
    rcases List.mem_append.1 hc with hc | hc
    · rcases List.mem_append.1 hc with hc | hc
      · simp only [List.mem_cons, List.not_mem_nil, or_false] at hc
        rcases hc with rfl | rfl <;> trivial
      · exact inBounds_walkCalls (by omega) (fun _ => by omega) (hslices 0 (Nat.zero_le k)) c hc
    · exact hbounds c hc

/-- A block as the transmit side builds it is read inside its bounds. -/
theorem rx_bounds_oneDatagram :
    pending ncmEpDataOut (run step World.init receptionStarted).log = 1 ∧
      ∀ env envs, ∀ c ∈ (updates (run step (run step World.init receptionStarted)
        [(.usbWrite ((run step World.init oneDatagram).tx.txNtb 0), env),
          (.netUsbTransfer ncmEpDataOut 60, env)]) envs).log.drop
        (run step World.init receptionStarted).log.length, c.InBounds 60 := by
  have hrun : Along step (fun _ _ => True) World.init receptionStarted :=
    Along.of_forall fun _ _ => trivial
  refine ⟨rfl, (rx_bounds ⟨receptionStarted, hrun, rfl⟩ Nat.one_pos _ (by decide)).2 ?_⟩
  have hoffset : ndp16DatagramOffset ((run step World.init oneDatagram).tx.txNtb 0) = 20 := rfl
  have hindex : wDatagramIndex ((run step World.init oneDatagram).tx.txNtb 0) 20 0 = 56 := rfl
  have hlength : wDatagramLength ((run step World.init oneDatagram).tx.txNtb 0) 20 0 = 1 := rfl
  have hnext : wDatagramIndex ((run step World.init oneDatagram).tx.txNtb 0) 20 1 = 0 := rfl
  refine ⟨0, fun j hj => absurd hj (Nat.not_lt_zero j), ?_, ?_, ?_⟩
  · rw [EntryUsed, hoffset]
    exact fun h => h.1 hnext
  · rw [hoffset]
    decide
  · intro j hj p _ hlt
    obtain rfl : j = 0 := Nat.le_zero.1 hj
    rw [hoffset, hindex, hlength] at hlt
    change p < 60
    omega

/-- A block of bytes `0xff` makes the driver read a table entry far behind the NTB. -/
theorem rx_bounds_fails : ¬ ∀ env envs,
    ∀ c ∈ (updates (run step (run step World.init receptionStarted)
      [(.usbWrite fun _ => 0xff, env), (.netUsbTransfer ncmEpDataOut 64, env)]) envs).log.drop
      (run step World.init receptionStarted).log.length, c.InBounds 64 := by
  intro h
  have hentry := h .refusing [] (.ndpEntry 0 65543)
    (List.mem_cons_of_mem _ (List.mem_cons_of_mem _ List.mem_cons_self))
  exact absurd (show 65543 + 4 ≤ 64 from hentry) (by decide)

end Fx3Ncm
