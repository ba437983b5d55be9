/-
# The search for the flash programmer

The programming of EEPROMs and of the SPI flash needs a device that runs the flash programmer.
`get_fx3_prog_handle` asks the device that `main` has found for its name.  If it is another one, the
flash programmer is downloaded to its RAM, the library `cyusb` is closed, and the flash programmer
is looked for in up to five further openings.

What is outside the tool is in `Surroundings`: what each opening of the library finds, and the
files.  The tool leaves a `Log` of what it did with the library, and `Disciplined` says what is in
order.

`prog_handle_exact` says which device is taken for the flash programmer.  The loop over the devices
of an opening keeps its bound in a variable that the result of the check overwrites, so that only
one device of each opening is ever asked.
-/
import Fx3Ncm.Flash.RamBoot
import Fx3Ncm.Flash.Spi
import Fx3Ncm.Flash.CommandLine

namespace Fx3Ncm.Flash

open ByteMemory Loops

/-! ### The surroundings -/

@[simp, reducible] def flashprogVid : UInt16 := 0x04b4

@[simp, reducible] def gethandleTimeout : ℕ := 5

/-- A device as an opening of the library finds it; `vendor` is what `cyusb_getvendor` returns. -/
structure Device where
  vendor : UInt16
  usb : Usb

/-- A handle: the number of the opening of the library, and the index of the device. -/
structure Handle where
  opening : ℕ
  index : ℕ
deriving DecidableEq, Repr

/-- What the tool does with the library. -/
inductive Event where
  | opened (opening : ℕ)
  | closed
  | exchange (h : Handle) (x : Exchange)
deriving DecidableEq, Repr

/-- All events, oldest first. -/
abbrev Log := List Event

/-- What is outside the tool.  `cyusbOpen k` are the devices found when the library is opened for
the `k`-th time, or an error; `stat` and `opens` are the files.  The two other fields tell whether
the buffers for the flash programmer and for the image can be allocated. -/
structure Surroundings where
  cyusbOpen : ℕ → Option (List Device)
  stat : String → Option File
  opens : String → Bool
  progCalloc : Bool
  imageCalloc : Bool

/-- Exchanges through a handle. -/
def via (h : Handle) (t : Trace) : Log := t.map (.exchange h)

/-! ### check_fx3_flashprog -/

/-- `tolower` -/
def toLower (b : UInt8) : UInt8 := if 0x41 ≤ b ∧ b ≤ 0x5A then b + 0x20 else b

/-- The characters of `"FX3PROG"`. -/
def flashprogName : List UInt8 := [0x46, 0x58, 0x33, 0x50, 0x52, 0x4F, 0x47]

/-- The vendor request for the name of the firmware. -/
def checkRequest : ControlRequest where
  bmRequestType := 0xC0
  bRequest := 0xB0
  wValue := 0
  wIndex := 0
  data := []
  wLength := 8

/-- The reply of the flash programmer: eight bytes, the first seven of which are its name. -/
def Reply.IsFlashprog (r : Reply) : Prop :=
  r.result = 8 ∧ (r.bytes.take 7).map toLower = flashprogName.map toLower

instance (r : Reply) : Decidable r.IsFlashprog :=
  inferInstanceAs (Decidable (_ ∧ _))

/-- `check_fx3_flashprog` -/
def checkFx3Flashprog (usb : Usb) (t : Trace) : ℤ × Trace :=
  let r := controlTransfer usb checkRequest t
  if r.1.IsFlashprog then (0, r.2) else (-1, r.2)

/-! ### get_fx3_prog_handle -/

/-- What is left of a device when it has answered the check. -/
def checked (usb : Usb) : Usb := fun t => usb ((checkFx3Flashprog usb []).2 ++ t)

/-- The inner loop of `get_fx3_prog_handle`: the devices from the index `i` on.  The bound `r` of
the loop is overwritten by the result of the check. -/
def searchDevices (opening : ℕ) : List Device → ℕ → ℤ → Log → Option (Handle × Usb) × Log
  | [], _, _, log => (none, log)
  | d :: ds, i, r, log =>
    if (i : ℤ) < r then
      if d.vendor = flashprogVid then
        let c := checkFx3Flashprog d.usb []
        let log := log ++ via ⟨opening, i⟩ c.2
        if c.1 = 0 then (some (⟨opening, i⟩, checked d.usb), log)
        else searchDevices opening ds (i + 1) c.1 log
      else searchDevices opening ds (i + 1) r log
    else (none, log)

/-- The outer loop of `get_fx3_prog_handle`, with `n` openings left; the next one has the number
`k`. -/
def searchOpenings (env : Surroundings) : (n k : ℕ) → Log → Option (Handle × Usb) × Log
  | 0, _, log => (none, log)
  | n + 1, k, log =>
    let log := log ++ [.opened k]
    match env.cyusbOpen k with
    | none => searchOpenings env n (k + 1) log
    | some ds =>
      if 0 < ds.length then
        match searchDevices k ds 0 ds.length log with
        | (some found, log) => (some found, log)
        | (none, log) => searchOpenings env n (k + 1) (log ++ [.closed])
      else searchOpenings env n (k + 1) log

/-- The name of the file that holds the flash programmer. -/
def progfile : String := "cyfxflashprog.img"

/-- What `get_fx3_prog_handle` has come to: a handle, with the device behind it, or a failure. -/
inductive Search where
  | found (h : Handle) (usb : Usb)
  | failed (outcome : Outcome)

/-- `get_fx3_prog_handle` for a device of the first opening; `fuel` bounds the iterations of the
loop that downloads the flash programmer. -/
def getFx3ProgHandle (env : Surroundings) (h : Handle) (usb : Usb) (fuel : ℕ) (log : Log) :
    Option (Search × Log) :=
  let c := checkFx3Flashprog usb []
  let log := log ++ via h c.2
  if c.1 = 0 then some (.found h (checked usb), log)
  else if (env.stat progfile).isNone then some (.failed (.returned (-1)), log)
  else
    (fx3UsbbootDownload (checked usb) env.progCalloc (env.stat progfile) (env.opens progfile)
      fuel).map fun r =>
      let log := log ++ via h r.2
      if r.1 ≠ .returned 0 then (.failed (r.1.orElse (-1)), log)
      else
        match searchOpenings env gethandleTimeout 1 (log ++ [.closed]) with
        | (some (h, usb), log) => (.found h usb, log)
        | (none, log) => (.failed (.returned (-2)), log)

/-! ### The requests of the downloads -/

/-- The exchanges so far have been continued, with requests of this kind. -/
def Adds (P : ControlRequest → Prop) (t t' : Trace) : Prop := ∃ xs, t' = t ++ xs ∧ ∀ x ∈ xs, P x.1

section Adds

variable {P : ControlRequest → Prop} {usb : Usb} {fwBuf : Mem} {t t' t'' : Trace}

lemma Adds.refl (P : ControlRequest → Prop) (t : Trace) : Adds P t t :=
  ⟨[], (List.append_nil t).symm, fun _ hx => absurd hx List.not_mem_nil⟩

lemma Adds.trans (h : Adds P t t') (h' : Adds P t' t'') : Adds P t t'' := by
  obtain ⟨xs, rfl, hxs⟩ := h
  obtain ⟨ys, rfl, hys⟩ := h'
  refine ⟨xs ++ ys, List.append_assoc t xs ys, fun x hx => ?_⟩
  rcases List.mem_append.1 hx with hx | hx
  · exact hxs x hx
  · exact hys x hx

lemma adds_controlTransfer {q : ControlRequest} (hq : P q) :
    Adds P t (controlTransfer usb q t).2 := by
  refine ⟨[(q, usb t q)], rfl, fun x hx => ?_⟩
  rwa [List.mem_singleton.1 hx]

lemma Adds.forall (h : Adds P [] t) : ∀ x ∈ t, P x.1 := by
  obtain ⟨xs, rfl, hxs⟩ := h
  exact hxs

lemma adds_transferLoop {request : ℕ → ℕ → Option ControlRequest}
    {judge : ℕ → ℕ → Reply → Option Outcome} (hP : ∀ o n q, request o n = some q → P q)
    (offset len : ℕ) : Adds P t (transferLoop usb request judge offset len t).2 := by
  fun_induction transferLoop usb request judge offset len t with
  | case1 offset len t hlen size hreq => exact .refl P t
  | case2 offset len t hlen size q hq r outcome ho => exact adds_controlTransfer (hP _ _ q hq)
  | case3 offset len t hlen size q hq r hnone ih =>
    exact (adds_controlTransfer (hP _ _ q hq)).trans ih
  | case4 offset len t hlen => exact .refl P t

lemma adds_writeLoop {request : ℕ → List UInt8 → ControlRequest} (hP : ∀ o data, P (request o data))
    (start len : ℤ) : Adds P t (writeLoop usb fwBuf start request len t).2 := by
  refine adds_transferLoop (fun o n q hq => ?_) 0 len.toNat
  obtain ⟨data, -, rfl⟩ := Option.map_eq_some_iff.1 hq
  exact hP o data

lemma adds_andThen {r : Outcome × Trace} {next : Trace → Outcome × Trace} (hr : Adds P t r.2)
    (hnext : ∀ t, Adds P t (next t).2) : Adds P t (andThen r next).2 := by
  rw [andThen]
  split_ifs
  · exact hr.trans (hnext r.2)
  · exact hr

/-- What is true of every iteration of a loop is true of the loop. -/
lemma adds_of_ends {σ : Type*} {step : σ → σ ⊕ (Outcome × Trace)} {s : σ} {r : Outcome × Trace}
    (trace : σ → Trace) (hstep : ∀ s, Adds P (trace s) (Sum.elim trace Prod.snd (step s)))
    (h : Ends step s r) : Adds P (trace s) r.2 := by
  refine Ends.rule (I := fun s' => Adds P (trace s) (trace s')) (Q := fun r => Adds P (trace s) r.2)
    ?_ ?_ (.refl P _) h
  · intro s s' hs hc
    have hadds := hstep s
    rw [hc] at hadds
    exact hs.trans hadds
  · intro s r hs hc
    have hadds := hstep s
    rw [hc] at hadds
    exact hs.trans hadds

/-! ### Requests of the RAM download -/

/-- A request that writes to the RAM, or jumps. -/
def IsRamRequest (q : ControlRequest) : Prop := q.bRequest = 0xA0

lemma adds_fx3RamWrite (usb : Usb) (fwBuf : Mem) (buf : ℤ) (address : UInt32) (len : ℤ)
    (t : Trace) :
    Adds IsRamRequest t (fx3RamWrite usb fwBuf buf address len t).2 := by
  have hP : ∀ o data, IsRamRequest (ramRequest (address + UInt32.ofNat o) data) := fun _ _ => rfl
  exact adds_writeLoop hP buf len

lemma adds_sectionStep (fwBuf : Mem) (filesize : ℤ) (s : LoaderState) :
    Adds IsRamRequest s.trace (Sum.elim LoaderState.trace Prod.snd
      (sectionStep usb fwBuf filesize s)) := by
  have hrefl := Adds.refl IsRamRequest s.trace
  rw [sectionStep]
  split_ifs with hlt
  · cases readWord fwBuf s.index with
    | none => exact hrefl
    | some length =>
      cases readWord fwBuf (s.index + 4) with
      | none => exact hrefl
      | some address =>
        by_cases hdata : length ≠ 0
        · simp only [if_pos hdata]
          cases addWords fwBuf (s.index + 8) length.toNat s.checksum with
          | none => exact hrefl
          | some checksum =>
            have hwrite := adds_fx3RamWrite usb fwBuf (s.index + 8) address
              (toInt (length * 4).toNat) s.trace
            generalize fx3RamWrite usb fwBuf (s.index + 8) address (toInt (length * 4).toNat)
              s.trace = r at hwrite ⊢
            obtain ⟨outcome, t⟩ := r
            cases outcome with
            | fault => exact hwrite
            | returned code =>
              by_cases hcode : code ≠ 0
              · simpa only [if_pos hcode, Sum.elim_inr] using hwrite
              · simpa only [if_neg hcode, Sum.elim_inl] using hwrite
        · simp only [if_neg hdata]
          cases readWord fwBuf (s.index + 8) with
          | none => exact hrefl
          | some w =>
            by_cases hsum : s.checksum ≠ w
            · simpa only [if_pos hsum, Sum.elim_inr] using hrefl
            · simp only [if_neg hsum, Sum.elim_inr]
              exact adds_controlTransfer (show IsRamRequest (ramRequest address []) from rfl)
  · exact hrefl

/-- The download to the RAM makes no other requests, whatever is in the file. -/
lemma requests_of_usbboot {calloc opens : Bool} {stat : Option File} {fuel : ℕ}
    {r : Outcome × Trace} (h : fx3UsbbootDownload usb calloc stat opens fuel = some r) :
    ∀ x ∈ r.2, IsRamRequest x.1 := by
  have hnil : ∀ x ∈ ([] : Trace), IsRamRequest x.1 := fun x hx => absurd hx List.not_mem_nil
  cases calloc with
  | false =>
    cases h
    exact hnil
  | true =>
    simp only [fx3UsbbootDownload, Bool.not_true, Bool.false_eq_true, if_false] at h
    split_ifs at h with hcode
    · cases h
      exact hnil
    · exact Adds.forall (adds_of_ends LoaderState.trace (adds_sectionStep _ _) ⟨fuel, h⟩)

/-! ### Requests of the flash programmer -/

/-- A request that writes an EEPROM, or reads it. -/
def IsI2cRequest (q : ControlRequest) : Prop := q.bRequest = 0xBA ∨ q.bRequest = 0xBB

/-- A request that writes the SPI flash, erases it, or reads its status. -/
def IsSpiRequest (q : ControlRequest) : Prop := q.bRequest = 0xC2 ∨ q.bRequest = 0xC4

lemma adds_i2cProgram (address : ℕ) (offset size : ℤ) (t : Trace) :
    Adds IsI2cRequest t (i2cProgram usb fwBuf address offset size t).2 := by
  have hwrite : ∀ a data, IsI2cRequest (i2cWriteRequest address a data) := fun _ _ => .inl rfl
  have hread : ∀ a n, IsI2cRequest (i2cReadRequest address a n) := fun _ _ => .inr rfl
  refine adds_andThen (adds_writeLoop hwrite offset size) fun t => ?_
  refine adds_transferLoop (fun a n q hq => ?_) 0 size.toNat
  rw [← Option.some.inj hq]
  exact hread a n

lemma adds_i2cStep (romsize : ℤ) (s : I2cState) :
    Adds IsI2cRequest s.trace (Sum.elim I2cState.trace Prod.snd (i2cStep usb fwBuf romsize s)) := by
  have heeprom : ∀ size, Adds IsI2cRequest s.trace
      (i2cEeprom usb fwBuf s.address s.offset size s.trace).2 := by
    intro size
    rw [i2cEeprom]
    split_ifs
    · exact adds_andThen (adds_i2cProgram _ _ _ _) fun t => adds_i2cProgram _ _ _ t
    · exact adds_i2cProgram _ _ _ _
  simp only [i2cStep]
  generalize (if s.filesize ≤ romsize then s.filesize else romsize) = size
  by_cases hsize : s.filesize ≠ 0
  · rw [if_pos hsize]
    by_cases hr : (i2cEeprom usb fwBuf s.address s.offset size s.trace).1 ≠ .returned 0
    · rw [if_pos hr]
      exact heeprom size
    · rw [if_neg hr]
      exact heeprom size
  · rw [if_neg hsize]
    exact .refl _ _

/-- The programming of EEPROMs makes no other requests. -/
lemma requests_of_i2cboot {handle : Option Usb} {stat : Option File} {opens : Bool} {fuel : ℕ}
    {r : Outcome × Trace} (h : fx3I2cbootDownload handle stat opens fuel = some r) :
    ∀ x ∈ r.2, IsI2cRequest x.1 := by
  have hnil : ∀ x ∈ ([] : Trace), IsI2cRequest x.1 := fun x hx => absurd hx List.not_mem_nil
  cases handle with
  | none =>
    cases h
    exact hnil
  | some usb =>
    simp only [fx3I2cbootDownload] at h
    split_ifs at h
    · cases h
      exact hnil
    · exact Adds.forall (adds_of_ends I2cState.trace (adds_i2cStep _) ⟨fuel, h⟩)

lemma adds_spiWriteLoop (index len : ℕ) (pageAddress : UInt16) (t : Trace) :
    Adds IsSpiRequest t (spiWriteLoop usb fwBuf index len pageAddress t).2 := by
  have hwrite : ∀ p data, IsSpiRequest (spiWriteRequest p data) := fun _ _ => .inl rfl
  fun_induction spiWriteLoop usb fwBuf index len pageAddress t with
  | case1 index len pageAddress t hlen size hread => exact .refl _ _
  | case2 index len pageAddress t hlen size data hread r hr =>
    exact adds_controlTransfer (hwrite _ _)
  | case3 index len pageAddress t hlen size data hread r hr ih =>
    exact (adds_controlTransfer (hwrite _ _)).trans ih
  | case4 index len pageAddress t hlen => exact .refl _ _

lemma adds_spiWaitReady (timeout : ℕ) (t : Trace) :
    Adds IsSpiRequest t (spiWaitReady usb timeout t).2 := by
  have hstatus : IsSpiRequest spiStatusRequest := .inr rfl
  induction timeout generalizing t with
  | zero => exact .refl _ _
  | succ timeout ih =>
    simp only [spiWaitReady]
    split
    · split_ifs
      · exact (adds_controlTransfer hstatus).trans (ih _)
      · exact adds_controlTransfer hstatus
    · exact adds_controlTransfer hstatus

lemma adds_spiEraseLoop (n i : ℕ) (t : Trace) :
    Adds IsSpiRequest t (spiEraseLoop usb n i t).2 := by
  have herase : ∀ nsector t, Adds IsSpiRequest t (fx3SpiEraseSector usb nsector t).2 := by
    intro nsector t
    have hadds : Adds IsSpiRequest t (controlTransfer usb (spiEraseRequest nsector) t).2 :=
      adds_controlTransfer (.inr rfl)
    simp only [fx3SpiEraseSector]
    split_ifs
    · exact hadds
    · exact hadds.trans (adds_spiWaitReady _ _)
  induction n generalizing i t with
  | zero => exact .refl _ _
  | succ n ih => exact adds_andThen (herase _ t) fun t => ih (i + 1) t

/-- The programming of the SPI flash makes no other requests. -/
lemma requests_of_spiboot (handle : Option Usb) (calloc : Bool) (stat : Option File)
    (opens : Bool) : ∀ x ∈ (fx3SpibootDownload handle calloc stat opens).2, IsSpiRequest x.1 := by
  refine Adds.forall ?_
  cases handle with
  | none => exact .refl _ _
  | some usb =>
    cases calloc with
    | false => exact .refl _ _
    | true =>
      simp only [fx3SpibootDownload, Bool.not_true, Bool.false_eq_true, if_false]
      split_ifs
      · exact .refl _ _
      · exact adds_andThen (adds_spiEraseLoop _ _ _) fun t => adds_spiWriteLoop _ _ _ t

end Adds

/-! ### The discipline of the tool -/

/-- What is open after an event. -/
def Event.current (o : Option ℕ) : Event → Option ℕ
  | opened k => some k
  | closed => none
  | exchange _ _ => o

/-- The opening of the library whose handles are in use. -/
def current (log : Log) : Option ℕ := log.foldl Event.current none

/-- The device behind the handle has said that it is the flash programmer. -/
def Identified (log : Log) (h : Handle) : Prop :=
  ∃ reply : Reply, reply.IsFlashprog ∧ Event.exchange h (checkRequest, reply) ∈ log

/-- The requests that program the target. -/
def FwTarget.Programs : FwTarget → ControlRequest → Prop
  | ram, _ => False
  | i2c, q => IsI2cRequest q
  | spi, q => IsSpiRequest q

/-- What the tool may ask a device for: its name, to take a part of a program, if it is the first
one, or to program the target, if it is the flash programmer. -/
inductive Permitted (tgt : FwTarget) (log : Log) (h : Handle) (q : ControlRequest) : Prop
  | check (hq : q = checkRequest)
  | load (hq : IsRamRequest q) (hh : h = ⟨0, 0⟩)
  | program (hq : tgt.Programs q) (hh : Identified log h)

/-- Every request goes through a handle that is in use, and is permitted. -/
def Disciplined (tgt : FwTarget) (log : Log) : Prop :=
  ∀ log₁ h x log₂, log = log₁ ++ Event.exchange h x :: log₂ →
    current log₁ = some h.opening ∧ Permitted tgt log₁ h x.1

section Discipline

variable {tgt : FwTarget} {log : Log} {h : Handle}

lemma current_concat (log : Log) (e : Event) : current (log ++ [e]) = e.current (current log) := by
  rw [current, List.foldl_concat, current]

lemma current_via (log : Log) (h : Handle) (t : Trace) :
    current (log ++ via h t) = current log := by
  induction t generalizing log with
  | nil => rw [via, List.map_nil, List.append_nil]
  | cons x t ih =>
    have hcons : log ++ via h (x :: t) = (log ++ [.exchange h x]) ++ via h t := by
      rw [List.append_assoc]
      rfl
    rw [hcons, ih, current_concat]
    rfl

lemma Identified.append (hid : Identified log h) (log' : Log) : Identified (log ++ log') h := by
  obtain ⟨reply, hreply, hmem⟩ := hid
  exact ⟨reply, hreply, List.mem_append_left log' hmem⟩

lemma Permitted.append {q : ControlRequest} (hq : Permitted tgt log h q) (log' : Log) :
    Permitted tgt (log ++ log') h q := by
  cases hq with
  | check hq => exact .check hq
  | load hq hh => exact .load hq hh
  | program hq hh => exact .program hq (hh.append log')

lemma disciplined_nil (tgt : FwTarget) : Disciplined tgt [] := by
  intro log₁ h x log₂ heq
  simp at heq

/-- The discipline is kept by an event, if it is so by this event. -/
lemma Disciplined.concat (hlog : Disciplined tgt log) {e : Event}
    (he : ∀ h x, e = .exchange h x → current log = some h.opening ∧ Permitted tgt log h x.1) :
    Disciplined tgt (log ++ [e]) := by
  intro log₁ h x log₂ heq
  rcases List.eq_nil_or_concat log₂ with rfl | ⟨log₃, e', rfl⟩
  · obtain ⟨rfl, he'⟩ := List.append_inj' heq rfl
    exact he h x (List.singleton_inj.1 he')
  · rw [List.concat_eq_append, ← List.cons_append, ← List.append_assoc] at heq
    exact hlog log₁ h x log₃ (List.append_inj' heq rfl).1

lemma Disciplined.opened (hlog : Disciplined tgt log) (k : ℕ) :
    Disciplined tgt (log ++ [.opened k]) :=
  hlog.concat fun _ _ he => by cases he

lemma Disciplined.closed (hlog : Disciplined tgt log) : Disciplined tgt (log ++ [.closed]) :=
  hlog.concat fun _ _ he => by cases he

/-- The discipline is kept by exchanges through a handle that is in use. -/
lemma Disciplined.via (hlog : Disciplined tgt log) (hcur : current log = some h.opening) {t : Trace}
    (ht : ∀ x ∈ t, Permitted tgt log h x.1) : Disciplined tgt (log ++ via h t) := by
  induction t generalizing log with
  | nil => rwa [Flash.via, List.map_nil, List.append_nil]
  | cons x t ih =>
    have hcons : log ++ Flash.via h (x :: t) = (log ++ [.exchange h x]) ++ Flash.via h t := by
      rw [List.append_assoc]
      rfl
    rw [hcons]
    refine ih (hlog.concat ?_) ?_ ?_
    · rintro h' x' ⟨rfl, rfl⟩
      exact ⟨hcur, ht x List.mem_cons_self⟩
    · rw [current_concat]
      exact hcur
    · exact fun y hy => (ht y (List.mem_cons_of_mem x hy)).append _

end Discipline

/-! ### The search for the flash programmer -/

/-- The device answers the check as the flash programmer does. -/
def Answers (usb : Usb) : Prop := (usb [] checkRequest).IsFlashprog

instance (usb : Usb) : Decidable (Answers usb) :=
  inferInstanceAs (Decidable (Reply.IsFlashprog _))

lemma checkFx3Flashprog_trace (usb : Usb) :
    (checkFx3Flashprog usb []).2 = [(checkRequest, usb [] checkRequest)] := by
  rw [checkFx3Flashprog]
  split_ifs <;> rfl

lemma checkFx3Flashprog_code (usb : Usb) :
    (checkFx3Flashprog usb []).1 = if Answers usb then 0 else -1 := by
  by_cases h : Answers usb
  · rw [if_pos h]
    exact congrArg Prod.fst (if_pos h)
  · rw [if_neg h]
    exact congrArg Prod.fst (if_neg h)

/-- The device of an opening that is asked, with its index: the first one of the vendor. -/
def askedFrom (ds : List Device) (i : ℕ) : Option (Device × ℕ) :=
  (ds.zipIdx i).find? fun p => p.1.vendor == flashprogVid

/-- Only one device is asked: if it does not answer, the loop has lost its bound. -/
lemma searchDevices_eq (k : ℕ) {ds : List Device} {i : ℕ} {r : ℤ} (h : i + ds.length ≤ r)
    (log : Log) : searchDevices k ds i r log =
      match askedFrom ds i with
      | none => (none, log)
      | some (d, j) => (if Answers d.usb then some (⟨k, j⟩, checked d.usb) else none,
          log ++ via ⟨k, j⟩ [(checkRequest, d.usb [] checkRequest)]) := by
  induction ds generalizing i with
  | nil => rfl
  | cons d ds ih =>
    rw [List.length_cons] at h
    have hi : (i : ℤ) < r := by omega
    rw [searchDevices, if_pos hi, askedFrom, List.zipIdx_cons]
    by_cases hv : d.vendor = flashprogVid
    · simp only [if_pos hv, List.find?_cons, beq_iff_eq.2 hv, checkFx3Flashprog_trace,
        checkFx3Flashprog_code]
      by_cases ha : Answers d.usb
      · simp only [if_pos ha, if_true]
      · simp only [if_neg ha]
        -- `i < -1` is false
        cases ds with
        | nil => rfl
        | cons e ds => rfl
    · have hbeq : (d.vendor == flashprogVid) = false := beq_eq_false_iff_ne.2 hv
      rw [if_neg hv, List.find?_cons, hbeq]
      exact ih (by push_cast; omega)

/-- What an opening has to offer: the handle of the device that is asked, if it answers. -/
def offer (env : Surroundings) (k : ℕ) : Option (Handle × Usb) :=
  (env.cyusbOpen k).bind fun ds => (askedFrom ds 0).bind fun p =>
    if Answers p.1.usb then some (⟨k, p.2⟩, checked p.1.usb) else none

lemma searchDevices_fst (k : ℕ) (ds : List Device) (log : Log) :
    (searchDevices k ds 0 ds.length log).1 = (askedFrom ds 0).bind fun p =>
      if Answers p.1.usb then some (⟨k, p.2⟩, checked p.1.usb) else none := by
  rw [searchDevices_eq k (by simp)]
  cases askedFrom ds 0 with
  | none => rfl
  | some p => rfl

/-- The search takes the first offer. -/
lemma searchOpenings_fst (env : Surroundings) (n k : ℕ) (log : Log) :
    (searchOpenings env n k log).1 = (List.range' k n).findSome? (offer env) := by
  induction n generalizing k log with
  | zero => rfl
  | succ n ih =>
    rw [searchOpenings, List.range'_succ, List.findSome?_cons]
    cases ho : env.cyusbOpen k with
    | none => simp only [offer, ho, Option.bind_none, ih]
    | some ds =>
      have hfst := searchDevices_fst k ds (log ++ [.opened k])
      simp only [offer, ho, Option.bind_some]
      rw [← hfst]
      by_cases hds : 0 < ds.length
      · rw [if_pos hds]
        generalize searchDevices k ds 0 ds.length (log ++ [.opened k]) = r
        obtain ⟨_ | found, log'⟩ := r
        · exact ih _ _
        · rfl
      · obtain rfl : ds = [] := by simpa using hds
        rw [if_neg hds]
        exact ih _ _

section Discipline

variable {tgt : FwTarget} {log : Log}

/-- What the search guarantees: a handle that is found is in use, and its device has identified
itself. -/
structure SearchSound (tgt : FwTarget) (found : Option (Handle × Usb)) (log : Log) : Prop where
  disciplined : Disciplined tgt log
  current : ∀ p ∈ found, current log = some p.1.opening
  identified : ∀ p ∈ found, Identified log p.1

lemma searchSound_none (h : Disciplined tgt log) : SearchSound tgt none log :=
  ⟨h, fun _ hp => (Option.not_mem_none _ hp).elim, fun _ hp => (Option.not_mem_none _ hp).elim⟩

lemma identified_check (log : Log) (h : Handle) {usb : Usb} (ha : Answers usb) :
    Identified (log ++ via h [(checkRequest, usb [] checkRequest)]) h :=
  ⟨_, ha, List.mem_append_right log List.mem_cons_self⟩

/-- Asking a device for its name is always in order. -/
lemma Disciplined.check (hlog : Disciplined tgt log) {h : Handle}
    (hcur : Flash.current log = some h.opening) (reply : Reply) :
    Disciplined tgt (log ++ Flash.via h [(checkRequest, reply)]) := by
  refine hlog.via hcur fun x hx => ?_
  rw [List.mem_singleton.1 hx]
  exact .check rfl

lemma searchSound_devices (hlog : Disciplined tgt log) {k : ℕ} (hcur : Flash.current log = some k)
    (ds : List Device) :
    SearchSound tgt (searchDevices k ds 0 ds.length log).1
      (searchDevices k ds 0 ds.length log).2 := by
  rw [searchDevices_eq k (by simp)]
  cases askedFrom ds 0 with
  | none => exact searchSound_none hlog
  | some p =>
    obtain ⟨d, j⟩ := p
    have hlog' := hlog.check (h := ⟨k, j⟩) hcur (d.usb [] checkRequest)
    dsimp only
    split_ifs with ha
    · refine ⟨hlog', ?_, ?_⟩
      · rintro p ⟨rfl⟩
        rw [current_via]
        exact hcur
      · rintro p ⟨rfl⟩
        exact identified_check log _ ha
    · exact searchSound_none hlog'

lemma searchSound_openings (env : Surroundings) (n k : ℕ) (hlog : Disciplined tgt log) :
    SearchSound tgt (searchOpenings env n k log).1 (searchOpenings env n k log).2 := by
  induction n generalizing k log with
  | zero => exact searchSound_none hlog
  | succ n ih =>
    have hopened := hlog.opened k
    rw [searchOpenings]
    cases env.cyusbOpen k with
    | none => exact ih (k + 1) hopened
    | some ds =>
      by_cases hds : 0 < ds.length
      · simp only [if_pos hds]
        have hsound := searchSound_devices hopened (current_concat log (.opened k)) ds
        generalize searchDevices k ds 0 ds.length (log ++ [.opened k]) = r at hsound ⊢
        obtain ⟨_ | found, log'⟩ := r
        · exact ih (k + 1) hsound.disciplined.closed
        · exact hsound
      · simp only [if_neg hds]
        exact ih (k + 1) hopened

/-- The handle that has been found. -/
def Search.found? : Search → Option (Handle × Usb)
  | found h usb => some (h, usb)
  | failed _ => none

lemma searchSound_progHandle {env : Surroundings} {h : Handle} {usb : Usb} {fuel : ℕ}
    (hh : h = ⟨0, 0⟩) (hlog : Disciplined tgt log) (hcur : Flash.current log = some h.opening)
    {s : Search} {log' : Log} (hs : getFx3ProgHandle env h usb fuel log = some (s, log')) :
    SearchSound tgt s.found? log' := by
  have hcheck := hlog.check hcur (usb [] checkRequest)
  have hcur' := (current_via log h [(checkRequest, usb [] checkRequest)]).trans hcur
  simp only [getFx3ProgHandle, checkFx3Flashprog_trace, checkFx3Flashprog_code] at hs
  by_cases ha : Answers usb
  · rw [if_pos ha, if_pos rfl] at hs
    obtain ⟨rfl, rfl⟩ := Prod.mk.inj (Option.some.inj hs)
    refine ⟨hcheck, ?_, ?_⟩
    · rintro p ⟨rfl⟩
      exact hcur'
    · rintro p ⟨rfl⟩
      exact identified_check log h ha
  · rw [if_neg ha, if_neg (by decide)] at hs
    split_ifs at hs with hstat
    · obtain ⟨rfl, rfl⟩ := Prod.mk.inj (Option.some.inj hs)
      exact searchSound_none hcheck
    · obtain ⟨⟨outcome, t⟩, hd, hs⟩ := Option.map_eq_some_iff.1 hs
      have hload := hcheck.via hcur' fun x hx => .load (requests_of_usbboot hd x hx) hh
      dsimp only at hs
      split_ifs at hs with ho
      · obtain ⟨rfl, rfl⟩ := Prod.mk.inj hs
        exact searchSound_none hload
      · have hsound := searchSound_openings env gethandleTimeout 1 hload.closed
        generalize searchOpenings env gethandleTimeout 1 _ = r at hs hsound
        obtain ⟨_ | ⟨h', usb'⟩, log''⟩ := r
        · obtain ⟨rfl, rfl⟩ := Prod.mk.inj hs
          exact hsound
        · obtain ⟨rfl, rfl⟩ := Prod.mk.inj hs
          exact hsound

end Discipline

/-! ### Which device is found -/

lemma findSome?_range'_eq_some_iff {α : Type*} (f : ℕ → Option α) (k n : ℕ) (y : α) :
    (List.range' k n).findSome? f = some y ↔ ∃ j ∈ List.range' k n, f j = some y ∧
      ∀ j' ∈ List.range' k n, j' < j → f j' = none := by
  induction n generalizing k with
  | zero => simp
  | succ n ih =>
    rw [List.range'_succ, List.findSome?_cons]
    have hlt : ∀ j ∈ List.range' (k + 1) n, k < j := fun j hj => (List.mem_range'_1.1 hj).1
    cases hk : f k with
    | none =>
      rw [ih]
      simp only [List.exists_mem_cons_iff, List.forall_mem_cons, hk, reduceCtorEq, false_and,
        false_or, implies_true, true_and]
    | some x =>
      simp only [List.exists_mem_cons_iff, List.forall_mem_cons, hk, lt_irrefl, false_imp_iff,
        true_and, reduceCtorEq]
      constructor
      · exact fun hx => .inl ⟨hx, fun j hj hjk => absurd (hlt j hj) (lt_asymm hjk)⟩
      · rintro (⟨hx, -⟩ | ⟨j, hj, -, hnot, -⟩)
        · exact hx
        · exact absurd (hlt j hj) hnot

/-- Without a file there is nothing to download. -/
lemma usbboot_none_ne (usb : Usb) (calloc opens : Bool) (fuel : ℕ) (t : Trace) :
    fx3UsbbootDownload usb calloc none opens fuel ≠ some (.returned 0, t) := by
  cases calloc <;> simp [fx3UsbbootDownload, readFirmwareImage]

/-- Which device is taken for the flash programmer: the one that `main` has found, if it answers;
otherwise, when the flash programmer has been downloaded, the first device of the vendor in one of
five openings, the first one in which this device answers.  A programmer behind another device of
the vendor is not found. -/
theorem prog_handle_exact (env : Surroundings) (h₀ : Handle) (usb₀ : Usb) (fuel : ℕ)
    (log log' : Log) (s : Search) (hs : getFx3ProgHandle env h₀ usb₀ fuel log = some (s, log'))
    (h : Handle) (usb : Usb) : s.found? = some (h, usb) ↔
      (Answers usb₀ ∧ h = h₀ ∧ usb = checked usb₀) ∨
      (¬ Answers usb₀ ∧
        (∃ t, fx3UsbbootDownload (checked usb₀) env.progCalloc (env.stat progfile)
          (env.opens progfile) fuel = some (.returned 0, t)) ∧
        ∃ k ∈ List.range' 1 5, offer env k = some (h, usb) ∧
          ∀ k' ∈ List.range' 1 5, k' < k → offer env k' = none) := by
  simp only [getFx3ProgHandle, checkFx3Flashprog_trace, checkFx3Flashprog_code] at hs
  by_cases ha : Answers usb₀
  · rw [if_pos ha, if_pos rfl] at hs
    obtain ⟨rfl, -⟩ := Prod.mk.inj (Option.some.inj hs)
    simp [ha, Search.found?, eq_comm]
  · rw [if_neg ha, if_neg (by decide)] at hs
    simp only [ha, false_and, false_or, not_false_eq_true, true_and]
    split_ifs at hs with hstat
    · obtain ⟨rfl, -⟩ := Prod.mk.inj (Option.some.inj hs)
      rw [Option.isNone_iff_eq_none.1 hstat]
      simp [Search.found?, usbboot_none_ne]
    · obtain ⟨⟨outcome, t⟩, hd, hs⟩ := Option.map_eq_some_iff.1 hs
      rw [hd]
      dsimp only at hs
      split_ifs at hs with ho
      · obtain ⟨rfl, -⟩ := Prod.mk.inj hs
        simp [Search.found?, ho]
      · rw [not_not] at ho
        subst ho
        have hfst := searchOpenings_fst env 5 1
          (log ++ via h₀ [(checkRequest, usb₀ [] checkRequest)] ++ via h₀ t ++ [.closed])
        rw [← findSome?_range'_eq_some_iff, ← hfst]
        generalize searchOpenings env 5 1 _ = r at hs
        obtain ⟨_ | ⟨h', usb'⟩, log''⟩ := r
        · obtain ⟨rfl, -⟩ := Prod.mk.inj hs
          simp [Search.found?]
        · obtain ⟨rfl, -⟩ := Prod.mk.inj hs
          simp [Search.found?]

/-- The flash programmer with an EEPROM behind it. -/
def programmerUsb : Usb := fun t q =>
  if q = checkRequest then .moved (flashprogName ++ [0]) else eepromUsb t q

/-- Two files, and a device that runs the flash programmer in the third opening only. -/
def benchSurroundings : Surroundings where
  cyusbOpen k :=
    match k with
    | 0 => some [⟨0x04b4, readyUsb⟩]
    | 1 => none
    | 2 => some [⟨0x1d50, readyUsb⟩, ⟨0x04b4, programmerUsb⟩]
    | _ => some []
  stat name := if name = progfile then some bootFile else some headerFile
  opens _ := true
  progCalloc := true
  imageCalloc := true

/-- In the surroundings above it is the second device of the third opening. -/
theorem prog_handle_exact_example :
    ∃ s log, getFx3ProgHandle benchSurroundings ⟨0, 0⟩ readyUsb 3 [.opened 0] = some (s, log) ∧
      s.found? = some (⟨2, 1⟩, checked programmerUsb) := by
  have hsome :
      (getFx3ProgHandle benchSurroundings ⟨0, 0⟩ readyUsb 3 [.opened 0]).isSome = true := by
    decide +kernel
  have hdownload :
      (fx3UsbbootDownload (checked readyUsb) true (some bootFile) true 3).map Prod.fst =
        some (.returned 0) := by
    decide +kernel
  obtain ⟨⟨s, log⟩, hs⟩ := Option.isSome_iff_exists.1 hsome
  obtain ⟨⟨outcome, t⟩, ht, rfl⟩ := Option.map_eq_some_iff.1 hdownload
  refine ⟨s, log, hs, (prog_handle_exact _ _ _ _ _ _ s hs _ _).2 (.inr ⟨by decide +kernel,
    ⟨t, ht⟩, 2, by decide, ?_, ?_⟩)⟩
  · have ha : Answers programmerUsb := by decide +kernel
    exact if_pos (e := none) ha
  · intro k' hk' hlt
    obtain rfl : k' = 1 := by
      have hle := (List.mem_range'_1.1 hk').1
      omega
    rfl

/-! ### Termination -/

lemma settles_usbboot (usb : Usb) (calloc : Bool) (stat : Option File) (opens : Bool) :
    Settles (fx3UsbbootDownload usb calloc stat opens) := by
  cases calloc with
  | false => exact settles_some _
  | true =>
    simp only [Settles, fx3UsbbootDownload, Bool.not_true, Bool.false_eq_true, if_false]
    split_ifs
    · exact settles_some _
    · obtain ⟨r, hr⟩ := exists_ends_sectionStep usb _ _
      exact hr.settles

/-- An EEPROM that an accepted image names has some bytes. -/
lemma romsize_pos {stat : Option File} {opens : Bool} {buf : Mem}
    (h : (readFirmwareImage stat opens true buf).code = 0) :
    0 < (readFirmwareImage stat opens true buf).romsize.getD 0 := by
  have hrom : ∀ b, 0 < (selectRomsize true b).getD 0 := by
    intro b
    have hall : ∀ i : Fin 8, 0 < i2cEepromSize[i.val]?.getD 0 := by decide
    rw [selectRomsize_eq]
    exact hall ⟨b.toNat / 2 % 8, Nat.mod_lt _ (by decide)⟩
  cases stat with
  | none => cases h
  | some f =>
    simp only [readFirmwareImage] at h ⊢
    split_ifs at h ⊢ <;> first | exact hrom _ | simp at h

/-- The loop over the EEPROMs is left, also for a size that is negative as an `int`. -/
lemma exists_ends_i2cStep (usb : Usb) (fwBuf : Mem) {romsize : ℤ} (hrom : 0 < romsize)
    (s : I2cState) : ∃ r, Ends (i2cStep usb fwBuf romsize) s r := by
  refine exists_ends (I := fun _ => True) (fun s => s.filesize.natAbs) ?_ trivial
  intro s s' _ hs
  refine ⟨trivial, ?_⟩
  simp only [i2cStep] at hs
  split_ifs at hs with hsize hle hr hr
  · cases hs
    dsimp only
    omega
  · cases hs
    dsimp only
    omega

lemma settles_i2cboot (handle : Option Usb) (stat : Option File) (opens : Bool) :
    Settles (fx3I2cbootDownload handle stat opens) := by
  cases handle with
  | none => exact settles_some _
  | some usb =>
    simp only [Settles, fx3I2cbootDownload]
    split_ifs with hcode
    · exact settles_some _
    · have hrom := romsize_pos (not_not.1 hcode)
      obtain ⟨r, hr⟩ := exists_ends_i2cStep usb _ (Int.natCast_pos.2 hrom) _
      exact hr.settles

lemma settles_progHandle (env : Surroundings) (h : Handle) (usb : Usb) (log : Log) :
    Settles fun fuel => getFx3ProgHandle env h usb fuel log := by
  simp only [getFx3ProgHandle]
  split_ifs
  · exact settles_some _
  · exact settles_some _
  · exact (settles_usbboot _ _ _ _).map _

end Fx3Ncm.Flash
