/-
# Control transfers of the flash tool

`cyusb_control_transfer` as the flash tool sees it: a request goes out and a reply comes back.
The device is a function from the exchanges so far and the request to the reply, so that every
behaviour of the other side is covered.

The functions that move an image (`fx3_ram_write`, `fx3_i2c_write`, `fx3_i2c_read_verify`) are one
loop with different requests and different tests of the reply, `transferLoop`; those that write it
differ only in their requests, `writeLoop`.  Access to the image buffer is checked against its
size; what is outside is undefined in C and ends the run with `Outcome.fault`.
-/
import Fx3Ncm.Flash.Image
import Fx3Ncm.Lib.Spans

namespace Fx3Ncm.Flash

open ByteMemory

@[simp, reducible] def maxWriteSize : ℕ := 2 * 1024

/-! ### Exchanges with the device -/

/-- The arguments of `cyusb_control_transfer`.  `data` holds the bytes that are sent; a request
that reads has none. -/
structure ControlRequest where
  bmRequestType : UInt8
  bRequest : UInt8
  wValue : UInt16
  wIndex : UInt16
  data : List UInt8
  wLength : ℕ
deriving DecidableEq, Repr

/-- What came of a transfer: it failed with a negative error code, or these bytes were moved. -/
inductive Reply where
  | failed (code : ℕ)
  | moved (bytes : List UInt8)
deriving DecidableEq, Repr

namespace Reply

/-- The return value of `cyusb_control_transfer`. -/
def result : Reply → ℤ
  | failed code => Int.negSucc code
  | moved bytes => bytes.length

/-- The bytes moved. -/
def bytes : Reply → List UInt8
  | failed _ => []
  | moved bytes => bytes

end Reply

/-- A request and its reply. -/
abbrev Exchange := ControlRequest × Reply

/-- The exchanges so far, oldest first. -/
abbrev Trace := List Exchange

/-- The behaviour of the device. -/
abbrev Usb := Trace → ControlRequest → Reply

/-- `cyusb_control_transfer` -/
def controlTransfer (usb : Usb) (request : ControlRequest) (t : Trace) : Reply × Trace :=
  (usb t request, t ++ [(request, usb t request)])

/-! ### The image buffer -/

/-- How a function ends: it returns, or it has left the image buffer. -/
inductive Outcome where
  | returned (r : ℤ)
  | fault
deriving DecidableEq, Repr

/-- The `n` bytes from offset `o` of the image buffer on. -/
def readBuf (fwBuf : Mem) (o : ℤ) (n : ℕ) : Option (List UInt8) :=
  if 0 ≤ o ∧ o + n ≤ maxFwimgSize then some (load fwBuf o.toNat n) else none

lemma readBuf_natCast (fwBuf : Mem) {o n : ℕ} (h : o + n ≤ maxFwimgSize) :
    readBuf fwBuf o n = some (load fwBuf o n) := by
  rw [readBuf, if_pos ⟨Int.natCast_nonneg o, by exact_mod_cast h⟩, Int.toNat_natCast]

/-! ### The transfer loop -/

/-- The loop of the functions that move an image.  `request offset size` is the request for the
next piece, if the piece lies inside the buffer, and `judge offset size reply` tells how the
function ends if it does not go on after the reply. -/
def transferLoop (usb : Usb) (request : ℕ → ℕ → Option ControlRequest)
    (judge : ℕ → ℕ → Reply → Option Outcome) (offset len : ℕ) (t : Trace) : Outcome × Trace :=
  if 0 < len then
    let size := min len maxWriteSize
    match request offset size with
    | none => (.fault, t)
    | some q =>
      let r := controlTransfer usb q t
      match judge offset size r.1 with
      | some outcome => (outcome, r.2)
      | none => transferLoop usb request judge (offset + size) (len - size) r.2
  else (.returned 0, t)
termination_by len
decreasing_by simp; omega

section Loop

variable {usb : Usb} {request : ℕ → ℕ → Option ControlRequest}
  {judge : ℕ → ℕ → Reply → Option Outcome} {offset len : ℕ} {t t' : Trace}

/-- The exchange for a piece, after which the loop goes on. -/
structure Moves (request : ℕ → ℕ → Option ControlRequest) (judge : ℕ → ℕ → Reply → Option Outcome)
    (s : ℕ × ℕ) (x : Exchange) : Prop where
  request : request s.1 s.2 = some x.1
  judge : judge s.1 s.2 x.2 = none

/-- When the loop has come to its end, there has been one exchange for each piece. -/
lemma moves_of_returned (hjudge : ∀ o n r, judge o n r ≠ some (.returned 0))
    (h : transferLoop usb request judge offset len t = (.returned 0, t')) :
    ∃ xs, t' = t ++ xs ∧
      List.Forall₂ (Moves request judge) (spans maxWriteSize offset len) xs := by
  fun_induction transferLoop usb request judge offset len t with
  | case1 offset len t hlen size hreq => cases h
  | case2 offset len t hlen size q hq r outcome ho =>
    obtain ⟨rfl, -⟩ := Prod.mk.inj h
    exact absurd ho (hjudge _ _ _)
  | case3 offset len t hlen size q hq r hnone ih =>
    obtain ⟨xs, rfl, hxs⟩ := ih h
    refine ⟨(q, r.1) :: xs, ?_, ?_⟩
    · exact List.append_assoc _ _ _
    · rw [spans_of_pos (by decide) hlen]
      exact .cons ⟨hq, hnone⟩ hxs
  | case4 offset len t hlen =>
    obtain ⟨-, rfl⟩ := Prod.mk.inj h
    obtain rfl : len = 0 := by omega
    refine ⟨[], (List.append_nil _).symm, ?_⟩
    rw [spans_zero]
    exact .nil

/-- The requests of the exchanges for the pieces. -/
lemma requests_of_moves {f : ℕ × ℕ → ControlRequest} {ss : List (ℕ × ℕ)} {xs : Trace}
    (h : List.Forall₂ (Moves request judge) ss xs)
    (hf : ∀ s ∈ ss, request s.1 s.2 = some (f s)) : xs.map Prod.fst = ss.map f := by
  induction h with
  | nil => rfl
  | cons hx _ ih =>
    have hq := Option.some.inj ((hf _ List.mem_cons_self).symm.trans hx.request)
    rw [List.map_cons, List.map_cons, hq, ih fun s hs => hf s (List.mem_cons_of_mem _ hs)]

/-- What is true of every exchange for a piece. -/
lemma forall_of_moves {P : Exchange → Prop} {ss : List (ℕ × ℕ)} {xs : Trace}
    (h : List.Forall₂ (Moves request judge) ss xs)
    (hP : ∀ s ∈ ss, ∀ x, Moves request judge s x → P x) : ∀ x ∈ xs, P x := by
  induction h with
  | nil => exact fun x hx => absurd hx List.not_mem_nil
  | cons hx _ ih =>
    intro y hy
    rcases List.mem_cons.1 hy with rfl | hy
    · exact hP _ List.mem_cons_self _ hx
    · exact ih (fun s hs => hP s (List.mem_cons_of_mem _ hs)) y hy

/-- There is an exchange for every piece. -/
lemma exists_of_moves {ss : List (ℕ × ℕ)} {xs : Trace}
    (h : List.Forall₂ (Moves request judge) ss xs) {s : ℕ × ℕ} (hs : s ∈ ss) :
    ∃ x ∈ xs, Moves request judge s x := by
  induction h with
  | nil => exact absurd hs List.not_mem_nil
  | cons hx _ ih =>
    rcases List.mem_cons.1 hs with rfl | hs
    · exact ⟨_, List.mem_cons_self, hx⟩
    · obtain ⟨x, hmem, hx'⟩ := ih hs
      exact ⟨x, List.mem_cons_of_mem _ hmem, hx'⟩

/-- The loop stays inside the buffer if its pieces do. -/
lemma transferLoop_ne_fault
    (hrequest : ∀ s ∈ spans maxWriteSize offset len, request s.1 s.2 ≠ none)
    (hjudge : ∀ s ∈ spans maxWriteSize offset len, ∀ r, judge s.1 s.2 r ≠ some .fault) :
    (transferLoop usb request judge offset len t).1 ≠ .fault := by
  fun_induction transferLoop usb request judge offset len t with
  | case1 offset len t hlen size hreq =>
    rw [spans_of_pos (by decide) hlen] at hrequest
    exact absurd hreq (hrequest _ List.mem_cons_self)
  | case2 offset len t hlen size q hq r outcome ho =>
    rw [spans_of_pos (by decide) hlen] at hjudge
    rintro rfl
    exact hjudge _ List.mem_cons_self _ ho
  | case3 offset len t hlen size q hq r hnone ih =>
    rw [spans_of_pos (by decide) hlen] at hrequest hjudge
    exact ih (fun s hs => hrequest s (List.mem_cons_of_mem _ hs))
      fun s hs => hjudge s (List.mem_cons_of_mem _ hs)
  | case4 offset len t hlen => simp

/-- The loop comes to its end if every reply is accepted that can come after the exchanges so
far, of which `I` is kept. -/
lemma transferLoop_returned {I : Trace → Prop} (ht : I t)
    (h : ∀ s ∈ spans maxWriteSize offset len, ∀ t, I t →
      ∃ q, request s.1 s.2 = some q ∧ judge s.1 s.2 (usb t q) = none ∧ I (t ++ [(q, usb t q)])) :
    (transferLoop usb request judge offset len t).1 = .returned 0 := by
  fun_induction transferLoop usb request judge offset len t with
  | case1 offset len t hlen size hreq =>
    rw [spans_of_pos (by decide) hlen] at h
    obtain ⟨q, hq, -⟩ := h _ List.mem_cons_self t ht
    exact absurd (hreq.symm.trans hq) (by simp)
  | case2 offset len t hlen size q hq r outcome ho =>
    rw [spans_of_pos (by decide) hlen] at h
    obtain ⟨q', hq', hnone, -⟩ := h _ List.mem_cons_self t ht
    obtain rfl : q = q' := Option.some.inj (hq.symm.trans hq')
    exact absurd (ho.symm.trans hnone) (by simp)
  | case3 offset len t hlen size q hq r hnone ih =>
    rw [spans_of_pos (by decide) hlen] at h
    obtain ⟨q', hq', -, hI⟩ := h _ List.mem_cons_self t ht
    obtain rfl : q = q' := Option.some.inj (hq.symm.trans hq')
    exact ih hI fun s hs => h s (List.mem_cons_of_mem _ hs)
  | case4 offset len t hlen => rfl

end Loop

/-! ### The write loop -/

/-- All bytes of the request have been moved. -/
def Complete (x : Exchange) : Prop := x.2.result = x.1.wLength

/-- Every transfer moves all bytes of its request. -/
def Succeeds (usb : Usb) : Prop := ∀ t q, Complete (q, usb t q)

/-- The loop of the functions that write a part of the image, from offset `start` of the buffer
on.  `request index data` is the request that sends the bytes `data`, when `index` bytes have been
sent. -/
def writeLoop (usb : Usb) (fwBuf : Mem) (start : ℤ) (request : ℕ → List UInt8 → ControlRequest)
    (len : ℤ) (t : Trace) : Outcome × Trace :=
  transferLoop usb (fun index size => (readBuf fwBuf (start + index) size).map (request index))
    (fun _ size r => if r.result ≠ size then some (.returned (-1)) else none) 0 len.toNat t

/-- The requests that write `n` bytes. -/
def writeRequests (fwBuf : Mem) (start : ℕ) (request : ℕ → List UInt8 → ControlRequest) (n : ℕ) :
    List ControlRequest :=
  (spans maxWriteSize 0 n).map fun s => request s.1 (load fwBuf (start + s.1) s.2)

section Write

variable {usb : Usb} {fwBuf : Mem} {b n : ℕ} {request : ℕ → List UInt8 → ControlRequest}
  {t t' : Trace}

/-- The request for a piece of the part. -/
lemma request_of_mem_spans (h : b + n ≤ maxFwimgSize) {s : ℕ × ℕ}
    (hs : s ∈ spans maxWriteSize 0 n) :
    (readBuf fwBuf ((b : ℤ) + (s.1 : ℕ)) s.2).map (request s.1) =
      some (request s.1 (load fwBuf (b + s.1) s.2)) := by
  have hspan := mem_spans hs
  have ho : (b : ℤ) + (s.1 : ℕ) = (b + s.1 : ℕ) := by push_cast; rfl
  rw [ho, readBuf_natCast fwBuf (by omega)]
  rfl

/-- A write that succeeds has sent all bytes. -/
lemma writeLoop_of_returned (hrequest : ∀ o data, (request o data).wLength = data.length)
    (h : b + n ≤ maxFwimgSize)
    (hr : writeLoop usb fwBuf b request n t = (.returned 0, t')) :
    ∃ xs, t' = t ++ xs ∧ xs.map Prod.fst = writeRequests fwBuf b request n ∧
      ∀ x ∈ xs, Complete x := by
  rw [writeLoop, Int.toNat_natCast] at hr
  obtain ⟨xs, hxs, hmoves⟩ := moves_of_returned (fun o n r => by split_ifs <;> simp) hr
  refine ⟨xs, hxs, requests_of_moves hmoves fun s hs => request_of_mem_spans h hs, ?_⟩
  refine forall_of_moves hmoves fun s hs x hx => ?_
  have hq := Option.some.inj ((request_of_mem_spans h hs).symm.trans hx.request)
  have hlen : x.1.wLength = s.2 := by
    rw [← hq, hrequest, length_load]
  have hjudge := hx.judge
  split_ifs at hjudge with hresult
  rw [Complete, hlen]
  exact not_not.1 hresult

lemma writeLoop_ne_fault (h : b + n ≤ maxFwimgSize) :
    (writeLoop usb fwBuf b request n t).1 ≠ .fault := by
  rw [writeLoop, Int.toNat_natCast]
  refine transferLoop_ne_fault ?_ ?_
  · intro s hs
    rw [request_of_mem_spans h hs]
    exact Option.some_ne_none _
  · intro s _ r
    split_ifs <;> simp

lemma writeLoop_of_succeeds (hrequest : ∀ o data, (request o data).wLength = data.length)
    (husb : ∀ t o data, Complete (request o data, usb t (request o data)))
    (h : b + n ≤ maxFwimgSize) : (writeLoop usb fwBuf b request n t).1 = .returned 0 := by
  rw [writeLoop, Int.toNat_natCast]
  refine transferLoop_returned (I := fun _ => True) trivial fun s hs t _ =>
    ⟨_, request_of_mem_spans h hs, ?_, trivial⟩
  rw [if_neg]
  rw [not_not, husb t, hrequest, length_load]

end Write

end Fx3Ncm.Flash
