/-
# Requests and answers on endpoint 0

A setup packet arrives as two words.  `appThread_Entry` takes them apart into a
`usb_control_request_t`, and `net_usb_control_transfer` answers the request through
`usb_transfer_ep0` or `usb_control_status`.  Two results, one for each end of this path:

* `setup_decoding`: the request carries the fields of the packet exactly if the direction bit
  is zero.  The bit is shifted out of the word before it is stored.
* `ep0_contract`: a request is answered once or not at all, and the answer is as long as the
  host allows it to be exactly if the host leaves room for all of it.  `usb_transfer_ep0` does
  not look at `wLength`.
-/
import Fx3Ncm.App.Firmware

namespace Fx3Ncm

/-! ### Setup packets -/

/-- A setup packet. -/
structure SetupPacket where
  bmRequestType : UInt8
  bRequest : UInt8
  wValue : UInt16
  wIndex : UInt16
  wLength : UInt16
deriving DecidableEq, Repr

namespace SetupPacket

variable (p : SetupPacket)

/-- The first word: request type, request and value, from the low end. -/
def setupdat0 : UInt32 :=
  UInt32.ofNat (p.bmRequestType.toNat + 2 ^ 8 * p.bRequest.toNat + 2 ^ 16 * p.wValue.toNat)

/-- The second word: index and length, from the low end. -/
def setupdat1 : UInt32 := UInt32.ofNat (p.wIndex.toNat + 2 ^ 16 * p.wLength.toNat)

/-- Bit 7 of `bmRequestType`. -/
def direction : ℕ := p.bmRequestType.toNat / 128

/-- Bits 6 and 5 of `bmRequestType`. -/
def type : ℕ := p.bmRequestType.toNat / 32 % 4

/-- The low bits of `bmRequestType`. -/
def recipient : ℕ := p.bmRequestType.toNat % 32

/-- The recipients there are: device, interface, endpoint and other. -/
def HasRecipient : Prop := p.recipient < 4

instance : Decidable p.HasRecipient := inferInstanceAs (Decidable (_ < _))

end SetupPacket

/-- The packet that a request stands for: its members in their order, and the bit fields of
`bmRequestType` from the low end. -/
def UsbControlRequest.packet (r : UsbControlRequest) : SetupPacket where
  bmRequestType :=
    UInt8.ofNat (r.recipient.toNat + 32 * r.type.toNat + 128 * r.direction.toNat)
  bRequest := r.bRequest
  wValue := r.wValue
  wIndex := r.wIndex
  wLength := r.wLength

/-- The request carries the fields of the packet. -/
structure Carries (r : UsbControlRequest) (p : SetupPacket) : Prop where
  direction : r.direction.toNat = p.direction
  type : r.type.toNat = p.type
  recipient : r.recipient.toNat = p.recipient
  bRequest : r.bRequest = p.bRequest
  wValue : r.wValue = p.wValue
  wIndex : r.wIndex = p.wIndex
  wLength : r.wLength = p.wLength

/-- The packet survives decoding: the request that `appThread_Entry` builds from its words
carries its fields, and encoding the request again gives the words back. -/
def DecodesFaithfully (p : SetupPacket) : Prop :=
  let r := setupRequest p.setupdat0 p.setupdat1
  Carries r p ∧ r.packet.setupdat0 = p.setupdat0 ∧ r.packet.setupdat1 = p.setupdat1

section Decoding

variable (p : SetupPacket)

lemma toNat_setupdat0 : p.setupdat0.toNat =
    p.bmRequestType.toNat + 2 ^ 8 * p.bRequest.toNat + 2 ^ 16 * p.wValue.toNat := by
  have h₁ := p.bmRequestType.toNat_lt
  have h₂ := p.bRequest.toNat_lt
  have h₃ := p.wValue.toNat_lt
  rw [SetupPacket.setupdat0, UInt32.toNat_ofNat']
  omega

lemma toNat_setupdat1 : p.setupdat1.toNat = p.wIndex.toNat + 2 ^ 16 * p.wLength.toNat := by
  have h₁ := p.wIndex.toNat_lt
  have h₂ := p.wLength.toNat_lt
  rw [SetupPacket.setupdat1, UInt32.toNat_ofNat']
  omega

/-- A field of `width` bits from bit `pos` on. -/
lemma field_eq (n pos width : ℕ) :
    (n &&& (2 ^ width - 1) <<< pos) >>> pos = n / 2 ^ pos % 2 ^ width := by
  rw [Nat.shiftRight_and_distrib, Nat.shiftLeft_shiftRight, Nat.and_two_pow_sub_one_eq_mod,
    Nat.shiftRight_eq_div_pow]

/-- The direction is always decoded as zero: bit 7 is masked and shifted by 8. -/
lemma direction_setupRequest (d₀ d₁ : UInt32) : (setupRequest d₀ d₁).direction.toNat = 0 := by
  have hle : d₀.toNat &&& 255 &&& 128 ≤ 128 := Nat.and_le_right
  have h : (setupRequest d₀ d₁).direction.toNat = (d₀.toNat &&& 255 &&& 128) >>> 8 % 2 := by
    simp [setupRequest]
  rw [h, Nat.shiftRight_eq_div_pow]
  omega

lemma type_setupRequest (d₀ d₁ : UInt32) :
    (setupRequest d₀ d₁).type.toNat = d₀.toNat / 32 % 4 := by
  have h : (setupRequest d₀ d₁).type.toNat =
      (d₀.toNat &&& (2 ^ 8 - 1) &&& (2 ^ 2 - 1) <<< 5) >>> 5 % 4 := by
    simp [setupRequest]
  rw [h, field_eq, Nat.and_two_pow_sub_one_eq_mod]
  omega

lemma recipient_setupRequest (d₀ d₁ : UInt32) :
    (setupRequest d₀ d₁).recipient.toNat = d₀.toNat % 4 := by
  have h : (setupRequest d₀ d₁).recipient.toNat =
      (d₀.toNat &&& (2 ^ 8 - 1) &&& (2 ^ 2 - 1)) % 32 := rfl
  rw [h, Nat.and_two_pow_sub_one_eq_mod, Nat.and_two_pow_sub_one_eq_mod]
  omega

lemma bRequest_setupRequest (d₀ d₁ : UInt32) :
    (setupRequest d₀ d₁).bRequest.toNat = d₀.toNat / 2 ^ 8 % 2 ^ 8 := by
  have h : (setupRequest d₀ d₁).bRequest.toNat =
      (d₀.toNat &&& (2 ^ 8 - 1) <<< 8) >>> 8 % 2 ^ 8 := by
    simp [setupRequest]
  rw [h, field_eq, Nat.mod_mod]

/-- The two upper halves, `wValue` and `wLength`, are decoded alike. -/
lemma upperHalf_eq (d : UInt32) :
    ((d &&& valueMask) >>> valuePos).toUInt16.toNat = d.toNat / 2 ^ 16 % 2 ^ 16 := by
  have h : ((d &&& valueMask) >>> valuePos).toUInt16.toNat =
      (d.toNat &&& (2 ^ 16 - 1) <<< 16) >>> 16 % 2 ^ 16 := by
    simp
  rw [h, field_eq, Nat.mod_mod]

lemma wIndex_setupRequest (d₀ d₁ : UInt32) :
    (setupRequest d₀ d₁).wIndex.toNat = d₁.toNat % 2 ^ 16 := by
  have h : (setupRequest d₀ d₁).wIndex.toNat = (d₁.toNat &&& (2 ^ 16 - 1)) % 2 ^ 16 := rfl
  rw [h, Nat.and_two_pow_sub_one_eq_mod, Nat.mod_mod]

/-- The request that the thread builds from a packet, field by field. -/
lemma setupRequest_fields : let r := setupRequest p.setupdat0 p.setupdat1
    r.direction.toNat = 0 ∧ r.type.toNat = p.type ∧
      r.recipient.toNat = p.bmRequestType.toNat % 4 ∧ r.bRequest = p.bRequest ∧
      r.wValue = p.wValue ∧ r.wIndex = p.wIndex ∧ r.wLength = p.wLength := by
  have h₀ := toNat_setupdat0 p
  have h₁ := toNat_setupdat1 p
  have hrequest := p.bRequest.toNat_lt
  have htype := p.bmRequestType.toNat_lt
  have hvalue := p.wValue.toNat_lt
  have hindex := p.wIndex.toNat_lt
  have hlength := p.wLength.toNat_lt
  refine ⟨direction_setupRequest _ _, ?_, ?_, ?_, ?_, ?_, ?_⟩
  · rw [type_setupRequest, SetupPacket.type]
    omega
  · rw [recipient_setupRequest]
    omega
  · rw [← UInt8.toNat_inj, bRequest_setupRequest]
    omega
  · refine UInt16.toNat_inj.1 ((upperHalf_eq _).trans ?_)
    omega
  · rw [← UInt16.toNat_inj, wIndex_setupRequest]
    omega
  · refine UInt16.toNat_inj.1 ((upperHalf_eq _).trans ?_)
    omega

end Decoding

/-- A packet for one of the recipients there are is decoded faithfully exactly if its direction
bit is zero. -/
theorem setup_decoding {p : SetupPacket} (hp : p.HasRecipient) :
    DecodesFaithfully p ↔ p.direction = 0 := by
  obtain ⟨hdirection, htype, hrecipient, hrequest, hvalue, hindex, hlength⟩ :=
    setupRequest_fields p
  have hlt := p.bmRequestType.toNat_lt
  constructor
  · rintro ⟨hcarries, -⟩
    exact hcarries.direction.symm.trans hdirection
  · intro hzero
    rw [SetupPacket.HasRecipient, SetupPacket.recipient] at hp
    rw [SetupPacket.direction] at hzero
    have hmod : p.bmRequestType.toNat % 32 = p.bmRequestType.toNat % 4 := by omega
    have hpacket : (setupRequest p.setupdat0 p.setupdat1).packet = p := by
      have hbyte : UInt8.ofNat (p.bmRequestType.toNat % 4 + 32 * p.type + 128 * 0) =
          p.bmRequestType := by
        rw [← UInt8.toNat_inj, UInt8.toNat_ofNat', SetupPacket.type]
        omega
      rw [UsbControlRequest.packet, hdirection, htype, hrecipient, hrequest, hvalue, hindex,
        hlength, hbyte]
    refine ⟨⟨?_, htype, ?_, hrequest, hvalue, hindex, hlength⟩, ?_, ?_⟩
    · rw [hdirection, SetupPacket.direction, hzero]
    · rw [hrecipient, SetupPacket.recipient, hmod]
    · rw [hpacket]
    · rw [hpacket]

/-- The packet of a `SET_INTERFACE` request for the data interface. -/
def setInterfacePacket : SetupPacket := ⟨0x01, usbReqSetInterface, 1, 1, 0⟩

theorem setup_decoding_setInterface :
    setInterfacePacket.HasRecipient ∧ DecodesFaithfully setInterfacePacket := by
  have hp : setInterfacePacket.HasRecipient := by decide
  exact ⟨hp, (setup_decoding hp).2 rfl⟩

/-- The packet of a `GET_NTB_PARAMETERS` request: class, interface, device to host. -/
def getNtbParametersPacket : SetupPacket := ⟨0xA1, ncmGetNtbParameters, 0, 1, 28⟩

/-- The request to read the NTB parameters is decoded as a request to write. -/
theorem setup_decoding_fails :
    getNtbParametersPacket.HasRecipient ∧ ¬ DecodesFaithfully getNtbParametersPacket := by
  refine ⟨by decide, ?_⟩
  rintro ⟨hcarries, -⟩
  exact absurd hcarries.direction (by decide)

/-! ### Answers -/

/-- `usb_transfer_ep0` of `main.c`: its result, and the bytes passed to `CyU3PUsbSendEP0Data`.
The request is not looked at. -/
def Firmware.usbTransferEp0 (_request : UsbControlRequest) (buffer : List UInt8) (bytes : ℕ) :
    Bool × List UInt8 :=
  (true, buffer.take bytes)

/-- A call that answers a control request, with data or with the status stage alone. -/
def Call.isResponse : Call → Bool
  | .usbTransferEp0 _ _ | .usbControlStatus => true
  | _ => false

/-- Any other call. -/
def Call.NotResponse (c : Call) : Prop := c.isResponse = false

/-- Between `w` and `w'` the request has been answered once, with no more data than the host
asked for, and only a `SET_INTERFACE` has changed `interface_active`. -/
structure Answered (request : UsbControlRequest) (w w' : World) : Prop where
  calls : ∃ cs, w'.log = w.log ++ cs ∧ (cs.filter Call.isResponse).length = 1 ∧
    ∀ buffer bytes, .usbTransferEp0 buffer bytes ∈ cs →
      (Firmware.usbTransferEp0 request buffer bytes).2.length ≤ request.wLength.toNat
  setting : w'.interfaceActive ≠ w.interfaceActive → request.IsSetInterface

/-- The contract of `net_usb_control_transfer`: a refused request leaves no trace, and any other
is answered. -/
def Ep0Contract (env : Env) (request : UsbControlRequest) (w : World) : Prop :=
  let r := netUsbControlTransfer env request w
  (r.1 = false ∧ r.2 = w) ∨ (r.1 = true ∧ Answered request w r.2)

/-- The host leaves room for the answer: one byte for `GET_INTERFACE`, and the whole structure
for `GET_NTB_PARAMETERS`. -/
def RoomForAnswer (request : UsbControlRequest) : Prop :=
  (request.type = usbTypeStandard → request.bRequest = usbReqGetInterface →
      1 ≤ request.wLength.toNat) ∧
    (request.type = usbTypeClass → request.bRequest = ncmGetNtbParameters →
      ntbParameters.length ≤ request.wLength.toNat)

section Contract

variable {env : Env} {request : UsbControlRequest} {w : World}

lemma notResponse_of_isOffer {c : Call} (hc : c.IsOffer) : c.NotResponse := by
  cases c <;> first | rfl | exact absurd hc id

lemma continues_txNotification (force : Bool) :
    Continues Call.NotResponse w.log (txNotification env force w).log := by
  have hsend : ∀ (buffer : Buffer) (bytes : ℕ) (w : World), Continues Call.NotResponse w.log
      (usbTransferEp env ncmEpNotify buffer bytes w).2.log := fun _ _ _ => .single rfl
  unfold txNotification
  split_ifs
  · exact .refl _
  · exact (hsend _ _ _).trans (hsend _ _ _)
  · exact .refl _
  · exact .refl _

/-- A `SET_INTERFACE` request is answered by the status stage, after everything else. -/
lemma setInterface_log (env : Env) (wValue : UInt16) (w : World) :
    ∃ cs, (∀ c ∈ cs, c.NotResponse) ∧
      (setInterface env wValue w).log = w.log ++ (cs ++ [.usbControlStatus]) := by
  have hquiet : Continues Call.NotResponse w.log
      (if wValue.toNat % 2 ^ 8 ≠ 0 then txNotification env false
        (rxUpdateUserNtb env { w with interfaceActive := wValue.toNat % 2 ^ 8 }).2
      else { w with interfaceActive := wValue.toNat % 2 ^ 8 }).log := by
    split_ifs
    · refine Continues.trans ?_ (continues_txNotification false)
      have hoffer :=
        offerQuiet_rxUpdateUserNtb env { w with interfaceActive := wValue.toNat % 2 ^ 8 }
      exact hoffer.calls.mono fun c => notResponse_of_isOffer
    · exact .refl _
  obtain ⟨cs, hlog, hcs⟩ := hquiet
  refine ⟨cs, hcs, ?_⟩
  rw [← List.append_assoc, ← hlog]
  rfl

/-- A request that is answered with data. -/
lemma answered_record_iff (request : UsbControlRequest) (w : World) (buffer : List UInt8) :
    Answered request w (w.record (.usbTransferEp0 buffer buffer.length)) ↔
      buffer.length ≤ request.wLength.toNat := by
  have hsent : (Firmware.usbTransferEp0 request buffer buffer.length).2 = buffer :=
    List.take_length
  constructor
  · rintro ⟨⟨cs, hlog, -, hdata⟩, -⟩
    obtain rfl := List.append_cancel_left hlog
    have h := hdata buffer buffer.length (List.mem_singleton.2 rfl)
    rwa [hsent] at h
  · intro h
    refine ⟨⟨_, rfl, rfl, ?_⟩, fun h' => absurd rfl h'⟩
    intro buffer' bytes hmem
    obtain ⟨rfl, rfl⟩ : buffer' = buffer ∧ bytes = buffer.length := by simpa using hmem
    rwa [hsent]

/-- A `SET_INTERFACE` request is answered, whatever it asks for. -/
lemma answered_setInterface (h : request.IsSetInterface) :
    Answered request w (setInterface env request.wValue w) := by
  obtain ⟨cs, hcs, hlog⟩ := setInterface_log env request.wValue w
  refine ⟨⟨_, hlog, ?_, ?_⟩, fun _ => h⟩
  · have hnone : cs.filter Call.isResponse = [] :=
      List.filter_eq_nil_iff.2 fun c hc => Bool.eq_false_iff.1 (hcs c hc)
    rw [List.filter_append, hnone]
    rfl
  · intro buffer bytes hmem
    rcases List.mem_append.1 hmem with hmem | hmem
    · exact absurd (hcs _ hmem) (by simp [Call.NotResponse, Call.isResponse])
    · exact absurd (List.mem_singleton.1 hmem) (by simp)

end Contract

/-- In every state and for every request, the contract of endpoint 0 is kept exactly if the host
leaves room for the answer. -/
theorem ep0_contract (env : Env) (request : UsbControlRequest) (w : World) :
    Ep0Contract env request w ↔ RoomForAnswer request := by
  have htypes : request.type = usbTypeStandard → request.type ≠ usbTypeClass := by
    intro h
    rw [h]
    decide
  rw [Ep0Contract, netUsbControlTransfer, RoomForAnswer]
  split_ifs with hstd hget hset hclass hntb
  · have hiff := answered_record_iff request w [UInt8.ofNat w.interfaceActive]
    simpa [hstd, hget] using hiff
  · refine iff_of_true (Or.inr ⟨rfl, answered_setInterface ⟨hstd, hset⟩⟩) ⟨?_, ?_⟩
    · exact fun _ h => absurd h hget
    · exact fun h => absurd h (htypes hstd)
  · refine iff_of_true (Or.inl ⟨rfl, rfl⟩) ⟨?_, ?_⟩
    · exact fun _ h => absurd h hget
    · exact fun h => absurd h (htypes hstd)
  · have hiff := answered_record_iff request w ntbParameters
    simpa [hstd, hclass, hntb] using hiff
  · refine iff_of_true (Or.inl ⟨rfl, rfl⟩) ⟨?_, ?_⟩
    · exact fun h => absurd h hstd
    · exact fun _ h => absurd h hntb
  · refine iff_of_true (Or.inl ⟨rfl, rfl⟩) ⟨?_, ?_⟩
    · exact fun h => absurd h hstd
    · exact fun h => absurd h hclass

/-- A `GET_NTB_PARAMETERS` request of a host that asks for the first eight bytes. -/
def getNtbParametersShort : UsbControlRequest where
  recipient := 1
  type := usbTypeClass
  direction := 1
  bRequest := ncmGetNtbParameters
  wValue := 0
  wIndex := 1
  wLength := 8

/-- The host that asks for eight bytes is sent all of the structure. -/
theorem ep0_contract_fails : ¬ Ep0Contract .accepting getNtbParametersShort World.init := by
  rintro (⟨hrefused, -⟩ | ⟨-, ⟨cs, hlog, -, hdata⟩, -⟩)
  · exact absurd hrefused (by decide)
  · have hcs : [.usbTransferEp0 ntbParameters ntbParameters.length] = cs := hlog
    have hsent := hdata ntbParameters ntbParameters.length (by simp [← hcs])
    exact absurd hsent (by decide)

end Fx3Ncm
