/-
# Deferred control requests

The setup callback answers some requests itself and leaves three kinds of them to
`appThread_Entry`: it stores the two words of the packet and sets a flag.  The words and the
flag are a mailbox with one slot (`Lib.Mailbox`), in which a later request overwrites an
earlier one.

The callback and the thread decode the words separately.  They agree on what
`net_usb_control_transfer` can answer, so a request that reaches the thread is never
stalled there.  What the thread does with it is read off the driver: its state is that of a
run of its entry points, in which the requests taken out of the mailbox stand in their order.
-/
import Fx3Ncm.App.Firmware
import Fx3Ncm.Lib.Mailbox

namespace Fx3Ncm

open Runs

/-! ### The two decoders agree -/

section Decoders

variable (setupdat0 setupdat1 : UInt32)

lemma typeBits : ∀ m < 256,
    (m &&& 255 &&& 96 = 0 ↔ (m &&& 96) >>> 5 % 4 = 0) ∧
      (m &&& 255 &&& 96 = 32 ↔ (m &&& 96) >>> 5 % 4 = 1) := by
  decide +kernel

lemma typeBits_setupdat0 :
    (setupdat0.toNat % 256 &&& 255 &&& 96 = 0 ↔
        (setupdat0.toNat &&& 255 &&& 96) >>> 5 % 4 = 0) ∧
      (setupdat0.toNat % 256 &&& 255 &&& 96 = 32 ↔
        (setupdat0.toNat &&& 255 &&& 96) >>> 5 % 4 = 1) := by
  rw [show setupdat0.toNat &&& 255 = setupdat0.toNat % 256 from
    Nat.and_two_pow_sub_one_eq_mod setupdat0.toNat 8]
  exact typeBits _ (Nat.mod_lt _ (by decide))

/-- The callback and the thread see the same standard requests. -/
lemma bType_eq_standardRqt_iff :
    bType setupdat0 = standardRqt ↔ (setupRequest setupdat0 setupdat1).type = usbTypeStandard := by
  rw [← UInt8.toNat_inj, ← BitVec.toNat_inj]
  simpa [bType, bReqType, setupRequest] using (typeBits_setupdat0 setupdat0).1

/-- The callback and the thread see the same class requests. -/
lemma bType_eq_classRqt_iff :
    bType setupdat0 = classRqt ↔ (setupRequest setupdat0 setupdat1).type = usbTypeClass := by
  rw [← UInt8.toNat_inj, ← BitVec.toNat_inj]
  simpa [bType, bReqType, setupRequest] using (typeBits_setupdat0 setupdat0).2

/-- The packets that the callback leaves to the thread. -/
def Defers : Prop :=
  (bType setupdat0 = classRqt ∧ bRequest setupdat0 = ncmGetNtbParameters) ∨
    (bType setupdat0 = standardRqt ∧
      (bRequest setupdat0 = usbReqSetInterface ∨ bRequest setupdat0 = usbReqGetInterface))

instance : Decidable (Defers setupdat0) := inferInstanceAs (Decidable (_ ∨ _))

/-- What `net_usb_control_transfer` can answer, whatever the state. -/
lemma netUsbControlTransfer_iff (env : Env) (request : UsbControlRequest) (w : World) :
    (netUsbControlTransfer env request w).1 = true ↔
      (request.type = usbTypeClass ∧ request.bRequest = ncmGetNtbParameters) ∨
        (request.type = usbTypeStandard ∧ (request.bRequest = usbReqSetInterface ∨
          request.bRequest = usbReqGetInterface)) := by
  have hne : request.type = usbTypeStandard → request.type ≠ usbTypeClass := by
    intro h
    rw [h]
    decide
  rw [netUsbControlTransfer]
  split_ifs with hstd hget hset hclass hntb
  · exact iff_of_true rfl (Or.inr ⟨hstd, Or.inr hget⟩)
  · exact iff_of_true rfl (Or.inr ⟨hstd, Or.inl hset⟩)
  · refine iff_of_false not_false ?_
    rintro (⟨hclass, -⟩ | ⟨-, h | h⟩)
    · exact hne hstd hclass
    · exact hset h
    · exact hget h
  · exact iff_of_true rfl (Or.inl ⟨hclass, hntb⟩)
  · refine iff_of_false not_false ?_
    rintro (⟨-, h⟩ | ⟨h, -⟩)
    · exact hntb h
    · exact hstd h
  · refine iff_of_false not_false ?_
    rintro (⟨h, -⟩ | ⟨h, -⟩)
    · exact hclass h
    · exact hstd h

/-- The callback defers exactly what `net_usb_control_transfer` answers. -/
lemma defers_iff (env : Env) (w : World) : Defers setupdat0 ↔
    (netUsbControlTransfer env (setupRequest setupdat0 setupdat1) w).1 = true := by
  rw [netUsbControlTransfer_iff, ← bType_eq_classRqt_iff, ← bType_eq_standardRqt_iff]
  rfl

/-! ### The callback -/

variable (glIsApplnActive : Bool)

/-- The tests for requests that are left to the thread: at most one of them succeeds. -/
lemma deferTests_effects :
    (((setupTests setupdat0 setupdat1 glIsApplnActive).drop 3).flatMap fun t => t.2) =
      if Defers setupdat0 then [.defer setupdat0 setupdat1] else [] := by
  simp only [setupTests, List.drop_succ_cons, List.drop_zero, List.flatMap_cons, List.flatMap_nil,
    List.append_nil, handleIf]
  by_cases hclass : bType setupdat0 = classRqt
  · have hstd : bType setupdat0 ≠ standardRqt := by
      rw [hclass]
      decide
    by_cases hntb : bRequest setupdat0 = ncmGetNtbParameters
    · rw [if_pos ⟨hclass, hntb⟩, if_neg fun h => hstd h.1, if_neg fun h => hstd h.1,
        if_pos (show Defers setupdat0 from Or.inl ⟨hclass, hntb⟩)]
      rfl
    · rw [if_neg fun h => hntb h.2, if_neg fun h => hstd h.1, if_neg fun h => hstd h.1, if_neg]
      · rfl
      · rintro (h | h)
        · exact hntb h.2
        · exact hstd h.1
  · rw [if_neg fun h => hclass h.1]
    by_cases hset : bType setupdat0 = standardRqt ∧ bRequest setupdat0 = usbReqSetInterface
    · have hget : ¬ (bType setupdat0 = standardRqt ∧ bRequest setupdat0 = usbReqGetInterface) :=
        fun h => absurd (hset.2.symm.trans h.2) (by decide)
      rw [if_pos hset, if_neg hget,
        if_pos (show Defers setupdat0 from Or.inr ⟨hset.1, Or.inl hset.2⟩)]
      rfl
    · by_cases hget : bType setupdat0 = standardRqt ∧ bRequest setupdat0 = usbReqGetInterface
      · rw [if_neg hset, if_pos hget,
          if_pos (show Defers setupdat0 from Or.inr ⟨hget.1, Or.inr hget.2⟩)]
        rfl
      · rw [if_neg hset, if_neg hget, if_neg]
        · rfl
        · rintro (h | ⟨h, h' | h'⟩)
          · exact hclass h.1
          · exact hset ⟨h, h'⟩
          · exact hget ⟨h, h'⟩

/-- What the callback does itself. -/
def answerEffects : List Effect :=
  ((setupTests setupdat0 setupdat1 glIsApplnActive).take 3).flatMap fun t => t.2

/-- What the callback does: it answers the packet itself, and it leaves it to the thread if that
is one of the three kinds. -/
lemma cyFxAppUSBSetupCB_effects :
    (cyFxAppUSBSetupCB setupdat0 setupdat1 glIsApplnActive).2 =
      answerEffects setupdat0 setupdat1 glIsApplnActive ++
        if Defers setupdat0 then [.defer setupdat0 setupdat1] else [] := by
  rw [← deferTests_effects setupdat0 setupdat1 glIsApplnActive, answerEffects,
    ← List.flatMap_append, List.take_append_drop]
  rfl

/-- What the callback leaves to the thread it does not answer itself. -/
lemma answerEffects_of_defers (h : Defers setupdat0) :
    answerEffects setupdat0 setupdat1 glIsApplnActive = [] := by
  have hcode : bType setupdat0 = standardRqt →
      bRequest setupdat0 ≠ scSetFeature ∧ bRequest setupdat0 ≠ scClearFeature := by
    intro hstd
    rcases h with ⟨hclass, -⟩ | ⟨-, hcode | hcode⟩
    · rw [hstd] at hclass
      exact absurd hclass (by decide)
    · rw [hcode]
      decide
    · rw [hcode]
      decide
  have hfeature : ¬ IsInterfaceFeature setupdat0 := by
    rintro ⟨hstd, -, hf | hf, -⟩
    · exact (hcode hstd).1 hf
    · exact (hcode hstd).2 hf
  have hhalt : ¬ IsClearHalt setupdat0 := fun hh => (hcode hh.1).2 hh.2.2.1
  simp [answerEffects, setupTests, handleIf, hfeature, hhalt]

/-- No effect of the callback's own answers stores the packet. -/
lemma defer_notMem_answerEffects (a b : UInt32) :
    .defer a b ∉ answerEffects setupdat0 setupdat1 glIsApplnActive := by
  intro h
  simp only [answerEffects, setupTests, List.take_succ_cons, List.take_zero, List.flatMap_cons,
    List.flatMap_nil, List.append_nil, handleIf, clearHalt, List.mem_append] at h
  rcases h with h | h | h
  · split_ifs at h <;> simp at h
  · split_ifs at h <;> simp at h
  · split_ifs at h <;> simp at h

lemma defer_mem_iff : .defer setupdat0 setupdat1 ∈
    (cyFxAppUSBSetupCB setupdat0 setupdat1 glIsApplnActive).2 ↔ Defers setupdat0 := by
  rw [cyFxAppUSBSetupCB_effects, List.mem_append]
  split_ifs with h
  · exact iff_of_true (Or.inr (List.mem_singleton.2 rfl)) h
  · refine iff_of_false ?_ h
    rintro (h' | h')
    · exact defer_notMem_answerEffects _ _ _ _ _ h'
    · exact absurd h' List.not_mem_nil

end Decoders

/-! ### The mailbox -/

/-- What a step has to do with the mailbox. -/
def mailAction (input : FirmwareInput) : Mailbox.Action (UInt32 × UInt32) :=
  match input.1 with
  | .setup setupdat0 setupdat1 =>
    if Defers setupdat0 then .post (setupdat0, setupdat1) else .other
  | .wake => .take
  | .usbEvent _ | .driver _ => .other

namespace Firmware

variable {s s' : Firmware}

/-- The words and the flag are the slot of the mailbox `m`.  Only packets that the thread can
answer get into the slot. -/
structure Mailed (s : Firmware) (m : Mailbox.State (UInt32 × UInt32)) : Prop where
  slot : m.slot = if s.ctrlTask then some (s.glSetupdat0, s.glSetupdat1) else none
  answerable : s.ctrlTask = true → Defers s.glSetupdat0

/-- The two states have the same words and flag. -/
structure SameMail (s s' : Firmware) : Prop where
  words : s'.glSetupdat0 = s.glSetupdat0 ∧ s'.glSetupdat1 = s.glSetupdat1
  flag : s'.ctrlTask = s.ctrlTask

lemma SameMail.mailed {m : Mailbox.State (UInt32 × UInt32)} (h : SameMail s s')
    (hm : Mailed s m) : Mailed s' m := by
  refine ⟨?_, ?_⟩
  · rw [h.flag, h.words.1, h.words.2]
    exact hm.slot
  · rw [h.flag, h.words.1]
    exact hm.answerable

/-- Only a deferred packet changes the mailbox. -/
lemma sameMail_foldl {effects : List Effect} (h : ∀ a b, Effect.defer a b ∉ effects) :
    SameMail s (effects.foldl apply s) := by
  induction effects generalizing s with
  | nil => exact ⟨⟨rfl, rfl⟩, rfl⟩
  | cons effect effects ih =>
    have hhead : SameMail s (s.apply effect) := by
      cases effect with
      | defer a b => exact absurd List.mem_cons_self (h a b)
      | dma op => cases op <;> exact ⟨⟨rfl, rfl⟩, rfl⟩
      | _ => exact ⟨⟨rfl, rfl⟩, rfl⟩
    have htail : SameMail (s.apply effect) (effects.foldl apply (s.apply effect)) :=
      ih fun a b hmem => h a b (List.mem_cons_of_mem _ hmem)
    exact ⟨⟨htail.words.1.trans hhead.words.1, htail.words.2.trans hhead.words.2⟩,
      htail.flag.trans hhead.flag⟩

/-- What the driver has done to the outside are operations on channels. -/
lemma exists_dma_of_mem_driverEffects {w w' : World} {effect : Effect}
    (h : effect ∈ driverEffects w w') : ∃ op, effect = .dma op := by
  obtain ⟨c, -, hc⟩ := List.mem_flatMap.1 h
  cases c with
  | usbTransferEp ep buffer bytes ok =>
    obtain ⟨op, -, rfl⟩ := List.mem_map.1 hc
    exact ⟨op, rfl⟩
  | _ => exact absurd hc List.not_mem_nil

lemma defer_notMem_driverEffects {w w' : World} (a b : UInt32) :
    Effect.defer a b ∉ driverEffects w w' := by
  intro h
  obtain ⟨op, hop⟩ := exists_dma_of_mem_driverEffects h
  cases hop

lemma defer_notMem_cyFxAppUSBEventCB (active : Bool) (type : UsbEventType) (a b : UInt32) :
    Effect.defer a b ∉ cyFxAppUSBEventCB active type := by
  cases active <;> cases type <;> simp [cyFxAppUSBEventCB, cyFxAppStart, cyFxAppStop]

/-- When the flag is set, the thread passes the request on and has no reason to stall. -/
lemma appThread_of_ctrlTask (h : s.ctrlTask = true) (hd : Defers s.glSetupdat0)
    (netRxCb : Bool) : s.appThread netRxCb =
      callDriver (.netUsbControlTransfer (setupRequest s.glSetupdat0 s.glSetupdat1)) netRxCb
        { s with ctrlTask := false } := by
  have hok := (defers_iff s.glSetupdat0 s.glSetupdat1 (env netRxCb) s.driver).1 hd
  simp only [appThread, h, hok, if_true, List.append_nil]

/-- The simulation step. -/
lemma Mailed.step {m : Mailbox.State (UInt32 × UInt32)} (hm : Mailed s m)
    (input : FirmwareInput) : Mailed (s.step input) (Mailbox.step m (mailAction input)) := by
  obtain ⟨event, netRxCb⟩ := input
  cases event with
  | usbEvent type =>
    exact (sameMail_foldl fun a b => defer_notMem_cyFxAppUSBEventCB _ _ a b).mailed hm
  | setup d0 d1 =>
    have hanswer : SameMail s ((answerEffects d0 d1 s.glIsApplnActive).foldl apply s) :=
      sameMail_foldl fun a b => defer_notMem_answerEffects _ _ _ a b
    have heq : s.step (.setup d0 d1, netRxCb) = (if Defers d0 then [Effect.defer d0 d1]
        else []).foldl apply ((answerEffects d0 d1 s.glIsApplnActive).foldl apply s) := by
      change (cyFxAppUSBSetupCB d0 d1 s.glIsApplnActive).2.foldl apply s = _
      rw [cyFxAppUSBSetupCB_effects, List.foldl_append]
    rw [heq]
    simp only [mailAction]
    split_ifs with hd
    · exact ⟨rfl, fun _ => hd⟩
    · exact hanswer.mailed hm
  | wake =>
    cases hflag : s.ctrlTask with
    | false =>
      have heq : s.step (.wake, netRxCb) = s := by
        simp [Firmware.step, respond, appThread, hflag]
      rw [heq]
      refine ⟨?_, hm.answerable⟩
      rw [hflag]
      rfl
    | true =>
      have heq : s.respond (.wake, netRxCb) = _ :=
        appThread_of_ctrlTask hflag (hm.answerable hflag) netRxCb
      rw [Firmware.step, heq]
      refine (sameMail_foldl fun a b => defer_notMem_driverEffects a b).mailed ⟨rfl, ?_⟩
      intro h
      cases h
  | driver event =>
    refine (sameMail_foldl fun a b => defer_notMem_driverEffects a b).mailed ?_
    exact ⟨hm.slot, hm.answerable⟩

lemma mailed_init : Mailed init ⟨none, []⟩ := ⟨rfl, fun h => by cases h⟩

/-- The run lemma. -/
lemma mailed_run (es : List FirmwareInput) :
    Mailed (run step init es) (run Mailbox.step ⟨none, []⟩ (es.map mailAction)) := by
  have hinit := mailed_init
  generalize init = s at hinit
  generalize (⟨none, []⟩ : Mailbox.State (UInt32 × UInt32)) = m at hinit
  induction es generalizing s m with
  | nil => exact hinit
  | cons input es ih => exact ih _ _ (hinit.step input)

/-! ### The calls of the driver -/

/-- The call of the driver that is made in a step. -/
def entry (s : Firmware) (input : FirmwareInput) : Option Input :=
  match input.1 with
  | .usbEvent _ | .setup _ _ => none
  | .wake =>
    if s.ctrlTask then
      some (.netUsbControlTransfer (setupRequest s.glSetupdat0 s.glSetupdat1), env input.2)
    else none
  | .driver event => some (event, env input.2)

/-- Effects are not calls of the driver. -/
lemma foldl_calls (effects : List Effect) (s : Firmware) :
    (effects.foldl apply s).driver = s.driver ∧ (effects.foldl apply s).entered = s.entered := by
  induction effects generalizing s with
  | nil => exact ⟨rfl, rfl⟩
  | cons effect effects ih =>
    have hhead : (s.apply effect).driver = s.driver ∧ (s.apply effect).entered = s.entered := by
      cases effect with
      | dma op => cases op <;> exact ⟨rfl, rfl⟩
      | _ => exact ⟨rfl, rfl⟩
    exact ⟨(ih _).1.trans hhead.1, (ih _).2.trans hhead.2⟩

/-- What a step does to the driver. -/
lemma calls_step (s : Firmware) (input : FirmwareInput) :
    (s.step input).driver = run Fx3Ncm.step s.driver (s.entry input).toList ∧
      (s.step input).entered = s.entered ++ (s.entry input).toList := by
  obtain ⟨hdriver, hentered⟩ := foldl_calls (s.respond input).2 (s.respond input).1
  rw [step, hdriver, hentered]
  obtain ⟨event, netRxCb⟩ := input
  cases event with
  | usbEvent type => exact ⟨rfl, (List.append_nil _).symm⟩
  | setup d0 d1 => exact ⟨rfl, (List.append_nil _).symm⟩
  | wake =>
    cases hflag : s.ctrlTask with
    | false => simp [respond, appThread, entry, hflag]
    | true => simp [respond, appThread, entry, callDriver, hflag]
  | driver event => exact ⟨rfl, rfl⟩

/-- The driver is where the calls of its entry points have led. -/
lemma driver_run (es : List FirmwareInput) : (run step init es).driver =
    run Fx3Ncm.step World.init (run step init es).entered := by
  refine run_invariant (G := fun _ _ => True)
    (I := fun s : Firmware => s.driver = run Fx3Ncm.step World.init s.entered) ?_ rfl
    (Along.of_forall fun _ _ => trivial)
  intro s input hs _
  obtain ⟨hdriver, hentered⟩ := calls_step s input
  rw [hdriver, hentered, run_append, ← hs]

end Firmware

/-- The request passed to `net_usb_control_transfer` in a call of the driver. -/
def controlRequest (input : Input) : Option UsbControlRequest :=
  match input.1 with
  | .netUsbControlTransfer request => some request
  | _ => none

/-- `net_usb_control_transfer` is called by the thread and by no one else. -/
def LeavesControl (input : FirmwareInput) : Prop :=
  ∀ request, input.1 ≠ .driver (.netUsbControlTransfer request)

namespace Firmware

variable {s : Firmware} {m : Mailbox.State (UInt32 × UInt32)}

/-- The request that is passed in a step is the message that is taken in it. -/
lemma Mailed.taken_step (hm : Mailed s m) {input : FirmwareInput} (hin : LeavesControl input) :
    (Mailbox.step m (mailAction input)).taken.map (fun p => setupRequest p.1 p.2) =
      m.taken.map (fun p => setupRequest p.1 p.2) ++
        (s.entry input).toList.filterMap controlRequest := by
  obtain ⟨event, netRxCb⟩ := input
  cases event with
  | usbEvent type => exact (List.append_nil _).symm
  | setup d0 d1 =>
    simp only [mailAction]
    split_ifs <;> exact (List.append_nil _).symm
  | wake =>
    -- the flag decides both whether the slot is filled and whether a request is passed
    have hslot := hm.slot
    simp only [mailAction, Mailbox.step, List.map_append, entry]
    split_ifs at hslot ⊢ <;> rw [hslot] <;> rfl
  | driver event =>
    have hnone : controlRequest (event, env netRxCb) = none := by
      cases event with
      | netUsbControlTransfer request => exact absurd rfl (hin request)
      | _ => rfl
    simp [mailAction, Mailbox.step, entry, hnone]

/-- The requests passed to the driver are those that are taken out of the mailbox. -/
lemma requests_run {es : List FirmwareInput} (hes : ∀ input ∈ es, LeavesControl input) :
    (run step init es).entered.filterMap controlRequest =
      (run Mailbox.step ⟨none, []⟩ (es.map mailAction)).taken.map
        fun p => setupRequest p.1 p.2 := by
  have hm := mailed_init
  have hs : init.entered.filterMap controlRequest =
      List.map (fun p => setupRequest p.1 p.2)
        (⟨none, []⟩ : Mailbox.State (UInt32 × UInt32)).taken := rfl
  -- by induction on the run, from any state that agrees with the mailbox
  generalize init = s at hm hs
  generalize (⟨none, []⟩ : Mailbox.State (UInt32 × UInt32)) = m at hm hs
  induction es generalizing s m with
  | nil => exact hs
  | cons input es ih =>
    refine ih (fun i hi => hes i (List.mem_cons_of_mem _ hi)) _ _ (hm.step input) ?_
    rw [(calls_step s input).2, List.filterMap_append, hs,
      hm.taken_step (hes input List.mem_cons_self)]

end Firmware

/-- The callback leaves exactly those packets to the thread that `net_usb_control_transfer`
answers, in any state; it neither acknowledges nor stalls these itself.  In every run the driver
is where the calls of its entry points have led, and the requests in these calls are those of
the packets left to the thread, each of them once and in their order, except for those that
another one replaced before the next wake-up; and the thread never stalls the control
endpoint. -/
theorem deferred_requests :
    (∀ setupdat0 setupdat1 glIsApplnActive env w,
      (.defer setupdat0 setupdat1 ∈ (cyFxAppUSBSetupCB setupdat0 setupdat1 glIsApplnActive).2 ↔
        Defers setupdat0) ∧
      (Defers setupdat0 ↔
        (netUsbControlTransfer env (setupRequest setupdat0 setupdat1) w).1 = true)) ∧
    (∀ setupdat0 setupdat1 glIsApplnActive, Defers setupdat0 →
      (cyFxAppUSBSetupCB setupdat0 setupdat1 glIsApplnActive).2 =
        [.defer setupdat0 setupdat1]) ∧
    (∀ es, (run Firmware.step Firmware.init es).driver =
      run step World.init (run Firmware.step Firmware.init es).entered) ∧
    (∀ es, (∀ input ∈ es, LeavesControl input) →
      (run Firmware.step Firmware.init es).entered.filterMap controlRequest =
        (Mailbox.delivered (es.map mailAction)).map fun p => setupRequest p.1 p.2) ∧
    (∀ es netRxCb ep stall toggle, .stall ep stall toggle ∉
      ((run Firmware.step Firmware.init es).respond (.wake, netRxCb)).2) := by
  refine ⟨?_, ?_, Firmware.driver_run, ?_, ?_⟩
  · intro setupdat0 setupdat1 glIsApplnActive env w
    exact ⟨defer_mem_iff setupdat0 setupdat1 glIsApplnActive, defers_iff setupdat0 setupdat1 env w⟩
  · intro setupdat0 setupdat1 glIsApplnActive hd
    rw [cyFxAppUSBSetupCB_effects, answerEffects_of_defers setupdat0 setupdat1 _ hd, if_pos hd]
    rfl
  · intro es hes
    rw [Firmware.requests_run hes, Mailbox.taken_run]
  · intro es netRxCb ep stall toggle h
    have hm := Firmware.mailed_run es
    generalize run Firmware.step Firmware.init es = s at hm h
    change _ ∈ (s.appThread netRxCb).2 at h
    cases hflag : s.ctrlTask with
    | false => simp [Firmware.appThread, hflag] at h
    | true =>
      rw [Firmware.appThread_of_ctrlTask hflag (hm.answerable hflag)] at h
      obtain ⟨op, hop⟩ := Firmware.exists_dma_of_mem_driverEffects h
      cases hop

/-- `SET_INTERFACE` is replaced by `GET_NTB_PARAMETERS` before the thread wakes up. -/
def replacedRequest : List FirmwareInput :=
  [(.setup 0x00010B01 0x00000001, true), (.setup 0x000080A1 0x001C0001, true), (.wake, true),
    (.wake, true)]

/-- Of the two requests in `replacedRequest`, the second is passed, once. -/
theorem deferred_requests_replacedRequest :
    (run Firmware.step Firmware.init replacedRequest).entered.filterMap controlRequest =
      [setupRequest 0x000080A1 0x001C0001] := by
  have hes : ∀ input ∈ replacedRequest, LeavesControl input := by
    simp [replacedRequest, LeavesControl]
  rw [deferred_requests.2.2.2.1 replacedRequest hes]
  decide +kernel

end Fx3Ncm
