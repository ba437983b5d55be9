/-
# The flash tool

The `main` function of `download_fx3.cpp`: it reads the command line, opens the library, and
programs the image.

* `tool_discipline`: no handle is used after the library has been closed, and the requests that
  program a memory only go to a device that has identified itself as the flash programmer.
* `tool_terminates`: whatever the devices do, the tool comes to an end.
-/
import Fx3Ncm.Flash.Programmer

namespace Fx3Ncm.Flash

open Loops

/-! ### main -/

/-- How the tool ends: its outcome, the target it announces as completed, and the log. -/
structure ToolResult where
  outcome : Outcome
  announced : Option String
  log : Log

/-- The end of `main`. -/
def finish (c : Command) (outcome : Outcome) (log : Log) : ToolResult :=
  ⟨outcome, if outcome = .returned 0 then c.tgtStr else none, log⟩

/-- A download that needs the flash programmer. -/
def programWith (env : Surroundings) (c : Command) (h : Handle) (usb : Usb) (fuel : ℕ) (log : Log)
    (download : Option Usb → Option (Outcome × Trace)) : Option ToolResult :=
  (getFx3ProgHandle env h usb fuel log).bind fun
    | (.failed .fault, log) => some (finish c .fault log)
    | (.failed (.returned _), log) => (download none).map fun r => finish c r.1 log
    | (.found h usb, log) => (download (some usb)).map fun r => finish c r.1 (log ++ via h r.2)

/-- The `switch` of `main`, for the handle of the only device. -/
def program (env : Surroundings) (c : Command) (h : Handle) (usb : Usb) (fuel : ℕ) (log : Log) :
    Option ToolResult :=
  match c.tgt with
  | .ram =>
    (fx3UsbbootDownload usb env.imageCalloc (env.stat c.filename) (env.opens c.filename) fuel).map
      fun r => finish c r.1 (log ++ via h r.2)
  | .i2c =>
    programWith env c h usb fuel log fun handle =>
      fx3I2cbootDownload handle (env.stat c.filename) (env.opens c.filename) fuel
  | .spi =>
    programWith env c h usb fuel log fun handle =>
      some (fx3SpibootDownload handle env.imageCalloc (env.stat c.filename) (env.opens c.filename))

/-- `main` for the arguments behind the name of the tool; `fuel` bounds the iterations of the
loops of the downloads. -/
def toolMain (env : Surroundings) (fuel : ℕ) (args : List String) : Option ToolResult :=
  match readCommand args with
  | .error r => some ⟨.returned r, none, []⟩
  | .ok c =>
    match env.cyusbOpen 0 with
    | none => some ⟨.returned (-enodev), none, [.opened 0]⟩
    | some [] => some ⟨.returned (-enodev), none, [.opened 0]⟩
    | some [d] => program env c ⟨0, 0⟩ d.usb fuel [.opened 0]
    | some (_ :: _ :: _) => some ⟨.returned (-einval), none, [.opened 0]⟩

/-! ### Discipline -/

section Discipline

variable {tgt : FwTarget} {log : Log}

/-- A download that needs the flash programmer keeps the discipline, if its requests are those that
program the target. -/
lemma disciplined_programWith {env : Surroundings} {c : Command} {h : Handle} {usb : Usb} {fuel : ℕ}
    (hh : h = ⟨0, 0⟩) (hlog : Disciplined tgt log) (hcur : Flash.current log = some h.opening)
    {download : Option Usb → Option (Outcome × Trace)}
    (hdownload : ∀ handle r, download handle = some r → ∀ x ∈ r.2, tgt.Programs x.1)
    {r : ToolResult} (hr : programWith env c h usb fuel log download = some r) :
    Disciplined tgt r.log := by
  obtain ⟨⟨s, log'⟩, hg, hr⟩ := Option.bind_eq_some_iff.1 hr
  have hsound := searchSound_progHandle hh hlog hcur hg
  match s, hr, hsound with
  | .failed .fault, hr, hsound =>
    cases hr
    exact hsound.disciplined
  | .failed (.returned code), hr, hsound =>
    obtain ⟨q, -, rfl⟩ := Option.map_eq_some_iff.1 hr
    exact hsound.disciplined
  | .found h' usb', hr, hsound =>
    obtain ⟨q, hq, rfl⟩ := Option.map_eq_some_iff.1 hr
    refine hsound.disciplined.via (hsound.current _ rfl) fun x hx => ?_
    exact .program (hdownload _ q hq x hx) (hsound.identified _ rfl)

/-- However the devices behave, whatever is in the files and on the command line: the tool uses no
handle after it has closed the library; it loads programs only into the device that `main` has
found; and the requests that program an EEPROM or a flash only go, if this is the target, to a
device that has identified itself as the flash programmer before. -/
theorem tool_discipline (env : Surroundings) (fuel : ℕ) (args : List String) (r : ToolResult)
    (h : toolMain env fuel args = some r) :
    (∃ c, readCommand args = .ok c ∧ Disciplined c.tgt r.log) ∨ r.log = [] := by
  rw [toolMain] at h
  cases hc : readCommand args with
  | error code =>
    rw [hc] at h
    cases h
    exact .inr rfl
  | ok c =>
    rw [hc] at h
    refine .inl ⟨c, rfl, ?_⟩
    have hopened : Disciplined c.tgt [.opened 0] := (disciplined_nil c.tgt).opened 0
    match ho : env.cyusbOpen 0, h with
    | none, h =>
      cases h
      exact hopened
    | some [], h =>
      cases h
      exact hopened
    | some (_ :: _ :: _), h =>
      cases h
      exact hopened
    | some [d], h =>
      simp only [program] at h
      match ht : c.tgt, h with
      | .ram, h =>
        obtain ⟨q, hq, rfl⟩ := Option.map_eq_some_iff.1 h
        rw [ht] at hopened
        exact hopened.via rfl fun x hx => .load (requests_of_usbboot hq x hx) rfl
      | .i2c, h =>
        rw [ht] at hopened
        exact disciplined_programWith rfl hopened rfl
          (fun handle q hq x hx => requests_of_i2cboot hq x hx) h
      | .spi, h =>
        rw [ht] at hopened
        refine disciplined_programWith rfl hopened rfl (fun handle q hq x hx => ?_) h
        cases hq
        exact requests_of_spiboot _ _ _ _ x hx

end Discipline

/-- The flash programmer is downloaded and found in the third opening, and the EEPROM is
programmed. -/
theorem tool_discipline_example :
    ∃ r, toolMain benchSurroundings 3 ["-t", "I2C", "-i", "app.img"] = some r ∧
      r.announced = some "I2C" ∧ r.log.length = 10 ∧ Disciplined .i2c r.log := by
  have hrun : (toolMain benchSurroundings 3 ["-t", "I2C", "-i", "app.img"]).map
      (fun r => (r.announced, r.log.length)) = some (some "I2C", 10) := by
    decide +kernel
  obtain ⟨r, hr, heq⟩ := Option.map_eq_some_iff.1 hrun
  obtain ⟨hannounced, hlength⟩ := Prod.mk.inj heq
  refine ⟨r, hr, hannounced, hlength, ?_⟩
  rcases tool_discipline _ _ _ r hr with ⟨c, hc, hlog⟩ | hnil
  · have hcmd : readCommand ["-t", "I2C", "-i", "app.img"] = .ok ⟨"app.img", some "I2C", .i2c⟩ := by
      decide +kernel
    rw [hcmd] at hc
    cases hc
    exact hlog
  · rw [hnil] at hlength
    cases hlength

/-! ### Termination -/

lemma settles_programWith (env : Surroundings) (c : Command) (h : Handle) (usb : Usb) (log : Log)
    {download : ℕ → Option Usb → Option (Outcome × Trace)}
    (hdownload : ∀ handle, Settles fun fuel => download fuel handle) :
    Settles fun fuel => programWith env c h usb fuel log (download fuel) := by
  refine (settles_progHandle env h usb log).bind fun p => ?_
  match p with
  | (.failed .fault, log) => exact settles_some _
  | (.failed (.returned _), log) => exact (hdownload none).map _
  | (.found h usb, log) => exact (hdownload (some usb)).map _

/-- Whatever the devices do, and whatever is in the files: the tool comes to an end, which may be an
access outside the image buffer, `Outcome.fault`. -/
theorem tool_terminates (env : Surroundings) (args : List String) :
    Settles fun fuel => toolMain env fuel args := by
  simp only [toolMain]
  cases readCommand args with
  | error code => exact settles_some _
  | ok c =>
    match env.cyusbOpen 0 with
    | none => exact settles_some _
    | some [] => exact settles_some _
    | some (_ :: _ :: _) => exact settles_some _
    | some [d] =>
      simp only [program]
      cases c.tgt with
      | ram => exact (settles_usbboot _ _ _ _).map _
      | i2c => exact settles_programWith env c _ _ _ fun handle => settles_i2cboot handle _ _
      | spi => exact settles_programWith env c _ _ _ fun handle => settles_some _

end Fx3Ncm.Flash
