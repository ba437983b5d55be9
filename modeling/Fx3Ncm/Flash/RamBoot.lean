/-
# What the RAM download does for a file

Three properties of `fx3_usbboot_download`: it is safe on a file, its success means that the
device has been given a complete image, and it writes exactly the image.  None of them holds for
every file that `read_firmware_image` accepts, and for each the exact condition is given.

* `loader_safety`: the lengths of the sections must keep them inside the buffer;
* `verified_boot`: the sections must lead to a section without data, and the words of that section
  must not be zeros from behind the end of the file;
* `image_written`: the bytes that are read must make up the same image as the file, which they do
  unless the size of the file is cut off when it is stored in an `int`.
-/
import Fx3Ncm.Flash.Ram

namespace Fx3Ncm.Flash

open ByteMemory Loops

/-! ### Runs of the loader on a file -/

section Runs

variable {usb : Usb} {f : File} {r : Outcome × Trace}

lemma exists_downloads (usb : Usb) (h : (f.readImage false).code = 0) :
    ∃ r, Downloads usb f r := by
  simp only [downloads_iff h]
  exact exists_ends_sectionStep _ _ _

/-- How the download of an accepted file ends, in terms of what is read of it. -/
lemma leaves_of_downloads (h : (f.readImage false).code = 0) (hr : Downloads usb f r) :
    ∃ k s, LoaderAt f.loaded k s ∧ Leaves usb f.loaded (toInt f.size) k s r := by
  have hfilesize : (f.readImage false).filesize = toInt f.size := by
    rw [readImage_eq_of_accepted f h]
  rw [downloads_iff h, hfilesize] at hr
  by_cases hsize : 2 ≤ toInt f.size
  · rw [readImage_buf f h hsize] at hr
    exact leaves_of_ends hr
  · -- the loop is not entered, and the buffer does not matter
    have hpast : toInt f.size ≤ 4 := by omega
    obtain rfl : r = (.returned 0, []) := by
      refine hr.of_inr ?_
      rw [sectionStep, if_neg (by simpa [LoaderState.start] using hpast)]
      rfl
    exact ⟨0, .start, .start f.loaded, .pastEnd hpast⟩

/-- A device that moves all bytes of every request. -/
def readyUsb : Usb := fun _ q => .moved (List.replicate q.wLength 0)

lemma succeeds_readyUsb : Succeeds readyUsb := by
  intro t q
  simp [Complete, readyUsb, Reply.result]

/-- The requests for sections are not followed by a jump among themselves. -/
lemma sectionRequests_ne_concat (secs : List Section) (qs : List ControlRequest) (m : Mem)
    (k : ℕ) : sectionRequests secs ≠ qs ++ [jumpRequest m k] := by
  intro h
  have hmem : jumpRequest m k ∈ sectionRequests secs := by
    rw [h]
    exact List.mem_append_right _ List.mem_cons_self
  exact absurd (isRamWrite_of_mem_sectionRequests hmem).pos (Nat.not_succ_le_zero 0)

lemma entryPoint_of_jumpRequest {m m' : Mem} {k k' : ℕ}
    (h : jumpRequest m k = jumpRequest m' k') : entryPoint m k = entryPoint m' k' := by
  have haddress := congrArg requestAddress h
  rwa [jumpRequest, jumpRequest, requestAddress_ramRequest, requestAddress_ramRequest] at haddress

end Runs

/-! ### Safety -/

/-- The loader is safe on a file: the section loop terminates, nothing outside the buffer is read,
and the index increases from one iteration to the next. -/
structure LoaderSafe (usb : Usb) (f : File) : Prop where
  terminates : ∃ r, Downloads usb f r
  inside : ∀ r, Downloads usb f r → r.1 ≠ .fault
  increases : ∀ s s',
    Visits (sectionStep usb (f.readImage false).buf (f.readImage false).filesize) .start s →
    sectionStep usb (f.readImage false).buf (f.readImage false).filesize s = .inl s' →
    s.index < s'.index

/-- The loader is safe on an accepted file, whatever the device does, exactly if every section
that it comes to before the end of the file lies inside the buffer. -/
theorem loader_safety {f : File} (h : (f.readImage false).code = 0)
    (hsize : f.size ≤ maxFwimgSize) :
    (∀ usb, LoaderSafe usb f) ↔ ∀ k, HasSections f.image maxFwimgSize k →
      sectionStart f.image k < f.size → SectionFits f.image k := by
  obtain ⟨hfilesize, hbuf, -⟩ := readImage_of_accepted f h hsize
  constructor
  · intro hsafe k hk hlt
    have hlt' : (sectionStart f.image k : ℤ) < f.size := by exact_mod_cast hlt
    obtain ⟨s, hvisits, hat⟩ := exists_visits succeeds_readyUsb hk hlt'
    by_contra hfits
    have hends := hvisits.ends (ends_of_inr (sectionStep_outside hat hlt' hfits))
    rw [← hbuf, ← hfilesize] at hends
    exact (hsafe readyUsb).inside _ ((downloads_iff h).2 hends) rfl
  · intro hfits usb
    refine ⟨exists_downloads usb h, ?_, ?_⟩
    · intro r hr hfault
      rw [downloads_iff h, hbuf, hfilesize] at hr
      obtain ⟨k, s, hat, hleaves⟩ := leaves_of_ends hr
      cases hleaves with
      | outside hlt hout => exact hout (hfits k hat.hasSections (by exact_mod_cast hlt))
      | pastEnd => cases hfault
      | writeFails => cases hfault
      | badChecksum => cases hfault
      | boots => cases hfault
    · intro s s' hvisits hs
      rw [hbuf, hfilesize] at hvisits hs
      obtain ⟨k, hat⟩ := exists_loaderAt_of_visits hvisits
      exact hat.index_lt (sectionStep_inl hat hs).2

/-- An image with one section of one word. -/
def bootFile : File := File.ofBytes
  [0x43, 0x59, 0x00, 0xB0,
    0x01, 0x00, 0x00, 0x00, 0x00, 0x01, 0x00, 0x40, 0xDD, 0xCC, 0xBB, 0xAA,
    0x00, 0x00, 0x00, 0x00, 0x00, 0x01, 0x00, 0x40, 0xDD, 0xCC, 0xBB, 0xAA] (by decide)

lemma bootFile_accepted : (bootFile.readImage false).code = 0 :=
  (readImage_code_iff _ _).2 ⟨by decide, Or.inr ⟨by decide, rfl, rfl, rfl, rfl⟩⟩

/-- The loader is safe on the image with one section. -/
theorem loader_safety_bootFile :
    (bootFile.readImage false).code = 0 ∧ bootFile.size ≤ maxFwimgSize ∧
      ∀ usb, LoaderSafe usb bootFile := by
  have hcode := bootFile_accepted
  have hsize : bootFile.size ≤ maxFwimgSize := by decide
  refine ⟨hcode, hsize, (loader_safety hcode hsize).2 fun k hk _ => ?_⟩
  rcases k with _ | _ | k
  · exact ⟨by decide +kernel, by decide +kernel⟩
  · exact ⟨by decide +kernel, by decide +kernel⟩
  · exact absurd (by decide +kernel) (hk 1 (by omega)).1

/-- A file with a section that claims to have `0x3FFFFFFE` words. -/
def hugeFile : File := File.ofBytes
  [0x43, 0x59, 0x00, 0xB0, 0xFE, 0xFF, 0xFF, 0x3F, 0x00, 0x00, 0x00, 0x00] (by decide)

/-- A file of twelve bytes makes the loader leave its buffer. -/
theorem loader_safety_fails :
    (hugeFile.readImage false).code = 0 ∧ hugeFile.size ≤ maxFwimgSize ∧
      ¬ ∀ usb, LoaderSafe usb hugeFile := by
  have hcode : (hugeFile.readImage false).code = 0 :=
    (readImage_code_iff _ _).2 ⟨by decide, Or.inr ⟨by decide, rfl, rfl, rfl, rfl⟩⟩
  have hsize : hugeFile.size ≤ maxFwimgSize := by decide
  refine ⟨hcode, hsize, fun hsafe => (hsafe readyUsb).inside (.fault, []) ?_ rfl⟩
  obtain ⟨hfilesize, hbuf, -⟩ := readImage_of_accepted hugeFile hcode hsize
  rw [downloads_iff hcode, hbuf, hfilesize]
  refine ends_of_inr (sectionStep_outside (.start _) (by decide) fun hfits => ?_)
  exact absurd (hfits.2 (by decide +kernel)) (by decide +kernel)

/-! ### Success -/

/-- The file is an image with `k` sections, all sections have been written completely, and then
there has been one jump, to the entry point. -/
structure VerifiedBoot (f : File) (t : Trace) (k : ℕ) : Prop where
  image : IsImage f.bytes f.size k
  requests : t.map Prod.fst = sectionRequests (sections f.bytes k) ++ [jumpRequest f.bytes k]
  complete : ∀ x ∈ t, x.1.wLength ≠ 0 → Complete x
  oneJump : (t.map Prod.fst).filter (fun q => q.wLength = 0) = [jumpRequest f.bytes k]

/-- A download that returns 0 is a verified boot.  A run that leaves the buffer is undefined and
may return 0 as well. -/
def SuccessVerified (f : File) : Prop :=
  ∀ usb r, Downloads usb f r → r.1 = .returned 0 ∨ r.1 = .fault → ∃ k, VerifiedBoot f r.2 k

/-- What is read of the file leads, after `k` sections, to a section without data that starts
before the end and lies inside the buffer. -/
structure ReachesEnd (f : File) (k : ℕ) : Prop where
  hasSections : HasSections f.loaded maxFwimgSize k
  terminator_lt : sectionStart f.loaded k < toInt f.size
  terminator : word f.loaded (sectionStart f.loaded k) = 0
  inside : sectionStart f.loaded k + 12 ≤ maxFwimgSize

/-- The section without data is part of the file if its checksum is right. -/
structure EndsInFile (f : File) (k : ℕ) : Prop extends ReachesEnd f k where
  inFile : word f.loaded (sectionStart f.loaded k + 8) = checksum (sections f.loaded k) →
    sectionStart f.loaded k + 12 ≤ f.size ∧ ∀ j < 3,
      word f.bytes (sectionStart f.loaded k + 4 * j) =
        word f.loaded (sectionStart f.loaded k + 4 * j)

section Success

variable {usb : Usb} {f : File} {k : ℕ}

lemma loaded_of_lt_sectionStart (h : sectionStart f.loaded k < toInt f.size) :
    ∀ p < sectionStart f.loaded k, f.loaded p = f.bytes p :=
  fun p hp => f.loaded_of_lt (by omega)

/-- If there is a section without data, then the loop is left there, unless a transfer fails. -/
lemma ReachesEnd.leaves (h : ReachesEnd f k) {k' : ℕ} {s : LoaderState} {r : Outcome × Trace}
    (hat : LoaderAt f.loaded k' s) (hr : Leaves usb f.loaded (toInt f.size) k' s r) :
    (¬ Succeeds usb ∧ r.1 = .returned (-3)) ∨
      (word f.loaded (sectionStart f.loaded k + 8) ≠ checksum (sections f.loaded k) ∧
        r.1 = .returned (-4)) ∨
      k' = k ∧ word f.loaded (sectionStart f.loaded k + 8) = checksum (sections f.loaded k) ∧
        r = (.returned 0,
          s.trace ++ [(jumpRequest f.loaded k, usb s.trace (jumpRequest f.loaded k))]) := by
  have hle : k' ≤ k := hat.hasSections.le_of_terminator h.terminator
  have hstart : sectionStart f.loaded k' ≤ sectionStart f.loaded k :=
    (sectionStart_strictMono _).monotone hle
  have hlt := h.terminator_lt
  have hend := h.inside
  cases hr with
  | pastEnd hpast => omega
  | outside _ hfits =>
    refine absurd ⟨fun _ => by omega, fun hdata => ?_⟩ hfits
    have hne : k' ≠ k := fun heq => hdata (heq ▸ h.terminator)
    exact (h.hasSections k' (lt_of_le_of_ne hle hne)).2
  | writeFails t husb => exact Or.inl ⟨husb, rfl⟩
  | badChecksum _ _ hterm hsum =>
    obtain rfl : k' = k := le_antisymm hle (h.hasSections.le_of_terminator hterm)
    exact Or.inr (Or.inl ⟨hsum, rfl⟩)
  | boots _ _ hterm hsum =>
    obtain rfl : k' = k := le_antisymm hle (h.hasSections.le_of_terminator hterm)
    exact Or.inr (Or.inr ⟨rfl, hsum, rfl⟩)

/-- A run that ends with a jump after the sections of the file. -/
lemma EndsInFile.verifiedBoot (h : EndsInFile f k) {s : LoaderState}
    (hat : LoaderAt f.loaded k s)
    (hsum : word f.loaded (sectionStart f.loaded k + 8) = checksum (sections f.loaded k))
    (reply : Reply) : VerifiedBoot f (s.trace ++ [(jumpRequest f.loaded k, reply)]) k := by
  obtain ⟨hend, hwords⟩ := h.inFile hsum
  have hsame := loaded_of_lt_sectionStart h.terminator_lt
  have hstart := sectionStart_congr hsame
  have hsections := sections_congr hsame
  have hjump : jumpRequest f.bytes k = jumpRequest f.loaded k := by
    rw [jumpRequest, jumpRequest, entryPoint, entryPoint, hstart]
    exact congrArg (ramRequest · []) (hwords 1 (by decide))
  refine ⟨⟨?_, ?_, ?_, ?_⟩, ?_, ?_, ?_⟩
  · exact (h.hasSections.of_sectionStart_le (by omega)).congr hsame
  · rw [hstart]
    exact hend
  · rw [hstart]
    exact (hwords 0 (by decide)).trans h.terminator
  · rw [hstart, hsections]
    exact (hwords 2 (by decide)).trans hsum
  · rw [List.map_append, hat.requests, hsections, hjump]
    rfl
  · intro x hx hne
    rcases List.mem_append.1 hx with hx | hx
    · exact hat.complete x hx
    · rw [List.mem_singleton.1 hx] at hne
      exact absurd rfl hne
  · have hnone : ∀ q ∈ sectionRequests (sections f.loaded k), ¬ q.wLength = 0 := by
      intro q hq
      have hwrite := isRamWrite_of_mem_sectionRequests hq
      rw [hwrite.wLength]
      exact Nat.ne_of_gt hwrite.pos
    rw [List.map_append, hat.requests, List.filter_append, hjump,
      List.filter_eq_nil_iff.2 (by simpa using hnone)]
    rfl

/-- The sections of a verified boot are those that have been sent. -/
lemma endsInFile_of_verifiedBoot {k' : ℕ} {s : LoaderState} {reply : Reply}
    (hat : LoaderAt f.loaded k s) (hlt : sectionStart f.loaded k < toInt f.size)
    (hfits : SectionFits f.loaded k) (hterm : word f.loaded (sectionStart f.loaded k) = 0)
    (hsum : word f.loaded (sectionStart f.loaded k + 8) = checksum (sections f.loaded k))
    (h : VerifiedBoot f (s.trace ++ [(jumpRequest f.loaded k, reply)]) k') : EndsInFile f k := by
  have hsame := loaded_of_lt_sectionStart hlt
  have hstart := sectionStart_congr hsame
  have hsections := sections_congr hsame
  have hhas : HasSections f.bytes maxFwimgSize k := hat.hasSections.congr hsame
  have hrequests := h.requests
  rw [List.map_append, hat.requests, ← hsections] at hrequests
  obtain ⟨hreq, hjump⟩ := List.append_inj' hrequests (by simp)
  -- as many sections have been sent as the file has
  obtain rfl : k = k' := by
    have hlen := congrArg List.length hreq
    rcases Nat.lt_trichotomy k k' with hlt | heq | hgt
    · have := length_sectionRequests_lt h.image.hasSections hlt
      omega
    · exact heq
    · have := length_sectionRequests_lt hhas hgt
      omega
  have hentry := entryPoint_of_jumpRequest (List.cons.inj hjump).1
  rw [entryPoint, entryPoint, hstart] at hentry
  refine ⟨⟨hat.hasSections, hlt, hterm, hfits.1 hterm⟩, fun _ => ⟨?_, ?_⟩⟩
  · rw [← hstart]
    exact h.image.terminator_le
  · intro j hj
    have hzero := h.image.terminator
    have hthird := h.image.sum
    rw [hstart] at hzero hthird
    rw [hsections] at hthird
    rcases j with _ | _ | _ | j
    · exact hzero.trans hterm.symm
    · exact hentry.symm
    · exact hthird.trans hsum.symm
    · omega

end Success

/-- Success means a verified boot for an accepted file exactly if the sections lead to a section
without data that is part of the file. -/
theorem verified_boot {f : File} (h : (f.readImage false).code = 0) :
    SuccessVerified f ↔ ∃ k, EndsInFile f k := by
  constructor
  · intro hsuccess
    obtain ⟨r, hr⟩ := exists_downloads readyUsb h
    obtain ⟨k, s, hat, hleaves⟩ := leaves_of_downloads h hr
    have hrequests := hat.requests
    cases hleaves with
    | pastEnd hend =>
      obtain ⟨k', hboot⟩ := hsuccess _ _ hr (Or.inl rfl)
      exact absurd (hrequests.symm.trans hboot.requests) (sectionRequests_ne_concat _ _ _ _)
    | outside hlt hfits =>
      obtain ⟨k', hboot⟩ := hsuccess _ _ hr (Or.inr rfl)
      exact absurd (hrequests.symm.trans hboot.requests) (sectionRequests_ne_concat _ _ _ _)
    | writeFails t husb => exact absurd succeeds_readyUsb husb
    | badChecksum hlt hfits hterm hsum =>
      exact ⟨k, ⟨hat.hasSections, hlt, hterm, hfits.1 hterm⟩, fun hsum' => absurd hsum' hsum⟩
    | boots hlt hfits hterm hsum =>
      obtain ⟨k', hboot⟩ := hsuccess _ _ hr (Or.inl rfl)
      exact ⟨k, endsInFile_of_verifiedBoot hat hlt hfits hterm hsum hboot⟩
  · rintro ⟨k₀, hends⟩ usb r hr hzero
    obtain ⟨k, s, hat, hleaves⟩ := leaves_of_downloads h hr
    rcases hends.leaves hat hleaves with ⟨-, hcode⟩ | ⟨-, hcode⟩ | ⟨rfl, hsum, rfl⟩
    · simp [hcode] at hzero
    · simp [hcode] at hzero
    · exact ⟨k, hends.verifiedBoot hat hsum _⟩

/-- Success means a verified boot for the image with one section. -/
theorem verified_boot_bootFile :
    (bootFile.readImage false).code = 0 ∧ SuccessVerified bootFile := by
  have hcode := bootFile_accepted
  have hsections : HasSections bootFile.loaded maxFwimgSize 1 := by
    intro j hj
    obtain rfl : j = 0 := by omega
    decide +kernel
  refine ⟨hcode, (verified_boot hcode).2 ⟨1, ⟨hsections, ?_, ?_, ?_⟩, fun _ => ?_⟩⟩
  all_goals decide +kernel

/-- The download of a file without any section returns 0. -/
theorem verified_boot_fails :
    (headerFile.readImage false).code = 0 ∧ ¬ SuccessVerified headerFile := by
  have hcode := headerFile_accepted false
  refine ⟨hcode, fun hsuccess => ?_⟩
  have hdownload : Downloads readyUsb headerFile (.returned 0, []) := by
    obtain ⟨hfilesize, hbuf, -⟩ := readImage_of_accepted headerFile hcode (by decide)
    rw [downloads_iff hcode, hbuf, hfilesize]
    refine ends_of_inr ?_
    rw [sectionStep, if_neg (by decide)]
    rfl
  obtain ⟨k, hboot⟩ := hsuccess _ _ hdownload (Or.inl rfl)
  exact absurd hboot.requests (by simp)

/-! ### The image in the memory of the device -/

/-- When every transfer succeeds, the download returns 0, and its requests are writes of at least
one and at most `MAX_WRITE_SIZE` bytes, which together have the effect of writing the `k` sections
of the file, and then a single jump to the entry point. -/
def WritesImage (f : File) (k : ℕ) : Prop :=
  ∀ usb, Succeeds usb → ∃ t writes, Downloads usb f (.returned 0, t) ∧
    t.map Prod.fst = writes ++ [jumpRequest f.bytes k] ∧
    (∀ q ∈ writes, IsRamWrite q) ∧
    ∀ ram, writes.foldl applyRequest ram = overlay ram (sections f.bytes k)

/-- What is read of the file is an image with `k'` sections that has the same entry point and the
same effect as the `k` sections of the file. -/
structure LoadsImage (f : File) (k k' : ℕ) : Prop extends ReachesEnd f k' where
  sum : word f.loaded (sectionStart f.loaded k' + 8) = checksum (sections f.loaded k')
  entry : entryPoint f.loaded k' = entryPoint f.bytes k
  effect : ∀ ram, overlay ram (sections f.loaded k') = overlay ram (sections f.bytes k)

/-- A file within the limit is read as it is. -/
lemma loadsImage_of_le {f : File} {k : ℕ} (himage : IsImage f.bytes f.size k)
    (hsize : f.size ≤ maxFwimgSize) : LoadsImage f k k := by
  have hint := toInt_of_le hsize
  have hend := himage.terminator_le
  have hsame : ∀ p < f.size, f.bytes p = f.loaded p := by
    intro p hp
    exact (f.loaded_of_lt (by omega)).symm
  have hbelow : ∀ p < sectionStart f.bytes k, f.bytes p = f.loaded p :=
    fun p hp => hsame p (by omega)
  have hword : ∀ i, i + 4 ≤ f.size → word f.loaded i = word f.bytes i := by
    intro i hi
    exact (word_congr fun p _ hp => hsame p (by omega)).symm
  have hstart := sectionStart_congr hbelow
  have hsections := sections_congr hbelow
  refine ⟨⟨?_, ?_, ?_, ?_⟩, ?_, ?_, ?_⟩
  · exact (himage.hasSections.of_sectionStart_le (by omega)).congr hbelow
  · rw [hstart]
    omega
  · rw [hstart, hword _ (by omega)]
    exact himage.terminator
  · omega
  · rw [hstart, hword _ (by omega), hsections]
    exact himage.sum
  · rw [entryPoint, entryPoint, hstart, hword _ (by omega)]
  · intro ram
    rw [hsections]

/-- The loader writes exactly what is read of the file. -/
lemma writesImage_iff {f : File} {k : ℕ} (h : (f.readImage false).code = 0) :
    WritesImage f k ↔ ∃ k', LoadsImage f k k' := by
  constructor
  · intro hwrites
    obtain ⟨t, writes, hdownload, hrequests, -, heffect⟩ := hwrites readyUsb succeeds_readyUsb
    obtain ⟨k', s, hat, hleaves⟩ := leaves_of_downloads h hdownload
    cases hleaves with
    | pastEnd hend =>
      exact absurd (hat.requests.symm.trans hrequests) (sectionRequests_ne_concat _ _ _ _)
    | boots hlt hfits hterm hsum =>
      rw [List.map_append, hat.requests] at hrequests
      obtain ⟨hreq, hjump⟩ := List.append_inj' hrequests (by simp)
      refine ⟨k', ⟨hat.hasSections, hlt, hterm, hfits.1 hterm⟩, hsum, ?_, fun ram => ?_⟩
      · exact entryPoint_of_jumpRequest (List.cons.inj hjump).1
      · rw [← heffect ram, ← hreq, foldl_applyRequest_sectionRequests]
  · rintro ⟨k₀, hloads⟩ usb husb
    obtain ⟨r, hr⟩ := exists_downloads usb h
    obtain ⟨k', s, hat, hleaves⟩ := leaves_of_downloads h hr
    rcases hloads.leaves hat hleaves with ⟨hfails, -⟩ | ⟨hsum, -⟩ | ⟨rfl, -, rfl⟩
    · exact absurd husb hfails
    · exact absurd hloads.sum hsum
    · refine ⟨_, sectionRequests (sections f.loaded k'), hr, ?_, ?_, fun ram => ?_⟩
      · rw [List.map_append, hat.requests, jumpRequest, jumpRequest, hloads.entry]
        rfl
      · exact fun q hq => isRamWrite_of_mem_sectionRequests hq
      · rw [foldl_applyRequest_sectionRequests, hloads.effect]

/-- For an accepted file that is an image, the loader writes exactly the image if and only if what
is read of the file has the same effect, and so for every image within the limit. -/
theorem image_written {f : File} {k : ℕ} (h : (f.readImage false).code = 0)
    (himage : IsImage f.bytes f.size k) :
    (WritesImage f k ↔ ∃ k', LoadsImage f k k') ∧ (f.size ≤ maxFwimgSize → WritesImage f k) :=
  ⟨writesImage_iff h, fun hsize => (writesImage_iff h).2 ⟨k, loadsImage_of_le himage hsize⟩⟩

/-- The image with one section is written. -/
theorem image_written_bootFile :
    (bootFile.readImage false).code = 0 ∧ IsImage bootFile.bytes bootFile.size 1 ∧
      WritesImage bootFile 1 := by
  have hcode := bootFile_accepted
  have himage : IsImage bootFile.bytes bootFile.size 1 := by
    refine ⟨fun j hj => ?_, ?_, ?_, ?_⟩
    · obtain rfl : j = 0 := by omega
      decide +kernel
    all_goals decide +kernel
  exact ⟨hcode, himage, (image_written hcode himage).2 (by decide)⟩

/-- The header followed by zeros, with a size that is 4 as an `int`.  The zeros behind the header
are a section without data. -/
def wrapFile : File where
  size := 2 ^ 32 + 4
  bytes := headerFile.bytes
  size_lt := by decide

/-- The download of an image with a size of more than 32 bits does nothing and returns 0. -/
theorem image_written_fails :
    (wrapFile.readImage false).code = 0 ∧ IsImage wrapFile.bytes wrapFile.size 0 ∧
      ¬ WritesImage wrapFile 0 := by
  have hint : toInt wrapFile.size = 4 := by decide
  have hcode : (wrapFile.readImage false).code = 0 :=
    (readImage_code_iff _ _).2 ⟨by decide, Or.inr ⟨by decide, rfl, rfl, rfl, rfl⟩⟩
  refine ⟨hcode, ⟨hasSections_zero _, by decide, by decide +kernel, by decide +kernel⟩, ?_⟩
  rw [writesImage_iff hcode]
  rintro ⟨k', hloads⟩
  have hlt := hloads.terminator_lt
  have hstart := four_le_sectionStart wrapFile.loaded k'
  omega

end Fx3Ncm.Flash
