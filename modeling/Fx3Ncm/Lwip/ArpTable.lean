/-
# The ARP table

`etharp_find_entry` sweeps over the table once and remembers four candidates on the way.  `Finds`
says what comes out of it; everything else about the table rests on that.

`ArpInv` is the invariant of the table: no two entries in use have the same address, only pending
entries hold a packet, ages are bounded, and no assertion has failed.
-/
import Fx3Ncm.Lwip.Etharp
import Fx3Ncm.Lib.Run

namespace Fx3Ncm.Lwip

open Runs ByteMemory

/-! ### Updates of the state -/

namespace Arp

variable (s : Arp) (i : ArpIdx) (e : EtharpEntry) (c : ArpCall)

@[simp] lemma setEntry_calls : (s.setEntry i e).calls = s.calls := rfl
@[simp] lemma setEntry_self : (s.setEntry i e).table i = e := by simp [setEntry]

@[simp] lemma setEntry_setEntry (e' : EtharpEntry) :
    (s.setEntry i e).setEntry i e' = s.setEntry i e' := by
  simp [setEntry, Function.update_idem]

lemma setEntry_of_ne {j : ArpIdx} (h : j ≠ i) : (s.setEntry i e).table j = s.table j := by
  simp [setEntry, Function.update_of_ne h]

@[simp] lemma record_table : (s.record c).table = s.table := rfl
@[simp] lemma record_calls : (s.record c).calls = s.calls ++ [c] := rfl
@[simp] lemma record_assertFailed : (s.record c).assertFailed = s.assertFailed := rfl
@[simp] lemma record_cachedEntry : (s.record c).cachedEntry = s.cachedEntry := rfl

lemma record_setEntry : (s.record c).setEntry i e = (s.setEntry i e).record c := rfl

@[simp] lemma lwipAssert_true : s.lwipAssert true = s := by
  cases s
  simp [lwipAssert]

end Arp

/-! ### The search -/

section Search

variable (table : ArpIdx → EtharpEntry)

/-- A stable entry that may expire. -/
def Dynamic (i : ArpIdx) : Prop := (table i).state.isStable ∧ (table i).state ≠ .static

/-- A pending entry without a packet. -/
def Idle (i : ArpIdx) : Prop := (table i).state = .pending ∧ (table i).q = none

/-- A pending entry with a packet. -/
def Waiting (i : ArpIdx) : Prop := (table i).state = .pending ∧ (table i).q ≠ none

/-- No entry in use has the address. -/
def Unknown (a : UInt32) : Prop := ∀ i, (table i).state ≠ .empty → (table i).ipaddr ≠ a

/-- The first empty entry. -/
structure FirstEmpty (l : List ArpIdx) (i : ArpIdx) : Prop where
  empty : (table i).state = .empty
  first : ∃ l₁ l₂, l = l₁ ++ i :: l₂ ∧ ∀ j ∈ l₁, (table j).state ≠ .empty

/-- The entry that is recycled if no entry is empty: of the stable ones that may expire, the
oldest; if there are none, the oldest pending one without a packet; if there are none of these
either, the oldest pending one. -/
inductive Victim (l : List ArpIdx) (i : ArpIdx) : Prop
  | dynamic (h : Oldest.IsOldest (Dynamic table) (age table) l i)
  | idle (hd : ∀ j ∈ l, ¬ Dynamic table j) (h : Oldest.IsOldest (Idle table) (age table) l i)
  | waiting (hd : ∀ j ∈ l, ¬ Dynamic table j) (hi : ∀ j ∈ l, ¬ Idle table j)
      (h : Oldest.IsOldest (Waiting table) (age table) l i)

/-- What is remembered of the entries `l`, none of which matches. -/
structure Swept (a : UInt32) (l : List ArpIdx) (c : Candidates) : Prop where
  unknown : ∀ i ∈ l, (table i).state ≠ .empty → (table i).ipaddr ≠ a
  full : c.empty = none → ∀ i ∈ l, (table i).state ≠ .empty
  empty : ∀ i, c.empty = some i → FirstEmpty table l i
  stable : Oldest.Holds (Dynamic table) (age table) l c.oldStable
  pending : Oldest.Holds (Idle table) (age table) l c.oldPending
  queue : Oldest.Holds (Waiting table) (age table) l c.oldQueue

variable {table} {a : UInt32} {l : List ArpIdx} {c : Candidates} {i : ArpIdx}

lemma swept_nil : Swept table a [] .none where
  unknown := by simp
  full := by simp
  empty := by simp [Candidates.none]
  stable := Oldest.holds_nil
  pending := Oldest.holds_nil
  queue := Oldest.holds_nil

lemma FirstEmpty.concat (h : FirstEmpty table l i) (j : ArpIdx) :
    FirstEmpty table (l ++ [j]) i := by
  obtain ⟨l₁, l₂, rfl, hfirst⟩ := h.first
  exact ⟨h.empty, l₁, l₂ ++ [j], by simp, hfirst⟩

lemma forall_mem_concat {p : ArpIdx → Prop} (hl : ∀ j ∈ l, p j) (hi : p i) :
    ∀ j ∈ l ++ [i], p j := by
  intro j hj
  rcases List.mem_append.1 hj with hj | hj
  · exact hl j hj
  · obtain rfl := List.mem_singleton.1 hj
    exact hi

/-- One iteration of the sweep. -/
lemma Swept.remember (h : Swept table a l c)
    (hi : ¬ ((table i).state ≠ .empty ∧ a = (table i).ipaddr)) :
    Swept table a (l ++ [i]) (remember table c i) := by
  have hunknown : ∀ j ∈ l ++ [i], (table j).state ≠ .empty → (table j).ipaddr ≠ a :=
    forall_mem_concat h.unknown fun hused heq => hi ⟨hused, heq.symm⟩
  have hempty (j : ArpIdx) (hj : c.empty = some j) : FirstEmpty table (l ++ [i]) j :=
    (h.empty j hj).concat i
  have hfull (hused : (table i).state ≠ .empty) (hc : c.empty = none) :
      ∀ j ∈ l ++ [i], (table j).state ≠ .empty := forall_mem_concat (h.full hc) hused
  unfold Lwip.remember
  split
  case h_1 hstate =>
    -- an empty entry: it is remembered if it is the first one
    have hstable := h.stable.skip (x := i) (by simp [Dynamic, hstate, EtharpState.isStable])
    have hpending := h.pending.skip (x := i) (by simp [Idle, hstate])
    have hqueue := h.queue.skip (x := i) (by simp [Waiting, hstate])
    split_ifs with hc
    · have hnone : c.empty = none := by simpa using hc
      refine ⟨hunknown, by simp, ?_, hstable, hpending, hqueue⟩
      intro j hj
      obtain rfl := Option.some.inj hj
      exact ⟨hstate, l, [], rfl, h.full hnone⟩
    · refine ⟨hunknown, fun hnone => absurd hnone (by simpa using hc), hempty, hstable, hpending,
        hqueue⟩
  case h_2 hstate =>
    have hstable := h.stable.skip (x := i) (by simp [Dynamic, hstate, EtharpState.isStable])
    split_ifs with hq
    · have hne : (table i).q ≠ none := by simpa [Option.isSome_iff_ne_none] using hq
      exact ⟨hunknown, hfull (by simp [hstate]), hempty, hstable,
        h.pending.skip (by simp [Idle, hne]), h.queue.see ⟨hstate, hne⟩⟩
    · have heq : (table i).q = none := by simpa using hq
      exact ⟨hunknown, hfull (by simp [hstate]), hempty, hstable, h.pending.see ⟨hstate, heq⟩,
        h.queue.skip (by simp [Waiting, heq])⟩
  case h_3 hstate =>
    exact ⟨hunknown, hfull (by simp [hstate]), hempty, h.stable.skip (by simp [Dynamic, hstate]),
      h.pending.skip (by simp [Idle, hstate]), h.queue.skip (by simp [Waiting, hstate])⟩
  case h_4 hnempty hnpending hnstatic =>
    have hdynamic : Dynamic table i := by
      refine ⟨?_, hnstatic⟩
      cases hstate : (table i).state <;> simp_all [EtharpState.isStable]
    exact ⟨hunknown, hfull hnempty, hempty, h.stable.see hdynamic,
      h.pending.skip fun hi => hnpending hi.1, h.queue.skip fun hi => hnpending hi.1⟩

/-- The sweep ends at the first match, or with the candidates of all entries. -/
lemma sweep_spec (is : List ArpIdx) (h : Swept table a l c) :
    (∃ i ∈ is, sweep table a is c = .inl i ∧ (table i).state ≠ .empty ∧ (table i).ipaddr = a) ∨
      ∃ c', sweep table a is c = .inr c' ∧ Swept table a (l ++ is) c' := by
  induction is generalizing l c with
  | nil => exact .inr ⟨c, rfl, by simpa using h⟩
  | cons i is ih =>
    by_cases hi : (table i).state ≠ .empty ∧ a = (table i).ipaddr
    · exact .inl ⟨i, by simp, by rw [sweep, if_pos hi], hi.1, hi.2.symm⟩
    · rw [sweep, if_neg hi]
      rcases ih (h.remember hi) with ⟨j, hj, heq, hmatch⟩ | ⟨c', heq, hc'⟩
      · exact .inl ⟨j, List.mem_cons_of_mem i hj, heq, hmatch⟩
      · exact .inr ⟨c', heq, by simpa using hc'⟩

/-- The entry that the sweep chooses for recycling. -/
lemma Swept.victim (h : Swept table a l c) (hc : c.recycle = some i) : Victim table l i := by
  unfold Candidates.recycle at hc
  cases hstable : c.oldStable.1 with
  | some j =>
    rw [hstable, Option.some_or] at hc
    exact .dynamic (h.stable.isOldest (hstable.trans hc))
  | none =>
    have hd := h.stable.not_of_none hstable
    rw [hstable, Option.none_or] at hc
    cases hpending : c.oldPending.1 with
    | some j =>
      rw [hpending, Option.some_or] at hc
      exact .idle hd (h.pending.isOldest (hpending.trans hc))
    | none =>
      rw [hpending, Option.none_or] at hc
      exact .waiting hd (h.pending.not_of_none hpending) (h.queue.isOldest hc)

/-- There is nothing to recycle only if all entries are static. -/
lemma Swept.static (h : Swept table a l c) (hempty : c.empty = none) (hc : c.recycle = none) :
    ∀ j ∈ l, (table j).state = .static := by
  intro j hj
  obtain ⟨hstable, hrest⟩ := Option.or_eq_none_iff.1 hc
  obtain ⟨hpending, hqueue⟩ := Option.or_eq_none_iff.1 hrest
  have hused := h.full hempty j hj
  have hd := h.stable.not_of_none hstable j hj
  have hi := h.pending.not_of_none hpending j hj
  have hw := h.queue.not_of_none hqueue j hj
  by_contra hstatic
  by_cases hp : (table j).state = .pending
  · by_cases hq : (table j).q = none
    · exact hi ⟨hp, hq⟩
    · exact hw ⟨hp, hq⟩
  · refine hd ⟨?_, hstatic⟩
    cases hstate : (table j).state <;> simp_all [EtharpState.isStable]

end Search

/-- The packet that waits at the entry, if there is one, is freed. -/
def Arp.release (s : Arp) (i : ArpIdx) : Arp :=
  match (s.table i).q with
  | some q => s.record (.pbufFree q)
  | none => s

/-- The entry `i` is emptied and given the address `a`. -/
def Arp.take (s : Arp) (i : ArpIdx) (a : UInt32) : Arp :=
  (s.release i).setEntry i
    { s.table i with q := none, state := .empty, ipaddr := a, ctime := 0 }

@[simp] lemma Arp.release_table (s : Arp) (i : ArpIdx) : (s.release i).table = s.table := by
  unfold Arp.release
  split <;> rfl

@[simp] lemma Arp.release_assertFailed (s : Arp) (i : ArpIdx) :
    (s.release i).assertFailed = s.assertFailed := by
  unfold Arp.release
  split <;> rfl

lemma Arp.release_of_none {s : Arp} {i : ArpIdx} (h : (s.table i).q = none) : s.release i = s := by
  unfold Arp.release
  rw [h]

/-- What `etharp_find_entry` can do in a state where only pending entries hold packets. -/
inductive Finds (a : UInt32) (flags : FindFlags) (s : Arp) : Option ArpIdx × Arp → Prop
  | hit (i : ArpIdx) (hused : (s.table i).state ≠ .empty) (heq : (s.table i).ipaddr = a) :
      Finds a flags s (some i, s)
  | refused (hunknown : Unknown s.table a)
      (h : flags.findOnly ∨ (∀ i, (s.table i).state ≠ .empty) ∧
        (flags.tryHard → ∀ i, (s.table i).state = .static)) :
      Finds a flags s (none, s)
  | fresh (i : ArpIdx) (hunknown : Unknown s.table a) (hmay : ¬ flags.findOnly)
      (h : FirstEmpty s.table (List.finRange arpTableSize) i) :
      Finds a flags s (some i, s.take i a)
  | recycled (i : ArpIdx) (hunknown : Unknown s.table a) (hmay : ¬ flags.findOnly ∧ flags.tryHard)
      (hfull : ∀ j, (s.table j).state ≠ .empty)
      (h : Victim s.table (List.finRange arpTableSize) i) :
      Finds a flags s (some i, s.take i a)

lemma newEntry_of_empty {s : Arp} {i : ArpIdx} (a : UInt32) (h : (s.table i).state = .empty)
    (hq : (s.table i).q = none) : newEntry a i s = s.take i a := by
  unfold newEntry Arp.take
  rw [Arp.release_of_none hq, h, beq_self_eq_true, Arp.lwipAssert_true, ← h, ← hq]

lemma etharpFreeEntry_eq (i : ArpIdx) (s : Arp) :
    etharpFreeEntry i s =
      (s.release i).setEntry i { s.table i with q := none, state := .empty } := by
  unfold etharpFreeEntry Arp.release
  cases h : (s.table i).q with
  | none => simp only [← h]
  | some q => rfl

lemma newEntry_etharpFreeEntry (a : UInt32) (i : ArpIdx) (s : Arp) :
    newEntry a i (etharpFreeEntry i s) = s.take i a := by
  rw [etharpFreeEntry_eq, newEntry_of_empty a (by simp) (by simp), Arp.take,
    Arp.release_of_none (by simp), Arp.take]
  simp

/-- The search, as a whole. -/
lemma finds_etharpFindEntry (a : UInt32) (flags : FindFlags) {s : Arp}
    (hq : ∀ i, (s.table i).q ≠ none → (s.table i).state = .pending) :
    Finds a flags s (etharpFindEntry a flags s) := by
  unfold etharpFindEntry
  have hnil : Swept s.table a [] .none := swept_nil
  rcases sweep_spec (List.finRange arpTableSize) hnil with
    ⟨i, -, heq, hused, hip⟩ | ⟨c, heq, hc⟩
  · rw [heq]
    exact .hit i hused hip
  · rw [heq]
    simp only [List.nil_append] at hc ⊢
    have hunknown : Unknown s.table a := fun i => hc.unknown i (List.mem_finRange i)
    split_ifs with hflags
    · refine .refused hunknown ?_
      rcases hflags with hfind | ⟨hnone, htry⟩
      · exact .inl hfind
      · exact .inr ⟨fun i => hc.full (by simpa using hnone) i (List.mem_finRange i),
          fun h => absurd h htry⟩
    · obtain ⟨hfind, hempty⟩ := not_or.1 hflags
      cases hce : c.empty with
      | some i =>
        have hi := hc.empty i hce
        have hqi : (s.table i).q = none := by
          by_contra hne
          exact absurd hi.empty (by simp [hq i hne])
        simp only [newEntry_of_empty a hi.empty hqi]
        exact .fresh i hunknown hfind hi
      | none =>
        have hfull (i : ArpIdx) := hc.full hce i (List.mem_finRange i)
        have htry : flags.tryHard := by
          by_contra hntry
          exact hempty ⟨by simp [hce], hntry⟩
        cases hrecycle : c.recycle with
        | some i =>
          have hvictim := hc.victim hrecycle
          have hassert : (c.oldStable.1.isNone || (s.table i).q.isNone) = true := by
            cases hstable : c.oldStable.1 with
            | none => rfl
            | some j =>
              have hj : j = i := by
                rw [Candidates.recycle, hstable, Option.some_or] at hrecycle
                exact Option.some.inj hrecycle
              obtain ⟨hdynamic, -⟩ := (hc.stable.isOldest (hj ▸ hstable)).holds
              cases hqi : (s.table i).q with
              | none => rfl
              | some p => simp [hq i (by simp [hqi]), EtharpState.isStable] at hdynamic
          simp only [hassert, Arp.lwipAssert_true, newEntry_etharpFreeEntry]
          exact .recycled i hunknown ⟨hfind, htry⟩ hfull hvictim
        | none =>
          exact .refused hunknown (.inr ⟨hfull, fun _ i =>
            hc.static hce hrecycle i (List.mem_finRange i)⟩)

/-! ### The invariant -/

section Invariant

variable (netif : Netif)

/-- What holds of every entry. -/
structure EntryOk (e : EtharpEntry) : Prop where
  waiting : e.q ≠ none → e.state = .pending
  unicast : e.state ≠ .empty → isUnicast netif e.ipaddr = true
  netif : e.state ≠ .empty → e.netif = true
  age : e.state ≠ .empty → e.ctime < arpMaxage
  pending : e.state = .pending → e.ctime < arpMaxpending
  static : e.state = .static → e.ctime = 0

/-- What holds of the module in every state that it reaches. -/
structure ArpInv (s : Arp) : Prop where
  entry : ∀ i, EntryOk netif (s.table i)
  unique : ∀ i j, (s.table i).state ≠ .empty → (s.table j).state ≠ .empty →
    (s.table i).ipaddr = (s.table j).ipaddr → i = j
  passed : s.assertFailed = false

/-- No other entry in use has the address of the entry `i`. -/
def Alone (table : ArpIdx → EtharpEntry) (i : ArpIdx) : Prop :=
  ∀ j, j ≠ i → (table j).state ≠ .empty → (table j).ipaddr ≠ (table i).ipaddr

variable {netif} {s s' : Arp} {i : ArpIdx} {a : UInt32}

lemma arpInv_init : ArpInv netif Arp.init where
  entry i := by constructor <;> simp [Arp.init]
  unique i j hi := absurd rfl hi
  passed := rfl

/-- The invariant is about the table and the assertions only. -/
lemma ArpInv.congr (h : ArpInv netif s) (ht : s'.table = s.table)
    (ha : s'.assertFailed = s.assertFailed) : ArpInv netif s' where
  entry i := ht ▸ h.entry i
  unique i j := ht ▸ h.unique i j
  passed := ha.trans h.passed

lemma ArpInv.setEntry (h : ArpInv netif s) {e : EtharpEntry} (he : EntryOk netif e)
    (halone : e.state ≠ .empty →
      ∀ j, j ≠ i → (s.table j).state ≠ .empty → (s.table j).ipaddr ≠ e.ipaddr) :
    ArpInv netif (s.setEntry i e) where
  entry j := by
    by_cases hj : j = i
    · subst hj
      simpa using he
    · rw [Arp.setEntry_of_ne _ _ _ hj]
      exact h.entry j
  unique j k hj hk heq := by
    by_cases hji : j = i <;> by_cases hki : k = i
    · rw [hji, hki]
    · subst hji
      rw [Arp.setEntry_of_ne _ _ _ hki] at hk heq
      rw [Arp.setEntry_self] at hj heq
      exact absurd heq.symm (halone hj k hki hk)
    · subst hki
      rw [Arp.setEntry_of_ne _ _ _ hji] at hj heq
      rw [Arp.setEntry_self] at hk heq
      exact absurd heq (halone hk j hji hj)
    · rw [Arp.setEntry_of_ne _ _ _ hji] at hj heq
      rw [Arp.setEntry_of_ne _ _ _ hki] at hk heq
      exact h.unique j k hj hk heq
  passed := h.passed

lemma ArpInv.release (h : ArpInv netif s) (i : ArpIdx) : ArpInv netif (s.release i) :=
  h.congr (by simp) (by simp)

/-- An entry may always be emptied. -/
lemma ArpInv.empty (h : ArpInv netif s) {e : EtharpEntry} (hq : e.q = none)
    (he : e.state = .empty) : ArpInv netif ((s.release i).setEntry i e) := by
  refine (h.release i).setEntry ?_ fun hne => absurd he hne
  constructor <;> simp [hq, he]

lemma ArpInv.alone (h : ArpInv netif s) (hi : (s.table i).state ≠ .empty) : Alone s.table i :=
  fun j hj hused heq => hj (h.unique j i hused hi heq)

lemma ArpInv.finds (h : ArpInv netif s) (a : UInt32) (flags : FindFlags) :
    Finds a flags s (etharpFindEntry a flags s) :=
  finds_etharpFindEntry a flags fun i => (h.entry i).waiting

@[simp] lemma Arp.take_self (s : Arp) (i : ArpIdx) (a : UInt32) : (s.take i a).table i =
    { s.table i with q := none, state := .empty, ipaddr := a, ctime := 0 } := by
  simp [Arp.take]

lemma Arp.take_of_ne (s : Arp) {i j : ArpIdx} (a : UInt32) (h : j ≠ i) :
    (s.take i a).table j = s.table j := by
  simp [Arp.take, Arp.setEntry_of_ne _ _ _ h]

lemma Unknown.alone_take (h : Unknown s.table a) : Alone (s.take i a).table i := by
  intro j hj hused
  rw [Arp.take_of_ne s a hj] at hused ⊢
  rw [Arp.take_self]
  exact h j hused

/-- A victim is not static. -/
lemma Victim.ne_static {table : ArpIdx → EtharpEntry} {l : List ArpIdx} (h : Victim table l i) :
    (table i).state ≠ .static := by
  cases h with
  | dynamic h => exact h.holds.2
  | idle _ h => simp [h.holds.1]
  | waiting _ _ h => simp [h.holds.1]

/-- The entry that is found: a hit, or an empty one that has just been given the address. -/
inductive Entry (a : UInt32) (s : Arp) (i : ArpIdx) : Arp → Prop
  | hit (hused : (s.table i).state ≠ .empty) (heq : (s.table i).ipaddr = a) : Entry a s i s
  | taken (hunknown : Unknown s.table a) (hstatic : (s.table i).state ≠ .static) :
      Entry a s i (s.take i a)

lemma Finds.entry {flags : FindFlags} (h : Finds a flags s (some i, s')) : Entry a s i s' := by
  cases h with
  | hit _ hused heq => exact .hit hused heq
  | fresh _ hunknown _ h => exact .taken hunknown (by simp [h.empty])
  | recycled _ hunknown _ _ h => exact .taken hunknown h.ne_static

lemma Entry.ipaddr (h : Entry a s i s') : (s'.table i).ipaddr = a := by
  cases h with
  | hit _ heq => exact heq
  | taken => simp

lemma Entry.alone (h : Entry a s i s') (hs : ArpInv netif s) : Alone s'.table i := by
  cases h with
  | hit hused _ => exact hs.alone hused
  | taken hunknown _ => exact hunknown.alone_take

end Invariant

end Fx3Ncm.Lwip
