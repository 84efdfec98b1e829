import Dnt.Core.IfUdpIn

/-!
# The Address Senders Are Told

Two rules choose the address of an incoming interface. The scan of `set_srcip`
passes over link-local addresses but not over tentative ones, and the message of a
new address is passed over when it is tentative but not when it is link-local. So
each rule may record an address that is not usable. One that was recorded can also
become tentative later, and nothing looks at it then.

## Main definitions

* `Usable`, `Sourced`: A usable address, and that one is recorded if there is any.
* `Announced`: The recorded address is right after a round, and the senders know it.
* `Settles`, `Agreed`: A scan, and a change, on which the rules agree.

## Theorems

* `monitorRun_sourced_iff`: The recorded address is right in all of a run just if the rules
  agree on every change.
-/

namespace Dnt

open Mealy

namespace UdpInMonitor

def Ours (m : UdpInMonitor) (a : IfAddress) : Prop :=
  a.ifindex = m.ifindex ∧ a.family = m.family

/-- An address that packets can be sent from. -/
structure Usable (m : UdpInMonitor) (a : IfAddress) : Prop where
  listed : a ∈ m.table.listed
  ours : m.Ours a
  global : a.linkLocal = false
  settled : m.table.tentative a = false

/-- A usable address is recorded, or none exactly if there is none. -/
structure Sourced (m : UdpInMonitor) : Prop where
  found : m.srcip ≠ noAddress → ∃ a, m.Usable a ∧ a.octets = m.srcip
  none : m.srcip = noAddress ↔ ∀ a, ¬ m.Usable a

/-- What `set_srcip` would take from a list is not tentative. -/
def Settles (m : UdpInMonitor) (listed : List IfAddress) : Prop :=
  ∀ a, listed.find? m.takes = some a → m.table.tentative a = false

/-- The recorded address does not become tentative, a link-local one is not added while none
is recorded, and the one that takes the place of the recorded one is not tentative. -/
def Agreed (m : UdpInMonitor) : AddressEvent → Prop
  | .added a true _ => m.Ours a → a.octets ≠ m.srcip
  | .added a false _ => m.Ours a → m.srcip = noAddress → a.linkLocal = false
  | .removed a => m.Ours a → a.octets = m.srcip → m.Settles (m.table.listed.filter (· ≠ a))

end UdpInMonitor

open UdpInMonitor

variable {m m' : UdpInMonitor} {a b : IfAddress}

theorem sourced_of (hfound : m.srcip ≠ noAddress → ∃ a, m.Usable a ∧ a.octets = m.srcip)
    (hnone : m.srcip = noAddress → ∀ a, ¬ m.Usable a) : m.Sourced := by
  refine ⟨hfound, hnone, fun h => ?_⟩
  by_contra hip
  obtain ⟨a, ha, -⟩ := hfound hip
  exact h a ha

theorem Ours.ext (ha : m.Ours a) (hb : m.Ours b) (h : a.octets = b.octets) : a = b := by
  cases a
  cases b
  obtain ⟨rfl, rfl⟩ := ha
  obtain ⟨hindex, hfamily⟩ := hb
  cases hindex
  cases hfamily
  cases h
  rfl

theorem takes_iff : m.takes a = true ↔ m.Ours a ∧ a.linkLocal = false := by
  have hsup := m.supported
  rw [takes, Ours, IfAddress.linkLocal]
  cases hf : a.family <;> cases hm : m.family <;> simp_all

/-- What is recorded is still right when it stays usable, or when nothing became usable. -/
theorem sourced_of_usable (h : m.Sourced) (hip : m'.srcip = m.srcip)
    (hkept : ∀ b, b.octets = m.srcip → m.Usable b → m'.Usable b)
    (hnew : m.srcip = noAddress → ∀ b, m'.Usable b → m.Usable b) : m'.Sourced := by
  refine sourced_of (fun hne => ?_) (fun hno b hb => ?_)
  · rw [hip] at hne
    obtain ⟨b, hb, hoctets⟩ := h.found hne
    exact ⟨b, hkept b hoctets hb, hoctets.trans hip.symm⟩
  · rw [hip] at hno
    exact h.none.mp hno b (hnew hno b hb)

theorem sourced_setSrcip_iff (h : m.srcip = noAddress) :
    (setSrcip m).Sourced ↔ m.Settles m.table.listed := by
  unfold setSrcip Settles
  cases hfind : m.table.listed.find? m.takes with
  | none =>
    refine iff_of_true (sourced_of (absurd h) fun _ a ha => ?_) nofun
    exact List.find?_eq_none.mp hfind a ha.listed (takes_iff.mpr ⟨ha.ours, ha.global⟩)
  | some a =>
    obtain ⟨hours, hglobal⟩ := takes_iff.mp (List.find?_some hfind)
    constructor
    · rintro hs _ ⟨⟩
      obtain ⟨b, hb, hoctets⟩ := hs.found a.assigned
      cases Ours.ext hours hb.ours hoctets.symm
      exact hb.settled
    · intro hs
      have hmem := List.mem_of_find?_eq_some hfind
      exact sourced_of (fun _ => ⟨a, ⟨hmem, hours, hglobal, hs a rfl⟩, rfl⟩) (absurd · a.assigned)

theorem settles_setSrcip (listed : List IfAddress) :
    (setSrcip m).Settles listed ↔ m.Settles listed := by
  unfold setSrcip
  split <;> rfl

/-! ### One round -/

abbrev changed (m : UdpInMonitor) (e : AddressEvent) : UdpInMonitor :=
  { m with table := m.table.change e }

theorem usable_changed_of_ne {e : AddressEvent} (hne : b ≠ e.address) :
    (changed m e).Usable b ↔ m.Usable b := by
  have hlisted : b ∈ (m.table.change e).listed ↔ b ∈ m.table.listed := by
    cases e with
    | added a tentative place =>
      have hne' : b ≠ a := hne
      rw [AddressTable.change, List.mem_append, List.mem_cons, or_iff_right hne', ← List.mem_append,
        List.take_append_drop, List.mem_filter]
      exact and_iff_left (decide_eq_true hne)
    | removed a => simpa [AddressTable.change] using fun _ => hne
  have hflags : (m.table.change e).tentative b = m.table.tentative b := by
    cases e with
    | added a tentative place => exact Function.update_of_ne hne _ _
    | removed a => rfl
  constructor
  · rintro ⟨h₁, h₂, h₃, h₄⟩
    exact ⟨hlisted.mp h₁, h₂, h₃, hflags ▸ h₄⟩
  · rintro ⟨h₁, h₂, h₃, h₄⟩
    exact ⟨hlisted.mpr h₁, h₂, h₃, hflags.trans h₄⟩

theorem usable_added_iff {tentative : Bool} {place : Nat} :
    (changed m (.added a tentative place)).Usable a ↔
      m.Ours a ∧ a.linkLocal = false ∧ tentative = false := by
  have hflags : (m.table.change (.added a tentative place)).tentative a = tentative :=
    Function.update_self _ _ _
  constructor
  · rintro ⟨-, h₂, h₃, h₄⟩
    exact ⟨h₂, h₃, hflags ▸ h₄⟩
  · rintro ⟨h₂, h₃, h₄⟩
    exact ⟨by simp [AddressTable.change], h₂, h₃, hflags.trans h₄⟩

theorem not_usable_removed : ¬ (changed m (.removed a)).Usable a := by
  intro h
  simpa [AddressTable.change, AddressEvent.address] using h.listed

theorem handleMessage_notifies (e : AddressEvent)
    (h : (handleMessage m e).1.srcip ≠ m.srcip) : (handleMessage m e).2 = true := by
  revert h
  cases e <;> simp only [handleMessage] <;> split_ifs <;>
    first | exact fun _ => rfl | exact fun h => absurd rfl h

theorem Ours.not_skipped (h : m.Ours a) : ¬ (a.ifindex ≠ m.ifindex ∨ a.family ≠ m.family) := by
  rintro (hindex | hfamily)
  · exact hindex h.1
  · exact hfamily h.2

theorem handleMessage_added (h : m.Ours a) (tentative : Bool) (place : Nat) :
    handleMessage (changed m (.added a tentative place)) (.added a tentative place) =
      if tentative = true ∨ m.srcip ≠ noAddress then
        (changed m (.added a tentative place), false)
      else ({ changed m (.added a tentative place) with srcip := a.octets }, true) :=
  if_neg (Ours.not_skipped h)

theorem handleMessage_removed (h : m.Ours a) :
    handleMessage (changed m (.removed a)) (.removed a) =
      if m.table.tentative a = false ∧ m.srcip = a.octets then
        (setSrcip { changed m (.removed a) with srcip := noAddress }, true)
      else (changed m (.removed a), false) :=
  if_neg (Ours.not_skipped h)

theorem sourced_added_iff (h : m.Sourced) (hours : m.Ours a) (tentative : Bool) (place : Nat) :
    (handleMessage (changed m (.added a tentative place)) (.added a tentative place)).1.Sourced ↔
      m.Agreed (.added a tentative place) := by
  rw [handleMessage_added hours]
  cases tentative with
  | true =>
    rw [if_pos (.inl rfl)]
    constructor
    · intro hs _ hip
      obtain ⟨b, hb, hoctets⟩ := hs.found fun hno => a.assigned (hip.trans hno)
      cases Ours.ext hours hb.ours (hip.trans hoctets.symm)
      exact absurd (usable_added_iff.mp hb).2.2 (by decide)
    · intro hagreed
      refine sourced_of_usable h rfl (fun b hoctets hb => ?_) fun _ b hb => ?_
      · refine (usable_changed_of_ne ?_).mpr hb
        rintro rfl
        exact hagreed hours hoctets
      · refine (usable_changed_of_ne ?_).mp hb
        rintro rfl
        exact absurd (usable_added_iff.mp hb).2.2 (by decide)
  | false =>
    by_cases hno : m.srcip = noAddress
    · rw [if_neg (by simp [hno])]
      constructor
      · intro hs _ _
        obtain ⟨b, hb, hoctets⟩ := hs.found a.assigned
        cases Ours.ext hours hb.ours hoctets.symm
        exact hb.global
      · intro hagreed
        have ha : (changed m (.added a false place)).Usable a :=
          usable_added_iff.mpr ⟨hours, hagreed hours hno, rfl⟩
        exact sourced_of (fun _ => ⟨a, ⟨ha.1, ha.2, ha.3, ha.4⟩, rfl⟩) (absurd · a.assigned)
    · rw [if_pos (.inr hno)]
      refine iff_of_true (sourced_of_usable h rfl (fun b _ hb => ?_) (absurd · hno))
        fun _ hno' => absurd hno' hno
      by_cases hba : b = a
      · cases hba
        exact usable_added_iff.mpr ⟨hours, hb.global, rfl⟩
      · exact (usable_changed_of_ne hba).mpr hb

theorem sourced_removed_iff (h : m.Sourced) (hours : m.Ours a) :
    (handleMessage (changed m (.removed a)) (.removed a)).1.Sourced ↔ m.Agreed (.removed a) := by
  rw [handleMessage_removed hours]
  by_cases hip : a.octets = m.srcip
  · have hsettled : m.table.tentative a = false := by
      obtain ⟨b, hb, hoctets⟩ := h.found fun hno => a.assigned (hip.trans hno)
      cases Ours.ext hours hb.ours (hip.trans hoctets.symm)
      exact hb.settled
    rw [if_pos ⟨hsettled, hip.symm⟩, sourced_setSrcip_iff rfl]
    exact ⟨fun hs _ _ => hs, fun hs => hs hours hip⟩
  · rw [if_neg fun hc => hip hc.2.symm]
    refine iff_of_true (sourced_of_usable h rfl (fun b hoctets hb => ?_) fun _ b hb => ?_)
      fun _ hip' => absurd hip' hip
    · refine (usable_changed_of_ne ?_).mpr hb
      rintro rfl
      exact hip hoctets
    · refine (usable_changed_of_ne ?_).mp hb
      rintro rfl
      exact not_usable_removed hb

theorem sourced_other (h : m.Sourced) (e : AddressEvent) (hours : ¬ m.Ours e.address) :
    (handleMessage (changed m e) e).1.Sourced := by
  have hskip : e.address.ifindex ≠ m.ifindex ∨ e.address.family ≠ m.family := by
    rwa [← not_and_or]
  have hsame (b : IfAddress) : (changed m e).Usable b ↔ m.Usable b := by
    by_cases hb : b = e.address
    · exact iff_of_false (fun hu => hours (hb ▸ hu.ours)) fun hu => hours (hb ▸ hu.ours)
    · exact usable_changed_of_ne hb
  have heq : handleMessage (changed m e) e = (changed m e, false) := if_pos hskip
  rw [heq]
  exact sourced_of_usable h rfl (fun b _ => (hsame b).mpr) fun _ b => (hsame b).mp

theorem sourced_handleMessage_iff (h : m.Sourced) (e : AddressEvent) :
    (handleMessage (changed m e) e).1.Sourced ↔ m.Agreed e := by
  by_cases hours : m.Ours e.address
  · cases e with
    | added a tentative place => exact sourced_added_iff h hours tentative place
    | removed a => exact sourced_removed_iff h hours
  · refine iff_of_true (sourced_other h e hours) ?_
    rcases e with ⟨a, _ | _, place⟩ | a
    all_goals exact fun ho => absurd ho hours

/-! ### Runs -/

/-- After a round the recorded address is right, and the senders know it if it changed. -/
structure Announced (m : UdpInMonitor) (e : AddressEvent × Nat) : Prop where
  sourced : (monitorRound m e).1.Sourced
  told : (monitorRound m e).1.srcip ≠ m.srcip →
    (monitorRound m e).2 = some (monitorRound m e).1.srcip

theorem announced_iff (h : m.Sourced) (e : AddressEvent × Nat) : Announced m e ↔ m.Agreed e.1 := by
  rw [← sourced_handleMessage_iff h]
  refine ⟨Announced.sourced, fun hs => ⟨hs, fun hne => ?_⟩⟩
  exact if_pos (.inl (handleMessage_notifies _ hne))

/-- The recorded address is right in all of a run exactly if the rules agree on every change. -/
theorem monitorRun_sourced_iff (ipversion ifindex : Nat) (table : AddressTable)
    (es : List (AddressEvent × Nat)) :
    (udpinOpen ipversion ifindex table).Sourced ∧
        EveryStep monitorRound Announced (udpinOpen ipversion ifindex table) es ↔
      (udpinOpen ipversion ifindex table).Settles table.listed ∧
        EveryStep monitorRound (fun m e => m.Agreed e.1) (udpinOpen ipversion ifindex table)
          es := by
  have hopen : (udpinOpen ipversion ifindex table).Sourced ↔
      (udpinOpen ipversion ifindex table).Settles table.listed := by
    rw [udpinOpen, sourced_setSrcip_iff rfl, settles_setSrcip]
  rw [hopen]
  refine and_congr_right fun hs => ?_
  exact everyStep_iff_of_invariant Sourced Announced _
    (fun m e h hagreed => ((announced_iff h e).mpr hagreed).sourced)
    (fun m e h => announced_iff h e) (hopen.mpr hs) es

/-- A device without addresses gets a link-local one, and the senders are told to use it. -/
theorem link_local_announced :
    ¬ ((udpinOpen 6 1 ⟨[], fun _ => false⟩).Sourced ∧
      EveryStep monitorRound Announced (udpinOpen 6 1 ⟨[], fun _ => false⟩)
        [(.added ⟨1, .inet6, ⟨[0xfe, 0x80] ++ List.replicate 14 1, rfl⟩, by decide⟩ false 0,
          0)]) := by
  rintro ⟨hopen, h, -⟩
  exact absurd ((announced_iff hopen _).mp h ⟨rfl, rfl⟩ rfl) (by decide)

end Dnt
