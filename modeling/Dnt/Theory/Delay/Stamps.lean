import Dnt.Core.Delay
import Dnt.Core.Metadata

/-!
# Time Stamps and Deadlines

A time stamp has the last bit of the seconds, and microseconds in twenty bits. With
the clock at hand the rest can be filled in, as long as the stamp is less than two
seconds old.

But twenty bits can say more than a million microseconds. Then adding the delay
carries one second only, so the deadline need not be a proper time, and a stamp of
the second before can be read as later than the clock.

## Main definitions

* `Timespec.Normalized`, `Timespec.nanoseconds`: Proper times, and times as numbers.
* `DeadlineInReach`: What is expected of the deadline of a packet.

## Theorems

* `tsntstamp_roundTrip`: A stamp is read as the time it was made of, cut to
  microseconds, if this is done within two seconds.
* `timespecFromTsntstamp_spec`: What any stamp is read as.
* `deadline_iff`: The deadline of a packet is as expected exactly if the microseconds of
  its stamp and the delay are less than two seconds, and the stamp is not ahead of the
  clock.
-/

namespace Dnt

/-- The nanoseconds do not make up a second. -/
structure Timespec.Normalized (t : Timespec) : Prop where
  nonneg : 0 ≤ t.tvNsec
  lt : t.tvNsec < 1000000000

instance (t : Timespec) : Decidable t.Normalized :=
  decidable_of_iff (0 ≤ t.tvNsec ∧ t.tvNsec < 1000000000) ⟨fun h => ⟨h.1, h.2⟩, fun h => ⟨h.1, h.2⟩⟩

def Timespec.nanoseconds (t : Timespec) : Int :=
  t.tvSec * 1000000000 + t.tvNsec

/-- A time without what is less than a microsecond. -/
def Timespec.truncUs (t : Timespec) : Timespec :=
  ⟨t.tvSec, t.tvNsec / 1000 * 1000⟩

theorem timespecToTsntstamp_parts {t : Timespec} (ht : t.Normalized) :
    ((timespecToTsntstamp t : Nat) : Int) / 2 ^ 20 % 2 = t.tvSec % 2 ∧
      ((timespecToTsntstamp t : Nat) : Int) % 2 ^ 20 = t.tvNsec / 1000 := by
  have hnonneg := ht.nonneg
  have hlt := ht.lt
  have hus : t.tvNsec.tdiv 1000 = t.tvNsec / 1000 := Int.tdiv_eq_ediv_of_nonneg hnonneg
  -- the remainder has the sign of the seconds, but its last bit is right
  have hsec := Int.mul_tdiv_add_tmod t.tvSec 2
  have hlow := Int.lt_tmod_of_pos t.tvSec (by decide : (0 : Int) < 2)
  have hhigh := Int.tmod_lt_of_pos t.tvSec (by decide : (0 : Int) < 2)
  unfold timespecToTsntstamp
  rw [hus]
  generalize t.tvSec.tmod 2 = r at hsec hlow hhigh
  generalize t.tvSec.tdiv 2 = q at hsec
  omega

/-- The three seconds in which a stamp can be read, and what is filled in. -/
theorem timespecFromTsntstamp_made {t now : Timespec} (ht : t.Normalized) (hnow : now.Normalized)
    (hle : t.nanoseconds ≤ now.nanoseconds)
    (hlt : now.nanoseconds < t.truncUs.nanoseconds + 2 * 1000000000) :
    timespecFromTsntstamp (timespecToTsntstamp t) now = t.truncUs := by
  obtain ⟨hsec, hus⟩ := timespecToTsntstamp_parts ht
  have := ht.nonneg
  have := ht.lt
  have := hnow.nonneg
  have := hnow.lt
  simp only [Timespec.nanoseconds, Timespec.truncUs] at hle hlt
  unfold timespecFromTsntstamp Timespec.truncUs
  rw [hsec, hus]
  -- the clock shows the same second, or the next one, or the one after that
  rcases (by omega : now.tvSec = t.tvSec ∨ now.tvSec = t.tvSec + 1 ∨ now.tvSec = t.tvSec + 2) with
    hsame | hnext | hafter
  · rw [if_pos (by omega), if_pos (by omega), hsame]
  · rw [if_neg (by omega), hnext, Int.add_sub_cancel]
  · rw [if_pos (by omega), if_neg (by omega), hafter, Int.add_sub_cancel]

/-- A stamp is read as the time it was made of, cut to microseconds, for two seconds. -/
theorem tsntstamp_roundTrip (t now : Timespec) (ht : t.Normalized) (hnow : now.Normalized)
    (hle : t.nanoseconds ≤ now.nanoseconds)
    (hlt : now.nanoseconds < t.truncUs.nanoseconds + 2 * 1000000000) :
    timespecFromTsntstamp (timespecToTsntstamp t) now = t.truncUs :=
  timespecFromTsntstamp_made ht hnow hle hlt

/-- A stamp of a hundred seconds and some is read one second later. -/
theorem tsntstamp_roundTrip_nextSecond :
    (⟨100, 999999999⟩ : Timespec).Normalized ∧ (⟨101, 500⟩ : Timespec).Normalized ∧
      timespecFromTsntstamp (timespecToTsntstamp ⟨100, 999999999⟩) ⟨101, 500⟩ =
        ⟨100, 999999000⟩ :=
  ⟨by decide, by decide,
    tsntstamp_roundTrip ⟨100, 999999999⟩ ⟨101, 500⟩ (by decide) (by decide) (by decide)
      (by decide)⟩

/-! ## Stamps from packets -/

/-- What is expected of the deadline of a packet that comes at `now` with a stamp that may be
two seconds old: it is a proper time, and it is `delay` behind the stamp. -/
structure DeadlineInReach (now delay deadline : Timespec) : Prop where
  normalized : deadline.Normalized
  later : now.nanoseconds - 2 * 1000000000 + delay.nanoseconds < deadline.nanoseconds
  reached : deadline.nanoseconds ≤ now.nanoseconds + delay.nanoseconds

theorem nanoseconds_timespecadd (t u : Timespec) :
    (timespecadd t u).nanoseconds = t.nanoseconds + u.nanoseconds := by
  unfold timespecadd Timespec.nanoseconds
  split_ifs
  all_goals
    simp only []
    omega

theorem normalized_timespecadd_iff {t u : Timespec} (ht : 0 ≤ t.tvNsec) (hu : u.Normalized) :
    (timespecadd t u).Normalized ↔ t.tvNsec + u.tvNsec < 2 * 1000000000 := by
  have hnonneg := hu.nonneg
  unfold timespecadd
  split_ifs with hcarry
  · constructor
    · rintro ⟨-, hlt⟩
      simp only at hlt
      omega
    · intro hlt
      constructor
      all_goals
        simp only []
        omega
  · refine iff_of_true ⟨?_, ?_⟩ (by omega)
    all_goals
      simp only []
      omega

/-- What a stamp is read as: it has the nanoseconds it says, is less than two seconds old,
and is in the future if it says the other second and its nanoseconds are more than one
second ahead of the clock. -/
theorem timespecFromTsntstamp_spec (tsnts : Nat) {now : Timespec} (hnow : now.Normalized) :
    (timespecFromTsntstamp tsnts now).tvNsec = (tsnts : Int) % 2 ^ 20 * 1000 ∧
      now.nanoseconds - 2 * 1000000000 < (timespecFromTsntstamp tsnts now).nanoseconds ∧
      ((timespecFromTsntstamp tsnts now).nanoseconds ≤ now.nanoseconds ↔
        now.tvSec % 2 = (tsnts : Int) / 2 ^ 20 % 2 ∨
          (tsnts : Int) % 2 ^ 20 * 1000 ≤ now.tvNsec + 1000000000) := by
  have := hnow.nonneg
  have := hnow.lt
  unfold timespecFromTsntstamp Timespec.nanoseconds
  dsimp only
  split_ifs with hsec hns
  · refine ⟨rfl, ?_, iff_of_true ?_ (Or.inl hsec)⟩
    all_goals
      simp only []
      omega
  · refine ⟨rfl, ?_, iff_of_true ?_ (Or.inl hsec)⟩
    all_goals
      simp only []
      omega
  · refine ⟨rfl, ?_, ?_⟩
    · simp only []
      omega
    · rw [or_iff_right hsec]
      simp only []
      omega

theorem deadlineInReach_iff (tsnts : Nat) {delay now : Timespec} (hdelay : delay.Normalized)
    (hnow : now.Normalized) :
    DeadlineInReach now delay (timespecadd (timespecFromTsntstamp tsnts now) delay) ↔
      (tsnts : Int) % 2 ^ 20 * 1000 + delay.tvNsec < 2 * 1000000000 ∧
        (now.tvSec % 2 = (tsnts : Int) / 2 ^ 20 % 2 ∨
          (tsnts : Int) % 2 ^ 20 * 1000 ≤ now.tvNsec + 1000000000) := by
  obtain ⟨hnsec, hlater, hreached⟩ := timespecFromTsntstamp_spec tsnts hnow
  have hnormal := normalized_timespecadd_iff (by rw [hnsec]; omega) hdelay
  have hsum := nanoseconds_timespecadd (timespecFromTsntstamp tsnts now) delay
  rw [hnsec] at hnormal
  constructor
  · rintro ⟨hn, -, hr⟩
    exact ⟨hnormal.mp hn, hreached.mp (by omega)⟩
  · rintro ⟨hn, hr⟩
    have hpast := hreached.mpr hr
    exact ⟨hnormal.mpr hn, by omega, by omega⟩

/-- The deadline of a packet with a stamp in one of its fields is as expected if and only if
the microseconds of the stamp and the delay together are less than two seconds, and the
stamp says the second of the clock or is not ahead of it. -/
theorem deadline_iff {ι : Type*} (field : HeaderField) (p : Packet) (old : NetworkWord)
    (addr : Nat) (pi : ι) (pipe : String) (delay now : Timespec) (hdelay : delay.Normalized)
    (hnow : now.Normalized) :
    let tsnts := ntohl (actionReadtstampExecute field p old)
    DeadlineInReach now delay (newDelayElem addr ⟨pi, pipe, tsnts, delay⟩ now).deadline ↔
      (tsnts : Int) % 2 ^ 20 * 1000 + delay.tvNsec < 2 * 1000000000 ∧
        (now.tvSec % 2 = (tsnts : Int) / 2 ^ 20 % 2 ∨
          (tsnts : Int) % 2 ^ 20 * 1000 ≤ now.tvNsec + 1000000000) :=
  deadlineInReach_iff (ntohl (actionReadtstampExecute field p old)) hdelay hnow

def stampedPacket (a b c d : UInt8) : Packet :=
  ⟨fun i => [a, b, c, d].getD (i - 1024) 0, 1024, 4, 0, [⟨.ttag, 1024, 4⟩]⟩

def stampField : HeaderField := ⟨0, 0, 32⟩

/-- A packet that is half a second old is delayed by a second. -/
theorem deadline_iff_halfSecond :
    (⟨1, 0⟩ : Timespec).Normalized ∧ (⟨101, 700000000⟩ : Timespec).Normalized ∧
      DeadlineInReach ⟨101, 700000000⟩ ⟨1, 0⟩
        (newDelayElem 0 ⟨(), "a",
          ntohl (actionReadtstampExecute stampField (stampedPacket 0x08 0x13 0x0d 0x40) (htonl 0)),
          ⟨1, 0⟩⟩ ⟨101, 700000000⟩).deadline :=
  ⟨by decide, by decide,
    (deadline_iff stampField (stampedPacket 0x08 0x13 0x0d 0x40) (htonl 0) 0 () "a" ⟨1, 0⟩
      ⟨101, 700000000⟩ (by decide) (by decide)).mpr (by decide)⟩

/-- A stamp with all twenty bits of the microseconds set, and a delay of 1.999 seconds. The
deadline is 102 seconds and 1047575000 nanoseconds. -/
theorem deadline_allBits :
    ¬ DeadlineInReach ⟨101, 0⟩ ⟨1, 999000000⟩
      (newDelayElem 0 ⟨(), "a",
        ntohl (actionReadtstampExecute stampField (stampedPacket 0x08 0x0f 0xff 0xff) (htonl 0)),
        ⟨1, 999000000⟩⟩ ⟨101, 0⟩).deadline := by
  intro h
  exact absurd h.normalized (by decide)

end Dnt
