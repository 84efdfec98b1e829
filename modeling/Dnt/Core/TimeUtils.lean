import Mathlib.Algebra.Order.Ring.Int

/-!
# Times

Points in time and durations, after `time_utils.h`.

## Main definitions

* `Timespec`: Seconds and nanoseconds. Nothing keeps the nanoseconds below a second, and
  the comparison of two times does not depend on it.
* `timespecToTsntstamp`: Time stamps in packets have 21 bits: microseconds and the last
  bit of the seconds.
* `timespecFromTsntstamp`: They are read as the latest such time not after the clock.
-/

namespace Dnt

structure Timespec where
  tvSec : Int
  tvNsec : Int
  deriving DecidableEq, Repr

/-- The first time is later. -/
def timespecGt (t u : Timespec) : Prop :=
  if t.tvSec = u.tvSec then t.tvNsec > u.tvNsec else t.tvSec > u.tvSec

instance : DecidableRel timespecGt := fun t u => by
  unfold timespecGt
  infer_instance

def timespecadd (t u : Timespec) : Timespec :=
  if t.tvNsec + u.tvNsec ≥ 1000000000 then
    ⟨t.tvSec + u.tvSec + 1, t.tvNsec + u.tvNsec - 1000000000⟩
  else ⟨t.tvSec + u.tvSec, t.tvNsec + u.tvNsec⟩

def timeDiffUs (t u : Timespec) : Int :=
  (t.tvNsec - u.tvNsec).tdiv 1000 + (t.tvSec - u.tvSec) * 1000000

/-- The time stamp of a time, in host order. The remainder is negative for odd
negative seconds, and the sum is cut to 32 bits. -/
def timespecToTsntstamp (t : Timespec) : Nat :=
  ((0x08000000 + t.tvSec.tmod 2 * 2 ^ 20 + t.tvNsec.tdiv 1000 % 2 ^ 20) % 2 ^ 32).toNat

/-- The time a time stamp in host order stands for, if it is less than two
seconds old. -/
def timespecFromTsntstamp (tsnts : Nat) (now : Timespec) : Timespec :=
  let sec : Int := tsnts / 2 ^ 20 % 2
  let nsec : Int := tsnts % 2 ^ 20 * 1000
  if now.tvSec % 2 = sec then
    if now.tvNsec ≥ nsec then ⟨now.tvSec, nsec⟩ else ⟨now.tvSec - 2, nsec⟩
  else ⟨now.tvSec - 1, nsec⟩

theorem timespecGt_iff (t u : Timespec) :
    timespecGt t u ↔ u.tvSec < t.tvSec ∨ (t.tvSec = u.tvSec ∧ u.tvNsec < t.tvNsec) := by
  grind [timespecGt]

theorem timespecGt_asymm {t u : Timespec} (h : timespecGt t u) : ¬ timespecGt u t := by
  rw [timespecGt_iff] at h ⊢
  omega

theorem not_timespecGt_trans {t u v : Timespec} (htu : ¬ timespecGt t u) (huv : ¬ timespecGt u v) :
    ¬ timespecGt t v := by
  rw [timespecGt_iff] at htu huv ⊢
  omega

end Dnt
