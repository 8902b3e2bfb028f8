import Mathlib.Algebra.Order.Ring.Nat
import Mathlib.Tactic.Common

/-!
# Descriptor limits at start-up (`src/server.rs`)

`run` first sets the soft limit on file descriptors and later takes the connection limit from it.
`startUp_fits_iff` says from which initial limits this leaves the process no worse off and with
room for as many clients as the accept loop admits.
-/

namespace Bonka

/-- `libc::rlimit`, for `RLIMIT_NOFILE`. -/
structure Rlimit where
  rlimCur : UInt64
  rlimMax : UInt64
deriving DecidableEq, Repr

/-- `set_file_descriptor_limits`: the limits after it.  The flags say whether `getrlimit` and
`setrlimit` succeed; a failure is only logged. -/
def setFileDescriptorLimits (getrlimit setrlimit : Bool) (limits : Rlimit) : Rlimit :=
  if getrlimit then
    let desiredSoftLimit : UInt64 := 65536
    let rlimit :=
      if limits.rlimMax < desiredSoftLimit then { limits with rlimCur := limits.rlimMax }
      else { limits with rlimCur := desiredSoftLimit }
    if setrlimit then rlimit else limits
  else limits

/-- `parse::<usize>()`: decimal digits, with an optional plus sign before them. -/
def parseUsize (text : String) : Option UInt64 :=
  let digits := match text.toList with
    | '+' :: rest => rest
    | chars => chars
  if digits ≠ [] ∧ digits.all Char.isDigit then
    let n := digits.foldl (fun n c => n * 10 + (c.toNat - '0'.toNat)) 0
    if n < 2 ^ 64 then some (.ofNat n) else none
  else none

/-- `get_max_connections`, with the value of `BONKA_CONNECTION_LIMIT`, if it is set. -/
def getMaxConnections (connectionLimit : Option String) (getrlimit : Bool) (limits : Rlimit) :
    UInt64 :=
  (connectionLimit.bind parseUsize).getD
    (if getrlimit then max (limits.rlimCur / 2) 1000 else 1000)

/-- The limits in force and the connection limit after the start of `run`, when no call fails. -/
def startUp (connectionLimit : Option String) (limits : Rlimit) : Rlimit × UInt64 :=
  let limits := setFileDescriptorLimits true true limits
  (limits, getMaxConnections connectionLimit true limits)

/-- The soft limit has not shrunk nor passed the hard limit, and has room for the clients the
connection limit admits and the listening socket. -/
def Fits (initial : Rlimit) (result : Rlimit × UInt64) : Prop :=
  initial.rlimCur ≤ result.1.rlimCur ∧ result.1.rlimCur ≤ initial.rlimMax ∧
    1 ≤ result.2 ∧ result.2.toNat + 1 ≤ result.1.rlimCur.toNat

instance (initial : Rlimit) (result : Rlimit × UInt64) : Decidable (Fits initial result) :=
  inferInstanceAs (Decidable (_ ∧ _ ∧ _ ∧ _))

/-- The new soft limit: the desired one, or the hard limit below it. -/
theorem startUp_rlimCur (connectionLimit : Option String) (limits : Rlimit) :
    (startUp connectionLimit limits).1.rlimCur.toNat = min limits.rlimMax.toNat 65536 := by
  simp only [startUp, setFileDescriptorLimits, if_true]
  split
  · rename_i below
    have below := UInt64.lt_iff_toNat_lt.mp below
    exact (Nat.min_eq_left (Nat.le_of_lt below)).symm
  · rename_i above
    have above := Nat.not_lt.mp (mt UInt64.lt_iff_toNat_lt.mpr above)
    exact (Nat.min_eq_right above).symm

theorem toNat_max (a b : UInt64) : (max a b).toNat = max a.toNat b.toNat := by
  change (if a ≤ b then b else a).toNat = _
  split
  · rename_i below
    exact (Nat.max_eq_right (UInt64.le_iff_toNat_le.mp below)).symm
  · rename_i above
    have above := Nat.not_le.mp (mt UInt64.le_iff_toNat_le.mpr above)
    exact (Nat.max_eq_left (Nat.le_of_lt above)).symm

/-- The connection limit: half of the soft limit, and at least 1000. -/
theorem startUp_maxConnections (limits : Rlimit) :
    (startUp none limits).2.toNat = max ((startUp none limits).1.rlimCur.toNat / 2) 1000 := by
  change (max ((startUp none limits).1.rlimCur / 2) 1000).toNat = _
  rw [toNat_max, UInt64.toNat_div]
  rfl

/-- **The limits after start-up fit exactly when the initial soft limit is at most 65536 and the
hard limit at least 1001.** -/
theorem startUp_fits_iff (initial : Rlimit) (ordered : initial.rlimCur ≤ initial.rlimMax) :
    Fits initial (startUp none initial) ↔
      initial.rlimCur ≤ 65536 ∧ 1001 ≤ initial.rlimMax := by
  have soft := startUp_rlimCur none initial
  have clients := startUp_maxConnections initial
  simp only [Fits, UInt64.le_iff_toNat_le] at ordered ⊢
  rw [clients, soft]
  have desired : (65536 : UInt64).toNat = 65536 := rfl
  have floor : (1001 : UInt64).toNat = 1001 := rfl
  have one : (1 : UInt64).toNat = 1 := rfl
  rw [desired, floor, one]
  omega

/-- The limits of a desktop. -/
theorem startUp_fits_desktop : Fits ⟨1024, 1048576⟩ (startUp none ⟨1024, 1048576⟩) :=
  (startUp_fits_iff ⟨1024, 1048576⟩ (by decide)).mpr (by decide)

/-- A soft limit of 1048576 shrinks to 65536, and under a hard limit of 512 the connection limit
is 1000. -/
theorem startUp_misfits :
    ¬ Fits ⟨1048576, 1048576⟩ (startUp none ⟨1048576, 1048576⟩) ∧
      ¬ Fits ⟨256, 512⟩ (startUp none ⟨256, 512⟩) := by
  decide

end Bonka
