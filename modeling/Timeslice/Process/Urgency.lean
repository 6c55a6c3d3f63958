/-! # Urgency

What ready processes of one class are chosen by: the lower level goes first, then the earlier
arrival, then the lower id. The order is linear, so a least urgency always exists.
-/

namespace Timeslice

structure Urgency where
  level : Nat
  arrivalTime : Nat
  id : Nat
  deriving DecidableEq

namespace Urgency

instance : LE Urgency where
  le a b := a.level < b.level ∨ a.level = b.level ∧
    (a.arrivalTime < b.arrivalTime ∨ a.arrivalTime = b.arrivalTime ∧ a.id ≤ b.id)

theorem le_def {a b : Urgency} :
    a ≤ b ↔ a.level < b.level ∨ a.level = b.level ∧
      (a.arrivalTime < b.arrivalTime ∨ a.arrivalTime = b.arrivalTime ∧ a.id ≤ b.id) :=
  Iff.rfl

instance : DecidableLE Urgency := fun _ _ => decidable_of_iff _ le_def.symm

theorem le_trans {a b c : Urgency} (hab : a ≤ b) (hbc : b ≤ c) : a ≤ c := by
  rw [le_def] at *
  omega

theorem le_total (a b : Urgency) : a ≤ b ∨ b ≤ a := by
  rw [le_def, le_def]
  omega

theorem le_antisymm {a b : Urgency} (hab : a ≤ b) (hba : b ≤ a) : a = b := by
  rw [le_def] at hab hba
  cases a
  cases b
  simp only [Urgency.mk.injEq]
  simp only at hab hba
  omega

instance : Std.IsLinearPreorder Urgency where
  le_refl a := (le_total a a).elim (fun h => h) (fun h => h)
  le_trans _ _ _ := le_trans
  le_total := le_total

end Urgency

end Timeslice
