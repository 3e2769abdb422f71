import Machine6809.Bus.Basic
import Mathlib.Data.Nat.Notation
import Mathlib.Tactic.SplitIfs

/-!
# Finding a place

An access goes to the first place that covers its address. Where the places are and how large their
devices are decides which one that is (`find?_congr`); the bytes of the devices do not come into it.
So it goes on to be found when one of its bytes changes (`find?_set`), and also when another device
is attached behind it (`find?_push`).
-/

namespace Machine6809

namespace Bus

variable {bus bus' : Bus} {i : Fin bus.places.size} {place : Place} {a b : Word}

/-- The place that is found covers the address. -/
theorem covers_of_find? (ha : bus.find? a = some i) : (bus.placeAt i).covers a = true :=
  (Array.findFinIdx?_eq_some_iff.mp ha).1

/-- An address that is not found is covered by no place. -/
theorem find?_eq_none_iff :
    bus.find? a = none ↔ ∀ j : Fin bus.places.size, ¬(bus.placeAt j).covers a = true := by
  unfold find?
  rw [Array.findFinIdx?_eq_none_iff]
  refine ⟨fun h j => h _ (Array.getElem_mem j.isLt), fun h p hp => ?_⟩
  obtain ⟨j, hj, rfl⟩ := Array.getElem_of_mem hp
  exact h ⟨j, hj⟩

/-- Which place is found depends on what each of them covers. -/
theorem find?_congr (hsize : bus'.places.size = bus.places.size)
    (hcovers : ∀ j (hj : j < bus.places.size) (hj' : j < bus'.places.size),
      bus'.places[j].covers a = bus.places[j].covers a) :
    bus'.find? a = (bus.find? a).map (Fin.cast hsize.symm) := by
  -- nothing was found, and then nothing is; or the first to cover the address is the first still
  cases ha : bus.find? a with
  | none =>
    refine find?_eq_none_iff.mpr fun j => ?_
    have hj : j.val < bus.places.size := hsize ▸ j.isLt
    rw [placeAt, Fin.getElem_fin, hcovers j hj j.isLt]
    exact find?_eq_none_iff.mp ha ⟨j, hj⟩
  | some i =>
    obtain ⟨hcov, hfirst⟩ := Array.findFinIdx?_eq_some_iff.mp ha
    refine Array.findFinIdx?_eq_some_iff.mpr ⟨?_, fun j hji => ?_⟩
    · exact (hcovers i i.isLt (hsize.symm ▸ i.isLt)).trans hcov
    · have hj : j.val < bus.places.size := hsize ▸ j.isLt
      rw [Fin.getElem_fin, hcovers j hj j.isLt]
      exact hfirst ⟨j, hj⟩ hji

/-- A place that goes on to cover the same addresses is found as before. -/
theorem find?_set (hcovers : place.covers b = (bus.placeAt i).covers b)
    (hplaces : bus'.places = bus.places.set i place i.isLt) (hi : i.val < bus'.places.size)
    (hb : bus.find? b = some i) : bus'.find? b = some ⟨i, hi⟩ := by
  have hsize : bus'.places.size = bus.places.size := by rw [hplaces, Array.size_set]
  rw [find?_congr hsize, hb]
  · rfl
  · -- the place that was put there covers what the one before it did
    intro j hj hj'
    simp only [hplaces, Array.getElem_set]
    split_ifs with hij
    · subst hij
      exact hcovers
    · rfl

/-- A change at a place that exists sets it. -/
theorem modify_eq_set {f : Place → Place} :
    bus.places.modify i f = bus.places.set i (f (bus.placeAt i)) i.isLt := by
  refine Array.ext (by rw [Array.size_modify, Array.size_set]) fun j hj hj' => ?_
  rw [Array.getElem_modify, Array.getElem_set]
  split_ifs with hij
  · subst hij
    rfl
  · rfl

/-- What is found stays where it is when another device is attached. -/
theorem find?_push (hplaces : bus'.places = bus.places.push place)
    (hi : i.val < bus'.places.size) (ha : bus.find? a = some i) :
    bus'.find? a = some ⟨i, hi⟩ ∧ bus'.placeAt ⟨i, hi⟩ = bus.placeAt i := by
  have hget : ∀ j (hj : j < bus.places.size) (hj' : j < bus'.places.size),
      bus'.places[j] = bus.places[j] := by
    intro j hj hj'
    simp only [hplaces, Array.getElem_push_lt hj]
  obtain ⟨hcov, hfirst⟩ := Array.findFinIdx?_eq_some_iff.mp ha
  refine ⟨Array.findFinIdx?_eq_some_iff.mpr ⟨?_, fun j hji => ?_⟩, hget i i.isLt hi⟩
  · rw [Fin.getElem_fin, hget i i.isLt hi]
    exact hcov
  · -- a place before the one that is found is not the new one
    have hj : j.val < bus.places.size := Nat.lt_trans hji i.isLt
    rw [Fin.getElem_fin, hget j hj j.isLt]
    exact hfirst ⟨j, hj⟩ hji

/-- With one place more, an address is not found if it was not before and the new place does not
cover it. -/
theorem find?_push_eq_none_iff (hplaces : bus'.places = bus.places.push place) :
    bus'.find? a = none ↔ bus.find? a = none ∧ place.covers a = false := by
  unfold find?
  rw [Array.findFinIdx?_eq_none_iff, Array.findFinIdx?_eq_none_iff, hplaces]
  simp only [Array.mem_push, or_imp, forall_and, forall_eq, Bool.not_eq_true]

/-- An address that only the new device covers is found there. -/
theorem find?_push_of_none (hplaces : bus'.places = bus.places.push place)
    (hi : bus.places.size < bus'.places.size) (ha : bus.find? a = none)
    (hcovers : place.covers a = true) :
    bus'.find? a = some ⟨bus.places.size, hi⟩ ∧
      bus'.placeAt ⟨bus.places.size, hi⟩ = place := by
  have hlast : bus'.places[bus.places.size] = place := by
    simp only [hplaces, Array.getElem_push_eq]
  refine ⟨Array.findFinIdx?_eq_some_iff.mpr ⟨?_, fun j hji => ?_⟩, hlast⟩
  · rw [Fin.getElem_fin, hlast]
    exact hcovers
  · -- the places in front of the new one did not cover the address
    have hj : j.val < bus.places.size := hji
    have hget : bus'.places[j.val] = bus.places[j.val] := by
      simp only [hplaces, Array.getElem_push_lt hj]
    rw [Fin.getElem_fin, hget]
    exact find?_eq_none_iff.mp ha ⟨j, hj⟩

end Bus

end Machine6809
