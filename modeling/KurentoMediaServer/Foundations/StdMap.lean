import Mathlib.Data.Finmap

/-! `std::map` as Mathlib's finite maps, with look-up after an assignment or an
erasure written as a conditional. -/

namespace KurentoMediaServer.Foundations

/-- `std::map <κ, ν>`. -/
abbrev StdMap (κ ν : Type*) := Finmap fun _ : κ => ν

namespace StdMap

variable {κ ν : Type*} [DecidableEq κ]

theorem lookup_insert (m : StdMap κ ν) (k x : κ) (v : ν) :
    (m.insert k v).lookup x = if x = k then some v else m.lookup x := by
  split_ifs with h
  · subst h; exact Finmap.lookup_insert m
  · exact Finmap.lookup_insert_of_ne m h

theorem lookup_erase (m : StdMap κ ν) (k x : κ) :
    (m.erase k).lookup x = if x = k then none else m.lookup x := by
  split_ifs with h
  · subst h; exact Finmap.lookup_erase x m
  · exact Finmap.lookup_erase_ne h

/-- Assigning the value a key already has changes nothing. -/
theorem insert_of_present {m : StdMap κ ν} {k : κ} {v : ν} (h : m.lookup k = some v) :
    m.insert k v = m :=
  Finmap.ext_lookup fun x => by
    rw [lookup_insert]
    split_ifs with hx
    · rw [hx, h]
    · rfl

/-- `empty ()`. -/
def isEmpty (m : StdMap κ ν) : Bool := m.keys = ∅

theorem isEmpty_iff (m : StdMap κ ν) : m.isEmpty = true ↔ ∀ k, m.lookup k = none := by
  simp only [isEmpty, decide_eq_true_eq, Finset.eq_empty_iff_forall_notMem, Finmap.mem_keys,
    Finmap.lookup_eq_none]

end StdMap

end KurentoMediaServer.Foundations
