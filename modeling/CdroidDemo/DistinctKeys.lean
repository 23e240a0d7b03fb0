import CdroidDemo.OrderedMap
import Mathlib.Data.List.Perm.Subperm

/-!
# Entries with distinct keys

Two entry lists of one length hold the same keys as soon as one of them holds
the keys of the other, so a comparison that looks up the entries of one list
in the other compares the maps.
-/

namespace CdroidDemo.DistinctKeys

open OrderedMap

variable {κ α β : Type*}

/-- No key occurs twice. -/
def Distinct (l : List (κ × α)) : Prop := (l.map Prod.fst).Nodup

variable {l : List (κ × α)} {m : List (κ × β)}

/-- Distinct keys are no more than the keys they are among. -/
theorem length_le (hl : Distinct l) (hs : l.map Prod.fst ⊆ m.map Prod.fst) :
    l.length ≤ m.length := by
  have hp := (hl.subperm hs).length_le
  rwa [List.length_map, List.length_map] at hp

variable [LinearOrder κ]

/-- What the entries under one key give is what the value found there gives. -/
theorem filterMap_key (hl : Distinct l) (k : κ) (g : α → Option β) :
    (l.filterMap fun e => if e.1 = k then g e.2 else none) = ((findEntry k l).bind g).toList := by
  induction l with
  | nil => rfl
  | cons e l ih =>
    obtain ⟨he, hl⟩ := List.nodup_cons.mp hl
    rw [List.filterMap_cons, findEntry]
    by_cases hk : e.1 = k
    · have hrest : findEntry k l = none := by
        refine findEntry_none fun u hu huk => ?_
        exact he (hk.trans huk.symm ▸ List.mem_map_of_mem hu)
      rw [if_pos hk, if_pos hk.symm, ih hl, hrest, Option.bind_some]
      cases g e.2 <;> rfl
    · rw [if_neg hk, if_neg (Ne.symm hk)]
      exact ih hl

end CdroidDemo.DistinctKeys
