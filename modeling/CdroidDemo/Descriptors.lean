import Mathlib.Data.List.Perm.Basic
import Mathlib.Data.List.Nodup

/-!
# Open descriptors and their owners

The kernel hands out descriptors that are not open and takes them back. A
close of a descriptor that is not open is kept as a stray one, since another
part of the program may own the number by then. An account of the owners is
exact when it lists every open descriptor once and no close was stray.
-/

namespace CdroidDemo.Descriptors

variable {δ : Type*}

/-- What the kernel knows about the descriptors of a program. -/
structure Table (δ : Type*) where
  /-- Handed out and not yet closed. -/
  opened : List δ
  /-- Closed without being open. -/
  strays : List δ

namespace Table

/-- Nothing is open. -/
def empty : Table δ := ⟨[], []⟩

/-- Hand out a descriptor. -/
def alloc (t : Table δ) (d : δ) : Table δ := {t with opened := d :: t.opened}

/-- Take a descriptor back. -/
def close [DecidableEq δ] (t : Table δ) (d : δ) : Table δ :=
  if d ∈ t.opened then {t with opened := t.opened.erase d} else {t with strays := d :: t.strays}

/-- The owners hold every open descriptor once, and nothing else was closed. -/
structure Owned (t : Table δ) (owners : List δ) : Prop where
  /-- The open descriptors are those of the owners. -/
  perm : t.opened.Perm owners
  /-- No two owners share a descriptor. -/
  nodup : owners.Nodup
  /-- No descriptor was closed that was not open. -/
  strays : t.strays = []

variable {t : Table δ} {d : δ} {owners : List δ}

/-- Nobody owns anything at the beginning. -/
theorem empty_owned : Owned (empty : Table δ) [] := ⟨List.Perm.refl _, List.nodup_nil, rfl⟩

/-- What is open has an owner. -/
theorem Owned.mem_iff (h : Owned t owners) : d ∈ t.opened ↔ d ∈ owners := h.perm.mem_iff

/-- Descriptors may change owners. -/
theorem Owned.move (h : Owned t owners) {owners' : List δ} (hp : owners.Perm owners') :
    Owned t owners' :=
  ⟨h.perm.trans hp, hp.nodup_iff.mp h.nodup, h.strays⟩

/-- A new descriptor gets an owner. -/
theorem Owned.alloc (h : Owned t owners) (hd : d ∉ t.opened) : Owned (t.alloc d) (d :: owners) :=
  ⟨h.perm.cons d, List.nodup_cons.mpr ⟨fun hm => hd (h.mem_iff.mpr hm), h.nodup⟩, h.strays⟩

/-- An owner gives its descriptor back. -/
theorem Owned.close [DecidableEq δ] (h : Owned t (d :: owners)) : Owned (t.close d) owners := by
  have hm : d ∈ t.opened := h.mem_iff.mpr List.mem_cons_self
  unfold Table.close
  rw [if_pos hm]
  have hp := h.perm.erase d
  rw [List.erase_cons_head] at hp
  exact ⟨hp, (List.nodup_cons.mp h.nodup).2, h.strays⟩

/-- Closing leaves the other descriptors open. -/
theorem mem_close [DecidableEq δ] {e : δ} (h : e ∈ t.opened) (hne : e ≠ d) :
    e ∈ (t.close d).opened := by
  unfold Table.close
  split
  · exact (List.mem_erase_of_ne hne).mpr h
  · exact h

/-- A descriptor that is closed as soon as it was opened leaves no trace. -/
theorem close_alloc [DecidableEq δ] (t : Table δ) (d : δ) : (t.alloc d).close d = t := by
  have hm : d ∈ (t.alloc d).opened := List.mem_cons_self
  rw [Table.close, if_pos hm]
  simp only [Table.alloc, List.erase_cons_head]

end Table

end CdroidDemo.Descriptors
