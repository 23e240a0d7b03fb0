import Mathlib.Data.List.Infix

/-!
# Header resynchronisation of a byte stream

A receiver that looks for a fixed header may forget a byte only when no
frame can begin there. A tail is live while it still agrees with the header;
resynchronising drops the dead bytes in front of the first live tail. The
results here say that forgetting dead bytes commutes with the arrival of
further bytes, so a buffer can be scanned early, late or repeatedly.
-/

namespace CdroidDemo.HeaderResync

variable {α : Type*} [DecidableEq α]

/-- A tail that can still begin with the header: it is a part of the header
or already starts with all of it. -/
def Live (hdr l : List α) : Prop := l <+: hdr ∨ hdr <+: l

instance (hdr l : List α) : Decidable (Live hdr l) := inferInstanceAs (Decidable (_ ∨ _))

/-- Drop the bytes in front of the first live tail. -/
def resync (hdr : List α) : List α → List α
  | [] => []
  | x :: xs => if Live hdr (x :: xs) then x :: xs else resync hdr xs

/-- No proper tail of the header starts the header again. -/
def Unbordered (hdr : List α) : Prop :=
  ∀ a b : List α, hdr = a ++ b → a ≠ [] → b ≠ [] → ¬b <+: hdr

omit [DecidableEq α] in

/-- Nothing may still become a header, -/
theorem live_nil (hdr : List α) : Live hdr [] := Or.inl List.nil_prefix

omit [DecidableEq α] in

/-- and the empty header is always there. -/
theorem nil_live (l : List α) : Live [] l := Or.inr List.nil_prefix

omit [DecidableEq α] in
/-- Byte by byte a live tail agrees with the header. -/
theorem live_cons {a x : α} {hdr l : List α} : Live (a :: hdr) (x :: l) ↔ x = a ∧ Live hdr l := by
  simp only [Live, List.cons_prefix_cons]
  constructor
  · rintro (⟨h, hl⟩ | ⟨h, hl⟩)
    · exact ⟨h, Or.inl hl⟩
    · exact ⟨h.symm, Or.inr hl⟩
  · rintro ⟨h, hl | hl⟩
    · exact Or.inl ⟨h, hl⟩
    · exact Or.inr ⟨h.symm, hl⟩

omit [DecidableEq α] in
/-- A tail that becomes live through later bytes was live before them. -/
theorem live_of_append {hdr l m : List α} (h : Live hdr (l ++ m)) : Live hdr l := by
  rcases h with h | h
  · exact Or.inl ((List.prefix_append l m).trans h)
  · exact (List.prefix_or_prefix_of_prefix (List.prefix_append l m) h)

omit [DecidableEq α] in
/-- A live tail without a whole header is shorter than the header. -/
theorem live_length_lt {hdr l : List α} (h : Live hdr l) (hn : ¬hdr <+: l) :
    l.length < hdr.length := by
  rcases h with h | h
  · by_contra hle
    have he : l = hdr := h.eq_of_length_le (by omega)
    exact hn (he ▸ List.prefix_rfl)
  · exact absurd h hn

/-- A live text stays, -/
theorem resync_of_live {hdr l : List α} (h : Live hdr l) : resync hdr l = l := by
  cases l with
  | nil => rfl
  | cons x xs => rw [resync, if_pos h]

/-- a dead one loses its first byte, -/
theorem resync_of_dead {hdr l : List α} {x : α} (h : ¬Live hdr (x :: l)) :
    resync hdr (x :: l) = resync hdr l := by rw [resync, if_neg h]

/-- and one with a header stays. -/
theorem resync_of_header {hdr l : List α} (h : hdr <+: l) : resync hdr l = l :=
  resync_of_live (Or.inr h)

/-- What is kept is a tail of what was there. -/
theorem resync_suffix (hdr l : List α) : resync hdr l <:+ l := by
  induction l with
  | nil => exact List.suffix_rfl
  | cons x xs ih =>
    rw [resync]
    split
    · exact List.suffix_rfl
    · exact ih.trans (List.suffix_cons x xs)

/-- What is kept can still begin with the header. -/
theorem live_resync (hdr l : List α) : Live hdr (resync hdr l) := by
  induction l with
  | nil => exact Or.inl List.nil_prefix
  | cons x xs ih =>
    rw [resync]
    split
    · assumption
    · exact ih

/-- Nothing is added. -/
theorem resync_length_le (hdr l : List α) : (resync hdr l).length ≤ l.length :=
  (resync_suffix hdr l).length_le

/-- Dead bytes stay dead: dropping them before further bytes arrive changes
nothing that a later resynchronisation keeps. -/
theorem resync_append_resync (hdr l m : List α) :
    resync hdr (resync hdr l ++ m) = resync hdr (l ++ m) := by
  induction l with
  | nil => rfl
  | cons x xs ih =>
    rw [resync]
    split
    · rfl
    · rename_i hd
      rw [ih, List.cons_append, resync, if_neg]
      exact fun h => hd (live_of_append (m := m) (by simpa using h))

/-- A header that has been found keeps its place when bytes are appended. -/
theorem resync_append_of_header {hdr l : List α} (h : hdr <+: resync hdr l) (m : List α) :
    resync hdr (l ++ m) = resync hdr l ++ m := by
  rw [← resync_append_resync]
  exact resync_of_header (h.trans (List.prefix_append _ _))

/-- Without a whole header only a short remainder is kept. -/
theorem resync_length_lt {hdr l : List α} (h : ¬hdr <+: resync hdr l) :
    (resync hdr l).length < hdr.length :=
  live_length_lt (live_resync hdr l) h

omit [DecidableEq α] in
/-- A header whose first byte does not come again in it is unbordered. -/
theorem unbordered_cons {x : α} {l : List α} (hx : x ∉ l) : Unbordered (x :: l) := by
  intro a b he ha hb hp
  cases a with
  | nil => exact ha rfl
  | cons y a =>
    obtain ⟨rfl, rfl⟩ := List.cons.inj he
    cases b with
    | nil => exact hb rfl
    | cons z b =>
      obtain ⟨rfl, -⟩ := List.cons_prefix_cons.mp hp
      exact hx (List.mem_append_right a List.mem_cons_self)

/-- Header-free noise in front of a frame is dropped exactly, also where the
last noise bytes look like the beginning of a header. -/
theorem resync_noise {hdr g F : List α} (hu : Unbordered hdr) (hg : ¬hdr <:+: g)
    (hF : hdr <+: F) : resync hdr (g ++ F) = F := by
  induction g with
  | nil => exact resync_of_header hF
  | cons x xs ih =>
    have hxs : ¬hdr <:+: xs := fun h => hg (h.trans (List.suffix_cons x xs).isInfix)
    rw [List.cons_append, resync, if_neg]
    · exact ih hxs
    · have hlong : hdr.length < (x :: (xs ++ F)).length := by
        have hl := hF.length_le
        simp only [List.length_cons, List.length_append]
        omega
      intro hlive
      have hp : hdr <+: (x :: xs) ++ F := by
        rcases hlive with h | h
        · exact absurd h.length_le (by omega)
        · exact h
      rcases List.prefix_or_prefix_of_prefix hp (List.prefix_append (x :: xs) F) with h | h
      · exact hg h.isInfix
      · obtain ⟨t, ht⟩ := h
        have htF : t <+: F := by
          rw [← ht] at hp
          exact (List.prefix_append_right_inj _).mp hp
        by_cases hte : t = []
        · rw [hte, List.append_nil] at ht
          exact hg (ht ▸ List.infix_rfl)
        · have hth : t <+: hdr := by
            rcases List.prefix_or_prefix_of_prefix htF hF with h | h
            · exact h
            · have hlen : hdr.length = (x :: xs).length + t.length := by
                rw [← ht, List.length_append]
              have := h.length_le
              simp only [List.length_cons] at hlen
              omega
          exact hu (x :: xs) t ht.symm (List.cons_ne_nil _ _) hte hth

end CdroidDemo.HeaderResync
