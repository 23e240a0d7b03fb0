import Mathlib.Data.List.Basic
import CdroidDemo.HeaderResync

/-!
# A bounded receiver of framed streams

Chunks of a stream fill a bounded buffer that is resynchronised to a fixed
header. A complete packet is taken out together with everything else the
buffer holds at that moment. The receiver is a relation: it may keep or drop
any bytes in which no header can begin, so an implementation is free to scan
when it likes. Results hold for every run over every cutting of the stream.
-/

namespace CdroidDemo.FramedReceiver

open HeaderResync

variable {α : Type*} [DecidableEq α]

/-- A framing discipline: header, buffer capacity and packet recognition. -/
structure Framing (α : Type*) where
  /-- The fixed bytes every packet begins with. -/
  hdr : List α
  /-- The capacity of the reassembly buffer. -/
  cap : ℕ
  /-- Length of the packet a buffer content completes, if it does. -/
  frameLen : List α → Option ℕ
  /-- The buffer holds more than a header. -/
  hdr_lt_cap : hdr.length < cap
  /-- Headers are not empty. -/
  hdr_pos : 0 < hdr.length
  /-- Only an aligned buffer completes a packet. -/
  frameLen_hdr : ∀ {c n}, frameLen c = some n → hdr <+: c
  /-- A completed packet lies inside the content. -/
  frameLen_le : ∀ {c n}, frameLen c = some n → n ≤ c.length
  /-- Packets are not empty. -/
  frameLen_pos : ∀ {c n}, frameLen c = some n → 0 < n
  /-- Bytes behind a completed packet do not change it. -/
  frameLen_append : ∀ {c n} (m : List α), frameLen c = some n → frameLen (c ++ m) = some n

/-- A completed packet: the buffer content at that moment and its length. -/
structure Packet (α : Type*) where
  /-- Everything the buffer held, trailing bytes included. -/
  content : List α
  /-- Length of the packet at the front of the content. -/
  size : ℕ

/-- The bytes of the packet proper. -/
def Packet.frame (p : Packet α) : List α := p.content.take p.size

/-- The content and the unread rest that one fill of the buffer leaves of
the available bytes. Once a header is found its tail fills the buffer; while
searching everything is read and a short remainder is kept. -/
inductive Synced (F : Framing α) (s : List α) : List α → List α → Prop
  /-- A header was found, and its tail fills the buffer. -/
  | found (h : F.hdr <+: resync F.hdr s) :
      Synced F s ((resync F.hdr s).take F.cap) ((resync F.hdr s).drop F.cap)
  /-- No header was found, and a short remainder is kept. -/
  | searching {c : List α} (h : ¬F.hdr <+: resync F.hdr s) (hs : c <:+ s)
      (hr : resync F.hdr c = resync F.hdr s) (hl : c.length ≤ F.hdr.length) :
      Synced F s c []

/-- Runs over a list of chunks. A packet empties the buffer and reading goes
on with the unread rest of the chunk; an incomplete buffer ends the chunk. -/
inductive Run (F : Framing α) : List α → List (List α) → List (Packet α) → List α → Prop
  /-- There is no chunk. -/
  | nil (c : List α) : Run F c [] [] c
  /-- A chunk is used up. -/
  | skip {c c' : List α} {xs : List (List α)} {es : List (Packet α)} (h : Run F c xs es c') :
      Run F c ([] :: xs) es c'
  /-- The buffer is incomplete after the chunk. -/
  | stop {c x c₁ rest c' : List α} {xs : List (List α)} {es : List (Packet α)} (hx : x ≠ [])
      (hs : Synced F (c ++ x) c₁ rest) (hn : F.frameLen c₁ = none) (h : Run F c₁ xs es c') :
      Run F c (x :: xs) es c'
  /-- A packet is completed, and the rest of the chunk is read. -/
  | frame {c x p rest c' : List α} {n : ℕ} {xs : List (List α)} {es : List (Packet α)}
      (hx : x ≠ []) (hs : Synced F (c ++ x) p rest) (hn : F.frameLen p = some n)
      (h : Run F [] (rest :: xs) es c') : Run F c (x :: xs) (⟨p, n⟩ :: es) c'

/-- The parts occur in the stream as disjoint blocks in the given order. -/
inductive Blocks : List (List α) → List α → Prop
  /-- No part occurs anywhere. -/
  | nil (s : List α) : Blocks [] s
  /-- One part occurs behind a gap, before the others. -/
  | cons (g f : List α) {fs : List (List α)} {t : List α} (h : Blocks fs t) :
      Blocks (f :: fs) (g ++ f ++ t)

/-- The buffer begins with the header, or is too short to have been scanned. -/
def Aligned (F : Framing α) (c : List α) : Prop :=
  c.length ≤ F.hdr.length ∨ F.hdr <+: c

/-- A full buffer that no further byte can complete. -/
def Stuck (F : Framing α) (c : List α) : Prop :=
  c.length = F.cap ∧ F.hdr <+: c ∧ F.frameLen c = none

/-- A whole packet of the framing that fits the buffer. -/
def Whole (F : Framing α) (f : List α) : Prop :=
  F.frameLen f = some f.length ∧ f.length ≤ F.cap

/-! ## Disjoint blocks -/

omit [DecidableEq α] in

/-- Blocks of the rest are blocks of the whole. -/
theorem Blocks.append_left {fs : List (List α)} {t : List α} (h : Blocks fs t) (g : List α) :
    Blocks fs (g ++ t) := by
  cases h with
  | nil => exact Blocks.nil _
  | cons g' f h =>
    have := Blocks.cons (g ++ g') f h
    simpa only [List.append_assoc] using this

omit [DecidableEq α] in
/-- Leaving blocks out keeps the others disjoint and in order. -/
theorem Blocks.sublist {fs gs : List (List α)} {s : List α} (h : Blocks fs s)
    (hsub : gs.Sublist fs) : Blocks gs s := by
  induction h generalizing gs with
  | nil s => rw [List.sublist_nil.mp hsub]; exact Blocks.nil s
  | cons g f h ih =>
    cases hsub with
    | cons _ hsub => exact (ih hsub).append_left (g ++ f)
    | cons_cons _ hsub => exact Blocks.cons g f (ih hsub)

omit [DecidableEq α] in
/-- Disjoint blocks have no more bytes than the stream. -/
theorem Blocks.length_le {fs : List (List α)} {s : List α} (h : Blocks fs s) :
    fs.flatten.length ≤ s.length := by
  induction h with
  | nil s => exact Nat.zero_le _
  | cons g f _ ih =>
    simp only [List.flatten_cons, List.length_append]
    omega

/-! ## One fill of the buffer -/

/-- A fill loses only bytes in front of what it keeps. -/
theorem Synced.split {F : Framing α} {s c rest : List α} (h : Synced F s c rest) :
    ∃ pre, s = pre ++ c ++ rest := by
  cases h with
  | found hf =>
    obtain ⟨pre, hp⟩ := resync_suffix F.hdr s
    exact ⟨pre, by rw [List.append_assoc, List.take_append_drop, hp]⟩
  | searching _ hs _ _ =>
    obtain ⟨pre, hp⟩ := hs
    exact ⟨pre, by rw [List.append_nil, hp]⟩

/-- What is kept fits into the buffer. -/
theorem Synced.length_le {F : Framing α} {s c rest : List α} (h : Synced F s c rest) :
    c.length ≤ F.cap := by
  cases h with
  | found hf => exact List.length_take_le _ _
  | searching _ _ _ hl => exact hl.trans F.hdr_lt_cap.le

/-- After a fill the buffer is aligned, except for a short remainder. -/
theorem Synced.aligned {F : Framing α} {s c rest : List α} (h : Synced F s c rest) :
    Aligned F c := by
  cases h with
  | found hf => exact Or.inr (List.prefix_take_iff.mpr ⟨hf, F.hdr_lt_cap.le⟩)
  | searching _ _ _ hl => exact Or.inl hl

/-- Bytes stay unread only in front of a full aligned buffer. -/
theorem Synced.full_of_rest {F : Framing α} {s c rest : List α} (h : Synced F s c rest)
    (hr : rest ≠ []) : c.length = F.cap ∧ F.hdr <+: c := by
  cases h with
  | found hf =>
    have hlt : F.cap < (resync F.hdr s).length := by
      by_contra hle
      exact hr (List.drop_eq_nil_of_le (by omega))
    exact ⟨by rw [List.length_take]; omega,
      List.prefix_take_iff.mpr ⟨hf, F.hdr_lt_cap.le⟩⟩
  | searching _ _ _ _ => exact absurd rfl hr

/-- With an aligned start the fill keeps as much as fits. -/
theorem Synced.of_header {F : Framing α} {s c rest : List α} (h : Synced F s c rest)
    (hs : F.hdr <+: s) : c = s.take F.cap ∧ rest = s.drop F.cap := by
  have he := resync_of_header hs
  cases h with
  | found _ => rw [he]; exact ⟨rfl, rfl⟩
  | searching hn _ _ _ => exact absurd (he.symm ▸ hs) hn

/-- An aligned buffer that is full, or has nothing left to read, is a fill. -/
theorem Synced.of_aligned {F : Framing α} {c m : List α} (hcap : c.length ≤ F.cap)
    (ha : Aligned F c) (hend : c.length = F.cap ∨ m = []) :
    Synced F (c ++ m) c m := by
  have hfound : F.hdr <+: c → Synced F (c ++ m) c m := by
    intro hh
    have he : resync F.hdr (c ++ m) = c ++ m :=
      resync_of_header (hh.trans (List.prefix_append c m))
    have hs := Synced.found (F := F) (s := c ++ m) (he.symm ▸ hh.trans (List.prefix_append c m))
    rw [he] at hs
    rcases hend with hfull | rfl
    · rwa [← hfull, List.take_left, List.drop_left] at hs
    · rw [List.append_nil] at hs ⊢
      rwa [List.take_of_length_le hcap, List.drop_eq_nil_of_le hcap] at hs
  rcases ha with ha | ha
  · rcases hend with hfull | rfl
    · have := F.hdr_lt_cap
      omega
    · by_cases hh : F.hdr <+: resync F.hdr c
      · have hle := (resync_suffix F.hdr c).eq_of_length_le (ha.trans hh.length_le)
        exact hfound (hle ▸ hh)
      · rw [List.append_nil]
        exact Synced.searching hh List.suffix_rfl rfl ha
  · exact hfound ha

/-- Scanning the buffer before the rest is read makes no difference. -/
theorem Synced.of_resync {F : Framing α} {w m c rest : List α}
    (h : Synced F (resync F.hdr w ++ m) c rest) : Synced F (w ++ m) c rest := by
  have he := resync_append_resync F.hdr w m
  cases h with
  | found hf =>
    rw [he] at hf ⊢
    exact Synced.found hf
  | searching hn hs hr hl =>
    rw [he] at hn hr
    obtain ⟨pre, hp⟩ := resync_suffix F.hdr w
    refine Synced.searching hn (hs.trans ⟨pre, ?_⟩) hr hl
    rw [← List.append_assoc, hp]

/-- A part of a packet that fits the buffer is kept unchanged. -/
theorem Synced.of_part {F : Framing α} {s c rest f : List α} (h : Synced F s c rest)
    (hf : F.hdr <+: f) (hcap : f.length ≤ F.cap) (hs : s <+: f) : c = s ∧ rest = [] := by
  have hlen : s.length ≤ F.cap := hs.length_le.trans hcap
  rcases List.prefix_or_prefix_of_prefix hf hs with hh | hh
  · obtain ⟨h₁, h₂⟩ := h.of_header hh
    rw [List.take_of_length_le hlen] at h₁
    rw [List.drop_eq_nil_of_le hlen] at h₂
    exact ⟨h₁, h₂⟩
  · have he : resync F.hdr s = s := resync_of_live (Or.inl hh)
    cases h with
    | found _ =>
      rw [he, List.take_of_length_le hlen, List.drop_eq_nil_of_le hlen]
      exact ⟨rfl, rfl⟩
    | searching _ hsuf hr _ =>
      have hle : s.length ≤ c.length := by
        rw [← he, ← hr]
        exact resync_length_le F.hdr c
      exact ⟨hsuf.eq_of_length_le hle, rfl⟩

/-- A packet at the front of the available bytes is completed at once, with
as many trailing bytes as fit the buffer. -/
theorem Synced.of_whole {F : Framing α} {s c rest f : List α} (h : Synced F s c rest)
    (hf : Whole F f) (hs : f <+: s) :
    F.frameLen c = some f.length ∧ c = s.take F.cap ∧ rest = s.drop F.cap := by
  obtain ⟨h₁, h₂⟩ := h.of_header ((F.frameLen_hdr hf.1).trans hs)
  obtain ⟨t, ht⟩ : f <+: c := by
    rw [h₁]
    exact List.prefix_take_iff.mpr ⟨hs, hf.2⟩
  exact ⟨ht ▸ F.frameLen_append t hf.1, h₁, h₂⟩

omit [DecidableEq α] in
/-- An empty buffer completes no packet. -/
theorem frameLen_nil (F : Framing α) : F.frameLen [] = none := by
  cases h : F.frameLen [] with
  | none => rfl
  | some n =>
    have hle := F.frameLen_le h
    have hpos := F.frameLen_pos h
    rw [List.length_nil] at hle
    omega

/-! ## Runs -/

/-- Empty chunks do nothing. -/
theorem Run.of_empty {F : Framing α} {c c' : List α} {xs : List (List α)}
    {es : List (Packet α)} (h : Run F c xs es c') (he : xs.flatten = []) :
    es = [] ∧ c' = c := by
  induction h with
  | nil c => exact ⟨rfl, rfl⟩
  | skip _ ih => exact ih (by simpa using he)
  | stop hx _ _ _ _ => simp only [List.flatten_cons, List.append_eq_nil_iff] at he; exact absurd he.1 hx
  | frame hx _ _ _ _ => simp only [List.flatten_cons, List.append_eq_nil_iff] at he; exact absurd he.1 hx

/-- A stuck buffer accepts nothing and completes nothing, for ever. -/
theorem Run.of_stuck {F : Framing α} {c c' : List α} {xs : List (List α)}
    {es : List (Packet α)} (h : Run F c xs es c') (hst : Stuck F c) : es = [] ∧ c' = c := by
  have hkeep : ∀ {x c₁ rest : List α}, Synced F (c ++ x) c₁ rest → c₁ = c := by
    intro x c₁ rest hs
    have h₁ := (hs.of_header (hst.2.1.trans (List.prefix_append c x))).1
    rw [h₁, ← hst.1, List.take_left]
  induction h with
  | nil c => exact ⟨rfl, rfl⟩
  | skip _ ih => exact ih hst hkeep
  | stop hx hs hn h ih =>
    obtain rfl := hkeep hs
    exact ih hst hkeep
  | frame hx hs hn h ih =>
    rw [hkeep hs, hst.2.2] at hn
    cases hn

/-- Every completed packet is one of the framing. -/
theorem Run.frameLen {F : Framing α} {c c' : List α} {xs : List (List α)}
    {es : List (Packet α)} (h : Run F c xs es c') :
    ∀ p ∈ es, F.frameLen p.content = some p.size := by
  induction h with
  | nil c => simp
  | skip _ ih => exact ih
  | stop _ _ _ _ ih => exact ih
  | frame _ _ hn _ ih =>
    intro p hp
    rcases List.mem_cons.mp hp with rfl | hp
    · exact hn
    · exact ih p hp

/-- Every packet was completed inside the buffer. -/
theorem Run.content_le {F : Framing α} {c c' : List α} {xs : List (List α)}
    {es : List (Packet α)} (h : Run F c xs es c') : ∀ p ∈ es, p.content.length ≤ F.cap := by
  induction h with
  | nil c => simp
  | skip _ ih => exact ih
  | stop _ _ _ _ ih => exact ih
  | frame _ hs _ _ ih =>
    intro p hp
    rcases List.mem_cons.mp hp with rfl | hp
    · exact hs.length_le
    · exact ih p hp

/-- Runs over consecutive lists of chunks compose. -/
theorem Run.append {F : Framing α} {c c₁ c₂ : List α} {xs ys : List (List α)}
    {es gs : List (Packet α)} (h : Run F c xs es c₁) (h' : Run F c₁ ys gs c₂) :
    Run F c (xs ++ ys) (es ++ gs) c₂ := by
  induction h with
  | nil c => exact h'
  | skip _ ih => exact Run.skip (ih h')
  | stop hx hs hn _ ih => exact Run.stop hx hs hn (ih h')
  | frame hx hs hn _ ih => exact Run.frame hx hs hn (ih h')

/-- Completed packets are disjoint blocks of the stream, in stream order. -/
theorem Run.blocks {F : Framing α} {c c' : List α} {xs : List (List α)}
    {es : List (Packet α)} (h : Run F c xs es c') :
    Blocks (es.map Packet.frame) (c ++ xs.flatten) := by
  induction h with
  | nil c => exact Blocks.nil _
  | skip _ ih => simpa using ih
  | @stop c x c₁ rest c' xs es hx hs hn h ih =>
    obtain ⟨pre, hpre⟩ := hs.split
    by_cases hr : rest = []
    · subst hr
      have := ih.append_left pre
      rw [List.flatten_cons, ← List.append_assoc, hpre, List.append_nil, List.append_assoc]
      exact this
    · have hst : Stuck F c₁ := ⟨(hs.full_of_rest hr).1, (hs.full_of_rest hr).2, hn⟩
      rw [(h.of_stuck hst).1]
      exact Blocks.nil _
  | @frame c x p rest c' n xs es hx hs hn h ih =>
    obtain ⟨pre, hpre⟩ := hs.split
    have hb := Blocks.cons pre (p.take n) (ih.append_left (p.drop n))
    have he : c ++ (x :: xs).flatten =
        pre ++ p.take n ++ (p.drop n ++ ([] ++ (rest :: xs).flatten)) := by
      rw [List.flatten_cons, ← List.append_assoc, hpre]
      simp only [List.nil_append, List.flatten_cons, List.append_assoc]
      rw [← List.append_assoc (p.take n), List.take_append_drop]
    rw [he]
    exact hb

/-- What was received of a packet up to some cut fits in the buffer. -/
theorem resync_part {F : Framing α} {c rest f : List α} (hf : Whole F f)
    (hfound : F.hdr <+: resync F.hdr c) (hc : resync F.hdr (c ++ rest) = f) :
    resync F.hdr c ++ rest = f ∧ resync F.hdr c <+: f ∧ (resync F.hdr c).length ≤ F.cap := by
  rw [resync_append_of_header hfound] at hc
  have hp : resync F.hdr c <+: f := ⟨_, hc⟩
  exact ⟨hc, hp, hp.length_le.trans hf.2⟩

/-- A packet behind header-free noise is completed exactly once, exactly as
sent, and leaves an empty buffer, whatever the cutting. -/
theorem Run.resynced {F : Framing α} {c c' f : List α} {xs : List (List α)}
    {es : List (Packet α)} (h : Run F c xs es c') (hf : Whole F f)
    (hc : resync F.hdr (c ++ xs.flatten) = f) (hlt : (resync F.hdr c).length < f.length) :
    es = [⟨f, f.length⟩] ∧ c' = [] := by
  have hh := F.frameLen_hdr hf.1
  induction h with
  | nil c =>
    rw [List.flatten_nil, List.append_nil] at hc
    rw [hc] at hlt
    exact absurd hlt (lt_irrefl _)
  | skip _ ih => exact ih (by simpa using hc) hlt
  | @stop c x c₁ rest c' xs es hx hs hn h ih =>
    rw [List.flatten_cons, ← List.append_assoc] at hc
    cases hs with
    | found hfound =>
      obtain ⟨hc, hp, hcap⟩ := resync_part hf hfound hc
      rw [List.take_of_length_le hcap] at hn h ih
      refine ih ?_ ?_
      · rw [← hc]
        exact resync_of_header (hfound.trans (List.prefix_append _ _))
      · rw [resync_of_header hfound]
        by_contra hle
        rw [hp.eq_of_length_le (by omega), hf.1] at hn
        cases hn
    | searching hnf hsuf hr hl =>
      refine ih ?_ ?_
      · rw [← hc, ← resync_append_resync F.hdr c₁, hr, resync_append_resync]
      · rw [hr]
        exact (resync_length_lt hnf).trans_le hh.length_le
  | @frame c x p rest c' n xs es hx hs hn h ih =>
    rw [List.flatten_cons, ← List.append_assoc] at hc
    cases hs with
    | found hfound =>
      obtain ⟨hc, hp, hcap⟩ := resync_part hf hfound hc
      rw [List.take_of_length_le hcap] at hn ⊢
      rw [List.drop_eq_nil_of_le hcap] at h
      have hle := F.frameLen_le hn
      have hn' := hc ▸ F.frameLen_append xs.flatten hn
      rw [hf.1] at hn'
      obtain rfl := Option.some.inj hn'
      have he := hp.eq_of_length_le hle
      rw [he] at hc ⊢
      have hend : xs.flatten = [] := by simpa using hc
      obtain ⟨rfl, rfl⟩ := h.of_empty (by simpa using hend)
      exact ⟨rfl, rfl⟩
    | searching hnf hsuf hr hl =>
      rw [← hr, resync_of_header (F.frameLen_hdr hn)] at hnf
      exact absurd (F.frameLen_hdr hn) hnf

/-! ## When no later packet can be received -/

/-- A content whose packet never fits: it begins with the header, and no bytes
that may follow complete it inside the buffer. -/
def Doomed (F : Framing α) (c : List α) : Prop :=
  F.hdr <+: c ∧ ∀ m, F.frameLen ((c ++ m).take F.cap) = none

/-- Available bytes that doom the buffer: the first header in them does, or
its packet is completed and what follows the buffer dooms the next one. -/
inductive Dooms (F : Framing α) : List α → Prop
  /-- The first header dooms the buffer. -/
  | here {s : List α} (h : Doomed F (resync F.hdr s)) : Dooms F s
  /-- A header behind a completed packet does. -/
  | later {s : List α} {n : ℕ} (hn : F.frameLen ((resync F.hdr s).take F.cap) = some n)
      (h : Dooms F ((resync F.hdr s).drop F.cap)) : Dooms F s

omit [DecidableEq α] in
/-- Further bytes do not help a doomed content. -/
theorem Doomed.append {F : Framing α} {c : List α} (h : Doomed F c) (x : List α) :
    Doomed F (c ++ x) := by
  refine ⟨h.1.trans (List.prefix_append c x), fun m => ?_⟩
  rw [List.append_assoc]
  exact h.2 (x ++ m)

omit [DecidableEq α] in
/-- Only what fits the buffer decides whether the content is doomed. -/
theorem doomed_take {F : Framing α} {c : List α} : Doomed F (c.take F.cap) ↔ Doomed F c := by
  have hcap := F.hdr_lt_cap
  rcases Nat.le_total c.length F.cap with hle | hle
  · rw [List.take_of_length_le hle]
  · have hsame : ∀ m, (c.take F.cap ++ m).take F.cap = (c ++ m).take F.cap := by
      intro m
      rw [List.take_append_of_le_length (by rw [List.length_take]; omega), List.take_take,
        Nat.min_self, List.take_append_of_le_length hle]
    simp only [Doomed, hsame]
    exact and_congr_left fun _ =>
      ⟨fun h => h.trans (List.take_prefix _ _), fun h => List.prefix_take_iff.mpr ⟨h, hcap.le⟩⟩

omit [DecidableEq α] in
/-- A doomed content completes no packet. -/
theorem Doomed.incomplete {F : Framing α} {c : List α} (h : Doomed F c) :
    F.frameLen (c.take F.cap) = none := by
  have hm := h.2 []
  rwa [List.append_nil] at hm

/-- Bytes in which no header begins doom nothing. -/
theorem not_dooms {F : Framing α} {s : List α} (hs : ¬F.hdr <+: resync F.hdr s) :
    ¬Dooms F s := by
  intro h
  cases h with
  | here h => exact hs h.1
  | later hn _ => exact hs ((F.frameLen_hdr hn).trans (List.take_prefix _ _))

/-- Nothing is doomed by no bytes. -/
theorem not_dooms_nil {F : Framing α} : ¬Dooms F [] := by
  refine not_dooms fun h => ?_
  have hlen := h.length_le
  have hpos := F.hdr_pos
  rw [resync, List.length_nil] at hlen
  omega

/-- Without a completed packet the first header decides. -/
theorem dooms_of_none {F : Framing α} {s : List α}
    (hn : F.frameLen ((resync F.hdr s).take F.cap) = none) :
    Dooms F s ↔ Doomed F (resync F.hdr s) := by
  constructor
  · intro h
    cases h with
    | here h => exact h
    | later hn' _ =>
      rw [hn] at hn'
      cases hn'
  · exact Dooms.here

/-- Behind a completed packet the bytes that follow the buffer decide. -/
theorem dooms_of_some {F : Framing α} {s : List α} {n : ℕ}
    (hn : F.frameLen ((resync F.hdr s).take F.cap) = some n) :
    Dooms F s ↔ Dooms F ((resync F.hdr s).drop F.cap) := by
  constructor
  · intro h
    cases h with
    | here h =>
      rw [h.incomplete] at hn
      cases hn
    | later _ h => exact h
  · exact Dooms.later hn

/-- A pending content that is aligned and incomplete dooms the buffer when it
is doomed itself. -/
theorem dooms_pending {F : Framing α} {c : List α} (hc : c.length ≤ F.cap) (ha : Aligned F c)
    (hi : F.frameLen c = none) : Dooms F c ↔ Doomed F c := by
  by_cases hh : F.hdr <+: resync F.hdr c
  · have he : resync F.hdr c = c := by
      rcases ha with ha | ha
      · exact (resync_suffix F.hdr c).eq_of_length_le (ha.trans hh.length_le)
      · exact resync_of_header ha
    have hn : F.frameLen ((resync F.hdr c).take F.cap) = none := by
      rw [he, List.take_of_length_le hc]
      exact hi
    rw [dooms_of_none hn, he]
  · exact iff_of_false (not_dooms hh) fun h => hh (by rw [resync_of_header h.1]; exact h.1)

/-- A chunk dooms the buffer exactly when the available bytes do. -/
theorem Run.doomed_iff {F : Framing α} {c c' x : List α} {es : List (Packet α)}
    (h : Run F c [x] es c') (hc : c.length ≤ F.cap) (ha : Aligned F c)
    (hi : F.frameLen c = none) : Doomed F c' ↔ Dooms F (c ++ x) := by
  generalize hxs : [x] = xs at h
  induction h generalizing x with
  | nil c => cases hxs
  | skip h _ =>
    obtain ⟨rfl, rfl⟩ := List.cons.inj hxs
    obtain ⟨-, rfl⟩ := h.of_empty rfl
    rw [List.append_nil, dooms_pending hc ha hi]
  | @stop c y c₁ rest c' xs es hx hs hn h ih =>
    obtain ⟨rfl, rfl⟩ := List.cons.inj hxs
    obtain ⟨-, rfl⟩ := h.of_empty rfl
    cases hs with
    | found hf => rw [dooms_of_none hn, doomed_take]
    | searching hnf _ hr _ =>
      refine iff_of_false (fun hd => hnf ?_) (not_dooms hnf)
      rw [← hr, resync_of_header hd.1]
      exact hd.1
  | @frame c y p rest c' n xs es hx hs hn h ih =>
    obtain ⟨rfl, rfl⟩ := List.cons.inj hxs
    rw [ih (Nat.zero_le _) (Or.inl (Nat.zero_le _)) (frameLen_nil F) rfl, List.nil_append]
    cases hs with
    | found hf => exact (dooms_of_some hn).symm
    | searching hnf _ hr _ =>
      have hh := F.frameLen_hdr hn
      rw [← hr, resync_of_header hh] at hnf
      exact absurd hh hnf

/-- From a doomed buffer no packet is ever completed. -/
theorem Run.of_doomed {F : Framing α} {c c' : List α} {xs : List (List α)}
    {es : List (Packet α)} (h : Run F c xs es c') (hd : Doomed F c) : es = [] := by
  induction h with
  | nil c => rfl
  | skip _ ih => exact ih hd
  | @stop c x c₁ rest c' xs es hx hs hn _ ih =>
    have he := (hs.of_header (hd.1.trans (List.prefix_append c x))).1
    exact ih (he ▸ doomed_take.mpr (hd.append x))
  | @frame c x p rest c' n xs es hx hs hn _ _ =>
    have he := (hs.of_header (hd.1.trans (List.prefix_append c x))).1
    rw [he, (hd.append x).incomplete] at hn
    cases hn

/-- A pending content that is not doomed leaves room in the buffer. -/
theorem length_lt_of_not_doomed {F : Framing α} {c : List α} (hc : c.length ≤ F.cap)
    (ha : Aligned F c) (hi : F.frameLen c = none) (hd : ¬Doomed F c) : c.length < F.cap := by
  by_contra hfull
  have hlen : c.length = F.cap := by omega
  have hcap := F.hdr_lt_cap
  refine hd ⟨?_, fun m => ?_⟩
  · rcases ha with ha | ha
    · omega
    · exact ha
  · rw [← hlen, List.take_left]
    exact hi

/-- Some chunk leaves a pending content without a header, unless it is
doomed: the rest of a packet that fits, or nothing at all. -/
theorem exists_cleared {F : Framing α} {c : List α} (hc : c.length ≤ F.cap) (ha : Aligned F c)
    (hi : F.frameLen c = none) (hd : ¬Doomed F c) :
    ∃ g, ∀ {es : List (Packet α)} {c₁ : List α}, Run F c [g] es c₁ → ¬F.hdr <:+: c₁ := by
  have hcap := F.hdr_lt_cap
  have hnil : ¬F.hdr <:+: [] := fun h => by
    have := h.length_le
    have := F.hdr_pos
    rw [List.length_nil] at *
    omega
  by_cases hh : F.hdr <+: c
  · obtain ⟨m, hm⟩ : ∃ m, F.frameLen ((c ++ m).take F.cap) ≠ none := by
      by_contra hall
      exact hd ⟨hh, fun m => by_contra fun h => hall ⟨m, h⟩⟩
    have hg : (c ++ m).take F.cap = c ++ m.take (F.cap - c.length) := by
      rw [List.take_append, List.take_of_length_le hc]
    refine ⟨m.take (F.cap - c.length), fun {es c₁} h => ?_⟩
    rw [hg] at hm
    have hle : (c ++ m.take (F.cap - c.length)).length ≤ F.cap := by
      rw [← hg]
      exact List.length_take_le _ _
    generalize m.take (F.cap - c.length) = g at h hm hle
    cases h with
    | skip h =>
      rw [List.append_nil] at hm
      exact absurd hi hm
    | stop hx hs hn h =>
      obtain ⟨rfl, -⟩ := hs.of_header (hh.trans (List.prefix_append c g))
      rw [List.take_of_length_le hle] at hn
      exact absurd hn hm
    | frame hx hs hn h =>
      obtain ⟨-, rfl⟩ := hs.of_header (hh.trans (List.prefix_append c g))
      rw [List.drop_eq_nil_of_le hle] at h
      obtain ⟨-, rfl⟩ := h.of_empty rfl
      exact hnil
  · refine ⟨[], fun {es c₁} h => ?_⟩
    obtain ⟨-, rfl⟩ := h.of_empty rfl
    intro hin
    rcases ha with ha | ha
    · exact hh (hin.eq_of_length_le ha ▸ List.prefix_rfl)
    · exact hh ha

/-- Behind a content without a header a packet in one chunk is completed. -/
theorem Run.of_header_free {F : Framing α} (hu : Unbordered F.hdr) {c c' f : List α}
    {es : List (Packet α)} (h : Run F c [f] es c') (hc : ¬F.hdr <:+: c) (hf : Whole F f) :
    es = [⟨f, f.length⟩] := by
  have hh := F.frameLen_hdr hf.1
  have hshort : (resync F.hdr c).length < F.hdr.length :=
    resync_length_lt fun hp => hc (hp.isInfix.trans (resync_suffix F.hdr c).isInfix)
  have hflat : [f].flatten = f := by simp
  exact (h.resynced hf (by rw [hflat]; exact resync_noise hu hc hh)
    (hshort.trans_le hh.length_le)).1

/-! ## Which cuttings lose nothing -/

/-- Every packet that is neither the last one nor as long as the buffer ends
where a chunk ends; `c` are bytes received before the first chunk. -/
def EndsAtCuts (F : Framing α) (c : List α) (fs xs : List (List α)) : Prop :=
  ∀ A f B, fs = A ++ f :: B → B ≠ [] → f.length < F.cap →
    ∃ X Y, xs = X ++ Y ∧ c ++ X.flatten = A.flatten ++ f

omit [DecidableEq α] in

/-- Empty reads can be left out. -/
theorem endsAtCuts_skip {F : Framing α} {c : List α} {fs xs : List (List α)} :
    EndsAtCuts F c fs ([] :: xs) ↔ EndsAtCuts F c fs xs := by
  constructor
  · intro h A f B he hB hf
    obtain ⟨X, Y, hXY, hc⟩ := h A f B he hB hf
    cases X with
    | nil => exact ⟨[], xs, rfl, hc⟩
    | cons x X =>
      obtain ⟨rfl, rfl⟩ := List.cons.inj hXY
      exact ⟨X, Y, rfl, by simpa using hc⟩
  · intro h A f B he hB hf
    obtain ⟨X, Y, rfl, hc⟩ := h A f B he hB hf
    exact ⟨[] :: X, Y, rfl, by simpa using hc⟩

omit [DecidableEq α] in
/-- No chunk end lies inside the bytes received so far of the first packet. -/
theorem endsAtCuts_stop {F : Framing α} {c x f : List α} {fs xs : List (List α)}
    (hc : c.length < f.length) :
    EndsAtCuts F c (f :: fs) (x :: xs) ↔ EndsAtCuts F (c ++ x) (f :: fs) xs := by
  constructor
  · intro h A f' B he hB hf
    obtain ⟨X, Y, hXY, hX⟩ := h A f' B he hB hf
    cases X with
    | nil =>
      have hlen := congrArg List.length hX
      cases A with
      | nil =>
        obtain ⟨rfl, -⟩ := List.cons.inj he
        simp only [List.flatten_nil, List.append_nil, List.nil_append] at hlen
        omega
      | cons a A =>
        obtain ⟨rfl, -⟩ := List.cons.inj he
        simp only [List.flatten_nil, List.append_nil, List.flatten_cons,
          List.length_append] at hlen
        omega
    | cons y X =>
      obtain ⟨rfl, rfl⟩ := List.cons.inj hXY
      exact ⟨X, Y, rfl, by simpa using hX⟩
  · intro h A f' B he hB hf
    obtain ⟨X, Y, rfl, hX⟩ := h A f' B he hB hf
    exact ⟨x :: X, Y, rfl, by simpa using hX⟩

omit [DecidableEq α] in
/-- Once the first packet has been read the cuts concern only the others. -/
theorem endsAtCuts_frame {F : Framing α} {c x f rest : List α} {fs xs : List (List α)}
    (hc : c.length < f.length) (hpos : ∀ g ∈ fs, 0 < g.length)
    (hx : c ++ x = f ++ rest) (hrest : rest = [] ∨ f.length = F.cap) :
    EndsAtCuts F c (f :: fs) (x :: xs) ↔ EndsAtCuts F [] fs (rest :: xs) := by
  constructor
  · intro h A g B he hB hg
    obtain ⟨X, Y, hXY, hX⟩ := h (f :: A) g B (by rw [he]; rfl) hB hg
    cases X with
    | nil =>
      have hlen := congrArg List.length hX
      simp only [List.flatten_nil, List.append_nil, List.flatten_cons, List.length_append] at hlen
      omega
    | cons y X =>
      obtain ⟨rfl, rfl⟩ := List.cons.inj hXY
      refine ⟨rest :: X, Y, rfl, ?_⟩
      rw [List.flatten_cons, ← List.append_assoc, hx, List.flatten_cons, List.append_assoc,
        List.append_assoc] at hX
      simpa using List.append_cancel_left hX
  · intro h A g B he hB hg
    cases A with
    | nil =>
      obtain ⟨rfl, rfl⟩ := List.cons.inj he
      rcases hrest with rfl | hfull
      · exact ⟨[x], xs, rfl, by simpa using hx⟩
      · omega
    | cons a A =>
      obtain ⟨rfl, rfl⟩ := List.cons.inj he
      obtain ⟨X, Y, hXY, hX⟩ := h A g B rfl hB hg
      cases X with
      | nil =>
        have hlen := congrArg List.length hX
        have hg' := hpos g (by simp)
        simp only [List.flatten_nil, List.append_nil, List.length_nil, List.length_append] at hlen
        omega
      | cons y X =>
        obtain ⟨rfl, rfl⟩ := List.cons.inj hXY
        refine ⟨x :: X, Y, rfl, ?_⟩
        rw [List.flatten_cons, ← List.append_assoc, hx, List.flatten_cons, List.append_assoc,
          List.append_assoc]
        simpa using hX

/-- Packets that a check accepts, in the order of completion. -/
def accepted (ok : List α → Bool) (es : List (Packet α)) : List (List α) :=
  (es.map Packet.frame).filter ok

omit [DecidableEq α] in
/-- A packet that has the buffer to itself is accepted as it is. -/
theorem accepted_single {ok : List α → Bool} {f : List α} (hok : ok f = true) :
    accepted ok [⟨f, f.length⟩] = [f] := by
  rw [accepted, List.map_singleton, Packet.frame, List.take_length,
    List.filter_cons_of_pos hok, List.filter_nil]

/-- Accepted packets are disjoint blocks of the stream too. -/
theorem Run.accepted_blocks {F : Framing α} {c c' : List α} {xs : List (List α)}
    {es : List (Packet α)} (h : Run F c xs es c') (ok : List α → Bool) :
    Blocks (accepted ok es) (c ++ xs.flatten) :=
  h.blocks.sublist List.filter_sublist

/-- Packets that need more bytes than there are have not all been accepted. -/
theorem Run.accepted_ne {F : Framing α} {c c' : List α} {xs fs : List (List α)}
    {es : List (Packet α)} (h : Run F c xs es c') (ok : List α → Bool)
    (hlt : (c ++ xs.flatten).length < fs.flatten.length) : accepted ok es ≠ fs := by
  intro he
  have hb := (h.accepted_blocks ok).length_le
  rw [he] at hb
  omega

/-- An incomplete fill holds only a part of the packet the stream begins with. -/
theorem Synced.part_of_incomplete {F : Framing α} {s c rest f m t : List α}
    (h : Synced F s c rest) (hn : F.frameLen c = none) (hf : Whole F f) (hc : s ++ m = f ++ t) :
    s.length < f.length ∧ c = s ∧ rest = [] := by
  have hshort : s.length < f.length := by
    by_contra hle
    have hp : f <+: s := List.prefix_of_prefix_length_le
      (List.prefix_append f t) (hc ▸ List.prefix_append s m) (by omega)
    rw [(h.of_whole hf hp).1] at hn
    cases hn
  have hp : s <+: f := List.prefix_of_prefix_length_le
    (hc ▸ List.prefix_append s m) (List.prefix_append f t) hshort.le
  exact ⟨hshort, h.of_part (F.frameLen_hdr hf.1) hf.2 hp⟩

/-- A fill that completes a packet has all of the packet the stream begins with. -/
theorem Synced.whole_of_complete {F : Framing α} {s c rest f m t : List α} {n : ℕ}
    (h : Synced F s c rest) (hn : F.frameLen c = some n) (hf : Whole F f)
    (hc : s ++ m = f ++ t) : f <+: s := by
  rcases List.prefix_or_prefix_of_prefix (List.prefix_append f t)
    (hc ▸ List.prefix_append s m) with hp | hp
  · exact hp
  · obtain ⟨rfl, rfl⟩ := h.of_part (F.frameLen_hdr hf.1) hf.2 hp
    obtain ⟨u, hu⟩ := hp
    have hn' := hu ▸ F.frameLen_append u hn
    rw [hf.1] at hn'
    obtain rfl := Option.some.inj hn'
    exact List.IsPrefix.eq_of_length_le ⟨u, hu⟩ (F.frameLen_le hn) ▸ List.prefix_rfl

omit [DecidableEq α] in
/-- The packet at the front of a fill is accepted, trailing bytes or not. -/
theorem accepted_cons {F : Framing α} {ok : List α → Bool} {s f : List α}
    (hf : Whole F f) (hok : ok f = true) (hs : f <+: s) (es : List (Packet α)) :
    accepted ok (⟨s.take F.cap, f.length⟩ :: es) = f :: accepted ok es := by
  obtain ⟨t, rfl⟩ := hs
  have hfr : Packet.frame ⟨(f ++ t).take F.cap, f.length⟩ = f := by
    rw [Packet.frame, List.take_take, Nat.min_eq_left hf.2, List.take_left]
  rw [accepted, List.map_cons, hfr, List.filter_cons_of_pos hok]
  rfl

omit [DecidableEq α] in
/-- A packet that shares the buffer with no other byte leaves the rest unread. -/
theorem alone_in_buffer {F : Framing α} {s f : List α} (hcap : f.length ≤ F.cap) (hs : f <+: s)
    (hfit : (s.take F.cap).length = f.length) :
    s = f ++ s.drop F.cap ∧ (s.drop F.cap = [] ∨ f.length = F.cap) := by
  have htake : f = s.take F.cap :=
    List.IsPrefix.eq_of_length_le (List.prefix_take_iff.mpr ⟨hs, hcap⟩) hfit.le
  refine ⟨?_, ?_⟩
  · nth_rewrite 1 [← List.take_append_drop F.cap s]
    rw [← htake]
  · rw [List.length_take] at hfit
    rcases Nat.le_total s.length F.cap with hle | hle
    · exact Or.inl (List.drop_eq_nil_of_le hle)
    · exact Or.inr (by omega)

omit [DecidableEq α] in
/-- A chunk that runs past the end of the first packet does not end there. -/
theorem not_endsAtCuts {F : Framing α} {c x f : List α} {fs xs : List (List α)}
    (hpart : c.length < f.length) (hpast : f.length < (c ++ x).length)
    (hcap : f.length < F.cap) (hmore : fs ≠ []) : ¬EndsAtCuts F c (f :: fs) (x :: xs) := by
  intro hcut
  obtain ⟨X, Y, hXY, hX⟩ := hcut [] f fs rfl hmore hcap
  have hlen := congrArg List.length hX
  cases X with
  | nil =>
    simp only [List.flatten_nil, List.append_nil, List.nil_append] at hlen
    omega
  | cons y X =>
    obtain ⟨rfl, rfl⟩ := List.cons.inj hXY
    simp only [List.flatten_cons, List.flatten_nil, List.nil_append, List.length_append]
      at hlen hpast
    omega

/-- A receiver fed with whole packets delivers all of them exactly when every
packet shorter than the buffer, the last one apart, ends at a chunk end:
otherwise bytes of the next packet share the buffer and are thrown away. -/
theorem Run.accepted_iff {F : Framing α} {c c' : List α} {xs : List (List α)}
    {es : List (Packet α)} (h : Run F c xs es c') (ok : List α → Bool) {fs : List (List α)}
    (hfs : ∀ f ∈ fs, Whole F f ∧ ok f = true) (hc : c ++ xs.flatten = fs.flatten)
    (hpart : ∀ f ∈ fs.head?, c.length < f.length) :
    accepted ok es = fs ↔ EndsAtCuts F c fs xs := by
  induction h generalizing fs with
  | nil c =>
    cases fs with
    | nil =>
      refine iff_of_true rfl ?_
      intro A f B he
      cases A <;> cases he
    | cons f fs =>
      have hlt := hpart f rfl
      have hlen := congrArg List.length hc
      simp only [List.flatten_nil, List.append_nil, List.flatten_cons, List.length_append] at hlen
      omega
  | skip _ ih => rw [endsAtCuts_skip]; exact ih hfs (by simpa using hc) hpart
  | @stop c x c₁ rest c' xs es hx hs hn h ih =>
    cases fs with
    | nil =>
      simp only [List.flatten_cons, List.flatten_nil, List.append_eq_nil_iff] at hc
      exact absurd hc.2.1 hx
    | cons f fs =>
      rw [List.flatten_cons, List.flatten_cons, ← List.append_assoc] at hc
      obtain ⟨hshort, rfl, rfl⟩ := hs.part_of_incomplete hn (hfs f List.mem_cons_self).1 hc
      rw [endsAtCuts_stop (hpart f rfl)]
      exact ih hfs (by rw [hc, List.flatten_cons]) (by rintro g ⟨⟩; exact hshort)
  | @frame c x p rest c' n xs es hx hs hn h ih =>
    cases fs with
    | nil =>
      simp only [List.flatten_cons, List.flatten_nil, List.append_eq_nil_iff] at hc
      exact absurd hc.2.1 hx
    | cons f fs =>
      rw [List.flatten_cons, List.flatten_cons, ← List.append_assoc] at hc
      obtain ⟨hw, hok⟩ := hfs f List.mem_cons_self
      have hp := hs.whole_of_complete hn hw hc
      obtain ⟨hn', rfl, rfl⟩ := hs.of_whole hw hp
      rw [hn] at hn'
      obtain rfl := Option.some.inj hn'
      rw [accepted_cons hw hok hp, List.cons_inj_right]
      have hmem : ∀ g ∈ fs, Whole F g ∧ ok g = true := fun g hg =>
        hfs g (List.mem_cons_of_mem f hg)
      have hpos : ∀ g ∈ fs, 0 < g.length := fun g hg => F.frameLen_pos (hmem g hg).1.1
      by_cases hfit : ((c ++ x).take F.cap).length = f.length
      · obtain ⟨hsplit, hrest⟩ := alone_in_buffer hw.2 hp hfit
        rw [endsAtCuts_frame (hpart f rfl) hpos hsplit hrest]
        refine ih hmem ?_ fun g hg => hpos g (List.mem_of_mem_head? hg)
        rw [hsplit, List.append_assoc] at hc
        exact List.append_cancel_left hc
      · have hlen := congrArg List.length hc
        have hle := hp.length_le
        have hcap := hw.2
        simp only [List.length_append, List.length_take] at hlen hle hfit
        refine iff_of_false (h.accepted_ne ok ?_) (not_endsAtCuts (hpart f rfl) ?_ ?_ ?_)
        · simp only [List.nil_append, List.flatten_cons, List.length_append, List.length_drop]
          omega
        · rw [List.length_append]
          omega
        · omega
        · rintro rfl
          simp only [List.flatten_nil, List.length_nil] at hlen
          omega

end CdroidDemo.FramedReceiver
