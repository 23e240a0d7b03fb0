import Mathlib.Data.List.GetD
import CdroidDemo.PacketAssembly

/-!
# Packets between the display board and the Tuya module

`UI2TUYA` and `TUYA2UI` use frames of variable length: bytes 4 and 5 declare
the number of data bytes, which seven header and check bytes surround. The
declared length is taken from the line and may exceed what the receive
buffer can ever hold.
-/

namespace CdroidDemo.TuyaPackets

open HeaderResync FramedReceiver PacketMemory PacketAssembly BuffData

/-- `mBuf[4] * 256 + mBuf[5]`: the declared number of data bytes. -/
def declaredLen (c : List UInt8) : ℕ := (c.getD 4 0).toNat * 256 + (c.getD 5 0).toNat

/-- Read the declared number of data bytes from the payload. -/
def readLen (b : BuffData) : Option ℕ := do
  return (← b.read 4).toNat * 256 + (← b.read 5).toNat

namespace UI2TUYA

/-- `UI2TUYA::BUF_LEN`. -/
def bufLen : ℕ := 128

/-- `parse`: an empty buffer becomes a frame with its header bytes. -/
def parse (b : BuffData) : Option BuffData :=
  if b.len = 0 then do
    let b' ← (b.setLen bufLen).write 0 0x55
    let b' ← b'.write 1 0xaa
    b'.write 2 0x03
  else some b

/-- `checkcode`: the sum of all bytes before it; the length becomes that of
the declared frame. `Sum` takes its length as a byte. -/
def checkcode (b : BuffData) : Option BuffData := do
  let len := (← readLen b) + 7
  let b' ← b.write (len - 1) (← sum b ((len - 1) % 256))
  return b'.setLen len

end UI2TUYA

namespace TUYA2UI

/-- `TUYA2UI::BUF_LEN`. -/
def bufLen : ℕ := 128

/-- `TUYA2UI::HEAD_BYTE`. -/
def headByte : List UInt8 := [0x55, 0xaa, 0x00]

/-- The search loop of `add`: turns left, `i` and `j`. One or two header
bytes at the very end are kept as a candidate. -/
def findHeadLoop (b : BuffData) : ℕ → ℕ → Option ℕ → Option (Option ℕ × Bool)
  | 0, _, j => some (j, false)
  | k + 1, i, j => do
    if (← b.read i) = 0x55 then
      if ← nextIs b i 1 0xaa then
        if ← nextIs b i 2 0x00 then return (some i, true)
        else findHeadLoop b k (i + 1) (if i = b.len - 2 then some i else j)
      else findHeadLoop b k (i + 1) (if i = b.len - 1 then some i else j)
    else findHeadLoop b k (i + 1) j

/-- The header search of `add` over the valid bytes. -/
def findHead (b : BuffData) : Option (Option ℕ × Bool) := findHeadLoop b b.len 0 none

/-- `TUYA2UI::add`. -/
def add (b : BuffData) (bf : List UInt8) : Option (BuffData × ℕ) :=
  PacketAssembly.add bufLen headByte.length findHead b bf

/-- `TUYA2UI::complete`; all bytes are read even when stale. -/
def complete (b : BuffData) : Option Bool := do
  if (← readLen b) + 7 ≤ b.len then
    if (← b.read 0) = 0x55 then
      if (← b.read 1) = 0xaa then return decide ((← b.read 2) = 0x00)
      else return false
    else return false
  else return false

/-- `TUYA2UI::check`: the last byte of the declared frame is the sum of the
bytes before it. `Sum` takes its length as a byte. -/
def check (b : BuffData) : Option Bool := do
  let len := (← readLen b) + 7
  let last ← b.read (len - 1)
  let s ← sum b ((len - 1) % 256)
  return last == s

/-- Bytes behind the length field do not change the declared length. -/
theorem declaredLen_append {c : List UInt8} (h : 7 ≤ c.length) (m : List UInt8) :
    declaredLen (c ++ m) = declaredLen c := by
  rw [declaredLen, declaredLen, List.getD_append c m 0 4 (by omega),
    List.getD_append c m 0 5 (by omega)]

/-- Bytes that fill up a content only add to the declared length. -/
theorem declaredLen_le_fill (c m : List UInt8) :
    declaredLen c ≤ declaredLen ((c ++ m).take bufLen) := by
  have hkeep : ∀ i < bufLen, (c.getD i 0).toNat ≤ (((c ++ m).take bufLen).getD i 0).toNat := by
    intro i hi
    rw [List.getD_eq_getElem?_getD, List.getD_eq_getElem?_getD, List.getElem?_take_of_lt hi]
    rcases Nat.lt_or_ge i c.length with hlt | hge
    · rw [List.getElem?_append_left hlt]
    · rw [List.getElem?_eq_none hge]
      exact Nat.zero_le _
  have h4 := hkeep 4 (by decide)
  have h5 := hkeep 5 (by decide)
  rw [declaredLen, declaredLen]
  omega

/-- Zero bytes that fill up a content keep the declared length. -/
theorem declaredLen_fill (c : List UInt8) :
    declaredLen ((c ++ List.replicate bufLen 0).take bufLen) = declaredLen c := by
  have hkeep : ∀ i < bufLen,
      ((c ++ List.replicate bufLen 0).take bufLen).getD i 0 = c.getD i 0 := by
    intro i hi
    rw [List.getD_eq_getElem?_getD, List.getD_eq_getElem?_getD, List.getElem?_take_of_lt hi]
    rcases Nat.lt_or_ge i c.length with hlt | hge
    · rw [List.getElem?_append_left hlt]
    · rw [List.getElem?_append_right hge, List.getElem?_eq_none hge, List.getElem?_replicate]
      split <;> rfl
  rw [declaredLen, declaredLen, hkeep 4 (by decide), hkeep 5 (by decide)]

/-- The framing of module frames: a declared length behind three bytes. -/
def framing : Framing UInt8 where
  hdr := headByte
  cap := bufLen
  frameLen c :=
    if headByte <+: c ∧ declaredLen c + 7 ≤ c.length then some (declaredLen c + 7) else none
  hdr_lt_cap := by decide
  hdr_pos := by decide
  frameLen_hdr h := by
    split at h
    · rename_i hc; exact hc.1
    · cases h
  frameLen_le h := by
    split at h
    · rename_i hc; cases h; exact hc.2
    · cases h
  frameLen_pos h := by
    split at h
    · cases h; exact Nat.succ_pos _
    · cases h
  frameLen_append {c _} m h := by
    split at h
    · rename_i hc
      cases h
      have hd := declaredLen_append (show 7 ≤ c.length by omega) m
      rw [hd, if_pos ⟨hc.1.trans (List.prefix_append _ m), by rw [List.length_append]; omega⟩]
    · cases h

/-- The contents that complete a module frame. -/
theorem frameLen_iff {c : List UInt8} {n : ℕ} :
    framing.frameLen c = some n ↔ n = declaredLen c + 7 ∧ headByte <+: c ∧ n ≤ c.length := by
  change (if headByte <+: c ∧ declaredLen c + 7 ≤ c.length then some (declaredLen c + 7)
    else none) = some n ↔ _
  split
  · rename_i h
    constructor
    · intro he
      obtain rfl := Option.some.inj he
      exact ⟨rfl, h⟩
    · intro he
      rw [he.1]
  · rename_i h
    constructor
    · intro he
      cases he
    · intro he
      obtain ⟨rfl, hp⟩ := he
      exact absurd hp h

/-- The tails of the content in which a module header can begin. -/
theorem live_iff {x : UInt8} {t : List UInt8} :
    Live headByte (x :: t) ↔
      x = 0x55 ∧ (t = [] ∨ t[0]? = some 0xaa ∧ (t.length = 1 ∨ t[1]? = some 0x00)) := by
  rw [headByte, live_cons]
  cases t with
  | nil => simp [live_nil]
  | cons y t =>
    cases t with
    | nil => simp [live_cons, live_nil]
    | cons z t => simp [live_cons, nil_live]

/-- The tails of the content that begin with a whole module header. -/
theorem header_iff {x : UInt8} {t : List UInt8} :
    headByte <+: x :: t ↔ x = 0x55 ∧ t[0]? = some 0xaa ∧ t[1]? = some 0x00 := by
  rw [headByte, List.cons_prefix_cons]
  cases t with
  | nil => simp
  | cons y t =>
    cases t with
    | nil => simp [List.cons_prefix_cons]
    | cons z t => simp [List.cons_prefix_cons, eq_comm]

/-- The search loop past the last candidate: a lone `0xaa` is no header. -/
theorem findHeadLoop_last {b : BuffData} (hf : b.Fits) {y : UInt8} (hy : [y] <:+ b.content)
    (hne : y ≠ 0x55) (j : Option ℕ) : findHeadLoop b 1 (b.len - 1) j = some (j, false) := by
  have hread : b.read (b.len - 1) = some y := read_tail hf hy
  rw [findHeadLoop, hread]
  simp only [Option.bind_eq_bind, Option.bind_some, if_neg hne]
  rfl

/-- On every tail of the content the search reports its first live tail. -/
theorem findHeadLoop_eq {b : BuffData} (hf : b.Fits) {t : List UInt8} (ht : t <:+ b.content) :
    findHeadLoop b t.length (b.len - t.length) none = some (locatedFrom headByte b.len t) := by
  induction t with
  | nil => rfl
  | cons x t ih =>
    have hle := tail_length hf ht
    have htail := (List.suffix_cons x t).trans ht
    have ih' := ih htail
    rw [List.length_cons, findHeadLoop, read_tail hf ht, nextIs_tail hf ht, nextIs_tail hf ht,
      next_tail hf ht]
    simp only [Option.bind_eq_bind, Option.bind_some, decide_eq_true_eq]
    by_cases hx : x = 0x55
    · rw [if_pos hx]
      by_cases hy : t[0]? = some 0xaa
      · rw [if_pos hy]
        by_cases hz : t[1]? = some 0x00
        · rw [if_pos hz, locatedFrom_header (header_iff.mpr ⟨hx, hy, hz⟩)]
          rfl
        · rw [if_neg hz]
          by_cases hone : t.length = 1
          · have hl : Live headByte (x :: t) := live_iff.mpr ⟨hx, Or.inr ⟨hy, Or.inl hone⟩⟩
            rw [locatedFrom_candidate hl fun h => hz (header_iff.mp h).2.2]
            obtain ⟨y, rfl⟩ := List.length_eq_one_iff.mp hone
            have hye : y ≠ 0x55 := by
              intro h
              rw [List.getElem?_cons_zero, h] at hy
              cases hy
            rw [if_pos (by simp only [List.length_singleton]), List.length_singleton,
              findHeadLoop_last hf htail hye]
          · have hd : ¬Live headByte (x :: t) := by
              rw [live_iff]
              rintro ⟨-, h | ⟨-, h | h⟩⟩
              · rw [h] at hy
                cases hy
              · exact hone h
              · exact hz h
            have hpos : t.length ≠ 0 := by
              intro h
              rw [List.length_eq_zero_iff.mp h] at hy
              cases hy
            rw [if_neg (by omega), locatedFrom_dead hd, ih']
      · rw [if_neg hy]
        cases t with
        | nil =>
          rw [locatedFrom_candidate (live_iff.mpr ⟨hx, Or.inl rfl⟩)
            fun h => hy (header_iff.mp h).2.1, if_pos (by simp only [List.length_nil])]
          rfl
        | cons y t =>
          have hd : ¬Live headByte (x :: y :: t) := by
            rw [live_iff]
            rintro ⟨-, h | ⟨h, -⟩⟩
            · cases h
            · exact hy h
          rw [if_neg (by simp only [List.length_cons] at hle ⊢; omega), locatedFrom_dead hd, ih']
    · have hd : ¬Live headByte (x :: t) := fun h => hx (live_iff.mp h).1
      rw [if_neg hx, locatedFrom_dead hd, ih']

/-- The header search locates the module header. -/
theorem findHead_locates : Locates headByte findHead := by
  intro b hf
  have h := findHeadLoop_eq hf (List.suffix_refl b.content)
  rw [content_length hf, Nat.sub_self] at h
  rw [findHead, h, located_eq, content_length hf]

/-- The length field of the payload is the declared length. -/
theorem readLen_eq {b : BuffData} (hs : b.slen = bufLen) : readLen b = some (declaredLen b.buf) := by
  have hslen : b.slen = 128 := hs
  have hbl := b.buf_length
  have h4 := read_eq_some (show 4 < b.buf.length by omega)
  have h5 := read_eq_some (show 5 < b.buf.length by omega)
  rw [readLen, h4, h5, declaredLen, List.getD_eq_getElem b.buf 0 (by omega),
    List.getD_eq_getElem b.buf 0 (by omega)]
  rfl

/-- With at least seven valid bytes the payload declares what they declare. -/
theorem declaredLen_content {b : BuffData} (hf : b.Fits) (h : 7 ≤ b.len) :
    declaredLen b.buf = declaredLen b.content := by
  rw [buf_eq_content_append b, declaredLen_append (by rw [content_length hf]; exact h)]

/-- `complete` recognises exactly the framing's packets. -/
theorem complete_eq {b : BuffData} (hs : b.slen = bufLen) (hf : b.Fits) :
    complete b = some (framing.frameLen b.content).isSome := by
  have hslen : b.slen = 128 := hs
  have hbl := b.buf_length
  have h0 := read_eq_some (show 0 < b.buf.length by omega)
  have h1 := read_eq_some (show 1 < b.buf.length by omega)
  have h2 := read_eq_some (show 2 < b.buf.length by omega)
  have hbuf : b.buf = b.buf[0] :: b.buf[1] :: b.buf[2] :: b.buf.drop 3 := by
    rw [← List.drop_eq_getElem_cons, ← List.drop_eq_getElem_cons, ← List.drop_eq_getElem_cons,
      List.drop_zero]
  have hp : headByte <+: b.content ∧ declaredLen b.content + 7 ≤ b.content.length ↔
      declaredLen b.buf + 7 ≤ b.len ∧ b.buf[0] = 0x55 ∧ b.buf[1] = 0xaa ∧ b.buf[2] = 0x00 := by
    rw [content_length hf]
    constructor
    · rintro ⟨h, hle⟩
      have hb : headByte <+: b.buf := h.trans (List.take_prefix _ _)
      rw [hbuf, headByte, List.cons_prefix_cons, List.cons_prefix_cons,
        List.cons_prefix_cons] at hb
      rw [declaredLen_content hf (by omega)]
      exact ⟨hle, hb.1.symm, hb.2.1.symm, hb.2.2.1.symm⟩
    · rintro ⟨hle, ha, hb, hc⟩
      rw [← declaredLen_content hf (by omega)]
      refine ⟨?_, hle⟩
      rw [content, List.prefix_take_iff, hbuf, ha, hb, hc]
      exact ⟨⟨_, rfl⟩, by simp only [headByte, List.length_cons, List.length_nil]; omega⟩
  rw [complete, readLen_eq hs, h0, h1, h2]
  simp only [Option.bind_eq_bind, Option.bind_some, framing, hp]
  by_cases hle : declaredLen b.buf + 7 ≤ b.len
  · by_cases ha : b.buf[0] = 0x55
    · by_cases hb : b.buf[1] = 0xaa
      · by_cases hc : b.buf[2] = 0x00
        · simp [hle, ha, hb, hc]
        · simp [ha, hb, hc]
      · simp [ha, hb]
    · simp [ha]
  · simp [hle]

/-- On a completed packet `check` verifies the declared frame. -/
theorem check_eq {b : BuffData} (hs : b.slen = bufLen) (hf : b.Fits) {n : ℕ}
    (hn : framing.frameLen b.content = some n) :
    check b = some (verified (b.content.take n)) := by
  have hslen : b.slen = 128 := hs
  obtain ⟨hdecl, -, hle⟩ := frameLen_iff.mp hn
  rw [content_length hf] at hle
  have hfit : b.len ≤ b.slen := hf
  have hv := verified_first (show 0 < n by omega) (show n ≤ b.slen by omega)
  have hmod : (declaredLen b.content + 7 - 1) % 256 = declaredLen b.content + 7 - 1 :=
    Nat.mod_eq_of_lt (by omega)
  rw [content, List.take_take, Nat.min_eq_left hle, ← hv, check, readLen_eq hs,
    declaredLen_content hf (by omega), hdecl]
  simp only [Option.bind_eq_bind, Option.bind_some, hmod]

end TUYA2UI

end CdroidDemo.TuyaPackets
