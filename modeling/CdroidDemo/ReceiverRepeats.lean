import CdroidDemo.History
import CdroidDemo.ReceiverFraming

/-!
# What the receiver suppresses

A repeat is dropped only while it says nothing new: it equals the packet
dispatched last in every byte, carries no key and comes within a second of
the last repeat let through. The saved packet is therefore always the last
valid one, although it is written on dispatch only.
-/

namespace CdroidDemo.ReceiverRepeats

open HeaderResync FramedReceiver PacketMemory BuffData PacketBuffer McuPackets UartReceiver
open ReceiverFraming History

/-- The content a dispatched packet hands on. -/
def dispatchedContent : RecvEvent → Option (List UInt8)
  | .dispatched c _ _ => some c
  | _ => none

/-- When a repeat was let through. -/
def letThroughAt : RecvEvent → Option ℤ
  | .dispatched _ _ repeatAt => repeatAt
  | _ => none

/-- The content of a packet whose check succeeded. -/
def validContent : RecvEvent → Option (List UInt8)
  | .checkFail _ => none
  | .dispatched c _ _ => some c
  | .suppressed c _ => some c

/-- The content of a packet whose frame verifies. -/
def verifiedContent (e : RecvEvent) : Option (List UInt8) :=
  if verified (packet .mcu e).frame then some e.content else none

/-- The packet was dropped as a repeat of the one dispatched last before it,
within a second of the last repeat let through before it. -/
def SuppressedRepeat (t₀ : ℤ) (pre : List RecvEvent) (e : RecvEvent) : Prop :=
  ∃ now, e = .suppressed e.content now ∧ latest dispatchedContent pre = some e.content ∧
    KeysZero e.content ∧ now - (latest letThroughAt pre).getD t₀ < 1000

/-- The saved packet of a receiver, when it has one. -/
def SavedIs (s : Receiver) (c : List UInt8) : Prop :=
  s.mLastRecv.len = c.length ∧ s.mLastRecv.content = c

/-- What the receiver remembers of the packets it has dealt with. -/
structure Remembers (t₀ : ℤ) (pre : List RecvEvent) (s : Receiver) : Prop where
  /-- The last valid packet and the last dispatched one agree. -/
  valid : latest validContent pre = latest dispatchedContent pre
  /-- The saved packet is the last dispatched one. -/
  saved : ∀ c, latest dispatchedContent pre = some c → SavedIs s c
  /-- Nothing is saved before the first dispatch. -/
  fresh : latest dispatchedContent pre = none → s.mLastRecv.len = 0
  /-- The timer holds the time of the last repeat let through. -/
  timer : s.mLastDealDataTime = (latest letThroughAt pre).getD t₀

/-- A receiver that has seen nothing remembers nothing. -/
theorem Remembers.start {s : Receiver} (h : s.mLastRecv.len = 0) :
    Remembers s.mLastDealDataTime [] s :=
  ⟨rfl, by simp, fun _ => h, rfl⟩

/-- Key bytes of a buffer lie among its valid bytes once these are ten. -/
theorem keysZero_content {b : BuffData} (h : 10 ≤ b.len) (hk : KeysZero b.buf) :
    KeysZero b.content := by
  have hi : ∀ i, i < 10 → b.content[i]? = b.buf[i]? := by
    intro i hi
    rw [content, List.getElem?_take, if_pos (by omega)]
  unfold KeysZero
  rw [hi 6 (by decide), hi 7 (by decide), hi 8 (by decide), hi 9 (by decide)]
  exact hk

/-- A repeat of at least ten bytes repeats the packet dispatched last. -/
theorem Remembers.repeats {t₀ : ℤ} {pre : List RecvEvent} {s : Receiver} (h : Remembers t₀ pre s)
    (hlen : 10 ≤ s.mCurrRecv.len) (hr : Repeats .mcu s) :
    latest dispatchedContent pre = some s.mCurrRecv.content ∧ KeysZero s.mCurrRecv.content := by
  have hn := hr.2.1
  refine ⟨?_, keysZero_content hlen hr.2.2.2⟩
  cases hd : latest dispatchedContent pre with
  | none =>
    have hz := h.fresh hd
    omega
  | some c =>
    have hc := (h.saved c hd).2
    rw [hr.2.2.1, hc]

/-- Saving a packet is remembered as the latest dispatch. -/
theorem Remembers.dispatch {t₀ : ℤ} {pre : List RecvEvent} {s s' : Receiver} {c : List UInt8}
    {cb : Bool} {r : Option ℤ} (h : Remembers t₀ pre s) (hs : SavedIs s' c)
    (ht : s'.mLastDealDataTime = r.getD s.mLastDealDataTime) :
    Remembers t₀ (pre ++ [.dispatched c cb r]) s' := by
  have hd : latest dispatchedContent (pre ++ [.dispatched c cb r]) = some c :=
    latest_concat_some (f := dispatchedContent) rfl pre
  refine ⟨?_, ?_, ?_, ?_⟩
  · rw [hd]
    exact latest_concat_some (f := validContent) rfl pre
  · intro c' hc'
    rw [hd] at hc'
    cases hc'
    exact hs
  · intro hc'
    rw [hd] at hc'
    cases hc'
  · rw [ht, h.timer, latest_concat]
    cases r with
    | none => simp only [letThroughAt, Option.none_or, Option.getD_none]
    | some now => simp only [letThroughAt, Option.some_or, Option.getD_some]

/-- A packet that is not dispatched leaves what is remembered, as long as its
content is the remembered one in case it is valid. -/
theorem Remembers.keep {t₀ : ℤ} {pre : List RecvEvent} {s s' : Receiver} {e : RecvEvent}
    (h : Remembers t₀ pre s) (hd : dispatchedContent e = none) (hr : letThroughAt e = none)
    (hv : ∀ c, validContent e = some c → latest dispatchedContent pre = some c)
    (hlast : s'.mLastRecv = s.mLastRecv) (ht : s'.mLastDealDataTime = s.mLastDealDataTime) :
    Remembers t₀ (pre ++ [e]) s' := by
  refine ⟨?_, ?_, ?_, ?_⟩
  · rw [latest_concat_none hd]
    cases hc : validContent e with
    | none =>
      rw [latest_concat_none hc]
      exact h.valid
    | some c =>
      rw [latest_concat_some hc]
      exact (hv c hc).symm
  · intro c hc
    rw [latest_concat_none hd] at hc
    rw [SavedIs, hlast]
    exact h.saved c hc
  · intro hc
    rw [latest_concat_none hd] at hc
    rw [hlast]
    exact h.fresh hc
  · rw [ht, latest_concat_none hr]
    exact h.timer

/-- Dealing with one more packet extends what is remembered, and a valid
packet is dispatched or a suppressed repeat. -/
theorem Remembers.dealt {t₀ : ℤ} {pre : List RecvEvent} {now : ℤ} {n : ℕ} {s s' : Receiver}
    {e : RecvEvent} (h : Remembers t₀ pre s) (hc : Sized .mcu s.mCurrRecv)
    (hn : MCU2UI.framing.frameLen s.mCurrRecv.content = some n) (hd : Dealt .mcu now n s s' e) :
    Remembers t₀ (pre ++ [e]) s' ∧
      (e.isValid = true → e.isDispatched = true ∨ SuppressedRepeat t₀ pre e) := by
  have hlen : 10 ≤ s.mCurrRecv.len := by
    have hle := (MCU2UI.frameLen_iff.mp hn).2.2
    rw [content_length hc.fits] at hle
    omega
  have hsize := content_length hc.fits
  cases hd with
  | failed hv =>
    exact ⟨h.keep rfl rfl (fun c hc => by cases hc) rfl rfl, fun hval => by cases hval⟩
  | fresh hv hr hl =>
    exact ⟨h.dispatch ⟨hl.2.1.trans hsize.symm, hl.2.2⟩ rfl, fun _ => Or.inl rfl⟩
  | through hv hr ht hl =>
    exact ⟨h.dispatch ⟨hl.2.1.trans hsize.symm, hl.2.2⟩ rfl, fun _ => Or.inl rfl⟩
  | suppressed hv hr ht =>
    have hrep := h.repeats hlen hr
    refine ⟨h.keep rfl rfl ?_ rfl rfl, fun _ => Or.inr ⟨now, rfl, hrep.1, hrep.2, ?_⟩⟩
    · intro c hc
      cases hc
      exact hrep.1
    · rw [← h.timer]
      exact ht

/-- Over the packets of a run: what is remembered at its end, and what became
of each valid packet. -/
theorem Remembers.deals {t₀ : ℤ} {pre es : List RecvEvent} {clock : ℕ → ℤ} {s s' : Receiver}
    (hd : Deals .mcu MCU2UI.framing clock s es s') (h : Remembers t₀ pre s) :
    Remembers t₀ (pre ++ es) s' ∧ ∀ a e b, es = a ++ e :: b → e.isValid = true →
      e.isDispatched = true ∨ SuppressedRepeat t₀ (pre ++ a) e := by
  induction hd generalizing pre with
  | nil s =>
    refine ⟨by rwa [List.append_nil], fun a e b he => ?_⟩
    cases a <;> cases he
  | fill b _ ih => exact ih ⟨h.valid, h.saved, h.fresh, h.timer⟩
  | deal hc hn hd _ ih =>
    have hone := h.dealt hc hn hd
    have hrest := ih hone.1
    refine ⟨by rw [List.append_cons]; exact hrest.1, ?_⟩
    intro a e' b he hv
    cases a with
    | nil =>
      obtain ⟨rfl, -⟩ := List.cons.inj he
      rw [List.append_nil]
      exact hone.2 hv
    | cons x a =>
      obtain ⟨rfl, hes⟩ := List.cons.inj he
      rw [List.append_cons]
      exact hrest.2 a e' b hes hv

/-- Valid packets are the ones whose frame verifies. -/
theorem validContent_eq {e : RecvEvent} (h : e.isValid = verified (packet .mcu e).frame) :
    validContent e = verifiedContent e := by
  unfold verifiedContent
  rw [← h]
  cases e with
  | checkFail c => rfl
  | dispatched c cb r => rfl
  | suppressed c now => rfl

/-- Every complete and verified status packet is dispatched or a suppressed
repeat, and after every run of reads the saved packet is the last valid one. -/
theorem suppressed_only_repeats (clock : ℕ → ℤ) {s₀ : Receiver} (hs : Idle .mcu s₀)
    (hlast : s₀.mLastRecv.len = 0) (chunks : List (List UInt8)) :
    ∃ s es, receive .mcu clock s₀ chunks = some (s, es) ∧
      (∀ pre e post, es = pre ++ e :: post → verified (packet .mcu e).frame = true →
        e.isDispatched = true ∨ SuppressedRepeat s₀.mLastDealDataTime pre e) ∧
      ∀ c, latest verifiedContent es = some c → SavedIs s c := by
  have hF : framing .mcu = some MCU2UI.framing := rfl
  obtain ⟨s, es, hrec, -, -, hdeals⟩ := receive_run hF clock (hs.ok _) chunks
  have h := Remembers.deals hdeals (Remembers.start hlast)
  rw [List.nil_append] at h
  refine ⟨s, es, hrec, ?_, ?_⟩
  · intro pre e post he hv
    have hval := hdeals.valid hF e (by rw [he]; exact List.mem_append_right pre List.mem_cons_self)
    exact h.2 pre e post he (hval.trans hv)
  · intro c hc
    have hval := latest_congr fun e he => validContent_eq (hdeals.valid hF e he)
    rw [← hval, h.1.valid] at hc
    exact h.1.saved c hc

/-- An idle status frame arrives three times. -/
theorem suppressed_only_repeats_new :
    ∃ s es, receive .mcu (fun _ => 5000) (newReceiver .mcu)
        (List.replicate 3 ([0x02, 0x10] ++ List.replicate 13 0 ++ [0x12])) = some (s, es) ∧
      (∀ pre e post, es = pre ++ e :: post → verified (packet .mcu e).frame = true →
        e.isDispatched = true ∨ SuppressedRepeat 0 pre e) ∧
      ∀ c, latest verifiedContent es = some c → SavedIs s c :=
  suppressed_only_repeats (fun _ => 5000) (newReceiver_idle .mcu) rfl _

end CdroidDemo.ReceiverRepeats
