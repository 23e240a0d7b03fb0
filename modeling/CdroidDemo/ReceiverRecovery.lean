import CdroidDemo.CheckCodes
import CdroidDemo.ReceiverFraming
import CdroidDemo.SpacedEvents

/-!
# Damaged frames and noise

A frame with a damaged byte is dropped alone. A read that is a whole frame
brings the MCU receiver back into step, whatever came before it.
-/

namespace CdroidDemo.ReceiverRecovery

open HeaderResync FramedReceiver PacketMemory BuffData PacketBuffer McuPackets TuyaPackets
open UartReceiver ReceiverFraming SpacedEvents CheckCodes

/-- The header and the length of a frame are right. -/
def Framed : BufferType → List UInt8 → Prop
  | .mcu, f => f.length = 16 ∧ header .mcu <+: f
  | .tuyaMcu, f => f.length ≤ 128 ∧ header .tuyaMcu <+: f ∧ declaredLen f + 7 = f.length
  | _, _ => False

instance : ∀ (t : BufferType) (f : List UInt8), Decidable (Framed t f)
  | .mcu, _ => inferInstanceAs (Decidable (_ ∧ _))
  | .tuyaMcu, _ => inferInstanceAs (Decidable (_ ∧ _))
  | .null, _ => inferInstanceAs (Decidable False)
  | .factory, _ => inferInstanceAs (Decidable False)

variable {t : BufferType} {F : Framing UInt8} {f g : List UInt8}

/-- A framed byte string is a whole frame of the framing. -/
theorem framed_iff (hF : framing t = some F) : Framed t f ↔ Whole F f := by
  cases t with
  | null => cases hF
  | factory => cases hF
  | mcu =>
    cases hF
    rw [Framed, Whole, MCU2UI.frameLen_iff]
    constructor
    · rintro ⟨hl, hh⟩
      exact ⟨⟨hl, hh, hl.ge⟩, hl.le.trans (by decide)⟩
    · rintro ⟨⟨hl, hh, -⟩, -⟩
      exact ⟨hl, hh⟩
  | tuyaMcu =>
    cases hF
    rw [Framed, Whole, TUYA2UI.frameLen_iff]
    constructor
    · rintro ⟨hle, hh, hd⟩
      exact ⟨⟨hd.symm, hh, le_rfl⟩, hle⟩
    · rintro ⟨⟨hd, hh, -⟩, hle⟩
      exact ⟨hle, hh, hd.symm⟩

/-- A well-formed frame is a framed one whose check code holds. -/
theorem framed_and_verified (ht : t = .mcu ∨ t = .tuyaMcu) :
    WellFormed t f ↔ Framed t f ∧ verified f = true := by
  obtain ⟨F, hF⟩ := framing_exists ht
  rw [wellFormed_iff hF, framed_iff hF]

/-! ## Failures in a row -/

/-- `mChkErrCount` counts the packets at the end that failed the check. -/
theorem dealt_failures {now : ℤ} {n : ℕ} {s s' : Receiver} {e : RecvEvent}
    (h : Dealt t now n s s' e) :
    s'.mChkErrCount = if !e.isValid then s.mChkErrCount + 1 else 0 := by
  cases h <;> rfl

/-- The error count is the number of bad frames at the end. -/
theorem deals_failures (pre : List RecvEvent) {clock : ℕ → ℤ} {s s' : Receiver}
    {es : List RecvEvent} (h : Deals t F clock s es s')
    (hs : s.mChkErrCount = trailing (fun e => !e.isValid) pre) :
    s'.mChkErrCount = trailing (fun e => !e.isValid) (pre ++ es) := by
  induction h generalizing pre with
  | nil s =>
    rw [List.append_nil]
    exact hs
  | fill b _ ih => exact ih pre hs
  | @deal s s₁ s' e es n _ _ hd _ ih =>
    rw [List.append_cons]
    refine ih _ ?_
    rw [dealt_failures hd, hs, trailing_concat]

/-! ## Frames in a row -/

/-- The frame of an event. -/
def frameOf (t : BufferType) (e : RecvEvent) : List UInt8 := (packet t e).frame

/-- Frames cut at their ends are all completed, checked or not. -/
theorem completed_frames (hF : framing t = some F) {s : Receiver} (hs : Idle t s) (clock : ℕ → ℤ)
    {frames chunks : List (List UInt8)} (hf : ∀ f ∈ frames, Framed t f)
    (hc : chunks.flatten = frames.flatten) (hcut : CutAtFrameEnds t frames chunks) :
    ∃ s' es, receive t clock s chunks = some (s', es) ∧ Deals t F clock s es s' ∧
      es.map (frameOf t) = frames ∧ validFrames t es = frames.filter verified := by
  obtain ⟨s', es, hrec, -, hrun, hdeals⟩ := receive_run hF clock (hs.ok F) chunks
  rw [hs.content] at hrun
  have hwhole : ∀ f ∈ frames, Whole F f := fun f hmem => (framed_iff hF).mp (hf f hmem)
  have hpart : ∀ f ∈ frames.head?, ([] : List UInt8).length < f.length := fun f hhead =>
    F.frameLen_pos (hwhole f (List.mem_of_mem_head? hhead)).1
  have hiff := hrun.accepted_iff (fun _ => true) (fun f hmem => ⟨hwhole f hmem, rfl⟩)
    (by rw [List.nil_append, hc]) hpart
  have hall : (es.map (packet t)).map Packet.frame = frames := by
    rw [← hiff.mpr ?_, accepted, List.filter_true]
    intro A f B he hB hf
    exact hcut A f B he hB (framing_cap hF ▸ hf)
  refine ⟨s', es, hrec, hdeals, ?_, ?_⟩
  · rw [← hall, List.map_map]
    rfl
  · rw [validFrames_eq (hdeals.valid hF), accepted, hall]

/-! ## Damaged bytes -/

/-- What arrives for a frame: the frame, or the frame with another value for
one byte that is not one of its header or its length field. -/
inductive Arrives (t : BufferType) (f : List UInt8) : List UInt8 → Prop
  /-- The frame arrives as it was sent. -/
  | intact : Arrives t f f
  /-- One byte arrives with another value. -/
  | damaged {i : ℕ} {v : UInt8} (hi : i < f.length) (hh : (header t).length ≤ i)
      (hl : t = .tuyaMcu → i ≠ 4 ∧ i ≠ 5) (hv : f[i]? ≠ some v) : Arrives t f (f.set i v)

/-- A header in front of the changed byte stays. -/
theorem prefix_set {h : List UInt8} {i : ℕ} {v : UInt8} (hp : h <+: f) (hi : h.length ≤ i) :
    h <+: f.set i v := by
  obtain ⟨r, rfl⟩ := hp
  rw [List.set_append_right i v hi]
  exact List.prefix_append _ _

/-- Another value for one byte of a verified frame is found out. -/
theorem verified_set {i : ℕ} {v : UInt8} (hf : verified f = true) (hi : i < f.length)
    (hv : f[i]? ≠ some v) : verified (f.set i v) = false := by
  have hsum : f.getLast? = some (byteSum f.dropLast) := of_decide_eq_true hf
  rw [List.getLast?_eq_getElem?] at hsum
  refine decide_eq_false ?_
  rw [List.getLast?_eq_getElem?, List.length_set, List.dropLast_eq_take, List.length_set]
  rw [List.dropLast_eq_take] at hsum
  by_cases hlast : i = f.length - 1
  · rw [hlast, List.take_set_of_le le_rfl, List.getElem?_set_self (by omega)]
    rw [hlast, hsum] at hv
    exact fun h => hv h.symm
  · rw [List.getElem?_set_ne hlast, hsum, List.take_set]
    refine fun h => byteSum_set_ne ?_ ?_ (Option.some.inj h).symm
    · rw [List.length_take]
      omega
    · rw [List.getElem?_take, if_pos (by omega)]
      exact hv

/-- A byte changed outside the header and the length keeps the frame. -/
theorem framed_set {i : ℕ} {v : UInt8} (hf : Framed t f) (hh : (header t).length ≤ i)
    (hl : t = .tuyaMcu → i ≠ 4 ∧ i ≠ 5) : Framed t (f.set i v) := by
  cases t with
  | null => exact hf
  | factory => exact hf
  | mcu => exact ⟨(List.length_set).trans hf.1, prefix_set hf.2 hh⟩
  | tuyaMcu =>
    obtain ⟨hle, hp, hd⟩ := hf
    refine ⟨(List.length_set).trans_le hle, prefix_set hp hh, ?_⟩
    rw [declaredLen_set (hl rfl).1 (hl rfl).2, List.length_set, hd]

/-- The check accepts exactly the frames that arrive unchanged. -/
theorem Arrives.spec (ha : Arrives t f g) (ht : t = .mcu ∨ t = .tuyaMcu) (hf : WellFormed t f) :
    Framed t g ∧ verified g = decide (f = g) := by
  obtain ⟨hframed, hv⟩ := (framed_and_verified ht).mp hf
  cases ha with
  | intact => exact ⟨hframed, by rw [hv, decide_eq_true rfl]⟩
  | @damaged i v hi hh hl hne =>
    refine ⟨framed_set hframed hh hl, ?_⟩
    rw [verified_set hv hi hne, eq_comm, decide_eq_false_iff_not]
    intro he
    rw [he, List.getElem?_set_self hi] at hne
    exact hne rfl

/-- The frames that arrived unchanged. -/
def undamaged (sent got : List (List UInt8)) : List (List UInt8) :=
  ((sent.zip got).filter fun p => p.1 = p.2).map Prod.fst

/-- What arrives is framed, and verified exactly where it is undamaged. -/
theorem arrived_spec (ht : t = .mcu ∨ t = .tuyaMcu) {sent got : List (List UInt8)}
    (ha : List.Forall₂ (Arrives t) sent got) (hf : ∀ f ∈ sent, WellFormed t f) :
    (∀ g ∈ got, Framed t g) ∧ got.filter verified = undamaged sent got ∧
      got.map verified = (sent.zip got).map fun p => decide (p.1 = p.2) := by
  induction ha with
  | nil => exact ⟨fun _ h => (nomatch h), rfl, rfl⟩
  | @cons f g sent got h _ ih =>
    obtain ⟨hframed, hv⟩ := h.spec ht (hf f List.mem_cons_self)
    obtain ⟨ih₁, ih₂, ih₃⟩ := ih fun f' h' => hf f' (List.mem_cons_of_mem f h')
    refine ⟨List.forall_mem_cons.mpr ⟨hframed, ih₁⟩, ?_, ?_⟩
    · rw [undamaged, List.zip_cons_cons, List.filter_cons, List.filter_cons, hv, ih₂]
      by_cases he : f = g
      · rw [if_pos (decide_eq_true he), if_pos (decide_eq_true he), List.map_cons, undamaged, he]
      · rw [if_neg (by simpa using he), if_neg (by simpa using he), undamaged]
    · rw [List.map_cons, List.zip_cons_cons, List.map_cons, hv, ih₃]

/-- With frames cut at their ends damage stays with its frame: the frames that
arrive unchanged are delivered in order, and the others are counted as errors. -/
theorem damaged_frames_dropped_alone (ht : t = .mcu ∨ t = .tuyaMcu) {s : Receiver}
    (hs : Idle t s) (hz : s.mChkErrCount = 0) (clock : ℕ → ℤ) {sent got chunks : List (List UInt8)}
    (hf : ∀ f ∈ sent, WellFormed t f) (ha : List.Forall₂ (Arrives t) sent got)
    (hc : chunks.flatten = got.flatten) (hcut : CutAtFrameEnds t got chunks) :
    ∃ s' es, receive t clock s chunks = some (s', es) ∧
      validFrames t es = undamaged sent got ∧ s'.mRecvCount = s.mRecvCount + sent.length ∧
      s'.mChkErrCount = trailing (fun p => !decide (p.1 = p.2)) (sent.zip got) := by
  obtain ⟨F, hF⟩ := framing_exists ht
  obtain ⟨hframed, hkept, hverified⟩ := arrived_spec ht ha hf
  obtain ⟨s', es, hrec, hdeals, hall, hvalid⟩ := completed_frames hF hs clock hframed hc hcut
  refine ⟨s', es, hrec, hvalid.trans hkept, ?_, ?_⟩
  · rw [hdeals.count, ← List.length_map (f := frameOf t), hall, ha.length_eq]
  · have hkinds : es.map RecvEvent.isValid = (sent.zip got).map fun p => decide (p.1 = p.2) := by
      rw [← hverified, ← hall, List.map_map]
      exact List.map_congr_left fun e he => hdeals.valid hF e he
    rw [deals_failures [] hdeals hz, List.nil_append, ← trailing_map RecvEvent.isValid not,
      hkinds, trailing_map]

/-- One frame in each read. -/
theorem cut_each_read (frames : List (List UInt8)) : CutAtFrameEnds t frames frames := by
  intro A f B he _ _
  refine ⟨A ++ [f], B, ?_, ?_⟩
  · rw [he, ← List.append_cons]
  · rw [List.flatten_append, List.flatten_singleton]

/-- The second of three frames is damaged. -/
theorem damaged_frames_dropped_alone_second :
    ∃ s' es, receive .mcu (fun _ => 0) (newReceiver .mcu)
        [statusFrame 20, (statusFrame 25).set 3 99, statusFrame 30] = some (s', es) ∧
      validFrames .mcu es = undamaged [statusFrame 20, statusFrame 25, statusFrame 30]
        [statusFrame 20, (statusFrame 25).set 3 99, statusFrame 30] ∧
      s'.mRecvCount = 3 ∧
      s'.mChkErrCount = trailing (fun p => !decide (p.1 = p.2))
        ([statusFrame 20, statusFrame 25, statusFrame 30].zip
          [statusFrame 20, (statusFrame 25).set 3 99, statusFrame 30]) :=
  damaged_frames_dropped_alone (Or.inl rfl) (newReceiver_idle .mcu) rfl (fun _ => 0) (by decide)
    (.cons .intact (.cons (.damaged (by decide) (by decide) (by decide) (by decide))
      (.cons .intact .nil))) rfl (cut_each_read _)

/-! ## Coming back into step -/

/-- A read that is a whole frame completes exactly one packet and leaves an
empty buffer; without a pending header the packet is the frame. -/
theorem read_frame {s : Receiver} (hs : s.Ok .mcu MCU2UI.framing) (clock : ℕ → ℤ)
    (hf : Framed .mcu f) :
    ∃ s' offset e, onUartData .mcu clock s f = some (s', offset, [e]) ∧ Idle .mcu s' ∧
      (¬header .mcu <+: s.mCurrRecv.content → frameOf .mcu e = f) := by
  obtain ⟨s', offset, es, hcall, h⟩ := onUartData_received (t := .mcu) rfl clock hs f
  have hrun := h.run
  rw [List.drop_zero] at hrun
  have hlen : f.length = 16 := hf.1
  have hne : f ≠ [] := fun h => by rw [h, List.length_nil] at hlen; omega
  have hidle : s'.mCurrRecv.content = [] → Idle .mcu s' := fun hnil =>
    ⟨h.ok.curr, h.ok.last, by rw [← content_length h.ok.curr.fits, hnil, List.length_nil]⟩
  by_cases hh : header .mcu <+: s.mCurrRecv.content
  · have hshort : s.mCurrRecv.content.length < 16 := by
      by_contra hlong
      have hnone := hs.incomplete
      rw [MCU2UI.frameLen_iff.mpr ⟨rfl, hh, by omega⟩] at hnone
      cases hnone
    have hfull : MCU2UI.framing.frameLen (s.mCurrRecv.content ++ f) = some 16 :=
      MCU2UI.frameLen_iff.mpr ⟨rfl, hh.trans (List.prefix_append _ _), by
        rw [List.length_append]; omega⟩
    have hfit : (s.mCurrRecv.content ++ f).length ≤ MCU2UI.framing.cap := by
      have hcap : MCU2UI.framing.cap = 32 := rfl
      rw [List.length_append]
      omega
    generalize hpk : es.map (packet .mcu) = ps at hrun
    cases hrun with
    | skip => exact absurd rfl hne
    | stop _ hsync hn _ =>
      rw [(hsync.of_header (hh.trans (List.prefix_append _ _))).1, List.take_of_length_le hfit,
        hfull] at hn
      cases hn
    | frame _ hsync hn hrest =>
      rw [(hsync.of_header (hh.trans (List.prefix_append _ _))).2,
        List.drop_eq_nil_of_le hfit] at hrest
      obtain ⟨rfl, hend⟩ := hrest.of_empty rfl
      obtain ⟨e, rfl, -⟩ := List.map_eq_singleton_iff.mp hpk
      exact ⟨s', offset, e, hcall, hidle hend, fun hn => absurd hh hn⟩
  · have hsmall : s.mCurrRecv.content.length ≤ 2 := hs.aligned.resolve_right hh
    have hnoise : ¬header .mcu <:+: s.mCurrRecv.content := fun hin => by
      have hle : s.mCurrRecv.content.length ≤ (header .mcu).length := hsmall
      exact hh (hin.eq_of_length_le hle ▸ List.prefix_rfl)
    have hwhole : Whole MCU2UI.framing f := (framed_iff (t := .mcu) rfl).mp hf
    obtain ⟨hes, hend⟩ := hrun.resynced hwhole
      (by
        rw [List.flatten_singleton]
        exact resync_noise (framing_hdr (t := .mcu) rfl).2 hnoise hf.2)
      ((resync_length_le _ _).trans_lt (by omega))
    obtain ⟨e, rfl, he⟩ := List.map_eq_singleton_iff.mp hes
    refine ⟨s', offset, e, hcall, hidle hend, fun _ => ?_⟩
    rw [frameOf, he, Packet.frame, List.take_length]

/-- Runs of reads compose. -/
theorem receive_append {clock : ℕ → ℤ} {s s₁ s₂ : Receiver} {xs ys : List (List UInt8)}
    {es gs : List RecvEvent} (h : receive t clock s xs = some (s₁, es))
    (h' : receive t clock s₁ ys = some (s₂, gs)) :
    receive t clock s (xs ++ ys) = some (s₂, es ++ gs) := by
  induction xs generalizing s es with
  | nil =>
    cases h
    exact h'
  | cons x xs ih =>
    rw [receive] at h
    obtain ⟨⟨s', offset, as⟩, hx, h⟩ := Option.bind_eq_some_iff.mp h
    obtain ⟨⟨s'', bs⟩, hxs, h⟩ := Option.bind_eq_some_iff.mp h
    cases h
    rw [List.cons_append, receive, hx]
    simp only [Option.bind_eq_bind, Option.bind_some, ih hxs, Option.pure_def, List.append_assoc]

/-- Whatever was read before, a read that is a whole frame costs at most this
frame: everything sent behind it is completed as sent and delivered when it
verifies. The frame itself is completed unless a header was pending. -/
theorem in_step_after_one_read {s : Receiver} (hs : Idle .mcu s) (clock : ℕ → ℤ)
    (noise : List (List UInt8)) (hf : Framed .mcu f) {frames chunks : List (List UInt8)}
    (hframes : ∀ g ∈ frames, Framed .mcu g) (hc : chunks.flatten = frames.flatten)
    (hcut : CutAtFrameEnds .mcu frames chunks) :
    ∃ s₁ before s' e after, receive .mcu clock s noise = some (s₁, before) ∧
      receive .mcu clock s (noise ++ f :: chunks) = some (s', before ++ e :: after) ∧
      (¬header .mcu <+: s₁.mCurrRecv.content → frameOf .mcu e = f) ∧
      after.map (frameOf .mcu) = frames ∧ validFrames .mcu after = frames.filter verified := by
  obtain ⟨s₁, before, hnoise, hok, -⟩ := receive_run (t := .mcu) rfl clock (hs.ok _) noise
  obtain ⟨s₂, offset, e, hcall, hidle, hkept⟩ := read_frame hok clock hf
  obtain ⟨s', after, hrest, -, hall, hvalid⟩ :=
    completed_frames (t := .mcu) rfl hidle clock hframes hc hcut
  refine ⟨s₁, before, s', e, after, hnoise, receive_append hnoise ?_, hkept, hall, hvalid⟩
  rw [receive, hcall]
  simp only [Option.bind_eq_bind, Option.bind_some, hrest]
  rfl

/-- A frame is lost behind the head of another one; the next two arrive. -/
theorem in_step_after_one_read_cut_frame :
    ∃ s₁ before s' e after,
      receive .mcu (fun _ => 0) (newReceiver .mcu) [[0x55], (statusFrame 20).take 7] =
        some (s₁, before) ∧
      receive .mcu (fun _ => 0) (newReceiver .mcu)
          ([[0x55], (statusFrame 20).take 7] ++
            statusFrame 20 :: [statusFrame 25, statusFrame 30]) =
        some (s', before ++ e :: after) ∧
      (¬header .mcu <+: s₁.mCurrRecv.content → frameOf .mcu e = statusFrame 20) ∧
      after.map (frameOf .mcu) = [statusFrame 25, statusFrame 30] ∧
      validFrames .mcu after = [statusFrame 25, statusFrame 30].filter verified :=
  in_step_after_one_read (newReceiver_idle .mcu) (fun _ => 0) [[0x55], (statusFrame 20).take 7]
    (by decide) (by decide) rfl (cut_each_read _)

end CdroidDemo.ReceiverRecovery
