import CdroidDemo.UartReceiver

/-!
# What the serial receiver delivers

Delivered frames are well-formed disjoint blocks of the received stream, a
frame behind noise is delivered exactly once, and the MCU receiver reads
every byte it is given. Two defects are characterised exactly: bytes behind
a frame that share its buffer are thrown away, and after a module header that
declares more than the buffer holds no frame is ever received again.
-/

namespace CdroidDemo.ReceiverFraming

open HeaderResync FramedReceiver PacketMemory BuffData PacketBuffer McuPackets TuyaPackets
open UartReceiver

/-- The header bytes of a packet type. -/
def header : BufferType → List UInt8
  | .mcu => MCU2UI.headByte
  | .tuyaMcu => TUYA2UI.headByte
  | _ => []

/-- A well-formed frame of a packet type. -/
def WellFormed : BufferType → List UInt8 → Prop
  | .mcu, f => f.length = 16 ∧ header .mcu <+: f ∧ verified f = true
  | .tuyaMcu, f => 7 ≤ f.length ∧ f.length ≤ 128 ∧ header .tuyaMcu <+: f ∧
      declaredLen f + 7 = f.length ∧ verified f = true
  | _, _ => False

instance : ∀ (t : BufferType) (f : List UInt8), Decidable (WellFormed t f)
  | .mcu, _ => inferInstanceAs (Decidable (_ ∧ _))
  | .tuyaMcu, _ => inferInstanceAs (Decidable (_ ∧ _))
  | .null, _ => inferInstanceAs (Decidable False)
  | .factory, _ => inferInstanceAs (Decidable False)

/-- The receiver with two buffers of its pool and nothing received yet. -/
structure Idle (t : BufferType) (s : Receiver) : Prop where
  /-- The current buffer has the size of its kind. -/
  curr : Sized t s.mCurrRecv
  /-- So has the last one. -/
  last : Sized t s.mLastRecv
  /-- The current buffer is empty. -/
  empty : s.mCurrRecv.len = 0

/-- The receiver that the constructor leaves. -/
def newReceiver (t : BufferType) : Receiver :=
  ⟨allocate t, allocate t, 0, 0, 0, 0, false⟩

/-- A new receiver is idle. -/
theorem newReceiver_idle (t : BufferType) : Idle t (newReceiver t) :=
  ⟨allocate_sized t, allocate_sized t, rfl⟩

/-- An idle receiver holds no bytes. -/
theorem Idle.content {t : BufferType} {s : Receiver} (h : Idle t s) : s.mCurrRecv.content = [] := by
  rw [BuffData.content, h.empty, List.take_zero]

/-- An idle receiver is in order. -/
theorem Idle.ok {t : BufferType} {s : Receiver} (h : Idle t s) (F : Framing UInt8) : s.Ok t F := by
  refine ⟨h.curr, h.last, Or.inl ?_, ?_⟩
  · rw [h.content, List.length_nil]
    exact Nat.zero_le _
  · rw [h.content]
    exact frameLen_nil F

/-- The framing of a type looks for its header, which never overlaps itself. -/
theorem framing_hdr {t : BufferType} {F : Framing UInt8} (hF : framing t = some F) :
    F.hdr = header t ∧ Unbordered F.hdr := by
  cases t with
  | null => cases hF
  | factory => cases hF
  | mcu => cases hF; exact ⟨rfl, unbordered_cons (by decide)⟩
  | tuyaMcu => cases hF; exact ⟨rfl, unbordered_cons (by decide)⟩

/-- Well-formed frames are the verified whole packets of the framing. -/
theorem wellFormed_iff {t : BufferType} {F : Framing UInt8} (hF : framing t = some F)
    {f : List UInt8} : WellFormed t f ↔ Whole F f ∧ verified f = true := by
  cases t with
  | null => cases hF
  | factory => cases hF
  | mcu =>
    cases hF
    rw [WellFormed, Whole, MCU2UI.frameLen_iff]
    constructor
    · intro ⟨hl, hh, hv⟩
      exact ⟨⟨⟨hl, hh, hl.ge⟩, hl.le.trans (by decide)⟩, hv⟩
    · intro ⟨⟨⟨hl, hh, _⟩, _⟩, hv⟩
      exact ⟨hl, hh, hv⟩
  | tuyaMcu =>
    cases hF
    rw [WellFormed, Whole, TUYA2UI.frameLen_iff]
    constructor
    · intro ⟨_, hle, hh, hd, hv⟩
      exact ⟨⟨⟨hd.symm, hh, le_rfl⟩, hle⟩, hv⟩
    · intro ⟨⟨⟨hd, hh, _⟩, hle⟩, hv⟩
      exact ⟨by omega, hle, hh, hd.symm, hv⟩

/-- A frame cut out of a completed content completes itself. -/
theorem frameLen_take {t : BufferType} {F : Framing UInt8} (hF : framing t = some F)
    {c : List UInt8} {n : ℕ} (hn : F.frameLen c = some n) :
    F.frameLen (c.take n) = some n := by
  have hle := F.frameLen_le hn
  have hlen : (c.take n).length = n := by
    rw [List.length_take]
    omega
  cases t with
  | null => cases hF
  | factory => cases hF
  | mcu =>
    cases hF
    obtain ⟨rfl, hh, -⟩ := MCU2UI.frameLen_iff.mp hn
    exact MCU2UI.frameLen_iff.mpr ⟨rfl, List.prefix_take_iff.mpr ⟨hh, by decide⟩, hlen.ge⟩
  | tuyaMcu =>
    cases hF
    obtain ⟨hd, hh, -⟩ := TUYA2UI.frameLen_iff.mp hn
    have htake := TUYA2UI.declaredLen_append (show 7 ≤ (c.take n).length by omega) (c.drop n)
    rw [List.take_append_drop] at htake
    have hhead : TUYA2UI.headByte.length ≤ n := by
      rw [hd]
      exact Nat.le_add_left_of_le (by decide)
    exact TUYA2UI.frameLen_iff.mpr
      ⟨htake ▸ hd, List.prefix_take_iff.mpr ⟨hh, hhead⟩, hlen.ge⟩

/-- Every valid frame of a run is well formed. -/
theorem valid_wellFormed {t : BufferType} {F : Framing UInt8} (hF : framing t = some F)
    {c c' : List UInt8} {es : List RecvEvent} {chunks : List (List UInt8)}
    (hrun : Run F c chunks (es.map (packet t)) c')
    (hv : ∀ e ∈ es, e.isValid = verified (packet t e).frame) :
    ∀ f ∈ validFrames t es, WellFormed t f := by
  intro f hf
  obtain ⟨e, he, rfl⟩ := List.mem_map.mp hf
  obtain ⟨hmem, hval⟩ := List.mem_filter.mp he
  have hp := List.mem_map_of_mem (f := packet t) hmem
  have hn := hrun.frameLen _ hp
  have hle := F.frameLen_le hn
  have hlen : (packet t e).frame.length = (packet t e).size := by
    rw [Packet.frame, List.length_take]
    omega
  rw [wellFormed_iff hF, Whole, hlen]
  exact ⟨⟨frameLen_take hF hn, hle.trans (hrun.content_le _ hp)⟩, (hv e hmem).symm.trans hval⟩

/-! ## Frames fed back to back -/

/-- Every frame that is neither the last one nor as long as the receive
buffer ends where a read ends. -/
def CutAtFrameEnds (t : BufferType) (frames chunks : List (List UInt8)) : Prop :=
  ∀ A f B, frames = A ++ f :: B → B ≠ [] → f.length < bufLen t →
    ∃ X Y, chunks = X ++ Y ∧ X.flatten = A.flatten ++ f

/-- A stream of well-formed frames is delivered unchanged exactly when every
frame shorter than the buffer, the last one apart, ends at the end of a read.
Otherwise `add` takes bytes of the next frame into the same buffer, and
`mCurrRecv->len = 0` throws them away with the completed frame. -/
theorem delivered_iff_cutAtFrameEnds {t : BufferType} (ht : t = .mcu ∨ t = .tuyaMcu)
    {s : Receiver} (hs : Idle t s) (clock : ℕ → ℤ) {frames chunks : List (List UInt8)}
    (hf : ∀ f ∈ frames, WellFormed t f) (hc : chunks.flatten = frames.flatten) :
    ∃ s' es, receive t clock s chunks = some (s', es) ∧
      (validFrames t es = frames ↔ CutAtFrameEnds t frames chunks) := by
  obtain ⟨F, hF⟩ := framing_exists ht
  obtain ⟨s', es, hrec, -, hrun, hdeals⟩ := receive_run hF clock (hs.ok F) chunks
  have hv := hdeals.valid hF
  refine ⟨s', es, hrec, ?_⟩
  rw [hs.content] at hrun
  have hpart : ∀ f ∈ frames.head?, ([] : List UInt8).length < f.length := fun f hhead =>
    F.frameLen_pos ((wellFormed_iff hF).mp (hf f (List.mem_of_mem_head? hhead))).1.1
  have hiff := hrun.accepted_iff verified (fun f hmem => (wellFormed_iff hF).mp (hf f hmem))
    (by rw [List.nil_append, hc]) hpart
  rw [validFrames_eq hv, hiff, EndsAtCuts, CutAtFrameEnds, framing_cap hF]
  simp only [List.nil_append]

/-- A status frame with a temperature. -/
def statusFrame (tem : UInt8) : List UInt8 :=
  [0x02, 0x10, 0, tem, 0, 0, 0, 0, 0, 0, 0, 0, 0, 0, 0, 0x12 + tem]

/-- Two frames in two reads are both delivered. -/
theorem delivered_one_frame_each_read :
    ∃ s' es, receive .mcu (fun _ => 0) (newReceiver .mcu) [statusFrame 20, statusFrame 25] =
        some (s', es) ∧
      (validFrames .mcu es = [statusFrame 20, statusFrame 25] ↔
        CutAtFrameEnds .mcu [statusFrame 20, statusFrame 25] [statusFrame 20, statusFrame 25]) :=
  delivered_iff_cutAtFrameEnds (Or.inl rfl) (newReceiver_idle .mcu) _ (by decide) rfl

/-- Two status frames in one read: the second one is lost. -/
theorem second_frame_of_read_lost :
    Idle .mcu (newReceiver .mcu) ∧
      (∀ f ∈ [statusFrame 20, statusFrame 25], WellFormed .mcu f) ∧
      (receive .mcu (fun _ => 0) (newReceiver .mcu) [statusFrame 20 ++ statusFrame 25]).map
        (fun r => validFrames .mcu r.2) = some [statusFrame 20] :=
  ⟨newReceiver_idle .mcu, by decide, by decide +kernel⟩

/-! ## No fabricated frames -/

/-- For every stream and every cutting the delivered frames are well formed
and occur in the stream as disjoint blocks, in stream order. -/
theorem delivered_blocks {t : BufferType} (ht : t = .mcu ∨ t = .tuyaMcu) {s : Receiver}
    (hs : Idle t s) (clock : ℕ → ℤ) (chunks : List (List UInt8)) :
    ∃ s' es, receive t clock s chunks = some (s', es) ∧
      Blocks (validFrames t es) chunks.flatten ∧
      ∀ f ∈ validFrames t es, header t <+: f ∧ f.length = frameSize t f ∧
        f.getLast? = some (byteSum f.dropLast) := by
  obtain ⟨F, hF⟩ := framing_exists ht
  obtain ⟨hhdr, -⟩ := framing_hdr hF
  obtain ⟨s', es, hrec, -, hrun, hdeals⟩ := receive_run hF clock (hs.ok F) chunks
  have hv := hdeals.valid hF
  refine ⟨s', es, hrec, ?_, ?_⟩
  · have hb := hrun.accepted_blocks verified
    rwa [hs.content, List.nil_append, ← validFrames_eq hv] at hb
  · intro f hf
    have hw := (wellFormed_iff hF).mp (valid_wellFormed hF hrun hv f hf)
    exact ⟨hhdr ▸ F.frameLen_hdr hw.1.1, frameSize_eq hF hw.1.1, of_decide_eq_true hw.2⟩

/-- Two frames behind noise, the first one cut in two, are both delivered. -/
theorem delivered_blocks_split_read :
    (receive .mcu (fun _ => 0) (newReceiver .mcu)
        [0x55 :: (statusFrame 20).take 5, (statusFrame 20).drop 5, statusFrame 25]).map
        (fun r => validFrames .mcu r.2) = some [statusFrame 20, statusFrame 25] ∧
      ∃ s' es, receive .mcu (fun _ => 0) (newReceiver .mcu)
          [0x55 :: (statusFrame 20).take 5, (statusFrame 20).drop 5, statusFrame 25] =
          some (s', es) ∧
        Blocks (validFrames .mcu es)
          [0x55 :: (statusFrame 20).take 5, (statusFrame 20).drop 5, statusFrame 25].flatten ∧
        ∀ f ∈ validFrames .mcu es, header .mcu <+: f ∧ f.length = frameSize .mcu f ∧
          f.getLast? = some (byteSum f.dropLast) :=
  ⟨by decide +kernel, delivered_blocks (Or.inl rfl) (newReceiver_idle .mcu) _
    [0x55 :: (statusFrame 20).take 5, (statusFrame 20).drop 5, statusFrame 25]⟩

/-! ## Noise in front of a frame -/

/-- Behind noise without a header a well-formed frame is completed and
delivered exactly once and unchanged, and the receiver is idle again. -/
theorem delivered_after_noise {t : BufferType} (ht : t = .mcu ∨ t = .tuyaMcu) {s : Receiver}
    (hs : Idle t s) (clock : ℕ → ℤ) {g f : List UInt8} (hg : ¬header t <:+: g)
    (hf : WellFormed t f) {chunks : List (List UInt8)} (hc : chunks.flatten = g ++ f) :
    ∃ s' es, receive t clock s chunks = some (s', es) ∧ validFrames t es = [f] ∧
      es.length = 1 ∧ s'.mRecvCount = s.mRecvCount + 1 ∧ s'.mCurrRecv.len = 0 := by
  obtain ⟨F, hF⟩ := framing_exists ht
  obtain ⟨hhdr, hu⟩ := framing_hdr hF
  obtain ⟨s', es, hrec, hok, hrun, hdeals⟩ := receive_run hF clock (hs.ok F) chunks
  have hv := hdeals.valid hF
  have hcount := hdeals.count
  obtain ⟨hw, hok'⟩ := (wellFormed_iff hF).mp hf
  have hpos : 0 < f.length := F.frameLen_pos hw.1
  rw [hs.content] at hrun
  obtain ⟨hes, hend⟩ := hrun.resynced hw
    (by rw [List.nil_append, hc]; exact resync_noise hu (hhdr ▸ hg) (F.frameLen_hdr hw.1)) hpos
  have hlen : es.length = 1 := by
    rw [← List.length_map, hes, List.length_singleton]
  refine ⟨s', es, hrec, ?_, hlen, by rw [hcount, hlen], ?_⟩
  · rw [validFrames_eq hv, hes]
    exact accepted_single hok'
  · rw [← content_length hok.curr.fits, hend, List.length_nil]

/-- A frame behind the start of a header is delivered. -/
theorem delivered_after_partial_header :
    ∃ s' es, receive .mcu (fun _ => 0) (newReceiver .mcu)
        [[0x55, 0x02], [0x02], (statusFrame 25).tail] = some (s', es) ∧
      validFrames .mcu es = [statusFrame 25] ∧ es.length = 1 ∧
      s'.mRecvCount = (newReceiver .mcu).mRecvCount + 1 ∧ s'.mCurrRecv.len = 0 :=
  delivered_after_noise (Or.inl rfl) (newReceiver_idle .mcu) _
    (show ¬header .mcu <:+: [0x55, 0x02] by decide) (by decide) rfl

/-! ## Full consumption by the MCU receiver -/

/-- Every run of reads succeeds, so that no access leaves a payload, and
every further read ends with all its bytes consumed and at most 15 of them
pending, aligned to the header when there are more than two. -/
theorem mcu_read_consumed {s₀ : Receiver} (hs : Idle .mcu s₀) (clock : ℕ → ℤ)
    (chunks : List (List UInt8)) :
    ∃ s es, receive .mcu clock s₀ chunks = some (s, es) ∧
      ∀ x, ∃ s' es', onUartData .mcu clock s x = some (s', x.length, es') ∧
        onRecvData .mcu clock s x = some (s', [], es'.length) ∧
        s'.mCurrRecv.slen = MCU2UI.bufLen ∧ s'.mCurrRecv.len ≤ 15 ∧
        (s'.mCurrRecv.len ≤ 2 ∨ MCU2UI.headByte <+: s'.mCurrRecv.content) := by
  obtain ⟨s, es, hrec, hok, -⟩ := receive_run (t := .mcu) rfl clock (hs.ok _) chunks
  refine ⟨s, es, hrec, fun x => ?_⟩
  obtain ⟨s', offset, es', hcall, h⟩ := onUartData_received (t := .mcu) rfl clock hok x
  have hlen := content_length h.ok.curr.fits
  have hshort : MCU2UI.headByte <+: s'.mCurrRecv.content → s'.mCurrRecv.len ≤ 15 := by
    intro hh
    by_contra hlong
    have hnone := h.ok.incomplete
    rw [MCU2UI.frameLen_iff.mpr ⟨rfl, hh, by omega⟩] at hnone
    cases hnone
  have hall : offset = x.length := by
    rcases h.consumed with hx | ⟨hfull, hh, -⟩
    · exact hx
    · have hle := hshort hh
      have hcap : MCU2UI.framing.cap = 32 := rfl
      omega
  subst hall
  refine ⟨s', es', hcall, ?_, h.ok.curr.slen, ?_, ?_⟩
  · have hn : s'.mRecvCount - s.mRecvCount = es'.length := by
      have := h.deals.count
      omega
    rw [onRecvData, hcall]
    simp only [Option.bind_eq_bind, Option.bind_some, Option.pure_def, hn]
  · rcases h.ok.aligned with ha | ha
    · rw [hlen] at ha
      exact ha.trans (by decide)
    · exact hshort ha
  · rw [← hlen]
    exact h.ok.aligned

/-- A receiver that has taken a frame consumes any further read. -/
theorem mcu_read_consumed_new :
    ∃ s es, receive .mcu (fun _ => 0) (newReceiver .mcu) [statusFrame 25] = some (s, es) ∧
      ∀ x, ∃ s' es', onUartData .mcu (fun _ => 0) s x = some (s', x.length, es') ∧
        onRecvData .mcu (fun _ => 0) s x = some (s', [], es'.length) ∧
        s'.mCurrRecv.slen = MCU2UI.bufLen ∧ s'.mCurrRecv.len ≤ 15 ∧
        (s'.mCurrRecv.len ≤ 2 ∨ MCU2UI.headByte <+: s'.mCurrRecv.content) :=
  mcu_read_consumed (newReceiver_idle .mcu) _ [statusFrame 25]

/-! ## The wedged module receiver -/

/-- The module receiver is not wedged. -/
structure CanReceive (clock : ℕ → ℤ) (s : Receiver) : Prop where
  /-- The receive buffer is not full. -/
  room : s.mCurrRecv.len < TUYA2UI.bufLen
  /-- Every call with bytes reads at least one of them. -/
  accepts : ∀ x ≠ [], ∃ s' offset es,
    onUartData .tuyaMcu clock s x = some (s', offset, es) ∧ 0 < offset
  /-- Behind some further reads every well-formed frame is delivered. -/
  delivers : ∀ f, WellFormed .tuyaMcu f → ∃ gs s₁ es₁ s₂ offset es₂,
    receive .tuyaMcu clock s gs = some (s₁, es₁) ∧
      onUartData .tuyaMcu clock s₁ f = some (s₂, offset, es₂) ∧ validFrames .tuyaMcu es₂ = [f]

/-- The bytes wedge the module receiver: the length field of the first header
in them, where bytes that are still missing count as 0, declares more data
than the buffer holds; or that header fits, and what follows the bytes that
share its buffer wedges the receiver. -/
inductive Oversized : List UInt8 → Prop
  /-- The first header announces too much. -/
  | here {s : List UInt8} (hh : TUYA2UI.headByte <+: resync TUYA2UI.headByte s)
      (hd : 121 < declaredLen (resync TUYA2UI.headByte s)) : Oversized s
  /-- A header behind it does. -/
  | later {s : List UInt8} (hd : declaredLen (resync TUYA2UI.headByte s) ≤ 121)
      (h : Oversized ((resync TUYA2UI.headByte s).drop TUYA2UI.bufLen)) : Oversized s

/-- A content never fits the buffer exactly when it begins with the header and
its length field already declares more than the buffer holds. -/
theorem doomed_iff_declares {c : List UInt8} :
    Doomed TUYA2UI.framing c ↔ TUYA2UI.headByte <+: c ∧ 121 < declaredLen c := by
  have hcap : TUYA2UI.framing.cap = 128 := rfl
  constructor
  · intro h
    refine ⟨h.1, ?_⟩
    by_contra hd
    have hfill := h.2 (List.replicate 128 0)
    have hsame : declaredLen ((c ++ List.replicate 128 0).take 128) = declaredLen c :=
      TUYA2UI.declaredLen_fill c
    have hlen : ((c ++ List.replicate 128 0).take 128).length = 128 := by
      rw [List.length_take, List.length_append, List.length_replicate]
      omega
    have hhead : TUYA2UI.headByte <+: (c ++ List.replicate 128 0).take 128 :=
      List.prefix_take_iff.mpr ⟨h.1.trans (List.prefix_append c _), by decide⟩
    rw [hcap, TUYA2UI.frameLen_iff.mpr ⟨rfl, hhead, by omega⟩] at hfill
    cases hfill
  · rintro ⟨hh, hd⟩
    refine ⟨hh, fun m => ?_⟩
    have hmono : declaredLen c ≤ declaredLen ((c ++ m).take 128) :=
      TUYA2UI.declaredLen_le_fill c m
    cases hn : TUYA2UI.framing.frameLen ((c ++ m).take TUYA2UI.framing.cap) with
    | none => rfl
    | some n =>
      obtain ⟨hn', -, hle⟩ := TUYA2UI.frameLen_iff.mp hn
      rw [List.length_take] at hle
      rw [hcap] at hn' hle
      omega

/-- The bytes doom the buffer of the framing exactly when they are oversized. -/
theorem dooms_iff_oversized {s : List UInt8} : Dooms TUYA2UI.framing s ↔ Oversized s := by
  constructor
  · intro h
    induction h with
    | here h =>
      obtain ⟨hh, hd⟩ := doomed_iff_declares.mp h
      exact Oversized.here hh hd
    | @later s n hn _ ih =>
      refine Oversized.later ?_ ih
      by_contra hd
      have hh : TUYA2UI.headByte <+: resync TUYA2UI.headByte s :=
        (TUYA2UI.framing.frameLen_hdr hn).trans (List.take_prefix _ _)
      have hnone := (doomed_iff_declares.mpr ⟨hh, Nat.lt_of_not_le hd⟩).incomplete
      exact absurd (hnone.symm.trans hn) (by simp)
  · intro h
    induction h with
    | here hh hd => exact Dooms.here (doomed_iff_declares.mpr ⟨hh, hd⟩)
    | @later s hd _ ih =>
      cases hn : TUYA2UI.framing.frameLen ((resync TUYA2UI.headByte s).take TUYA2UI.bufLen) with
      | some n => exact Dooms.later hn ih
      | none =>
        exfalso
        by_cases hh : TUYA2UI.headByte <+: resync TUYA2UI.headByte s
        · by_cases hl : TUYA2UI.bufLen < (resync TUYA2UI.headByte s).length
          · have hfull : ((resync TUYA2UI.headByte s).take TUYA2UI.bufLen).length = 128 := by
              rw [List.length_take, TUYA2UI.bufLen] at *
              omega
            have hsame := TUYA2UI.declaredLen_append
              (show 7 ≤ ((resync TUYA2UI.headByte s).take TUYA2UI.bufLen).length by omega)
              ((resync TUYA2UI.headByte s).drop TUYA2UI.bufLen)
            rw [List.take_append_drop] at hsame
            rw [TUYA2UI.frameLen_iff.mpr ⟨rfl, List.prefix_take_iff.mpr ⟨hh, by decide⟩,
              by omega⟩] at hn
            cases hn
          · rw [List.drop_eq_nil_of_le (by omega)] at ih
            exact not_dooms_nil ih
        · have hshort := resync_length_lt hh
          have hle : TUYA2UI.headByte.length ≤ TUYA2UI.bufLen := by decide
          rw [List.drop_eq_nil_of_le (by omega)] at ih
          exact not_dooms_nil ih

/-- A receiver whose pending bytes are not doomed reads on and delivers. -/
theorem canReceive_of_not_doomed {s : Receiver} (hok : s.Ok .tuyaMcu TUYA2UI.framing)
    (clock : ℕ → ℤ) (hd : ¬Doomed TUYA2UI.framing s.mCurrRecv.content) : CanReceive clock s := by
  have hF : framing .tuyaMcu = some TUYA2UI.framing := rfl
  have hlen := content_length hok.curr.fits
  have hfit : s.mCurrRecv.content.length ≤ TUYA2UI.framing.cap := by
    have hle : s.mCurrRecv.len ≤ s.mCurrRecv.slen := hok.curr.fits
    rw [hok.curr.slen] at hle
    rw [hlen]
    exact hle
  have hroom := length_lt_of_not_doomed hfit hok.aligned hok.incomplete hd
  refine ⟨?_, fun x hx => ?_, fun f hf => ?_⟩
  · rw [hlen] at hroom
    exact hroom
  · obtain ⟨s', offset, es, hcall, h⟩ := onUartData_received hF clock hok x
    exact ⟨s', offset, es, hcall, h.accepts hroom (List.length_pos_of_ne_nil hx)⟩
  · obtain ⟨g, hg⟩ := exists_cleared hfit hok.aligned hok.incomplete hd
    obtain ⟨s₁, es₁, hrec, hok₁, hrun, -⟩ := receive_run hF clock hok [g]
    obtain ⟨s₂, offset, es₂, hcall, h⟩ := onUartData_received hF clock hok₁ f
    obtain ⟨hw, hv⟩ := (wellFormed_iff hF).mp hf
    have hes := h.run.of_header_free (framing_hdr hF).2 (hg hrun) hw
    refine ⟨[g], s₁, es₁, s₂, offset, es₂, hrec, hcall, ?_⟩
    rw [validFrames_eq (h.deals.valid hF), hes]
    exact accepted_single hv

/-- A receiver whose pending bytes are doomed delivers nothing any more. -/
theorem not_canReceive_of_doomed {s : Receiver} (hok : s.Ok .tuyaMcu TUYA2UI.framing)
    (clock : ℕ → ℤ) (hd : Doomed TUYA2UI.framing s.mCurrRecv.content) : ¬CanReceive clock s := by
  have hF : framing .tuyaMcu = some TUYA2UI.framing := rfl
  intro h
  obtain ⟨gs, s₁, es₁, s₂, offset, es₂, hrec, hcall, hval⟩ :=
    h.delivers [0x55, 0xaa, 0x00, 0x00, 0x00, 0x00, 0xff] (by decide)
  obtain ⟨s', es, hall, -, hrun, -⟩ := receive_run hF clock hok (gs ++ [_])
  rw [receive_concat hrec hcall] at hall
  cases hall
  have hnone := List.map_eq_nil_iff.mp (hrun.of_doomed hd)
  rw [(List.append_eq_nil_iff.mp hnone).2] at hval
  cases hval

/-- A read leaves the receiver able to receive exactly when the bytes
available to it are not oversized. -/
theorem canReceive_step_iff {s : Receiver} (hok : s.Ok .tuyaMcu TUYA2UI.framing)
    {clock : ℕ → ℤ} {x : List UInt8} {s' : Receiver} {offset : ℕ} {es : List RecvEvent}
    (hcall : onUartData .tuyaMcu clock s x = some (s', offset, es)) :
    CanReceive clock s' ↔ ¬Oversized (s.mCurrRecv.content ++ x) := by
  obtain ⟨s₁, offset₁, es₁, hcall₁, h⟩ := onUartData_received (t := .tuyaMcu) rfl clock hok x
  rw [hcall] at hcall₁
  cases hcall₁
  have hfit : s.mCurrRecv.content.length ≤ TUYA2UI.framing.cap := by
    have hle : s.mCurrRecv.len ≤ s.mCurrRecv.slen := hok.curr.fits
    rw [hok.curr.slen] at hle
    rw [content_length hok.curr.fits]
    exact hle
  have hrun := h.run
  rw [List.drop_zero] at hrun
  rw [← dooms_iff_oversized, ← hrun.doomed_iff hfit hok.aligned hok.incomplete]
  exact ⟨fun hr hd => not_canReceive_of_doomed h.ok clock hd hr,
    canReceive_of_not_doomed h.ok clock⟩

/-- After every read of a run the module receiver has room, reads on and can
deliver a later well-formed frame exactly when no read of the run, together
with the bytes pending before it, is oversized. -/
theorem tuya_can_receive_iff {s₀ : Receiver} (hs : Idle .tuyaMcu s₀) (clock : ℕ → ℤ)
    (chunks : List (List UInt8)) :
    (∀ pre post s es, chunks = pre ++ post → receive .tuyaMcu clock s₀ pre = some (s, es) →
        CanReceive clock s) ↔
      ∀ pre x post s es, chunks = pre ++ x :: post →
        receive .tuyaMcu clock s₀ pre = some (s, es) → ¬Oversized (s.mCurrRecv.content ++ x) := by
  have hstep : ∀ pre x, ∃ s es s' offset es', receive .tuyaMcu clock s₀ pre = some (s, es) ∧
      s.Ok .tuyaMcu TUYA2UI.framing ∧ onUartData .tuyaMcu clock s x = some (s', offset, es') ∧
      receive .tuyaMcu clock s₀ (pre ++ [x]) = some (s', es ++ es') := by
    intro pre x
    obtain ⟨s, es, hrec, hok, -⟩ := receive_run (t := .tuyaMcu) rfl clock (hs.ok _) pre
    obtain ⟨s', offset, es', hcall, -⟩ := onUartData_received (t := .tuyaMcu) rfl clock hok x
    exact ⟨s, es, s', offset, es', hrec, hok, hcall, receive_concat hrec hcall⟩
  constructor
  · intro h pre x post s es hc hrec
    obtain ⟨s₁, es₁, s', offset, es', hrec₁, hok, hcall, hnext⟩ := hstep pre x
    rw [hrec] at hrec₁
    cases hrec₁
    exact (canReceive_step_iff hok hcall).mp
      (h (pre ++ [x]) post s' (es ++ es') (by rw [hc, List.append_assoc]; rfl) hnext)
  · intro h pre post s es hc hrec
    induction pre using List.reverseRecOn generalizing post s es with
    | nil =>
      cases hrec
      refine canReceive_of_not_doomed (hs.ok _) clock fun hd => ?_
      have hle := hd.1.length_le
      rw [hs.content] at hle
      exact absurd hle (by decide)
    | append_singleton pre x ih =>
      have hc' : chunks = pre ++ x :: post := by rw [hc, List.append_assoc]; rfl
      obtain ⟨s₁, es₁, s', offset, es', hrec₁, hok, hcall, hnext⟩ := hstep pre x
      rw [hrec] at hnext
      cases hnext
      exact (canReceive_step_iff hok hcall).mpr (h pre x post s₁ es₁ hc' hrec₁)

/-- A module header that declares 65535 data bytes, and 122 bytes behind it. -/
def oversizedFrame : List UInt8 := [0x55, 0xaa, 0x00, 0x00, 0xff, 0xff] ++ List.replicate 122 0

/-- The heartbeat frame of the module. -/
def heartbeatFrame : List UInt8 := [0x55, 0xaa, 0x00, 0x00, 0x00, 0x00, 0xff]

/-- The condition, read on a heartbeat followed by an oversized header. -/
theorem tuya_can_receive_heartbeat :
    (∀ pre post s es, [heartbeatFrame, oversizedFrame] = pre ++ post →
        receive .tuyaMcu (fun _ => 0) (newReceiver .tuyaMcu) pre = some (s, es) →
        CanReceive (fun _ => 0) s) ↔
      ∀ pre x post s es, [heartbeatFrame, oversizedFrame] = pre ++ x :: post →
        receive .tuyaMcu (fun _ => 0) (newReceiver .tuyaMcu) pre = some (s, es) →
        ¬Oversized (s.mCurrRecv.content ++ x) :=
  tuya_can_receive_iff (newReceiver_idle .tuyaMcu) _ [heartbeatFrame, oversizedFrame]

/-- A header whose length field is too large counts before it is full. -/
example : Oversized [0x10, 0x55, 0xaa, 0x00, 0x00, 0xff] := Oversized.here (by decide) (by decide)

/-- After one oversized header the buffer is full, and later frames are lost. -/
theorem oversized_header_wedges :
    Idle .tuyaMcu (newReceiver .tuyaMcu) ∧ WellFormed .tuyaMcu heartbeatFrame ∧
      (receive .tuyaMcu (fun _ => 0) (newReceiver .tuyaMcu) [oversizedFrame]).map
        (fun r => r.1.mCurrRecv.len) = some TUYA2UI.bufLen ∧
      (receive .tuyaMcu (fun _ => 0) (newReceiver .tuyaMcu)
        [oversizedFrame, heartbeatFrame, heartbeatFrame]).map
        (fun r => (r.1.mCurrRecv.len, validFrames .tuyaMcu r.2)) = some (TUYA2UI.bufLen, []) ∧
      ¬∀ chunks s es, receive .tuyaMcu (fun _ => 0) (newReceiver .tuyaMcu) chunks = some (s, es) →
        CanReceive (fun _ => 0) s := by
  have hfull : (receive .tuyaMcu (fun _ => 0) (newReceiver .tuyaMcu) [oversizedFrame]).map
      (fun r => r.1.mCurrRecv.len) = some TUYA2UI.bufLen := by decide +kernel
  refine ⟨newReceiver_idle .tuyaMcu, by decide, hfull, by decide +kernel, fun hall => ?_⟩
  obtain ⟨⟨s, es⟩, hrec, hlen⟩ := Option.map_eq_some_iff.mp hfull
  have hroom := (hall [oversizedFrame] s es hrec).room
  exact absurd hlen hroom.ne

end CdroidDemo.ReceiverFraming
