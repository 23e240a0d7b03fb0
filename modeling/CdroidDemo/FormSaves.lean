import CdroidDemo.FormTexts
import Mathlib.Data.List.DropRight

/-!
# What a form saves

A form keeps what it shows in its boxes and what it will save in
`tmp_if_SET_modedata`. Presses and picture changes update both, edits only the
boxes. What is saved is therefore what is shown exactly when no edit has
changed a value since it was last set.
-/

namespace CdroidDemo.FormSaves

open JsonText JsonFunc ModeStore WaterModePages FormTexts

/-- What the user does to a form. -/
inductive Input
  /-- A text is typed into a box. -/
  | edit (data : Box) (text : List Char)
  /-- A button is pressed. -/
  | press (b : Button)
  /-- The picture is pressed. -/
  | changePicture

/-- One input; a press may throw. -/
def act (f : Form) : Input → Option Form
  | .edit data text => some (f.setText data text)
  | .press b => press f b
  | .changePicture => some f.changePicture

/-- Inputs one after another. -/
def run (f : Form) (acts : List Input) : Option Form := acts.foldlM act f

/-- The form of a page that has just been opened. -/
def Opened (modeDataList : List ModeData) (position : ℤ) (f : Form) : Prop :=
  Form.startModify modeDataList position = some f ∨
    (position = -1 ∧ f = Form.startAdd modeDataList position)

/-- The mode that `updateModeDataByPos` has stored. -/
def stored (modeDataList : List ModeData) (position : ℤ) : Option ModeData :=
  if position = -1 then modeDataList.getLast? else modeDataList[position.toNat]?

/-- A decimal number. -/
def Decimal (s : List Char) (n : ℤ) : Prop :=
  ∃ digits, digits ≠ [] ∧ (∀ c ∈ digits, c.isDigit = true) ∧
    ((s = digits ∧ n = Nat.ofDigitChars 10 digits 0) ∨
      (s = '-' :: digits ∧ n = -(Nat.ofDigitChars 10 digits 0 : ℤ)))

/-- A text that shows a volume: a decimal number before the unit. -/
def ShowsVolume (text : List Char) (n : ℤ) : Prop := ∃ s, Decimal s n ∧ text = s ++ ['m', 'L']

/-- A mode is what a form shows: its name, the temperature before its unit,
the volume and the picture. -/
structure Shown (m : ModeData) (f : Form) : Prop where
  /-- The name is the one shown. -/
  modeName : m.modeName = f.displayName
  /-- The temperature is shown before its unit. -/
  temperature : f.displayTemp = m.temperature ++ ['℃']
  /-- The volume is the one shown. -/
  chuShuiLiang : ShowsVolume f.displayChushuiliang m.chuShuiLiang.toInt
  /-- The picture is the one shown. -/
  imageDir : m.imageDir = f.displayWaterPicture

/-- A mode has kept the other fields; an added one gets a position. -/
structure OthersKept (position : ℤ) (m₀ m : ModeData) : Prop where
  /-- The type stays. -/
  dataType : m.dataType = m₀.dataType
  /-- Whether the mode can be deleted stays. -/
  canDelete : m.canDelete = m₀.canDelete
  /-- A mode of the list keeps its position. -/
  dataPos : position ≠ -1 → m.dataPos = m₀.dataPos

/-! ## Edits that count -/

/-- The input is a press of a button beside the box. -/
def presses (box : Box) : Input → Bool
  | .press b => decide (b.box = box)
  | _ => false

/-- What the box showed after the last press, or when the page was opened. -/
def settledText (box : Box) (f : Form) (acts : List Input) : Option (List Char) :=
  (run f (acts.rdropWhile fun x => !presses box x)).map fun f => f.getText box

/-- The last edit of the box as an input changes it; a press ends it. -/
def noteEdit (box : Box) (e : Option (List Char)) : Input → Option (List Char)
  | .edit data text => if data = box then some text else e
  | .press b => if b.box = box then none else e
  | .changePicture => e

/-- The last edit of the box that no press has followed. -/
def lastEdit (box : Box) (acts : List Input) : Option (List Char) := acts.foldl (noteEdit box) none

/-- Two texts of a box stand for one value. -/
def SameValue : Box → List Char → List Char → Prop
  | .chushuiliang, s, t => ∃ n, ShowsVolume s n ∧ ShowsVolume t n
  | _, s, t => s = t

/-- Every edit that counts has left the value that was there before. -/
def EditsKeep (f : Form) (acts : List Input) : Prop :=
  ∀ box text, lastEdit box acts = some text →
    ∃ t, settledText box f acts = some t ∧ SameValue box text t

/-! ## Along the inputs -/

/-- The last input comes last. -/
theorem run_append (f : Form) (acts : List Input) (x : Input) :
    run f (acts ++ [x]) = (run f acts).bind fun g => act g x := by
  rw [run, List.foldlM_append]
  cases h : List.foldlM act f acts with
  | none => rw [run, h]; rfl
  | some g =>
    rw [run, h]
    exact bind_pure (act g x)

/-- It may be the last edit. -/
theorem lastEdit_append (box : Box) (acts : List Input) (x : Input) :
    lastEdit box (acts ++ [x]) = noteEdit box (lastEdit box acts) x := List.foldl_append

/-- The text of the value that a form will save for a box; the name is the one
of the mode it was opened for. -/
def valueText (m : ModeData) (f : Form) : Box → List Char
  | .temp => f.tmpIfSetModedata.temperature ++ ['℃']
  | .chushuiliang => stdToString f.tmpIfSetModedata.chuShuiLiang ++ ['m', 'L']
  | .name => m.modeName

/-- Setting a box changes no other. -/
@[simp] theorem getText_setText (f : Form) (data box : Box) (text : List Char) :
    (f.setText data text).getText box = if data = box then text else f.getText box := by
  cases data <;> cases box <;> rfl

/-- A press on the temperature sets and shows one number. -/
theorem addMinus_temp {f f' : Form} {mode : ℕ} {offset : Int32}
    (h : f.addMinus .temp mode offset 0 = some f') :
    ∃ t, f' = { f with
      displayTemp := t ++ ['℃']
      tmpIfSetModedata := { f.tmpIfSetModedata with temperature := t } } := by
  obtain ⟨n, -, he⟩ := Option.map_eq_some_iff.mp h
  exact ⟨_, he.symm⟩

/-- A press on the volume sets and shows one number. -/
theorem addMinus_chushuiliang {f f' : Form} {mode : ℕ} {offset : Int32}
    (h : f.addMinus .chushuiliang mode offset 1 = some f') :
    ∃ r, f' = { f with
      displayChushuiliang := stdToString r ++ ['m', 'L']
      tmpIfSetModedata := { f.tmpIfSetModedata with chuShuiLiang := r } } := by
  obtain ⟨n, -, he⟩ := Option.map_eq_some_iff.mp h
  exact ⟨_, he.symm⟩

/-- The value of one box is set and shown; the rest of the form stays. -/
structure Sets (m : ModeData) (data : Box) (f f' : Form) : Prop where
  /-- The mode that was opened stays. -/
  tmpModedata : f'.tmpModedata = f.tmpModedata
  /-- Its position stays. -/
  position : f'.position = f.position
  /-- The picture shown stays. -/
  picture : f'.displayWaterPicture = f.displayWaterPicture
  /-- The picture chosen stays. -/
  imageDir : f'.tmpIfSetModedata.imageDir = f.tmpIfSetModedata.imageDir
  /-- The box shows its value. -/
  shown : f'.getText data = valueText m f' data
  /-- The other boxes show what they showed. -/
  text : ∀ box, data ≠ box → f'.getText box = f.getText box
  /-- The other values stay. -/
  value : ∀ box, data ≠ box → valueText m f' box = valueText m f box

/-- A press sets the text and the value of one box. -/
theorem press_sets {f f' : Form} {b : Button} (h : press f b = some f') (m : ModeData) :
    Sets m b.box f f' := by
  have htemp : ∀ {mode : ℕ} {offset : Int32}, f.addMinus .temp mode offset 0 = some f' →
      Sets m .temp f f' := by
    intro mode offset h
    obtain ⟨t, rfl⟩ := addMinus_temp h
    refine ⟨rfl, rfl, rfl, rfl, rfl, fun box hb => ?_, fun box hb => ?_⟩ <;>
    · cases box <;> first | rfl | exact absurd rfl hb
  have hvolume : ∀ {mode : ℕ} {offset : Int32}, f.addMinus .chushuiliang mode offset 1 = some f' →
      Sets m .chushuiliang f f' := by
    intro mode offset h
    obtain ⟨r, rfl⟩ := addMinus_chushuiliang h
    refine ⟨rfl, rfl, rfl, rfl, rfl, fun box hb => ?_, fun box hb => ?_⟩ <;>
    · cases box <;> first | rfl | exact absurd rfl hb
  cases b with
  | minusTemp => exact htemp h
  | addTemp => exact htemp h
  | minusChushuiliang => exact hvolume h
  | addChushuiliang => exact hvolume h

/-- A change of the picture shows what it sets. -/
theorem changePicture_spec {f : Form} (m : ModeData)
    (h : f.displayWaterPicture = f.tmpIfSetModedata.imageDir) :
    f.changePicture.tmpModedata = f.tmpModedata ∧ f.changePicture.position = f.position ∧
      f.changePicture.displayWaterPicture = f.changePicture.tmpIfSetModedata.imageDir ∧
      ∀ box, f.changePicture.getText box = f.getText box ∧
        valueText m f.changePicture box = valueText m f box := by
  unfold Form.changePicture
  split
  · exact ⟨rfl, rfl, h, fun box => ⟨rfl, rfl⟩⟩
  · refine ⟨rfl, rfl, rfl, fun box => ?_⟩
    cases box <;> exact ⟨rfl, rfl⟩

/-- How a form stands to the inputs since it was opened for a mode. -/
structure Follows (m : ModeData) (f : Form) (acts : List Input) (g : Form) : Prop where
  /-- The mode that was opened stays. -/
  tmpModedata : g.tmpModedata = m
  /-- Its position stays. -/
  position : g.position = f.position
  /-- The value of a box is what the inputs made of it. -/
  settled : ∀ box, settledText box f acts = some (valueText m g box)
  /-- A box shows its last edit, or else its value. -/
  text : ∀ box, g.getText box = (lastEdit box acts).getD (valueText m g box)
  /-- The picture shown is the one chosen. -/
  picture : g.displayWaterPicture = g.tmpIfSetModedata.imageDir

/-- A form that shows a mode has no inputs yet. -/
theorem follows_nil (m : ModeData) (position : ℤ) :
    Follows m (Form.showMode m position) [] (Form.showMode m position) where
  tmpModedata := rfl
  position := rfl
  settled box := by cases box <;> rfl
  text box := by cases box <;> rfl
  picture := rfl

/-- One more input keeps what a form follows, -/
theorem Follows.step {m : ModeData} {f g g' : Form} {acts : List Input} (h : Follows m f acts g)
    (hr : run f acts = some g) {x : Input} (hx : act g x = some g') :
    Follows m f (acts ++ [x]) g' := by
  have hrun : run f (acts ++ [x]) = some g' := by
    rw [run_append, hr]
    exact hx
  have hsettled : ∀ box, settledText box f (acts ++ [x]) =
      if presses box x then some (g'.getText box) else settledText box f acts := by
    intro box
    unfold settledText
    rw [List.rdropWhile_concat]
    cases presses box x with
    | true => rw [Bool.not_true, if_neg Bool.false_ne_true, hrun]; rfl
    | false => rw [Bool.not_false, if_pos rfl]; rfl
  cases x with
  | edit data text =>
    cases hx
    have hvalue : ∀ box, valueText m (g.setText data text) box = valueText m g box := by
      intro box
      cases data <;> cases box <;> rfl
    have hsame : (g.setText data text).tmpModedata = g.tmpModedata ∧
        (g.setText data text).position = g.position ∧
        (g.setText data text).displayWaterPicture = g.displayWaterPicture ∧
        (g.setText data text).tmpIfSetModedata = g.tmpIfSetModedata := by
      cases data <;> exact ⟨rfl, rfl, rfl, rfl⟩
    refine ⟨hsame.1.trans h.tmpModedata, hsame.2.1.trans h.position, fun box => ?_,
      fun box => ?_, ?_⟩
    · rw [hsettled, hvalue]
      exact h.settled box
    · rw [getText_setText, lastEdit_append, hvalue, noteEdit]
      split
      · rfl
      · exact h.text box
    · rw [hsame.2.2.1, hsame.2.2.2]
      exact h.picture
  | press b =>
    have hp := press_sets hx m
    refine ⟨hp.tmpModedata.trans h.tmpModedata, hp.position.trans h.position, fun box => ?_,
      fun box => ?_, ?_⟩
    · rw [hsettled, presses]
      by_cases hb : b.box = box
      · rw [if_pos (decide_eq_true hb), ← hb, hp.shown]
      · rw [if_neg (by simpa using hb), hp.value box hb]
        exact h.settled box
    · rw [lastEdit_append, noteEdit]
      by_cases hb : b.box = box
      · rw [if_pos hb, ← hb, hp.shown]
        rfl
      · rw [if_neg hb, hp.text box hb, hp.value box hb]
        exact h.text box
    · rw [hp.picture, hp.imageDir]
      exact h.picture
  | changePicture =>
    cases hx
    obtain ⟨htmp, hpos, hpic, hbox⟩ := changePicture_spec m h.picture
    refine ⟨htmp.trans h.tmpModedata, hpos.trans h.position, fun box => ?_, fun box => ?_, hpic⟩
    · rw [hsettled, (hbox box).2]
      exact h.settled box
    · rw [lastEdit_append, (hbox box).1, (hbox box).2]
      exact h.text box

/-- and so do all of them. -/
theorem run_follows {m : ModeData} {position : ℤ} {acts : List Input} {g : Form}
    (h : run (Form.showMode m position) acts = some g) :
    Follows m (Form.showMode m position) acts g := by
  induction acts using List.reverseRecOn generalizing g with
  | nil =>
    cases h
    exact follows_nil m position
  | append_singleton acts x ih =>
    rw [run_append] at h
    obtain ⟨g₀, hg, hx⟩ := Option.bind_eq_some_iff.mp h
    exact (ih hg).step hg hx

/-! ## Shown volumes -/

/-- An `int` is written as a decimal number. -/
theorem decimal_stdToString (x : Int32) : Decimal (stdToString x) x.toInt := by
  refine ⟨Nat.toDigits 10 x.toInt.natAbs, Nat.toDigits_ne_nil, toDigits_isDigit _, ?_⟩
  rw [Nat.ofDigitChars_ten_toDigits]
  unfold stdToString
  split
  · exact Or.inr ⟨rfl, by omega⟩
  · exact Or.inl ⟨rfl, by omega⟩

/-- A text is one decimal number, -/
theorem Decimal.unique {s : List Char} {n k : ℤ} (hn : Decimal s n) (hk : Decimal s k) : n = k := by
  obtain ⟨d, hd₀, hd, hn⟩ := hn
  obtain ⟨e, he₀, he, hk⟩ := hk
  have hminus : ∀ {d e : List Char}, (∀ c ∈ d, c.isDigit = true) → d ≠ '-' :: e := by
    intro d e hd he
    have := hd '-' (by rw [he]; exact List.mem_cons_self)
    exact absurd this (by decide)
  rcases hn with ⟨rfl, rfl⟩ | ⟨rfl, rfl⟩
  · rcases hk with ⟨rfl, rfl⟩ | ⟨rfl, rfl⟩
    · rfl
    · exact absurd rfl (hminus hd)
  · rcases hk with ⟨rfl, rfl⟩ | ⟨h, rfl⟩
    · exact absurd rfl (hminus he)
    · cases h
      rfl

/-- and shows one volume. -/
theorem ShowsVolume.unique {text : List Char} {n k : ℤ} (hn : ShowsVolume text n)
    (hk : ShowsVolume text k) : n = k := by
  obtain ⟨s, hs, rfl⟩ := hn
  obtain ⟨s', hs', he⟩ := hk
  rw [← List.append_cancel_right he] at hs'
  exact hs.unique hs'

/-- A volume is shown by its number and unit. -/
theorem showsVolume_stdToString (x : Int32) : ShowsVolume (stdToString x ++ ['m', 'L']) x.toInt :=
  ⟨_, decimal_stdToString x, rfl⟩

/-- What is shown of a value stands for it. -/
theorem sameValue_valueText (m : ModeData) (f : Form) (box : Box) :
    SameValue box (valueText m f box) (valueText m f box) := by
  cases box with
  | temp => exact rfl
  | chushuiliang => exact ⟨_, showsVolume_stdToString _, showsVolume_stdToString _⟩
  | name => exact rfl

/-! ## Saving -/

/-- What `confirm` takes over is shown exactly when every box shows its value. -/
theorem shown_iff {m m' : ModeData} {g : Form} (hname : m'.modeName = m.modeName)
    (htemp : m'.temperature = g.tmpIfSetModedata.temperature)
    (hvol : m'.chuShuiLiang = g.tmpIfSetModedata.chuShuiLiang)
    (hpic : m'.imageDir = g.displayWaterPicture) :
    Shown m' g ↔ ∀ box, SameValue box (g.getText box) (valueText m g box) := by
  constructor
  · intro h box
    cases box with
    | temp =>
      have ht := h.temperature
      rwa [htemp] at ht
    | chushuiliang => exact ⟨_, h.chuShuiLiang, hvol ▸ showsVolume_stdToString _⟩
    | name => exact h.modeName.symm.trans hname
  · intro h
    refine ⟨hname.trans (h .name).symm, ?_, ?_, hpic⟩
    · rw [htemp]
      exact h .temp
    · obtain ⟨n, hn, hk⟩ := h .chushuiliang
      have he := hk.unique (showsVolume_stdToString g.tmpIfSetModedata.chuShuiLiang)
      rw [hvol, ← he]
      exact hn

/-- The boxes show their values exactly when the edits keep them. -/
theorem Follows.sameValue_iff {m : ModeData} {f g : Form} {acts : List Input}
    (h : Follows m f acts g) :
    (∀ box, SameValue box (g.getText box) (valueText m g box)) ↔ EditsKeep f acts := by
  constructor
  · intro hs box text he
    refine ⟨_, h.settled box, ?_⟩
    have hb := hs box
    rwa [h.text box, he, Option.getD_some] at hb
  · intro hk box
    rw [h.text box]
    cases he : lastEdit box acts with
    | none => exact sameValue_valueText m g box
    | some text =>
      obtain ⟨t, ht, hs⟩ := hk box text he
      rw [h.settled box] at ht
      cases ht
      exact hs

/-- An opened form shows its mode. -/
theorem Opened.eq_showMode {modes : List ModeData} {position : ℤ} {f : Form}
    (h : Opened modes position f) : f = Form.showMode f.tmpModedata position := by
  rcases h with h | ⟨rfl, rfl⟩
  · obtain ⟨i, -, h⟩ := Option.bind_eq_some_iff.mp h
    obtain ⟨m, -, rfl⟩ := Option.map_eq_some_iff.mp h
    rfl
  · rfl

/-- The stored mode is the one that was saved, apart from the position of an
added mode. -/
theorem stored_updated {modes modes' : List ModeData} {m : ModeData} {position : ℤ}
    (h : updatedModes modes m position = some modes') :
    ∃ dataPos, stored modes' position = some { m with dataPos } ∧
      (position ≠ -1 → dataPos = m.dataPos) := by
  unfold updatedModes at h
  unfold stored
  split at h
  · rename_i hp
    cases h
    rw [if_pos hp, List.getLast?_append]
    exact ⟨_, rfl, fun hne => absurd hp hne⟩
  · rename_i hp
    obtain ⟨i, hi, rfl⟩ := Option.map_eq_some_iff.mp h
    unfold index at hi
    split at hi
    · rename_i hr
      cases hi
      rw [if_neg hp, List.getElem?_set_self (by omega)]
      exact ⟨m.dataPos, rfl, fun _ => rfl⟩
    · cases hi

/-- After any inputs on either page, `bt_confirm` stores what is shown, with
the other fields kept, exactly when every edit that counts has left its value. -/
theorem saved_as_shown_iff {modes modes' modes'' : List ModeData} {position : ℤ} {f g : Form}
    {acts : List Input} (ho : Opened modes position f) (hr : run f acts = some g)
    (hu : updatedModes modes' g.confirm.tmpModedata g.confirm.position = some modes'') :
    ∃ m, stored modes'' position = some m ∧
      (Shown m g ∧ OthersKept position f.tmpModedata m ↔ EditsKeep f acts) := by
  have he := ho.eq_showMode
  have hf : Follows f.tmpModedata f acts g := by
    rw [he] at hr ⊢
    exact run_follows hr
  have hpos : g.confirm.position = position := by
    have hp : f.position = position := congrArg Form.position he
    exact hf.position.trans hp
  rw [hpos] at hu
  obtain ⟨dataPos, hm, hkept⟩ := stored_updated hu
  refine ⟨_, hm, ?_⟩
  have hothers : OthersKept position f.tmpModedata { g.confirm.tmpModedata with dataPos } := by
    rw [← hf.tmpModedata]
    exact ⟨rfl, rfl, hkept⟩
  have hname : g.tmpModedata.modeName = f.tmpModedata.modeName := by rw [hf.tmpModedata]
  have hshown : Shown { g.confirm.tmpModedata with dataPos } g ↔
      ∀ box, SameValue box (g.getText box) (valueText f.tmpModedata g box) :=
    shown_iff hname rfl rfl hf.picture.symm
  rw [← hf.sameValue_iff, ← hshown]
  exact and_iff_left hothers

/-- The temperature of the third mode is edited and then lowered, its name is
written again, and the picture is changed. -/
def editedInputs : List Input :=
  [.edit .temp "60℃".toList, .press .minusTemp, .edit .name "沸水".toList, .changePicture]

/-- All edits count for nothing, and what is shown is saved. -/
theorem saved_as_shown_iff_lowered :
    ∃ f g modes m, Opened localModes 2 f ∧ run f editedInputs = some g ∧
      stored modes 2 = some m ∧ m.temperature = "59".toList ∧ Shown m g ∧
      OthersKept 2 f.tmpModedata m := by
  have ho : Opened localModes 2 (Form.showMode (localModes.get ⟨2, by decide⟩) 2) := Or.inl rfl
  have hr : run (Form.showMode (localModes.get ⟨2, by decide⟩) 2) editedInputs = some _ := rfl
  obtain ⟨m, hm, hiff⟩ := saved_as_shown_iff ho hr (rfl : updatedModes localModes _ _ = some _)
  have ht : m.temperature = "59".toList := by
    rw [← Option.some.inj hm]
    rfl
  have hkeep : EditsKeep (Form.showMode (localModes.get ⟨2, by decide⟩) 2) editedInputs := by
    intro box text hlast
    cases box with
    | temp | chushuiliang => cases hlast
    | name =>
      cases hlast
      exact ⟨_, rfl, rfl⟩
  obtain ⟨hshown, hothers⟩ := hiff.mpr hkeep
  exact ⟨_, _, _, m, ho, hr, hm, ht, hshown, hothers⟩

/-- The name and the temperature of the third mode are edited, and the old
ones are saved. -/
theorem edits_not_saved :
    ∃ f g modes m, Opened localModes 2 f ∧
      run f [.edit .name "热水".toList, .edit .temp "60℃".toList] = some g ∧
      updatedModes localModes g.confirm.tmpModedata g.confirm.position = some modes ∧
      stored modes 2 = some m ∧ g.displayName = "热水".toList ∧ m.modeName = "沸水".toList ∧
      g.displayTemp = "60℃".toList ∧ m.temperature = "98".toList ∧ ¬Shown m g := by
  have ho : Opened localModes 2 _ := Or.inl rfl
  refine ⟨_, _, _, _, ho, rfl, rfl, rfl, rfl, rfl, rfl, rfl, fun h => ?_⟩
  exact absurd h.modeName (by decide)

end CdroidDemo.FormSaves
