import CdroidDemo.ScreenChanges
import CdroidDemo.StoreRestarts

/-!
# The screen over restarts

Whatever is done at the screen, the store has what a shelf says: a listener
changes the list at the place its card or its form stands for, and the texts of
a form need no escape. The program may end at any time, also by an exception of
a save, and start again on the file that is left.
-/

namespace CdroidDemo.UiSessions

open Windows Windows.WindMgr PageWindows PageCoherence JsonText JsonWriter JsonFunc ModeStore
open ModeEncoding ModeRestart StoreRestarts StepRuns ScreenChanges WaterModePages
open WaterModePages.Ui

variable {j : JsonCpp}

/-! ## Cards -/

/-- `MyViewHolder`: what its views show, and what its listeners have captured. -/
structure MyViewHolder where
  /-- The number of the row. -/
  modeNo : List Char
  /-- The name. -/
  modeName : List Char
  /-- The temperature. -/
  modeTemperatureNum : List Char
  /-- The volume. -/
  modeChushuiliangNum : List Char
  /-- The picture. -/
  modeImage : List Char
  /-- The picture of the left arrow. -/
  picDownLeft : List Char
  /-- The picture of the right arrow. -/
  picDownRight : List Char
  /-- The margin before the card. -/
  marginStart : ℤ
  /-- The margin behind it. -/
  marginEnd : ℤ
  /-- The delete button is shown. -/
  deleteVisible : Bool
  /-- The position of the listeners of the arrows and of the upper part. -/
  position : ℕ
  /-- The position of the listener of the delete button, once it has one. -/
  deletePosition : Option ℕ

/-- The texts and the picture that `onBindViewHolder` sets. -/
def setTexts (holder : MyViewHolder) (m : ModeData) : MyViewHolder :=
  { holder with
    modeNo := if 0 ≤ m.dataPos ∧ m.dataPos < 10 then '0' :: stdToString m.dataPos
      else stdToString m.dataPos
    modeName := m.modeName
    modeTemperatureNum := m.temperature ++ ['℃']
    modeChushuiliangNum := stdToString m.chuShuiLiang ++ ['m', 'L']
    modeImage := m.imageDir }

/-- The arrows and the margins that `onBindViewHolder` sets. -/
def setArrows (size : ℕ) (holder : MyViewHolder) (position : ℕ) : MyViewHolder :=
  if position = 0 then
    { holder with
      picDownLeft := "@mipmap/icon_noleft".toList
      marginStart := 48
      marginEnd := 0 }
  else if position = size - 1 then
    { holder with
      picDownRight := "@mipmap/icon_noright".toList
      marginStart := 20
      marginEnd := 52 }
  else
    { holder with
      marginStart := 20
      marginEnd := 0
      picDownLeft := "@mipmap/icon_left".toList
      picDownRight := "@mipmap/icon_right".toList }

/-- `onBindViewHolder`. -/
def onBindViewHolder (modeDataList : List ModeData) (holder : MyViewHolder) (position : ℕ) :
    Option MyViewHolder :=
  modeDataList[position]?.map fun m =>
    let holder := { setArrows modeDataList.length (setTexts holder m) position with position }
    if m.canDelete = 0 then { holder with deleteVisible := false }
    else { holder with deleteVisible := true, deletePosition := some position }

/-! ## Pop-up pages -/

/-- What `PopPage` shows. -/
structure PopPage where
  /-- The name. -/
  popModeName : List Char
  /-- The temperature. -/
  popModeTemp : List Char
  /-- The volume. -/
  popModeChuShui : List Char
  deriving DecidableEq

/-- The constructor of `PopPage`. -/
def PopPage.create (m : ModeData) : PopPage :=
  ⟨m.modeName, m.temperature, stdToString m.chuShuiLiang⟩

/-- The program with what its pop-up page shows. -/
structure Screen (j : JsonCpp) where
  /-- The program. -/
  ui : Ui j
  /-- The pop-up page, if one was made. -/
  pop : Option PopPage

/-- The pop-up page behind an action: a new one reads the list. -/
def popAfter (s : Screen j) (ui : Ui j) : Option PopPage :=
  match ui.curShowPoppage with
  | none => none
  | some e =>
    if s.ui.curShowPoppage.isSome then s.pop
    else ((index ui.conf.modeDataList (popPosition e)).bind fun i =>
      ui.conf.modeDataList[i]?).map PopPage.create

/-- One action. -/
def Screen.step (a : SaveAccess) (s : Screen j) (x : Action) : Except Fault (Screen j) :=
  (s.ui.step a x).map fun ui => ⟨ui, popAfter s ui⟩

/-- The program has started. -/
def Screen.start (conf : CConfMgr j) (node : Node) : Screen j := ⟨Ui.start conf node, none⟩

/-! ## Lives -/

/-- The program is used, ended and started again, and with it what happens to
its store. The list stays short enough for its positions. -/
inductive Life (sort : List ModeData → List ModeData) (s₀ : Screen j) :
    List Happening → Screen j → Prop
  /-- Nothing has happened. -/
  | start : Life sort s₀ [] s₀
  /-- The program is used. -/
  | action {xs : List Happening} {s s' : Screen j} {a : SaveAccess} {x : Action}
      (h : Life sort s₀ xs s) (hx : Delivered s.ui x)
      (hlen : s.ui.conf.modeDataList.length + 1 < 2 ^ 31) (hs : s.step a x = .ok s') :
      Life sort s₀ (xs ++ ((changeOf s.ui x).map fun c => .change c a).toList) s'
  /-- It ends between two changes. -/
  | restart {xs : List Happening} {s : Screen j} {b : InitAccess} {conf : CConfMgr j} {node : Node}
      (h : Life sort s₀ xs s)
      (hi : CConfMgr.init j sort b (.new j) s.ui.node = some (conf, node)) :
      Life sort s₀ (xs ++ [.restart b]) (.start conf node)
  /-- It ends by the exception of a save. -/
  | fault {xs : List Happening} {s : Screen j} {a : SaveAccess} {x : Action} {c : Change}
      {r : CConfMgr j × Saved} {b : InitAccess} {conf : CConfMgr j} {node : Node}
      (h : Life sort s₀ xs s) (hx : Delivered s.ui x)
      (hlen : s.ui.conf.modeDataList.length + 1 < 2 ^ 31) (hc : changeOf s.ui x = some c)
      (hr : s.ui.conf.change a s.ui.node c = some r) (hs : r.2.saved = none)
      (hi : CConfMgr.init j sort b (.new j) r.2.node = some (conf, node)) :
      Life sort s₀ (xs ++ [.change c a, .restart b]) (.start conf node)

/-! ## What an action does to the store -/

section Store

variable {sort : List ModeData → List ModeData} {s s' : Ui j} {a : SaveAccess} {x : Action}

/-- What an action does to the store and its file. -/
def StoreRun (sort : List ModeData → List ModeData) (a : SaveAccess) (s : Ui j) (x : Action)
    (s' : Ui j) : Prop :=
  run (storeStep sort) (s.conf, s.node) ((changeOf s x).map fun c => .change c a).toList =
    some (s'.conf, s'.node)

/-- An action does to the store what its change says, and nothing without one. -/
theorem step_store (h : s.step a x = .ok s') : StoreRun sort a s x s' := by
  have hstored := step_stored h
  unfold StoreRun
  cases hc : changeOf s x with
  | none =>
    rw [hc] at hstored
    obtain ⟨hconf, hnode⟩ := hstored
    rw [hconf, hnode]
    rfl
  | some c =>
    rw [hc] at hstored
    obtain ⟨r, hr, -, hconf, hnode⟩ := hstored
    have hstep : storeStep sort (s.conf, s.node) (.change c a) = some (r.1, r.2.node) := by
      rw [storeStep, hr]
      rfl
    rw [hconf, hnode]
    exact run_cons hstep

end Store

/-! ## Forms -/

/-- What a form saves needs no escape. -/
structure CleanForm (f : Form) : Prop where
  /-- The mode that was opened is clean. -/
  mode : CleanMode f.tmpModedata
  /-- So is the temperature set. -/
  temperature : Clean f.tmpIfSetModedata.temperature
  /-- So is the picture chosen. -/
  imageDir : Clean f.tmpIfSetModedata.imageDir

/-- Confirming a clean form makes a clean mode. -/
theorem CleanForm.confirm {f : Form} (h : CleanForm f) : CleanMode f.confirm.tmpModedata :=
  ⟨h.mode.1, h.imageDir, h.mode.2.2.1, h.temperature⟩

/-- The form of a clean mode is clean. -/
theorem cleanForm_showMode {m : ModeData} (h : CleanMode m) (position : ℤ) :
    CleanForm (Form.showMode m position) :=
  ⟨h, h.2.2.2, h.2.1⟩

/-- A new mode is clean. -/
theorem newMode_clean (size : ℕ) : CleanMode (Form.newMode size) := by
  have hall : CleanMode (Form.newMode 0) := by decide
  exact hall

/-- The pictures offered have clean names. -/
theorem imageDirs_clean (k : ℕ) : Clean (imageDirs.getD k []) := by
  have hall : ∀ d ∈ imageDirs, Clean d := by decide
  rw [List.getD_eq_getElem?_getD]
  cases hd : imageDirs[k]? with
  | none => exact fun c hc => absurd hc List.not_mem_nil
  | some d => exact hall d (List.mem_of_getElem? hd)

/-- Typing keeps a form clean. -/
theorem CleanForm.setText {f : Form} (h : CleanForm f) (data : Box) (text : List Char) :
    CleanForm (f.setText data text) := by
  cases data <;> exact ⟨h.mode, h.temperature, h.imageDir⟩

/-- Pressing plus or minus keeps a form clean. -/
theorem CleanForm.addMinus {f f' : Form} (h : CleanForm f) {data : Box} {mode item : ℕ}
    {offset : Int32} (hf : f.addMinus data mode offset item = some f') : CleanForm f' := by
  obtain ⟨n, -, he⟩ := Option.map_eq_some_iff.mp hf
  dsimp only at he
  split at he
  · rw [← he]
    refine CleanForm.setText ?_ data _
    exact ⟨h.mode, clean_stdToString _, h.imageDir⟩
  · rw [← he]
    refine CleanForm.setText ?_ data _
    exact ⟨h.mode, h.temperature, h.imageDir⟩

/-- Changing the picture keeps a form clean. -/
theorem CleanForm.changePicture {f : Form} (h : CleanForm f) : CleanForm f.changePicture := by
  unfold Form.changePicture
  split
  · exact h
  · exact ⟨h.mode, h.temperature, imageDirs_clean _⟩

/-- The form of the page that is shown: it can be saved, and that of a modify
page holds the mode at its position. -/
structure FormFits (s : Ui j) (id : ℕ) : Prop where
  /-- A form that can be saved is clean. -/
  clean : (s.wind.page id).type = .waterModify ∨ (s.wind.page id).type = .waterAdd →
    CleanForm (s.form id)
  /-- The modify page edits the mode at its position. -/
  mode : (s.wind.page id).type = .waterModify →
    At s.conf.modeDataList (s.form id).position fun m => m = (s.form id).tmpModedata

/-- The form of the page that is shown fits. -/
def Formed (s : Ui j) : Prop := ∀ id, s.wind.curShowpage = some id → FormFits s id

/-- Other pages have no form. -/
theorem formed_of_type {s : Ui j} {type : PageType} (h : s.wind.curType = some type)
    (hm : type ≠ .waterModify) (ha : type ≠ .waterAdd) : Formed s := by
  intro id hid
  have ht : (s.wind.page id).type = type := Option.some.inj ((curType_eq hid).symm.trans h)
  refine ⟨fun hor => ?_, fun hmod => absurd (ht.symm.trans hmod) hm⟩
  rcases hor with hmod | hadd
  · exact absurd (ht.symm.trans hmod) hm
  · exact absurd (ht.symm.trans hadd) ha

/-- The page asked for is shown. -/
theorem showPage_type {s s' : Ui j} {type : PageType} {mode position : ℤ}
    (hk : known type = true) (h : s.showPage type mode position = .ok s') :
    s'.wind.curType = some type := by
  by_cases hc : s.wind.curType = some type
  · cases showPage_current hc h
    exact hc
  · obtain ⟨wind, id, hstart, hid, htype⟩ := showPage_started hk hc h
    rw [(startPage_frame hstart).1]
    change wind.curType = some type
    rw [curType_eq hid, htype]

/-- A page that is started shows a mode of the list, or a new one. -/
theorem startPage_formed {s s' : Ui j} {id : ℕ} {type : PageType} {position : ℤ}
    (hclean : ∀ m ∈ s.conf.modeDataList, CleanMode m) (hid : s.wind.curShowpage = some id)
    (htype : (s.wind.page id).type = type) (h : s.startPage type id position = .ok s') :
    Formed s' := by
  have hcur : s'.wind.curType = some type := by
    rw [(startPage_frame h).1, curType_eq hid, htype]
  cases type with
  | waterModify =>
    unfold startPage Form.startModify at h
    dsimp only at h
    cases hi : index s.conf.modeDataList position with
    | none =>
      rw [hi] at h
      cases h
    | some i =>
      rw [hi, Option.bind_some] at h
      cases hm : s.conf.modeDataList[i]? with
      | none =>
        rw [hm] at h
        cases h
      | some m =>
        rw [hm] at h
        cases h
        intro k hk
        cases hid.symm.trans hk
        refine ⟨fun _ => ?_, fun _ => ?_⟩
        · simp only [Function.update_self]
          exact cleanForm_showMode (hclean m (List.mem_of_getElem? hm)) position
        · simp only [Function.update_self]
          exact ⟨i, m, hi, hm, rfl⟩
  | waterAdd =>
    cases h
    intro k hk
    cases hid.symm.trans hk
    refine ⟨fun _ => ?_, fun hmod => ?_⟩
    · simp only [Function.update_self]
      exact cleanForm_showMode (newMode_clean _) position
    · exact absurd (htype.symm.trans hmod) (by decide)
  | none | home | steamBarbecue | waterModeLayout | other value =>
    exact formed_of_type hcur PageType.noConfusion PageType.noConfusion

/-- The form of a page just shown fits. -/
theorem showPage_formed {s s' : Ui j} {type : PageType} {mode position : ℤ}
    (hk : known type = true) (hclean : ∀ m ∈ s.conf.modeDataList, CleanMode m) (hf : Formed s)
    (h : s.showPage type mode position = .ok s') : Formed s' := by
  by_cases hc : s.wind.curType = some type
  · cases showPage_current hc h
    exact hf
  · obtain ⟨wind, id, hstart, hid, htype⟩ := showPage_started hk hc h
    exact startPage_formed (s := { s with wind }) hclean hid htype hstart

/-- The form of the page that is shown is edited. -/
theorem editForm_formed {s s' : Ui j} (hf : Formed s) {id : ℕ}
    (hid : s.wind.curShowpage = some id) {f : Option Form}
    (hkeeps : ∀ f', f = some f' → Keeps (s.form id) f')
    (hclean : ∀ f', f = some f' → CleanForm (s.form id) → CleanForm f')
    (h : s.editForm id f = .ok s') : Formed s' := by
  cases f with
  | none => cases h
  | some f' =>
    cases h
    intro k hk
    cases hid.symm.trans hk
    obtain ⟨hpos, htmp⟩ := hkeeps f' rfl
    obtain ⟨hok, hmode⟩ := hf id hid
    refine ⟨fun hor => ?_, fun hmod => ?_⟩
    · simp only [Function.update_self]
      exact hclean f' rfl (hok hor)
    · simp only [Function.update_self, hpos, htmp]
      exact hmode hmod

/-! ## Actions -/

section Step

variable {s s' : Ui j} {a : SaveAccess} {x : Action}

/-- The list page is shown behind a change. -/
theorem list_formed {c : Change} {s₂ : Ui j}
    (h : ((s.changeModes a c).bind fun s => s.showPage .waterModeLayout 1 (-1)) = .ok s₂) :
    Formed s₂ := by
  obtain ⟨s₁, -, hlist⟩ := ok_of_bind h
  exact formed_of_type (showPage_type rfl hlist) PageType.noConfusion PageType.noConfusion

/-- The list page stays behind a change by one of its cards. -/
theorem refresh_formed {c : Change} {id : ℕ} {s₂ : Ui j}
    (ht : s.wind.curType = some .waterModeLayout)
    (h : ((s.changeModes a c).map fun s => s.refresh id) = .ok s₂) : Formed s₂ := by
  obtain ⟨s₁, h₁, rfl⟩ := ok_of_map h
  obtain ⟨r, -, -, rfl⟩ := changeModes_ok h₁
  exact formed_of_type ht PageType.noConfusion PageType.noConfusion

/-- The form of the page shown fits behind a pop-up page. -/
theorem showPopPage_formed {e : EnterCallback} {position : ℤ} (hf : Formed s)
    (h : s.showPopPage e position = .ok s') : Formed s' := by
  unfold Ui.showPopPage at h
  split at h
  · cases h
    exact hf
  · split at h
    · cases h
    · cases h
      intro id hid
      exact ⟨(hf id hid).clean, (hf id hid).mode⟩

/-- The form of the page shown fits after a click. -/
theorem click_formed (hco : Coherent s) (hclean : ∀ m ∈ s.conf.modeDataList, CleanMode m)
    (hf : Formed s) {id : ℕ} (hid : s.wind.curShowpage = some id) {c : Click}
    (ho : s.offers id c = true) (h : s.click a id c = .ok s') : Formed s' := by
  cases c with
  | steam | cloudRecipe | home | back | add | card => exact showPage_formed rfl hclean hf h
  | left p =>
    obtain ⟨ht, -, -⟩ := hco.card_inside hid ho
    simp only [Ui.click] at h
    split at h
    · exact refresh_formed ((curType_eq hid).trans (congrArg some ht)) h
    · cases h
      exact hf
  | right p =>
    obtain ⟨ht, -, -⟩ := hco.card_inside hid ho
    simp only [Ui.click] at h
    split at h
    · exact refresh_formed ((curType_eq hid).trans (congrArg some ht)) h
    · cases h
      exact hf
  | deleteCard | delete => exact showPopPage_formed hf h
  | minusTemp | addTemp | minusChushuiliang | addChushuiliang =>
    exact editForm_formed hf hid (fun f' hf' => keeps_addMinus hf')
      (fun f' hf' hok => hok.addMinus hf') h
  | changePicture =>
    exact editForm_formed hf hid (fun f' hf' => Option.some.inj hf' ▸ keeps_changePicture _)
      (fun f' hf' hok => Option.some.inj hf' ▸ hok.changePicture) h
  | edit data text =>
    exact editForm_formed hf hid (fun f' hf' => Option.some.inj hf' ▸ keeps_setText _ _ _)
      (fun f' hf' hok => Option.some.inj hf' ▸ hok.setText data text) h
  | confirm => exact list_formed h

/-- Clocks and the delayed close leave the form of the page shown. -/
theorem Formed.sameFrame (hf : Formed s) {wind : WindMgr} (hs : SameFrame s.wind wind) :
    Formed { s with wind } := by
  intro id hid
  obtain ⟨hclean, hmode⟩ := hf id (hs.cur ▸ hid)
  rw [← hs.type id] at hclean hmode
  exact ⟨hclean, hmode⟩

/-- The form of the page shown fits after every delivered action. -/
theorem step_formed (hco : Coherent s) (hclean : ∀ m ∈ s.conf.modeDataList, CleanMode m)
    (hf : Formed s) (hx : Delivered s x) (h : s.step a x = .ok s') : Formed s' := by
  cases x with
  | click id c => exact click_formed hco hclean hf (cur_of_root hco hx.1) hx.2.2 h
  | sure =>
    obtain ⟨e, he⟩ := Option.isSome_iff_exists.mp hx
    simp only [Ui.step, he] at h
    obtain ⟨s₂, h₂, rfl⟩ := ok_of_map h
    have hfits := hco.pop e he
    have hformed : Formed s₂ := by
      cases e with
      | card id position =>
        exact refresh_formed ((curType_eq hfits.1).trans (congrArg some hfits.2.1)) h₂
      | modify position => exact list_formed h₂
    exact fun id hid => ⟨(hformed id hid).clean, (hformed id hid).mode⟩
  | cancel =>
    cases h
    exact fun id hid => ⟨(hf id hid).clean, (hf id hid).mode⟩
  | handleMessage =>
    cases h
    exact hf.sameFrame hco.unique.sameFrame_handleMessage
  | timer id =>
    cases h
    exact hf.sameFrame (sameFrame_timer s.wind id)
  | onMeasure id =>
    cases h
    exact hf.sameFrame (sameFrame_onMeasure s.wind id)
  | autoStart id =>
    cases h
    exact hf.sameFrame (sameFrame_autoStart s.wind id)

/-- Every change at the screen is made with care. -/
theorem careful_change (hco : Coherent s) (hf : Formed s) (hx : Delivered s x)
    (hlen : s.conf.modeDataList.length + 1 < 2 ^ 31) {c : Change} (hc : changeOf s x = some c) :
    Careful s.conf.modeDataList c := by
  cases x with
  | click id click =>
    have hid := cur_of_root hco hx.1
    cases click with
    | left p =>
      obtain ⟨-, -, hlt⟩ := hco.card_inside hid hx.2.2
      unfold changeOf at hc
      dsimp only at hc
      split at hc
      · cases hc
        exact ⟨⟨p, index_eq_some.mpr ⟨rfl, hlt⟩⟩, p - 1, index_eq_some.mpr ⟨by omega, by omega⟩⟩
      · cases hc
    | right p =>
      obtain ⟨-, hl, hlt⟩ := hco.card_inside hid hx.2.2
      unfold changeOf at hc
      dsimp only at hc
      rw [hl] at hc
      split at hc
      · cases hc
        exact ⟨⟨p, index_eq_some.mpr ⟨rfl, hlt⟩⟩, p + 1, index_eq_some.mpr ⟨by omega, by omega⟩⟩
      · cases hc
    | confirm =>
      cases hc
      have hor := List.mem_pair.mp (of_decide_eq_true hx.2.2)
      obtain ⟨hclean, hmode⟩ := hf id hid
      refine ⟨(hclean hor).confirm, ?_⟩
      rcases hor with hmod | hadd
      · obtain ⟨i, m, hi, hm, he⟩ := hmode hmod
        refine Or.inr ⟨i, m, hi, hm, ?_⟩
        rw [he]
        rfl
      · exact Or.inl ⟨((pageFits_add hadd).mp (hco.page id hid)).1, hlen⟩
    | steam | cloudRecipe | home | back | add | card | deleteCard | delete | minusTemp | addTemp
    | minusChushuiliang | addChushuiliang | changePicture | edit => cases hc
  | sure =>
    obtain ⟨e, he⟩ := Option.isSome_iff_exists.mp hx
    have hfits := hco.pop e he
    simp only [changeOf, he, Option.map_some, Option.some.injEq] at hc
    rw [← hc]
    cases e with
    | card id position =>
      obtain ⟨-, -, i, -, hi, -⟩ := hfits
      exact ⟨i, hi⟩
    | modify position =>
      obtain ⟨-, i, -, hi, -⟩ := hfits
      exact ⟨i, hi⟩
  | cancel | handleMessage | timer | onMeasure | autoStart => cases hc

end Step

/-! ## What is seen -/

/-- A card shows the mode at its place under the number of the place, and its
listeners stand for it. An arrow out of the list is grey. -/
structure CardShows (l : List ModeData) (p : ℕ) (m : ModeData) (c : MyViewHolder) : Prop where
  /-- The number, from one on and with two digits. -/
  no : c.modeNo = if p + 1 < 10 then '0' :: Nat.toDigits 10 (p + 1) else Nat.toDigits 10 (p + 1)
  /-- The name. -/
  name : c.modeName = m.modeName
  /-- The temperature with its unit. -/
  temperature : c.modeTemperatureNum = m.temperature ++ ['℃']
  /-- The volume with its unit. -/
  chushuiliang : c.modeChushuiliangNum = stdToString m.chuShuiLiang ++ ['m', 'L']
  /-- The picture. -/
  image : c.modeImage = m.imageDir
  /-- The first card has no left arrow. -/
  left : p = 0 → c.picDownLeft = "@mipmap/icon_noleft".toList
  /-- The last card has no right arrow. -/
  right : 0 < p → p + 1 = l.length → c.picDownRight = "@mipmap/icon_noright".toList
  /-- A card in between has both. -/
  both : 0 < p → p + 1 < l.length → c.picDownLeft = "@mipmap/icon_left".toList ∧
    c.picDownRight = "@mipmap/icon_right".toList
  /-- Its listeners know its position. -/
  position : c.position = p
  /-- A mode that cannot be deleted has no delete button. -/
  delete : c.deleteVisible = true ↔ m.canDelete ≠ 0
  /-- The delete button knows the position. -/
  deletePosition : c.deleteVisible = true → c.deletePosition = some p

/-- The number shown is the position from one on, with two digits. -/
theorem modeNo_numbered {x : Int32} {p : ℕ} (h : x.toInt = p + 1) :
    (if 0 ≤ x ∧ x < 10 then '0' :: stdToString x else stdToString x) =
      if p + 1 < 10 then '0' :: Nat.toDigits 10 (p + 1) else Nat.toDigits 10 (p + 1) := by
  have htext : stdToString x = Nat.toDigits 10 (p + 1) := by
    unfold stdToString
    rw [h, if_neg (by omega)]
    rfl
  have hten : (10 : Int32).toInt = 10 := rfl
  have hzero : (0 : Int32).toInt = 0 := rfl
  have hrange : 0 ≤ x ∧ x < 10 ↔ p + 1 < 10 := by
    rw [Int32.le_iff_toInt_le, Int32.lt_iff_toInt_lt, hten, hzero, h]
    omega
  rw [htext]
  by_cases hp : p + 1 < 10
  · rw [if_pos hp, if_pos (hrange.mpr hp)]
  · rw [if_neg hp, if_neg (fun hx => hp (hrange.mp hx))]

/-- The arrows touch nothing else of the row. -/
theorem setArrows_frame (size : ℕ) (holder : MyViewHolder) (p : ℕ) :
    ((setArrows size holder p).modeNo, (setArrows size holder p).modeName,
      (setArrows size holder p).modeTemperatureNum, (setArrows size holder p).modeChushuiliangNum,
      (setArrows size holder p).modeImage) =
    (holder.modeNo, holder.modeName, holder.modeTemperatureNum, holder.modeChushuiliangNum,
      holder.modeImage) := by
  unfold setArrows
  split
  · rfl
  · split <;> rfl

/-- The first row has no arrow to the left. -/
theorem setArrows_first (size : ℕ) (holder : MyViewHolder) {p : ℕ} (h : p = 0) :
    (setArrows size holder p).picDownLeft = "@mipmap/icon_noleft".toList := by
  unfold setArrows
  rw [if_pos h]

/-- The last row has no arrow to the right. -/
theorem setArrows_last {size : ℕ} (holder : MyViewHolder) {p : ℕ} (h₀ : 0 < p)
    (h : p + 1 = size) :
    (setArrows size holder p).picDownRight = "@mipmap/icon_noright".toList := by
  unfold setArrows
  rw [if_neg (by omega), if_pos (by omega)]

/-- A row in between has both arrows. -/
theorem setArrows_inner {size : ℕ} (holder : MyViewHolder) {p : ℕ} (h₀ : 0 < p)
    (h : p + 1 < size) :
    (setArrows size holder p).picDownLeft = "@mipmap/icon_left".toList ∧
      (setArrows size holder p).picDownRight = "@mipmap/icon_right".toList := by
  unfold setArrows
  rw [if_neg (by omega), if_neg (by omega)]
  exact ⟨rfl, rfl⟩

/-- Whatever the view has shown before. -/
theorem card_shows {l : List ModeData} (h : Numbered l) {p : ℕ} {m : ModeData}
    (hm : l[p]? = some m) (holder : MyViewHolder) :
    ∃ c, onBindViewHolder l holder p = some c ∧ CardShows l p m c := by
  have hno := modeNo_numbered (h p m hm)
  unfold onBindViewHolder
  rw [hm, Option.map_some]
  refine ⟨_, rfl, ?_⟩
  have hframe := setArrows_frame l.length (setTexts holder m) p
  simp only [Prod.mk.injEq] at hframe
  obtain ⟨htext, hname, htemperature, hvolume, himage⟩ := hframe
  by_cases hd : m.canDelete = 0
  · rw [if_pos hd]
    exact ⟨htext.trans hno, hname, htemperature, hvolume, himage, setArrows_first _ _,
      setArrows_last _, setArrows_inner _, rfl,
      ⟨fun h => absurd h Bool.false_ne_true, fun h => absurd hd h⟩,
      fun h => absurd h Bool.false_ne_true⟩
  · rw [if_neg hd]
    exact ⟨htext.trans hno, hname, htemperature, hvolume, himage, setArrows_first _ _,
      setArrows_last _, setArrows_inner _, rfl, ⟨fun _ => hd, fun _ => rfl⟩, fun _ => rfl⟩

/-- A pop-up page shows the mode that it would delete. -/
def PopShown (s : Screen j) : Prop :=
  ∀ e, s.ui.curShowPoppage = some e →
    At s.ui.conf.modeDataList (popPosition e) fun m => s.pop = some (.create m)

/-- After every action a pop-up page shows the mode that it would delete. -/
theorem step_pop {s s' : Screen j} {a : SaveAccess} {x : Action} (hco : Coherent s'.ui)
    (hp : PopShown s) (hx : Delivered s.ui x) (h : s.step a x = .ok s') : PopShown s' := by
  obtain ⟨ui, hui, rfl⟩ := ok_of_map h
  intro e he
  dsimp only at he ⊢
  cases hold : s.ui.curShowPoppage with
  | none =>
    have hat : At ui.conf.modeDataList (popPosition e) fun _ => True := by
      have hfits := hco.pop e he
      cases e with
      | card id position => exact hfits.2.2.mono fun _ _ => trivial
      | modify position => exact hfits.2
    obtain ⟨i, m, hi, hm, -⟩ := hat
    refine ⟨i, m, hi, hm, ?_⟩
    unfold popAfter
    rw [he, hold]
    dsimp only
    rw [hi, Option.isSome_none, if_neg Bool.false_ne_true, Option.bind_some, hm, Option.map_some]
  | some e₀ =>
    have hkeep : ∀ wind, ui = { s.ui with wind } →
        At ui.conf.modeDataList (popPosition e) fun m => popAfter s ui = some (.create m) := by
      rintro wind rfl
      have hpop : popAfter s { s.ui with wind } = s.pop := by
        unfold popAfter
        rw [hold]
        rfl
      rw [hpop]
      exact hp e he
    cases x with
    | click id c => exact absurd (hold.symm.trans hx.2.1) (by simp)
    | sure =>
      simp only [Ui.step, hold] at hui
      obtain ⟨s₂, -, rfl⟩ := ok_of_map hui
      cases he
    | cancel =>
      cases hui
      cases he
    | handleMessage | timer | onMeasure | autoStart =>
      cases hui
      exact hkeep _ rfl

/-- What the user sees. -/
structure OnScreen (s : Screen j) (t : Shelf) : Prop where
  /-- The list page has a card for each mode in use, whichever views it takes. -/
  cards : ∀ id ∈ s.ui.wind.rootPage, (s.ui.wind.page id).type = .waterModeLayout →
    s.ui.adapter id = t.inUse ∧ ∀ p m, t.inUse[p]? = some m → ∀ holder,
      ∃ c, onBindViewHolder (s.ui.adapter id) holder p = some c ∧ CardShows t.inUse p m c
  /-- The modify page works on the mode at its position. -/
  form : ∀ id ∈ s.ui.wind.rootPage, (s.ui.wind.page id).type = .waterModify →
    At t.inUse (s.ui.form id).position fun m => m = (s.ui.form id).tmpModedata
  /-- The pop-up page shows the mode that it would delete. -/
  pop : ∀ e, s.ui.curShowPoppage = some e →
    At t.inUse (popPosition e) fun m => s.pop = some (.create m)

/-! ## Lives -/

/-- The screen and its store, and the shelf. -/
structure Along (s : Screen j) (t : Shelf) : Prop where
  /-- The store follows the shelf. -/
  follows : Follows (s.ui.conf, s.ui.node) t
  /-- The pages fit the modes. -/
  coherent : Coherent s.ui
  /-- So does the form of the page shown. -/
  formed : Formed s.ui
  /-- So does the pop-up page. -/
  pop : PopShown s

/-- The first screen goes along with the shelf. -/
theorem along_start {conf : CConfMgr j} {node : Node} {t : Shelf} (h : Follows (conf, node) t) :
    Along (.start conf node) t :=
  ⟨h, coherent_start conf node,
    formed_of_type rfl PageType.noConfusion PageType.noConfusion, fun e he => by cases he⟩

/-- A screen that goes along shows the shelf. -/
theorem Along.onScreen {s : Screen j} {t : Shelf} (h : Along s t) : OnScreen s t := by
  have hinUse := h.follows.inUse
  refine ⟨fun id hid ht => ?_, fun id hid ht => ?_, fun e he => ?_⟩
  · have hcards := (pageFits_list ht).mp (h.coherent.page id (cur_of_root h.coherent hid))
    have hadapter : s.ui.adapter id = t.inUse := hcards.trans hinUse
    refine ⟨hadapter, fun p m hm holder => ?_⟩
    rw [hadapter]
    exact card_shows h.follows.tidy.1 hm holder
  · have hmode := (h.formed id (cur_of_root h.coherent hid)).mode ht
    rwa [hinUse] at hmode
  · have hpop := h.pop e he
    rwa [hinUse] at hpop

/-- One action, or one that a save ends. -/
theorem Along.careful {s : Screen j} {t : Shelf} (h : Along s t) {x : Action}
    (hx : Delivered s.ui x) (hlen : s.ui.conf.modeDataList.length + 1 < 2 ^ 31) {c : Change}
    (hc : changeOf s.ui x = some c) : Careful t.inUse c := by
  have hcareful := careful_change h.coherent h.formed hx hlen hc
  rwa [h.follows.inUse] at hcareful

/-- An action goes along with the change it makes on the shelf. -/
theorem Along.action (hs : j.Strict) (sort : List ModeData → List ModeData) {s s' : Screen j}
    {t : Shelf} (h : Along s t) {a : SaveAccess} {x : Action} (hx : Delivered s.ui x)
    (hlen : s.ui.conf.modeDataList.length + 1 < 2 ^ 31) (hstep : s.step a x = .ok s') :
    ∃ t', run Shelf.step t ((changeOf s.ui x).map fun c => .change c a).toList = some t' ∧
      Along s' t' := by
  obtain ⟨ui, hui, hs'⟩ := ok_of_map hstep
  have hco : Coherent s'.ui := by
    have hfine := h.coherent.step a hx
    rw [hui] at hfine
    rw [hs']
    exact hfine
  have hclean : ∀ m ∈ s.ui.conf.modeDataList, CleanMode m := by
    have htidy := h.follows.tidy.2
    rwa [← h.follows.inUse] at htidy
  have hformed : Formed s'.ui := by
    rw [hs']
    exact step_formed h.coherent hclean h.formed hx hui
  have hpop : PopShown s' := step_pop hco h.pop hx hstep
  have hstore : StoreRun sort a s.ui x s'.ui := by
    rw [hs']
    exact step_store hui
  unfold StoreRun at hstore
  cases hc : changeOf s.ui x with
  | none =>
    rw [hc] at hstore
    have hpair := Option.some.inj hstore
    refine ⟨t, rfl, ?_, hco, hformed, hpop⟩
    rw [← hpair]
    exact h.follows
  | some c =>
    rw [hc] at hstore
    obtain ⟨r, hr, hrun⟩ := run_cons_eq_some hstore
    cases hrun
    obtain ⟨s₁, t₁, hs₁, ht₁, hf⟩ := @follows_change _ hs sort _ _ h.follows _
      (h.careful hx hlen hc) a
    cases hs₁.symm.trans hr
    exact ⟨t₁, run_cons ht₁, hf, hco, hformed, hpop⟩

/-- Over any life the store has what the shelf says, and the user sees it. -/
theorem screens_follow_shelf (hs : j.Strict) (hi : j.Inverse)
    {sort : List ModeData → List ModeData} (hsort : Sorts compareByPos sort) {conf : CConfMgr j}
    {node : Node} {t₀ : Shelf} (h₀ : Follows (conf, node) t₀) {xs : List Happening} {s : Screen j}
    (h : Life sort (.start conf node) xs s) :
    ∃ t, run Shelf.step t₀ xs = some t ∧ Follows (s.ui.conf, s.ui.node) t ∧ OnScreen s t := by
  have halong : ∃ t, run Shelf.step t₀ xs = some t ∧ Along s t := by
    induction h with
    | start => exact ⟨t₀, rfl, along_start h₀⟩
    | action h hx hlen hstep ih =>
      obtain ⟨t, ht, hal⟩ := ih
      obtain ⟨t', ht', hal'⟩ := hal.action hs sort hx hlen hstep
      refine ⟨t', ?_, hal'⟩
      rw [run_append, ht]
      exact ht'
    | @restart xs s b conf' node' h hinit ih =>
      obtain ⟨t, ht, hal⟩ := ih
      refine ⟨_, ?_, along_start (follows_restart hs hi hsort hal.follows.kept hinit)⟩
      rw [run_append, ht]
      rfl
    | @fault xs s a x c r b conf' node' h hx hlen hc hr hsaved hinit ih =>
      obtain ⟨t, ht, hal⟩ := ih
      obtain ⟨s₁, t₁, hs₁, ht₁, hf⟩ := @follows_change _ hs sort _ _ hal.follows _
        (hal.careful hx hlen hc) a
      have hr₁ : storeStep sort (s.ui.conf, s.ui.node) (.change c a) = some (r.1, r.2.node) := by
        rw [storeStep, hr]
        rfl
      cases hs₁.symm.trans hr₁
      refine ⟨_, ?_, along_start (follows_restart hs hi hsort hf.kept hinit)⟩
      rw [run_append, ht]
      exact run_cons ht₁
  obtain ⟨t, ht, hal⟩ := halong
  exact ⟨t, ht, hal.follows, hal.onScreen⟩

/-- The program starts again on a file that is kept and can be read. -/
theorem Life.again (hs : j.Strict) (hi : j.Inverse) {sort : List ModeData → List ModeData}
    (hsort : Sorts compareByPos sort) {s₀ s : Screen j} {xs : List Happening}
    (h : Life sort s₀ xs s) {t : Shelf} (hf : Follows (s.ui.conf, s.ui.node) t)
    {l : List ModeData} (hk : t.kept = .modes l) {b : InitAccess} (hb : Readable b.load) :
    ∃ conf, Life sort s₀ (xs ++ [.restart b]) (.start conf s.ui.node) := by
  have hkept := hf.kept
  rw [hk] at hkept
  exact ⟨_, h.restart (init_document hs hi hsort hkept.2 hb hkept.1)⟩

/-- The store of a new device. -/
def newStore : CConfMgr lexemeJson := ⟨newDevice, modesValue newDevice⟩

/-- The file of a new device. -/
def newFile : Node := .file (lexemeJson.writeString (modesValue newDevice))

/-- The first mode is moved to the right, and the program started again. -/
theorem screens_follow_shelf_moved :
    ∃ xs s t, Life sortByPos (.start newStore newFile) xs s ∧
      run Shelf.step ⟨newDevice, .modes newDevice⟩ xs = some t ∧
      Follows (s.ui.conf, s.ui.node) t ∧ OnScreen s t ∧
      t.inUse.map ModeData.modeName = ["常温".toList, "冰水".toList, "沸水".toList] := by
  have h₀ : Follows (newStore, newFile) ⟨newDevice, .modes newDevice⟩ :=
    ⟨rfl, newDevice_tidy, rfl, newDevice_tidy⟩
  have hstart : Life sortByPos (.start newStore newFile) [] (.start newStore newFile) := Life.start
  have hlist := hstart.action (a := okSave) (x := .click 0 .cloudRecipe) ⟨by decide, rfl, rfl⟩
    (by decide) rfl
  have hclick : ∀ s : Screen lexemeJson, (s.ui.adapter 1).length = 3 →
      s.step okSave (.click 1 (.right 0)) =
        ((s.ui.changeModes okSave (.movedMode 0 1)).map fun u => u.refresh 1).map fun u =>
          ⟨u, popAfter s u⟩ :=
    fun s h => congrArg (Except.map _) (if_pos (by rw [h]; decide))
  have hmoved := hlist.action (x := .click 1 (.right 0)) ⟨by decide, rfl, rfl⟩ (by decide)
    ((hclick _ rfl).trans
      (congrArg (Except.map _) (congrArg (Except.map _) (changeModes_okSave rfl rfl))))
  obtain ⟨t, ht, hf, -⟩ :=
    screens_follow_shelf lexemeJson_strict lexemeJson_inverse sorts_sortByPos h₀ hmoved
  cases ht
  obtain ⟨conf, hagain⟩ := hmoved.again lexemeJson_strict lexemeJson_inverse sorts_sortByPos
    (b := okInit) hf rfl ⟨rfl, rfl, rfl⟩
  obtain ⟨t, ht, hf, hs⟩ :=
    screens_follow_shelf lexemeJson_strict lexemeJson_inverse sorts_sortByPos h₀ hagain
  cases ht
  exact ⟨_, _, _, hagain, rfl, hf, hs, rfl⟩

end CdroidDemo.UiSessions
