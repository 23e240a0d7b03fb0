import CdroidDemo.ModeStore
import CdroidDemo.Windows

/-!
# The pages of the water modes

The list page shows a card for each mode of its adapter. The modify and the
add page edit a copy of a mode in a form; the delete buttons ask in a pop-up
page first. Listeners keep the position they were made for.
-/

namespace CdroidDemo.WaterModePages

open Windows JsonText JsonFunc ModeStore

/-- What ends a listener, and the program with it. -/
inductive Fault
  /-- A position outside of the list of modes. -/
  | index
  /-- An exception that nothing catches. -/
  | exception
  deriving DecidableEq, Repr

/-! ## Forms -/

/-- The boxes of a form whose text can be edited. -/
inductive Box
  /-- The temperature. -/
  | temp
  /-- The volume. -/
  | chushuiliang
  /-- The name. -/
  | name
  deriving DecidableEq, Repr

/-- `PageWaterModify`, apart from its clock. -/
structure Form where
  /-- The temperature shown. -/
  displayTemp : List Char
  /-- The volume shown. -/
  displayChushuiliang : List Char
  /-- The name shown. -/
  displayName : List Char
  /-- The picture shown. -/
  displayWaterPicture : List Char
  /-- The mode that was opened. -/
  tmpModedata : ModeData
  /-- The values set since. -/
  tmpIfSetModedata : ModeData
  /-- The position its listeners have captured. -/
  position : ℤ

/-- The pictures a mode can have. -/
def imageDirs : List (List Char) :=
  ["@mipmap/pic_chushui_changwenshui".toList, "@mipmap/pic_chushui_feishui".toList,
    "@mipmap/pic_chushui_fengmishui".toList, "@mipmap/pic_chushui_gouji".toList,
    "@mipmap/pic_chushui_huacha".toList, "@mipmap/pic_chushui_kafei".toList,
    "@mipmap/pic_chushui_lengshui".toList, "@mipmap/pic_chushui_lvcha".toList,
    "@mipmap/pic_chushui_ningmengshui".toList, "@mipmap/pic_chushui_paonai".toList,
    "@mipmap/pic_chushui_wulong".toList]

/-- `std::stoi`; it throws without digits and beyond the range of `int`. -/
def stoi (s : List Char) : Option Int32 :=
  let t := s.dropWhile isSpace
  if (dropSign t).head?.any Char.isDigit ∧ -2 ^ 31 ≤ signedDigits t ∧ signedDigits t < 2 ^ 31 then
    some (Int32.ofInt (signedDigits t))
  else none

namespace Form

/-- The text of a box. -/
def getText (f : Form) : Box → List Char
  | .temp => f.displayTemp
  | .chushuiliang => f.displayChushuiliang
  | .name => f.displayName

/-- Set the text of a box. -/
def setText (f : Form) (data : Box) (text : List Char) : Form :=
  match data with
  | .temp => { f with displayTemp := text }
  | .chushuiliang => { f with displayChushuiliang := text }
  | .name => { f with displayName := text }

/-- The part of `Start_Page_action` that shows a mode. -/
def showMode (m : ModeData) (position : ℤ) : Form where
  displayTemp := m.temperature ++ ['℃']
  displayChushuiliang := stdToString m.chuShuiLiang ++ ['m', 'L']
  displayName := m.modeName
  displayWaterPicture := m.imageDir
  tmpModedata := m
  tmpIfSetModedata := m
  position := position

/-- `Start_Page_action` of the modify page. -/
def startModify (modeDataList : List ModeData) (position : ℤ) : Option Form :=
  (index modeDataList position).bind fun i => modeDataList[i]?.map fun m => showMode m position

/-- The mode the add page starts with. -/
def newMode (size : ℕ) : ModeData where
  canDelete := 1
  chuShuiLiang := 500
  dataPos := Int32.ofNat size
  dataType := "addnew".toList
  imageDir := "@mipmap/pic_chushui_changwenshui".toList
  modeName := "温开水".toList
  temperature := "55".toList

/-- `Start_Page_action` of the add page. -/
def startAdd (modeDataList : List ModeData) (position : ℤ) : Form :=
  showMode (newMode modeDataList.length) position

/-- The listener of `SetAddMinusButton`. -/
def addMinus (data : Box) (mode : ℕ) (offset : Int32) (item : ℕ) (f : Form) : Option Form :=
  (stoi (f.getText data)).map fun n =>
    let result := if mode = 0 then n - offset else n + offset
    if item = 0 then
      { f with tmpIfSetModedata := { f.tmpIfSetModedata with temperature := stdToString result } }.setText
        data (stdToString result ++ ['℃'])
    else
      { f with tmpIfSetModedata := { f.tmpIfSetModedata with chuShuiLiang := result } }.setText
        data (stdToString result ++ ['m', 'L'])

/-- The listener of `bt_change_water_pic`: the next picture, if this is one of them. -/
def changePicture (f : Form) : Form :=
  match imageDirs.idxOf? f.tmpIfSetModedata.imageDir with
  | none => f
  | some i =>
    let imageDir := imageDirs.getD (if i + 1 = imageDirs.length then 0 else i + 1) []
    { f with
      tmpIfSetModedata := { f.tmpIfSetModedata with imageDir }
      displayWaterPicture := imageDir }

/-- What `bt_confirm` takes over. -/
def confirm (f : Form) : Form :=
  { f with tmpModedata := { f.tmpModedata with
    temperature := f.tmpIfSetModedata.temperature
    chuShuiLiang := f.tmpIfSetModedata.chuShuiLiang
    imageDir := f.tmpIfSetModedata.imageDir } }

end Form

/-! ## The state of the program -/

/-- What a pop-up page does when it is confirmed. -/
inductive EnterCallback
  /-- Delete a mode for the card of a list page. -/
  | card (id : ℕ) (position : ℤ)
  /-- Delete a mode for the modify page. -/
  | modify (position : ℤ)

/-- What the pages of the program work on. -/
structure Ui (j : JsonCpp) where
  /-- The pages. -/
  wind : WindMgr
  /-- The modes. -/
  conf : CConfMgr j
  /-- The data file. -/
  node : Node
  /-- `mode_data_list` of the adapter, for each list page. -/
  adapter : ℕ → List ModeData
  /-- For each modify or add page. -/
  form : ℕ → Form
  /-- `cur_show_poppage`, by its callback. -/
  curShowPoppage : Option EnterCallback

variable {j : JsonCpp}

namespace Ui

/-- A change of the modes; it throws when the save does. -/
def changeModes (a : SaveAccess) (s : Ui j) (c : Change) : Except Fault (Ui j) :=
  match s.conf.change a s.node c with
  | none => .error .index
  | some (conf, r) =>
    if r.saved = none then .error .exception else .ok { s with conf, node := r.node }

/-- The adapter of a list page takes the modes over, and its cards are bound anew. -/
def refresh (s : Ui j) (id : ℕ) : Ui j :=
  { s with adapter := Function.update s.adapter id s.conf.modeDataList }

/-- What the constructor or `Start_Page_action` of a page does. -/
def startPage (s : Ui j) (type : PageType) (id : ℕ) (position : ℤ) : Except Fault (Ui j) :=
  match type with
  | .waterModeLayout => .ok (s.refresh id)
  | .waterModify =>
    match Form.startModify s.conf.modeDataList position with
    | none => .error .index
    | some f => .ok { s with form := Function.update s.form id f }
  | .waterAdd =>
    .ok { s with form := Function.update s.form id (Form.startAdd s.conf.modeDataList position) }
  | _ => .ok s

/-- `Show_Page`. -/
def showPage (s : Ui j) (type : PageType) (mode position : ℤ) : Except Fault (Ui j) :=
  match s.wind.showPage type mode position with
  | (wind, .reused id position) | (wind, .created id _ position) =>
    { s with wind }.startPage type id position
  | (wind, _) => .ok { s with wind }

/-- `Show_Pop_Page`; the pop-up page shows the mode at the position. -/
def showPopPage (s : Ui j) (enterCb : EnterCallback) (position : ℤ) : Except Fault (Ui j) :=
  if s.curShowPoppage.isSome then .ok s
  else
    match index s.conf.modeDataList position with
    | none => .error .index
    | some _ => .ok { s with curShowPoppage := some enterCb }

/-- Change the form of a page; the listener may throw. -/
def editForm (s : Ui j) (id : ℕ) (f : Option Form) : Except Fault (Ui j) :=
  match f with
  | none => .error .exception
  | some f => .ok { s with form := Function.update s.form id f }

/-! ## Listeners -/

/-- The views of the pages that can be clicked or edited. -/
inductive Click
  /-- The four buttons of the home page. -/
  | steam (mode : Fin 4)
  /-- The button to the list of modes. -/
  | cloudRecipe
  /-- The buttons that lead to the home page. -/
  | home
  /-- `bt_back` of a form. -/
  | back
  /-- `bt_mode_add`. -/
  | add
  /-- `down_left`, `down_right`, `down_delete` and `up_layout` of a card. -/
  | left (position : ℕ)
  /-- The right arrow of a card. -/
  | right (position : ℕ)
  /-- The delete button of a card. -/
  | deleteCard (position : ℕ)
  /-- The upper part of a card. -/
  | card (position : ℕ)
  /-- Less temperature. -/
  | minusTemp
  /-- More temperature. -/
  | addTemp
  /-- Less volume. -/
  | minusChushuiliang
  /-- More volume. -/
  | addChushuiliang
  /-- The picture of a form. -/
  | changePicture
  /-- A text is typed into a box. -/
  | edit (data : Box) (text : List Char)
  /-- The delete button of a form. -/
  | delete
  /-- The confirm button of a form. -/
  | confirm

/-- The views a page has; a card for each mode, and its delete button where
the mode can be deleted. The delete button of the add page is gone. -/
def offers (s : Ui j) (id : ℕ) : Click → Bool
  | .steam _ | .cloudRecipe => (s.wind.page id).type = .home
  | .home => (s.wind.page id).type ∈ [.steamBarbecue, .waterModeLayout, .waterModify, .waterAdd]
  | .add => (s.wind.page id).type = .waterModeLayout
  | .left p | .right p | .card p =>
    (s.wind.page id).type = .waterModeLayout && decide (p < (s.adapter id).length)
  | .deleteCard p =>
    (s.wind.page id).type = .waterModeLayout && (s.adapter id)[p]?.any fun m => m.canDelete ≠ 0
  | .delete => (s.wind.page id).type = .waterModify
  | .back | .minusTemp | .addTemp | .minusChushuiliang | .addChushuiliang | .changePicture
  | .edit _ _ | .confirm => (s.wind.page id).type ∈ [.waterModify, .waterAdd]

/-- What the listener of a view does. -/
def click (a : SaveAccess) (s : Ui j) (id : ℕ) : Click → Except Fault (Ui j)
  | .steam mode => s.showPage .steamBarbecue mode mode
  | .cloudRecipe => s.showPage .waterModeLayout 1 (-1)
  | .home => s.showPage .home 1 (-1)
  | .back => s.showPage .waterModeLayout 1 (-1)
  | .add => s.showPage .waterAdd 1 (-1)
  | .left p =>
    if 0 < p then (s.changeModes a (.movedMode p (p - 1))).map fun s => s.refresh id else .ok s
  | .right p =>
    if p < (s.adapter id).length - 1 then
      (s.changeModes a (.movedMode p (p + 1))).map fun s => s.refresh id
    else .ok s
  | .deleteCard p => s.showPopPage (.card id p) p
  | .card p => s.showPage .waterModify 1 p
  | .minusTemp => s.editForm id ((s.form id).addMinus .temp 0 1 0)
  | .addTemp => s.editForm id ((s.form id).addMinus .temp 1 1 0)
  | .minusChushuiliang => s.editForm id ((s.form id).addMinus .chushuiliang 0 50 1)
  | .addChushuiliang => s.editForm id ((s.form id).addMinus .chushuiliang 1 50 1)
  | .changePicture => s.editForm id (some (s.form id).changePicture)
  | .edit data text => s.editForm id (some ((s.form id).setText data text))
  | .delete => s.showPopPage (.modify (s.form id).position) (s.form id).position
  | .confirm =>
    let f := (s.form id).confirm
    let s := { s with form := Function.update s.form id f }
    (s.changeModes a (.updateModeDataByPos f.tmpModedata f.position)).bind fun s =>
      s.showPage .waterModeLayout 1 (-1)

/-- `m_EnterCallback` of a pop-up page. -/
def enter (a : SaveAccess) (s : Ui j) : EnterCallback → Except Fault (Ui j)
  | .card id position => (s.changeModes a (.deleteModeData position)).map fun s => s.refresh id
  | .modify position =>
    (s.changeModes a (.deleteModeData position)).bind fun s => s.showPage .waterModeLayout 1 (-1)

/-- `Deal_Close_Pop_Page`. -/
def dealClosePopPage (s : Ui j) : Ui j := { s with curShowPoppage := none }

/-! ## Runs -/

/-- What can happen to the program. -/
inductive Action
  /-- A view of a page is clicked. -/
  | click (id : ℕ) (c : Click)
  /-- The two buttons of a pop-up page; cancelling has no callback. -/
  | sure
  /-- The other button of a pop-up page. -/
  | cancel
  /-- The delayed close and the clocks. -/
  | handleMessage
  /-- The clock of a page. -/
  | timer (id : ℕ)
  /-- A page is measured. -/
  | onMeasure (id : ℕ)
  /-- The clock of a page starts by itself. -/
  | autoStart (id : ℕ)

/-- Clicks reach attached pages, and the pages are invisible below a pop-up page. -/
def Delivered (s : Ui j) : Action → Prop
  | .click id c => id ∈ s.wind.rootPage ∧ s.curShowPoppage = none ∧ s.offers id c = true
  | .sure | .cancel => s.curShowPoppage.isSome = true
  | _ => True

/-- One action. -/
def step (a : SaveAccess) (s : Ui j) : Action → Except Fault (Ui j)
  | .click id c => s.click a id c
  | .sure =>
    match s.curShowPoppage with
    | none => .ok s
    | some enterCb => (s.enter a enterCb).map dealClosePopPage
  | .cancel => .ok s.dealClosePopPage
  | .handleMessage => .ok { s with wind := s.wind.handleMessage }
  | .timer id => .ok { s with wind := s.wind.timer id }
  | .onMeasure id => .ok { s with wind := s.wind.onMeasure id }
  | .autoStart id => .ok { s with wind := s.wind.autoStart id }

/-- Actions in any order, each of them allowed where it happens. -/
inductive Run (allowed : Ui j → Action → Prop) (s₀ : Ui j) : Ui j → Prop
  /-- Nothing has happened. -/
  | start : Run allowed s₀ s₀
  /-- One more action that is allowed. -/
  | step {s s' : Ui j} {a : SaveAccess} {x : Action} (h : Run allowed s₀ s) (hx : allowed s x)
      (hs : s.step a x = .ok s') : Run allowed s₀ s'

/-- The home page is shown and the modes are loaded. -/
def start (conf : CConfMgr j) (node : Node) : Ui j where
  wind := (WindMgr.initWindow.showPage .home 1 (-1)).1
  conf := conf
  node := node
  adapter := fun _ => []
  form := fun _ => Form.startAdd [] (-1)
  curShowPoppage := none

end Ui

end CdroidDemo.WaterModePages
