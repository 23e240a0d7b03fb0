import Mathlib.Logic.Function.Basic
import Mathlib.Data.Int.Notation
import Mathlib.Data.Nat.Notation

/-!
# The window manager

`wind_mgr` shows one page at a time in `root_page`. A page that is left goes
to the recycle list and is shown again when its type is asked for. A delayed
message detaches what is in the list. Every page has a clock view and posts
`m_Timer_cb` to update its text.
-/

namespace CdroidDemo.Windows

/-- `pagetype`. -/
inductive PageType
  /-- No page. -/
  | none
  /-- The home page. -/
  | home
  /-- The steam page. -/
  | steamBarbecue
  /-- The list of modes. -/
  | waterModeLayout
  /-- The form of a mode. -/
  | waterModify
  /-- The form of a new mode. -/
  | waterAdd
  /-- Values that are not enumerated. -/
  | other (value : ℤ)
  deriving DecidableEq, Repr

/-- `PageBase`, as far as its clock is concerned. -/
structure Page where
  /-- `m_pagetype`, which also tells the class. -/
  type : PageType
  /-- `mIsStart` of `left_time`. -/
  started : Bool
  /-- Pending posts of `m_Timer_cb`. -/
  timers : ℕ
  /-- Pending starts posted by `onMeasure` of `left_time`. -/
  autoStarts : ℕ
  deriving DecidableEq, Repr

/-- `wind_mgr`; pages are known by the number of their construction. -/
structure WindMgr where
  /-- All pages constructed so far. -/
  page : ℕ → Page
  /-- How many there are. -/
  constructed : ℕ
  /-- `page_recycle_list`. -/
  pageRecycleList : List ℕ
  /-- `cur_showpage`. -/
  curShowpage : Option ℕ
  /-- The pages whose layouts are children of `root_page`. -/
  rootPage : List ℕ

/-- How a page came to be shown, with the arguments it was given. -/
inductive Shown
  /-- It is shown already. -/
  | current
  /-- `Start_Page_action` of a page of the recycle list. -/
  | reused (id : ℕ) (position : ℤ)
  /-- The constructor of a new page. -/
  | created (id : ℕ) (mode position : ℤ)
  /-- There is no such page. -/
  | nothing
  deriving DecidableEq, Repr

namespace WindMgr

/-- `Init_Window`. -/
def initWindow : WindMgr := ⟨fun _ => ⟨.none, false, 0, 0⟩, 0, [], none, []⟩

/-- Change one page. -/
def change (s : WindMgr) (id : ℕ) (f : Page → Page) : WindMgr :=
  {s with page := Function.update s.page id (f (s.page id))}

/-! ## Pages -/

/-- `AddPage`. -/
def addPage (s : WindMgr) (id : ℕ) : WindMgr := {s with rootPage := s.rootPage ++ [id]}

/-- `removeCallbacks(m_Timer_cb)`. -/
def removeCallbacks (s : WindMgr) (id : ℕ) : WindMgr := s.change id fun p => {p with timers := 0}

/-- `start` of the clock view. -/
def startClock (s : WindMgr) (id : ℕ) : WindMgr := s.change id fun p => {p with started := true}

/-- `stop` of the clock view. -/
def stopClock (s : WindMgr) (id : ℕ) : WindMgr := s.change id fun p => {p with started := false}

/-- `OnTimer`. -/
def onTimer (s : WindMgr) (id : ℕ) : WindMgr := s.change id fun p => {p with timers := p.timers + 1}

/-- `RemovePage`. -/
def removePage (s : WindMgr) (id : ℕ) : WindMgr :=
  let s := (s.removeCallbacks id).stopClock id
  {s with rootPage := s.rootPage.erase id}

/-- `Stop_Page_action`. -/
def stopPageAction (s : WindMgr) (id : ℕ) : WindMgr := s.removeCallbacks id

/-- Whether `Start_Page_action` of the class restarts the clock: the override
of the list page does, those of the other water pages and the steam page do not. -/
def restartsClock : PageType → Bool
  | .steamBarbecue | .waterModify | .waterAdd => false
  | .none | .home | .waterModeLayout | .other _ => true

/-- `Start_Page_action`. -/
def startPageAction (s : WindMgr) (id : ℕ) : WindMgr :=
  if restartsClock (s.page id).type then (s.startClock id).onTimer id else s

/-- `InitPageBase` of a new page. -/
def initPageBase (s : WindMgr) (type : PageType) : WindMgr :=
  let id := s.constructed
  let s := {s with
    page := Function.update s.page id ⟨type, false, 0, 0⟩
    constructed := id + 1}
  ((s.addPage id).startClock id).onTimer id

/-- The constructors; that of the water pages ends in `Start_Page_action`. -/
def construct (s : WindMgr) (type : PageType) : WindMgr :=
  match type with
  | .waterModify | .waterAdd => (s.initPageBase type).startPageAction s.constructed
  | _ => s.initPageBase type

/-! ## Showing pages -/

/-- The type of the page shown. -/
def curType (s : WindMgr) : Option PageType := s.curShowpage.map fun id => (s.page id).type

/-- The page shown goes to the recycle list. -/
def recycleCur (s : WindMgr) : WindMgr :=
  match s.curShowpage with
  | none => s
  | some id =>
    let s := (s.stopPageAction id).removePage id
    {s with pageRecycleList := s.pageRecycleList ++ [id]}

/-- Whether `Show_Page` has a class for the type. -/
def known : PageType → Bool
  | .home | .steamBarbecue | .waterModeLayout | .waterModify | .waterAdd => true
  | .none | .other _ => false

/-- `Show_Page`. -/
def showPage (s : WindMgr) (type : PageType) (mode position : ℤ) : WindMgr × Shown :=
  if s.curType = some type then (s, .current)
  else
    let s := s.recycleCur
    match s.pageRecycleList.find? fun id => (s.page id).type = type with
    | some id =>
      let rest := s.pageRecycleList.eraseP fun j => (s.page j).type = type
      ({(s.addPage id).startPageAction id with
        curShowpage := some id
        pageRecycleList := rest}, .reused id position)
    | none =>
      if known type then
        ({s.construct type with curShowpage := some s.constructed},
          .created s.constructed mode position)
      else ({s with curShowpage := none}, .nothing)

/-- `handleMessage` of the delayed close. -/
def handleMessage (s : WindMgr) : WindMgr :=
  s.pageRecycleList.foldl (fun s id => (s.stopPageAction id).removePage id) s

/-! ## Clock events -/

/-- A pending `m_Timer_cb` fires. -/
def timer (s : WindMgr) (id : ℕ) : WindMgr :=
  if 0 < (s.page id).timers then (s.change id fun p => {p with timers := p.timers - 1}).onTimer id
  else s

/-- The clock view of an attached page is measured. -/
def onMeasure (s : WindMgr) (id : ℕ) : WindMgr :=
  if id ∈ s.rootPage ∧ (s.page id).started = false then
    s.change id fun p => {p with autoStarts := p.autoStarts + 1}
  else s

/-- A start posted by `onMeasure` runs. -/
def autoStart (s : WindMgr) (id : ℕ) : WindMgr :=
  if 0 < (s.page id).autoStarts then
    (s.change id fun p => {p with autoStarts := p.autoStarts - 1}).startClock id
  else s

/-! ## Runs -/

/-- What can happen to the window manager. -/
inductive Step
  /-- A page is asked for. -/
  | showPage (type : PageType) (mode position : ℤ)
  /-- The delayed close arrives. -/
  | handleMessage
  /-- The clock of a page. -/
  | timer (id : ℕ)
  /-- A page is measured. -/
  | onMeasure (id : ℕ)
  /-- The clock of a page starts by itself. -/
  | autoStart (id : ℕ)

/-- One step. -/
def step (s : WindMgr) : Step → WindMgr
  | .showPage type mode position => (s.showPage type mode position).1
  | .handleMessage => s.handleMessage
  | .timer id => s.timer id
  | .onMeasure id => s.onMeasure id
  | .autoStart id => s.autoStart id

/-- Steps in any order. -/
def run (s : WindMgr) (steps : List Step) : WindMgr := steps.foldl step s

/-! ## What the operations change -/

/-- Changing a page changes no other. -/
@[simp] theorem change_page (s : WindMgr) (id j : ℕ) (f : Page → Page) :
    (s.change id f).page j = if j = id then f (s.page id) else s.page j := by
  unfold change
  exact Function.update_apply _ _ _ _

end WindMgr

end CdroidDemo.Windows
