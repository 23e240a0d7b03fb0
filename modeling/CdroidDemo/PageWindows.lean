import Mathlib.Data.List.Nodup
import CdroidDemo.Windows

/-!
# Pages and their clocks

Whatever is shown and in whatever order, there is one page of each type at
most and only the page shown is attached. Its clock runs as long as no page
that forgets to restart its clock is taken from the recycle list.
-/

namespace CdroidDemo.PageWindows

open Windows Windows.WindMgr

/-! ## What the operations do -/

/-- The pages the window manager refers to. -/
def live (s : WindMgr) : List ℕ := s.curShowpage.toList ++ s.pageRecycleList

/-- A change of pages that leaves their types and everything around them. -/
structure SameFrame (s s' : WindMgr) : Prop where
  /-- Every page keeps its type. -/
  type : ∀ id, (s'.page id).type = (s.page id).type
  /-- No page is constructed. -/
  constructed : s'.constructed = s.constructed
  /-- The pages put away stay. -/
  recycle : s'.pageRecycleList = s.pageRecycleList
  /-- The page shown stays. -/
  cur : s'.curShowpage = s.curShowpage
  /-- The children of the root stay. -/
  root : s'.rootPage = s.rootPage

/-- A state has its own frame. -/
theorem SameFrame.refl (s : WindMgr) : SameFrame s s := ⟨fun _ => rfl, rfl, rfl, rfl, rfl⟩

/-- Equal frames, one after the other. -/
theorem SameFrame.trans {s s' s'' : WindMgr} (h : SameFrame s s') (h' : SameFrame s' s'') :
    SameFrame s s'' :=
  ⟨fun id => (h'.type id).trans (h.type id), h'.constructed.trans h.constructed,
    h'.recycle.trans h.recycle, h'.cur.trans h.cur, h'.root.trans h.root⟩

/-- Changing anything but the type of a page. -/
theorem sameFrame_change (s : WindMgr) (id : ℕ) {f : Page → Page}
    (hf : (f (s.page id)).type = (s.page id).type) : SameFrame s (s.change id f) := by
  refine ⟨fun j => ?_, rfl, rfl, rfl, rfl⟩
  rw [change_page]
  split
  · rename_i hj
    rw [hf, hj]
  · rfl

/-- Starting a page's timers leaves the frame alone. -/
theorem sameFrame_startPageAction (s : WindMgr) (id : ℕ) : SameFrame s (s.startPageAction id) := by
  unfold startPageAction
  split
  · have h := sameFrame_change s id (f := fun p => {p with started := true}) rfl
    exact h.trans (sameFrame_change _ id rfl)
  · exact SameFrame.refl s

/-- The clock events. -/
theorem sameFrame_timer (s : WindMgr) (id : ℕ) : SameFrame s (s.timer id) := by
  unfold timer
  split
  · have h := sameFrame_change s id (f := fun p => {p with timers := p.timers - 1}) rfl
    exact h.trans (sameFrame_change _ id rfl)
  · exact SameFrame.refl s

/-- Measuring leaves the frame alone. -/
theorem sameFrame_onMeasure (s : WindMgr) (id : ℕ) : SameFrame s (s.onMeasure id) := by
  unfold onMeasure
  split
  · exact sameFrame_change s id rfl
  · exact SameFrame.refl s

/-- The automatic start leaves the frame alone. -/
theorem sameFrame_autoStart (s : WindMgr) (id : ℕ) : SameFrame s (s.autoStart id) := by
  unfold autoStart
  split
  · have h := sameFrame_change s id (f := fun p => {p with autoStarts := p.autoStarts - 1}) rfl
    exact h.trans (sameFrame_change _ id rfl)
  · exact SameFrame.refl s

/-- `RemovePage` stops the clock of its page. -/
theorem removePage_page (s : WindMgr) (id j : ℕ) : (s.removePage id).page j =
    if j = id then {s.page id with timers := 0, started := false} else s.page j := by
  unfold removePage removeCallbacks stopClock
  dsimp only
  rw [change_page]
  by_cases hj : j = id
  · rw [if_pos hj, if_pos hj, change_page, if_pos rfl]
  · rw [if_neg hj, if_neg hj, change_page, if_neg hj]

/-- `Stop_Page_action` and `RemovePage`, as they are called together. -/
theorem close_page (s : WindMgr) (id j : ℕ) : ((s.stopPageAction id).removePage id).page j =
    if j = id then {s.page id with timers := 0, started := false} else s.page j := by
  rw [removePage_page]
  unfold stopPageAction removeCallbacks
  by_cases hj : j = id
  · rw [if_pos hj, if_pos hj, change_page, if_pos rfl]
  · rw [if_neg hj, if_neg hj, change_page, if_neg hj]

/-- Closing a page changes no page's type. -/
theorem close_type (s : WindMgr) (id j : ℕ) :
    (((s.stopPageAction id).removePage id).page j).type = (s.page j).type := by
  rw [close_page]
  split
  · rename_i hj
    rw [hj]
  · rfl

/-- The element found first and the rest. -/
theorem perm_find_eraseP {α : Type*} {p : α → Bool} {l : List α} {a : α}
    (h : l.find? p = some a) : l.Perm (a :: l.eraseP p) := by
  obtain ⟨hp, xs, ys, rfl, hx⟩ := List.find?_eq_some_iff_append.mp h
  have hx' : ∀ b ∈ xs, ¬ p b = true := fun b hb => by simpa using hx b hb
  rw [List.eraseP_append_right _ hx', List.eraseP_cons_of_pos hp]
  exact List.perm_middle

/-! ## One page of each type -/

/-- One page of each type is referred to, and the page shown is attached alone. -/
structure Unique (s : WindMgr) : Prop where
  /-- The pages referred to were constructed. -/
  constructed : ∀ id ∈ live s, id < s.constructed
  /-- They are of different types. -/
  types : ((live s).map fun id => (s.page id).type).Nodup
  /-- The page shown is the only child of the root. -/
  root : s.rootPage = s.curShowpage.toList

/-- The first window has no page twice. -/
theorem unique_initWindow : Unique initWindow := ⟨nofun, List.nodup_nil, rfl⟩

/-- Uniqueness depends on the frame only. -/
theorem Unique.same {s s' : WindMgr} (h : Unique s) (hs : SameFrame s s') : Unique s' := by
  have hl : live s' = live s := by
    unfold live
    rw [hs.cur, hs.recycle]
  refine ⟨?_, ?_, ?_⟩
  · rw [hl, hs.constructed]
    exact h.constructed
  · rw [hl, List.map_congr_left fun id _ => hs.type id]
    exact h.types
  · rw [hs.root, hs.cur]
    exact h.root

/-- The page shown is not in the recycle list. -/
theorem Unique.cur_not_mem {s : WindMgr} (h : Unique s) {id : ℕ} (hc : s.curShowpage = some id) :
    id ∉ s.pageRecycleList := by
  have hn := List.Nodup.of_map _ h.types
  unfold live at hn
  rw [hc] at hn
  exact (List.nodup_cons.mp hn).1

/-- What is left when the page shown has gone to the recycle list. -/
structure Recycled (s r : WindMgr) : Prop where
  /-- The pages put away are those that were referred to. -/
  list : r.pageRecycleList.Perm (live s)
  /-- The root has no child. -/
  root : r.rootPage = []
  /-- No page is constructed. -/
  constructed : r.constructed = s.constructed
  /-- Every page keeps its type. -/
  type : ∀ id, (r.page id).type = (s.page id).type

/-- Recycling the page shown keeps the pages unique. -/
theorem Unique.recycleCur {s : WindMgr} (h : Unique s) : Recycled s s.recycleCur := by
  have hr := h.root
  unfold WindMgr.recycleCur
  cases hc : s.curShowpage with
  | none =>
    rw [hc] at hr
    refine ⟨?_, hr, rfl, fun _ => rfl⟩
    unfold live
    rw [hc]
    exact List.Perm.refl _
  | some id =>
    rw [hc] at hr
    refine ⟨?_, ?_, rfl, close_type s id⟩
    · unfold live
      rw [hc]
      exact List.perm_append_singleton id _
    · change s.rootPage.erase id = []
      rw [hr, Option.toList_some, List.erase_cons_head]

/-- `Show_Page` in its four outcomes. -/
theorem showPage_cases (s : WindMgr) (type : PageType) (mode position : ℤ) :
    (s.curType = some type ∧ s.showPage type mode position = (s, .current)) ∨
    (s.curType ≠ some type ∧ ∃ id,
      (s.recycleCur.pageRecycleList.find? fun j => (s.recycleCur.page j).type = type) = some id ∧
      s.showPage type mode position =
        ({(s.recycleCur.addPage id).startPageAction id with
          curShowpage := some id
          pageRecycleList := s.recycleCur.pageRecycleList.eraseP fun j =>
            (s.recycleCur.page j).type = type}, .reused id position)) ∨
    (s.curType ≠ some type ∧
      (∀ j ∈ s.recycleCur.pageRecycleList, (s.recycleCur.page j).type ≠ type) ∧
      known type = true ∧ s.showPage type mode position =
        ({s.recycleCur.construct type with curShowpage := some s.recycleCur.constructed},
          .created s.recycleCur.constructed mode position)) ∨
    (s.curType ≠ some type ∧ known type = false ∧
      s.showPage type mode position = ({s.recycleCur with curShowpage := none}, .nothing)) := by
  unfold WindMgr.showPage
  by_cases hc : s.curType = some type
  · exact Or.inl ⟨hc, if_pos hc⟩
  · rw [if_neg hc]
    dsimp only
    cases hf : s.recycleCur.pageRecycleList.find? fun j => (s.recycleCur.page j).type = type with
    | some id => exact Or.inr (Or.inl ⟨hc, id, rfl, rfl⟩)
    | none =>
      cases hk : known type with
      | true =>
        refine Or.inr (Or.inr (Or.inl ⟨hc, ?_, rfl, rfl⟩))
        intro j hj
        exact of_decide_eq_false (Bool.eq_false_iff.mpr (List.find?_eq_none.mp hf j hj))
      | false => exact Or.inr (Or.inr (Or.inr ⟨hc, rfl, rfl⟩))

/-- A new page is attached and its clock runs. -/
theorem initPageBase_page (s : WindMgr) (type : PageType) (j : ℕ) :
    (s.initPageBase type).page j =
      if j = s.constructed then ⟨type, true, 1, 0⟩ else s.page j := by
  unfold initPageBase onTimer startClock addPage
  simp only [change_page, Function.update_apply]
  split <;> rfl

/-- The last call of a constructor does not touch the clock. -/
theorem construct_eq (s : WindMgr) (type : PageType) : s.construct type = s.initPageBase type := by
  have hp : ((s.initPageBase type).page s.constructed).type = type := by
    rw [initPageBase_page, if_pos rfl]
  unfold construct
  cases type <;> first | rfl | exact if_neg (by rw [hp]; exact Bool.false_ne_true)

/-- A new page is appended to the children of the root. -/
theorem initPageBase_rootPage (s : WindMgr) (type : PageType) :
    (s.initPageBase type).rootPage = s.rootPage ++ [s.constructed] := rfl

/-- `Show_Page` keeps one page of each type. -/
theorem Unique.showPage {s : WindMgr} (h : Unique s) (type : PageType) (mode position : ℤ) :
    Unique (s.showPage type mode position).1 := by
  have hr := h.recycleCur
  have hlt : ∀ id ∈ s.recycleCur.pageRecycleList, id < s.constructed :=
    fun id hid => h.constructed id (hr.list.mem_iff.mp hid)
  have hnd : (s.recycleCur.pageRecycleList.map fun id => (s.recycleCur.page id).type).Nodup := by
    rw [List.map_congr_left fun id _ => hr.type id]
    exact (hr.list.map _).nodup_iff.mpr h.types
  rcases showPage_cases s type mode position with
    ⟨-, he⟩ | ⟨-, id, hf, he⟩ | ⟨-, hn, -, he⟩ | ⟨-, -, he⟩
  · rw [he]
    exact h
  · rw [he]
    have hs := sameFrame_startPageAction (s.recycleCur.addPage id) id
    have hperm := perm_find_eraseP hf
    refine ⟨?_, ?_, ?_⟩
    · intro j hj
      change j < ((s.recycleCur.addPage id).startPageAction id).constructed
      rw [hs.constructed]
      exact hr.constructed ▸ hlt j (hperm.mem_iff.mpr hj)
    · refine (List.map_congr_left fun j _ => hs.type j) ▸ ?_
      exact (hperm.map _).nodup_iff.mp hnd
    · change ((s.recycleCur.addPage id).startPageAction id).rootPage = [id]
      rw [hs.root]
      unfold WindMgr.addPage
      rw [hr.root]
      rfl
  · rw [he, construct_eq]
    refine ⟨?_, ?_, ?_⟩
    · intro j hj
      change j < s.recycleCur.constructed + 1
      rw [hr.constructed] at hj ⊢
      cases List.mem_cons.mp hj with
      | inl hj => exact hj ▸ Nat.lt_succ_self _
      | inr hj => exact Nat.lt_succ_of_lt (hlt j hj)
    · have hne : ∀ j ∈ s.recycleCur.pageRecycleList,
          ((s.recycleCur.initPageBase type).page j).type = (s.recycleCur.page j).type := by
        intro j hj
        rw [initPageBase_page, if_neg (hr.constructed ▸ (Nat.ne_of_lt (hlt j hj)))]
      change (List.map (fun id => ((s.recycleCur.initPageBase type).page id).type)
        (s.recycleCur.constructed :: s.recycleCur.pageRecycleList)).Nodup
      rw [List.map_cons, initPageBase_page, if_pos rfl, List.map_congr_left hne]
      refine List.nodup_cons.mpr ⟨fun hm => ?_, hnd⟩
      obtain ⟨j, hj, ht⟩ := List.mem_map.mp hm
      exact hn j hj ht
    · change (s.recycleCur.initPageBase type).rootPage = [s.recycleCur.constructed]
      rw [initPageBase_rootPage, hr.root]
      rfl
  · rw [he]
    exact ⟨fun j hj => hr.constructed ▸ hlt j hj, hnd, hr.root⟩

/-- The delayed close stops the pages of the list and leaves the attached
page alone when that is not one of them. -/
theorem closeAll_spec (s : WindMgr) {l : List ℕ} (hl : ∀ id ∈ s.rootPage, id ∉ l) :
    let r := l.foldl (fun s id => (s.stopPageAction id).removePage id) s
    r.pageRecycleList = s.pageRecycleList ∧ r.curShowpage = s.curShowpage ∧
    r.constructed = s.constructed ∧ r.rootPage = s.rootPage ∧
    ∀ j, r.page j = if j ∈ l then {s.page j with timers := 0, started := false} else s.page j := by
  induction l generalizing s with
  | nil => exact ⟨rfl, rfl, rfl, rfl, fun _ => rfl⟩
  | cons id l ih =>
    have hroot : ((s.stopPageAction id).removePage id).rootPage = s.rootPage :=
      List.erase_of_not_mem fun hm => hl id hm List.mem_cons_self
    obtain ⟨h₁, h₂, h₃, h₄, h₅⟩ := ih ((s.stopPageAction id).removePage id) fun j hj hm =>
      hl j (hroot ▸ hj) (List.mem_cons_of_mem id hm)
    refine ⟨h₁, h₂, h₃, h₄.trans hroot, fun j => (h₅ j).trans ?_⟩
    rw [close_page]
    by_cases hj : j = id
    · rw [if_pos hj, hj, if_pos List.mem_cons_self]
      split <;> rfl
    · rw [if_neg hj]
      by_cases hm : j ∈ l
      · rw [if_pos hm, if_pos (List.mem_cons_of_mem id hm)]
      · rw [if_neg hm, if_neg (fun hc => (List.mem_cons.mp hc).elim hj hm)]

/-- The page shown is not closed. -/
theorem Unique.root_not_mem {s : WindMgr} (h : Unique s) :
    ∀ id ∈ s.rootPage, id ∉ s.pageRecycleList := by
  intro id hid
  rw [h.root] at hid
  exact h.cur_not_mem (Option.mem_toList.mp hid)

/-- A message leaves the frame alone. -/
theorem Unique.sameFrame_handleMessage {s : WindMgr} (h : Unique s) : SameFrame s s.handleMessage := by
  obtain ⟨h₁, h₂, h₃, h₄, h₅⟩ := closeAll_spec s h.root_not_mem
  refine ⟨fun j => ?_, h₃, h₁, h₂, h₄⟩
  refine (congrArg Page.type (h₅ j)).trans ?_
  split <;> rfl

/-- A message keeps the pages unique. -/
theorem Unique.handleMessage {s : WindMgr} (h : Unique s) : Unique s.handleMessage :=
  h.same h.sameFrame_handleMessage

/-- Every step keeps the pages unique. -/
theorem Unique.step {s : WindMgr} (h : Unique s) (st : Step) : Unique (s.step st) := by
  cases st with
  | showPage type mode position => exact h.showPage type mode position
  | handleMessage => exact h.handleMessage
  | timer id => exact h.same (sameFrame_timer s id)
  | onMeasure id => exact h.same (sameFrame_onMeasure s id)
  | autoStart id => exact h.same (sameFrame_autoStart s id)

/-- Every run keeps the pages unique. -/
theorem Unique.run {s : WindMgr} (h : Unique s) (steps : List Step) : Unique (s.run steps) := by
  induction steps generalizing s with
  | nil => exact h
  | cons st steps ih => exact ih (h.step st)

/-- After any steps there is at most one page of a type among the page shown
and the recycle list, the page shown is not in the list, and it alone is
attached to `root_page`. -/
theorem pages_unique (steps : List Step) :
    let s := initWindow.run steps
    ((live s).map fun id => (s.page id).type).Nodup ∧
    (∀ id, s.curShowpage = some id → id ∉ s.pageRecycleList) ∧
    s.rootPage = s.curShowpage.toList := by
  have h := unique_initWindow.run steps
  exact ⟨h.types, fun id => h.cur_not_mem, h.root⟩

/-! ## Running clocks -/

/-- The page shown has its clock started and one timer pending, those in the
recycle list have neither. -/
structure ClocksRun (s : WindMgr) : Prop where
  /-- The page shown has started one clock. -/
  shown : ∀ id ∈ s.curShowpage, (s.page id).started = true ∧ (s.page id).timers = 1
  /-- A page put away runs none. -/
  waiting : ∀ id ∈ s.pageRecycleList, (s.page id).started = false ∧ (s.page id).timers = 0

/-- A page of the type is taken from the recycle list when it is asked for. -/
def Reuses (s : WindMgr) (type : PageType) : Prop :=
  s.curType ≠ some type ∧ ∃ id ∈ s.pageRecycleList, (s.page id).type = type

/-- The step takes no page from the recycle list whose `Start_Page_action`
leaves the clock stopped. -/
def KeepsClock (s : WindMgr) : Step → Prop
  | .showPage type _ _ => Reuses s type → restartsClock type = true
  | _ => True

/-- The invariant behind the clocks: nothing starts them later. -/
structure Clocks (s : WindMgr) : Prop extends ClocksRun s where
  /-- No page starts its clock by itself. -/
  quiet : ∀ id, (s.page id).autoStarts = 0

/-- The clocks of the first window are in order. -/
theorem clocks_initWindow : Clocks initWindow := ⟨⟨nofun, nofun⟩, fun _ => rfl⟩

/-- Pages outside of the recycle list keep their clock while the page shown is
recycled, and the recycled ones are stopped. -/
theorem Clocks.recycleCur {s : WindMgr} (h : Clocks s) :
    (∀ id ∈ s.recycleCur.pageRecycleList,
      (s.recycleCur.page id).started = false ∧ (s.recycleCur.page id).timers = 0) ∧
    ∀ id, (s.recycleCur.page id).autoStarts = 0 := by
  unfold WindMgr.recycleCur
  cases hc : s.curShowpage with
  | none => exact ⟨h.waiting, h.quiet⟩
  | some cur =>
    have hp := close_page s cur
    constructor
    · intro id hid
      change (((s.stopPageAction cur).removePage cur).page id).started = false ∧
        (((s.stopPageAction cur).removePage cur).page id).timers = 0
      rw [hp]
      split
      · exact ⟨rfl, rfl⟩
      · rename_i hne
        cases List.mem_append.mp hid with
        | inl hid => exact h.waiting id hid
        | inr hid => exact absurd (List.mem_singleton.mp hid) hne
    · intro id
      change (((s.stopPageAction cur).removePage cur).page id).autoStarts = 0
      rw [hp]
      split
      · exact h.quiet cur
      · exact h.quiet id

/-- `Start_Page_action` of a stopped page. -/
theorem startPageAction_page (s : WindMgr) (id j : ℕ) : (s.startPageAction id).page j =
    if j = id ∧ restartsClock (s.page id).type = true then
      {s.page id with started := true, timers := (s.page id).timers + 1}
    else s.page j := by
  unfold WindMgr.startPageAction
  by_cases hr : restartsClock (s.page id).type = true
  · rw [if_pos hr]
    unfold onTimer startClock
    by_cases hj : j = id
    · rw [change_page, if_pos hj, change_page, if_pos rfl, if_pos ⟨hj, hr⟩]
    · rw [change_page, if_neg hj, change_page, if_neg hj, if_neg (fun hc => hj hc.1)]
  · rw [if_neg hr, if_neg (fun hc => hr hc.2)]

/-- When a page that was not shown is asked for, it is found in the list
after recycling just when it was there before. -/
theorem reuses_of_find {s : WindMgr} (h : Unique s) {type : PageType} {id : ℕ}
    (hc : s.curType ≠ some type)
    (hf : (s.recycleCur.pageRecycleList.find?
      fun j => (s.recycleCur.page j).type = type) = some id) :
    Reuses s type ∧ (s.recycleCur.page id).type = type := by
  have hr := h.recycleCur
  have hd : decide ((s.recycleCur.page id).type = type) = true := by
    have := List.find?_some hf
    exact this
  have ht := of_decide_eq_true hd
  refine ⟨⟨hc, id, ?_, (hr.type id).symm.trans ht⟩, ht⟩
  have hm := hr.list.mem_iff.mp (List.mem_of_find?_eq_some hf)
  cases List.mem_append.mp hm with
  | inr hm => exact hm
  | inl hm =>
    refine absurd ?_ hc
    unfold curType
    rw [Option.mem_toList.mp hm, Option.map_some, ← hr.type id, ht]

/-- A page taken from the recycle list runs if and only if it restarts its clock. -/
theorem Clocks.reused_iff {s : WindMgr} (h : Clocks s) (hu : Unique s) {type : PageType} {id : ℕ}
    (hf : (s.recycleCur.pageRecycleList.find?
      fun j => (s.recycleCur.page j).type = type) = some id)
    (ht : (s.recycleCur.page id).type = type) :
    let s' : WindMgr := {(s.recycleCur.addPage id).startPageAction id with
      curShowpage := some id
      pageRecycleList := s.recycleCur.pageRecycleList.eraseP fun j =>
        (s.recycleCur.page j).type = type}
    (ClocksRun s' ↔ restartsClock type = true) ∧ ∀ j, (s'.page j).autoStarts = 0 := by
  obtain ⟨hw, hq⟩ := h.recycleCur
  have hp := fun j => startPageAction_page (s.recycleCur.addPage id) id j
  have hid := hw id (List.mem_of_find?_eq_some hf)
  refine ⟨⟨fun hrun => ?_, fun hr => ⟨?_, ?_⟩⟩, fun j => ?_⟩
  · by_contra hn
    have hs := (hrun.shown id rfl).1
    change (((s.recycleCur.addPage id).startPageAction id).page id).started = true at hs
    rw [hp id, if_neg fun hand => hn (ht ▸ hand.2)] at hs
    exact Bool.false_ne_true (hid.1.symm.trans hs)
  · intro j hj
    cases hj
    change (((s.recycleCur.addPage id).startPageAction id).page id).started = true ∧
      (((s.recycleCur.addPage id).startPageAction id).page id).timers = 1
    rw [hp id, if_pos ⟨rfl, (congrArg restartsClock ht).trans hr⟩]
    exact ⟨rfl, congrArg (· + 1) hid.2⟩
  · intro j hj
    have hne : j ≠ id := by
      have hperm := (perm_find_eraseP hf).symm.trans hu.recycleCur.list
      have hnd := hperm.nodup_iff.mpr (List.Nodup.of_map _ hu.types)
      exact fun heq => (List.nodup_cons.mp hnd).1 (heq ▸ hj)
    change (((s.recycleCur.addPage id).startPageAction id).page j).started = false ∧
      (((s.recycleCur.addPage id).startPageAction id).page j).timers = 0
    rw [hp j, if_neg fun hand => hne hand.1]
    exact hw j (List.mem_of_mem_eraseP hj)
  · change (((s.recycleCur.addPage id).startPageAction id).page j).autoStarts = 0
    rw [hp j]
    split
    · exact hq id
    · exact hq j

/-- A new page starts its clock. -/
theorem Clocks.created {s : WindMgr} (h : Clocks s) (hu : Unique s) (type : PageType) :
    Clocks {s.recycleCur.construct type with curShowpage := some s.recycleCur.constructed} := by
  obtain ⟨hw, hq⟩ := h.recycleCur
  rw [construct_eq]
  have hp := initPageBase_page s.recycleCur type
  refine ⟨⟨?_, ?_⟩, fun j => ?_⟩
  · intro j hj
    cases hj
    change ((s.recycleCur.initPageBase type).page s.recycleCur.constructed).started = true ∧
      ((s.recycleCur.initPageBase type).page s.recycleCur.constructed).timers = 1
    rw [hp, if_pos rfl]
    exact ⟨rfl, rfl⟩
  · intro j hj
    have hne : j ≠ s.recycleCur.constructed := by
      rw [hu.recycleCur.constructed]
      exact Nat.ne_of_lt (hu.constructed j (hu.recycleCur.list.mem_iff.mp hj))
    change ((s.recycleCur.initPageBase type).page j).started = false ∧
      ((s.recycleCur.initPageBase type).page j).timers = 0
    rw [hp, if_neg hne]
    exact hw j hj
  · change ((s.recycleCur.initPageBase type).page j).autoStarts = 0
    rw [hp]
    split
    · rfl
    · exact hq j

/-- `Show_Page` keeps the clocks if and only if the page it takes from the
recycle list, if any, restarts its clock. -/
theorem Clocks.showPage_iff {s : WindMgr} (h : Clocks s) (hu : Unique s) (type : PageType)
    (mode position : ℤ) :
    (ClocksRun (s.showPage type mode position).1 ↔
      (Reuses s type → restartsClock type = true)) ∧
    ∀ id, ((s.showPage type mode position).1.page id).autoStarts = 0 := by
  rcases showPage_cases s type mode position with
    ⟨hc, he⟩ | ⟨hc, id, hf, he⟩ | ⟨hc, hn, -, he⟩ | ⟨hc, hk, he⟩
  · rw [he]
    exact ⟨iff_of_true h.toClocksRun fun hr => absurd hc hr.1, h.quiet⟩
  · obtain ⟨hre, ht⟩ := reuses_of_find hu hc hf
    obtain ⟨hiff, hq⟩ := h.reused_iff hu hf ht
    rw [he]
    exact ⟨hiff.trans ⟨fun hr _ => hr, fun hr => hr hre⟩, hq⟩
  · have hcl := h.created hu type
    rw [he]
    refine ⟨iff_of_true hcl.toClocksRun ?_, hcl.quiet⟩
    rintro ⟨-, j, hj, ht⟩
    have hm := hu.recycleCur.list.mem_iff.mpr (List.mem_append_right _ hj)
    exact absurd ((hu.recycleCur.type j).trans ht) (hn j hm)
  · obtain ⟨hw, hq⟩ := h.recycleCur
    rw [he]
    refine ⟨iff_of_true ⟨nofun, hw⟩ fun _ => ?_, hq⟩
    cases type <;> first | rfl | cases hk

/-- A message keeps the clocks in order. -/
theorem Clocks.handleMessage {s : WindMgr} (h : Clocks s) (hu : Unique s) :
    Clocks s.handleMessage := by
  obtain ⟨h₁, h₂, -, -, h₅⟩ := closeAll_spec s hu.root_not_mem
  refine ⟨⟨fun id hid => ?_, fun id hid => ?_⟩, fun id => ?_⟩
  · have hc : s.curShowpage = some id := h₂ ▸ hid
    have hp : s.handleMessage.page id = s.page id := (h₅ id).trans (if_neg (hu.cur_not_mem hc))
    rw [hp]
    exact h.shown id hc
  · have hm : id ∈ s.pageRecycleList := h₁ ▸ hid
    have hp : s.handleMessage.page id = {s.page id with timers := 0, started := false} :=
      (h₅ id).trans (if_pos hm)
    rw [hp]
    exact ⟨rfl, rfl⟩
  · refine (congrArg Page.autoStarts (h₅ id)).trans ?_
    split <;> exact h.quiet id

/-- A timer that fires posts itself again. -/
theorem timer_page (s : WindMgr) (id j : ℕ) : (s.timer id).page j = s.page j := by
  unfold timer
  split
  · rename_i ht
    unfold onTimer
    rw [change_page]
    split
    · rename_i hj
      rw [change_page, if_pos rfl, hj]
      dsimp only
      rw [Nat.sub_add_cancel ht]
    · rename_i hj
      rw [change_page, if_neg hj]
  · rfl

/-- A timer keeps the clocks in order. -/
theorem Clocks.timer {s : WindMgr} (h : Clocks s) (id : ℕ) : Clocks (s.timer id) := by
  have hs := sameFrame_timer s id
  refine ⟨⟨fun j hj => ?_, fun j hj => ?_⟩, fun j => ?_⟩
  · rw [timer_page]
    exact h.shown j (hs.cur ▸ hj)
  · rw [timer_page]
    exact h.waiting j (hs.recycle ▸ hj)
  · rw [timer_page]
    exact h.quiet j

/-- The attached page is started, so measuring it posts nothing. -/
theorem Clocks.onMeasure_eq {s : WindMgr} (h : Clocks s) (hu : Unique s) (id : ℕ) :
    s.onMeasure id = s := by
  unfold onMeasure
  refine if_neg fun hm => ?_
  have hc : id ∈ s.curShowpage := by
    rw [hu.root] at hm
    exact Option.mem_toList.mp hm.1
  exact Bool.false_ne_true (hm.2.symm.trans (h.shown id hc).1)

/-- Nothing was posted that could start a clock. -/
theorem Clocks.autoStart_eq {s : WindMgr} (h : Clocks s) (id : ℕ) : s.autoStart id = s := by
  unfold autoStart
  exact if_neg (by rw [h.quiet id]; exact Nat.lt_irrefl 0)

/-- A step keeps the clocks just when it restarts the clock of a reused page. -/
theorem Clocks.step_iff {s : WindMgr} (h : Clocks s) (hu : Unique s) (st : Step) :
    (ClocksRun (s.step st) ↔ KeepsClock s st) ∧ ∀ id, ((s.step st).page id).autoStarts = 0 := by
  cases st with
  | showPage type mode position => exact h.showPage_iff hu type mode position
  | handleMessage =>
    have hc := h.handleMessage hu
    exact ⟨iff_of_true hc.toClocksRun trivial, hc.quiet⟩
  | timer id =>
    have hc := h.timer id
    exact ⟨iff_of_true hc.toClocksRun trivial, hc.quiet⟩
  | onMeasure id =>
    have he : s.step (.onMeasure id) = s := h.onMeasure_eq hu id
    rw [he]
    exact ⟨iff_of_true h.toClocksRun trivial, h.quiet⟩
  | autoStart id =>
    have he : s.step (.autoStart id) = s := h.autoStart_eq id
    rw [he]
    exact ⟨iff_of_true h.toClocksRun trivial, h.quiet⟩

/-- All steps of the run keep the clock. -/
def KeepsClocks (s : WindMgr) : List Step → Prop
  | [] => True
  | st :: steps => KeepsClock s st ∧ KeepsClocks (s.step st) steps

/-- Careful runs keep the clocks. -/
theorem Clocks.run {s : WindMgr} (h : Clocks s) (hu : Unique s) {steps : List Step}
    (hk : KeepsClocks s steps) : Clocks (s.run steps) := by
  induction steps generalizing s with
  | nil => exact h
  | cons st steps ih =>
    have hs := h.step_iff hu st
    exact ih ⟨hs.1.mpr hk.1, hs.2⟩ (hu.step st) hk.2

/-- In every run that takes no page from the recycle list whose override
forgets the clock, the page shown has its clock started and one timer pending,
and the waiting pages are stopped; a further step keeps this just when it
meets the condition too. -/
theorem clocksRun_of_keepsClocks {steps : List Step} (h : KeepsClocks initWindow steps) :
    ClocksRun (initWindow.run steps) ∧
    ∀ st, ClocksRun ((initWindow.run steps).step st) ↔ KeepsClock (initWindow.run steps) st := by
  have hc := clocks_initWindow.run unique_initWindow h
  exact ⟨hc.toClocksRun, fun st => (hc.step_iff (unique_initWindow.run steps) st).1⟩

/-- From the home page to the list of water modes and back. -/
def backHome : List Step :=
  [.showPage .home 1 (-1), .showPage .waterModeLayout 1 (-1), .showPage .home 1 (-1)]

/-- The clocks run after a visit of another page and the way back. -/
theorem clocksRun_backHome : ClocksRun (initWindow.run backHome) :=
  (@clocksRun_of_keepsClocks backHome ⟨fun _ => rfl, fun _ => rfl, fun _ => rfl, trivial⟩).1

/-- A steam page, the home page, and the steam page again. -/
def steamAgain : List Step :=
  [.showPage .home 1 (-1), .showPage .steamBarbecue 0 0, .showPage .home 1 (-1),
    .showPage .steamBarbecue 1 1]

/-- The reused steam page is shown with its clock stopped and no timer. -/
theorem not_clocksRun_steamAgain : ¬ ClocksRun (initWindow.run steamAgain) := by
  intro h
  exact Bool.false_ne_true (h.shown 1 rfl).1

end CdroidDemo.PageWindows
