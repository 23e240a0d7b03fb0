import CdroidDemo.ModeRestart
import CdroidDemo.PageWindows
import CdroidDemo.WaterModePages

/-!
# Positions and copies of the modes

The list page shows the modes as they are, and every position that a listener
or a pop-up page has captured is inside the list when it is used.
-/

namespace CdroidDemo.PageCoherence

open Windows Windows.WindMgr PageWindows JsonFunc ModeStore ModeEncoding ModeRestart
open WaterModePages WaterModePages.Ui

variable {j : JsonCpp}

/-! ## Showing a page -/

/-- A page that was not shown yet is shown, and it has the type asked for. -/
theorem showPage_shown {s : WindMgr} {type : PageType} (hk : known type = true)
    (hc : s.curType ≠ some type) (mode position : ℤ) :
    ∃ id, ((s.showPage type mode position).2 = .reused id position ∨
        (s.showPage type mode position).2 = .created id mode position) ∧
      (s.showPage type mode position).1.curShowpage = some id ∧
      ((s.showPage type mode position).1.page id).type = type := by
  rcases showPage_cases s type mode position with
    ⟨hcur, -⟩ | ⟨-, id, hf, he⟩ | ⟨-, -, -, he⟩ | ⟨-, hn, -⟩
  · exact absurd hcur hc
  · rw [he]
    refine ⟨id, Or.inl rfl, rfl, ?_⟩
    change (((s.recycleCur.addPage id).startPageAction id).page id).type = type
    rw [(sameFrame_startPageAction _ id).type]
    have hp := List.find?_some hf
    exact of_decide_eq_true hp
  · rw [he, construct_eq]
    refine ⟨s.recycleCur.constructed, Or.inr rfl, rfl, ?_⟩
    change ((s.recycleCur.initPageBase type).page s.recycleCur.constructed).type = type
    rw [initPageBase_page, if_pos rfl]
  · rw [hk] at hn
    cases hn

/-! ## Outcomes -/

/-- The operation succeeds with `P`, or an exception ends the program. -/
def Fine (r : Except Fault (Ui j)) (P : Ui j → Prop) : Prop :=
  match r with
  | .ok s => P s
  | .error f => f = .exception

/-- Fine steps one after the other are fine. -/
theorem Fine.bind {r : Except Fault (Ui j)} {P Q : Ui j → Prop} {f : Ui j → Except Fault (Ui j)}
    (h : Fine r P) (hf : ∀ s, P s → Fine (f s) Q) : Fine (r.bind f) Q := by
  cases r with
  | ok s => exact hf s h
  | error e => exact h

/-- A function after a fine step. -/
theorem Fine.map {r : Except Fault (Ui j)} {P Q : Ui j → Prop} {f : Ui j → Ui j}
    (h : Fine r P) (hf : ∀ s, P s → Q (f s)) : Fine (r.map f) Q := by
  cases r with
  | ok s => exact hf s h
  | error e => exact h

/-- A fine step is fine for anything its result implies. -/
theorem Fine.mono {r : Except Fault (Ui j)} {P Q : Ui j → Prop} (h : Fine r P)
    (hq : ∀ s, P s → Q s) : Fine r Q := by
  cases r with
  | ok s => exact hq s h
  | error e => exact h

/-! ## What fits together -/

/-- What no form edits and no move changes. -/
def brand (m : ModeData) : Int32 × List Char × List Char := (m.canDelete, m.dataType, m.modeName)

/-- The mode at a position. -/
def At (l : List ModeData) (position : ℤ) (P : ModeData → Prop) : Prop :=
  ∃ i m, index l position = some i ∧ l[i]? = some m ∧ P m

/-- What belongs to a page that is shown. -/
def PageFits (s : Ui j) (id : ℕ) : Prop :=
  match (s.wind.page id).type with
  | .waterModeLayout => s.adapter id = s.conf.modeDataList
  | .waterModify => At s.conf.modeDataList (s.form id).position fun m =>
      brand m = brand (s.form id).tmpModedata
  | .waterAdd => (s.form id).position = -1 ∧ (s.form id).tmpModedata.canDelete = 1
  | _ => True

/-- The list page fits when its adapter holds the list. -/
theorem pageFits_list {s : Ui j} {id : ℕ} (ht : (s.wind.page id).type = .waterModeLayout) :
    PageFits s id ↔ s.adapter id = s.conf.modeDataList := by
  unfold PageFits
  rw [ht]

/-- The modify page fits when its position holds the mode it edits. -/
theorem pageFits_modify {s : Ui j} {id : ℕ} (ht : (s.wind.page id).type = .waterModify) :
    PageFits s id ↔ At s.conf.modeDataList (s.form id).position fun m =>
      brand m = brand (s.form id).tmpModedata := by
  unfold PageFits
  rw [ht]

/-- The add page fits when it edits a new mode that can be deleted. -/
theorem pageFits_add {s : Ui j} {id : ℕ} (ht : (s.wind.page id).type = .waterAdd) :
    PageFits s id ↔ (s.form id).position = -1 ∧ (s.form id).tmpModedata.canDelete = 1 := by
  unfold PageFits
  rw [ht]

/-- What belongs to a pop-up page. -/
def PopFits (s : Ui j) : EnterCallback → Prop
  | .card id position => s.wind.curShowpage = some id ∧
      (s.wind.page id).type = .waterModeLayout ∧
      At s.conf.modeDataList position fun m => m.canDelete ≠ 0
  | .modify position => s.wind.curType = some .waterModify ∧
      At s.conf.modeDataList position fun _ => True

/-- The page shown and the pop-up page fit the modes. -/
structure Coherent (s : Ui j) : Prop where
  /-- No page is there twice. -/
  unique : Unique s.wind
  /-- The page shown fits the modes. -/
  page : ∀ id, s.wind.curShowpage = some id → PageFits s id
  /-- The pop-up page fits the modes. -/
  pop : ∀ e, s.curShowPoppage = some e → PopFits s e

/-! ## Operations -/

/-- A change of the list, and its save. -/
theorem changeModes_eq {a : SaveAccess} {s : Ui j} {c : Change} {l : List ModeData}
    (h : c.modes s.conf.modeDataList = some l) :
    s.changeModes a c = if (saveModes j a l s.node).saved = none then .error .exception
      else .ok { s with
        conf := { s.conf with modeDataList := l }, node := (saveModes j a l s.node).node } := by
  unfold changeModes
  rw [change_eq, h, Option.map_some]

/-- A change inside the list whose save goes well is made and saved. -/
theorem changeModes_okSave {s : Ui j} {c : Change} {l : List ModeData} {content : List Char}
    (h : c.modes s.conf.modeDataList = some l) (hn : s.node = .file content) :
    s.changeModes okSave c = .ok { s with
      conf := { s.conf with modeDataList := l }, node := (saveModes j okSave l s.node).node } := by
  rw [changeModes_eq h, if_neg]
  rw [hn, (savedFile_okSave l content).1]
  nofun

/-- A change inside the list is fine and touches nothing the pages show. -/
theorem changeModes_fine {a : SaveAccess} {s : Ui j} {c : Change} {l : List ModeData}
    (h : c.modes s.conf.modeDataList = some l) :
    Fine (s.changeModes a c) fun s' => s'.wind = s.wind ∧ s'.conf.modeDataList = l ∧
      s'.adapter = s.adapter ∧ s'.form = s.form ∧ s'.curShowPoppage = s.curShowPoppage := by
  rw [changeModes_eq h]
  split
  · rfl
  · exact ⟨rfl, rfl, rfl, rfl, rfl⟩

/-- The start of a page that has just been shown. -/
theorem startPage_fine {s : Ui j} {type : PageType} {id : ℕ} {position : ℤ}
    (htype : (s.wind.page id).type = type)
    (hmodify : type = .waterModify → At s.conf.modeDataList position fun _ => True)
    (hadd : type = .waterAdd → position = -1) :
    Fine (s.startPage type id position) fun s' => s'.wind = s.wind ∧
      s'.curShowPoppage = s.curShowPoppage ∧ PageFits s' id := by
  cases type with
  | waterModeLayout =>
    refine ⟨rfl, rfl, (pageFits_list ?_).mpr ?_⟩
    · exact htype
    · exact Function.update_self id _ s.adapter
  | waterModify =>
    obtain ⟨i, m, hi, hm, -⟩ := hmodify rfl
    have hf : Form.startModify s.conf.modeDataList position = some (Form.showMode m position) := by
      rw [Form.startModify, hi, Option.bind_some, hm, Option.map_some]
    unfold startPage
    simp only [hf]
    refine ⟨rfl, rfl, (pageFits_modify ?_).mpr ?_⟩
    · exact htype
    · simp only [Function.update_self]
      exact ⟨i, m, hi, hm, rfl⟩
  | waterAdd =>
    refine ⟨rfl, rfl, (pageFits_add ?_).mpr ?_⟩
    · exact htype
    · simp only [Function.update_self]
      exact ⟨hadd rfl, rfl⟩
  | none | home | steamBarbecue | other value =>
    refine ⟨rfl, rfl, ?_⟩
    unfold PageFits
    simp only [htype]

/-- What holds after a page has been shown. -/
structure Shows (s s' : Ui j) : Prop where
  /-- The pop-up page stays. -/
  pop : s'.curShowPoppage = s.curShowPoppage
  /-- No page is there twice. -/
  unique : Unique s'.wind
  /-- The page shown fits the modes. -/
  page : ∀ id, s'.wind.curShowpage = some id → PageFits s' id

/-- Showing a page is fine when its position is inside the list. -/
theorem showPage_fine {s : Ui j} {type : PageType} (hk : known type = true) (hu : Unique s.wind)
    (mode : ℤ) {position : ℤ}
    (hmodify : type = .waterModify → At s.conf.modeDataList position fun _ => True)
    (hadd : type = .waterAdd → position = -1)
    (hcur : s.wind.curType = some type → ∀ id, s.wind.curShowpage = some id → PageFits s id) :
    Fine (s.showPage type mode position) (Shows s) := by
  by_cases hc : s.wind.curType = some type
  · have he : s.showPage type mode position = .ok s := by
      unfold Ui.showPage WindMgr.showPage
      rw [if_pos hc]
    rw [he]
    exact ⟨rfl, hu, hcur hc⟩
  · obtain ⟨id, hshown, hid, htype⟩ := showPage_shown hk hc mode position
    have hu' := hu.showPage type mode position
    have he : s.showPage type mode position =
        { s with wind := (s.wind.showPage type mode position).1 }.startPage type id position := by
      unfold Ui.showPage
      generalize s.wind.showPage type mode position = r at hshown
      obtain ⟨wind, shown⟩ := r
      cases hshown with
      | inl h => cases h; rfl
      | inr h => cases h; rfl
    rw [he]
    have hstart := startPage_fine (s := { s with wind := (s.wind.showPage type mode position).1 })
      htype hmodify hadd
    generalize { s with wind := (s.wind.showPage type mode position).1 }.startPage type id position =
      r at hstart
    cases r with
    | error e => exact hstart
    | ok s' =>
      obtain ⟨hw, hpop, hfits⟩ := hstart
      refine ⟨hpop, hw ▸ hu', fun k hk => ?_⟩
      rw [hw] at hk
      cases hid.symm.trans hk
      exact hfits

/-! ## Positions inside the list -/

/-- A position below the length is inside the list. -/
theorem at_of_lt {l : List ModeData} {p : ℤ} (h₀ : 0 ≤ p) (h : p < l.length) :
    At l p fun _ => True := by
  have hlt : p.toNat < l.length := by omega
  exact ⟨p.toNat, l[p.toNat], index_eq_some.mpr ⟨by omega, hlt⟩, List.getElem?_eq_getElem hlt,
    trivial⟩

/-- What holds at a position, weakened. -/
theorem At.mono {l : List ModeData} {position : ℤ} {P Q : ModeData → Prop} (h : At l position P)
    (hq : ∀ m, P m → Q m) : At l position Q := by
  obtain ⟨i, m, hi, hm, hp⟩ := h
  exact ⟨i, m, hi, hm, hq m hp⟩

/-- A move between positions inside the list is made. -/
theorem movedModes_some {l : List ModeData} {p q : ℤ} (hp : At l p fun _ => True)
    (hq : At l q fun _ => True) : ∃ l', (Change.movedMode p q).modes l = some l' := by
  obtain ⟨i, -, hi, -⟩ := hp
  obtain ⟨k, -, hk, -⟩ := hq
  simp only [Change.modes, movedModes, hi, hk]
  exact ⟨_, rfl⟩

/-- A deletion inside the list is made. -/
theorem deletedModes_some {l : List ModeData} {p : ℤ} (hp : At l p fun _ => True) :
    ∃ l', (Change.deleteModeData p).modes l = some l' := by
  obtain ⟨i, -, hi, -⟩ := hp
  simp only [Change.modes, deletedModes, hi]
  exact ⟨_, rfl⟩

/-- An update inside the list, or an addition, is made. -/
theorem updatedModes_some {l : List ModeData} {m : ModeData} {p : ℤ}
    (hp : p = -1 ∨ At l p fun _ => True) :
    ∃ l', (Change.updateModeDataByPos m p).modes l = some l' := by
  simp only [Change.modes, updatedModes]
  split
  · exact ⟨_, rfl⟩
  · rename_i hne
    obtain ⟨i, -, hi, -⟩ := hp.resolve_left hne
    rw [hi]
    exact ⟨_, rfl⟩

/-! ## Listeners -/

/-- The page below a click is the page shown. -/
theorem cur_of_root {s : Ui j} (h : Coherent s) {id : ℕ} (hid : id ∈ s.wind.rootPage) :
    s.wind.curShowpage = some id := by
  rw [h.unique.root] at hid
  exact Option.mem_toList.mp hid

/-- The type shown is that of the page shown. -/
theorem curType_eq {s : WindMgr} {id : ℕ} (hid : s.curShowpage = some id) :
    s.curType = some (s.page id).type := by
  unfold WindMgr.curType
  rw [hid]
  rfl

/-- Without a pop-up page, a page that was shown leaves everything coherent. -/
theorem Shows.coherent {s s' : Ui j} (h : Shows s s')
    (hp : s.curShowPoppage = none) : Coherent s' := by
  refine ⟨h.unique, h.page, fun e he => ?_⟩
  rw [h.pop, hp] at he
  cases he

/-- Going to another page. -/
theorem Coherent.showPage {s : Ui j} (h : Coherent s) (hp : s.curShowPoppage = none)
    (type : PageType) (hk : known type = true) (mode : ℤ) {position : ℤ}
    (hmodify : type = .waterModify → At s.conf.modeDataList position fun _ => True)
    (hadd : type = .waterAdd → position = -1) : Fine (s.showPage type mode position) Coherent :=
  (showPage_fine hk h.unique mode hmodify hadd fun _ => h.page).mono fun _ hs => hs.coherent hp

/-- The adapter of the page shown takes over the modes. -/
theorem coherent_refresh {s : Ui j} (hu : Unique s.wind) {id : ℕ}
    (hid : s.wind.curShowpage = some id) (ht : (s.wind.page id).type = .waterModeLayout)
    (hp : s.curShowPoppage = none) : Coherent (s.refresh id) := by
  refine ⟨hu, fun k hk => ?_, fun e he => ?_⟩
  · cases hid.symm.trans hk
    refine (pageFits_list ?_).mpr ?_
    · exact ht
    · exact Function.update_self id _ s.adapter
  · exact absurd (hp.symm.trans he) nofun

/-- A change of the modes by the card of a list page, which then shows them. -/
theorem change_refresh {a : SaveAccess} {s : Ui j} (hu : Unique s.wind) {id : ℕ}
    (hid : s.wind.curShowpage = some id) (ht : (s.wind.page id).type = .waterModeLayout) {c : Change}
    {l : List ModeData} (hc : c.modes s.conf.modeDataList = some l) :
    Fine ((s.changeModes a c).map fun s => s.refresh id) fun s' =>
      Coherent s'.dealClosePopPage ∧ s'.curShowPoppage = s.curShowPoppage := by
  refine (changeModes_fine hc).map fun s' ⟨hw, _, _, _, hp⟩ => ⟨?_, hp⟩
  have hr : Coherent (s'.dealClosePopPage.refresh id) := by
    refine coherent_refresh ?_ ?_ ?_ rfl
    · exact hw ▸ hu
    · exact hw ▸ hid
    · exact hw ▸ ht
  exact hr

/-- A change of the modes by a form, which goes to the list page. -/
theorem change_list {a : SaveAccess} {s : Ui j} (hu : Unique s.wind)
    (ht : s.wind.curType ≠ some .waterModeLayout) {c : Change} {l : List ModeData}
    (hc : c.modes s.conf.modeDataList = some l) :
    Fine ((s.changeModes a c).bind fun s => s.showPage .waterModeLayout 1 (-1)) fun s' =>
      Coherent s'.dealClosePopPage ∧ s'.curShowPoppage = s.curShowPoppage := by
  refine (changeModes_fine hc).bind fun s' ⟨hw, _, _, _, hp⟩ => ?_
  have hf : Fine (s'.showPage .waterModeLayout 1 (-1)) (Shows s') :=
    showPage_fine rfl (hw ▸ hu) 1 nofun nofun fun h => absurd (hw ▸ h) ht
  exact hf.mono fun s'' hs => ⟨⟨hs.unique, hs.page, nofun⟩, hs.pop.trans hp⟩

/-- The mode a form will save and its position stay. -/
def Keeps (f f' : Form) : Prop := f'.position = f.position ∧ f'.tmpModedata = f.tmpModedata

/-- Typing a text keeps the mode to save and its position. -/
theorem keeps_setText (f : Form) (data : Box) (text : List Char) : Keeps f (f.setText data text) := by
  cases data <;> exact ⟨rfl, rfl⟩

/-- Pressing plus or minus keeps the mode to save and its position. -/
theorem keeps_addMinus {data : Box} {mode item : ℕ} {offset : Int32} {f f' : Form}
    (h : f.addMinus data mode offset item = some f') : Keeps f f' := by
  obtain ⟨n, -, he⟩ := Option.map_eq_some_iff.mp h
  dsimp only at he
  generalize (if mode = 0 then n - offset else n + offset) = result at he
  split at he
  · have hk := keeps_setText { f with tmpIfSetModedata := { f.tmpIfSetModedata with
      temperature := stdToString result } } data (stdToString result ++ ['℃'])
    exact he ▸ ⟨hk.1, hk.2⟩
  · have hk := keeps_setText { f with tmpIfSetModedata := { f.tmpIfSetModedata with
      chuShuiLiang := result } } data (stdToString result ++ ['m', 'L'])
    exact he ▸ ⟨hk.1, hk.2⟩

/-- Changing the picture keeps the mode to save and its position. -/
theorem keeps_changePicture (f : Form) : Keeps f f.changePicture := by
  unfold Form.changePicture
  split <;> exact ⟨rfl, rfl⟩

/-- An edit of the page shown keeps the state coherent. -/
theorem Coherent.editForm {s : Ui j} (h : Coherent s) (hp : s.curShowPoppage = none) {id : ℕ}
    (hid : s.wind.curShowpage = some id) {f : Option Form}
    (hf : ∀ f', f = some f' → Keeps (s.form id) f') : Fine (s.editForm id f) Coherent := by
  cases f with
  | none => rfl
  | some f' =>
    obtain ⟨hpos, htmp⟩ := hf f' rfl
    refine ⟨h.unique, fun k hk => ?_, fun e he => ?_⟩
    · cases hid.symm.trans hk
      have hold := h.page id hid
      unfold PageFits at hold ⊢
      simp only [Function.update_self, hpos, htmp]
      exact hold
    · exact absurd (hp.symm.trans he) nofun

/-- A pop-up page opens for a mode of the list. -/
theorem Coherent.showPopPage {s : Ui j} (h : Coherent s) (hp : s.curShowPoppage = none)
    {e : EnterCallback} (he : PopFits s e) {position : ℤ}
    (hpos : At s.conf.modeDataList position fun _ => True) :
    Fine (s.showPopPage e position) Coherent := by
  obtain ⟨i, -, hi, -⟩ := hpos
  unfold Ui.showPopPage
  rw [hp, hi]
  refine ⟨h.unique, h.page, fun e' he' => ?_⟩
  cases he'
  cases e with
  | card id position => exact he
  | modify position => exact he

/-- A card of the page shown stands for a mode. -/
theorem Coherent.card_inside {s : Ui j} (h : Coherent s) {id p : ℕ}
    (hid : s.wind.curShowpage = some id) (ho : s.offers id (.card p) = true) :
    (s.wind.page id).type = .waterModeLayout ∧ s.adapter id = s.conf.modeDataList ∧
      p < s.conf.modeDataList.length := by
  obtain ⟨ht, hlt⟩ := Bool.and_eq_true_iff.mp ho
  have ht := of_decide_eq_true ht
  have hl := (pageFits_list ht).mp (h.page id hid)
  exact ⟨ht, hl, hl ▸ of_decide_eq_true hlt⟩

/-- Listeners of the page shown. -/
theorem Coherent.click {a : SaveAccess} {s : Ui j} (h : Coherent s) {id : ℕ}
    (hid : s.wind.curShowpage = some id) (hp : s.curShowPoppage = none) {c : Click}
    (ho : s.offers id c = true) : Fine (s.click a id c) Coherent := by
  have hfits := h.page id hid
  have hclosed : ∀ {s' : Ui j}, Coherent s'.dealClosePopPage ∧ s'.curShowPoppage = s.curShowPoppage →
      Coherent s' := by
    intro s' ⟨hc, hn⟩
    refine ⟨hc.unique, hc.page, fun e he => ?_⟩
    rw [hn, hp] at he
    cases he
  have hcur := curType_eq hid
  cases c with
  | steam mode => exact h.showPage hp .steamBarbecue rfl _ nofun nofun
  | cloudRecipe => exact h.showPage hp .waterModeLayout rfl _ nofun nofun
  | home => exact h.showPage hp .home rfl _ nofun nofun
  | back => exact h.showPage hp .waterModeLayout rfl _ nofun nofun
  | add => exact h.showPage hp .waterAdd rfl _ nofun fun _ => rfl
  | left p =>
    obtain ⟨ht, -, hlt⟩ := h.card_inside hid ho
    simp only [Ui.click]
    split
    · obtain ⟨l', hl⟩ := movedModes_some (l := s.conf.modeDataList) (p := p) (q := p - 1)
        (at_of_lt (by omega) (by omega)) (at_of_lt (by omega) (by omega))
      exact (change_refresh h.unique hid ht hl).mono fun _ => hclosed
    · exact h
  | right p =>
    obtain ⟨ht, hl, hlt⟩ := h.card_inside hid ho
    simp only [Ui.click, hl]
    split
    · obtain ⟨l', hl⟩ := movedModes_some (l := s.conf.modeDataList) (p := p) (q := p + 1)
        (at_of_lt (by omega) (by omega)) (at_of_lt (by omega) (by omega))
      exact (change_refresh h.unique hid ht hl).mono fun _ => hclosed
    · exact h
  | deleteCard p =>
    obtain ⟨ht, hm⟩ := Bool.and_eq_true_iff.mp ho
    have ht := of_decide_eq_true ht
    rw [(pageFits_list ht).mp hfits] at hm
    obtain ⟨m, hg, hd⟩ := (Option.any_eq_true _ _).mp hm
    have hlt := (List.getElem?_eq_some_iff.mp hg).1
    have hat : At s.conf.modeDataList p fun m => m.canDelete ≠ 0 :=
      ⟨p, m, index_eq_some.mpr ⟨rfl, hlt⟩, hg, of_decide_eq_true hd⟩
    have hfit : PopFits s (.card id p) := ⟨hid, ht, hat⟩
    exact h.showPopPage hp hfit (hat.mono fun _ _ => trivial)
  | card p =>
    obtain ⟨-, -, hlt⟩ := h.card_inside hid ho
    exact h.showPage hp .waterModify rfl _ (fun _ => at_of_lt (by omega) (by omega)) nofun
  | minusTemp | addTemp | minusChushuiliang | addChushuiliang =>
    exact h.editForm hp hid fun f' hf => keeps_addMinus hf
  | changePicture => exact h.editForm hp hid fun f' hf => Option.some.inj hf ▸ keeps_changePicture _
  | edit data text => exact h.editForm hp hid fun f' hf => Option.some.inj hf ▸ keeps_setText _ _ _
  | delete =>
    have ht := of_decide_eq_true ho
    have hat := ((pageFits_modify ht).mp hfits).mono fun _ _ => trivial
    have hfit : PopFits s (.modify (s.form id).position) := ⟨hcur.trans (congrArg some ht), hat⟩
    exact h.showPopPage hp hfit hat
  | confirm =>
    have ht := List.mem_pair.mp (of_decide_eq_true ho)
    have hne : s.wind.curType ≠ some .waterModeLayout := by
      rw [hcur]
      rcases ht with ht | ht <;> (rw [ht]; nofun)
    have hpos : (s.form id).position = -1 ∨
        At s.conf.modeDataList (s.form id).position fun _ => True := by
      cases ht with
      | inl ht => exact Or.inr (((pageFits_modify ht).mp hfits).mono fun _ _ => trivial)
      | inr ht => exact Or.inl ((pageFits_add ht).mp hfits).1
    obtain ⟨l', hl⟩ := updatedModes_some (m := (s.form id).confirm.tmpModedata) hpos
    exact (change_list (s := { s with form := Function.update s.form id (s.form id).confirm })
      h.unique hne hl).mono fun _ => hclosed

/-- The callback of the pop-up page, which closes it. -/
theorem Coherent.enter {a : SaveAccess} {s : Ui j} (h : Coherent s) {e : EnterCallback}
    (he : s.curShowPoppage = some e) : Fine ((s.enter a e).map dealClosePopPage) Coherent := by
  have hfits := h.pop e he
  cases e with
  | card id position =>
    obtain ⟨hid, ht, hat⟩ := hfits
    obtain ⟨l', hl⟩ := deletedModes_some (hat.mono fun _ _ => trivial)
    exact (change_refresh h.unique hid ht hl).map fun _ hs => hs.1
  | modify position =>
    obtain ⟨ht, hat⟩ := hfits
    have hne : s.wind.curType ≠ some .waterModeLayout := by
      rw [ht]
      nofun
    obtain ⟨l', hl⟩ := deletedModes_some hat
    exact (change_list h.unique hne hl).map fun _ hs => hs.1

/-- Clocks and the delayed close leave the page shown and the types of pages. -/
theorem Coherent.sameFrame {s : Ui j} (h : Coherent s) {wind : WindMgr}
    (hs : SameFrame s.wind wind) : Coherent { s with wind } := by
  have htype : wind.curType = s.wind.curType := by
    unfold WindMgr.curType
    rw [hs.cur]
    exact congrArg (Option.map · _) (funext hs.type)
  refine ⟨h.unique.same hs, fun id hid => ?_, fun e he => ?_⟩
  · have hp := h.page id (hs.cur ▸ hid)
    unfold PageFits at hp ⊢
    rw [← hs.type id] at hp
    exact hp
  · have hp := h.pop e he
    cases e with
    | card id position => exact ⟨hs.cur ▸ hp.1, (hs.type id).trans hp.2.1, hp.2.2⟩
    | modify position => exact ⟨htype.trans hp.1, hp.2⟩

/-! ## Runs -/

/-- Every delivered action is fine and keeps the state coherent. -/
theorem Coherent.step {s : Ui j} (h : Coherent s) (a : SaveAccess) {x : Action}
    (hx : Delivered s x) : Fine (s.step a x) Coherent := by
  cases x with
  | click id c => exact h.click (cur_of_root h hx.1) hx.2.1 hx.2.2
  | sure =>
    obtain ⟨e, he⟩ := Option.isSome_iff_exists.mp hx
    simp only [Ui.step, he]
    exact h.enter he
  | cancel => exact ⟨h.unique, h.page, nofun⟩
  | handleMessage => exact h.sameFrame h.unique.sameFrame_handleMessage
  | timer id => exact h.sameFrame (sameFrame_timer s.wind id)
  | onMeasure id => exact h.sameFrame (sameFrame_onMeasure s.wind id)
  | autoStart id => exact h.sameFrame (sameFrame_autoStart s.wind id)

/-- The state is coherent when the program starts. -/
theorem coherent_start (conf : CConfMgr j) (node : Node) : Coherent (start conf node) := by
  refine ⟨unique_initWindow.showPage .home 1 (-1), fun id hid => ?_, nofun⟩
  cases hid
  trivial

/-- A run of delivered actions keeps the state coherent. -/
theorem Coherent.run {allowed : Ui j → Action → Prop} (hd : ∀ s x, allowed s x → Delivered s x)
    {s₀ s : Ui j} (h₀ : Coherent s₀) (h : Run allowed s₀ s) : Coherent s := by
  induction h with
  | start => exact h₀
  | @step s s' a x h hx hs ih =>
    have hf := ih.step a (hd s x hx)
    rw [hs] at hf
    exact hf

/-- After any delivered actions, a list page that is shown holds the modes in
its adapter, and no further action leaves the list with a position. -/
theorem list_coherent_and_positions_inside {conf : CConfMgr j} {node : Node} {s : Ui j}
    (h : Run Delivered (start conf node) s) :
    (∀ id ∈ s.wind.rootPage, (s.wind.page id).type = .waterModeLayout →
      s.adapter id = s.conf.modeDataList) ∧
    ∀ a x, Delivered s x → s.step a x ≠ .error .index := by
  have hc := (coherent_start conf node).run (fun _ _ => id) h
  refine ⟨fun id hid ht => ?_, fun a x hx he => ?_⟩
  · exact (pageFits_list ht).mp (hc.page id (cur_of_root hc hid))
  · have hf := hc.step a hx
    rw [he] at hf
    cases hf

/-- Two modes, the second of them in a file. -/
def twoModes : CConfMgr lexemeJson := ⟨[plainMode, { quotedMode with dataPos := 2 }], .null⟩

/-- The list is opened and its first mode moved to the right. -/
theorem list_coherent_twoModes : ∃ s : Ui lexemeJson,
    s.conf.modeDataList = [quotedMode, { plainMode with dataPos := 2 }] ∧
      s.adapter 1 = s.conf.modeDataList ∧ ∀ a x, Delivered s x → s.step a x ≠ .error .index := by
  have hstart : Run Delivered (start twoModes plainFile) _ := Run.start
  have hlist := hstart.step (a := okSave) (x := .click 0 .cloudRecipe) ⟨by decide, rfl, rfl⟩ rfl
  have hclick : ∀ s : Ui lexemeJson, (s.adapter 1).length = 2 →
      s.step okSave (.click 1 (.right 0)) =
        (s.changeModes okSave (.movedMode 0 1)).map fun s => s.refresh 1 :=
    fun s h => if_pos (by rw [h]; decide)
  have hright := hlist.step (x := .click 1 (.right 0)) ⟨by decide, rfl, rfl⟩
    ((hclick _ rfl).trans (congrArg (Except.map _) (changeModes_okSave rfl rfl)))
  obtain ⟨hadapter, hindex⟩ := list_coherent_and_positions_inside hright
  exact ⟨_, by decide, hadapter 1 (by decide) rfl, hindex⟩

end CdroidDemo.PageCoherence
