import CdroidDemo.ScreenChanges

/-!
# Built-in modes

Modes that cannot be deleted stay in the list. The card of such a mode has no
delete button, but the modify page has one for every mode.
-/

namespace CdroidDemo.BuiltinModes

open JsonText JsonFunc ModeStore ModeEncoding ModeRestart PageCoherence ScreenChanges
open WaterModePages WaterModePages.Ui

variable {j : JsonCpp}

/-! ## What an action does to the list -/

/-- The list after the change, if there is one. -/
def Asked (l : List ModeData) (c : Option Change) (l' : List ModeData) : Prop :=
  match c with
  | none => l' = l
  | some c => c.modes l = some l'

/-- An action changes the list as it asks for. -/
theorem step_asked {a : SaveAccess} {s s' : Ui j} {x : Action} (h : s.step a x = .ok s') :
    Asked s.conf.modeDataList (changeOf s x) s'.conf.modeDataList := by
  have hstored := step_stored h
  cases hc : changeOf s x with
  | none =>
    rw [hc] at hstored
    exact congrArg _ hstored.1
  | some c =>
    rw [hc] at hstored
    obtain ⟨r, hr, -, hconf, -⟩ := hstored
    rw [change_eq] at hr
    obtain ⟨l, hl, rfl⟩ := Option.map_eq_some_iff.mp hr
    rw [hconf]
    exact hl

/-! ## The built-in modes of a list -/

/-- They are told apart by type and name, which nothing edits. -/
def builtIns (l : List ModeData) : List (Int32 × List Char × List Char) :=
  (l.map brand).filter fun b => b.1 = 0

/-- A mode that cannot be deleted is a built-in one. -/
theorem builtIns_cons (m : ModeData) (l : List ModeData) :
    builtIns (m :: l) = if m.canDelete = 0 then brand m :: builtIns l else builtIns l := by
  unfold builtIns
  rw [List.map_cons]
  split
  · rename_i hd
    exact List.filter_cons_of_pos (decide_eq_true hd)
  · rename_i hd
    exact List.filter_cons_of_neg fun hc => hd (of_decide_eq_true hc)

/-- Their order is that of the list. -/
theorem builtIns_perm {l l' : List ModeData} (h : l.Perm l') : (builtIns l).Perm (builtIns l') :=
  (h.map brand).filter _

/-- Positions do not matter. -/
theorem builtIns_unplaced (l : List ModeData) : builtIns (l.map ModeData.unplaced) = builtIns l := by
  unfold builtIns
  rw [List.map_map]
  rfl

/-- A change leaves the built-in modes among those it keeps. -/
theorem builtIns_kept {c : Change} {l l' : List ModeData} (h : c.modes l = some l') :
    (builtIns (c.kept l)).Perm (builtIns l') := by
  have hp := builtIns_perm (modes_unplaced h)
  rw [builtIns_unplaced, builtIns_unplaced] at hp
  exact hp.symm

/-- A new mode that can be deleted, or another version of a mode. -/
theorem builtIns_update {l l' : List ModeData} {m : ModeData} {p : ℤ}
    (hm : (p = -1 ∧ m.canDelete = 1) ∨ At l p fun m' => brand m' = brand m)
    (h : (Change.updateModeDataByPos m p).modes l = some l') : (builtIns l).Perm (builtIns l') := by
  have hk := builtIns_kept h
  refine List.Perm.trans (List.Perm.of_eq ?_) hk
  simp only [Change.kept]
  rcases hm with ⟨hp, hd⟩ | ⟨i, m', hi, hm', hb⟩
  · have hone : builtIns [m] = [] := by
      rw [builtIns_cons, hd]
      rfl
    rw [if_pos hp]
    unfold builtIns at hone ⊢
    rw [List.map_append, List.filter_append, hone, List.append_nil]
  · obtain ⟨rfl, hlt⟩ := index_eq_some.mp hi
    obtain ⟨_, rfl⟩ := List.getElem?_eq_some_iff.mp hm'
    rw [if_neg (by omega)]
    unfold builtIns
    rw [Int.toNat_natCast, List.map_set, ← hb, ← List.map_set, List.set_getElem_self]

/-- A deletion leaves the built-in modes if and only if it takes another mode. -/
theorem builtIns_delete {l l' : List ModeData} {p : ℤ}
    (h : (Change.deleteModeData p).modes l = some l') :
    (builtIns l).Perm (builtIns l') ↔ At l p fun m => m.canDelete ≠ 0 := by
  have hk := builtIns_kept h
  obtain ⟨i, hi, -⟩ := Option.map_eq_some_iff.mp h
  obtain ⟨rfl, hlt⟩ := index_eq_some.mp hi
  have hc := builtIns_perm (List.getElem_cons_eraseIdx_perm hlt)
  rw [builtIns_cons] at hc
  have hkept : (Change.deleteModeData i).kept l = l.eraseIdx i := rfl
  rw [hkept] at hk
  have hget := List.getElem?_eq_getElem hlt
  split at hc
  · rename_i hd
    refine iff_of_false (fun hp => ?_) ?_
    · have h₁ := hp.length_eq
      have h₂ := hk.length_eq
      have h₃ := hc.length_eq
      rw [List.length_cons] at h₃
      omega
    · rintro ⟨k, m, hk', hm, hne⟩
      cases hi.symm.trans hk'
      cases hget.symm.trans hm
      exact hne hd
  · rename_i hd
    exact iff_of_true (hc.symm.trans hk) ⟨i, l[i], hi, hget, hd⟩

/-! ## Runs -/

/-- The pop-up page of a modify page is confirmed only for other modes. -/
def Spares (s : Ui j) : Action → Prop
  | .sure => ∀ position, s.curShowPoppage = some (.modify position) →
    At s.conf.modeDataList position fun m => m.canDelete ≠ 0
  | _ => True

/-- An action leaves the built-in modes if and only if it spares them. -/
theorem builtIns_step {a : SaveAccess} {s s' : Ui j} (h : Coherent s) {x : Action}
    (hx : Delivered s x) (hs : s.step a x = .ok s') :
    (builtIns s.conf.modeDataList).Perm (builtIns s'.conf.modeDataList) ↔ Spares s x := by
  have hasked := step_asked hs
  have hsame : changeOf s x = none →
      (builtIns s.conf.modeDataList).Perm (builtIns s'.conf.modeDataList) := by
    intro hn
    rw [hn] at hasked
    exact List.Perm.of_eq (congrArg builtIns hasked.symm)
  cases x with
  | click id c =>
    refine iff_of_true ?_ trivial
    cases c with
    | left p | right p =>
      simp only [changeOf] at hasked
      split at hasked
      · exact builtIns_kept hasked
      · exact List.Perm.of_eq (congrArg builtIns hasked.symm)
    | confirm =>
      have ht := List.mem_pair.mp (of_decide_eq_true hx.2.2)
      have hfits := h.page id (cur_of_root h hx.1)
      refine builtIns_update ?_ hasked
      cases ht with
      | inl ht => exact Or.inr ((pageFits_modify ht).mp hfits)
      | inr ht => exact Or.inl ((pageFits_add ht).mp hfits)
    | steam | cloudRecipe | home | back | add | deleteCard | card | minusTemp | addTemp |
      minusChushuiliang | addChushuiliang | changePicture | edit | delete => exact hsame rfl
  | sure =>
    obtain ⟨e, he⟩ := Option.isSome_iff_exists.mp hx
    have hfits := h.pop e he
    simp only [changeOf, he] at hasked
    unfold Spares
    cases e with
    | card id position =>
      refine iff_of_true ((builtIns_delete hasked).mpr hfits.2.2) fun p hp => ?_
      cases he.symm.trans hp
    | modify position =>
      rw [builtIns_delete hasked]
      refine ⟨fun hat p hp => ?_, fun hall => hall position he⟩
      cases he.symm.trans hp
      exact hat
  | cancel | handleMessage | timer id | onMeasure id | autoStart id =>
    exact iff_of_true (hsame rfl) trivial

/-- In every run that spares them the built-in modes stay in the list, and a
further action leaves them if and only if it spares them too. -/
theorem builtIns_stay {conf : CConfMgr j} {node : Node} {s : Ui j}
    (h : Run (fun s x => Delivered s x ∧ Spares s x) (start conf node) s) :
    (builtIns conf.modeDataList).Perm (builtIns s.conf.modeDataList) ∧
    ∀ a x s', Delivered s x → s.step a x = .ok s' →
      ((builtIns conf.modeDataList).Perm (builtIns s'.conf.modeDataList) ↔ Spares s x) := by
  have hp : (builtIns conf.modeDataList).Perm (builtIns s.conf.modeDataList) := by
    induction h with
    | start => exact List.Perm.refl _
    | step h hx hs ih =>
      have hc := (coherent_start conf node).run (fun _ _ => And.left) h
      exact ih.trans ((builtIns_step hc hx.1 hs).mpr hx.2)
  have hc := (coherent_start conf node).run (fun _ _ => And.left) h
  refine ⟨hp, fun a x s' hx hs => ?_⟩
  rw [← builtIns_step hc hx hs]
  exact ⟨hp.symm.trans, hp.trans⟩

/-! ## The delete button of the modify page -/

/-- The modify page takes over the mode at its position. -/
theorem startPage_modify {s : Ui j} {id p : ℕ} (hp : p < s.conf.modeDataList.length) :
    s.startPage .waterModify id p = .ok
      { s with form := Function.update s.form id (Form.showMode s.conf.modeDataList[p] p) } := by
  unfold startPage
  simp only [Form.startModify, index_eq_some.mpr ⟨rfl, hp⟩, Option.bind_some,
    List.getElem?_eq_getElem hp, Option.map_some]

/-- The delete button of the modify page opens a pop-up page. -/
theorem step_delete {a : SaveAccess} {s : Ui j} {id p : ℕ} (hn : s.curShowPoppage = none)
    (he : (s.form id).position = p) (hp : p < s.conf.modeDataList.length) :
    s.step a (.click id .delete) = .ok { s with curShowPoppage := some (.modify p) } := by
  simp only [Ui.step, Ui.click, Ui.showPopPage, hn, he, index_eq_some.mpr ⟨rfl, hp⟩]
  rfl

/-- Confirmed, this page deletes the mode and saves the list. -/
theorem step_sure {s : Ui j} {p : ℤ} {l : List ModeData} {content : List Char}
    (he : s.curShowPoppage = some (.modify p))
    (hl : (Change.deleteModeData p).modes s.conf.modeDataList = some l) (hn : s.node = .file content) :
    s.step okSave .sure = (({ s with
      conf := { s.conf with modeDataList := l },
      node := (saveModes j okSave l s.node).node }.showPage .waterModeLayout 1 (-1)).map
        dealClosePopPage) := by
  simp only [Ui.step, he, Ui.enter]
  rw [changeModes_okSave hl hn, he]
  rfl

/-- Any mode can be opened and deleted from its page. -/
theorem deleted_from_page {conf : CConfMgr j} {p : ℕ} (hp : p < conf.modeDataList.length)
    (content : List Char) : ∃ s : Ui j, Run Delivered (start conf (.file content)) s ∧
      (Change.deleteModeData p).modes conf.modeDataList = some s.conf.modeDataList := by
  obtain ⟨l, hl⟩ := deletedModes_some (at_of_lt (l := conf.modeDataList) (p := p) (by omega) (by omega))
  have hstart : Run Delivered (start conf (.file content)) _ := Run.start
  have hlist := hstart.step (a := okSave) (x := .click 0 .cloudRecipe)
    ⟨List.mem_singleton_self _, rfl, rfl⟩ rfl
  have hcard := hlist.step (a := okSave) (x := .click 1 (.card p))
    ⟨List.mem_singleton_self _, rfl, decide_eq_true hp⟩ (startPage_modify hp)
  have hdelete := hcard.step (a := okSave) (x := .click 2 .delete)
    ⟨List.mem_singleton_self _, rfl, rfl⟩ (step_delete rfl rfl hp)
  have hsure := hdelete.step (a := okSave) (x := .sure) rfl ((step_sure rfl hl rfl).trans rfl)
  exact ⟨_, hsure, hl⟩

/-- A mode of the device, and one that was added. -/
def builtInMode : ModeData := { plainMode with canDelete := 0, dataType := "default".toList }

/-- A list of a built-in mode and another one. -/
def builtInList : List ModeData := [builtInMode, { plainMode with dataPos := 2 }]

/-- The store of this list. -/
def builtInStore : CConfMgr lexemeJson := ⟨builtInList, modesValue builtInList⟩

/-- The file of this list. -/
def builtInFile : Node := .file (lexemeJson.writeString (modesValue builtInList))

/-- The added mode is deleted from its card. -/
theorem builtIns_stay_builtInStore : ∃ s : Ui lexemeJson, s.conf.modeDataList = [builtInMode] ∧
    (builtIns builtInList).Perm (builtIns s.conf.modeDataList) ∧
    ∀ a x s', Delivered s x → s.step a x = .ok s' →
      ((builtIns builtInList).Perm (builtIns s'.conf.modeDataList) ↔ Spares s x) := by
  have hsure : ∀ s : Ui lexemeJson, s.curShowPoppage = some (.card 1 1) → s.step okSave .sure =
      ((s.changeModes okSave (.deleteModeData 1)).map fun s => s.refresh 1).map
        dealClosePopPage := by
    intro s h
    simp only [Ui.step, h, Ui.enter]
  have hstart : Run (fun s x => Delivered s x ∧ Spares s x) (start builtInStore builtInFile) _ :=
    Run.start
  have hlist := hstart.step (a := okSave) (x := .click 0 .cloudRecipe)
    ⟨⟨List.mem_singleton_self _, rfl, rfl⟩, trivial⟩ rfl
  have hdelete := hlist.step (a := okSave) (x := .click 1 (.deleteCard 1))
    ⟨⟨List.mem_singleton_self _, rfl, rfl⟩, trivial⟩ rfl
  have hdone := hdelete.step (x := .sure) ⟨rfl, fun p hp => by cases hp⟩ ((hsure _ rfl).trans
    (congrArg (fun r => (Except.map _ r).map dealClosePopPage) (changeModes_okSave rfl rfl)))
  exact ⟨_, rfl, builtIns_stay hdone⟩

/-- The file of the two modes is loaded, and the one of the device is deleted
from its page. -/
theorem builtInMode_deleted :
    CConfMgr.init lexemeJson sortByPos okInit (.new lexemeJson) builtInFile =
      some (builtInStore, builtInFile) ∧
    builtInMode ∈ builtInStore.modeDataList ∧ builtInMode.canDelete = 0 ∧
    ∃ s : Ui lexemeJson, Run Delivered (start builtInStore builtInFile) s ∧
      ∀ m ∈ s.conf.modeDataList, m.canDelete ≠ 0 := by
  have htidy : Tidy builtInList := by
    refine ⟨fun i m hm => ?_, by decide⟩
    match i with
    | 0 | 1 =>
      cases hm
      rfl
    | i + 2 => cases hm
  have hinit : CConfMgr.init lexemeJson sortByPos okInit (.new lexemeJson) builtInFile =
      some (builtInStore, builtInFile) :=
    init_document lexemeJson_strict lexemeJson_inverse sorts_sortByPos htidy ⟨rfl, rfl, rfl⟩ rfl
  have hlt : 0 < builtInStore.modeDataList.length := by decide
  obtain ⟨s, hrun, hl⟩ := deleted_from_page hlt (lexemeJson.writeString (modesValue builtInList))
  have hone : [plainMode] = s.conf.modeDataList := Option.some.inj hl
  refine ⟨hinit, List.mem_cons_self, rfl, s, hrun, ?_⟩
  rw [← hone]
  decide

end CdroidDemo.BuiltinModes
