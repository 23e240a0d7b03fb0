import CdroidDemo.PageCoherence

/-!
# What an action changes

An action at the screen leaves the modes and their file alone, or it makes one
change of them and saves it.
-/

namespace CdroidDemo.ScreenChanges

open Windows Windows.WindMgr PageCoherence JsonFunc ModeStore WaterModePages WaterModePages.Ui

variable {j : JsonCpp}

/-! ## The change of an action -/

/-- The position a pop-up page was opened for. -/
def popPosition : EnterCallback → ℤ
  | .card _ position | .modify position => position

/-- The change of the modes that an action makes. -/
def changeOf (s : Ui j) : Action → Option Change
  | .click _ (.left p) => if 0 < p then some (.movedMode p (p - 1)) else none
  | .click id (.right p) =>
    if p < (s.adapter id).length - 1 then some (.movedMode p (p + 1)) else none
  | .click id .confirm =>
    some (.updateModeDataByPos (s.form id).confirm.tmpModedata (s.form id).position)
  | .sure => s.curShowPoppage.map fun e => .deleteModeData (popPosition e)
  | _ => none

/-- A change by the save access was made and is what is left of the program. -/
def Made (a : SaveAccess) (s s' : Ui j) (c : Change) : Prop :=
  ∃ r, s.conf.change a s.node c = some r ∧ r.2.saved ≠ none ∧ s'.conf = r.1 ∧ s'.node = r.2.node

/-- The modes and their file after an action: its change was made, and without
one both are as before. -/
def Stored (a : SaveAccess) (s s' : Ui j) : Option Change → Prop
  | none => s'.conf = s.conf ∧ s'.node = s.node
  | some c => Made a s s' c

/-! ## Operations -/

/-- An operation on an outcome that succeeds comes from a success. -/
theorem ok_of_map {α β : Type} {r : Except Fault α} {f : α → β} {b : β}
    (h : r.map f = .ok b) : ∃ x, r = .ok x ∧ b = f x := by
  cases r with
  | error e => cases h
  | ok x =>
    cases h
    exact ⟨x, rfl, rfl⟩

/-- So does an operation that may fail itself. -/
theorem ok_of_bind {α β : Type} {r : Except Fault α} {f : α → Except Fault β} {b : β}
    (h : r.bind f = .ok b) : ∃ x, r = .ok x ∧ f x = .ok b := by
  cases r with
  | error e => cases h
  | ok x => exact ⟨x, rfl, h⟩

/-- Starting a page only fills its views. -/
theorem startPage_frame {s s' : Ui j} {type : PageType} {id : ℕ} {position : ℤ}
    (h : s.startPage type id position = .ok s') :
    s'.wind = s.wind ∧ s'.conf = s.conf ∧ s'.node = s.node ∧
      s'.curShowPoppage = s.curShowPoppage := by
  cases type with
  | waterModify =>
    unfold startPage at h
    dsimp only at h
    split at h
    · cases h
    · cases h
      exact ⟨rfl, rfl, rfl, rfl⟩
  | none | home | steamBarbecue | waterModeLayout | waterAdd | other value =>
    cases h
    exact ⟨rfl, rfl, rfl, rfl⟩

/-- The page of another type is shown and started. -/
theorem showPage_started {s s' : Ui j} {type : PageType} {mode position : ℤ}
    (hk : known type = true) (hc : s.wind.curType ≠ some type)
    (h : s.showPage type mode position = .ok s') :
    ∃ wind id, { s with wind }.startPage type id position = .ok s' ∧
      wind.curShowpage = some id ∧ (wind.page id).type = type := by
  obtain ⟨id, hshown, hid, htype⟩ := showPage_shown hk hc mode position
  refine ⟨_, id, ?_, hid, htype⟩
  rw [← h]
  unfold Ui.showPage
  generalize s.wind.showPage type mode position = r at hshown
  obtain ⟨wind, shown⟩ := r
  rcases hshown with hr | hr
  · cases hr
    rfl
  · cases hr
    rfl

/-- Going to the page shown does nothing. -/
theorem showPage_current {s s' : Ui j} {type : PageType} {mode position : ℤ}
    (hc : s.wind.curType = some type) (h : s.showPage type mode position = .ok s') : s' = s := by
  unfold Ui.showPage WindMgr.showPage at h
  rw [if_pos hc] at h
  cases h
  rfl

/-- Going to a page changes neither the modes nor the file. -/
theorem showPage_frame {s s' : Ui j} {type : PageType} {mode position : ℤ}
    (hk : known type = true) (h : s.showPage type mode position = .ok s') :
    s'.conf = s.conf ∧ s'.node = s.node ∧ s'.curShowPoppage = s.curShowPoppage := by
  by_cases hc : s.wind.curType = some type
  · cases showPage_current hc h
    exact ⟨rfl, rfl, rfl⟩
  · obtain ⟨wind, id, hstart, -, -⟩ := showPage_started hk hc h
    exact (startPage_frame hstart).2

/-- The change of a listener that came through. -/
theorem changeModes_ok {a : SaveAccess} {s s' : Ui j} {c : Change}
    (h : s.changeModes a c = .ok s') :
    ∃ r, s.conf.change a s.node c = some r ∧ r.2.saved ≠ none ∧
      s' = { s with conf := r.1, node := r.2.node } := by
  unfold changeModes at h
  cases hr : s.conf.change a s.node c with
  | none =>
    rw [hr] at h
    cases h
  | some r =>
    rw [hr] at h
    dsimp only at h
    split at h
    · cases h
    · next hsaved =>
      cases h
      exact ⟨r, rfl, hsaved, rfl⟩

/-! ## Actions -/

section Actions

variable {s s' s₁ : Ui j} {a : SaveAccess} {x : Action}

/-- A change that was made is what is left when what follows keeps the modes. -/
theorem made_of_changeModes {c : Change} (h : s.changeModes a c = .ok s₁)
    (hconf : s'.conf = s₁.conf) (hnode : s'.node = s₁.node) : Made a s s' c := by
  obtain ⟨r, hr, hsaved, rfl⟩ := changeModes_ok h
  exact ⟨r, hr, hsaved, hconf, hnode⟩

/-- A change whose list is then shown by the adapter of a page. -/
theorem made_refresh {c : Change} {id : ℕ}
    (h : ((s.changeModes a c).map fun s => s.refresh id) = .ok s') : Made a s s' c := by
  obtain ⟨s₁, h₁, rfl⟩ := ok_of_map h
  exact made_of_changeModes h₁ rfl rfl

/-- A change with the list page behind it. -/
theorem made_list {c : Change}
    (h : ((s.changeModes a c).bind fun s => s.showPage .waterModeLayout 1 (-1)) = .ok s') :
    Made a s s' c := by
  obtain ⟨s₁, h₁, hlist⟩ := ok_of_bind h
  obtain ⟨hconf, hnode, -⟩ := showPage_frame rfl hlist
  exact made_of_changeModes h₁ hconf hnode

/-- A click stores the change it makes. -/
theorem click_stored {id : ℕ} {c : Click} (h : s.click a id c = .ok s') :
    Stored a s s' (changeOf s (.click id c)) := by
  cases c with
  | steam | cloudRecipe | home | back | add | card =>
    obtain ⟨hconf, hnode, -⟩ := showPage_frame rfl h
    exact ⟨hconf, hnode⟩
  | left p | right p =>
    simp only [Ui.click] at h
    simp only [changeOf]
    split at h
    · next hp =>
      rw [if_pos hp]
      exact made_refresh h
    · next hp =>
      rw [if_neg hp]
      cases h
      exact ⟨rfl, rfl⟩
  | deleteCard | delete =>
    simp only [Ui.click, Ui.showPopPage] at h
    split at h
    · cases h
      exact ⟨rfl, rfl⟩
    · split at h
      · cases h
      · cases h
        exact ⟨rfl, rfl⟩
  | minusTemp | addTemp | minusChushuiliang | addChushuiliang =>
    simp only [Ui.click, Ui.editForm] at h
    split at h
    · cases h
    · cases h
      exact ⟨rfl, rfl⟩
  | changePicture | edit =>
    cases h
    exact ⟨rfl, rfl⟩
  | confirm =>
    have hmade := made_list (s := { s with form := Function.update s.form id (s.form id).confirm }) h
    exact hmade

/-- An action stores the change it makes, and nothing without one. -/
theorem step_stored (h : s.step a x = .ok s') : Stored a s s' (changeOf s x) := by
  cases x with
  | click id c => exact click_stored h
  | sure =>
    simp only [Ui.step] at h
    simp only [changeOf]
    cases he : s.curShowPoppage with
    | none =>
      rw [he] at h
      cases h
      exact ⟨rfl, rfl⟩
    | some e =>
      rw [he] at h
      obtain ⟨s₂, h₂, rfl⟩ := ok_of_map h
      cases e with
      | card id position =>
        have hmade := made_refresh (c := .deleteModeData position) h₂
        exact hmade
      | modify position =>
        have hmade := made_list (c := .deleteModeData position) h₂
        exact hmade
  | cancel | handleMessage | timer | onMeasure | autoStart =>
    cases h
    exact ⟨rfl, rfl⟩

end Actions

end CdroidDemo.ScreenChanges
