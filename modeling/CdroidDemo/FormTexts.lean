import CdroidDemo.ModeRestart
import CdroidDemo.WaterModePages

/-!
# The plus and minus buttons

A press reads a number from the text of its box. The digits that were picked
out of the text are not used, so the text itself must begin with a number that
an `int` can hold.
-/

namespace CdroidDemo.FormTexts

open JsonText JsonFunc ModeStore ModeRestart WaterModePages

/-- A text that begins with a decimal number, behind white space. -/
def Reads (text : List Char) (n : ℤ) : Prop :=
  ∃ spaces sign digits rest, text = spaces ++ (sign ++ (digits ++ rest)) ∧
    (∀ c ∈ spaces, isSpace c = true) ∧ (sign = [] ∨ sign = ['+'] ∨ sign = ['-']) ∧ digits ≠ [] ∧
    (∀ c ∈ digits, c.isDigit = true) ∧ rest.head?.any Char.isDigit = false ∧
    n = if sign = ['-'] then -(Nat.ofDigitChars 10 digits 0 : ℤ) else Nat.ofDigitChars 10 digits 0

/-! ## What `stoi` reads -/

/-- A sign changes only the sign of the number. -/
theorem signedDigits_eq (t : List Char) :
    signedDigits t = if t.head? = some '-' then -(leadingDigits (dropSign t) : ℤ)
      else leadingDigits (dropSign t) := by
  cases t with
  | nil => rfl
  | cons c s =>
    simp only [signedDigits, dropSign, List.head?_cons, Option.some.injEq]
    by_cases hm : c = '-'
    · simp only [hm, if_true, or_true]
    · by_cases hp : c = '+'
      · simp [hp]
      · simp only [hm, hp, if_false, or_self]

/-- A text is its sign and what follows. -/
theorem sign_append (t : List Char) :
    ∃ sign, t = sign ++ dropSign t ∧ (sign = [] ∨ sign = ['+'] ∨ sign = ['-']) ∧
      (t.head? = some '-' ↔ sign = ['-']) := by
  cases t with
  | nil => exact ⟨[], rfl, Or.inl rfl, iff_of_false (by simp) (by simp)⟩
  | cons c s =>
    by_cases hp : c = '+'
    · exact ⟨['+'], by simp [dropSign, hp], Or.inr (Or.inl rfl), by simp [hp]⟩
    · by_cases hm : c = '-'
      · exact ⟨['-'], by simp [dropSign, hm], Or.inr (Or.inr rfl), by simp [hm]⟩
      · exact ⟨[], by simp [dropSign, hp, hm], Or.inl rfl, by simp [hm]⟩

/-- Behind the digits that a text begins with there is no further one. -/
theorem dropWhile_digits (t : List Char) :
    (t.dropWhile Char.isDigit).head?.any Char.isDigit = false := by
  have h := List.head?_dropWhile_not Char.isDigit t
  cases hd : (t.dropWhile Char.isDigit).head? with
  | none => rfl
  | some c =>
    rw [hd] at h
    simpa using h

/-- The digits that a text begins with. -/
theorem takeWhile_digits {digits rest : List Char} (hd : ∀ c ∈ digits, c.isDigit = true)
    (hr : rest.head?.any Char.isDigit = false) :
    (digits ++ rest).takeWhile Char.isDigit = digits := by
  rw [List.takeWhile_append_of_pos hd]
  cases rest with
  | nil => exact List.append_nil digits
  | cons c rest =>
    have hc : ¬c.isDigit = true := by simpa using hr
    rw [List.takeWhile_cons_of_neg hc, List.append_nil]

/-- A sign in front of a digit is dropped and no white space. -/
theorem dropSign_sign {sign t : List Char} (hs : sign = [] ∨ sign = ['+'] ∨ sign = ['-'])
    (ht : t.head?.any Char.isDigit = true) :
    dropSign (sign ++ t) = t ∧ (sign ++ t).dropWhile isSpace = sign ++ t ∧
      ((sign ++ t).head? = some '-' ↔ sign = ['-']) := by
  cases t with
  | nil => cases ht
  | cons c t =>
    have hc : c.isDigit = true := by simpa using ht
    obtain ⟨-, hsp, hm, hp⟩ := isDigit_cases hc
    rcases hs with rfl | rfl | rfl
    · simp [dropSign, hsp, hm, hp]
    · simp [dropSign, isSpace]
    · simp [dropSign, isSpace]

/-- A text begins with the number that `stoi` takes from it. -/
theorem reads_iff (text : List Char) (n : ℤ) :
    Reads text n ↔ (dropSign (text.dropWhile isSpace)).head?.any Char.isDigit = true ∧
      n = signedDigits (text.dropWhile isSpace) := by
  constructor
  · rintro ⟨spaces, sign, digits, rest, rfl, hsp, hs, hne, hd, hr, rfl⟩
    have hh : (digits ++ rest).head?.any Char.isDigit = true := by
      cases digits with
      | nil => exact absurd rfl hne
      | cons d digits => simpa using hd d List.mem_cons_self
    obtain ⟨hdrop, hspace, hminus⟩ := dropSign_sign hs hh
    have ht : (spaces ++ (sign ++ (digits ++ rest))).dropWhile isSpace =
        sign ++ (digits ++ rest) := by
      rw [List.dropWhile_append_of_pos hsp, hspace]
    have hl : leadingDigits (digits ++ rest) = Nat.ofDigitChars 10 digits 0 := by
      rw [leadingDigits, takeWhile_digits hd hr]
    rw [ht, signedDigits_eq, hdrop, hl]
    exact ⟨hh, by simp only [hminus]⟩
  · rintro ⟨hh, rfl⟩
    obtain ⟨sign, ht, hs, hminus⟩ := sign_append (text.dropWhile isSpace)
    refine ⟨text.takeWhile isSpace, sign,
      (dropSign (text.dropWhile isSpace)).takeWhile Char.isDigit,
      (dropSign (text.dropWhile isSpace)).dropWhile Char.isDigit, ?_, ?_, hs, ?_, ?_,
      dropWhile_digits _, ?_⟩
    · rw [List.takeWhile_append_dropWhile, ← ht, List.takeWhile_append_dropWhile]
    · exact fun c hc => List.mem_takeWhile_imp hc
    · intro hnil
      cases hl : dropSign (text.dropWhile isSpace) with
      | nil =>
        rw [hl] at hh
        cases hh
      | cons c l =>
        rw [hl] at hh hnil
        have hc : c.isDigit = true := by simpa using hh
        rw [List.takeWhile_cons_of_pos hc] at hnil
        cases hnil
    · exact fun c hc => List.mem_takeWhile_imp hc
    · rw [signedDigits_eq]
      simp only [hminus]
      rfl

/-- `stoi` reads the number that a text begins with, if an `int` can hold it. -/
theorem stoi_isSome_iff (text : List Char) :
    (stoi text).isSome = true ↔ ∃ n, Reads text n ∧ -2 ^ 31 ≤ n ∧ n < 2 ^ 31 := by
  simp only [reads_iff]
  unfold stoi
  simp only
  split
  · rename_i h
    exact iff_of_true rfl ⟨_, ⟨h.1, rfl⟩, h.2⟩
  · rename_i h
    refine iff_of_false Bool.false_ne_true ?_
    rintro ⟨n, ⟨hh, rfl⟩, hn⟩
    exact h ⟨hh, hn⟩

/-! ## Presses -/

/-- The four buttons beside the boxes. -/
inductive Button
  /-- Less temperature. -/
  | minusTemp
  /-- More temperature. -/
  | addTemp
  /-- Less volume. -/
  | minusChushuiliang
  /-- More volume. -/
  | addChushuiliang
  deriving DecidableEq

/-- The box a button changes. -/
def Button.box : Button → Box
  | .minusTemp | .addTemp => .temp
  | .minusChushuiliang | .addChushuiliang => .chushuiliang

/-- The view of a button. -/
def Button.view : Button → Ui.Click
  | .minusTemp => .minusTemp
  | .addTemp => .addTemp
  | .minusChushuiliang => .minusChushuiliang
  | .addChushuiliang => .addChushuiliang

/-- The listener that `Start_Page_action` sets for a button. -/
def press (f : Form) : Button → Option Form
  | .minusTemp => f.addMinus .temp 0 1 0
  | .addTemp => f.addMinus .temp 1 1 0
  | .minusChushuiliang => f.addMinus .chushuiliang 0 50 1
  | .addChushuiliang => f.addMinus .chushuiliang 1 50 1

/-- A press completes when `stoi` reads the text. -/
theorem press_isSome (f : Form) (b : Button) :
    (press f b).isSome = (stoi (f.getText b.box)).isSome := by
  cases b <;> exact Option.isSome_map

variable {j : JsonCpp}

/-- A click on a button is its press; an exception ends the program. -/
theorem click_view (a : SaveAccess) (s : Ui j) (id : ℕ) (b : Button) :
    s.click a id b.view = s.editForm id (press (s.form id) b) := by
  cases b <;> rfl

/-- Pressing a button completes exactly when the text of its box begins with a
number, behind white space, that an `int` can hold. -/
theorem press_completes_iff (a : SaveAccess) (s : Ui j) (id : ℕ) (b : Button) :
    (∃ s', s.click a id b.view = .ok s') ↔
      ∃ n, Reads ((s.form id).getText b.box) n ∧ -2 ^ 31 ≤ n ∧ n < 2 ^ 31 := by
  rw [← stoi_isSome_iff, ← press_isSome, click_view]
  cases press (s.form id) b with
  | none => exact iff_of_false (fun h => by obtain ⟨s', h⟩ := h; cases h) Bool.false_ne_true
  | some f => exact iff_of_true ⟨_, rfl⟩ rfl

/-- The modes of a new device. -/
def localModes : List ModeData :=
  [{ dataPos := 1, chuShuiLiang := 350, canDelete := 0, dataType := "default".toList,
      modeName := "冰水".toList, temperature := "5~12".toList,
      imageDir := "@mipmap/pic_chushui_lengshui".toList },
    { dataPos := 2, chuShuiLiang := 350, canDelete := 0, dataType := "default".toList,
      modeName := "常温".toList, temperature := "实时".toList,
      imageDir := "@mipmap/pic_chushui_changwenshui".toList },
    { dataPos := 3, chuShuiLiang := 350, canDelete := 0, dataType := "default".toList,
      modeName := "沸水".toList, temperature := "98".toList,
      imageDir := "@mipmap/pic_chushui_feishui".toList }]

/-- The user goes from the home page to the list and to the page of the second
mode, and presses its plus button. -/
theorem press_throws : ∃ s : Ui lexemeJson,
    Ui.Run Ui.Delivered (Ui.start ⟨localModes, .null⟩ .absent) s ∧
      Ui.Delivered s (.click 2 Button.addTemp.view) ∧
      (s.form 2).displayTemp = "实时℃".toList ∧
      s.click okSave 2 Button.addTemp.view = .error .exception := by
  have hstart : Ui.Run Ui.Delivered
      (Ui.start (⟨localModes, .null⟩ : CConfMgr lexemeJson) .absent) _ := Ui.Run.start
  have hlist := hstart.step (a := okSave) (x := .click 0 .cloudRecipe) ⟨by decide, rfl, rfl⟩ rfl
  have hpage := hlist.step (a := okSave) (x := .click 1 (.card 1)) ⟨by decide, rfl, rfl⟩ rfl
  exact ⟨_, hpage, ⟨by decide, rfl, rfl⟩, rfl, rfl⟩

end CdroidDemo.FormTexts
