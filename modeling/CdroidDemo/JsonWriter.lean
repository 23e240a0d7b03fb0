import CdroidDemo.JsonReader

/-!
# A writer of JSON text

Containers are written over several lines, indented by tabs. What is written
for a value whose members are in order is a text that denotes the value.
-/

namespace CdroidDemo.JsonWriter

open OrderedMap JsonText JsonReader

variable {ν : Type} {decode : List Char → ν}

/-! ## Values as readers produce them -/

/-- Objects keep their members in the order of the names, at every depth. -/
inductive Canonical : Json ν → Prop
  /-- `null` is written in one way. -/
  | null : Canonical .null
  /-- So is a truth value. -/
  | bool (b : Bool) : Canonical (.bool b)
  /-- So is a number. -/
  | num (n : ν) : Canonical (.num n)
  /-- So is a string. -/
  | str (s : List Char) : Canonical (.str s)
  /-- An array is, if its elements are. -/
  | arr {vs : List (Json ν)} (h : ∀ v ∈ vs, Canonical v) : Canonical (.arr vs)
  /-- An object is, if its names ascend and its members are. -/
  | obj {ms : List (List Char × Json ν)} (ha : Ascending ms) (h : ∀ m ∈ ms, Canonical m.2) :
      Canonical (.obj ms)

/-- The values of an item are canonical. -/
def CanonicalItem : Item ν → Prop
  | .value v | .element v => Canonical v
  | .elements vs => ∀ v ∈ vs, Canonical v
  | .member m => Canonical m.2
  | .members ms => ∀ m ∈ ms, Canonical m.2

/-- Texts denote canonical values. -/
theorem denotes_canonical {t : List Char} {i : Item ν} (h : Denotes decode t i) :
    CanonicalItem i := by
  induction h with
  | litNull => exact Canonical.null
  | litTrue => exact Canonical.bool true
  | litFalse => exact Canonical.bool false
  | num _ => exact Canonical.num _
  | str _ => exact Canonical.str _
  | arrNil _ => exact Canonical.arr nofun
  | arr _ ih => exact Canonical.arr ih
  | objNil _ => exact Canonical.obj ascending_nil nofun
  | @obj l ms _ ih =>
    refine Canonical.obj (ascending_collect ms) fun m hm => ih m ?_
    exact mem_of_findEntry_collect (findEntry_of_mem (ascending_collect ms) hm)
  | element _ _ _ ih => exact ih
  | elementsOne _ ih => exact fun v hv => List.mem_singleton.mp hv ▸ ih
  | elementsCons _ _ ih ih' => exact List.forall_mem_cons.mpr ⟨ih, ih'⟩
  | member _ _ _ _ ih => exact ih
  | membersOne _ ih => exact fun m hm => List.mem_singleton.mp hm ▸ ih
  | membersCons _ _ ih ih' => exact List.forall_mem_cons.mpr ⟨ih, ih'⟩

/-! ## The writer -/

/-- The hexadecimal digit of a value below 16. -/
def hexDigit (n : ℕ) : Char :=
  if n < 10 then Char.ofNat (0x30 + n) else Char.ofNat (0x57 + n)

/-- A character inside a string. -/
def writeChar (c : Char) : List Char :=
  if plainChar c then [c]
  else if c = '"' then ['\\', '"']
  else if c = '\\' then ['\\', '\\']
  else ['\\', 'u', '0', '0', hexDigit (c.toNat / 16), hexDigit (c.toNat % 16)]

/-- A string in quotes. -/
def writeString (s : List Char) : List Char := '"' :: s.flatMap writeChar ++ ['"']

/-- A new line with `d` tabs. -/
def newline (d : ℕ) : List Char := '\n' :: List.replicate d '\t'

mutual

/-- A value at depth `d`. -/
def writeValue (writeNum : ν → List Char) (d : ℕ) : Json ν → List Char
  | .null => ['n', 'u', 'l', 'l']
  | .bool true => ['t', 'r', 'u', 'e']
  | .bool false => ['f', 'a', 'l', 's', 'e']
  | .num n => writeNum n
  | .str s => writeString s
  | .arr [] => ['[', ']']
  | .arr (v :: vs) =>
    '[' :: (newline (d + 1) ++ writeValue writeNum (d + 1) v ++
      writeElements writeNum (d + 1) vs ++ newline d) ++ [']']
  | .obj [] => ['{', '}']
  | .obj ((k, v) :: ms) =>
    '{' :: (newline (d + 1) ++ writeString k ++ ' ' :: ':' :: ' ' ::
      writeValue writeNum (d + 1) v ++ writeMembers writeNum (d + 1) ms ++ newline d) ++ ['}']

/-- The elements after the first. -/
def writeElements (writeNum : ν → List Char) (d : ℕ) : List (Json ν) → List Char
  | [] => []
  | v :: vs => ',' :: newline d ++ writeValue writeNum d v ++ writeElements writeNum d vs

/-- The members after the first. -/
def writeMembers (writeNum : ν → List Char) (d : ℕ) : List (List Char × Json ν) → List Char
  | [] => []
  | (k, v) :: ms =>
    ',' :: newline d ++ writeString k ++ ' ' :: ':' :: ' ' :: writeValue writeNum d v ++
      writeMembers writeNum d ms

end

/-! ## What is written is read back -/

/-- A digit is read back. -/
theorem hexVal_hexDigit : ∀ n < 16, hexVal (hexDigit n) = some n := by decide

/-- Characters that are neither plain nor escaped by a letter are below the blank. -/
theorem toNat_lt_of_not_plain {c : Char} (h : plainChar c = false) (hq : c ≠ '"') (hb : c ≠ '\\') :
    c.toNat < 0x20 := by
  unfold plainChar at h
  simpa [hq, hb] using h

/-- A character is read back as it was, -/
theorem stringChar_writeChar (c : Char) : StringChar (writeChar c) c := by
  unfold writeChar
  split
  · rename_i hp
    exact StringChar.plain hp
  split
  · rename_i hq
    subst hq
    exact StringChar.escape (by decide)
  split
  · rename_i hb
    subst hb
    exact StringChar.escape (by decide)
  · rename_i hp hq hb
    have hlt := toNat_lt_of_not_plain (Bool.eq_false_iff.mpr hp) hq hb
    have hx : hex4 '0' '0' (hexDigit (c.toNat / 16)) (hexDigit (c.toNat % 16)) =
        some c.toNat := by
      have h0 : hexVal '0' = some 0 := by decide
      simp only [hex4, h0, hexVal_hexDigit _ (show c.toNat / 16 < 16 by omega),
        hexVal_hexDigit _ (show c.toNat % 16 < 16 by omega), Option.bind_eq_bind, Option.bind_some,
        Option.pure_def, Option.some.injEq]
      omega
    have hu := StringChar.unicode hx (by unfold isHigh; simp; omega) (by unfold isLow; simp; omega)
    rwa [Char.ofNat_toNat] at hu

/-- and so are all of them. -/
theorem chars_flatMap (s : List Char) : Chars (s.flatMap writeChar) s := by
  induction s with
  | nil => exact Chars.nil
  | cons c s ih => exact Chars.cons (stringChar_writeChar c) ih

/-- An indentation is white space. -/
theorem ws_newline (d : ℕ) : Ws (newline d) := by
  intro c hc
  cases List.mem_cons.mp hc with
  | inl hc => exact hc ▸ rfl
  | inr hc => exact (List.eq_of_mem_replicate hc) ▸ rfl

/-- Nothing is white space. -/
theorem ws_nil : Ws [] := nofun

/-- A value with white space around it. -/
theorem denotes_element {w l w' : List Char} {v : Json ν} (hw : Ws w)
    (h : Denotes decode l (.value v)) (hw' : Ws w') : Denotes decode (w ++ (l ++ w')) (.element v) := by
  rw [← List.append_assoc]
  exact Denotes.element hw h hw'

/-- A member as it is written. -/
theorem denotes_member {w l w' k : List Char} {v : Json ν} (hw : Ws w)
    (h : Denotes decode l (.value v)) (hw' : Ws w') :
    Denotes decode (w ++ (writeString k ++ ' ' :: ':' :: ' ' :: (l ++ w'))) (.member (k, v)) := by
  have hb : Ws [' '] := fun c hc => List.mem_singleton.mp hc ▸ rfl
  have hm := Denotes.member hw (chars_flatMap k) hb (denotes_element hb h hw')
  simpa only [writeString, List.append_assoc, List.cons_append, List.nil_append,
    List.singleton_append] using hm

variable {writeNum : ν → List Char}

/-- Elements that are written denote themselves. -/
theorem denotes_writeElements {d : ℕ} {w : List Char} (hw : Ws w) (v : Json ν) (vs : List (Json ν))
    (h : ∀ u ∈ v :: vs, Denotes decode (writeValue writeNum d u) (.value u)) :
    Denotes decode (newline d ++ (writeValue writeNum d v ++ (writeElements writeNum d vs ++ w)))
      (.elements (v :: vs)) := by
  have hv := h v List.mem_cons_self
  induction vs generalizing v with
  | nil =>
    exact Denotes.elementsOne (denotes_element (ws_newline d) hv hw)
  | cons u vs ih =>
    have hrest := ih u (fun x hx => h x (List.mem_cons_of_mem v hx))
      (h u (List.mem_cons_of_mem v List.mem_cons_self))
    have hone := denotes_element (ws_newline d) hv ws_nil
    rw [List.append_nil] at hone
    have hc := Denotes.elementsCons hone hrest
    simpa only [writeElements, List.append_assoc, List.cons_append] using hc

/-- Written members are read back. -/
theorem denotes_writeMembers {d : ℕ} {w : List Char} (hw : Ws w) (k : List Char) (v : Json ν)
    (ms : List (List Char × Json ν))
    (h : ∀ m ∈ (k, v) :: ms, Denotes decode (writeValue writeNum d m.2) (.value m.2)) :
    Denotes decode (newline d ++ (writeString k ++ ' ' :: ':' :: ' ' :: (writeValue writeNum d v ++
      (writeMembers writeNum d ms ++ w)))) (.members ((k, v) :: ms)) := by
  have hv := h (k, v) List.mem_cons_self
  induction ms generalizing k v with
  | nil => exact Denotes.membersOne (denotes_member (ws_newline d) hv hw)
  | cons m ms ih =>
    obtain ⟨k', v'⟩ := m
    have hrest := ih k' v' (fun x hx => h x (List.mem_cons_of_mem _ hx))
      (h (k', v') (List.mem_cons_of_mem _ List.mem_cons_self))
    have hone := denotes_member (k := k) (ws_newline d) hv ws_nil
    rw [List.append_nil] at hone
    have hc := Denotes.membersCons hone hrest
    simpa only [writeMembers, List.append_assoc, List.cons_append] using hc

/-- Numbers are written as lexemes that mean them. -/
def WritesNumbers (decode : List Char → ν) (writeNum : ν → List Char) : Prop :=
  ∀ n, isNumber (writeNum n) = true ∧ decode (writeNum n) = n

/-- What is written for a canonical value denotes it. -/
theorem denotes_writeValue (hn : WritesNumbers decode writeNum) {v : Json ν} (h : Canonical v)
    (d : ℕ) : Denotes decode (writeValue writeNum d v) (.value v) := by
  induction h generalizing d with
  | null => exact Denotes.litNull
  | bool b =>
    cases b with
    | true => exact Denotes.litTrue
    | false => exact Denotes.litFalse
  | num n =>
    have hd : Denotes decode (writeNum n) (.value (.num (decode (writeNum n)))) :=
      Denotes.num (hn n).1
    rw [(hn n).2] at hd
    exact hd
  | str s => exact Denotes.str (chars_flatMap s)
  | @arr vs h ih =>
    cases vs with
    | nil => exact Denotes.arrNil ws_nil
    | cons v vs =>
      have ha := denotes_writeElements (ws_newline d) v vs fun u hu => ih u hu (d + 1)
      simpa only [writeValue, List.append_assoc] using Denotes.arr ha
  | @obj ms ha h ih =>
    cases ms with
    | nil => exact Denotes.objNil ws_nil
    | cons m ms =>
      obtain ⟨k, v⟩ := m
      have hm := denotes_writeMembers (ws_newline d) k v ms fun m hm => ih m hm (d + 1)
      have ho := Denotes.obj hm
      rw [collect_ascending ha] at ho
      simpa only [writeValue, List.append_assoc, List.cons_append] using ho

/-- A document that is written is read back as it was. -/
theorem parseDocument_writeValue (hn : WritesNumbers decode writeNum) {v : Json ν}
    (h : Canonical v) (hr : isRoot v = true) :
    parseDocument decode (writeValue writeNum 0 v) = some v := by
  refine parseDocument_iff.mpr ⟨?_, hr⟩
  have hd := denotes_element ws_nil (denotes_writeValue hn h 0) ws_nil
  rwa [List.append_nil] at hd

end CdroidDemo.JsonWriter
