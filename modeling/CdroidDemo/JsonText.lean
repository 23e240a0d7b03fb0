import Mathlib.Data.Char
import Mathlib.Data.List.Induction
import Mathlib.Data.List.Lex
import CdroidDemo.OrderedMap

/-!
# JSON text

The grammar of standard JSON over Unicode text, and the value a text denotes.
Numbers keep the meaning that a reader gives to their lexeme. Object members
are kept in the order of their names; the last of several members with one
name counts.
-/

namespace CdroidDemo.JsonText

open OrderedMap

/-- JSON values over a type of numbers. -/
inductive Json (ν : Type)
  /-- `null`. -/
  | null
  /-- A truth value. -/
  | bool (b : Bool)
  /-- A number. -/
  | num (n : ν)
  /-- A string. -/
  | str (s : List Char)
  /-- The elements in order. -/
  | arr (vs : List (Json ν))
  /-- Members in the order of their names. -/
  | obj (ms : List (List Char × Json ν))

variable {ν : Type}

/-! ## Characters -/

/-- White space between tokens. -/
def isWs (c : Char) : Bool := c = ' ' || c = '\t' || c = '\n' || c = '\r'

/-- A text of white space. -/
def Ws (w : List Char) : Prop := ∀ c ∈ w, isWs c = true

/-- A character that stands for itself in a string. -/
def plainChar (c : Char) : Bool := c ≠ '"' && c ≠ '\\' && 0x20 ≤ c.toNat

/-- The value of a hexadecimal digit. -/
def hexVal (c : Char) : Option ℕ :=
  if '0' ≤ c ∧ c ≤ '9' then some (c.toNat - 0x30)
  else if 'a' ≤ c ∧ c ≤ 'f' then some (c.toNat - 0x61 + 10)
  else if 'A' ≤ c ∧ c ≤ 'F' then some (c.toNat - 0x41 + 10)
  else none

/-- The value of four hexadecimal digits. -/
def hex4 (a b c d : Char) : Option ℕ := do
  return (((← hexVal a) * 16 + (← hexVal b)) * 16 + (← hexVal c)) * 16 + (← hexVal d)

/-- The character behind a backslash, for escapes of one character. -/
def simpleEscape (c : Char) : Option Char :=
  if c = '"' ∨ c = '\\' ∨ c = '/' then some c
  else if c = 'b' then some (Char.ofNat 8)
  else if c = 'f' then some (Char.ofNat 12)
  else if c = 'n' then some '\n'
  else if c = 'r' then some '\r'
  else if c = 't' then some '\t'
  else none

/-- Leading surrogates. -/
def isHigh (n : ℕ) : Bool := 0xD800 ≤ n && n < 0xDC00

/-- Trailing surrogates. -/
def isLow (n : ℕ) : Bool := 0xDC00 ≤ n && n < 0xE000

/-- The character of a surrogate pair. -/
def pairChar (n m : ℕ) : Char := Char.ofNat (0x10000 + (n - 0xD800) * 0x400 + (m - 0xDC00))

/-- One character of a string and its text. A surrogate alone is no character. -/
inductive StringChar : List Char → Char → Prop
  /-- A character that stands for itself. -/
  | plain {c : Char} (h : plainChar c = true) : StringChar [c] c
  /-- A character behind a backslash. -/
  | escape {e c : Char} (h : simpleEscape e = some c) : StringChar ['\\', e] c
  /-- Four hexadecimal digits behind `\u`. -/
  | unicode {a b c d : Char} {n : ℕ} (h : hex4 a b c d = some n) (hh : isHigh n = false)
      (hl : isLow n = false) : StringChar ['\\', 'u', a, b, c, d] (Char.ofNat n)
  /-- Two such groups that form a surrogate pair. -/
  | pair {a b c d a' b' c' d' : Char} {n m : ℕ} (h : hex4 a b c d = some n)
      (h' : hex4 a' b' c' d' = some m) (hh : isHigh n = true) (hl : isLow m = true) :
      StringChar ['\\', 'u', a, b, c, d, '\\', 'u', a', b', c', d'] (pairChar n m)

/-- The text between the quotes of a string. -/
inductive Chars : List Char → List Char → Prop
  /-- No characters. -/
  | nil : Chars [] []
  /-- One character, and then the rest. -/
  | cons {r raw s : List Char} {c : Char} (h : StringChar r c) (hs : Chars raw s) :
      Chars (r ++ raw) (c :: s)

/-! ## Numbers -/

/-- Characters of numbers. -/
def isNumChar (c : Char) : Bool :=
  c.isDigit || c = '-' || c = '+' || c = '.' || c = 'e' || c = 'E'

/-- What follows the integer part. -/
def dropInt : List Char → Option (List Char)
  | [] => none
  | c :: l =>
    if c = '0' then some l else if c.isDigit then some (l.dropWhile Char.isDigit) else none

/-- What follows one digit or more. -/
def dropDigits : List Char → Option (List Char)
  | [] => none
  | c :: l => if c.isDigit then some (l.dropWhile Char.isDigit) else none

/-- What follows the fraction, if there is one. -/
def dropFrac : List Char → Option (List Char)
  | [] => some []
  | c :: l => if c = '.' then dropDigits l else some (c :: l)

/-- What follows the sign of an exponent. -/
def dropSign : List Char → List Char
  | [] => []
  | c :: l => if c = '+' ∨ c = '-' then l else c :: l

/-- What follows the exponent, if there is one. -/
def dropExp : List Char → Option (List Char)
  | [] => some []
  | c :: l => if c = 'e' ∨ c = 'E' then dropDigits (dropSign l) else some (c :: l)

/-- What follows the minus sign. -/
def dropMinus : List Char → List Char
  | [] => []
  | c :: l => if c = '-' then l else c :: l

/-- The lexeme of a number. -/
def isNumber (l : List Char) : Bool :=
  l.all isNumChar && (((dropInt (dropMinus l)).bind dropFrac).bind dropExp == some [])

/-! ## Values -/

/-- The members of an object: the last one of a name counts. -/
def collect (ms : List (List Char × Json ν)) : List (List Char × Json ν) :=
  ms.foldl (fun acc m => insertEntry m.1 m.2 acc) []

/-- The categories of the grammar. -/
inductive Item (ν : Type)
  /-- A value without the space around it. -/
  | value (v : Json ν)
  /-- A value between white space. -/
  | element (v : Json ν)
  /-- Elements separated by commas. -/
  | elements (vs : List (Json ν))
  /-- A name and an element. -/
  | member (m : List Char × Json ν)
  /-- Members separated by commas. -/
  | members (ms : List (List Char × Json ν))

/-- The grammar; `decode` is what the lexeme of a number means. -/
inductive Denotes (decode : List Char → ν) : List Char → Item ν → Prop
  /-- The literal `null`. -/
  | litNull : Denotes decode ['n', 'u', 'l', 'l'] (.value .null)
  /-- The literal `true`. -/
  | litTrue : Denotes decode ['t', 'r', 'u', 'e'] (.value (.bool true))
  /-- The literal `false`. -/
  | litFalse : Denotes decode ['f', 'a', 'l', 's', 'e'] (.value (.bool false))
  /-- A number. -/
  | num {l : List Char} (h : isNumber l = true) : Denotes decode l (.value (.num (decode l)))
  /-- A string between quotes. -/
  | str {raw s : List Char} (h : Chars raw s) :
      Denotes decode ('"' :: raw ++ ['"']) (.value (.str s))
  /-- An empty array. -/
  | arrNil {w : List Char} (h : Ws w) : Denotes decode ('[' :: w ++ [']']) (.value (.arr []))
  /-- An array of elements. -/
  | arr {l : List Char} {vs : List (Json ν)} (h : Denotes decode l (.elements vs)) :
      Denotes decode ('[' :: l ++ [']']) (.value (.arr vs))
  /-- An empty object. -/
  | objNil {w : List Char} (h : Ws w) : Denotes decode ('{' :: w ++ ['}']) (.value (.obj []))
  /-- An object of members. -/
  | obj {l : List Char} {ms : List (List Char × Json ν)} (h : Denotes decode l (.members ms)) :
      Denotes decode ('{' :: l ++ ['}']) (.value (.obj (collect ms)))
  /-- A value with space around it. -/
  | element {w w' l : List Char} {v : Json ν} (hw : Ws w) (h : Denotes decode l (.value v))
      (hw' : Ws w') : Denotes decode (w ++ l ++ w') (.element v)
  /-- The last element. -/
  | elementsOne {l : List Char} {v : Json ν} (h : Denotes decode l (.element v)) :
      Denotes decode l (.elements [v])
  /-- An element, a comma and the rest. -/
  | elementsCons {l l' : List Char} {v : Json ν} {vs : List (Json ν)}
      (h : Denotes decode l (.element v)) (h' : Denotes decode l' (.elements vs)) :
      Denotes decode (l ++ ',' :: l') (.elements (v :: vs))
  /-- A name, a colon and an element. -/
  | member {w w' raw k l : List Char} {v : Json ν} (hw : Ws w) (hk : Chars raw k) (hw' : Ws w')
      (h : Denotes decode l (.element v)) :
      Denotes decode (w ++ '"' :: raw ++ '"' :: w' ++ ':' :: l) (.member (k, v))
  /-- The last member. -/
  | membersOne {l : List Char} {m : List Char × Json ν} (h : Denotes decode l (.member m)) :
      Denotes decode l (.members [m])
  /-- A member, a comma and the rest. -/
  | membersCons {l l' : List Char} {m : List Char × Json ν} {ms : List (List Char × Json ν)}
      (h : Denotes decode l (.member m)) (h' : Denotes decode l' (.members ms)) :
      Denotes decode (l ++ ',' :: l') (.members (m :: ms))

/-- The root of a document is an array or an object. -/
def isRoot : Json ν → Bool
  | .arr _ | .obj _ => true
  | _ => false

/-- The text is a JSON document that denotes the value. -/
def Document (decode : List Char → ν) (t : List Char) (v : Json ν) : Prop :=
  Denotes decode t (.element v) ∧ isRoot v = true

/-! ## Objects -/

/-- What is found in a list of members: the last value of the name. -/
theorem findEntry_collect_concat (k : List Char) (ms : List (List Char × Json ν))
    (m : List Char × Json ν) :
    findEntry k (collect (ms ++ [m])) = if k = m.1 then some m.2 else findEntry k (collect ms) := by
  unfold collect
  rw [List.foldl_append, List.foldl_cons, List.foldl_nil, findEntry_insertEntry]
  split <;> rfl

/-- Members are collected in the order of their keys. -/
theorem ascending_collect (ms : List (List Char × Json ν)) : Ascending (collect ms) := by
  induction ms using List.reverseRecOn with
  | nil => exact ascending_nil
  | append_singleton ms m ih =>
    unfold collect at ih ⊢
    rw [List.foldl_append]
    exact ih.insertEntry m.1 m.2

/-- A value that is found belongs to a member. -/
theorem mem_of_findEntry_collect {k : List Char} {v : Json ν} {ms : List (List Char × Json ν)}
    (h : findEntry k (collect ms) = some v) : (k, v) ∈ ms := by
  induction ms using List.reverseRecOn with
  | nil => cases h
  | append_singleton ms m ih =>
    rw [findEntry_collect_concat] at h
    split at h
    · rename_i hk
      cases h
      exact List.mem_append_right _ (List.mem_singleton.mpr (Prod.ext hk rfl))
    · exact List.mem_append_left _ (ih h)

/-- Members in ascending order are collected as they are. -/
theorem collect_ascending {ms : List (List Char × Json ν)} (h : Ascending ms) :
    collect ms = ms := by
  refine (ascending_collect ms).ext h fun k => ?_
  induction ms using List.reverseRecOn with
  | nil => rfl
  | append_singleton ms m ih =>
    have hp := List.pairwise_append.mp h
    rw [findEntry_collect_concat, ih hp.1]
    split
    · rename_i hk
      rw [findEntry_of_mem h (List.mem_append_right _ (List.mem_singleton.mpr (Prod.ext hk rfl)))]
    · rename_i hk
      cases hf : findEntry k ms with
      | some v => exact (findEntry_of_mem h (List.mem_append_left _ (mem_of_findEntry hf))).symm
      | none =>
        cases hg : findEntry k (ms ++ [m]) with
        | none => rfl
        | some v =>
          cases List.mem_append.mp (mem_of_findEntry hg) with
          | inl hm => rw [findEntry_of_mem hp.1 hm] at hf; cases hf
          | inr hm => exact absurd (congrArg Prod.fst (List.mem_singleton.mp hm)) hk

/-! ## Strings without escapes -/

/-- Every character stands for itself. -/
def Clean (s : List Char) : Prop := ∀ c ∈ s, plainChar c = true

instance decidableClean (s : List Char) : Decidable (Clean s) := List.decidableBAll _ s

/-- A clean string is its own text. -/
theorem Clean.chars {s : List Char} (h : Clean s) : Chars s s := by
  induction s with
  | nil => exact Chars.nil
  | cons c s ih =>
    have hs := ih fun d hd => h d (List.mem_cons_of_mem c hd)
    exact Chars.cons (StringChar.plain (h c List.mem_cons_self)) hs

/-- A character takes one place at least, and just one when it is plain. -/
theorem StringChar.length {r : List Char} {c : Char} (h : StringChar r c) :
    1 ≤ r.length ∧ (r.length = 1 → plainChar c = true) := by
  cases h with
  | plain h => exact ⟨Nat.le_refl 1, fun _ => h⟩
  | escape h => exact ⟨Nat.succ_le_succ (Nat.zero_le _), fun h => by cases h⟩
  | unicode h hh hl => exact ⟨Nat.succ_le_succ (Nat.zero_le _), fun h => by cases h⟩
  | pair h h' hh hl => exact ⟨Nat.succ_le_succ (Nat.zero_le _), fun h => by cases h⟩

/-- The places a string takes at least. -/
def stringSize (s : List Char) : ℕ := s.length + if Clean s then 0 else 1

/-- A text is no shorter than the string it stands for. -/
theorem Chars.size {raw s : List Char} (h : Chars raw s) : stringSize s ≤ raw.length := by
  have hle : s.length ≤ raw.length ∧ (raw.length = s.length → Clean s) := by
    induction h with
    | nil => exact ⟨Nat.le_refl 0, fun _ c hc => by cases hc⟩
    | cons h hs ih =>
      have h1 := h.length
      rw [List.length_append, List.length_cons]
      refine ⟨by omega, fun he c hc => ?_⟩
      cases List.mem_cons.mp hc with
      | inl hc => exact hc ▸ h1.2 (by omega)
      | inr hc => exact ih.2 (by omega) c hc
  unfold stringSize
  split
  · exact hle.1
  · rename_i hn
    have hne : raw.length ≠ s.length := fun he => hn (hle.2 he)
    omega

end CdroidDemo.JsonText
