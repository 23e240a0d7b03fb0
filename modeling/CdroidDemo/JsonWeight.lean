import Mathlib.Algebra.GroupWithZero.Nat
import CdroidDemo.JsonReader

/-!
# How much text the members of a document take

A scan over the characters of a text adds up the lengths of the strings that
stand as values of members, leaving out members with certain names. What a
document denotes cannot need more than the scan finds, so a text that is
pasted together without escapes betrays every string that would have needed
one.
-/

namespace CdroidDemo.JsonWeight

open OrderedMap JsonText JsonReader

variable {ν : Type} {decode : List Char → ν}

/-! ## The scan -/

/-- What the last string outside of containers was. -/
inductive Phase
  /-- There was none, or it is done with. -/
  | idle
  /-- A string with this text, which may be a name. -/
  | key (raw : List Char)
  /-- A name with this text and its colon. -/
  | colon (raw : List Char)
  deriving DecidableEq, Repr

/-- Where the scan is. -/
inductive State
  /-- Outside of strings. -/
  | out (p : Phase)
  /-- Inside a string, with its text so far. -/
  | inStr (p : Phase) (raw : List Char)
  /-- After a backslash inside a string. -/
  | esc (p : Phase) (raw : List Char)
  deriving DecidableEq, Repr

/-- Characters that can stand outside of strings, besides white space. -/
def allowed (c : Char) : Bool :=
  isNumChar c || ['[', ']', '{', '}', ',', 't', 'r', 'u', 'e', 'f', 'a', 'l', 's', 'n'].elem c

/-- What a member counts, if its name is not one of `skip`. -/
def counted (skip : List (List Char)) (k : List Char) (n : ℕ) : ℕ := if k ∈ skip then 0 else n

/-- The end of a string and the weight it adds; the text of the names in
`skip` tells which members do not count. -/
def close (skip : List (List Char)) (p : Phase) (raw : List Char) : State × ℕ :=
  match p with
  | .colon k => (.out .idle, counted skip k raw.length)
  | .idle | .key _ => (.out (.key raw), 0)

/-- A colon makes a string a name. -/
def afterColon : Phase → Phase
  | .key raw => .colon raw
  | .idle | .colon _ => .idle

/-- One character outside of strings. -/
def stepOut (p : Phase) (c : Char) : Option State :=
  if c = '"' then some (.inStr p [])
  else if isWs c then some (.out p)
  else if c = ':' then some (.out (afterColon p))
  else if allowed c then some (.out .idle)
  else none

/-- One character of the scan. -/
def step (skip : List (List Char)) : State → Char → Option (State × ℕ)
  | .out p, c => (stepOut p c).map fun σ => (σ, 0)
  | .inStr p raw, c =>
    if c = '"' then some (close skip p raw)
    else if c = '\\' then some (.esc p (raw ++ [c]), 0)
    else some (.inStr p (raw ++ [c]), 0)
  | .esc p raw, c => some (.inStr p (raw ++ [c]), 0)

/-- The weight of a text, if the scan goes through and ends outside of strings. -/
def weigh (skip : List (List Char)) : State → List Char → Option ℕ
  | .out _, [] => some 0
  | .inStr _ _, [] | .esc _ _, [] => none
  | σ, c :: t => (step skip σ c).bind fun r => (weigh skip r.1 t).map (r.2 + ·)

variable {skip : List (List Char)}

/-- One character, and the rest. -/
theorem weigh_cons (σ : State) (c : Char) (t : List Char) :
    weigh skip σ (c :: t) = (step skip σ c).bind fun r => (weigh skip r.1 t).map (r.2 + ·) := by
  cases σ <;> rfl

/-- A step without weight. -/
theorem weigh_step {σ σ' : State} {c : Char} (h : step skip σ c = some (σ', 0)) (t : List Char) :
    weigh skip σ (c :: t) = weigh skip σ' t := by
  rw [weigh_cons, h, Option.bind_some]
  simp only [Nat.zero_add, Option.map_id']

/-! ## How much a stretch of text can add -/

/-- What an open string may still add. -/
def potential : State → ℕ
  | .out _ => 0
  | .inStr _ raw | .esc _ raw => raw.length

/-- Outside of strings nothing is pending. -/
theorem stepOut_potential {p : Phase} {c : Char} {σ : State} (h : stepOut p c = some σ) :
    potential σ = 0 := by
  unfold stepOut at h
  split at h
  · cases h
    rfl
  split at h
  · cases h
    rfl
  split at h
  · cases h
    rfl
  split at h
  · cases h
    rfl
  · cases h

/-- Without a quote the scan stays outside. -/
theorem stepOut_out {p : Phase} {c : Char} {σ : State} (hq : c ≠ '"')
    (h : stepOut p c = some σ) : ∃ p', σ = .out p' := by
  rw [stepOut, if_neg hq] at h
  split at h
  · exact ⟨p, (Option.some.inj h).symm⟩
  split at h
  · exact ⟨afterColon p, (Option.some.inj h).symm⟩
  split at h
  · exact ⟨.idle, (Option.some.inj h).symm⟩
  · cases h

/-- A member that is skipped weighs nothing. -/
theorem counted_le (skip : List (List Char)) (k : List Char) (n : ℕ) : counted skip k n ≤ n := by
  unfold counted
  split
  · exact Nat.zero_le n
  · exact Nat.le_refl n

/-- The end of a string adds what was open at most. -/
theorem close_potential (skip : List (List Char)) (p : Phase) (raw : List Char) :
    ∃ p', (close skip p raw).1 = .out p' ∧ (close skip p raw).2 ≤ raw.length := by
  cases p with
  | idle => exact ⟨_, rfl, Nat.zero_le _⟩
  | key k => exact ⟨_, rfl, Nat.zero_le _⟩
  | colon k => exact ⟨_, rfl, counted_le skip k raw.length⟩

/-- Every character adds one place at most. -/
theorem step_potential {σ σ' : State} {c : Char} {g : ℕ} (h : step skip σ c = some (σ', g)) :
    potential σ' + g ≤ potential σ + 1 := by
  have hlen : ∀ raw : List Char, (raw ++ [c]).length = raw.length + 1 := fun raw => by
    rw [List.length_append, List.length_singleton]
  cases σ with
  | out p =>
    obtain ⟨σ'', hs, he⟩ := Option.map_eq_some_iff.mp h
    cases he
    rw [stepOut_potential hs]
    exact Nat.zero_le _
  | inStr p raw =>
    obtain ⟨p', hp, hle⟩ := close_potential skip p raw
    simp only [step] at h
    split at h
    · rw [Option.some.inj h] at hp hle
      dsimp only at hp hle
      rw [hp]
      simp only [potential]
      omega
    split at h
    · cases h
      exact Nat.le_of_eq (hlen raw)
    · cases h
      exact Nat.le_of_eq (hlen raw)
  | esc p raw =>
    cases h
    exact Nat.le_of_eq (hlen raw)

/-- The text `t` stands behind a quote that ends a string: it has the weight
`r` from every state outside of strings, and cannot be read inside of one. -/
def Closing (skip : List (List Char)) (t : List Char) (r : Option ℕ) : Prop :=
  (∀ p, weigh skip (.out p) t = r) ∧ ∀ p raw, weigh skip (.inStr p raw) t = none

/-- Whatever stands before the quote, it adds its length at most. -/
theorem Closing.weigh_le {t : List Char} {r : Option ℕ} (h : Closing skip t r) (s : List Char)
    {σ : State} {m : ℕ} (hm : weigh skip σ (s ++ '"' :: t) = some m) :
    ∃ m', r = some m' ∧ m ≤ potential σ + s.length + m' := by
  induction s generalizing σ m with
  | nil =>
    rw [List.nil_append, weigh_cons] at hm
    cases σ with
    | out p =>
      rw [show step skip (.out p) '"' = some (.inStr p [], 0) from rfl, Option.bind_some, h.2] at hm
      cases hm
    | esc p raw =>
      rw [show step skip (.esc p raw) '"' = some (.inStr p (raw ++ ['"']), 0) from rfl,
        Option.bind_some, h.2] at hm
      cases hm
    | inStr p raw =>
      obtain ⟨p', hp, hle⟩ := close_potential skip p raw
      rw [show step skip (.inStr p raw) '"' = some (close skip p raw) from rfl, Option.bind_some,
        hp, h.1] at hm
      obtain ⟨m', hm', rfl⟩ := Option.map_eq_some_iff.mp hm
      exact ⟨m', hm', Nat.add_le_add_right hle m'⟩
  | cons c s ih =>
    rw [List.cons_append, weigh_cons] at hm
    obtain ⟨⟨σ', g⟩, hs, hm⟩ := Option.bind_eq_some_iff.mp hm
    obtain ⟨k, hk, rfl⟩ := Option.map_eq_some_iff.mp hm
    obtain ⟨m', hm', hle⟩ := ih hk
    refine ⟨m', hm', ?_⟩
    have hp := step_potential hs
    dsimp only at hle ⊢
    rw [List.length_cons]
    omega

/-! ## How much a document needs -/

/-- The size of a string value. -/
def strWeight : Json ν → ℕ
  | .str s => stringSize s
  | _ => 0

/-- The size of a value that may be missing. -/
def foundWeight : Option (Json ν) → ℕ
  | some v => strWeight v
  | none => 0

/-- The sizes of the strings under some names of an object. -/
def objWeight (names : List (List Char)) : Json ν → ℕ
  | .obj ms => (names.map fun k => foundWeight (findEntry k ms)).sum
  | _ => 0

/-- The same for an object or the objects of an array. -/
def valueWeight (names : List (List Char)) : Json ν → ℕ
  | .arr vs => (vs.map (objWeight names)).sum
  | v => objWeight names v

/-- The size of a member under one of the names. -/
def memberWeight (names : List (List Char)) (m : List Char × Json ν) : ℕ :=
  if m.1 ∈ names then strWeight m.2 else 0

/-- Objects weigh no more than all values. -/
theorem objWeight_le (names : List (List Char)) (v : Json ν) :
    objWeight names v ≤ valueWeight names v := by
  cases v with
  | arr vs => exact Nat.zero_le _
  | _ => exact Nat.le_refl _

/-- One more member makes a difference under its own name only. -/
theorem foundWeight_concat (names : List (List Char)) (hn : names.Nodup)
    (ms : List (List Char × Json ν)) (m : List Char × Json ν) :
    (names.map fun k => foundWeight (findEntry k (collect (ms ++ [m])))).sum ≤
      (names.map fun k => foundWeight (findEntry k (collect ms))).sum + memberWeight names m := by
  induction names with
  | nil => exact Nat.zero_le _
  | cons k names ih =>
    have hk := List.nodup_cons.mp hn
    have ih := ih hk.2
    simp only [List.map_cons, List.sum_cons]
    rw [findEntry_collect_concat]
    unfold memberWeight at ih ⊢
    by_cases he : k = m.1
    · rw [if_neg (he ▸ hk.1)] at ih
      rw [if_pos he, if_pos (he ▸ List.mem_cons_self)]
      have hs : foundWeight (some m.2) = strWeight m.2 := rfl
      rw [hs]
      omega
    · rw [if_neg he]
      by_cases hm : m.1 ∈ names
      · rw [if_pos hm] at ih
        rw [if_pos (List.mem_cons_of_mem k hm)]
        omega
      · rw [if_neg hm] at ih
        rw [if_neg fun hc => (List.mem_cons.mp hc).elim (fun h => he h.symm) hm]
        omega

/-- The members of an object need what is found in it. -/
theorem objWeight_collect (names : List (List Char)) (hn : names.Nodup)
    (ms : List (List Char × Json ν)) :
    objWeight names (.obj (collect ms)) ≤ (ms.map (memberWeight names)).sum := by
  unfold objWeight
  induction ms using List.reverseRecOn with
  | nil =>
    refine Nat.le_of_eq ?_
    change (names.map fun k => foundWeight (findEntry k (collect ([] : List (_ × Json ν))))).sum = 0
    clear hn
    induction names with
    | nil => rfl
    | cons k names ih =>
      rw [List.map_cons, List.sum_cons, ih]
      rfl
  | append_singleton ms m ih =>
    have hc := foundWeight_concat names hn ms m
    rw [List.map_append, List.sum_append]
    simp only [List.map_cons, List.map_nil, List.sum_cons, List.sum_nil]
    dsimp only at ih
    omega

/-! ## The scan of a document -/

/-- The scan of a text from outside of strings: what it adds and its phase then. -/
def Scans (skip : List (List Char)) (p : Phase) (t : List Char) (w : ℕ) (p' : Phase) : Prop :=
  ∀ r, weigh skip (.out p) (t ++ r) = (weigh skip (.out p') r).map (w + ·)

/-- No text weighs nothing. -/
theorem scans_nil (p : Phase) : Scans skip p [] 0 p := by
  intro r
  simp only [Nat.zero_add, Option.map_id']
  rfl

/-- Two texts in a row. -/
theorem Scans.trans {p p' p'' : Phase} {t t' : List Char} {w w' : ℕ} (h : Scans skip p t w p')
    (h' : Scans skip p' t' w' p'') : Scans skip p (t ++ t') (w + w') p'' := by
  intro r
  rw [List.append_assoc, h, h', Option.map_map]
  exact congrArg (fun f => Option.map f _) (funext fun m => (Nat.add_assoc w w' m).symm)

/-- A character outside of strings. -/
theorem scans_char {p p' : Phase} {c : Char} (h : stepOut p c = some (.out p')) :
    Scans skip p [c] 0 p' := by
  intro r
  have hs : step skip (.out p) c = some (.out p', 0) := congrArg (Option.map fun σ => (σ, 0)) h
  rw [List.singleton_append, weigh_step hs]
  simp only [Nat.zero_add, Option.map_id']

/-- White space weighs nothing. -/
theorem scans_ws {w : List Char} (hw : Ws w) (p : Phase) : Scans skip p w 0 p := by
  induction w with
  | nil => exact scans_nil p
  | cons c w ih =>
    have hc := hw c List.mem_cons_self
    have hs : stepOut p c = some (.out p) := by
      have hq : c ≠ '"' := by
        rintro rfl
        exact absurd hc (by decide)
      unfold stepOut
      rw [if_neg hq, if_pos hc]
    exact (scans_char hs).trans (ih fun d hd => hw d (List.mem_cons_of_mem c hd))

/-- Characters of numbers and literals. -/
theorem scans_allowed {t : List Char} (h : ∀ c ∈ t, isNumChar c = true) (p : Phase) :
    ∃ p', Scans skip p t 0 p' := by
  induction t generalizing p with
  | nil => exact ⟨p, scans_nil p⟩
  | cons c t ih =>
    have hc := h c List.mem_cons_self
    obtain ⟨p', hp⟩ := ih (fun d hd => h d (List.mem_cons_of_mem c hd)) .idle
    refine ⟨p', (scans_char ?_).trans hp⟩
    have hq : c ≠ '"' := by
      rintro rfl
      exact absurd hc (by decide)
    have hcol : c ≠ ':' := by
      rintro rfl
      exact absurd hc (by decide)
    have hw : ¬ isWs c = true := fun hw => by
      rw [isNumChar_of_isWs hw] at hc
      cases hc
    have ha : allowed c = true := by
      unfold allowed
      rw [hc]
      rfl
    unfold stepOut
    rw [if_neg hq, if_neg hw, if_neg hcol, if_pos ha]

/-- A hexadecimal digit is no quote and no backslash. -/
theorem hexVal_ne {c : Char} {n : ℕ} (h : hexVal c = some n) : c ≠ '"' ∧ c ≠ '\\' := by
  have hq : hexVal '"' = none := by decide
  have hb : hexVal '\\' = none := by decide
  constructor
  · rintro rfl
    rw [hq] at h
    cases h
  · rintro rfl
    rw [hb] at h
    cases h

/-- Characters of a string other than quotes and backslashes. -/
theorem weigh_inStr {c : Char} (h : c ≠ '"' ∧ c ≠ '\\') (p : Phase) (raw t : List Char) :
    weigh skip (.inStr p raw) (c :: t) = weigh skip (.inStr p (raw ++ [c])) t :=
  weigh_step (by simp only [step, if_neg h.1, if_neg h.2]) t

/-- A plain character ends no string and begins no escape. -/
theorem plainChar_ne {c : Char} (h : plainChar c = true) : c ≠ '"' ∧ c ≠ '\\' := by
  constructor
  · rintro rfl
    exact absurd h (by decide)
  · rintro rfl
    exact absurd h (by decide)

/-- The text of a string character stays in the string. -/
theorem weigh_stringChar {r : List Char} {c : Char} (h : StringChar r c) (p : Phase)
    (raw t : List Char) :
    weigh skip (.inStr p raw) (r ++ t) = weigh skip (.inStr p (raw ++ r)) t := by
  have hesc : ∀ (e : Char) (raw t : List Char), weigh skip (.inStr p raw) ('\\' :: e :: t) =
      weigh skip (.inStr p (raw ++ ['\\', e])) t := by
    intro e raw t
    have h₁ : step skip (.inStr p raw) '\\' = some (.esc p (raw ++ ['\\']), 0) := rfl
    have h₂ : step skip (.esc p (raw ++ ['\\'])) e = some (.inStr p (raw ++ ['\\'] ++ [e]), 0) := rfl
    rw [weigh_step h₁, weigh_step h₂, List.append_assoc]
    rfl
  have hhex : ∀ {a b c d : Char} {n : ℕ} (raw t : List Char), hex4 a b c d = some n →
      weigh skip (.inStr p raw) (a :: b :: c :: d :: t) =
        weigh skip (.inStr p (raw ++ [a, b, c, d])) t := by
    intro a b c d n raw t hx
    obtain ⟨na, ha, hx⟩ := Option.bind_eq_some_iff.mp hx
    obtain ⟨nb, hb, hx⟩ := Option.bind_eq_some_iff.mp hx
    obtain ⟨nc, hc, hx⟩ := Option.bind_eq_some_iff.mp hx
    obtain ⟨nd, hd, hx⟩ := Option.bind_eq_some_iff.mp hx
    rw [weigh_inStr (hexVal_ne ha), weigh_inStr (hexVal_ne hb), weigh_inStr (hexVal_ne hc),
      weigh_inStr (hexVal_ne hd)]
    simp only [List.append_assoc, List.cons_append, List.nil_append]
  cases h with
  | plain h => exact weigh_inStr (plainChar_ne h) p raw t
  | escape h => exact hesc _ raw t
  | unicode h hh hl =>
    simp only [List.cons_append, List.nil_append]
    rw [hesc, hhex _ _ h, List.append_assoc]
    rfl
  | pair h h' hh hl =>
    simp only [List.cons_append, List.nil_append]
    rw [hesc, hhex _ _ h, hesc, hhex _ _ h']
    simp only [List.append_assoc, List.cons_append, List.nil_append]

/-- The characters of a string are kept. -/
theorem weigh_chars {r s : List Char} (h : Chars r s) (p : Phase) (raw t : List Char) :
    weigh skip (.inStr p raw) (r ++ t) = weigh skip (.inStr p (raw ++ r)) t := by
  induction h generalizing raw with
  | nil => rw [List.append_nil, List.nil_append]
  | cons h hs ih => rw [List.append_assoc, weigh_stringChar h, ih, List.append_assoc]

/-- A string between its quotes. -/
theorem weigh_string {r s : List Char} (h : Chars r s) (p : Phase) (t : List Char) :
    weigh skip (.out p) ('"' :: (r ++ '"' :: t)) =
      (weigh skip (close skip p r).1 t).map ((close skip p r).2 + ·) := by
  have h₁ : step skip (.out p) '"' = some (.inStr p [], 0) := rfl
  have h₂ : step skip (.inStr p r) '"' = some (close skip p r) := rfl
  rw [weigh_step h₁, weigh_chars h, List.nil_append, weigh_cons, h₂, Option.bind_some]

/-- What the scan of an item adds is at least what its strings need. -/
def Carries (skip names : List (List Char)) (t : List Char) : Item ν → Prop
  | .value v | .element v => ∀ p, ∃ w p', Scans skip p t w p' ∧ valueWeight names v ≤ w ∧
      ∀ k, p = .colon k → k ∉ skip → strWeight v ≤ w
  | .elements vs => ∃ w p', Scans skip .idle t w p' ∧ (vs.map (objWeight names)).sum ≤ w
  | .member m => ∃ w p', Scans skip .idle t w p' ∧ memberWeight names m ≤ w
  | .members ms => ∃ w p', Scans skip .idle t w p' ∧ (ms.map (memberWeight names)).sum ≤ w

/-- Single characters outside of strings, and the phase they leave. -/
theorem scans_punct {c : Char} (p : Phase) (h : c ∈ ['[', ']', '{', '}', ',']) :
    Scans skip p [c] 0 .idle := by
  refine scans_char ?_
  simp only [List.mem_cons, List.not_mem_nil, or_false] at h
  rcases h with rfl | rfl | rfl | rfl | rfl <;> rfl

/-- A colon follows the key. -/
theorem scans_colon (raw : List Char) : Scans skip (.key raw) [':'] 0 (.colon raw) :=
  scans_char rfl

/-- A string in its quotes. -/
theorem scans_string {raw s : List Char} (h : Chars raw s) {p p' : Phase}
    (hp : (close skip p raw).1 = .out p') :
    Scans skip p ('"' :: raw ++ ['"']) (close skip p raw).2 p' := by
  intro r
  rw [← enclosed, weigh_string h, hp]

/-- A literal word. -/
theorem scans_word {w : List Char} (hw : w ≠ [])
    (h : w.all fun c => c ∈ ['t', 'r', 'u', 'e', 'f', 'a', 'l', 's', 'n']) (p : Phase) :
    Scans skip p w 0 .idle := by
  induction w generalizing p with
  | nil => exact absurd rfl hw
  | cons c w ih =>
    obtain ⟨hm, h⟩ := Bool.and_eq_true_iff.mp h
    have hc : Scans skip p [c] 0 .idle := by
      refine scans_char ?_
      have hm := of_decide_eq_true hm
      simp only [List.mem_cons, List.not_mem_nil, or_false] at hm
      rcases hm with rfl | rfl | rfl | rfl | rfl | rfl | rfl | rfl | rfl <;> rfl
    cases w with
    | nil => exact hc
    | cons d w => exact hc.trans (ih nofun h .idle)

/-- A text that denotes two strings, one of them itself, denotes one. -/
theorem chars_of_clean {raw s : List Char} (h : Chars raw s) (hc : Clean raw) : s = raw := by
  have h₁ := parseString_complete h []
  have h₂ := parseString_complete hc.chars []
  exact (Prod.mk.inj (Option.some.inj (h₁.symm.trans h₂))).1

variable {names : List (List Char)}

/-- Enclosing brackets around a scanned text. -/
theorem Scans.enclose {a b : Char} {t : List Char} {w : ℕ} {p' : Phase}
    (h : Scans skip .idle t w p') (ha : a ∈ ['[', ']', '{', '}', ','])
    (hb : b ∈ ['[', ']', '{', '}', ',']) (p : Phase) : Scans skip p (a :: t ++ [b]) w .idle := by
  have hs := ((scans_punct p ha).trans h).trans (scans_punct p' hb)
  rw [Nat.zero_add, Nat.add_zero] at hs
  exact hs

/-- Two scanned texts with a comma between them. -/
theorem Scans.comma {t t' : List Char} {w w' : ℕ} {p p' p'' : Phase} (h : Scans skip p t w p')
    (h' : Scans skip .idle t' w' p'') : Scans skip p (t ++ ',' :: t') (w + w') p'' := by
  have hs := h.trans ((scans_punct p' (c := ',') (by decide)).trans h')
  rw [Nat.zero_add] at hs
  exact hs

/-- Denoted values never need more than the scan finds. -/
theorem denotes_carries (hnames : names.Nodup) (hdisj : ∀ k ∈ names, k ∉ skip)
    (hclean : ∀ k ∈ skip, Clean k) {t : List Char} {i : Item ν} (h : Denotes decode t i) :
    Carries skip names t i := by
  induction h with
  | litNull | litTrue | litFalse =>
    exact fun p => ⟨0, .idle, scans_word (List.cons_ne_nil _ _) (by decide) p, Nat.le_refl 0,
      fun _ _ _ => Nat.le_refl 0⟩
  | num h =>
    obtain ⟨-, -, -, -, hall⟩ := isNumber_cons h
    intro p
    obtain ⟨p', hp⟩ := scans_allowed hall p
    exact ⟨0, p', hp, Nat.le_refl 0, fun _ _ _ => Nat.le_refl 0⟩
  | @str raw s h =>
    intro p
    obtain ⟨p', hp, -⟩ := close_potential skip p raw
    refine ⟨(close skip p raw).2, p', scans_string h hp, Nat.zero_le _, fun k hk hn => ?_⟩
    rw [hk]
    unfold close
    dsimp only
    rw [counted, if_neg hn]
    exact h.size
  | arrNil h =>
    exact fun p => ⟨0, .idle, (scans_ws h .idle).enclose (by decide) (by decide) p, Nat.le_refl 0,
      fun _ _ _ => Nat.le_refl 0⟩
  | arr _ ih =>
    obtain ⟨w, p', hs, hw⟩ := ih
    exact fun p => ⟨w, .idle, hs.enclose (by decide) (by decide) p, hw, fun _ _ _ => Nat.zero_le _⟩
  | objNil h =>
    refine fun p => ⟨0, .idle, (scans_ws h .idle).enclose (by decide) (by decide) p, ?_,
      fun _ _ _ => Nat.le_refl 0⟩
    exact objWeight_collect names hnames []
  | @obj l ms _ ih =>
    obtain ⟨w, p', hs, hw⟩ := ih
    refine fun p => ⟨w, .idle, hs.enclose (by decide) (by decide) p, ?_, fun _ _ _ => Nat.zero_le _⟩
    exact (objWeight_collect names hnames ms).trans hw
  | element hw _ hw' ih =>
    intro p
    obtain ⟨w, p', hs, hv, hk⟩ := ih p
    have ht := ((scans_ws hw p).trans hs).trans (scans_ws hw' p')
    rw [Nat.zero_add, Nat.add_zero] at ht
    exact ⟨w, p', ht, hv, hk⟩
  | elementsOne _ ih =>
    obtain ⟨w, p', hs, hv, -⟩ := ih .idle
    refine ⟨w, p', hs, ?_⟩
    simpa using (objWeight_le names _).trans hv
  | elementsCons _ _ ih ih' =>
    obtain ⟨w, p', hs, hv, -⟩ := ih .idle
    obtain ⟨w', p'', hs', hv'⟩ := ih'
    refine ⟨w + w', p'', hs.comma hs', ?_⟩
    rw [List.map_cons, List.sum_cons]
    exact Nat.add_le_add ((objWeight_le names _).trans hv) hv'
  | @member w₁ w₂ raw k l v hw hk hw' _ ih =>
    obtain ⟨w, p', hs, -, hv⟩ := ih (.colon raw)
    have hkey : Scans skip .idle ('"' :: raw ++ ['"']) 0 (.key raw) := scans_string hk rfl
    have ht := (((scans_ws hw .idle).trans hkey).trans (scans_ws hw' _)).trans
      ((scans_colon raw).trans hs)
    simp only [Nat.zero_add, List.append_assoc, List.cons_append, List.nil_append] at ht
    refine ⟨w, p', ?_, ?_⟩
    · simpa only [List.append_assoc, List.cons_append, List.nil_append] using ht
    · unfold memberWeight
      dsimp only
      split
      · rename_i hm
        refine hv raw rfl fun hr => hdisj k hm ?_
        exact chars_of_clean hk (hclean raw hr) ▸ hr
      · exact Nat.zero_le _
  | membersOne _ ih =>
    obtain ⟨w, p', hs, hv⟩ := ih
    exact ⟨w, p', hs, by simpa using hv⟩
  | membersCons _ _ ih ih' =>
    obtain ⟨w, p', hs, hv⟩ := ih
    obtain ⟨w', p'', hs', hv'⟩ := ih'
    refine ⟨w + w', p'', hs.comma hs', ?_⟩
    rw [List.map_cons, List.sum_cons]
    exact Nat.add_le_add hv hv'

/-- The scan goes through a document and finds what its strings need. -/
theorem document_weight (hnames : names.Nodup) (hdisj : ∀ k ∈ names, k ∉ skip)
    (hclean : ∀ k ∈ skip, Clean k) {t : List Char} {v : Json ν} (h : Document decode t v) :
    ∃ m, weigh skip (.out .idle) t = some m ∧ valueWeight names v ≤ m := by
  obtain ⟨w, p', hs, hw, -⟩ := denotes_carries hnames hdisj hclean h.1 .idle
  refine ⟨w, ?_, hw⟩
  have hr := hs []
  rw [List.append_nil] at hr
  exact hr

/-! ## Names -/

/-- Punctuation outside of strings. -/
theorem weigh_punct {c : Char} (p : Phase) (h : c ∈ ['[', ']', '{', '}', ',']) (t : List Char) :
    weigh skip (.out p) (c :: t) = weigh skip (.out .idle) t := by
  have hs : weigh skip (.out p) ([c] ++ t) = (weigh skip (.out .idle) t).map (0 + ·) :=
    scans_punct p h t
  simpa only [List.cons_append, List.nil_append, Nat.zero_add, Option.map_id'] using hs

/-- A clean name outside of strings, and what is left open behind it. -/
theorem weigh_name {k : List Char} (hk : Clean k) (t : List Char) :
    weigh skip (.out .idle) ('"' :: (k ++ '"' :: ':' :: '"' :: t)) =
      weigh skip (.inStr (.colon k) []) t := by
  have h₁ : step skip (.out (.key k)) ':' = some (.out (.colon k), 0) := rfl
  have h₂ : step skip (.out (.colon k)) '"' = some (.inStr (.colon k) [], 0) := rfl
  rw [weigh_string hk.chars]
  simp only [close, Nat.zero_add, Option.map_id']
  rw [weigh_step h₁, weigh_step h₂]

/-- A clean value under a name that does not count. -/
theorem weigh_skipped {k s : List Char} (hk : k ∈ skip) (hs : Clean s) (t : List Char) :
    weigh skip (.inStr (.colon k) []) (s ++ '"' :: t) = weigh skip (.out .idle) t := by
  have h : step skip (.inStr (.colon k) s) '"' = some (.out .idle, 0) := by
    simp only [step, close, counted, if_pos hk, if_true]
  rw [weigh_chars hs.chars, List.nil_append, weigh_step h]

/-- A name with a character that stands in strings only. -/
def Foreign (k : List Char) : Prop := ∃ c ∈ k, allowed c = false ∧ isWs c = false ∧ c ≠ ':'

instance decidableForeign (k : List Char) : Decidable (Foreign k) := List.decidableBEx _ k

/-- Such a name cannot be read outside of strings. -/
theorem weigh_foreign {k : List Char} (hk : Clean k) (hf : Foreign k) (p : Phase) (t : List Char) :
    weigh skip (.out p) (k ++ t) = none := by
  induction k generalizing p with
  | nil =>
    obtain ⟨c, hc, -⟩ := hf
    cases hc
  | cons c k ih =>
    have hq : c ≠ '"' := (plainChar_ne (hk c List.mem_cons_self)).1
    rw [List.cons_append, weigh_cons]
    cases hs : stepOut p c with
    | none => simp only [step, hs, Option.map_none, Option.bind_none]
    | some σ =>
      obtain ⟨p', rfl⟩ := stepOut_out hq hs
      have hk' : Clean k := fun d hd => hk d (List.mem_cons_of_mem c hd)
      have hf' : Foreign k := by
        obtain ⟨d, hd, ha, hw, hc⟩ := hf
        refine ⟨d, (List.mem_cons.mp hd).resolve_left ?_, ha, hw, hc⟩
        intro he
        rw [← he, stepOut, if_neg (he ▸ hq), if_neg (by rw [hw]; decide), if_neg hc,
          if_neg (by rw [ha]; decide)] at hs
        cases hs
      simp only [step, hs, Option.map_some, Option.bind_some, ih hk' hf', Option.map_none]

end CdroidDemo.JsonWeight
