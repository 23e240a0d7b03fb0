import Mathlib.Data.List.TakeWhile
import CdroidDemo.JsonText

/-!
# A reader of JSON text

A reader by descent that accepts exactly the documents of the grammar. Every
part of it reads one item at the front of a text and returns the rest.
-/

namespace CdroidDemo.JsonReader

open JsonText

variable {ν : Type} {α : Type}

/-! ## Strings -/

/-- The escapes after `\u`. -/
def unicodeEscape : List Char → Option (Char × List Char)
  | a :: b :: c :: d :: t =>
    (hex4 a b c d).bind fun n =>
      if isHigh n then
        match t with
        | '\\' :: 'u' :: a' :: b' :: c' :: d' :: t' =>
          (hex4 a' b' c' d').bind fun m => if isLow m then some (pairChar n m, t') else none
        | _ => none
      else if isLow n then none
      else some (Char.ofNat n, t)
  | _ => none

/-- One character of a string. -/
def nextChar : List Char → Option (Char × List Char)
  | [] => none
  | c :: t =>
    if plainChar c then some (c, t)
    else if c = '\\' then
      match t with
      | [] => none
      | e :: t => if e = 'u' then unicodeEscape t else (simpleEscape e).map fun c => (c, t)
    else none

/-- A string up to its closing quote, in at most `n` rounds. -/
def parseChars : ℕ → List Char → Option (List Char × List Char)
  | 0, _ => none
  | _ + 1, [] => none
  | n + 1, c :: t =>
    if c = '"' then some ([], t)
    else (nextChar (c :: t)).bind fun p => (parseChars n p.2).map fun q => (p.1 :: q.1, q.2)

/-- The rest of a string whose opening quote has been read. -/
def parseString (t : List Char) : Option (List Char × List Char) := parseChars t.length t

/-- An escape that is read is an escape of the grammar. -/
theorem unicodeEscape_sound {t t' : List Char} {c : Char} (h : unicodeEscape t = some (c, t')) :
    ∃ r, '\\' :: 'u' :: t = r ++ t' ∧ StringChar r c := by
  unfold unicodeEscape at h
  split at h
  · obtain ⟨n, hn, h⟩ := Option.bind_eq_some_iff.mp h
    split at h
    · rename_i hh
      split at h
      · obtain ⟨m, hm, h⟩ := Option.bind_eq_some_iff.mp h
        split at h
        · rename_i hl
          obtain ⟨rfl, rfl⟩ := Prod.mk.inj (Option.some.inj h)
          exact ⟨_, rfl, StringChar.pair hn hm hh hl⟩
        · cases h
      · cases h
    · rename_i hh
      split at h
      · cases h
      · rename_i hl
        obtain ⟨rfl, rfl⟩ := Prod.mk.inj (Option.some.inj h)
        exact ⟨_, rfl, StringChar.unicode hn (Bool.eq_false_iff.mpr hh) (Bool.eq_false_iff.mpr hl)⟩
  · cases h

/-- What is read as a character is one. -/
theorem nextChar_sound {t t' : List Char} {c : Char} (h : nextChar t = some (c, t')) :
    ∃ r, t = r ++ t' ∧ StringChar r c := by
  unfold nextChar at h
  split at h
  · cases h
  · split at h
    · rename_i hp
      cases h
      exact ⟨_, rfl, StringChar.plain hp⟩
    · split at h
      · rename_i hc
        split at h
        · cases h
        · split at h
          · rename_i hu
            rw [hc, hu]
            exact unicodeEscape_sound h
          · obtain ⟨d, hd, h⟩ := Option.map_eq_some_iff.mp h
            cases h
            rw [hc]
            exact ⟨_, rfl, StringChar.escape hd⟩
      · cases h

/-- A character of the grammar is read, whatever follows. -/
theorem nextChar_complete {r : List Char} {c : Char} (h : StringChar r c) (t : List Char) :
    nextChar (r ++ t) = some (c, t) := by
  cases h with
  | plain h => exact if_pos h
  | @escape e c h =>
    have hu : e ≠ 'u' := by
      rintro rfl
      have hn : simpleEscape 'u' = none := by decide
      rw [hn] at h
      cases h
    have hp : plainChar '\\' = false := by decide
    simp only [nextChar, List.cons_append, List.nil_append, hp, if_neg hu, h, Option.map_some,
      Bool.false_eq_true, if_false, if_true]
  | unicode h hh hl =>
    have hp : plainChar '\\' = false := by decide
    simp only [nextChar, unicodeEscape, List.cons_append, List.nil_append, hp, h, hh, hl,
      Option.bind_some, Bool.false_eq_true, if_false, if_true]
  | pair h h' hh hl =>
    have hp : plainChar '\\' = false := by decide
    simp only [nextChar, unicodeEscape, List.cons_append, List.nil_append, hp, h, h', hh, hl,
      Option.bind_some, Bool.false_eq_true, if_false, if_true]

/-- No character starts with a quote. -/
theorem stringChar_head {r : List Char} {c : Char} (h : StringChar r c) :
    ∃ d l, r = d :: l ∧ d ≠ '"' := by
  cases h with
  | plain h =>
    refine ⟨c, [], rfl, ?_⟩
    rintro rfl
    exact absurd h (by decide)
  | escape h => exact ⟨_, _, rfl, by decide⟩
  | unicode h hh hl => exact ⟨_, _, rfl, by decide⟩
  | pair h h' hh hl => exact ⟨_, _, rfl, by decide⟩

/-- What is read as characters are such up to a quote, -/
theorem parseChars_sound {n : ℕ} {t t' s : List Char} (h : parseChars n t = some (s, t')) :
    ∃ raw, t = raw ++ '"' :: t' ∧ Chars raw s := by
  induction n generalizing t s with
  | zero => cases h
  | succ n ih =>
    cases t with
    | nil => cases h
    | cons c t =>
      unfold parseChars at h
      split at h
      · rename_i hc
        cases h
        exact ⟨[], by rw [hc]; rfl, Chars.nil⟩
      · obtain ⟨⟨d, u⟩, hd, h⟩ := Option.bind_eq_some_iff.mp h
        obtain ⟨⟨s', u'⟩, hs, h⟩ := Option.map_eq_some_iff.mp h
        cases h
        obtain ⟨r, hr, hr'⟩ := nextChar_sound hd
        obtain ⟨raw, hraw, hraw'⟩ := ih hs
        refine ⟨r ++ raw, ?_, Chars.cons hr' hraw'⟩
        rw [hr, List.append_assoc]
        exact congrArg _ hraw

/-- and all of these are read. -/
theorem parseChars_complete {n : ℕ} {raw s : List Char} (h : Chars raw s) (hn : raw.length < n)
    (t : List Char) : parseChars n (raw ++ '"' :: t) = some (s, t) := by
  induction h generalizing n with
  | nil =>
    cases n with
    | zero => cases hn
    | succ n => exact if_pos rfl
  | cons h hs ih =>
    rename_i r raw s c
    obtain ⟨d, l, rfl, hd⟩ := stringChar_head h
    have hlen : (d :: l ++ raw).length = l.length + raw.length + 1 := by
      simp only [List.length_append, List.length_cons]
      omega
    cases n with
    | zero => cases hn
    | succ n =>
      have hnext := nextChar_complete h (raw ++ '"' :: t)
      have hrest := ih (n := n) (by omega)
      rw [List.append_assoc]
      simp only [List.cons_append] at hnext ⊢
      unfold parseChars
      rw [if_neg hd, hnext, Option.bind_some, hrest, Option.map_some]

/-- The same for a string without its first quote, -/
theorem parseString_sound {t t' s : List Char} (h : parseString t = some (s, t')) :
    ∃ raw, t = raw ++ '"' :: t' ∧ Chars raw s := parseChars_sound h

/-- both ways. -/
theorem parseString_complete {raw s : List Char} (h : Chars raw s) (t : List Char) :
    parseString (raw ++ '"' :: t) = some (s, t) := by
  refine parseChars_complete h ?_ t
  simp only [List.length_append, List.length_cons]
  omega

/-! ## White space and words -/

/-- Skip white space. -/
def skipWs (t : List Char) : List Char := t.dropWhile isWs

/-- The text does not go on with white space. -/
def NoWs (t : List Char) : Prop := ∀ c l, t = c :: l → isWs c = false

/-- What is skipped is white space, -/
theorem skipWs_sound (t : List Char) : ∃ w, t = w ++ skipWs t ∧ Ws w :=
  ⟨t.takeWhile isWs, List.takeWhile_append_dropWhile.symm, fun _ hc => List.mem_takeWhile_imp hc⟩

/-- and all of it is skipped. -/
theorem skipWs_append {w t : List Char} (hw : Ws w) (ht : NoWs t) : skipWs (w ++ t) = t := by
  unfold skipWs
  rw [List.dropWhile_append_of_pos hw]
  cases t with
  | nil => rfl
  | cons c l => exact List.dropWhile_cons_of_neg (by rw [ht c l rfl]; exact Bool.false_ne_true)

/-- Strip a word off the front. -/
def dropWord : List Char → List Char → Option (List Char)
  | [], t => some t
  | _ :: _, [] => none
  | c :: w, d :: t => if c = d then dropWord w t else none

/-- A word is dropped when it is in front. -/
theorem dropWord_iff {w t r : List Char} : dropWord w t = some r ↔ t = w ++ r := by
  induction w generalizing t with
  | nil => exact ⟨fun h => Option.some.inj h, fun h => congrArg some h⟩
  | cons c w ih =>
    cases t with
    | nil => exact iff_of_false nofun nofun
    | cons d t =>
      unfold dropWord
      split
      · rename_i hc
        rw [ih, hc, List.cons_append, List.cons.injEq, and_iff_right rfl]
      · rename_i hc
        exact iff_of_false nofun fun h => hc (List.cons.inj h).1.symm

/-! ## Items in sequence -/

/-- Read an item between white space. -/
def padded (one : List Char → Option (α × List Char)) (t : List Char) : Option (α × List Char) :=
  (one (skipWs t)).map fun p => (p.1, skipWs p.2)

/-- Items separated by commas up to a closing character, in at most `n` rounds. -/
def parseMany (one : List Char → Option (α × List Char)) (close : Char) :
    ℕ → List Char → Option (List α × List Char)
  | 0, _ => none
  | n + 1, t =>
    (one t).bind fun p =>
      match p.2 with
      | [] => none
      | c :: r =>
        if c = close then some ([p.1], r)
        else if c = ',' then (parseMany one close n r).map fun q => (p.1 :: q.1, q.2)
        else none

/-- The rest of an array or object whose opening character has been read. -/
def parseBlock (one : List Char → Option (α × List Char)) (close : Char) (t : List Char) :
    Option (List α × List Char) :=
  match skipWs t with
  | [] => none
  | c :: r => if c = close then some ([], r) else parseMany one close t.length t

/-- The items a text lists, separated by commas. -/
inductive Listing (P : List Char → α → Prop) : List Char → List α → Prop
  /-- The last item. -/
  | one {l : List Char} {a : α} (h : P l a) : Listing P l [a]
  /-- An item, a comma and the rest. -/
  | cons {l l' : List Char} {a : α} {as : List α} (h : P l a) (h' : Listing P l' as) :
      Listing P (l ++ ',' :: l') (a :: as)

/-- The reader finds items only. -/
def Sound (one : List Char → Option (α × List Char)) (P : List Char → α → Prop) : Prop :=
  ∀ t a r, one t = some (a, r) → ∃ l, t = l ++ r ∧ P l a

/-- The reader finds every item of at most `n` characters, before a comma or
the closing character. -/
def Complete (one : List Char → Option (α × List Char)) (P : List Char → α → Prop) (n : ℕ)
    (close : Char) : Prop :=
  ∀ l a, P l a → l.length ≤ n → ∀ c r, c = ',' ∨ c = close → one (l ++ c :: r) = some (a, c :: r)

variable {one : List Char → Option (α × List Char)} {P : List Char → α → Prop} {close : Char}

/-- What is read as a list up to the bracket is one, -/
theorem parseMany_sound (h : Sound one P) {n : ℕ} {t r : List Char} {as : List α}
    (hp : parseMany one close n t = some (as, r)) :
    ∃ l, t = l ++ close :: r ∧ Listing P l as := by
  induction n generalizing t as with
  | zero => cases hp
  | succ n ih =>
    unfold parseMany at hp
    obtain ⟨⟨a, u⟩, ha, hp⟩ := Option.bind_eq_some_iff.mp hp
    obtain ⟨l, hl, hP⟩ := h t a u ha
    dsimp only at hp
    split at hp
    · cases hp
    · split at hp
      · rename_i hc
        cases hp
        exact ⟨l, hc ▸ hl, Listing.one hP⟩
      · split at hp
        · rename_i hc
          obtain ⟨⟨as', r'⟩, hm, hp⟩ := Option.map_eq_some_iff.mp hp
          cases hp
          obtain ⟨l', hl', hL⟩ := ih hm
          refine ⟨l ++ ',' :: l', ?_, Listing.cons hP hL⟩
          rw [hl, hc, hl', List.append_assoc]
          rfl
        · cases hp

/-- and every such list is read. -/
theorem parseMany_complete {n : ℕ} {l : List Char} {as : List α} (hL : Listing P l as)
    (hone : Complete one P l.length close) (hclose : close ≠ ',') (hn : l.length < n)
    (r : List Char) : parseMany one close n (l ++ close :: r) = some (as, r) := by
  induction hL generalizing n with
  | one h =>
    cases n with
    | zero => cases hn
    | succ n =>
      unfold parseMany
      rw [hone _ _ h (Nat.le_refl _) close r (Or.inr rfl), Option.bind_some]
      exact if_pos rfl
  | @cons l l' a as h h' ih =>
    rw [List.length_append, List.length_cons] at hn
    have hlen : (l ++ ',' :: l').length = l.length + l'.length + 1 := by
      rw [List.length_append, List.length_cons]
      omega
    cases n with
    | zero => cases hn
    | succ n =>
      have hrest := ih (n := n) (fun k b hk hl => hone k b hk (by omega)) (by omega)
      unfold parseMany
      rw [List.append_assoc, List.cons_append,
        hone l a h (by omega) ',' (l' ++ close :: r) (Or.inl rfl), Option.bind_some]
      dsimp only
      rw [if_neg (Ne.symm hclose), if_pos rfl, hrest, Option.map_some]

/-- What a block can hold. -/
theorem parseBlock_sound (h : Sound one P) {t r : List Char} {as : List α}
    (hp : parseBlock one close t = some (as, r)) :
    ∃ l, t = l ++ close :: r ∧ (Ws l ∧ as = [] ∨ Listing P l as) := by
  obtain ⟨w, hw, hws⟩ := skipWs_sound t
  unfold parseBlock at hp
  split at hp
  · cases hp
  · rename_i c u hs
    split at hp
    · rename_i hc
      cases hp
      exact ⟨w, by rw [hw, hs, hc], Or.inl ⟨hws, rfl⟩⟩
    · obtain ⟨l, hl, hL⟩ := parseMany_sound h hp
      exact ⟨l, hl, Or.inr hL⟩

/-- An empty block may hold white space. -/
theorem parseBlock_empty {w : List Char} (hw : Ws w) (hc : isWs close = false) (r : List Char) :
    parseBlock one close (w ++ close :: r) = some ([], r) := by
  have hs : skipWs (w ++ close :: r) = close :: r := by
    refine skipWs_append hw ?_
    intro c l h
    cases h
    exact hc
  unfold parseBlock
  rw [hs]
  exact if_pos rfl

/-- A listing does not start like an empty block. -/
theorem Listing.head {l : List Char} {as : List α} (hL : Listing P l as)
    (hP : ∀ l a, P l a → ∃ w c l', l = w ++ c :: l' ∧ Ws w ∧ isWs c = false ∧ c ≠ close) :
    ∃ w c l', l = w ++ c :: l' ∧ Ws w ∧ isWs c = false ∧ c ≠ close := by
  cases hL with
  | one h => exact hP _ _ h
  | @cons k l' a as h h' =>
    obtain ⟨w, c, k', rfl, hw, hc, hne⟩ := hP _ _ h
    refine ⟨w, c, k' ++ ',' :: l', ?_, hw, hc, hne⟩
    rw [List.append_assoc]
    rfl

/-- Every block that is not empty is read. -/
theorem parseBlock_complete {l : List Char} {as : List α} (hL : Listing P l as)
    (hone : Complete one P l.length close) (hclose : close ≠ ',')
    (hP : ∀ l a, P l a → ∃ w c l', l = w ++ c :: l' ∧ Ws w ∧ isWs c = false ∧ c ≠ close)
    (r : List Char) : parseBlock one close (l ++ close :: r) = some (as, r) := by
  obtain ⟨w, c, l', he, hw, hc, hne⟩ := hL.head hP
  have hs : skipWs (l ++ close :: r) = c :: (l' ++ close :: r) := by
    rw [he, List.append_assoc]
    refine skipWs_append hw ?_
    intro d k hd
    cases hd
    exact hc
  unfold parseBlock
  rw [hs]
  dsimp only
  rw [if_neg hne]
  refine parseMany_complete hL hone hclose ?_ r
  rw [List.length_append, List.length_cons]
  omega

/-! ## Values -/

/-- Read the longest run of number characters. -/
def parseNumber (decode : List Char → ν) (t : List Char) : Option (Json ν × List Char) :=
  if isNumber (t.takeWhile isNumChar) then
    some (.num (decode (t.takeWhile isNumChar)), t.dropWhile isNumChar)
  else none

/-- Read a name, a colon and an element. -/
def parseMember (element : List Char → Option (Json ν × List Char)) (t : List Char) :
    Option ((List Char × Json ν) × List Char) :=
  match skipWs t with
  | [] => none
  | c :: r =>
    if c = '"' then
      (parseString r).bind fun p =>
        match skipWs p.2 with
        | [] => none
        | c :: r => if c = ':' then (element r).map fun q => ((p.1, q.1), q.2) else none
    else none

/-- Read a value that nests at most `n` deep. -/
def parseValue (decode : List Char → ν) : ℕ → List Char → Option (Json ν × List Char)
  | 0, _ => none
  | _ + 1, [] => none
  | n + 1, c :: t =>
    if c = '"' then (parseString t).map fun p => (.str p.1, p.2)
    else if c = '[' then
      (parseBlock (padded (parseValue decode n)) ']' t).map fun p => (.arr p.1, p.2)
    else if c = '{' then
      (parseBlock (parseMember (padded (parseValue decode n))) '}' t).map fun p =>
        (.obj (collect p.1), p.2)
    else if c = 'n' then (dropWord ['n', 'u', 'l', 'l'] (c :: t)).map fun r => (.null, r)
    else if c = 't' then (dropWord ['t', 'r', 'u', 'e'] (c :: t)).map fun r => (.bool true, r)
    else if c = 'f' then
      (dropWord ['f', 'a', 'l', 's', 'e'] (c :: t)).map fun r => (.bool false, r)
    else parseNumber decode (c :: t)

/-- Read a document. -/
def parseDocument (decode : List Char → ν) (t : List Char) : Option (Json ν) :=
  match padded (parseValue decode t.length) t with
  | some (v, []) => if isRoot v then some v else none
  | _ => none

/-! ## Everything read is in the grammar -/

variable {decode : List Char → ν}

/-- A value between white space is an element. -/
theorem padded_sound {n : ℕ}
    (h : Sound (parseValue decode n) fun l v => Denotes decode l (.value v)) :
    Sound (padded (parseValue decode n)) fun l v => Denotes decode l (.element v) := by
  intro t v r hp
  obtain ⟨⟨v', r'⟩, hv, he⟩ := Option.map_eq_some_iff.mp hp
  cases he
  obtain ⟨w, hw, hws⟩ := skipWs_sound t
  obtain ⟨l, hl, hd⟩ := h _ _ _ hv
  obtain ⟨w', hw', hws'⟩ := skipWs_sound r'
  refine ⟨w ++ l ++ w', ?_, Denotes.element hws hd hws'⟩
  calc t = w ++ (l ++ r') := by rw [← hl, ← hw]
    _ = w ++ (l ++ (w' ++ skipWs r')) := by rw [← hw']
    _ = w ++ l ++ w' ++ skipWs r' := by simp only [List.append_assoc]

/-- What is read as a member is one. -/
theorem parseMember_sound {element : List Char → Option (Json ν × List Char)}
    (h : Sound element fun l v => Denotes decode l (.element v)) :
    Sound (parseMember element) fun l m => Denotes decode l (.member m) := by
  intro t m r hp
  obtain ⟨w, hw, hws⟩ := skipWs_sound t
  unfold parseMember at hp
  split at hp
  · cases hp
  · rename_i c u hs
    split at hp
    · rename_i hc
      obtain ⟨⟨k, u'⟩, hk, hp⟩ := Option.bind_eq_some_iff.mp hp
      obtain ⟨raw, hraw, hchars⟩ := parseString_sound hk
      obtain ⟨w', hw', hws'⟩ := skipWs_sound u'
      dsimp only at hp
      split at hp
      · cases hp
      · rename_i c' u'' hs'
        split at hp
        · rename_i hc'
          obtain ⟨⟨v, r'⟩, hv, he⟩ := Option.map_eq_some_iff.mp hp
          cases he
          obtain ⟨l, hl, hd⟩ := h _ _ _ hv
          refine ⟨w ++ '"' :: raw ++ '"' :: w' ++ ':' :: l, ?_, Denotes.member hws hchars hws' hd⟩
          rw [hw, hs, hc, hraw, hw', hs', hc', hl]
          simp only [List.append_assoc, List.cons_append]
        · cases hp
    · cases hp

/-- A list of elements is a text of elements. -/
theorem denotes_elements {l : List Char} {vs : List (Json ν)}
    (h : Listing (fun l v => Denotes decode l (.element v)) l vs) :
    Denotes decode l (.elements vs) := by
  induction h with
  | one h => exact Denotes.elementsOne h
  | cons h _ ih => exact Denotes.elementsCons h ih

/-- Listed members are members. -/
theorem denotes_members {l : List Char} {ms : List (List Char × Json ν)}
    (h : Listing (fun l m => Denotes decode l (.member m)) l ms) :
    Denotes decode l (.members ms) := by
  induction h with
  | one h => exact Denotes.membersOne h
  | cons h _ ih => exact Denotes.membersCons h ih

/-- Opening and closing character around what stands between them. -/
theorem enclosed (a b : Char) (l r : List Char) : a :: (l ++ b :: r) = a :: l ++ [b] ++ r := by
  simp only [List.cons_append, List.append_assoc, List.nil_append]

/-- Whatever is read as a value is one. -/
theorem parseValue_sound (decode : List Char → ν) (n : ℕ) :
    Sound (parseValue decode n) fun l v => Denotes decode l (.value v) := by
  induction n with
  | zero => exact fun t v r h => by cases h
  | succ n ih =>
    intro t v r h
    cases t with
    | nil => cases h
    | cons c t =>
      unfold parseValue at h
      split at h
      · rename_i hc
        obtain ⟨⟨s, r'⟩, hs, he⟩ := Option.map_eq_some_iff.mp h
        cases he
        obtain ⟨raw, hraw, hchars⟩ := parseString_sound hs
        exact ⟨_, by rw [hc, hraw, enclosed], Denotes.str hchars⟩
      split at h
      · rename_i hc
        obtain ⟨⟨vs, r'⟩, hs, he⟩ := Option.map_eq_some_iff.mp h
        cases he
        obtain ⟨l, hl, hv⟩ := parseBlock_sound (padded_sound ih) hs
        refine ⟨_, by rw [hc, hl, enclosed], ?_⟩
        cases hv with
        | inl hv => exact hv.2 ▸ Denotes.arrNil hv.1
        | inr hv => exact Denotes.arr (denotes_elements hv)
      split at h
      · rename_i hc
        obtain ⟨⟨ms, r'⟩, hs, he⟩ := Option.map_eq_some_iff.mp h
        cases he
        obtain ⟨l, hl, hv⟩ := parseBlock_sound (parseMember_sound (padded_sound ih)) hs
        refine ⟨_, by rw [hc, hl, enclosed], ?_⟩
        cases hv with
        | inl hv => exact hv.2 ▸ Denotes.objNil hv.1
        | inr hv => exact Denotes.obj (denotes_members hv)
      split at h
      · obtain ⟨r', hs, he⟩ := Option.map_eq_some_iff.mp h
        cases he
        exact ⟨_, dropWord_iff.mp hs, Denotes.litNull⟩
      split at h
      · obtain ⟨r', hs, he⟩ := Option.map_eq_some_iff.mp h
        cases he
        exact ⟨_, dropWord_iff.mp hs, Denotes.litTrue⟩
      split at h
      · obtain ⟨r', hs, he⟩ := Option.map_eq_some_iff.mp h
        cases he
        exact ⟨_, dropWord_iff.mp hs, Denotes.litFalse⟩
      · unfold parseNumber at h
        split at h
        · rename_i hn
          obtain ⟨rfl, rfl⟩ := Prod.mk.inj (Option.some.inj h)
          exact ⟨_, List.takeWhile_append_dropWhile.symm, Denotes.num hn⟩
        · cases h

/-! ## Everything in the grammar is read -/

/-- What may follow a number. -/
def Delim (r : List Char) : Prop := ∀ c k, r = c :: k → isNumChar c = false

/-- What may follow an element. -/
def Stop (r : List Char) : Prop := ∀ c k, r = c :: k → isNumChar c = false ∧ isWs c = false

/-- A number ends in front of anything else, -/
theorem stop_cons {c : Char} (hn : isNumChar c = false) (hw : isWs c = false) (k : List Char) :
    Stop (c :: k) := by
  intro d l h
  cases h
  exact ⟨hn, hw⟩

/-- and at the end. -/
theorem stop_nil : Stop [] := fun c k h => by cases h

/-- White space is one of four characters. -/
theorem isWs_cases {c : Char} (h : isWs c = true) : c = ' ' ∨ c = '\t' ∨ c = '\n' ∨ c = '\r' := by
  unfold isWs at h
  simpa only [Bool.or_eq_true, decide_eq_true_eq, or_assoc] using h

/-- White space is in no number. -/
theorem isNumChar_of_isWs {c : Char} (h : isWs c = true) : isNumChar c = false := by
  rcases isWs_cases h with rfl | rfl | rfl | rfl <;> decide

/-- White space ends a number. -/
theorem Stop.append {w r : List Char} (hw : Ws w) (h : Stop r) : Delim (w ++ r) := by
  intro c k hc
  cases w with
  | nil => exact (h c k hc).1
  | cons d w =>
    cases hc
    exact isNumChar_of_isWs (hw c List.mem_cons_self)

/-- A number is not empty and consists of number characters. -/
theorem isNumber_cons {l : List Char} (h : isNumber l = true) :
    ∃ c k, l = c :: k ∧ isNumChar c = true ∧ ∀ d ∈ l, isNumChar d = true := by
  unfold isNumber at h
  have hall := List.all_eq_true.mp (Bool.and_eq_true_iff.mp h).1
  cases l with
  | nil => exact absurd (Bool.and_eq_true_iff.mp h).2 (by decide)
  | cons c k => exact ⟨c, k, rfl, hall c List.mem_cons_self, hall⟩

/-- How a value starts. -/
theorem value_head {l : List Char} {v : Json ν} (h : Denotes decode l (.value v)) :
    ∃ c k, l = c :: k ∧ isWs c = false ∧ c ≠ ']' ∧ c ≠ '}' := by
  cases h with
  | num h =>
    obtain ⟨c, k, rfl, hc, -⟩ := isNumber_cons h
    refine ⟨c, k, rfl, ?_, ?_, ?_⟩
    · refine Bool.eq_false_iff.mpr fun hw => ?_
      exact Bool.false_ne_true ((isNumChar_of_isWs hw).symm.trans hc)
    · rintro rfl
      exact absurd hc (by decide)
    · rintro rfl
      exact absurd hc (by decide)
  | litNull => exact ⟨_, _, rfl, by decide, by decide, by decide⟩
  | litTrue => exact ⟨_, _, rfl, by decide, by decide, by decide⟩
  | litFalse => exact ⟨_, _, rfl, by decide, by decide, by decide⟩
  | str h => exact ⟨_, _, rfl, by decide, by decide, by decide⟩
  | arrNil h => exact ⟨_, _, rfl, by decide, by decide, by decide⟩
  | arr h => exact ⟨_, _, rfl, by decide, by decide, by decide⟩
  | objNil h => exact ⟨_, _, rfl, by decide, by decide, by decide⟩
  | obj h => exact ⟨_, _, rfl, by decide, by decide, by decide⟩

/-- A character that is no white space is not skipped. -/
theorem noWs_cons {c : Char} (hc : isWs c = false) (k : List Char) : NoWs (c :: k) := by
  intro d l h
  cases h
  exact hc

/-- Values of at most `n` characters are read, whatever stops them. -/
def ReadsValues (decode : List Char → ν) (n : ℕ) : Prop :=
  ∀ l v, Denotes decode l (.value v) → l.length ≤ n → ∀ r, Delim r →
    parseValue decode n (l ++ r) = some (v, r)

/-- An element is read where values of its length are, -/
theorem padded_reads {n : ℕ} (h : ReadsValues decode n) {l : List Char} {v : Json ν}
    (hd : Denotes decode l (.element v)) (hn : l.length ≤ n) {r : List Char} (hr : Stop r) :
    padded (parseValue decode n) (l ++ r) = some (v, r) := by
  cases hd with
  | @element w w' l v hw hv hw' =>
    obtain ⟨c, k, hl, hc, -, -⟩ := value_head hv
    have hs : skipWs (w ++ l ++ w' ++ r) = l ++ (w' ++ r) := by
      rw [List.append_assoc, List.append_assoc]
      refine skipWs_append hw ?_
      rw [hl]
      exact noWs_cons hc _
    have hlen : l.length ≤ n := by
      simp only [List.length_append] at hn
      omega
    unfold padded
    rw [hs, h l v hv hlen (w' ++ r) (hr.append hw'), Option.map_some]
    exact congrArg (fun t => some (v, t)) (skipWs_append hw' fun c k hc => (hr c k hc).2)

/-- in front of every bracket, -/
theorem padded_complete {n : ℕ} (h : ReadsValues decode n) {close : Char}
    (hn : isNumChar close = false) (hw : isWs close = false) :
    Complete (padded (parseValue decode n)) (fun l v => Denotes decode l (.element v)) n close := by
  intro l v hd hl c r hc
  refine padded_reads h hd hl ?_
  cases hc with
  | inl hc => exact hc ▸ stop_cons (by decide) (by decide) r
  | inr hc => exact hc ▸ stop_cons hn hw r

/-- and so is a member. -/
theorem parseMember_complete {n : ℕ} (h : ReadsValues decode n) :
    Complete (parseMember (padded (parseValue decode n)))
      (fun l m => Denotes decode l (.member m)) n '}' := by
  intro l m hd hl c r hc
  cases hd with
  | @member w w' raw k l v hw hk hw' he =>
    have hlen : l.length ≤ n := by
      simp only [List.length_append, List.length_cons] at hl
      omega
    have hs : skipWs (w ++ '"' :: raw ++ '"' :: w' ++ ':' :: l ++ c :: r) =
        '"' :: (raw ++ '"' :: (w' ++ ':' :: (l ++ c :: r))) := by
      simp only [List.append_assoc, List.cons_append]
      exact skipWs_append hw (noWs_cons (by decide) _)
    have hs' : skipWs (w' ++ ':' :: (l ++ c :: r)) = ':' :: (l ++ c :: r) :=
      skipWs_append hw' (noWs_cons (by decide) _)
    have hall : Complete _ (fun l v => Denotes decode l (.element v)) n '}' :=
      padded_complete h (by decide) (by decide)
    have hv := hall l v he hlen c r hc
    unfold parseMember
    rw [hs]
    dsimp only
    rw [if_pos rfl, parseString_complete hk, Option.bind_some]
    dsimp only
    rw [hs']
    dsimp only
    rw [if_pos rfl, hv, Option.map_some]

/-- An element starts like its value. -/
theorem element_head {l : List Char} {v : Json ν} (h : Denotes decode l (.element v)) :
    ∃ w c k, l = w ++ c :: k ∧ Ws w ∧ isWs c = false ∧ c ≠ ']' := by
  cases h with
  | @element w w' l v hw hv hw' =>
    obtain ⟨c, k, rfl, hc, hne, -⟩ := value_head hv
    refine ⟨w, c, k ++ w', ?_, hw, hc, hne⟩
    simp only [List.append_assoc, List.cons_append]

/-- A member begins with something. -/
theorem member_head {l : List Char} {m : List Char × Json ν} (h : Denotes decode l (.member m)) :
    ∃ w c k, l = w ++ c :: k ∧ Ws w ∧ isWs c = false ∧ c ≠ '}' := by
  cases h with
  | @member w w' raw k l v hw hk hw' he =>
    refine ⟨w, '"', raw ++ '"' :: w' ++ ':' :: l, ?_, hw, by decide, by decide⟩
    simp only [List.append_assoc, List.cons_append]

/-- Elements are a list, -/
theorem listing_elements {l : List Char} {vs : List (Json ν)}
    (h : Denotes decode l (.elements vs)) :
    Listing (fun l v => Denotes decode l (.element v)) l vs := by
  generalize hi : Item.elements vs = i at h
  induction h generalizing vs with
  | elementsOne h =>
    cases hi
    exact Listing.one h
  | elementsCons h _ _ ih =>
    cases hi
    exact Listing.cons h (ih rfl)
  | _ => cases hi

/-- and members are one. -/
theorem listing_members {l : List Char} {ms : List (List Char × Json ν)}
    (h : Denotes decode l (.members ms)) :
    Listing (fun l m => Denotes decode l (.member m)) l ms := by
  generalize hi : Item.members ms = i at h
  induction h generalizing ms with
  | membersOne h =>
    cases hi
    exact Listing.one h
  | membersCons h _ _ ih =>
    cases hi
    exact Listing.cons h (ih rfl)
  | _ => cases hi

/-- Fewer characters are read all the more. -/
theorem Complete.mono {one : List Char → Option (α × List Char)} {P : List Char → α → Prop}
    {n m : ℕ} {close : Char} (h : Complete one P n close) (hm : m ≤ n) :
    Complete one P m close :=
  fun l a hP hl => h l a hP (hl.trans hm)

/-- Every number is read as its lexeme. -/
theorem parseNumber_complete {l : List Char} (h : isNumber l = true) {r : List Char}
    (hr : Delim r) : parseNumber decode (l ++ r) = some (.num (decode l), r) := by
  obtain ⟨-, -, -, -, hall⟩ := isNumber_cons h
  have ht : (l ++ r).takeWhile isNumChar = l := by
    rw [List.takeWhile_append_of_pos hall]
    cases r with
    | nil => exact List.append_nil l
    | cons c k =>
      rw [List.takeWhile_cons_of_neg (by rw [hr c k rfl]; exact Bool.false_ne_true), List.append_nil]
  have hd : (l ++ r).dropWhile isNumChar = r := by
    rw [List.dropWhile_append_of_pos hall]
    cases r with
    | nil => rfl
    | cons c k => exact List.dropWhile_cons_of_neg (by rw [hr c k rfl]; exact Bool.false_ne_true)
  unfold parseNumber
  rw [ht, hd, if_pos h]

/-- What stands between two enclosing characters is shorter. -/
theorem inner_length {a b : Char} {l : List Char} {n : ℕ} (h : (a :: l ++ [b]).length ≤ n + 1) :
    l.length ≤ n := by
  simp only [List.length_append, List.length_cons] at h
  omega

/-- Every value is read. -/
theorem readsValues (decode : List Char → ν) (n : ℕ) : ReadsValues decode n := by
  induction n with
  | zero =>
    intro l v h hl
    obtain ⟨c, k, rfl, -⟩ := value_head h
    cases hl
  | succ n ih =>
    intro l v h hl r hr
    cases h with
    | litNull =>
      have hd : dropWord ['n', 'u', 'l', 'l'] ('n' :: ['u', 'l', 'l'] ++ r) = some r :=
        dropWord_iff.mpr rfl
      exact congrArg (Option.map fun r => (Json.null, r)) hd
    | litTrue =>
      have hd : dropWord ['t', 'r', 'u', 'e'] ('t' :: ['r', 'u', 'e'] ++ r) = some r :=
        dropWord_iff.mpr rfl
      exact congrArg (Option.map fun r => (Json.bool true, r)) hd
    | litFalse =>
      have hd : dropWord ['f', 'a', 'l', 's', 'e'] ('f' :: ['a', 'l', 's', 'e'] ++ r) = some r :=
        dropWord_iff.mpr rfl
      exact congrArg (Option.map fun r => (Json.bool false, r)) hd
    | num h =>
      obtain ⟨c, k, rfl, hc, -⟩ := isNumber_cons h
      have hne : ∀ d, isNumChar d = false → c ≠ d := by
        rintro d hd rfl
        exact Bool.false_ne_true (hd.symm.trans hc)
      have hp : parseNumber decode (c :: k ++ r) = some (.num (decode (c :: k)), r) :=
        parseNumber_complete h hr
      rw [List.cons_append] at hp ⊢
      unfold parseValue
      rw [if_neg (hne '"' (by decide)), if_neg (hne '[' (by decide)), if_neg (hne '{' (by decide)),
        if_neg (hne 'n' (by decide)), if_neg (hne 't' (by decide)), if_neg (hne 'f' (by decide)), hp]
    | str h =>
      rw [← enclosed]
      exact congrArg (Option.map fun p => (Json.str p.1, p.2)) (parseString_complete h r)
    | @arrNil w h =>
      have hb : parseBlock (padded (parseValue decode n)) ']' (w ++ ']' :: r) = some ([], r) :=
        parseBlock_empty h (by decide) r
      rw [← enclosed]
      exact congrArg (Option.map fun p => (Json.arr p.1, p.2)) hb
    | arr h =>
      have hlen := inner_length hl
      have hb := parseBlock_complete (listing_elements h)
        ((padded_complete ih (by decide) (by decide)).mono hlen) (by decide)
        (fun l v => element_head) r
      rw [← enclosed]
      exact congrArg (Option.map fun p => (Json.arr p.1, p.2)) hb
    | @objNil w h =>
      have hb : parseBlock (parseMember (padded (parseValue decode n))) '}' (w ++ '}' :: r) =
          some ([], r) := parseBlock_empty h (by decide) r
      rw [← enclosed]
      exact congrArg (Option.map fun p => (Json.obj (collect p.1), p.2)) hb
    | obj h =>
      have hlen := inner_length hl
      have hb := parseBlock_complete (listing_members h) ((parseMember_complete ih).mono hlen)
        (by decide) (fun l m => member_head) r
      rw [← enclosed]
      exact congrArg (Option.map fun p => (Json.obj (collect p.1), p.2)) hb

/-- The reader accepts exactly the documents, with the value they denote. -/
theorem parseDocument_iff {t : List Char} {v : Json ν} :
    parseDocument decode t = some v ↔ Document decode t v := by
  constructor
  · intro h
    unfold parseDocument at h
    split at h
    · rename_i v' hp
      obtain ⟨l, hl, hd⟩ := padded_sound (parseValue_sound decode t.length) _ _ _ hp
      rw [List.append_nil] at hl
      split at h
      · rename_i hr
        cases h
        exact ⟨hl ▸ hd, hr⟩
      · cases h
    · cases h
  · rintro ⟨hd, hr⟩
    have hp := padded_reads (readsValues decode t.length) hd (Nat.le_refl _) stop_nil
    rw [List.append_nil] at hp
    unfold parseDocument
    rw [hp]
    exact if_pos hr

end CdroidDemo.JsonReader
