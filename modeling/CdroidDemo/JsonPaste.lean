import Mathlib.Algebra.Order.BigOperators.Group.List
import Mathlib.Algebra.Order.Ring.Nat
import CdroidDemo.JsonWriter
import CdroidDemo.JsonWeight

/-!
# JSON pasted together without escapes

Objects whose members are strings, written by joining names and values with
quotes and commas. The text denotes the objects when no value needs an escape,
and only then does it denote anything with the same values.
-/

namespace CdroidDemo.JsonPaste

open OrderedMap JsonText JsonWriter JsonWeight

variable {ν : Type} {decode : List Char → ν}

/-- A name and the string under it. -/
abbrev Field := List Char × List Char

/-- A key and its text between quotes, as they are. -/
def pasteMember (f : Field) : List Char := '"' :: (f.1 ++ '"' :: ':' :: '"' :: (f.2 ++ ['"']))

/-- Texts separated by commas. -/
def commas (ts : List (List Char)) : List Char := List.intercalate [','] ts

/-- The members of an object, pasted together. -/
def pasteObject (fs : List Field) : List Char := '{' :: (commas (fs.map pasteMember) ++ ['}'])

/-- The objects of an array, pasted together. -/
def pasteArray (os : List (List Field)) : List Char :=
  '[' :: (commas (os.map pasteObject) ++ [']'])

/-- The object of some fields. -/
def objectValue (fs : List Field) : Json ν :=
  .obj (collect (fs.map fun f => (f.1, Json.str f.2)))

/-- A comma behind the first text, -/
theorem commas_cons (t t' : List Char) (ts : List (List Char)) :
    commas (t :: t' :: ts) = t ++ ',' :: commas (t' :: ts) := by
  unfold commas
  rw [List.intercalate_cons_cons, List.append_assoc, List.singleton_append]

/-- and none behind the only one. -/
theorem commas_singleton (t : List Char) : commas [t] = t := List.intercalate_singleton

/-! ## Clean fields -/

/-- Neither the name nor the value needs an escape. -/
def CleanField (f : Field) : Prop := Clean f.1 ∧ Clean f.2

/-- A pasted member without escapes is read as it is, -/
theorem denotes_pasteMember {f : Field} (h : CleanField f) :
    Denotes decode (pasteMember f) (.member (f.1, .str f.2)) := by
  have hv : Denotes decode ('"' :: f.2 ++ ['"']) (.value (.str f.2)) := Denotes.str h.2.chars
  have hm := Denotes.member ws_nil h.1.chars ws_nil (denotes_element ws_nil hv ws_nil)
  simpa only [pasteMember, List.nil_append, List.append_nil, List.cons_append, List.append_assoc]
    using hm

/-- so are members with commas between them, -/
theorem denotes_pasteMembers {f : Field} {fs : List Field} (h : ∀ g ∈ f :: fs, CleanField g) :
    Denotes decode (commas ((f :: fs).map pasteMember))
      (.members ((f :: fs).map fun g => (g.1, Json.str g.2))) := by
  have hf : Denotes decode (pasteMember f) (.member (f.1, .str f.2)) :=
    denotes_pasteMember (h f List.mem_cons_self)
  induction fs generalizing f with
  | nil => exact (commas_singleton (pasteMember f)).symm ▸ Denotes.membersOne hf
  | cons g fs ih =>
    have hg := List.forall_mem_cons.mp h
    have hrest := ih hg.2 (denotes_pasteMember (hg.2 g List.mem_cons_self))
    simp only [List.map_cons, commas_cons] at hrest ⊢
    exact Denotes.membersCons hf hrest

/-- so is an object, -/
theorem denotes_pasteObject {fs : List Field} (hne : fs ≠ []) (h : ∀ f ∈ fs, CleanField f) :
    Denotes decode (pasteObject fs) (.element (objectValue fs)) := by
  cases fs with
  | nil => exact absurd rfl hne
  | cons f fs =>
    have ho : Denotes decode (pasteObject (f :: fs)) (.value (objectValue (f :: fs))) :=
      Denotes.obj (denotes_pasteMembers h)
    have he := denotes_element ws_nil ho ws_nil
    rwa [List.append_nil] at he

/-- so are several, -/
theorem denotes_pasteObjects {o : List Field} {os : List (List Field)}
    (h : ∀ p ∈ o :: os, p ≠ [] ∧ ∀ f ∈ p, CleanField f) :
    Denotes decode (commas ((o :: os).map pasteObject)) (.elements ((o :: os).map objectValue)) := by
  have ho : Denotes decode (pasteObject o) (.element (objectValue o)) :=
    denotes_pasteObject (h o List.mem_cons_self).1 (h o List.mem_cons_self).2
  induction os generalizing o with
  | nil => exact (commas_singleton (pasteObject o)).symm ▸ Denotes.elementsOne ho
  | cons p os ih =>
    have hp := List.forall_mem_cons.mp h
    have hhead := hp.2 p List.mem_cons_self
    have hrest := ih hp.2 (denotes_pasteObject hhead.1 hhead.2)
    simp only [List.map_cons, commas_cons] at hrest ⊢
    exact Denotes.elementsCons ho hrest

/-- Objects of clean fields are denoted by their pasted text. -/
theorem document_pasteObject {fs : List Field} (hne : fs ≠ []) (h : ∀ f ∈ fs, CleanField f) :
    Document decode (pasteObject fs) (objectValue fs) :=
  ⟨denotes_pasteObject hne h, rfl⟩

/-- and so is their array. -/
theorem document_pasteArray {os : List (List Field)}
    (h : ∀ o ∈ os, o ≠ [] ∧ ∀ f ∈ o, CleanField f) :
    Document decode (pasteArray os) (.arr (os.map objectValue)) := by
  have ha : Denotes decode (pasteArray os) (.value (.arr (os.map objectValue))) := by
    cases os with
    | nil => exact Denotes.arrNil ws_nil
    | cons o os => exact Denotes.arr (denotes_pasteObjects h)
  have he := denotes_element ws_nil ha ws_nil
  rw [List.append_nil] at he
  exact ⟨he, rfl⟩

/-- What is found under the name of a field. -/
theorem findEntry_collect_field {fs : List Field} {f : Field} (hn : (fs.map Prod.fst).Nodup)
    (hf : f ∈ fs) : findEntry f.1 (collect (fs.map fun g => (g.1, (Json.str g.2 : Json ν)))) =
      some (.str f.2) := by
  induction fs using List.reverseRecOn with
  | nil => cases hf
  | append_singleton fs g ih =>
    rw [List.map_append, List.nodup_append] at hn
    rw [List.map_append, List.map_singleton, findEntry_collect_concat]
    cases List.mem_append.mp hf with
    | inl hm =>
      have hne : f.1 ≠ g.1 :=
        hn.2.2 f.1 (List.mem_map_of_mem hm) g.1 (List.mem_map_of_mem List.mem_cons_self)
      rw [if_neg hne, ih hn.1 hm]
    | inr hm =>
      rw [List.mem_singleton.mp hm, if_pos rfl]

/-! ## Any fields -/

variable {skip : List (List Char)}

/-- Names that cannot be read outside of strings; fields that are left out of
the weight have clean values. -/
def Weighable (skip : List (List Char)) (f : Field) : Prop :=
  Clean f.1 ∧ Foreign f.1 ∧ (f.1 ∈ skip → Clean f.2)

/-- The places of the value in the text. -/
def textCost (skip : List (List Char)) (f : Field) : ℕ := counted skip f.1 f.2.length

/-- The places the value needs. -/
def needCost (skip : List (List Char)) (f : Field) : ℕ := counted skip f.1 (stringSize f.2)

/-- Punctuation outside of strings does not matter to the scan. -/
def Punctuation (t : List Char) : Prop := ∀ c ∈ t, c ∈ ['[', ']', '{', '}', ',']

instance decidablePunctuation (t : List Char) : Decidable (Punctuation t) := List.decidableBAll _ t

/-- Punctuation between values weighs nothing, -/
theorem weigh_punctuation {c : Char} {q : List Char} (h : Punctuation (c :: q)) (p : Phase)
    (t : List Char) : weigh skip (.out p) (c :: q ++ t) = weigh skip (.out .idle) t := by
  induction q generalizing c p with
  | nil => exact weigh_punct p (h c List.mem_cons_self) t
  | cons d q ih =>
    have hd := List.forall_mem_cons.mp h
    rw [List.cons_append, weigh_punct p hd.1, ih hd.2]

/-- and within a string it is text. -/
theorem weigh_inStr_punctuation {q : List Char} (h : Punctuation q) (p : Phase) (raw t : List Char) :
    weigh skip (.inStr p raw) (q ++ t) = weigh skip (.inStr p (raw ++ q)) t := by
  induction q generalizing raw with
  | nil => rw [List.nil_append, List.append_nil]
  | cons c q ih =>
    have hc := List.forall_mem_cons.mp h
    have hne : c ≠ '"' ∧ c ≠ '\\' := by
      have := hc.1
      simp only [List.mem_cons, List.not_mem_nil, or_false] at this
      rcases this with rfl | rfl | rfl | rfl | rfl <;> decide
    rw [List.cons_append, weigh_inStr hne, ih hc.2, List.append_assoc, List.singleton_append]

/-- After a value comes punctuation and the next name. -/
theorem closing_name {c : Char} {q k : List Char} (hq : Punctuation (c :: q)) (hk : Clean k)
    (hf : Foreign k) (t : List Char) :
    Closing skip (c :: q ++ '"' :: (k ++ t)) (weigh skip (.out .idle) ('"' :: (k ++ t))) := by
  refine ⟨fun p => weigh_punctuation hq p _, fun p raw => ?_⟩
  rw [weigh_inStr_punctuation hq, weigh_cons]
  obtain ⟨p', hp, -⟩ := close_potential skip p (raw ++ c :: q)
  have hs : step skip (.inStr p (raw ++ c :: q)) '"' = some (close skip p (raw ++ c :: q)) := rfl
  rw [hs, Option.bind_some, hp, weigh_foreign hk hf, Option.map_none]

/-- After the last value comes punctuation only. -/
theorem closing_end {c : Char} {q : List Char} (hq : Punctuation (c :: q)) :
    Closing skip (c :: q) (some 0) := by
  refine ⟨fun p => ?_, fun p raw => ?_⟩
  · have h : weigh skip (.out p) (c :: q ++ []) = weigh skip (.out .idle) [] :=
      weigh_punctuation hq p []
    rwa [List.append_nil] at h
  · have h : weigh skip (.inStr p raw) (c :: q ++ []) = weigh skip (.inStr p (raw ++ c :: q)) [] :=
      weigh_inStr_punctuation hq p raw []
    rwa [List.append_nil] at h

/-- A value weighs no more than its places in the text. -/
theorem weigh_field {f : Field} (hf : Weighable skip f) {t : List Char} {r : Option ℕ}
    (h : Closing skip t r) {m : ℕ} (hm : weigh skip (.out .idle) (pasteMember f ++ t) = some m) :
    ∃ m', r = some m' ∧ m ≤ textCost skip f + m' := by
  have hm' : weigh skip (.inStr (.colon f.1) []) (f.2 ++ '"' :: t) = some m := by
    rw [← weigh_name hf.1]
    simpa only [pasteMember, List.cons_append, List.append_assoc, List.nil_append] using hm
  unfold textCost counted
  split
  · rename_i hs
    rw [weigh_skipped hs (hf.2.2 hs), h.1] at hm'
    exact ⟨m, hm', Nat.le_add_left m 0⟩
  · obtain ⟨m', hr, hle⟩ := h.weigh_le f.2 hm'
    exact ⟨m', hr, by simpa only [potential, List.length_nil, Nat.zero_add] using hle⟩

/-- Members start with the quote of a name. -/
theorem commas_head (f : Field) (fs : List Field) :
    ∃ t, commas ((f :: fs).map pasteMember) = '"' :: (f.1 ++ t) := by
  cases fs with
  | nil => exact ⟨_, commas_singleton _⟩
  | cons g fs =>
    refine ⟨'"' :: ':' :: '"' :: (f.2 ++ ['"']) ++ ',' :: commas ((g :: fs).map pasteMember), ?_⟩
    rw [List.map_cons, List.map_cons, commas_cons, ← List.map_cons]
    simp only [pasteMember, List.cons_append, List.append_assoc]

/-- The members of an object, with what follows their last quote. -/
theorem weigh_members {f : Field} {fs : List Field} (hf : ∀ g ∈ f :: fs, Weighable skip g)
    {t : List Char} {r : Option ℕ} (h : Closing skip t r) {m : ℕ}
    (hm : weigh skip (.out .idle) (commas ((f :: fs).map pasteMember) ++ t) = some m) :
    ∃ m', r = some m' ∧ m ≤ ((f :: fs).map (textCost skip)).sum + m' := by
  induction fs generalizing f m with
  | nil =>
    rw [List.map_singleton, commas_singleton] at hm
    obtain ⟨m', hr, hle⟩ := weigh_field (hf f List.mem_cons_self) h hm
    exact ⟨m', hr, by simpa using hle⟩
  | cons g fs ih =>
    have hg := List.forall_mem_cons.mp hf
    have hgw := hg.2 g List.mem_cons_self
    rw [List.map_cons, List.map_cons, commas_cons, ← List.map_cons, List.append_assoc] at hm
    obtain ⟨u, hu⟩ := commas_head g fs
    have hc : Closing skip _ _ :=
      closing_name (q := []) (c := ',') (by decide) hgw.1 hgw.2.1 (u ++ t)
    rw [← List.append_assoc, ← List.cons_append, ← hu] at hc
    obtain ⟨m₁, hr₁, hle₁⟩ := weigh_field hg.1 hc hm
    obtain ⟨m', hr, hle⟩ := ih hg.2 hr₁
    refine ⟨m', hr, ?_⟩
    rw [List.map_cons, List.sum_cons]
    omega

/-- An object in front of more text. -/
theorem weigh_object {f : Field} {fs : List Field} (hf : ∀ g ∈ f :: fs, Weighable skip g)
    {t : List Char} {r : Option ℕ} (h : Closing skip ('}' :: t) r) {m : ℕ}
    (hm : weigh skip (.out .idle) (pasteObject (f :: fs) ++ t) = some m) :
    ∃ m', r = some m' ∧ m ≤ ((f :: fs).map (textCost skip)).sum + m' := by
  refine weigh_members hf h ?_
  have hp : weigh skip _ _ = _ := weigh_punct (c := '{') .idle (by decide)
    (commas ((f :: fs).map pasteMember) ++ '}' :: t)
  rw [← hp]
  simpa only [pasteObject, List.cons_append, List.append_assoc, List.nil_append] using hm

/-- Objects start with the quote of a name. -/
theorem commas_object_head (f : Field) (fs : List Field) (os : List (List Field)) :
    ∃ t, commas (((f :: fs) :: os).map pasteObject) = '{' :: '"' :: (f.1 ++ t) := by
  obtain ⟨u, hu⟩ := commas_head f fs
  cases os with
  | nil =>
    refine ⟨u ++ ['}'], ?_⟩
    rw [List.map_singleton, commas_singleton, pasteObject, hu, List.cons_append, List.append_assoc]
  | cons o os =>
    refine ⟨u ++ '}' :: ',' :: commas ((o :: os).map pasteObject), ?_⟩
    rw [List.map_cons, List.map_cons, commas_cons, ← List.map_cons, pasteObject, hu]
    simp only [List.cons_append, List.append_assoc, List.nil_append]

/-- The objects of an array. -/
theorem weigh_objects {o : List Field} {os : List (List Field)}
    (ho : ∀ p ∈ o :: os, p ≠ [] ∧ ∀ f ∈ p, Weighable skip f) {m : ℕ}
    (hm : weigh skip (.out .idle) (commas ((o :: os).map pasteObject) ++ [']']) = some m) :
    m ≤ ((o :: os).flatten.map (textCost skip)).sum := by
  induction os generalizing o m with
  | nil =>
    have h := ho o List.mem_cons_self
    cases o with
    | nil => exact absurd rfl h.1
    | cons f fs =>
      rw [List.map_singleton, commas_singleton] at hm
      obtain ⟨m', hr, hle⟩ := weigh_object h.2 (closing_end (by decide)) hm
      cases hr
      simpa using hle
  | cons p os ih =>
    have h := List.forall_mem_cons.mp ho
    have hp := h.2 p List.mem_cons_self
    cases o with
    | nil => exact absurd rfl h.1.1
    | cons f fs =>
      cases p with
      | nil => exact absurd rfl hp.1
      | cons g gs =>
        rw [List.map_cons, List.map_cons, commas_cons, ← List.map_cons, List.append_assoc] at hm
        obtain ⟨u, hu⟩ := commas_object_head g gs os
        have hgw := hp.2 g List.mem_cons_self
        have hc : Closing skip _ _ :=
          closing_name (q := [',', '{']) (c := '}') (by decide) hgw.1 hgw.2.1 (u ++ [']'])
        rw [← weigh_punct .idle (show '{' ∈ _ by decide)] at hc
        have htext : commas (((g :: gs) :: os).map pasteObject) ++ [']'] =
            '{' :: '"' :: (g.1 ++ (u ++ [']'])) := by
          rw [hu]
          simp only [List.cons_append, List.append_assoc]
        rw [List.cons_append, htext] at hm
        obtain ⟨m₁, hr₁, hle₁⟩ := weigh_object h.1.2 hc hm
        rw [← htext] at hr₁
        have hle := ih h.2 hr₁
        rw [List.flatten_cons, List.map_append, List.sum_append]
        omega

/-- Fields whose values need no more places than they have are clean. -/
theorem clean_of_needCost {fs : List Field} (hf : ∀ f ∈ fs, Weighable skip f)
    (hle : (fs.map (needCost skip)).sum ≤ (fs.map (textCost skip)).sum) : ∀ f ∈ fs, CleanField f := by
  have hcost : ∀ f : Field, textCost skip f ≤ needCost skip f ∧
      (needCost skip f ≤ textCost skip f → f.1 ∈ skip ∨ Clean f.2) := by
    intro f
    unfold needCost textCost counted
    split
    · rename_i hs
      exact ⟨Nat.le_refl 0, fun _ => Or.inl hs⟩
    · unfold stringSize
      split
      · rename_i hc
        exact ⟨Nat.le_refl _, fun _ => Or.inr hc⟩
      · exact ⟨Nat.le_succ _, fun h => absurd h (Nat.not_succ_le_self _)⟩
  have hsum : ∀ l : List Field, (l.map (textCost skip)).sum ≤ (l.map (needCost skip)).sum := fun l =>
    List.sum_le_sum fun f _ => (hcost f).1
  induction fs with
  | nil => exact nofun
  | cons g fs ih =>
    rw [List.map_cons, List.map_cons, List.sum_cons, List.sum_cons] at hle
    have hg := List.forall_mem_cons.mp hf
    have h₁ := (hcost g).1
    have h₂ := hsum fs
    refine List.forall_mem_cons.mpr ⟨⟨hg.1.1, ?_⟩, ih hg.2 (by omega)⟩
    exact ((hcost g).2 (by omega)).elim hg.1.2.2 id

variable {names : List (List Char)}

/-- A pasted array that denotes strings of the same sizes has clean fields. -/
theorem clean_pasteArray (hnames : names.Nodup) (hdisj : ∀ k ∈ names, k ∉ skip)
    (hskip : ∀ k ∈ skip, Clean k) {os : List (List Field)} {v : Json ν}
    (ho : ∀ o ∈ os, o ≠ [] ∧ ∀ f ∈ o, Weighable skip f) (hd : Document decode (pasteArray os) v)
    (hv : (os.flatten.map (needCost skip)).sum ≤ valueWeight names v) :
    ∀ o ∈ os, ∀ f ∈ o, CleanField f := by
  obtain ⟨m, hm, hle⟩ := document_weight hnames hdisj hskip hd
  cases os with
  | nil => exact nofun
  | cons o os =>
    rw [pasteArray, weigh_punct .idle (by decide)] at hm
    have hw : ∀ f ∈ (o :: os).flatten, Weighable skip f := by
      intro f hf
      obtain ⟨p, hp, hfp⟩ := List.mem_flatten.mp hf
      exact (ho p hp).2 f hfp
    have hc := clean_of_needCost hw (hv.trans (hle.trans (weigh_objects ho hm)))
    exact fun p hp f hf => hc f (List.mem_flatten_of_mem hp hf)

/-- The same for one object. -/
theorem clean_pasteObject (hnames : names.Nodup) (hdisj : ∀ k ∈ names, k ∉ skip)
    (hskip : ∀ k ∈ skip, Clean k) {fs : List Field} {v : Json ν} (hne : fs ≠ [])
    (hf : ∀ f ∈ fs, Weighable skip f) (hd : Document decode (pasteObject fs) v)
    (hv : (fs.map (needCost skip)).sum ≤ valueWeight names v) : ∀ f ∈ fs, CleanField f := by
  obtain ⟨m, hm, hle⟩ := document_weight hnames hdisj hskip hd
  cases fs with
  | nil => exact absurd rfl hne
  | cons f fs =>
    rw [← List.append_nil (pasteObject _)] at hm
    obtain ⟨m', hr, hle'⟩ := weigh_object hf (closing_end (by decide)) hm
    cases hr
    exact clean_of_needCost hf (hv.trans (hle.trans hle'))

end CdroidDemo.JsonPaste
