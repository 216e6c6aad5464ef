import DocExport.Proofs.LinkBrackets
import DocExport.RichText.Phrasing

/-!
# Links written as images

Where a text is followed by a link, the writer escapes an exclamation mark that it finds at the end
of what has been written.  It misses two cases.  An inline that writes nothing may stand between the
exclamation mark and the link, and then nothing is escaped.  Or an empty text does stand before the
link, but first inside a mark: then the backslash is written before the delimiter of the mark, and
the exclamation mark after it.

* **Main results.** `Inline.lettersAll_of_not_reachesBack` and `Inline.torn_lettersAll` (what the
  inlines after an exclamation mark do to it), `Inline.Foretold` with a lemma for each kind of
  inline, and `Inline.hasBareLink_iff` (which links become images).
-/

namespace DocExport

open Text Letter

namespace Inline

/-! ## Inlines that write nothing -/

mutual

/-- Whether an inline writes nothing: an empty text, or a mark around nothing else. -/
def isSilent : Inline → Bool
  | .text value => value.toList.isEmpty
  | .emphasis xs | .strong xs | .delete xs => allSilent xs
  | _ => false

/-- Whether all of some inlines write nothing. -/
def allSilent : List Inline → Bool
  | [] => true
  | x :: xs => isSilent x && allSilent xs

end

/-! ## Links that become images -/

mutual

/-- Whether an exclamation mark before a mark gets a backslash from inside: at the beginning of the
mark, after what writes nothing, stands an empty text with a link behind it. -/
def reachesBack : Inline → Bool
  | .emphasis xs | .strong xs | .delete xs => reachesBackAll xs
  | _ => false

/-- Whether an exclamation mark before some inlines gets a backslash from one of them. -/
def reachesBackAll : List Inline → Bool
  | [] => false
  | x :: xs =>
      reachesBack x || (isSilent x && (x.isText && startsWithLink xs || reachesBackAll xs))

end

/-- Whether an inline is a text that ends in an exclamation mark. -/
def endsInBang : Inline → Bool
  | .text value => value.toList.getLast? == some '!'
  | _ => false

/-- Whether an exclamation mark that no backslash escapes stands before what follows an inline, if
one stood before the inline. -/
def bangAfter (bang : Bool) (x : Inline) (xs : List Inline) : Bool :=
  !(x.isText && startsWithLink xs) && (x.endsInBang || bang && x.isSilent)

mutual

/-- Whether a link inside an inline becomes an image. -/
def baresLink : Inline → Bool
  | .emphasis xs | .strong xs | .delete xs | .link _ _ _ xs => baresLinkAll false xs
  | _ => false

/-- Whether a link among some inlines or inside them becomes an image, when an exclamation mark that
no backslash escapes stands before them or not. -/
def baresLinkAll (bang : Bool) : List Inline → Bool
  | [] => false
  | x :: xs =>
      (bang && (startsWithLink (x :: xs) || reachesBack x)) || baresLink x ||
        baresLinkAll (bangAfter bang x xs) xs

end

/-! ## Leaves that are no texts -/

/-- An inline that always writes something, and always something quiet: code, a formula or an
image. -/
structure IsPiece (x : Inline) : Prop where
  noText : x.isText = false
  noLink : ∀ xs, startsWithLink (x :: xs) = false
  noBang : x.endsInBang = false
  speaks : x.isSilent = false
  noReach : x.reachesBack = false
  keeps : x.baresLink = false
  last : ∀ slots, ∃ c, (x.write {} slots []).getLast? = some c ∧ c ≠ '\\' ∧ c ≠ '!'

/-- Every leaf is such a piece or a text. -/
theorem text_or_piece {x : Inline} (h : x.isLeaf = true) :
    (∃ value, x = .text value) ∨ x.IsPiece := by
  cases x with
  | text value => exact .inl ⟨value, rfl⟩
  | code value =>
    refine .inr ⟨rfl, fun _ => rfl, rfl, rfl, rfl, rfl, fun slots => ⟨'\x60', ?_, by decide⟩⟩
    simp [write, codeSpan, List.getLast?_append, List.getLast?_replicate]
  | math value =>
    refine .inr ⟨rfl, fun _ => rfl, rfl, rfl, rfl, rfl, fun slots => ⟨'$', ?_, by decide⟩⟩
    simp [write, mathSpan, List.getLast?_cons, List.getLast?_append]
  | image target alt title media =>
    refine .inr ⟨rfl, fun _ => rfl, rfl, rfl, rfl, rfl, fun slots => ⟨')', ?_, by decide⟩⟩
    simp [write, List.getLast?_cons, List.getLast?_append]
  | emphasis | strong | delete | link => exact absurd h Bool.false_ne_true

theorem IsPiece.write_ne_nil {x : Inline} (h : x.IsPiece) (slots : Slots) :
    x.write {} slots [] ≠ [] := by
  obtain ⟨c, hlast, -⟩ := h.last slots
  exact List.ne_nil_of_mem (List.mem_of_getLast? hlast)

/-! ## What a mark stands around -/

section

variable {style : Style} {x : Inline} {delimiter : List Char} {ys : List Inline}

theorem eq_of_mark (h : x.mark? style = some (delimiter, ys)) :
    x = .emphasis ys ∨ x = .strong ys ∨ x = .delete ys := by
  cases x <;> simp_all [mark?]

theorem isSilent_mark (h : x.mark? style = some (delimiter, ys)) : x.isSilent = allSilent ys := by
  rcases eq_of_mark h with rfl | rfl | rfl <;> rfl

theorem reachesBack_mark (h : x.mark? style = some (delimiter, ys)) :
    x.reachesBack = reachesBackAll ys := by
  rcases eq_of_mark h with rfl | rfl | rfl <;> rfl

theorem baresLink_mark (h : x.mark? style = some (delimiter, ys)) :
    x.baresLink = baresLinkAll false ys := by
  rcases eq_of_mark h with rfl | rfl | rfl <;> rfl

theorem isText_mark (h : x.mark? style = some (delimiter, ys)) : x.isText = false := by
  rcases eq_of_mark h with rfl | rfl | rfl <;> rfl

theorem endsInBang_mark (h : x.mark? style = some (delimiter, ys)) : x.endsInBang = false := by
  rcases eq_of_mark h with rfl | rfl | rfl <;> rfl

theorem startsWithLink_mark (h : x.mark? style = some (delimiter, ys)) (xs : List Inline) :
    startsWithLink (x :: xs) = false := by
  rcases eq_of_mark h with rfl | rfl | rfl <;> rfl

theorem delimiter_of_mark (h : x.mark? {} = some (delimiter, ys)) :
    delimiter ≠ [] ∧ delimiter.all Escape.isMarkChar = true := by
  rcases eq_of_mark h with rfl | rfl | rfl <;>
    · simp only [mark?, Option.some.injEq, Prod.mk.injEq] at h
      obtain ⟨rfl, -⟩ := h
      decide

end

/-- What begins with a link is a link and what follows it. -/
theorem exists_link_of_startsWithLink {xs : List Inline} (h : startsWithLink xs = true) :
    ∃ target title media ys zs, xs = .link target title media ys :: zs := by
  cases xs with
  | nil => exact absurd h Bool.false_ne_true
  | cons x xs =>
    cases x with
    | link target title media ys => exact ⟨target, title, media, ys, xs, rfl⟩
    | text | code | math | emphasis | strong | delete | image =>
      exact absurd h Bool.false_ne_true

/-! ## Writing nothing -/

theorem startsWithLink_of_allSilent {xs : List Inline} (h : allSilent xs = true) :
    startsWithLink xs = false := by
  cases xs with
  | nil => rfl
  | cons x xs => cases x <;> first | rfl | exact absurd h Bool.false_ne_true

/-- Inlines that write nothing leave what was written before as it is. -/
theorem lettersAll_of_allSilent (slots : Slots) (before : List Letter) {xs : List Inline}
    (h : allSilent xs = true) : lettersAll {} slots before xs = before := by
  induction xs using walk_induction {} (fun x => x.isSilent = true →
    x.letters {} slots before = before) with
  | nil => rfl
  | cons x xs hx hxs =>
    obtain ⟨hsilent, hrest⟩ := Bool.and_eq_true_iff.1 h
    rw [lettersAll, startsWithLink_of_allSilent hrest, Bool.and_false, if_neg Bool.false_ne_true,
      hx hsilent, hxs hrest]
  | leaf x hleaf hx =>
    rcases text_or_piece hleaf with ⟨value, rfl⟩ | hpiece
    · have hvalue : value.toList = [] := List.isEmpty_iff.1 hx
      rw [letters_leaf hleaf, write, hvalue]
      exact List.append_nil before
    · exact absurd (hpiece.speaks.symm.trans hx) Bool.false_ne_true
  | mark x delimiter ys hmark hys hx =>
    rw [isSilent_mark hmark] at hx
    rw [letters_mark hmark, hys hx]
    refine Letter.enclose_of_blank delimiter ?_
    rw [List.drop_length]
    rfl
  | link target title media ys hys hx => exact absurd hx Bool.false_ne_true

/-- Every other list of inlines writes something. -/
theorem allSilent_of_lettersAll_eq_nil {slots : Slots} {xs : List Inline}
    (h : lettersAll {} slots [] xs = []) : allSilent xs = true := by
  induction xs using walk_induction {} (fun x => x.letters {} slots [] = [] →
    x.isSilent = true) with
  | nil => rfl
  | cons x xs hx hxs =>
    rw [lettersAll] at h
    have hkept : (if (x.isText && startsWithLink xs) = true then
        finalBang (x.letters {} slots []) else x.letters {} slots []) = [] :=
      eq_nil_of_lettersAll h
    have hwritten : x.letters {} slots [] = [] := by
      split at hkept
      · exact eq_nil_of_finalBang hkept
      · exact hkept
    rw [hkept] at h
    exact Bool.and_eq_true_iff.2 ⟨hx hwritten, hxs h⟩
  | leaf x hleaf hx =>
    rw [letters_leaf hleaf, List.nil_append, plainly, List.map_eq_nil_iff] at hx
    rcases text_or_piece hleaf with ⟨value, rfl⟩ | hpiece
    · have hvalue : Escape.text value.toList = [] := by simpa [write] using hx
      exact List.isEmpty_iff.2 (Escape.text_eq_nil.1 hvalue)
    · exact absurd hx (hpiece.write_ne_nil slots)
  | mark x delimiter ys hmark hys hx =>
    rw [letters_mark hmark] at hx
    rw [isSilent_mark hmark]
    exact hys (eq_nil_of_enclose hx)
  | link target title media ys hys hx => simp [letters, plainly] at hx

theorem letters_of_isSilent (slots : Slots) (before : List Letter) {x : Inline}
    (h : x.isSilent = true) : x.letters {} slots before = before := by
  rw [← lettersAll_singleton]
  exact lettersAll_of_allSilent slots before (Bool.and_eq_true_iff.2 ⟨h, rfl⟩)

theorem isSilent_of_letters_eq_nil {slots : Slots} {x : Inline}
    (h : x.letters {} slots [] = []) : x.isSilent = true := by
  rw [← lettersAll_singleton] at h
  exact (Bool.and_eq_true_iff.1 (allSilent_of_lettersAll_eq_nil h)).1

/-! ## Reaching back -/

/-- Inlines that do not reach back are written after what was written before. -/
theorem lettersAll_of_not_reachesBack (slots : Slots) {xs : List Inline}
    (h : reachesBackAll xs = false) (before : List Letter) :
    lettersAll {} slots before xs = before ++ lettersAll {} slots [] xs := by
  induction xs using walk_induction {} (fun x => x.reachesBack = false → ∀ before,
    x.letters {} slots before = before ++ x.letters {} slots []) generalizing before with
  | nil => exact (List.append_nil before).symm
  | cons x xs hx hxs =>
    obtain ⟨hreach, hrest⟩ := Bool.or_eq_false_iff.1 h
    rw [lettersAll, lettersAll]
    by_cases hsilent : x.isSilent = true
    · rw [hsilent, Bool.true_and, Bool.or_eq_false_iff] at hrest
      rw [hrest.1, if_neg Bool.false_ne_true, if_neg Bool.false_ne_true,
        letters_of_isSilent slots _ hsilent, letters_of_isSilent slots _ hsilent]
      exact hxs hrest.2 before
    · -- what `x` writes stands between the text before and whatever looks back
      have hne : x.letters {} slots [] ≠ [] := fun hnil => hsilent (isSilent_of_letters_eq_nil hnil)
      rw [hx hreach before]
      split
      · rw [finalBang_append fun hnil => absurd hnil hne]
        exact lettersAll_append {} slots (fun hnil => absurd (eq_nil_of_finalBang hnil) hne) xs
      · exact lettersAll_append {} slots (fun hnil => absurd hnil hne) xs
  | leaf x hleaf _ before => rw [letters_leaf hleaf, letters_leaf hleaf, List.nil_append]
  | mark x delimiter ys hmark hys hx before =>
    rw [reachesBack_mark hmark] at hx
    rw [letters_mark hmark, letters_mark hmark, hys hx]
    simpa using enclose_append delimiter before [] (lettersAll {} slots [] ys)
  | link target title media ys hys _ before =>
    rw [letters, letters, lettersAll_append {} slots (by simp), List.nil_append, List.append_assoc]

/-- What is written after a torn exclamation mark leaves it torn. -/
theorem torn_lettersAll_of_torn {style : Style} {slots : Slots} {marks : List Char}
    {before : List Letter} (h : Torn marks before) (xs : List Inline) :
    Torn marks (lettersAll style slots before xs) := by
  obtain ⟨rest, rfl⟩ := h
  have hfront : (spell (plainly ('\\' :: (marks ++ ['!'])) ++ [.opening])).getLast? ≠ some '!' := by
    simp [spell, char]
  have hsplit : plainly ('\\' :: (marks ++ ['!'])) ++ .opening :: rest =
      plainly ('\\' :: (marks ++ ['!'])) ++ [.opening] ++ rest := by simp
  rw [hsplit, lettersAll_append style slots fun _ => hfront]
  exact ⟨lettersAll style slots rest xs, by simp⟩

/-- Where a link directly follows an escaped exclamation mark, no mark has been drawn yet. -/
theorem torn_escaped_link (slots : Slots) {xs : List Inline} (h : startsWithLink xs = true) :
    Torn [] (lettersAll {} slots (finalBang [.plain '!']) xs) := by
  obtain ⟨target, title, media, ys, zs, rfl⟩ := exists_link_of_startsWithLink h
  have hescaped : finalBang [.plain '!'] = plainly ['\\', '!'] := rfl
  have hlink : Torn [] (letters {} slots (plainly ['\\', '!']) (.link target title media ys)) := by
    rw [letters, ← List.append_nil (plainly ['\\', '!'] ++ [Letter.opening]),
      lettersAll_append {} slots fun _ => by simp [spell, char]]
    exact ⟨_, by simp [plainly]; rfl⟩
  rw [hescaped, lettersAll]
  exact torn_lettersAll_of_torn hlink zs

/-- Where inlines reach back, the exclamation mark before them is torn from its backslash by the
marks that are drawn around the link. -/
theorem torn_lettersAll (slots : Slots) {xs : List Inline} (h : reachesBackAll xs = true) :
    ∃ marks, marks.all Escape.isMarkChar = true ∧
      Torn marks (lettersAll {} slots [.plain '!'] xs) := by
  induction xs using walk_induction {} (fun x => x.reachesBack = true → ∃ marks,
    marks.all Escape.isMarkChar = true ∧ Torn marks (x.letters {} slots [.plain '!'])) with
  | nil => exact absurd h Bool.false_ne_true
  | cons x xs hx hxs =>
    rw [lettersAll]
    rcases Bool.or_eq_true_iff.1 h with hreach | hrest
    · have htext : x.isText = false := by
        cases x <;> first | rfl | exact absurd hreach Bool.false_ne_true
      obtain ⟨marks, hmarks, htorn⟩ := hx hreach
      rw [htext, Bool.false_and, if_neg Bool.false_ne_true]
      exact ⟨marks, hmarks, torn_lettersAll_of_torn htorn xs⟩
    · obtain ⟨hsilent, hrest⟩ := Bool.and_eq_true_iff.1 hrest
      rw [letters_of_isSilent slots _ hsilent]
      by_cases hlink : (x.isText && startsWithLink xs) = true
      · rw [if_pos hlink]
        exact ⟨[], rfl, torn_escaped_link slots (Bool.and_eq_true_iff.1 hlink).2⟩
      · rw [if_neg hlink]
        exact hxs ((Bool.or_eq_true_iff.1 hrest).resolve_left hlink)
  | leaf x hleaf hx =>
    rcases text_or_piece hleaf with ⟨value, rfl⟩ | hpiece
    · exact absurd hx Bool.false_ne_true
    · exact absurd (hpiece.noReach.symm.trans hx) Bool.false_ne_true
  | mark x delimiter ys hmark hys hx =>
    rw [reachesBack_mark hmark] at hx
    obtain ⟨marks, hmarks, htorn⟩ := hys hx
    rw [letters_mark hmark]
    refine ⟨delimiter ++ marks, ?_, htorn.enclose hmarks⟩
    rw [List.all_append, (delimiter_of_mark hmark).2, hmarks]
    rfl
  | link target title media ys hys hx => exact absurd hx Bool.false_ne_true

end Inline

/-! ## What has been written before -/

namespace Letter

open Escape (escapesNext)
open Inline (startsWithLink)

/-- How what has been written before some inlines can end. -/
inductive Before : Bool → List Inline → List Letter → Prop where
  /-- It ends in an exclamation mark that no backslash escapes. -/
  | bang {xs : List Inline} {front : List Letter} (h : escapesNext (spell front) = false) :
      Before true xs (front ++ [.plain '!'])
  /-- It ends in no exclamation mark. -/
  | calm {xs : List Inline} {ls : List Letter} (h : escapesNext (spell ls) = false)
      (hlast : (spell ls).getLast? ≠ some '!') : Before false xs ls
  /-- It ends in an exclamation mark that has been escaped for the link that follows. -/
  | escaped {xs : List Inline} {front : List Letter} (h : escapesNext (spell front) = false)
      (hlink : startsWithLink xs = true) : Before false xs (front ++ plainly ['\\', '!'])

variable {bang : Bool} {xs ys : List Inline} {ls ms : List Letter}

namespace Before

/-- Nothing that follows is escaped. -/
theorem escapesNext (h : Before bang xs ls) : escapesNext (spell ls) = false := by
  cases h with
  | bang h =>
    rw [spell_append, Escape.escapesNext_append h]
    rfl
  | calm h => exact h
  | escaped h =>
    rw [spell_append, spell_plainly, Escape.escapesNext_append h]
    rfl

/-- Which of the three it is tells whether a link that follows becomes an image. -/
theorem endsBare_iff (h : Before bang xs ls) : EndsBare ls ↔ bang = true := by
  cases h with
  | bang h => exact iff_of_true ⟨_, rfl, h⟩ rfl
  | calm h hlast => exact iff_of_false (fun hbare => hlast hbare.getLast?) Bool.false_ne_true
  | @escaped xs front h =>
    refine iff_of_false ?_ Bool.false_ne_true
    rintro ⟨front', hfront, hescapes⟩
    have hsplit : front ++ [.plain '\\'] ++ [.plain '!'] = front' ++ [.plain '!'] := by
      rw [← hfront]
      simp [plainly]
    rw [← List.append_cancel_right hsplit, spell_append, Escape.escapesNext_append h] at hescapes
    exact absurd hescapes (by decide)

theorem of_endsQuiet (h : EndsQuiet ls) : Before false xs ls := .calm h.escapesNext h.not_bang

theorem nil : Before false xs [] :=
  .of_endsQuiet fun _ hc => absurd (List.mem_of_getLast? hc) List.not_mem_nil

theorem of_no_link (h : Before bang xs ls) (hlink : startsWithLink xs = false) :
    Before bang ys ls := by
  cases h with
  | bang h => exact .bang h
  | calm h hlast => exact .calm h hlast
  | escaped h hlink' => exact absurd (hlink.symm.trans hlink') Bool.false_ne_true

theorem hasBareLink_append (h : Before bang xs ls) (hhead : ms.head? ≠ some .opening) :
    HasBareLink (ls ++ ms) ↔ HasBareLink ls ∨ HasBareLink ms := by
  rw [Letter.hasBareLink_append h.escapesNext]
  simp [hhead]

/-- A link that is opened becomes an image if the exclamation mark before it is bare. -/
theorem hasBareLink_opening (h : Before bang xs ls) :
    HasBareLink (ls ++ [.opening]) ↔ HasBareLink ls ∨ bang = true := by
  rw [Letter.hasBareLink_append h.escapesNext, h.endsBare_iff]
  have hnone : ¬ HasBareLink [.opening] := by
    rintro ⟨front, back, hsplit, -⟩
    have hlength := congrArg List.length hsplit
    simp at hlength
    omega
  simp [hnone]

/-- An exclamation mark at the end is escaped where a link follows, and no other link changes. -/
theorem finalBang (h : Before bang [] ls) (hlink : startsWithLink xs = true) :
    Before false xs (finalBang ls) ∧ (HasBareLink (Letter.finalBang ls) ↔ HasBareLink ls) := by
  cases h with
  | @bang _ front h =>
    have hescaped : Letter.finalBang (front ++ [.plain '!']) = front ++ plainly ['\\', '!'] :=
      @finalBang_append front [.plain '!'] fun hnil => absurd hnil (List.cons_ne_nil _ _)
    rw [hescaped, hasBareLink_append_plain (opening_not_mem_plainly _),
      hasBareLink_append_plain (by simp)]
    exact ⟨.escaped h hlink, Iff.rfl⟩
  | calm h hlast =>
    rw [Letter.finalBang, if_neg hlast]
    exact ⟨.calm h hlast, Iff.rfl⟩
  | escaped h hlink' => exact absurd hlink' Bool.false_ne_true

end Before

end Letter

namespace Inline

/-! ## One inline after the other -/

/-- Something that is no link is written after what was written before and ends quietly. -/
theorem before_append {x : Inline} {xs : List Inline} {bang : Bool} {before ms : List Letter}
    (h : Before bang (x :: xs) before) (hlink : startsWithLink (x :: xs) = false)
    (hsilent : x.isSilent = true ↔ ms = []) (hquiet : EndsQuiet ms) :
    Before (bang && x.isSilent) xs (before ++ ms) := by
  by_cases hnil : ms = []
  · rw [hsilent.2 hnil, Bool.and_true, hnil, List.append_nil]
    exact h.of_no_link hlink
  · rw [Bool.eq_false_iff.2 fun hs => hnil (hsilent.1 hs), Bool.and_false]
    exact .of_endsQuiet (hquiet.append hnil before)

/-- A text ends in a bare exclamation mark if the text itself does, or if nothing is written after
one. -/
theorem before_text {value : String} {xs : List Inline} {bang : Bool} {before : List Letter}
    (h : Before bang (.text value :: xs) before) :
    Before ((text value).endsInBang || bang && (text value).isSilent) []
      (before ++ plainly (Escape.text value.toList)) := by
  rcases List.eq_nil_or_concat value.toList with hnil | ⟨front, c, hvalue⟩
  · have hempty : before ++ plainly (Escape.text value.toList) = before := by
      rw [hnil]
      exact List.append_nil before
    rw [hempty, endsInBang, isSilent, hnil]
    simpa using h.of_no_link rfl
  · have hsilent : (text value).isSilent = false := by simp [isSilent, hvalue]
    have hescapes : Escape.escapesNext (spell (before ++ plainly (Escape.text front))) = false := by
      rw [spell_append, spell_plainly, Escape.escapesNext_append h.escapesNext,
        Escape.escapesNext_text]
    by_cases hc : c = '!'
    · subst hc
      have hbang : (text value).endsInBang = true := by simp [endsInBang, hvalue]
      have hsplit : before ++ plainly (Escape.text value.toList) =
          before ++ plainly (Escape.text front) ++ [.plain '!'] := by
        rw [hvalue, List.concat_eq_append, Escape.text_append]
        simp [plainly, Escape.text, Escape.isSpecial]
      rw [hbang, hsplit]
      exact .bang hescapes
    · have hbang : (text value).endsInBang = false := by simp [endsInBang, hvalue, hc]
      have hlast : (Escape.text value.toList).getLast? = some c := by
        rw [Escape.getLast?_text, hvalue, List.concat_eq_append, List.getLast?_concat]
      rw [hbang, hsilent, Bool.and_false, Bool.or_false]
      refine .calm ?_ ?_
      · rw [spell_append, spell_plainly, Escape.escapesNext_append h.escapesNext,
          Escape.escapesNext_text]
      · rw [spell_append, spell_plainly, List.getLast?_append, hlast]
        simpa using hc

/-- The condition tells what writing an inline does: which links before it or in it become images,
and how all that is written ends. -/
def Foretold (slots : Slots) (x : Inline) (xs : List Inline) : Prop :=
  ∀ bang before, Before bang (x :: xs) before →
    let written := x.letters {} slots before
    let kept := if x.isText && startsWithLink xs then finalBang written else written
    Before (bangAfter bang x xs) xs kept ∧
      (HasBareLink kept ↔ HasBareLink before ∨
        (bang && (startsWithLink (x :: xs) || x.reachesBack) || x.baresLink) = true)

/-- It does for texts. -/
theorem foretold_text (slots : Slots) (value : String) (xs : List Inline) :
    Foretold slots (.text value) xs := by
  intro bang before h
  have hwritten : letters {} slots before (.text value) =
      before ++ plainly (Escape.text value.toList) := by
    rw [letters_leaf rfl, write, List.nil_append]
  have hlinks : HasBareLink (before ++ plainly (Escape.text value.toList)) ↔ HasBareLink before :=
    hasBareLink_append_plain (opening_not_mem_plainly _)
  have hends := before_text h
  have hnone : (bang && (startsWithLink (text value :: xs) || (text value).reachesBack) ||
      (text value).baresLink) = false := by simp [startsWithLink, reachesBack, baresLink]
  simp only [hwritten, bangAfter, hnone, Bool.false_eq_true, or_false, isText, Bool.true_and]
  by_cases hlink : startsWithLink xs = true
  · obtain ⟨hkept, hsame⟩ := hends.finalBang hlink
    rw [if_pos hlink, hlink]
    exact ⟨hkept, hsame.trans hlinks⟩
  · rw [if_neg hlink, Bool.eq_false_iff.2 hlink]
    exact ⟨hends.of_no_link rfl, hlinks⟩

/-- It does for the other leaves. -/
theorem foretold_piece (slots : Slots) {x : Inline} (hleaf : x.isLeaf = true) (h : x.IsPiece)
    (xs : List Inline) : Foretold slots x xs := by
  intro bang before hbefore
  obtain ⟨c, hlast, hc⟩ := h.last slots
  have hquiet : EndsQuiet (plainly (x.write {} slots [])) := by
    intro d hd
    rw [spell_plainly, hlast] at hd
    exact Option.some.inj hd ▸ hc
  have hne : plainly (x.write {} slots []) ≠ [] := by
    simpa [plainly] using h.write_ne_nil slots
  have hkept := before_append hbefore (h.noLink xs)
    (iff_of_false (h.speaks ▸ Bool.false_ne_true) hne) hquiet
  rw [h.speaks, Bool.and_false] at hkept
  simp only [letters_leaf hleaf, bangAfter, h.noText, h.speaks, h.noBang, h.noLink xs, h.noReach,
    h.keeps, Bool.false_and, Bool.and_false, Bool.or_false, Bool.false_eq_true, if_false, or_false]
  exact ⟨hkept, hasBareLink_append_plain (opening_not_mem_plainly _)⟩

/-- A mark that does not reach back to an exclamation mark is written after it. -/
theorem foretold_mark_of_append {slots : Slots} {x : Inline} {delimiter : List Char}
    {ys xs : List Inline} {bang : Bool} {before : List Letter}
    (hmark : x.mark? {} = some (delimiter, ys))
    (hys : HasBareLink (lettersAll {} slots [] ys) ↔ baresLinkAll false ys = true)
    (h : Before bang (x :: xs) before)
    (hwritten : lettersAll {} slots before ys = before ++ lettersAll {} slots [] ys) :
    Before (bang && x.isSilent) xs (x.letters {} slots before) ∧
      (HasBareLink (x.letters {} slots before) ↔
        HasBareLink before ∨ baresLinkAll false ys = true) := by
  obtain ⟨hdelimiter, hmarks⟩ := delimiter_of_mark hmark
  have henclose : x.letters {} slots before =
      before ++ Letter.enclose delimiter [] (lettersAll {} slots [] ys) := by
    rw [letters_mark hmark, hwritten, ← enclose_append, List.append_nil]
  have hsilent : x.isSilent = true ↔
      Letter.enclose delimiter [] (lettersAll {} slots [] ys) = [] := by
    rw [isSilent_mark hmark]
    constructor
    · intro hsilent
      rw [lettersAll_of_allSilent slots [] hsilent]
      rfl
    · exact fun hnil => allSilent_of_lettersAll_eq_nil (eq_nil_of_enclose hnil)
  rw [henclose]
  refine ⟨before_append h (startsWithLink_mark hmark xs) hsilent
    (endsQuiet_enclose hdelimiter hmarks _), ?_⟩
  rw [h.hasBareLink_append (head?_enclose hdelimiter _), hasBareLink_enclose hdelimiter hmarks, hys]

/-- A mark that reaches back to an exclamation mark makes an image of its link. -/
theorem foretold_mark_of_reachesBack (slots : Slots) {x : Inline} {delimiter : List Char}
    {ys : List Inline} {front : List Letter} (hmark : x.mark? {} = some (delimiter, ys))
    (hreach : reachesBackAll ys = true) :
    x.isSilent = false ∧ EndsQuiet (x.letters {} slots (front ++ [.plain '!'])) ∧
      HasBareLink (x.letters {} slots (front ++ [.plain '!'])) := by
  obtain ⟨hdelimiter, hmarks⟩ := delimiter_of_mark hmark
  obtain ⟨marks, hall, htorn⟩ := torn_lettersAll slots hreach
  have hwritten : x.letters {} slots (front ++ [.plain '!']) = front ++
      Letter.enclose delimiter [.plain '!'] (lettersAll {} slots [.plain '!'] ys) := by
    rw [letters_mark hmark, lettersAll_append {} slots (fun hnil => absurd hnil (by simp)),
      enclose_append]
  have htorn' : Torn (delimiter ++ marks)
      (Letter.enclose delimiter [.plain '!'] (lettersAll {} slots [.plain '!'] ys)) :=
    htorn.enclose hall
  rw [hwritten]
  refine ⟨?_, (htorn.endsQuiet_enclose hdelimiter hmarks).append htorn'.ne_nil front, ?_⟩
  · refine Bool.eq_false_iff.2 fun hsilent => ?_
    rw [isSilent_mark hmark] at hsilent
    obtain ⟨rest, hrest⟩ := htorn
    rw [lettersAll_of_allSilent slots _ hsilent] at hrest
    simp [plainly] at hrest
  · refine htorn'.hasBareLink (by simp [hdelimiter]) ?_ front
    rw [List.all_append, hmarks, hall]
    rfl

/-- It does for marks if it does for what they stand around. -/
theorem foretold_mark (slots : Slots) {x : Inline} {delimiter : List Char} {ys : List Inline}
    (hmark : x.mark? {} = some (delimiter, ys))
    (hys : HasBareLink (lettersAll {} slots [] ys) ↔ baresLinkAll false ys = true)
    (xs : List Inline) : Foretold slots x xs := by
  intro bang before h
  have hlink : startsWithLink (x :: xs) = false := startsWithLink_mark hmark xs
  simp only [bangAfter, isText_mark hmark, endsInBang_mark hmark, hlink, reachesBack_mark hmark,
    baresLink_mark hmark, Bool.false_and, Bool.false_or, Bool.false_eq_true, if_false,
    Bool.not_false, Bool.true_and]
  by_cases hreach : reachesBackAll ys = true
  · rw [hreach, Bool.and_true]
    cases h with
    | @bang _ front hescapes =>
      obtain ⟨hsilent, hquiet, hbare⟩ := foretold_mark_of_reachesBack slots hmark hreach
      rw [hsilent]
      exact ⟨.of_endsQuiet hquiet, iff_of_true hbare (.inr rfl)⟩
    | calm hescapes hlast =>
      refine foretold_mark_of_append hmark hys (.calm hescapes hlast) ?_
      have hwritten : lettersAll {} slots (before ++ []) ys = before ++ lettersAll {} slots [] ys :=
        lettersAll_append {} slots (fun _ => hlast) ys
      rwa [List.append_nil] at hwritten
    | escaped hescapes hlink' => exact absurd (hlink.symm.trans hlink') Bool.false_ne_true
  · rw [Bool.eq_false_iff.2 hreach, Bool.and_false, Bool.false_or]
    exact foretold_mark_of_append hmark hys h
      (lettersAll_of_not_reachesBack slots (Bool.eq_false_iff.2 hreach) before)

/-- It does for links if it does for what they stand around. -/
theorem foretold_link (slots : Slots) (target : Target) (title : Option String)
    (media : Option Media) {ys : List Inline}
    (hys : ∀ bang before, Before bang ys before → (HasBareLink (lettersAll {} slots before ys) ↔
      HasBareLink before ∨ baresLinkAll bang ys = true))
    (xs : List Inline) : Foretold slots (.link target title media ys) xs := by
  intro bang before h
  have hopened : Before false ys (before ++ [.opening]) :=
    .of_endsQuiet fun c hc => by
      obtain rfl : '[' = c := by simpa [spell, char] using hc
      decide
  have hwritten : letters {} slots before (.link target title media ys) =
      lettersAll {} slots (before ++ [.opening]) ys ++ plainly (([']', '('] ++
        Escape.target (urlOf slots target) ++ Escape.title title) ++ [')']) := rfl
  have hclosed : EndsQuiet (plainly (([']', '('] ++
      Escape.target (urlOf slots target) ++ Escape.title title) ++ [')'])) := by
    intro c hc
    obtain rfl : ')' = c := by simpa [List.getLast?_cons, List.getLast?_append] using hc
    decide
  simp only [bangAfter, isText, isSilent, endsInBang, startsWithLink, baresLink, Bool.false_and,
    Bool.false_eq_true, if_false, Bool.and_false, Bool.or_false, Bool.true_or, Bool.and_true]
  rw [hwritten]
  refine ⟨.of_endsQuiet (hclosed.append (by simp [plainly]) _), ?_⟩
  rw [hasBareLink_append_plain (opening_not_mem_plainly _), hys false _ hopened,
    h.hasBareLink_opening, or_assoc, Bool.or_eq_true]

/-! ## The condition -/

/-- After what stands before them, inlines make an image of a link exactly where the condition says
so. -/
theorem hasBareLink_lettersAll (slots : Slots) {xs : List Inline} {bang : Bool}
    {before : List Letter} (h : Before bang xs before) :
    HasBareLink (lettersAll {} slots before xs) ↔
      HasBareLink before ∨ baresLinkAll bang xs = true := by
  induction xs using walk_induction {} (fun x => ∀ xs, Foretold slots x xs)
    generalizing bang before with
  | nil => simp [lettersAll, baresLinkAll]
  | cons x xs hx hxs =>
    obtain ⟨hkept, hlinks⟩ := hx xs bang before h
    rw [lettersAll, hxs hkept, hlinks, or_assoc, ← Bool.or_eq_true, baresLinkAll]
  | leaf x hleaf xs =>
    rcases text_or_piece hleaf with ⟨value, rfl⟩ | hpiece
    · exact foretold_text slots value xs
    · exact foretold_piece slots hleaf hpiece xs
  | mark x delimiter ys hmark hys xs =>
    refine foretold_mark slots hmark ((hys .nil).trans ?_) xs
    exact or_iff_right (not_hasBareLink List.not_mem_nil)
  | link target title media ys hys xs =>
    exact foretold_link slots target title media (fun _ _ => hys) xs

/-- **A link becomes an image exactly where the condition says so:** where nothing is written
between an exclamation mark and the link, and no text stands directly before the link, or where the
text that does is the first to write nothing inside a mark. -/
theorem hasBareLink_iff (slots : Slots) (xs : List Inline) :
    spell (lettersAll {} slots [] xs) = markdown {} slots xs ∧
      (HasBareLink (lettersAll {} slots [] xs) ↔ baresLinkAll false xs = true) := by
  refine ⟨spell_lettersAll {} slots [] xs, ?_⟩
  rw [hasBareLink_lettersAll slots .nil]
  exact or_iff_right (not_hasBareLink List.not_mem_nil)

/-- Runs with an empty one in italics between an exclamation mark and a link. -/
def bangedRuns : List Run := [
  { text := "!" },
  { text := "", attributes := Attributes.ofList [("italic", "true")] },
  { text := "x", attributes := Attributes.ofList [("link", "u")] }]

/-- The empty run writes nothing, and its mark hides the link from the exclamation mark. -/
theorem bangedRuns_become_image :
    RichText.inlines bangedRuns =
      [.text "!", .emphasis [.text ""], .link (.known "u") none none [.text "x"]] ∧
    markdown {} {} (RichText.inlines bangedRuns) = "![x](u)".toList ∧
    HasBareLink (lettersAll {} {} [] (RichText.inlines bangedRuns)) := by
  have hinlines : RichText.inlines bangedRuns =
      [.text "!", .emphasis [.text ""], .link (.known "u") none none [.text "x"]] := by
    have hwritten : RichText.written bangedRuns = bangedRuns := rfl
    rw [RichText.inlines, hwritten, bangedRuns, RichText.inlinesFrom, RichText.inlinesFrom,
      RichText.inlinesFrom, RichText.inlinesFrom, Run.toInline_of_marks_nil rfl,
      Run.toInline_of_marks_singleton .emphasis rfl, Run.toInline_of_marks_singleton .link rfl]
    rfl
  rw [hinlines]
  refine ⟨rfl, by decide, [], [.plain 'x', .plain ']', .plain '(', .plain 'u', .plain ')'], ?_, rfl⟩
  decide

example : markdown {} {} [.text "!", .emphasis [.text "", .link (.known "u") none none []]] =
    "\\*![](u)*".toList := by decide

end Inline

end DocExport
