import DocExport.Markdown.Phrasing
import DocExport.Proofs.StyledText

/-!
# Writing letter by letter

In a text, the bracket that opens a link looks like every other bracket.  Here inlines are written
once more, as letters that remember which brackets open a link, and the letters spell what is
written.

* **Main results.** `Letter.surround_cut` (where the delimiters of a mark stand),
  `Inline.walk_induction` (the induction behind all that follows),
  `Inline.spell_lettersAll` (the letters spell what is written) and `Inline.lettersAll_append` (what
  no inline looks back at stays as it is).
-/

namespace DocExport

open Text

/-! ## Letters -/

/-- What is written, with the brackets told apart that open links. -/
inductive Letter where
  | plain (c : Char)
  /-- The bracket that opens a link. -/
  | opening
  deriving DecidableEq, Repr

namespace Letter

/-- The character that is written. -/
def char : Letter → Char
  | .plain c => c
  | .opening => '['

/-- The text that letters spell. -/
def spell (ls : List Letter) : List Char := ls.map char

/-- A text in which no bracket opens a link. -/
def plainly (cs : List Char) : List Letter := cs.map .plain

/-- Letters whose final exclamation mark, if they have one, is preceded by a backslash. -/
def finalBang (ls : List Letter) : List Letter :=
  if (spell ls).getLast? = some '!' then ls.dropLast ++ plainly ['\\', '!'] else ls

/-- What shows of some letters between two delimiters, cut where their text is cut. -/
def surround (delimiter : List Char) (inner : List Letter) : List Letter :=
  let lead := (leadingBlanks (spell inner)).length
  let shown := (trim (spell inner)).length
  inner.take lead ++ plainly delimiter ++ (inner.drop lead).take shown ++ plainly delimiter ++
    (inner.drop lead).drop shown

/-- What was written after `before` between two delimiters, if anything in it shows. -/
def enclose (delimiter : List Char) (before written : List Letter) : List Letter :=
  if allBlank (spell (written.drop before.length)) then written
  else written.take before.length ++ surround delimiter (written.drop before.length)

@[simp] theorem spell_append (as bs : List Letter) : spell (as ++ bs) = spell as ++ spell bs :=
  List.map_append

@[simp] theorem spell_plainly (cs : List Char) : spell (plainly cs) = cs := by
  simp [spell, plainly, Function.comp_def, char]

theorem opening_not_mem_plainly (cs : List Char) : opening ∉ plainly cs := by
  simp [plainly]

/-- Letters that show are cut into their leading blanks, their trimmed middle and their trailing
blanks, and the delimiters stand around the middle. -/
theorem surround_cut (delimiter : List Char) {inner : List Letter}
    (h : allBlank (spell inner) = false) :
    ∃ lead mid trail, inner = lead ++ mid ++ trail ∧ spell lead = leadingBlanks (spell inner) ∧
      spell mid = trim (spell inner) ∧ spell trail = trailingBlanks (spell inner) ∧
      surround delimiter inner =
        lead ++ plainly delimiter ++ mid ++ plainly delimiter ++ trail := by
  have hcut := trimmed_between_of_shows h
  obtain ⟨front, trail, hinner, hfront, htrail⟩ := List.map_eq_append_iff.1 hcut.symm
  obtain ⟨lead, mid, rfl, hlead, hmid⟩ := List.map_eq_append_iff.1 hfront
  have hleads : (leadingBlanks (spell inner)).length = lead.length := by
    rw [← hlead, List.length_map]
  have hshown : (trim (spell inner)).length = mid.length := by
    rw [← hmid, List.length_map]
  refine ⟨lead, mid, trail, hinner, hlead, hmid, htrail, ?_⟩
  unfold surround
  simp only [hleads, hshown]
  rw [hinner, List.append_assoc lead, List.take_left, List.drop_left, List.take_left,
    List.drop_left]

theorem enclose_of_blank (delimiter : List Char) {before written : List Letter}
    (h : allBlank (spell (written.drop before.length)) = true) :
    enclose delimiter before written = written := by
  rw [enclose, if_pos h]

theorem enclose_of_shows (delimiter : List Char) {before written : List Letter}
    (h : allBlank (spell (written.drop before.length)) = false) :
    enclose delimiter before written =
      written.take before.length ++ surround delimiter (written.drop before.length) := by
  rw [enclose, if_neg (Bool.eq_false_iff.1 h)]

/-- Delimiters drawn letter by letter are those drawn in the text. -/
theorem spell_enclose (delimiter : List Char) (before written : List Letter) :
    spell (enclose delimiter before written) =
      DocExport.enclose delimiter (spell before) (spell written) := by
  have hlength : (spell before).length = before.length := List.length_map _
  have hinner : (spell written).drop (spell before).length =
      spell (written.drop before.length) := by
    rw [hlength, spell, spell, List.map_drop]
  have hfront : (spell written).take (spell before).length =
      spell (written.take before.length) := by
    rw [hlength, spell, spell, List.map_take]
  cases h : allBlank (spell (written.drop before.length)) with
  | true => rw [enclose_of_blank _ h, DocExport.enclose_of_blank (by rw [hinner, h])]
  | false =>
    obtain ⟨lead, mid, trail, -, hlead, hmid, htrail, hsurround⟩ := surround_cut delimiter h
    rw [enclose_of_shows _ h, hsurround, DocExport.enclose, hinner, hfront, h,
      if_neg Bool.false_ne_true, ← hlead, ← hmid, ← htrail]
    simp

theorem spell_finalBang (ls : List Letter) :
    spell (finalBang ls) = Escape.finalBang (spell ls) := by
  unfold finalBang Escape.finalBang
  split
  · rw [spell_append, spell_plainly, spell, List.map_dropLast, ← spell]
  · rfl

/-- Drawing delimiters makes nothing shorter. -/
theorem length_le_enclose (delimiter : List Char) (before written : List Letter) :
    written.length ≤ (enclose delimiter before written).length := by
  cases h : allBlank (spell (written.drop before.length)) with
  | true => rw [enclose_of_blank _ h]
  | false =>
    obtain ⟨lead, mid, trail, hinner, -, -, -, hsurround⟩ := surround_cut delimiter h
    have hlength := congrArg List.length (List.take_append_drop before.length written)
    rw [hinner] at hlength
    rw [enclose_of_shows _ h, hsurround]
    simp only [List.length_append] at hlength ⊢
    omega

theorem eq_nil_of_enclose {delimiter : List Char} {before written : List Letter}
    (h : enclose delimiter before written = []) : written = [] := by
  have hlength := length_le_enclose delimiter before written
  rw [h] at hlength
  exact List.length_eq_zero_iff.1 (Nat.le_zero.1 hlength)

/-- A backslash goes before an exclamation mark that ends what was written last. -/
theorem finalBang_append {a ls : List Letter} (h : ls = [] → (spell a).getLast? ≠ some '!') :
    finalBang (a ++ ls) = a ++ finalBang ls := by
  by_cases hls : ls = []
  · subst hls
    rw [List.append_nil, finalBang, if_neg (h rfl), finalBang, if_neg (by simp [spell]),
      List.append_nil]
  · have hspell : spell ls ≠ [] := by simpa [spell] using hls
    unfold finalBang
    rw [spell_append, List.getLast?_append_of_ne_nil _ hspell, List.dropLast_append_of_ne_nil hls]
    split
    · rw [List.append_assoc]
    · rfl

theorem length_le_finalBang (ls : List Letter) : ls.length ≤ (finalBang ls).length := by
  unfold finalBang
  split
  · simp [plainly]
    omega
  · exact Nat.le_refl _

theorem eq_nil_of_finalBang {ls : List Letter} (h : finalBang ls = []) : ls = [] := by
  have hlength := length_le_finalBang ls
  rw [h] at hlength
  exact List.length_eq_zero_iff.1 (Nat.le_zero.1 hlength)

/-- What was written before and is not touched stays outside the delimiters. -/
theorem enclose_append (delimiter : List Char) (a before written : List Letter) :
    enclose delimiter (a ++ before) (a ++ written) = a ++ enclose delimiter before written := by
  have hinner : (a ++ written).drop (a ++ before).length = written.drop before.length := by
    rw [List.length_append, ← List.drop_drop, List.drop_left]
  have hfront : (a ++ written).take (a ++ before).length = a ++ written.take before.length := by
    rw [List.length_append, List.take_length_add_append]
  unfold enclose
  rw [hinner, hfront]
  split
  · rfl
  · rw [List.append_assoc]

end Letter

namespace Inline

/-- Whether an inline is written in one piece, without others inside. -/
def isLeaf : Inline → Bool
  | .text _ | .code _ | .math _ | .image .. => true
  | _ => false

/-- The delimiter of a mark, and what it stands around. -/
def mark? (style : Style) : Inline → Option (List Char × List Inline)
  | .emphasis xs => some ([style.emphasis], xs)
  | .strong xs => some (style.strong.toList, xs)
  | .delete xs => some (['~', '~'], xs)
  | _ => none

mutual

/-- What has been written once an inline follows what was written before, letter by letter. -/
def letters (style : Style) (slots : Slots) (before : List Letter) : Inline → List Letter
  | .emphasis xs => Letter.enclose [style.emphasis] before (lettersAll style slots before xs)
  | .strong xs => Letter.enclose style.strong.toList before (lettersAll style slots before xs)
  | .delete xs => Letter.enclose ['~', '~'] before (lettersAll style slots before xs)
  | .link target title _ xs =>
      lettersAll style slots (before ++ [.opening]) xs ++
        Letter.plainly
          ([']', '('] ++ Escape.target (urlOf slots target) ++ Escape.title title ++ [')'])
  | leaf => before ++ Letter.plainly (leaf.write style slots [])

/-- What has been written once a list of inlines follows what was written before, letter by
letter. -/
def lettersAll (style : Style) (slots : Slots) (before : List Letter) :
    List Inline → List Letter
  | [] => before
  | x :: xs =>
      let written := letters style slots before x
      lettersAll style slots
        (if x.isText && startsWithLink xs then Letter.finalBang written else written) xs

end

/-- What holds of lists of inlines, from what holds of the inlines: a leaf stands by itself, and a
mark and a link stand around a list. -/
theorem walk_induction (style : Style) (one : Inline → Prop) {motive : List Inline → Prop}
    (nil : motive []) (cons : ∀ x xs, one x → motive xs → motive (x :: xs))
    (leaf : ∀ x, x.isLeaf = true → one x)
    (mark : ∀ x delimiter ys, x.mark? style = some (delimiter, ys) → motive ys → one x)
    (link : ∀ target title media ys, motive ys → one (.link target title media ys))
    (xs : List Inline) : motive xs := by
  refine Inline.rec_1 (motive_1 := one) (motive_2 := motive) ?text ?code ?math ?emphasis ?strong
    ?delete ?link ?image nil ?cons xs
  case text | code | math | image =>
    intros
    exact leaf _ rfl
  case emphasis | strong | delete =>
    intro ys hys
    exact mark _ _ ys rfl hys
  case link => exact fun target title media ys => link target title media ys
  case cons => exact fun x xs => cons x xs

/-! ### One letter after the other -/

section

variable {style : Style} {slots : Slots} {x : Inline} {delimiter : List Char} {ys : List Inline}

theorem write_leaf (h : x.isLeaf = true) (before : List Char) :
    x.write style slots before = before ++ x.write style slots [] := by
  cases x with
  | text | code | math | image => simp [write]
  | emphasis | strong | delete | link => exact nomatch h

theorem letters_leaf (h : x.isLeaf = true) (before : List Letter) :
    x.letters style slots before = before ++ Letter.plainly (x.write style slots []) := by
  cases x with
  | text | code | math | image => rfl
  | emphasis | strong | delete | link => exact nomatch h

theorem write_mark (h : x.mark? style = some (delimiter, ys)) (before : List Char) :
    x.write style slots before = enclose delimiter before (writeAll style slots before ys) := by
  cases x <;> simp only [mark?, Option.some.injEq, Prod.mk.injEq, reduceCtorEq] at h <;>
    obtain ⟨rfl, rfl⟩ := h <;> rfl

theorem letters_mark (h : x.mark? style = some (delimiter, ys)) (before : List Letter) :
    x.letters style slots before =
      Letter.enclose delimiter before (lettersAll style slots before ys) := by
  cases x <;> simp only [mark?, Option.some.injEq, Prod.mk.injEq, reduceCtorEq] at h <;>
    obtain ⟨rfl, rfl⟩ := h <;> rfl

theorem lettersAll_singleton (style : Style) (slots : Slots) (before : List Letter) (x : Inline) :
    lettersAll style slots before [x] = x.letters style slots before := by
  simp [lettersAll, startsWithLink]

end

/-- Letter by letter, the same is written. -/
theorem spell_lettersAll (style : Style) (slots : Slots) (before : List Letter)
    (xs : List Inline) :
    Letter.spell (lettersAll style slots before xs) =
      writeAll style slots (Letter.spell before) xs := by
  induction xs using walk_induction style (fun x => ∀ before,
    Letter.spell (x.letters style slots before) = x.write style slots (Letter.spell before))
    generalizing before with
  | nil => rfl
  | cons x xs hx hxs =>
    rw [lettersAll, writeAll, hxs]
    split <;> simp [hx, Letter.spell_finalBang]
  | leaf x hleaf before =>
    rw [letters_leaf hleaf, write_leaf hleaf (Letter.spell before), Letter.spell_append,
      Letter.spell_plainly]
  | mark x delimiter ys hmark hys before =>
    rw [letters_mark hmark, write_mark hmark, Letter.spell_enclose, hys]
  | link target title media ys hys before =>
    rw [letters, write, Letter.spell_append, hys, Letter.spell_append, Letter.spell_plainly]
    simp [Letter.spell, Letter.char]

/-- Writing goes on from what was written before and makes it no shorter. -/
theorem length_le_lettersAll (style : Style) (slots : Slots) (before : List Letter)
    (xs : List Inline) : before.length ≤ (lettersAll style slots before xs).length := by
  induction xs using walk_induction style (fun x => ∀ before : List Letter,
    before.length ≤ (x.letters style slots before).length) generalizing before with
  | nil => exact Nat.le_refl _
  | cons x xs hx hxs =>
    rw [lettersAll]
    split
    · exact (hx before).trans ((Letter.length_le_finalBang _).trans (hxs _))
    · exact (hx before).trans (hxs _)
  | leaf x hleaf before =>
    rw [letters_leaf hleaf, List.length_append]
    exact Nat.le_add_right _ _
  | mark x delimiter ys hmark hys before =>
    rw [letters_mark hmark]
    exact (hys before).trans (Letter.length_le_enclose _ _ _)
  | link target title media ys hys before =>
    have hinside := hys (before ++ [.opening])
    rw [letters]
    simp only [List.length_append] at hinside ⊢
    omega

theorem eq_nil_of_lettersAll {style : Style} {slots : Slots} {before : List Letter}
    {xs : List Inline} (h : lettersAll style slots before xs = []) : before = [] := by
  have hlength := length_le_lettersAll style slots before xs
  rw [h] at hlength
  exact List.length_eq_zero_iff.1 (Nat.le_zero.1 hlength)

/-- Letters that nothing looks back at stay as they are: there are others after them, or they do not
end in an exclamation mark. -/
theorem lettersAll_append (style : Style) (slots : Slots) {a before : List Letter}
    (h : before = [] → (Letter.spell a).getLast? ≠ some '!') (xs : List Inline) :
    lettersAll style slots (a ++ before) xs = a ++ lettersAll style slots before xs := by
  induction xs using walk_induction style (fun x => ∀ before,
    (before = [] → (Letter.spell a).getLast? ≠ some '!') →
      x.letters style slots (a ++ before) = a ++ x.letters style slots before)
    generalizing before with
  | nil => rfl
  | cons x xs hx hxs =>
    have hwritten : x.letters style slots before = [] → before = [] := by
      rw [← lettersAll_singleton]
      exact eq_nil_of_lettersAll
    rw [lettersAll, lettersAll, hx before h]
    split
    · rw [Letter.finalBang_append fun hnil => h (hwritten hnil)]
      exact hxs fun hnil => h (hwritten (Letter.eq_nil_of_finalBang hnil))
    · exact hxs fun hnil => h (hwritten hnil)
  | leaf x hleaf before _ =>
    rw [letters_leaf hleaf, letters_leaf hleaf, List.append_assoc]
  | mark x delimiter ys hmark hys before h =>
    rw [letters_mark hmark, letters_mark hmark, hys h, Letter.enclose_append]
  | link target title media ys hys before _ =>
    rw [letters, letters, List.append_assoc, hys (by simp), List.append_assoc]

end Inline

end DocExport
