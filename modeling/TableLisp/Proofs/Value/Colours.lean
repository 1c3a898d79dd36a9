import TableLisp.Value.Printer

/-!
# Coloured text and plain text

A coloured text is the plain one with colour codes put around some atoms, so it fades to the plain
text when the codes are erased. `Fades` says this of a text whatever follows it, and is put together
along the value as the printer writes it. What is erased is every colour code, also one that was no
colour to begin with; hence the plain text may hold no escape character (`text_under_colours`).
-/

namespace TableLisp

/-! ## Colour codes -/

/-- The characters that the numbers of a colour code consist of. -/
def isCodeNumber (c : Char) : Bool :=
  c.isDigit || c == ';'

/-- An escape character and a bracket, some numbers, and the letter that ends them. -/
def IsColourCode (code : List Char) : Prop :=
  ∃ numbers, (∀ c ∈ numbers, isCodeNumber c = true) ∧ code = '\x1b' :: '[' :: (numbers ++ ['m'])

/-- What follows the colour code that a text begins with. -/
def behindCode? : List Char → Option (List Char)
  | '\x1b' :: '[' :: rest =>
    match rest.dropWhile isCodeNumber with
    | 'm' :: later => some later
    | _ => none
  | _ => none

theorem behindCode?_eq_some_iff {cs later : List Char} :
    behindCode? cs = some later ↔ ∃ code, IsColourCode code ∧ cs = code ++ later := by
  constructor
  · intro h
    unfold behindCode? at h
    split at h
    · next rest =>
        split at h
        · next later' hdrop =>
            cases h
            have hnumbers : ∀ c ∈ rest.takeWhile isCodeNumber, isCodeNumber c = true :=
              List.all_eq_true.mp List.all_takeWhile
            refine ⟨_, ⟨_, hnumbers, rfl⟩, ?_⟩
            have hsplit := List.takeWhile_append_dropWhile (p := isCodeNumber) (l := rest)
            rw [hdrop] at hsplit
            simpa using hsplit.symm
        · cases h
    · cases h
  · rintro ⟨_, ⟨numbers, hnumbers, rfl⟩, rfl⟩
    have hdrop : (numbers ++ 'm' :: later).dropWhile isCodeNumber = 'm' :: later :=
      List.dropWhile_append_of_pos hnumbers
    simp [behindCode?, hdrop]

theorem length_lt_of_behindCode? {cs later : List Char} (h : behindCode? cs = some later) :
    later.length < cs.length := by
  obtain ⟨_, ⟨numbers, -, rfl⟩, rfl⟩ := behindCode?_eq_some_iff.mp h
  simp only [List.length_append, List.length_cons, List.length_nil]
  omega

/-- Erases the colour codes of a text, from left to right; what is left is not searched again. -/
def eraseColours : List Char → List Char
  | [] => []
  | c :: rest =>
    match _ : behindCode? (c :: rest) with
    | some later => eraseColours later
    | none => c :: eraseColours rest
termination_by cs => cs.length
decreasing_by
  · exact length_lt_of_behindCode? ‹_›
  · exact Nat.lt_succ_self _

theorem eraseColours_code {code : List Char} (h : IsColourCode code) (rest : List Char) :
    eraseColours (code ++ rest) = eraseColours rest := by
  have hbehind : behindCode? (code ++ rest) = some rest :=
    behindCode?_eq_some_iff.mpr ⟨code, h, rfl⟩
  obtain ⟨numbers, -, rfl⟩ := h
  rw [List.cons_append, eraseColours]
  split
  · next later hlater =>
      obtain rfl : later = rest := Option.some.inj (hlater.symm.trans hbehind)
      rfl
  · next hnone => cases hnone.symm.trans hbehind

theorem eraseColours_plain {c : Char} (h : c ≠ '\x1b') (rest : List Char) :
    eraseColours (c :: rest) = c :: eraseColours rest := by
  have hbehind : behindCode? (c :: rest) = none := by
    rw [behindCode?]
    rintro later hcode
    exact h (List.cons.inj hcode).1
  rw [eraseColours]
  split
  · next later hlater => cases hlater.symm.trans hbehind
  · rfl

/-! ## Fading -/

/-- Whatever follows it, a shown text is a plain one once its colours are erased. -/
def Fades (shown plain : List Char) : Prop :=
  ∀ rest, eraseColours (shown ++ rest) = plain ++ eraseColours rest

namespace Fades

theorem eraseColours_eq {shown plain : List Char} (h : Fades shown plain) :
    eraseColours shown = plain := by
  have hend := h []
  rwa [eraseColours, List.append_nil, List.append_nil] at hend

theorem code {code : List Char} (h : IsColourCode code) : Fades code [] :=
  eraseColours_code h

theorem plain : ∀ {cs : List Char}, '\x1b' ∉ cs → Fades cs cs
  | [], _, _ => rfl
  | c :: cs, h, rest => by
      have hc : c ≠ '\x1b' := Ne.symm (List.ne_of_not_mem_cons h)
      rw [List.cons_append, eraseColours_plain hc, plain (List.not_mem_of_not_mem_cons h) rest,
        List.cons_append]

theorem append {shown plain shown' plain' : List Char} (h : Fades shown plain)
    (h' : Fades shown' plain') : Fades (shown ++ shown') (plain ++ plain') := by
  intro rest
  rw [List.append_assoc, h, h', List.append_assoc]

end Fades

/-! ## Painting -/

namespace Palette

theorem isColourCode_number (n : Nat) : IsColourCode ("\x1b[" ++ n.repr ++ "m").toList := by
  refine ⟨n.repr.toList, fun c hc => ?_, by simp⟩
  rw [Nat.toList_repr] at hc
  rw [isCodeNumber, Nat.isDigit_of_mem_toDigits (by decide) (by decide) hc, Bool.true_or]

theorem isColourCode_reset : IsColourCode "\x1b[0m".toList :=
  ⟨['0'], List.all_eq_true.mp (by decide), rfl⟩

/-- A painted atom fades to its text. -/
theorem fades_paint (palette : Palette) {atom : Value} (h : '\x1b' ∉ atom.atomText.toList) :
    Fades (palette.paint atom).toList atom.atomText.toList := by
  unfold paint
  split
  · next n _ =>
      have hcode := Fades.code (isColourCode_number n)
      have hreset := Fades.code isColourCode_reset
      simpa using (hcode.append (.plain h)).append hreset
  · exact .plain h

/-- With every kind switched off, an atom is shown as its text. -/
theorem paint_of_off {options : String → Option Bool}
    (h : ∀ name ∈ optionNames, options name = some false) :
    (ofOptions options).paint = Value.atomText := by
  have hoff : ofOptions options = ⟨false, false, false, false, false⟩ := by
    simp [optionNames] at h
    simp [ofOptions, h]
  funext atom
  rw [hoff]
  cases atom <;> simp [paint, colour?]

end Palette

namespace Value

/-- A text fades as its atoms do: a value on its own, and what is behind the first element of it. -/
theorem fades_textWith {paint : Value → String}
    (hpaint : ∀ {atom : Value}, '\x1b' ∉ atom.atomText.toList →
      Fades (paint atom).toList atom.atomText.toList) (v : Value) :
    ('\x1b' ∉ (v.textWith atomText).toList →
      Fades (v.textWith paint).toList (v.textWith atomText).toList) ∧
    ('\x1b' ∉ (v.tailWith atomText).toList →
      Fades (v.tailWith paint).toList (v.tailWith atomText).toList) := by
  have hopen : Fades "(".toList "(".toList := .plain (by decide)
  have hspace : Fades " ".toList " ".toList := .plain (by decide)
  have hdot : Fades " . ".toList " . ".toList := .plain (by decide)
  have hclose : Fades ")".toList ")".toList := .plain (by decide)
  induction v with
  | pair head tail ihhead ihtail =>
      simp only [textWith, tailWith, String.toList_append, List.mem_append, not_or]
      constructor
      · rintro ⟨⟨-, hhead⟩, htail⟩
        exact (hopen.append (ihhead.1 hhead)).append (ihtail.2 htail)
      · rintro ⟨⟨-, hhead⟩, htail⟩
        exact (hspace.append (ihhead.1 hhead)).append (ihtail.2 htail)
  | nil => exact ⟨hpaint, fun _ => hclose⟩
  | _ =>
      simp only [textWith, tailWith, String.toList_append, List.mem_append, not_or]
      refine ⟨hpaint, ?_⟩
      rintro ⟨⟨-, hatom⟩, -⟩
      exact (hdot.append (hpaint hatom)).append hclose

/-- **Coloured text and plain text.** Whatever kinds of atoms are shown in colour, a value whose
text holds no escape character has this text again once the colour codes are erased. With every kind
switched off, any value is shown as its text. -/
theorem text_under_colours (options : String → Option Bool) (v : Value) :
    let shown := v.coloured (.ofOptions options)
    ('\x1b' ∉ v.text.toList → eraseColours shown.toList = v.text.toList) ∧
    ((∀ name ∈ Palette.optionNames, options name = some false) → shown = v.text) := by
  constructor
  · intro hplain
    exact ((fades_textWith (Palette.fades_paint _) v).1 hplain).eraseColours_eq
  · intro hoff
    rw [coloured, Palette.paint_of_off hoff, text]

/-- A special form, a string with a semicolon and a number inside of two lists, one of them
improper: where strings are switched off and nothing else is said, the others are in colour. With
everything off even an escape character in a name stays. -/
theorem text_under_two_palettes :
    let options (name : String) : Option Bool := if name = "color_strings" then some false else none
    let v : Value := .pair (.ofList [.sym "if", .str "a;[m"]) (.pair (.int (-7)) (.sym "x"))
    let escaped : Value := .sym "\x1b[0m"
    v.coloured (.ofOptions options) =
      "((\x1b[90mif\x1b[0m \"a;[m\") \x1b[33m-7\x1b[0m . \x1b[94mx\x1b[0m)" ∧
    '\x1b' ∉ v.text.toList ∧
    eraseColours (v.coloured (.ofOptions options)).toList = v.text.toList ∧
    (∀ name ∈ Palette.optionNames, (fun _ => some false : String → Option Bool) name =
      some false) ∧
    escaped.coloured (.ofOptions fun _ => some false) = "\x1b[0m" := by
  intro options v escaped
  have hplain : '\x1b' ∉ v.text.toList := by decide +kernel
  have hoff : ∀ name ∈ Palette.optionNames,
      (fun _ => some false : String → Option Bool) name = some false := fun _ _ => rfl
  exact ⟨by decide +kernel, hplain, (text_under_colours options v).1 hplain, hoff,
    ((text_under_colours (fun _ => some false) escaped).2 hoff).trans (text_sym _)⟩

end Value

end TableLisp
