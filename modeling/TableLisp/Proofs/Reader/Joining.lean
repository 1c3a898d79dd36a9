import TableLisp.Proofs.Reader.RoundTrip

/-!
# Lexing texts joined by a line feed

A line feed ends every piece that a text may leave open at its end, except a string without its
closing quote. So lexing a text in front of a line feed goes as it does in front of nothing
(`lexFrom_joined`), and what follows the line feed is lexed as a text of its own, only further on
(`lexFrom_moved`). So the tokens of two texts are those of the one and then those of the other,
moved on, and a failure of the second is its failure moved on (`lex_joined`).
-/

namespace TableLisp

open Text

/-! ## Tokens at another place -/

/-- The token at another place. -/
def Token.move (place : Nat → Nat) (token : Token) : Token :=
  { token with offset := place token.offset }

/-- The error in another source, at another place. -/
def ReadError.move (place : Nat → Nat) (source : List Char) : ReadError → ReadError
  | .parse e => .parse (.locate source e.fault (place e.offset))
  | .numeralTooLong => .numeralTooLong

/-! ## Lexing two texts -/

theorem takeWhile_stop {p : Char → Bool} {c : Char} (hc : p c = false) (cs rest : List Char) :
    (cs ++ c :: rest).takeWhile p = cs.takeWhile p := by
  induction cs with
  | nil => simp [hc]
  | cons d cs ih => by_cases hd : p d <;> simp [hd, ih]

theorem dropWhile_stop {p : Char → Bool} {c : Char} (hc : p c = false) (cs rest : List Char) :
    (cs ++ c :: rest).dropWhile p = cs.dropWhile p ++ c :: rest := by
  induction cs with
  | nil => simp [hc]
  | cons d cs ih => by_cases hd : p d <;> simp [hd, ih]

namespace Piece

/-- A piece in front of a line feed ends there at the latest, unless it is a string left open. -/
theorem cut_joined {c : Char} {cs : List Char} (h : (cut c cs).shape ≠ .unclosed)
    (rest : List Char) :
    cut c (cs ++ '\n' :: rest) = { cut c cs with rest := (cut c cs).rest ++ '\n' :: rest } := by
  revert h
  fun_cases cut c cs with
  | case1 hblank => simp [cut, hblank]
  | case2 hblank hsemi =>
      have htake := takeWhile_stop (p := (· != '\n')) (c := '\n') rfl cs rest
      have hdrop := dropWhile_stop (p := (· != '\n')) (c := '\n') rfl cs rest
      simp [cut, isBlank, hsemi, htake, hdrop]
  | case3 hblank hsemi hq => simp [cut, isBlank, hq]
  | case4 hblank hsemi hq hl => simp [cut, isBlank, hl]
  | case5 hblank hsemi hq hl hr => simp [cut, isBlank, hr]
  | case6 => exact fun h => absurd rfl h
  | case7 hblank hsemi hq hl hr hs close rest' hdrop =>
      have hlater : (cs ++ '\n' :: rest).dropWhile (· != '"') =
          close :: (rest' ++ '\n' :: rest) := by
        simp [List.dropWhile_append, hdrop]
      have hsame : (cs ++ '\n' :: rest).takeWhile (· != '"') = cs.takeWhile (· != '"') := by
        have hlength := congrArg List.length
          (List.takeWhile_append_dropWhile (p := (· != '"')) (l := cs))
        rw [List.takeWhile_append, if_neg]
        intro hall
        simp [hdrop, hall] at hlength
      simp [cut, isBlank, hs, hlater, hsame]
  | case8 hblank hsemi hq hl hr hs hc =>
      have hline : isAtomChar '\n' = false := rfl
      simp [cut, hblank, hsemi, hq, hl, hr, hs, hc, takeWhile_stop hline, dropWhile_stop hline]
  | case9 hblank hsemi hq hl hr hs hc =>
      exact absurd (isAtomChar_of_other hblank hsemi hq hl hr hs) hc

/-- The kind of a piece does not depend on where the piece is found. -/
theorem kind?_elsewhere {source : List Char} {offset : Nat} {piece : Piece}
    {kind : Option Token.Kind} (h : piece.kind? source offset = .ok kind) (source' : List Char)
    (offset' : Nat) : piece.kind? source' offset' = .ok kind := by
  revert h
  unfold kind? atomKind
  repeat' split
  all_goals simp_all [Except.map]

/-- A piece that is no token is none elsewhere, for the same reason. -/
theorem kind?_move {source : List Char} {offset : Nat} {piece : Piece} {e : ReadError}
    (h : piece.kind? source offset = .error e) (place : Nat → Nat) (source' : List Char) :
    piece.kind? source' (place offset) = .error (e.move place source') := by
  revert h
  unfold kind? atomKind
  repeat' split
  all_goals rintro ⟨⟩
  all_goals simp_all [Except.map, ReadError.move, ParseError.locate]

end Piece

theorem shape_ne_unclosed {source : List Char} {offset : Nat} {piece : Piece}
    {kind : Option Token.Kind} (h : piece.kind? source offset = .ok kind) :
    piece.shape ≠ .unclosed := by
  intro hshape
  simp [Piece.kind?, hshape] at h

/-- The token that a piece is, if it is one. -/
def Piece.token? (piece : Piece) (kind : Option Token.Kind) (offset : Nat) : Option Token :=
  kind.map fun kind => ⟨kind, .ofList piece.text, offset⟩

/-- One piece is lexed, wherever it is found. -/
theorem lexFrom_piece {source : List Char} {offset : Nat} {c : Char} {cs : List Char}
    {kind : Option Token.Kind} (h : (Piece.cut c cs).kind? source offset = .ok kind)
    (source' : List Char) (offset' : Nat) (done : List Token) :
    lexFrom source' offset' done (c :: cs) =
      lexFrom source' (offset' + (Piece.cut c cs).text.length)
        (((Piece.cut c cs).token? kind offset').toList ++ done) (Piece.cut c cs).rest := by
  rw [lexFrom_cons, Piece.kind?_elsewhere h]
  cases kind <;> rfl

/-- One piece is lexed in front of a line feed as in front of nothing. -/
theorem lexFrom_piece_joined {source : List Char} {offset : Nat} {c : Char} {cs : List Char}
    {kind : Option Token.Kind} (h : (Piece.cut c cs).kind? source offset = .ok kind)
    (source' : List Char) (done : List Token) (rest : List Char) :
    lexFrom source' offset done (c :: cs ++ '\n' :: rest) =
      lexFrom source' (offset + (Piece.cut c cs).text.length)
        (((Piece.cut c cs).token? kind offset).toList ++ done)
        ((Piece.cut c cs).rest ++ '\n' :: rest) := by
  have hcut := Piece.cut_joined (shape_ne_unclosed h) rest
  have hkind : (Piece.cut c (cs ++ '\n' :: rest)).kind? source offset = .ok kind := by
    rw [hcut]
    exact h
  rw [List.cons_append, lexFrom_piece hkind, hcut]
  rfl

/-- What is lexed in front of a line feed is lexed as if nothing followed. -/
theorem lexFrom_joined {source : List Char} {offset : Nat} {done : List Token} {cs : List Char}
    (h : (lexFrom source offset done cs).failure = none) (source' rest : List Char) :
    lexFrom source' offset done (cs ++ '\n' :: rest) =
      lexFrom source' (offset + cs.length + 1) (lexFrom source offset done cs).tokens.reverse
        rest := by
  have hplace (c : Char) (cs : List Char) (offset : Nat) :
      offset + (Piece.cut c cs).text.length + (Piece.cut c cs).rest.length + 1 =
        offset + (c :: cs).length + 1 := by
    rw [← Piece.cut_append c cs, List.length_append]
    omega
  fun_induction lexFrom source offset done cs with
  | case1 offset done =>
      rw [List.nil_append, lexFrom_cons, List.reverse_reverse]
      rfl
  | case2 => cases h
  | case3 offset done c cs piece next hkind ih =>
      rw [lexFrom_piece_joined hkind, ← hplace c cs]
      exact ih h
  | case4 offset done c cs piece next kind hkind ih =>
      rw [lexFrom_piece_joined hkind, ← hplace c cs]
      exact ih h

/-- A text is lexed further on, behind other tokens, into the same tokens further on. -/
theorem lexFrom_moved (source : List Char) (offset : Nat) (done : List Token) (cs : List Char)
    (source' : List Char) (k : Nat) (earlier : List Token) :
    let here := lexFrom source offset done cs
    let there := lexFrom source' (offset + k) (done.map (Token.move (· + k)) ++ earlier) cs
    there.tokens = earlier.reverse ++ here.tokens.map (Token.move (· + k)) ∧
      there.failure = here.failure.map (ReadError.move (· + k) source') := by
  fun_induction lexFrom source offset done cs with
  | case1 offset done => simp [lexFrom_nil]
  | case2 offset done c cs piece e hkind =>
      rw [lexFrom_cons, Piece.kind?_move hkind (· + k) source']
      simp
  | case3 offset done c cs piece next hkind ih =>
      rw [lexFrom_piece hkind]
      have hplace : offset + k + piece.text.length = next + k := by omega
      rw [hplace]
      exact ih
  | case4 offset done c cs piece next kind hkind ih =>
      rw [lexFrom_piece hkind]
      have hplace : offset + k + piece.text.length = next + k := by omega
      rw [hplace]
      exact ih

/-- Two texts are lexed as the first one and then the second one further on. -/
theorem lex_joined {first : List Char} (h : (lex first).failure = none) (second : List Char) :
    (lex (first ++ '\n' :: second)).tokens =
        (lex first).tokens ++ (lex second).tokens.map (Token.move (· + (first.length + 1))) ∧
      (lex (first ++ '\n' :: second)).failure = (lex second).failure.map
        (ReadError.move (· + (first.length + 1)) (first ++ '\n' :: second)) := by
  have hmoved := lexFrom_moved second 0 [] second (first ++ '\n' :: second) (first.length + 1)
    (lex first).tokens.reverse
  simp only [List.map_nil, List.nil_append, List.reverse_reverse, Nat.zero_add] at hmoved
  rw [lex, lexFrom_joined h, Nat.zero_add]
  exact hmoved

end TableLisp
