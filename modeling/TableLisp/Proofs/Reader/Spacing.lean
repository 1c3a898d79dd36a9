import TableLisp.Proofs.Reader.Moving

/-!
# Sources spaced anew

Between tokens a source may hold blanks and comments, and nothing there matters but that it is not
empty. A token of a source is lexed as the same token wherever its text stands, as long as an atom
would end behind it (`Token.Relexes`, `lex_relexes`), and a gap is lexed as no token and ends
every atom (`IsGap`). So the tokens of a source, written with other gaps between them, are lexed as
the same tokens at the offsets at which they were written (`lex_writeTokens`). Since the reader only
carries offsets along, both sources are then read as the same forms, or refused for the same reason
at the same token (`respaced_source`).
-/

namespace TableLisp

open Text

/-! ## Gaps -/

/-- What may stand between tokens: blanks and comments, each comment up to and with its line
feed. -/
inductive IsGap : List Char → Prop
  | nil : IsGap []
  | blank {c : Char} {gap : List Char} (hc : isBlank c = true) (h : IsGap gap) : IsGap (c :: gap)
  | comment {text gap : List Char} (htext : '\n' ∉ text) (h : IsGap gap) :
      IsGap (';' :: (text ++ '\n' :: gap))

theorem Piece.cut_comment {text : List Char} (htext : '\n' ∉ text) (rest : List Char) :
    cut ';' (text ++ '\n' :: rest) = ⟨.comment, ';' :: text, '\n' :: rest⟩ := by
  have hne : ∀ c ∈ text, (c != '\n') = true := by
    intro c hc
    rw [bne_iff_ne]
    rintro rfl
    exact htext hc
  have htake : (text ++ '\n' :: rest).takeWhile (· != '\n') = text := by
    rw [List.takeWhile_append_of_pos hne]
    simp
  have hdrop : (text ++ '\n' :: rest).dropWhile (· != '\n') = '\n' :: rest := by
    rw [List.dropWhile_append_of_pos hne]
    rfl
  simp [cut, isBlank, htake, hdrop]

theorem Lexes.comment (offset : Nat) {text : List Char} (htext : '\n' ∉ text)
    (rest : List Char) : Lexes offset (';' :: text) ('\n' :: rest) [] := by
  intro source done
  rw [List.cons_append, lexFrom_cons, Piece.cut_comment htext]
  rfl

namespace IsGap

/-- A gap holds no token. -/
theorem lexes {gap : List Char} (h : IsGap gap) (offset : Nat) (rest : List Char) :
    Lexes offset gap rest [] := by
  induction h generalizing offset with
  | nil => exact .nil offset rest
  | blank hc _ ih => exact (Lexes.blank offset hc _).append (ih _)
  | @comment text gap htext _ ih =>
      have hbreak : isBlank '\n' = true := rfl
      have hlexes := (Lexes.comment offset htext (gap ++ rest)).append
        ((Lexes.blank _ hbreak (gap ++ rest)).append (ih _))
      exact hlexes

/-- In front of a gap every atom ends. -/
theorem endsAtom {gap : List Char} (h : IsGap gap) (hne : gap ≠ []) (rest : List Char) :
    EndsAtom (gap ++ rest) := by
  cases h with
  | nil => exact absurd rfl hne
  | blank hc _ => exact endsAtom_cons (isAtomChar_of_isBlank hc) _
  | comment => exact endsAtom_cons rfl _

theorem of_blank : ∀ {cs : List Char}, cs.all isBlank = true → IsGap cs
  | [], _ => .nil
  | c :: rest, h => by
      rw [List.all_cons, Bool.and_eq_true] at h
      exact .blank h.1 (of_blank h.2)

theorem parse_eq_nil {gap : List Char} (h : IsGap gap) (limit : Int) :
    parse limit gap = .ok [] := by
  have hlex : lex gap = ⟨[], none⟩ := by
    have hlexes := h.lexes 0 [] gap []
    rwa [List.append_nil, lexFrom_nil] at hlexes
  rw [parse_eq_settle, hlex, Datum.readAll]
  rfl

end IsGap

/-! ## Tokens by themselves -/

/-- The text of a token is that token again, wherever it stands in front of the end of an atom. -/
def Token.Relexes (token : Token) : Prop :=
  ∀ (offset : Nat) (rest : List Char), EndsAtom rest →
    Lexes offset token.text.toList rest [{ token with offset }]

theorem atomKind_elsewhere {source text : List Char} {offset : Nat} {kind : Token.Kind}
    (h : atomKind source text offset = .ok kind) (source' : List Char) (offset' : Nat) :
    atomKind source' text offset' = .ok kind := by
  have hpiece : (Piece.mk .atom text []).kind? source offset = .ok (some kind) := by
    rw [Piece.kind?, h]
    rfl
  have hthere := Piece.kind?_elsewhere hpiece source' offset'
  rw [Piece.kind?] at hthere
  cases hkind : atomKind source' text offset' with
  | error e => simp [hkind, Except.map] at hthere
  | ok kind' =>
      rw [hkind] at hthere
      exact congrArg Except.ok (Option.some.inj (Except.ok.inj hthere))

theorem Piece.relexes {source : List Char} {offset offset' : Nat} {c : Char} {rest : List Char}
    {kind : Token.Kind} (h : (cut c rest).kind? source offset = .ok (some kind)) :
    Token.Relexes ⟨kind, .ofList (cut c rest).text, offset'⟩ := by
  intro place after hafter
  rw [String.toList_ofList]
  revert h
  fun_cases cut c rest with
  | case1 => rintro ⟨⟩
  | case2 => rintro ⟨⟩
  | case3 hblank hsemi hq =>
      rintro ⟨⟩
      subst hq
      exact .quote place after
  | case4 hblank hsemi hq hl =>
      rintro ⟨⟩
      subst hl
      exact .lparen place after
  | case5 hblank hsemi hq hl hr =>
      rintro ⟨⟩
      subst hr
      exact .rparen place after
  | case6 => rintro ⟨⟩
  | case7 hblank hsemi hq hl hr hs close rest' hdrop =>
      rintro ⟨⟩
      have hclose : close = '"' := eq_of_dropWhile_ne hdrop
      have hcontent : '"' ∉ rest.takeWhile (· != '"') := not_mem_takeWhile_ne '"' rest
      obtain rfl := hs
      obtain rfl := hclose
      exact .string place hcontent after
  | case8 hblank hsemi hq hl hr hs hc =>
      intro h
      cases hkind : atomKind source (c :: rest.takeWhile isAtomChar) offset with
      | error e => simp [kind?, hkind, Except.map] at h
      | ok kind' =>
          obtain rfl : kind' = kind := by simpa [kind?, hkind, Except.map] using h
          exact .atom (List.cons_ne_nil _ _) (forall_isAtomChar hc rest) hafter fun source' =>
            atomKind_elsewhere hkind source' place
  | case9 => rintro ⟨⟩

theorem lex_relexes (source : List Char) : ∀ token ∈ (lex source).tokens, token.Relexes :=
  lex_forall Piece.relexes

/-! ## Tokens with gaps between them -/

/-- The text of some tokens, each with the gap behind it. -/
def writeTokens : List (Token × List Char) → List Char
  | [] => []
  | (token, gap) :: rest => token.text.toList ++ (gap ++ writeTokens rest)

/-- The same tokens at the offsets at which they are written. -/
def placeTokens (offset : Nat) : List (Token × List Char) → List Token
  | [] => []
  | (token, gap) :: rest =>
    { token with offset } :: placeTokens (offset + token.text.toList.length + gap.length) rest

/-- Tokens with gaps between them are lexed as these tokens. The gap at the end may be empty. -/
theorem lexes_writeTokens : ∀ {parts : List (Token × List Char)},
    (∀ part ∈ parts, part.1.Relexes) → (∀ part ∈ parts, IsGap part.2) →
      (∀ part ∈ parts.dropLast, part.2 ≠ []) → ∀ offset : Nat,
      Lexes offset (writeTokens parts) [] (placeTokens offset parts)
  | [], _, _, _, offset => .nil offset []
  | (token, gap) :: rest, htokens, hgaps, hapart, offset => by
      obtain ⟨htoken, htokens⟩ := List.forall_mem_cons.mp htokens
      obtain ⟨hgap, hgaps⟩ := List.forall_mem_cons.mp hgaps
      have hends : EndsAtom (gap ++ writeTokens rest ++ []) := by
        rw [List.append_nil]
        cases rest with
        | nil =>
            rw [writeTokens, List.append_nil]
            by_cases hempty : gap = []
            · rw [hempty]
              exact endsAtom_nil
            · rw [← List.append_nil gap]
              exact hgap.endsAtom hempty []
        | cons next rest =>
            exact hgap.endsAtom (hapart (token, gap) List.mem_cons_self) _
      have hapart' : ∀ part ∈ rest.dropLast, part.2 ≠ [] := by
        cases rest with
        | nil => exact List.forall_mem_nil _
        | cons next rest => exact (List.forall_mem_cons.mp hapart).2
      have hrest := lexes_writeTokens htokens hgaps hapart'
        (offset + token.text.toList.length + gap.length)
      exact (htoken offset _ hends).append ((hgap.lexes _ _).append hrest)

theorem lex_writeTokens {source lead : List Char} {parts : List (Token × List Char)}
    (hparts : parts.map Prod.fst = (lex source).tokens) (hlead : IsGap lead)
    (hgaps : ∀ part ∈ parts, IsGap part.2) (hapart : ∀ part ∈ parts.dropLast, part.2 ≠ []) :
    lex (lead ++ writeTokens parts) = ⟨placeTokens lead.length parts, none⟩ := by
  have htokens : ∀ part ∈ parts, part.1.Relexes := fun part hpart =>
    lex_relexes source part.1 (hparts ▸ List.mem_map_of_mem hpart)
  have hlexes := (hlead.lexes 0 _).append (lexes_writeTokens htokens hgaps hapart (0 + lead.length))
  have hwhole := hlexes (lead ++ writeTokens parts) []
  rw [List.append_nil, List.append_nil, lexFrom_nil] at hwhole
  simpa [lex] using hwhole

/-! ## Reading both sources -/

/-- What two sources with the same tokens at different offsets are read as: the same forms, or a
refusal for the same reason, which is at the same token or at the end of both. -/
inductive SameReading (source source' : List Char) (tokens tokens' : List Token) :
    Except ReadError (List Form) → Except ReadError (List Form) → Prop
  | forms (forms : List Form) : SameReading source source' tokens tokens' (.ok forms) (.ok forms)
  | atToken (fault : Fault) {i : Nat} {token token' : Token} (h : tokens[i]? = some token)
      (h' : tokens'[i]? = some token') :
      SameReading source source' tokens tokens'
        (.error (.parse (.locate source fault token.offset)))
        (.error (.parse (.locate source' fault token'.offset)))
  | atEnd (fault : Fault) :
      SameReading source source' tokens tokens'
        (.error (.parse (.locate source fault source.length)))
        (.error (.parse (.locate source' fault source'.length)))

/-- Tokens with their numbers in the place of their offsets. -/
def numberTokens (tokens : List Token) : List Token :=
  tokens.mapIdx fun i token => { token with offset := i }

/-- The offset of the token with a number. -/
def offsetOf (tokens : List Token) (i : Nat) : Nat :=
  (tokens[i]?.map Token.offset).getD 0

theorem move_numberTokens (tokens : List Token) :
    (numberTokens tokens).map (Token.move (offsetOf tokens)) = tokens := by
  refine List.ext_getElem? fun i => ?_
  rw [numberTokens, List.getElem?_map, List.getElem?_mapIdx]
  cases h : tokens[i]? with
  | none => rfl
  | some token => simp [Token.move, offsetOf, h]

theorem mapIdx_placeTokens : ∀ (parts : List (Token × List Char)) (offset : Nat)
    {f : Nat → Token → Token}, (∀ i token place, f i { token with offset := place } = f i token) →
      (placeTokens offset parts).mapIdx f = (parts.map Prod.fst).mapIdx f
  | [], _, _, _ => rfl
  | (token, gap) :: rest, offset, f, hf => by
      rw [placeTokens, List.map_cons, List.mapIdx_cons, List.mapIdx_cons, hf,
        mapIdx_placeTokens rest _ fun i => hf (i + 1)]

/-- The numbers do not depend on where the tokens are written. -/
theorem numberTokens_placeTokens (parts : List (Token × List Char)) (offset : Nat) :
    numberTokens (placeTokens offset parts) = numberTokens (parts.map Prod.fst) :=
  mapIdx_placeTokens parts offset fun _ _ _ => rfl

theorem sameReading {source source' : List Char} (h : (lex source).failure = none)
    (h' : (lex source').failure = none)
    (hsame : numberTokens (lex source').tokens = numberTokens (lex source).tokens) (limit : Int) :
    SameReading source source' (lex source).tokens (lex source').tokens (parse limit source)
      (parse limit source') := by
  have hread := Datum.readAll_move (offsetOf (lex source).tokens) limit
    (numberTokens (lex source).tokens)
  have hread' := Datum.readAll_move (offsetOf (lex source').tokens) limit
    (numberTokens (lex source').tokens)
  rw [move_numberTokens] at hread hread'
  rw [parse_eq_readAll h, parse_eq_readAll h', hread, hread', hsame]
  cases hnumbered : Datum.readAll limit (numberTokens (lex source).tokens) with
  | ok forms => exact .forms forms
  | error refusal =>
      obtain ⟨fault, offset, atEnd⟩ := refusal
      cases offset with
      | none => exact .atEnd fault
      | some i =>
          obtain ⟨token, htoken, hi⟩ := Datum.offset_of_refusal hnumbered rfl
          obtain ⟨k, hk, hnumber⟩ := List.mem_mapIdx.mp htoken
          obtain rfl : k = i := by rw [← hi, ← hnumber]
          have hlength : (lex source').tokens.length = (lex source).tokens.length := by
            simpa [numberTokens] using congrArg List.length hsame
          have hk' : k < (lex source').tokens.length := hlength ▸ hk
          have hhere := List.getElem?_eq_getElem hk
          have hthere := List.getElem?_eq_getElem hk'
          have hresult : SameReading source source' _ _ _ _ := .atToken fault hhere hthere
          show SameReading source source' _ _ (.error _) (.error _)
          simpa [Datum.Refusal.move, Datum.Refusal.error, offsetOf, hhere, hthere] using hresult

/-- **Spacing.** A source is lexed without a failure, and its tokens are written with other gaps
between them: blanks and comments, in front of the first token and behind the last one perhaps
nothing. The new source is lexed as the same tokens at the offsets at which they are written, and at
every limit it is read as the same forms, or refused for the same reason at the same token. -/
theorem respaced_source {source lead : List Char} {parts : List (Token × List Char)}
    (haccepted : (lex source).failure = none)
    (hparts : parts.map Prod.fst = (lex source).tokens) (hlead : IsGap lead)
    (hgaps : ∀ part ∈ parts, IsGap part.2) (hapart : ∀ part ∈ parts.dropLast, part.2 ≠ []) :
    let respaced := lead ++ writeTokens parts
    let tokens := placeTokens lead.length parts
    lex respaced = ⟨tokens, none⟩ ∧
      ∀ limit, SameReading source respaced (lex source).tokens tokens (parse limit source)
        (parse limit respaced) := by
  intro respaced tokens
  have hlex : lex respaced = ⟨tokens, none⟩ := lex_writeTokens hparts hlead hgaps hapart
  refine ⟨hlex, fun limit => ?_⟩
  have hnumbers : numberTokens (lex respaced).tokens = numberTokens (lex source).tokens := by
    rw [hlex, ← hparts]
    exact numberTokens_placeTokens parts lead.length
  have hsame := sameReading haccepted (congrArg Lexed.failure hlex) hnumbers limit
  rwa [hlex] at hsame

/-- A comment in front, a line feed for a blank, and a comment and a tab where nothing was. -/
theorem respaced_call :
    let source := "(a \"b;\"'c".toList
    let parts : List (Token × List Char) :=
      [(⟨.lparen, "(", 0⟩, ['\n']), (⟨.symbol, "a", 1⟩, ";x\n".toList),
        (⟨.string, "\"b;\"", 3⟩, ['\t']), (⟨.quote, "'", 7⟩, [' ']), (⟨.symbol, "c", 8⟩, [])]
    let respaced := ";;\n".toList ++ writeTokens parts
    let tokens := placeTokens 3 parts
    lex respaced = ⟨tokens, none⟩ ∧
      ∀ limit, SameReading source respaced (lex source).tokens tokens (parse limit source)
        (parse limit respaced) := by
  intro source parts respaced tokens
  have hlead : IsGap ";;\n".toList := @IsGap.comment [';'] [] (by decide) .nil
  have hcomment : IsGap ";x\n".toList := @IsGap.comment ['x'] [] (by decide) .nil
  have hone {c : Char} (hc : isBlank c = true) : IsGap [c] := .blank hc .nil
  have hgaps : ∀ part ∈ parts, IsGap part.2 := by
    simpa [parts] using ⟨hone rfl, hcomment, hone rfl, hone rfl, IsGap.nil⟩
  exact respaced_source (by decide +kernel) (by decide +kernel) hlead hgaps (by decide)

end TableLisp
