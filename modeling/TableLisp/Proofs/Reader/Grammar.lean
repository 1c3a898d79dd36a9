import TableLisp.Reader.Datum

/-!
# The grammar of data

    datum ::= number | symbol | string | quote datum
            | ( datum* ) | ( datum+ . datum ) | ( . datum )

`IsDatum ts form n` says that the tokens `ts` are one datum, that it stands for `form`, and that it
nests `n` levels deep; `IsData` says the same of a concatenation of data. Every pair of parentheses
and every quote mark is a level, also the parentheses around a lone tail, which leave no trace in
the form: the nesting belongs to the tokens.

The grammar knows neither a stack nor a limit. That the reader accepts exactly its data is in
`TableLisp.Proofs.Reader.Parsing`.
-/

namespace TableLisp

mutual

/-- The tokens of one datum, with its form and its nesting. -/
inductive IsDatum : List Token → Form → Nat → Prop
  | number {t : Token} (ht : t.kind = .number) : IsDatum [t] (.const (.int t.integer)) 0
  | symbol {t : Token} (ht : t.kind = .symbol) : IsDatum [t] (.sym t.text) 0
  | string {t : Token} (ht : t.kind = .string) : IsDatum [t] (.const (.str t.content)) 0
  | quote {q : Token} {ts : List Token} {form : Form} {n : Nat} (hq : q.kind = .quote)
      (h : IsDatum ts form n) : IsDatum (q :: ts) (.quoted form) (n + 1)
  | empty {l r : Token} (hl : l.kind = .lparen) (hr : r.kind = .rparen) :
      IsDatum [l, r] (.const .nil) 1
  | list {l r : Token} {ts : List Token} {forms : List Form} {n : Nat} (hl : l.kind = .lparen)
      (hne : forms ≠ []) (h : IsData ts forms n) (hr : r.kind = .rparen) :
      IsDatum (l :: (ts ++ [r])) (.list forms) (n + 1)
  | dotted {l d r : Token} {ts us : List Token} {forms : List Form} {tail : Form} {n m : Nat}
      (hl : l.kind = .lparen) (hne : forms ≠ []) (h : IsData ts forms n) (hd : d.kind = .dot)
      (htail : IsDatum us tail m) (hr : r.kind = .rparen) :
      IsDatum (l :: (ts ++ d :: (us ++ [r]))) (.dotted forms tail) (max n m + 1)
  | loneTail {l d r : Token} {us : List Token} {tail : Form} {m : Nat} (hl : l.kind = .lparen)
      (hd : d.kind = .dot) (htail : IsDatum us tail m) (hr : r.kind = .rparen) :
      IsDatum (l :: d :: (us ++ [r])) tail (m + 1)

/-- The tokens of some data one after the other, with their forms and their greatest nesting. -/
inductive IsData : List Token → List Form → Nat → Prop
  | nil : IsData [] [] 0
  | cons {ts us : List Token} {form : Form} {forms : List Form} {n m : Nat}
      (h : IsDatum ts form n) (hrest : IsData us forms m) :
      IsData (ts ++ us) (form :: forms) (max n m)

end

/-- The kinds of the tokens that a datum begins with. -/
def Token.Kind.opensDatum : Token.Kind → Bool
  | .rparen | .dot => false
  | _ => true

/-- A datum begins with a token that ends nothing. -/
theorem IsDatum.begins {ts : List Token} {form : Form} {n : Nat} (h : IsDatum ts form n) :
    ∃ t rest, ts = t :: rest ∧ t.kind.opensDatum = true := by
  cases h with
  | number ht | symbol ht | string ht => exact ⟨_, _, rfl, by rw [ht]; rfl⟩
  | quote hq _ => exact ⟨_, _, rfl, by rw [hq]; rfl⟩
  | empty hl _ | list hl _ _ _ | dotted hl _ _ _ _ _ | loneTail hl _ _ _ =>
      exact ⟨_, _, rfl, by rw [hl]; rfl⟩

theorem IsDatum.ne_nil {ts : List Token} {form : Form} {n : Nat} (h : IsDatum ts form n) :
    ts ≠ [] := by
  obtain ⟨t, rest, rfl, -⟩ := h.begins
  exact List.cons_ne_nil t rest

theorem IsData.single {ts : List Token} {form : Form} {n : Nat} (h : IsDatum ts form n) :
    IsData ts [form] n := by
  have hcons := IsData.cons h .nil
  rwa [List.append_nil, Nat.max_zero] at hcons

theorem IsData.append : ∀ {ts us : List Token} {forms forms' : List Form} {n m : Nat},
    IsData ts forms n → IsData us forms' m → IsData (ts ++ us) (forms ++ forms') (max n m)
  | _, _, _, _, _, _, .nil, h => by simpa using h
  | _, _, _, _, _, _, .cons hdatum hrest, h => by
      rw [List.append_assoc, Nat.max_assoc]
      exact .cons hdatum (hrest.append h)

/-- Only no tokens at all hold no data. -/
theorem IsData.eq_nil {ts : List Token} {n : Nat} (h : IsData ts [] n) : ts = [] ∧ n = 0 := by
  cases h
  exact ⟨rfl, rfl⟩

end TableLisp
