import TableLisp.Proofs.Reader.Grammar

/-!
# Balanced tokens

Tokens are balanced if each of their parentheses has its counterpart, whatever else stands among
them. Data are balanced (`IsData.balanced`), and so is what stands in the parentheses of a datum,
dots included (`IsDatum.shape`). What needs to know only where parentheses open and close is shown of
balanced tokens, with one case for each constructor.
-/

namespace TableLisp

/-- Tokens whose parentheses are matched. -/
inductive Balanced : List Token → Prop
  | nil : Balanced []
  | cons {t : Token} {ts : List Token} (hl : t.kind ≠ .lparen) (hr : t.kind ≠ .rparen)
      (h : Balanced ts) : Balanced (t :: ts)
  | parens {l r : Token} {ts us : List Token} (hl : l.kind = .lparen) (h : Balanced ts)
      (hr : r.kind = .rparen) (hrest : Balanced us) : Balanced (l :: (ts ++ r :: us))

namespace Balanced

theorem append {ts us : List Token} (h : Balanced ts) (h' : Balanced us) : Balanced (ts ++ us) := by
  induction h with
  | nil => exact h'
  | cons hl hr _ ih => exact .cons hl hr ih
  | parens hl h hr _ _ ih =>
      rw [List.cons_append, List.append_assoc, List.cons_append]
      exact .parens hl h hr ih

theorem dotted {ts us : List Token} (h : Balanced ts) {d : Token} (hd : d.kind = .dot)
    (h' : Balanced us) : Balanced (ts ++ d :: us) :=
  h.append (.cons (by simp [hd]) (by simp [hd]) h')

/-- There are as many closing parentheses as opening ones. -/
theorem countP_eq {ts : List Token} (h : Balanced ts) :
    ts.countP (·.kind = .lparen) = ts.countP (·.kind = .rparen) := by
  induction h with
  | nil => rfl
  | cons hl hr _ ih => simp [hl, hr, ih]
  | parens hl _ hr _ ih ih' => simp [hl, hr, ih, ih', Nat.add_assoc]

/-- No front part has more closing parentheses than opening ones. -/
theorem countP_le {ts : List Token} (h : Balanced ts) : ∀ {before after : List Token},
    ts = before ++ after → before.countP (·.kind = .rparen) ≤ before.countP (·.kind = .lparen) := by
  induction h with
  | nil =>
      intro before after heq
      simp [(List.append_eq_nil_iff.mp heq.symm).1]
  | cons hl hr _ ih =>
      intro before after heq
      obtain ⟨rfl, -⟩ | ⟨before, rfl, hts⟩ := List.cons_eq_append_iff.mp heq
      · simp
      · simpa [hl, hr] using ih hts
  | @parens l r ts us hl h hr _ ih ih' =>
      intro before after heq
      obtain ⟨rfl, -⟩ | ⟨before, rfl, hinside⟩ := List.cons_eq_append_iff.mp heq
      · simp
      obtain ⟨closed, rfl, hclosed⟩ | ⟨inside, rfl, -⟩ := List.append_eq_append_iff.mp hinside
      · have hopen := h.countP_eq
        obtain ⟨rfl, -⟩ | ⟨behind, rfl, hus⟩ := List.cons_eq_append_iff.mp hclosed
        · simp [hl, hopen]
        · simpa [hl, hr, hopen, Nat.add_assoc] using ih' hus
      · simpa [hl] using Nat.le_succ_of_le (ih rfl)

end Balanced

mutual

theorem IsDatum.balanced : ∀ {ts : List Token} {form : Form} {n : Nat}, IsDatum ts form n →
    Balanced ts
  | _, _, _, .number ht
  | _, _, _, .symbol ht
  | _, _, _, .string ht => .cons (by simp [ht]) (by simp [ht]) .nil
  | _, _, _, .quote hq h => .cons (by simp [hq]) (by simp [hq]) h.balanced
  | _, _, _, .empty hl hr => .parens hl .nil hr .nil
  | _, _, _, .list hl _ h hr => .parens hl h.balanced hr .nil
  | _, _, _, .dotted hl _ h hd htail hr => by
      have hwhole := Balanced.parens hl (h.balanced.dotted hd htail.balanced) hr .nil
      rwa [List.append_assoc] at hwhole
  | _, _, _, .loneTail hl hd htail hr =>
      .parens hl (Balanced.nil.dotted hd htail.balanced) hr .nil

theorem IsData.balanced : ∀ {ts : List Token} {forms : List Form} {n : Nat}, IsData ts forms n →
    Balanced ts
  | _, _, _, .nil => .nil
  | _, _, _, .cons hdatum hdata => hdatum.balanced.append hdata.balanced

end

/-- A datum is an atom, a quote mark with a datum, or balanced tokens in parentheses. -/
theorem IsDatum.shape {ts : List Token} {form : Form} {n : Nat} (h : IsDatum ts form n) :
    (∃ t, ts = [t] ∧ t.kind ≠ .lparen) ∨
      (∃ q us form' m, ts = q :: us ∧ q.kind = .quote ∧ IsDatum us form' m) ∨
      ∃ l us r, ts = l :: (us ++ [r]) ∧ l.kind = .lparen ∧ r.kind = .rparen ∧ Balanced us := by
  cases h with
  | number ht | symbol ht | string ht => exact Or.inl ⟨_, rfl, by simp [ht]⟩
  | quote hq h => exact Or.inr (Or.inl ⟨_, _, _, _, rfl, hq, h⟩)
  | empty hl hr => exact Or.inr (Or.inr ⟨_, [], _, rfl, hl, hr, .nil⟩)
  | list hl _ h hr => exact Or.inr (Or.inr ⟨_, _, _, rfl, hl, hr, h.balanced⟩)
  | @dotted l d r ts us _ _ _ _ hl _ h hd htail hr =>
      refine Or.inr (Or.inr ⟨l, ts ++ d :: us, r, by simp, hl, hr, ?_⟩)
      exact h.balanced.dotted hd htail.balanced
  | @loneTail l d r us _ _ hl hd htail hr =>
      exact Or.inr (Or.inr ⟨l, d :: us, r, rfl, hl, hr, Balanced.nil.dotted hd htail.balanced⟩)

end TableLisp
