import TableLisp.Proofs.Reader.Grammar

/-!
# The reader takes every datum

Before the tokens of a datum that nests no deeper than the limit leaves room for (`levelsLeft`), the
reader takes all of them and delivers the form to the innermost open construct (`readOn_datum`).
What is open already and what comes after the datum are arbitrary, so the statement is carried
through the grammar by induction: a list opens a construct, reads its items one by one
(`readOn_data`) and closes it.
-/

namespace TableLisp

namespace Datum

/-- How many levels can still be opened at some depth. -/
def levelsLeft (limit : Int) (depth : Nat) : Nat :=
  (limit - depth).toNat

theorem levelsLeft_zero (limit : Int) : levelsLeft limit 0 = limit.toNat := by
  simp [levelsLeft]

theorem levelsLeft_succ {limit : Int} {depth n : Nat} (h : n + 1 ≤ levelsLeft limit depth) :
    n ≤ levelsLeft limit (depth + 1) := by
  unfold levelsLeft at *
  omega

theorem lt_limit {limit : Int} {depth n : Nat} (h : n + 1 ≤ levelsLeft limit depth) :
    ¬ limit ≤ depth := by
  unfold levelsLeft at h
  omega

/-! ## Single tokens -/

theorem endsAfterDot_eq_none {stack : List Opening} {token : Token}
    (h : token.kind ≠ .rparen) : endsAfterDot stack token = none := by
  unfold endsAfterDot
  split
  · next heq => exact absurd heq h
  · rfl

theorem readOn_shift (limit : Int) (stack : List Opening) (depth : Nat) {token : Token}
    (rest : List Token) (h : token.kind ≠ .rparen) :
    readOn limit (.reading stack depth) (token :: rest) =
      readOn limit (shift limit stack depth token rest.isEmpty) rest := by
  rw [readOn, endsAfterDot_eq_none h]

theorem descend_reading {limit : Int} {depth n : Nat} (h : n + 1 ≤ levelsLeft limit depth)
    (opening : Opening) (offset : Nat) (stack : List Opening) :
    descend limit opening offset stack depth = .reading (opening :: stack) (depth + 1) := by
  rw [descend, if_neg (lt_limit h)]

theorem readOn_lparen {limit : Int} {depth n : Nat} (h : n + 1 ≤ levelsLeft limit depth)
    (stack : List Opening) {token : Token} (hk : token.kind = .lparen) (rest : List Token) :
    readOn limit (.reading stack depth) (token :: rest) =
      readOn limit (.reading (.list token.offset [] :: stack) (depth + 1)) rest := by
  rw [readOn_shift limit stack depth rest (by simp [hk])]
  simp only [shift, hk, descend_reading h]

/-- A quote mark is looked at together with the fact that a token follows it. -/
theorem readOn_quote {limit : Int} {depth n : Nat} (h : n + 1 ≤ levelsLeft limit depth)
    (stack : List Opening) {token : Token} (hk : token.kind = .quote) {rest : List Token}
    (hrest : rest ≠ []) :
    readOn limit (.reading stack depth) (token :: rest) =
      readOn limit (.reading (.quote token.offset :: stack) (depth + 1)) rest := by
  have hlast : rest.isEmpty = false := by simpa using hrest
  rw [readOn_shift limit stack depth rest (by simp [hk])]
  simp only [shift, hk, hlast, Bool.false_eq_true, if_false, descend_reading h]

theorem readOn_rparen (limit : Int) (offset : Nat) (items : List Form) (stack : List Opening)
    (depth : Nat) {token : Token} (hk : token.kind = .rparen) (rest : List Token) :
    readOn limit (.reading (.list offset items :: stack) depth) (token :: rest) =
      readOn limit (deliver (listForm items) stack (depth - 1)) rest := by
  simp only [readOn, endsAfterDot, shift, hk]

theorem readOn_dot (limit : Int) (offset : Nat) (items : List Form) (stack : List Opening)
    (depth : Nat) {token : Token} (hk : token.kind = .dot) (rest : List Token) :
    readOn limit (.reading (.list offset items :: stack) depth) (token :: rest) =
      readOn limit (.reading (.tail token.offset items :: stack) depth) rest := by
  simp only [readOn, endsAfterDot, shift, hk]

theorem readOn_close (limit : Int) (form : Form) (stack : List Opening) (depth : Nat)
    {token : Token} (hk : token.kind = .rparen) (rest : List Token) :
    readOn limit (.closing form stack depth) (token :: rest) =
      readOn limit (deliver form stack (depth - 1)) rest := by
  rw [readOn, close, if_pos hk]

/-! ## Whole data -/

theorem listForm_reverse {forms : List Form} (hne : forms ≠ []) :
    listForm forms.reverse = .list forms := by
  simp [listForm, hne]

theorem dottedForm_reverse {forms : List Form} (hne : forms ≠ []) (tail : Form) :
    dottedForm forms.reverse tail = .dotted forms tail := by
  simp [dottedForm, hne]

mutual

/-- The reader takes a datum that fits and delivers its form. -/
theorem readOn_datum {limit : Int} : ∀ {ts : List Token} {form : Form} {n : Nat},
    IsDatum ts form n → ∀ (stack : List Opening) (depth : Nat) (rest : List Token),
      n ≤ levelsLeft limit depth →
      readOn limit (.reading stack depth) (ts ++ rest) =
        readOn limit (deliver form stack depth) rest
  | _, _, _, .number ht, stack, depth, rest, _ => by
      rw [List.singleton_append, readOn_shift limit stack depth rest (by simp [ht])]
      simp only [shift, ht]
  | _, _, _, .symbol ht, stack, depth, rest, _ => by
      rw [List.singleton_append, readOn_shift limit stack depth rest (by simp [ht])]
      simp only [shift, ht]
  | _, _, _, .string ht, stack, depth, rest, _ => by
      rw [List.singleton_append, readOn_shift limit stack depth rest (by simp [ht])]
      simp only [shift, ht]
  | _, _, _, @IsDatum.quote _ ts _ _ hq h, stack, depth, rest, hn => by
      have hrest : ts ++ rest ≠ [] := List.append_ne_nil_of_left_ne_nil h.ne_nil rest
      rw [List.cons_append, readOn_quote hn stack hq hrest,
        readOn_datum h _ _ rest (levelsLeft_succ hn)]
      rfl
  | _, _, _, .empty hl hr, stack, depth, rest, hn => by
      rw [List.cons_append, readOn_lparen hn stack hl, List.singleton_append,
        readOn_rparen limit _ _ _ _ hr]
      rfl
  | _, _, _, .list hl hne h hr, stack, depth, rest, hn => by
      rw [List.cons_append, List.append_assoc, readOn_lparen hn stack hl,
        readOn_data h _ _ stack (depth + 1) _ (levelsLeft_succ hn), List.append_nil,
        List.singleton_append, readOn_rparen limit _ _ _ _ hr, listForm_reverse hne]
      rfl
  | _, _, _, .dotted hl hne h hd htail hr, stack, depth, rest, hn => by
      have hroom := levelsLeft_succ hn
      rw [List.cons_append, List.append_assoc, readOn_lparen hn stack hl,
        readOn_data h _ _ stack (depth + 1) _ (Nat.le_trans (Nat.le_max_left ..) hroom),
        List.append_nil, List.cons_append, readOn_dot limit _ _ _ _ hd, List.append_assoc,
        readOn_datum htail _ _ _ (Nat.le_trans (Nat.le_max_right ..) hroom), deliver,
        List.singleton_append, readOn_close limit _ _ _ hr, dottedForm_reverse hne]
      rfl
  | _, _, _, .loneTail hl hd htail hr, stack, depth, rest, hn => by
      rw [List.cons_append, readOn_lparen hn stack hl, List.cons_append,
        readOn_dot limit _ _ _ _ hd, List.append_assoc,
        readOn_datum htail _ _ _ (levelsLeft_succ hn), deliver, List.singleton_append,
        readOn_close limit _ _ _ hr]
      rfl

/-- In an open list the reader takes the items one by one. -/
theorem readOn_data {limit : Int} : ∀ {ts : List Token} {forms : List Form} {n : Nat},
    IsData ts forms n → ∀ (offset : Nat) (items : List Form) (stack : List Opening) (depth : Nat)
      (rest : List Token), n ≤ levelsLeft limit depth →
      readOn limit (.reading (.list offset items :: stack) depth) (ts ++ rest) =
        readOn limit (.reading (.list offset (forms.reverse ++ items) :: stack) depth) rest
  | _, _, _, .nil, _, _, _, _, _, _ => rfl
  | _, _, _, .cons h hrest, offset, items, stack, depth, rest, hn => by
      rw [List.append_assoc, readOn_datum h _ _ _ (Nat.le_trans (Nat.le_max_left ..) hn), deliver,
        readOn_data hrest _ _ _ _ _ (Nat.le_trans (Nat.le_max_right ..) hn),
        List.reverse_cons, List.append_assoc, List.singleton_append]

end

/-- A datum that fits is read, whatever follows it, and the depth is what it was. -/
theorem read_datum {limit : Int} {depth : Nat} {ts : List Token} {form : Form} {n : Nat}
    (h : IsDatum ts form n) (hn : n ≤ levelsLeft limit depth) (rest : List Token) :
    read limit depth (ts ++ rest) = ⟨.ok form, depth, rest⟩ := by
  rw [read, readOn_datum h [] depth rest hn, deliver, readOn]

end Datum

end TableLisp
