import TableLisp.Proofs.Reader.Completeness

/-!
# The reader takes nothing but data

The other direction of `TableLisp.Proofs.Reader.Completeness`. While the reader is under way, the
tokens that it has taken are those of the open constructs, one after the other: a mark or
a parenthesis and the items read since (`Opened`). `Reached` says this of every kind of progress,
together with the depth, and each token keeps it (`reached_shift`, `reached_close`). When the
stack is empty, what has been taken is one datum, so every successful reading has a derivation
(`isDatum_of_readOn`).

The nesting is bounded on the way: the items of a construct nest no deeper than the levels that are
left inside it.
-/

namespace TableLisp

namespace Datum

/-! ## Tokens of the open constructs -/

/-- The tokens taken since the outermost of some open constructs was opened. No construct is opened
beyond `room`, and what has been read inside one stays within the rest of it. -/
inductive Opened (room : Nat) : List Opening → List Token → Prop
  | nil : Opened room [] []
  | quote {stack : List Opening} {ts : List Token} {q : Token} (offset : Nat)
      (h : Opened room stack ts) (hq : q.kind = .quote) (hroom : stack.length < room) :
      Opened room (.quote offset :: stack) (ts ++ [q])
  | list {stack : List Opening} {ts us : List Token} {l : Token} {items : List Form} {n : Nat}
      (offset : Nat) (h : Opened room stack ts) (hl : l.kind = .lparen)
      (hitems : IsData us items.reverse n) (hroom : stack.length + 1 + n ≤ room) :
      Opened room (.list offset items :: stack) (ts ++ l :: us)
  | tail {stack : List Opening} {ts us : List Token} {l d : Token} {items : List Form} {n : Nat}
      (offset : Nat) (h : Opened room stack ts) (hl : l.kind = .lparen)
      (hitems : IsData us items.reverse n) (hd : d.kind = .dot)
      (hroom : stack.length + 1 + n ≤ room) :
      Opened room (.tail offset items :: stack) (ts ++ l :: (us ++ [d]))

/-- Some tokens that are a datum as soon as a parenthesis closes them. -/
def Unclosed (ts : List Token) (form : Form) (n : Nat) : Prop :=
  ∀ r : Token, r.kind = .rparen → IsDatum (ts ++ [r]) form n

/-- What the tokens taken so far amount to. The reading started at depth `base`. -/
def Reached (room base : Nat) : Progress → List Token → Prop
  | .finished form depth, ts => depth = base ∧ ∃ n ≤ room, IsDatum ts form n
  | .reading stack depth, ts => depth = base + stack.length ∧ Opened room stack ts
  | .closing form stack depth, ts =>
    depth = base + stack.length + 1 ∧
      ∃ us vs n, ts = us ++ vs ∧ Opened room stack us ∧ Unclosed vs form n ∧
        stack.length + n ≤ room
  | .refused _ _, _ => True

/-! ## Completed constructs -/

/-- A list between parentheses. -/
theorem isDatum_listForm {us : List Token} {items : List Form} {n : Nat} {l r : Token}
    (hl : l.kind = .lparen) (hitems : IsData us items.reverse n) (hr : r.kind = .rparen) :
    IsDatum (l :: (us ++ [r])) (listForm items) (n + 1) := by
  cases items with
  | nil =>
      obtain ⟨rfl, rfl⟩ := IsData.eq_nil hitems
      exact .empty hl hr
  | cons item items =>
      have hne : (item :: items).reverse ≠ [] := by simp
      have hform : listForm (item :: items) = .list (item :: items).reverse := by
        rw [← listForm_reverse hne, List.reverse_reverse]
      rw [hform]
      exact .list hl hne hitems hr

/-- A list with a dot, up to the parenthesis that closes it. -/
theorem unclosed_dottedForm {us vs : List Token} {items : List Form} {tail : Form} {n m : Nat}
    {l d : Token} (hl : l.kind = .lparen) (hitems : IsData us items.reverse n)
    (hd : d.kind = .dot) (htail : IsDatum vs tail m) :
    Unclosed (l :: (us ++ d :: vs)) (dottedForm items tail) (max n m + 1) := by
  intro r hr
  cases items with
  | nil =>
      obtain ⟨rfl, rfl⟩ := IsData.eq_nil hitems
      rw [Nat.zero_max]
      exact .loneTail hl hd htail hr
  | cons item items =>
      have hne : (item :: items).reverse ≠ [] := by simp
      have hform : dottedForm (item :: items) tail = .dotted (item :: items).reverse tail := by
        rw [← dottedForm_reverse hne, List.reverse_reverse]
      have htokens : l :: (us ++ d :: vs) ++ [r] = l :: (us ++ d :: (vs ++ [r])) := by simp
      rw [hform, htokens]
      exact .dotted hl hne hitems hd htail hr

theorem IsData.snoc {us vs : List Token} {items : List Form} {form : Form} {n m : Nat}
    (hitems : IsData us items.reverse n) (h : IsDatum vs form m) :
    IsData (us ++ vs) (form :: items).reverse (max n m) := by
  rw [List.reverse_cons]
  exact hitems.append (.single h)

/-- Delivering a datum to the open constructs keeps account of its tokens. -/
theorem reached_deliver {room base : Nat} {form : Form} {us : List Token} {n : Nat} :
    ∀ {stack : List Opening} {ts : List Token}, Opened room stack ts → IsDatum us form n →
      stack.length + n ≤ room →
      Reached room base (deliver form stack (base + stack.length)) (ts ++ us)
  | _, _, .nil, h, hn => ⟨rfl, n, by simpa using hn, h⟩
  | _, _, .quote _ hstack hq _, h, hn => by
      have hroom := Nat.succ_add_eq_add_succ _ _ ▸ hn
      have hquoted : Reached room base _ _ := reached_deliver hstack (.quote hq h) hroom
      rw [List.append_assoc, List.singleton_append]
      exact hquoted
  | _, _, .list offset hstack hl hitems hroom, h, hn => by
      rw [List.append_assoc, List.cons_append]
      refine ⟨rfl, .list offset hstack hl (IsData.snoc hitems h) ?_⟩
      simp only [List.length_cons] at hn
      omega
  | _, _, .tail _ hstack hl hitems hd hroom, h, hn => by
      refine ⟨by simp; omega, _, _, _, ?_, hstack, unclosed_dottedForm hl hitems hd h, ?_⟩
      · simp
      · simp only [List.length_cons] at hn
        omega

/-! ## Single tokens -/

theorem Opened.length_le {room : Nat} {stack : List Opening} {ts : List Token}
    (h : Opened room stack ts) : stack.length ≤ room := by
  cases h with
  | nil => exact Nat.zero_le room
  | quote _ _ _ hroom => exact hroom
  | list _ _ _ _ hroom | tail _ _ _ _ _ hroom => exact Nat.le_trans (Nat.le_add_right ..) hroom

/-- Opening a construct is accounted for if the limit allows it, and refused otherwise. -/
theorem reached_descend {limit : Int} {base : Nat} {stack : List Opening} {ts : List Token}
    {opening : Opening}
    (h : stack.length < levelsLeft limit base →
      Opened (levelsLeft limit base) (opening :: stack) ts) (offset : Nat) :
    Reached (levelsLeft limit base) base
      (descend limit opening offset stack (base + stack.length)) ts := by
  unfold descend
  split
  · trivial
  · next hlimit =>
      refine ⟨rfl, h ?_⟩
      unfold levelsLeft
      omega

/-- A token is accounted for, unless it is a quote mark at the end of the source. -/
theorem reached_shift {limit : Int} {base depth : Nat} {stack : List Opening} {ts : List Token}
    {token : Token} (h : Reached (levelsLeft limit base) base (.reading stack depth) ts) :
    Reached (levelsLeft limit base) base (shift limit stack depth token false)
      (ts ++ [token]) := by
  obtain ⟨rfl, hopen⟩ := h
  have hroom : stack.length + 0 ≤ levelsLeft limit base := hopen.length_le
  fun_cases shift limit stack (base + stack.length) token false with
  | case1 => exact reached_deliver hopen (.number ‹_›) hroom
  | case2 => exact reached_deliver hopen (.symbol ‹_›) hroom
  | case3 => exact reached_deliver hopen (.string ‹_›) hroom
  | case4 => contradiction
  | case5 => exact reached_descend (fun hlt => .quote _ hopen ‹_› hlt) _
  | case6 => exact reached_descend (fun hlt => .list _ hopen ‹_› .nil hlt) _
  | case7 hk offset items stack =>
      cases hopen with
      | list _ hstack hl hitems hlevel =>
          rw [List.append_assoc, List.cons_append]
          exact reached_deliver hstack (isDatum_listForm hl hitems hk) (by omega)
  | case9 hk offset items stack =>
      cases hopen with
      | list _ hstack hl hitems hlevel =>
          rw [List.append_assoc, List.cons_append]
          exact ⟨rfl, .tail _ hstack hl hitems hk hlevel⟩
  | case8 | case10 => trivial

/-- Only a quote mark is affected by being the last token. -/
theorem shift_of_not_last {limit : Int} {stack : List Opening} {depth : Nat} {token : Token}
    {rest : List Token} (h : ¬ (token.kind = .quote ∧ rest = [])) :
    shift limit stack depth token false = shift limit stack depth token rest.isEmpty := by
  cases rest with
  | cons next rest => rfl
  | nil =>
      have hk : token.kind ≠ .quote := fun hk => h ⟨hk, rfl⟩
      unfold shift
      split <;> first | rfl | contradiction

theorem reached_close {room base depth : Nat} {form : Form} {stack : List Opening}
    {ts : List Token} {token : Token} (h : Reached room base (.closing form stack depth) ts) :
    Reached room base (close form stack depth token) (ts ++ [token]) := by
  obtain ⟨rfl, us, vs, n, rfl, hstack, hunclosed, hn⟩ := h
  unfold close
  split
  · next hk =>
      rw [List.append_assoc]
      exact reached_deliver hstack (hunclosed token hk) hn
  · trivial

/-! ## Whole data -/

/-- A reading that succeeds has taken one datum, counted from where it started. -/
theorem isDatum_of_readOn {limit : Int} {base : Nat} {progress : Progress}
    {tokens ts : List Token} (h : Reached (levelsLeft limit base) base progress ts) {form : Form}
    (hok : (readOn limit progress tokens).outcome = .ok form) :
    (readOn limit progress tokens).depth = base ∧
      ∃ us n, ts ++ tokens = us ++ (readOn limit progress tokens).rest ∧
        IsDatum us form n ∧ n ≤ levelsLeft limit base := by
  fun_induction readOn limit progress tokens generalizing ts with
  | case1 _ depth rest =>
      obtain ⟨hdepth, n, hn, hdatum⟩ := h
      cases hok
      exact ⟨hdepth, ts, n, rfl, hdatum, hn⟩
  | case2 | case3 | case4 | case5 => cases hok
  | case6 stack depth token rest _ ih =>
      by_cases hlast : token.kind = .quote ∧ rest = []
      · obtain ⟨hk, rfl⟩ := hlast
        simp [shift, hk, readOn] at hok
      · have hstep := ih (shift_of_not_last hlast ▸ reached_shift h) hok
        rwa [List.append_assoc, List.singleton_append] at hstep
  | case7 form stack depth token rest ih =>
      have hstep := ih (reached_close h) hok
      rwa [List.append_assoc, List.singleton_append] at hstep

/-- **The reader and the grammar.** Reading one datum succeeds exactly if the tokens begin with one
that nests no deeper than what the limit leaves; the depth is then what it was. -/
theorem read_eq_ok_iff {limit : Int} {depth depth' : Nat} {tokens rest : List Token}
    {form : Form} :
    read limit depth tokens = ⟨.ok form, depth', rest⟩ ↔
      depth' = depth ∧
        ∃ ts n, tokens = ts ++ rest ∧ IsDatum ts form n ∧ n ≤ levelsLeft limit depth := by
  constructor
  · intro h
    have hstart : Reached (levelsLeft limit depth) depth (.reading [] depth) [] :=
      ⟨rfl, .nil⟩
    have hok : (readOn limit (.reading [] depth) tokens).outcome = .ok form := by
      rw [← read, h]
    have hsound := isDatum_of_readOn hstart hok
    rw [← read, h] at hsound
    exact hsound
  · rintro ⟨rfl, ts, n, rfl, hdatum, hn⟩
    exact read_datum hdatum hn rest

end Datum

end TableLisp
