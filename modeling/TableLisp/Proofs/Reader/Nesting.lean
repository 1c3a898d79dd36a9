import Mathlib.Control.Monad.Basic
import TableLisp.Proofs.Reader.Moving

/-!
# Where the limit is met

A source that is read under one limit may nest too deep for another one. Whether it does, and where,
is seen from its tokens alone: `nestings` goes through them and notes, at every token that opens a
list or a quote, how many lists and quotes are open around it. Under each limit the source is read
as the same forms, or it is refused at the first token that has as many around it as the limit
(`parse_under_limit`).

A list ends at its parenthesis, but a quote ends with the datum behind it, and so may several quotes
at once. Hence what is open is kept as a list, the innermost first, and behind each datum the quotes
in front are dropped. The reader keeps this list as its stack (`Progress.around`), and its depth is
the length (`Progress.Counted`), so the limit is met where the tokens say it is.
-/

namespace TableLisp

/-! ## What is open around a token -/

/-- What nests: a list, or a quote together with the datum behind it. -/
inductive Nest
  | list | quote
  deriving DecidableEq, Repr

/-- What is still open when a datum is complete. The quotes that waited for it are complete too. -/
def Nest.closeQuotes (around : List Nest) : List Nest :=
  around.dropWhile (· = .quote)

/-- The token opens a list or a quote. -/
def Token.Kind.nests : Token.Kind → Bool
  | .quote | .lparen => true
  | .rparen | .string | .dot | .number | .symbol => false

/-- What is open behind a token, if `around` is open in front of it. -/
def Token.Kind.behind (around : List Nest) : Token.Kind → List Nest
  | .number | .symbol | .string => Nest.closeQuotes around
  | .quote => .quote :: around
  | .lparen => .list :: around
  | .rparen => Nest.closeQuotes around.tail
  | .dot => around

/-- A token that opens a list or a quote, and how many are open around it. -/
structure Nesting where
  offset : Nat
  around : Nat
  deriving DecidableEq, Repr

/-- The tokens that open a list or a quote, in the order of the text. -/
def nestings (around : List Nest) : List Token → List Nesting
  | [] => []
  | token :: rest =>
    let later := nestings (token.kind.behind around) rest
    if token.kind.nests then ⟨token.offset, around.length⟩ :: later else later

/-- A quote is closed by what it quotes, so the second list stands beside the first one. -/
example : nestings [] (lex "('(a) '() . b)".toList).tokens =
    [⟨0, 0⟩, ⟨1, 1⟩, ⟨2, 2⟩, ⟨6, 1⟩, ⟨7, 2⟩] := by decide +kernel

/-- The first token that opens a list or a quote at the limit or beyond it. -/
def firstBeyond (limit : Int) (around : List Nest) (tokens : List Token) : Option Nat :=
  ((nestings around tokens).find? fun nesting => limit ≤ nesting.around).map Nesting.offset

theorem firstBeyond_cons (limit : Int) (around : List Nest) (token : Token) (rest : List Token) :
    firstBeyond limit around (token :: rest) =
      if token.kind.nests = true ∧ limit ≤ around.length then some token.offset
      else firstBeyond limit (token.kind.behind around) rest := by
  unfold firstBeyond
  rw [nestings]
  cases hnests : token.kind.nests with
  | false => simp only [Bool.false_eq_true, false_and, if_false]
  | true =>
      by_cases hlimit : limit ≤ around.length
      · simp only [hlimit, if_true, and_self, List.find?_cons, decide_true, Option.map_some]
      · simp only [hlimit, if_true, and_false, if_false, List.find?_cons, decide_false]

theorem Nest.length_closeQuotes_le (around : List Nest) :
    (closeQuotes around).length ≤ around.length :=
  (List.dropWhile_suffix _).length_le

/-- Only a token that opens a list or a quote leaves more open than there was, and only one more. -/
theorem Token.Kind.length_behind_le (around : List Nest) (kind : Token.Kind) :
    (kind.behind around).length ≤ around.length + if kind.nests then 1 else 0 := by
  have hclose := Nest.length_closeQuotes_le around
  have htail := Nest.length_closeQuotes_le around.tail
  rw [List.length_tail] at htail
  cases kind <;> simp only [behind, nests, List.length_cons, if_true, Bool.false_eq_true, if_false]
    <;> omega

/-- The nesting grows one by one, so the first token beyond the limit is one at the limit. -/
theorem find?_nestings {limit : Int} {around : List Nest} (h : around.length ≤ limit.toNat)
    (tokens : List Token) :
    (nestings around tokens).find? (fun nesting => limit ≤ nesting.around) =
      (nestings around tokens).find? (fun nesting => nesting.around = limit.toNat) := by
  induction tokens generalizing around with
  | nil => rfl
  | cons token rest ih =>
      have hbehind := token.kind.length_behind_le around
      rw [nestings]
      cases hnests : token.kind.nests with
      | false =>
          simp only [hnests, Bool.false_eq_true, if_false] at hbehind ⊢
          exact ih (by omega)
      | true =>
          simp only [hnests, if_true] at hbehind ⊢
          by_cases hat : around.length = limit.toNat
          · have hle : limit ≤ around.length := by omega
            rw [List.find?_cons_of_pos (by simpa using hle),
              List.find?_cons_of_pos (by simpa using hat)]
          · have hlt : ¬ limit ≤ around.length := by omega
            rw [List.find?_cons_of_neg (by simpa using hlt),
              List.find?_cons_of_neg (by simpa using hat)]
            exact ih (by omega)

namespace Datum

/-! ## The depth of a reading -/

/-- The depth is what it was at the start of the reading, and one more for each open construct. -/
def Progress.Counted (base : Nat) : Progress → Prop
  | .finished _ depth | .refused _ depth => depth = base
  | .reading stack depth => depth = base + stack.length
  | .closing _ stack depth => depth = base + (stack.length + 1)

variable {base : Nat}

theorem refuse_counted (fault : Fault) (offset : Nat) (stack : List Opening) :
    (refuse fault offset stack (base + stack.length)).Counted base :=
  Nat.add_sub_cancel ..

theorem deliver_counted (form : Form) (stack : List Opening) :
    (deliver form stack (base + stack.length)).Counted base := by
  induction stack generalizing form with
  | nil => rfl
  | cons opening stack ih =>
      cases opening with
      | quote offset => exact ih (.quoted form)
      | list offset items => rfl
      | tail dot items => rfl

theorem descend_counted (limit : Int) (opening : Opening) (offset : Nat)
    (stack : List Opening) :
    (descend limit opening offset stack (base + stack.length)).Counted base := by
  unfold descend
  split
  · exact refuse_counted ..
  · rfl

theorem shift_counted (limit : Int) (stack : List Opening) (token : Token) (last : Bool) :
    (shift limit stack (base + stack.length) token last).Counted base := by
  fun_cases shift limit stack (base + stack.length) token last with
  | case1 | case2 | case3 => exact deliver_counted ..
  | case4 => rfl
  | case5 | case6 => exact descend_counted ..
  | case7 _ offset items stack => exact deliver_counted (listForm items) stack
  | case8 | case10 => exact refuse_counted ..
  | case9 => rfl

theorem close_counted (form : Form) (stack : List Opening) (token : Token) :
    (close form stack (base + (stack.length + 1)) token).Counted base := by
  unfold close
  split
  · exact deliver_counted form stack
  · exact Nat.add_sub_cancel ..

/-- However a reading ends, the depth is then what it was. -/
theorem depth_readOn (limit : Int) {progress : Progress} (h : progress.Counted base)
    (tokens : List Token) : (readOn limit progress tokens).depth = base := by
  fun_induction readOn limit progress tokens with
  | case1 | case2 => exact h
  | case3 stack depth =>
      obtain rfl : depth = _ := h
      exact Nat.add_sub_cancel ..
  | case4 form stack depth =>
      obtain rfl : depth = _ := h
      exact Nat.add_sub_cancel ..
  | case5 stack depth token rest dot hends =>
      obtain rfl : depth = _ := h
      exact Nat.add_sub_cancel ..
  | case6 stack depth token rest hends ih =>
      obtain rfl : depth = _ := h
      exact ih (shift_counted ..)
  | case7 form stack depth token rest ih =>
      obtain rfl : depth = _ := h
      exact ih (close_counted ..)

theorem depth_read (limit : Int) (depth : Nat) (tokens : List Token) :
    (read limit depth tokens).depth = depth := by
  have hstart : (Progress.reading [] depth).Counted depth := rfl
  exact depth_readOn limit hstart tokens

/-! ## The stack of a reading -/

def Opening.nest : Opening → Nest
  | .quote _ => .quote
  | .list .. | .tail .. => .list

/-- What is open where a reading has come to. -/
def Progress.around : Progress → List Nest
  | .finished .. | .refused .. => []
  | .reading stack _ => stack.map Opening.nest
  | .closing _ stack _ => .list :: stack.map Opening.nest

def Progress.IsRefused : Progress → Prop
  | .refused .. => True
  | _ => False

theorem deliver_around (form : Form) (stack : List Opening) (depth : Nat) :
    (deliver form stack depth).around = Nest.closeQuotes (stack.map Opening.nest) := by
  induction stack generalizing form depth with
  | nil => rfl
  | cons opening stack ih =>
      cases opening with
      | quote offset => exact ih (.quoted form) (depth - 1)
      | list offset items => rfl
      | tail dot items => rfl

theorem descend_around {limit : Int} {opening : Opening} {offset : Nat} {stack : List Opening}
    {depth : Nat} (h : ¬ (descend limit opening offset stack depth).IsRefused) :
    (descend limit opening offset stack depth).around =
      opening.nest :: stack.map Opening.nest := by
  unfold descend at h ⊢
  split at h
  · exact absurd trivial h
  · next hlimit => rw [if_neg hlimit, Progress.around, List.map_cons]

/-- A token that is not refused opens and closes what its kind says. -/
theorem shift_around {limit : Int} {stack : List Opening} {depth : Nat} {token : Token}
    {last : Bool} (h : ¬ (shift limit stack depth token last).IsRefused) :
    (shift limit stack depth token last).around =
      token.kind.behind (stack.map Opening.nest) := by
  revert h
  fun_cases shift limit stack depth token last with
  | case1 | case2 | case3 =>
      rw [‹token.kind = _›]
      exact fun _ => deliver_around ..
  | case4 | case9 =>
      rw [‹token.kind = _›]
      exact fun _ => rfl
  | case5 | case6 =>
      rw [‹token.kind = _›]
      exact descend_around
  | case7 hk offset items stack =>
      rw [hk]
      exact fun _ => deliver_around ..
  | case8 | case10 => exact fun h => absurd trivial h

theorem close_around {form : Form} {stack : List Opening} {depth : Nat} {token : Token}
    (h : ¬ (close form stack depth token).IsRefused) :
    token.kind = .rparen ∧
      (close form stack depth token).around = Nest.closeQuotes (stack.map Opening.nest) := by
  unfold close at h ⊢
  split at h
  · next hk =>
      rw [if_pos hk]
      exact ⟨hk, deliver_around ..⟩
  · exact absurd trivial h

theorem not_isRefused {limit : Int} {progress : Progress} {tokens : List Token} {form : Form}
    (h : (readOn limit progress tokens).outcome = .ok form) : ¬ progress.IsRefused := by
  cases progress with
  | refused refusal depth =>
      rw [readOn] at h
      cases h
  | _ => exact id

/-! ## Another limit -/

theorem descend_under {limit₀ : Int} (limit : Int) {opening : Opening} {offset : Nat}
    {stack : List Opening} {depth : Nat}
    (h : ¬ (descend limit₀ opening offset stack depth).IsRefused) :
    descend limit opening offset stack depth =
      if limit ≤ depth then refuse .tooDeep offset stack depth
      else descend limit₀ opening offset stack depth := by
  unfold descend at h ⊢
  split at h
  · exact absurd trivial h
  · next hlimit => rw [if_neg hlimit]

/-- Under another limit, a token is refused if it opens a list or a quote at the limit, and comes to
the same if it does not. -/
theorem shift_under {limit₀ : Int} (limit : Int) {stack : List Opening} {depth : Nat}
    {token : Token} (h : ¬ (shift limit₀ stack depth token false).IsRefused) :
    shift limit stack depth token false =
      if token.kind.nests = true ∧ limit ≤ depth then refuse .tooDeep token.offset stack depth
      else shift limit₀ stack depth token false := by
  cases hk : token.kind with
  | quote | lparen =>
      simp only [shift, hk, Token.Kind.nests, Bool.false_eq_true, if_false, true_and] at h ⊢
      exact descend_under limit h
  | number | symbol | string | rparen | dot =>
      simp only [shift, hk, Token.Kind.nests, Bool.false_eq_true, false_and, if_false]

/-- A reading that succeeds under one limit goes the same way under another one, unless it comes to
a token beyond that limit. -/
theorem readOn_under {limit₀ : Int} (limit : Int) {progress : Progress} {tokens : List Token}
    {form : Form} (hcounted : progress.Counted 0)
    (h : (readOn limit₀ progress tokens).outcome = .ok form) :
    (readOn limit progress tokens = readOn limit₀ progress tokens ∧
      firstBeyond limit progress.around tokens =
        firstBeyond limit [] (readOn limit₀ progress tokens).rest) ∨
    ∃ offset, firstBeyond limit progress.around tokens = some offset ∧
      (readOn limit progress tokens).outcome = .error ⟨.tooDeep, some offset, false⟩ := by
  fun_induction readOn limit₀ progress tokens with
  | case1 form depth rest => exact .inl ⟨by rw [readOn], rfl⟩
  | case2 | case3 | case4 | case5 => cases h
  | case6 stack depth token rest hends ih =>
      by_cases hlast : token.kind = .quote ∧ rest = []
      · obtain ⟨hk, rfl⟩ := hlast
        simp [shift, hk, readOn] at h
      · obtain rfl : depth = 0 + stack.length := hcounted
        rw [← shift_of_not_last hlast] at h ih ⊢
        have htaken := not_isRefused h
        have hfurther := ih (shift_counted ..) h
        rw [shift_around htaken] at hfurther
        have hlength : ((0 + stack.length : Nat) : Int) = (stack.map Opening.nest).length := by
          rw [List.length_map, Nat.zero_add]
        rw [readOn, hends]
        simp only [← shift_of_not_last hlast, shift_under limit htaken, Progress.around,
          firstBeyond_cons, hlength]
        by_cases hbeyond : token.kind.nests = true ∧ limit ≤ (stack.map Opening.nest).length
        · rw [if_pos hbeyond, if_pos hbeyond]
          exact .inr ⟨token.offset, rfl, by rw [refuse, readOn]⟩
        · rw [if_neg hbeyond, if_neg hbeyond]
          exact hfurther
  | case7 form stack depth token rest ih =>
      obtain ⟨hk, haround⟩ := close_around (not_isRefused h)
      obtain rfl : depth = 0 + (stack.length + 1) := hcounted
      have hfurther := ih (close_counted ..) h
      rw [haround] at hfurther
      rw [readOn, Progress.around, firstBeyond_cons, hk]
      exact hfurther

theorem readAll_under {limit₀ : Int} (limit : Int) {tokens : List Token} {forms : List Form}
    (h : readAll limit₀ tokens = .ok forms) :
    readAll limit tokens =
      match firstBeyond limit [] tokens with
      | none => .ok forms
      | some offset => .error ⟨.tooDeep, some offset, false⟩ := by
  fun_induction readAll limit₀ tokens generalizing forms with
  | case1 =>
      cases h
      exact readAll_nil limit
  | case2 => cases h
  | case3 token rest form hform ih =>
      have hstart : (Progress.reading [] 0).Counted 0 := rfl
      rw [readAll_cons]
      rcases readOn_under limit hstart hform with ⟨hsame, hfirst⟩ | ⟨offset, hfirst, hdeep⟩
      · cases hlater : readAll limit₀ (read limit₀ 0 (token :: rest)).rest with
        | error refusal =>
            rw [hlater] at h
            cases h
        | ok later =>
            rw [hlater] at h
            cases h
            have hread : read limit 0 (token :: rest) = read limit₀ 0 (token :: rest) := hsame
            have hfirst' : firstBeyond limit [] (token :: rest) =
                firstBeyond limit [] (read limit₀ 0 (token :: rest)).rest := hfirst
            rw [hread, hform, hfirst']
            show (readAll limit _).map _ = _
            rw [ih hlater]
            cases firstBeyond limit [] (read limit₀ 0 (token :: rest)).rest <;> rfl
      · have hread : (read limit 0 (token :: rest)).outcome = _ := hdeep
        have hfirst' : firstBeyond limit [] (token :: rest) = some offset := hfirst
        rw [hread, hfirst']

end Datum

/-! ## Sources -/

/-- **Reading under another limit.** A source is read as some forms under some limit. Then for every
limit: if no token of it opens a list or a quote with as many lists and quotes open around it as the
limit says, the source is read as the same forms, and otherwise it nests too deep, at the offset of
the first such token. A limit below zero stands for zero. -/
theorem parse_under_limit {limit₀ : Int} {source : List Char} {forms : List Form}
    (h : parse limit₀ source = .ok forms) (limit : Int) :
    parse limit source =
      match (nestings [] (lex source).tokens).find? (·.around = limit.toNat) with
      | none => .ok forms
      | some nesting => .error (.parse (.locate source .tooDeep nesting.offset)) := by
  have hlexed := (parse_eq_ok_iff.mp h).1
  rw [parse_eq_readAll hlexed] at h ⊢
  cases hread : Datum.readAll limit₀ (lex source).tokens with
  | error refusal =>
      rw [hread] at h
      cases h
  | ok forms' =>
      rw [hread] at h
      cases h
      rw [Datum.readAll_under limit hread, firstBeyond, find?_nestings (Nat.zero_le _)]
      cases (nestings [] (lex source).tokens).find? fun nesting => nesting.around = limit.toNat
        <;> rfl

/-- The quote mark in the second list is the first token with three around it. The lists before it
and the quotes behind it are all closed in between, so none has four around it. -/
theorem quotes_under_limits :
    let source := "((a) '('b) . '''c)".toList
    let forms := [Form.dotted [.list [.sym "a"], .quoted (.list [.quoted (.sym "b")])]
      (.quoted (.quoted (.quoted (.sym "c"))))]
    parse 9 source = .ok forms ∧ parse 4 source = .ok forms ∧
      parse 3 source = .error (.parse ⟨.tooDeep, 7, ⟨0, 7⟩⟩) := by
  intro source forms
  have hread : parse 9 source = .ok forms := by decide +kernel
  have hall : (nestings [] (lex source).tokens).find? (·.around = (4 : Int).toNat) = none := by
    decide +kernel
  have hfirst : (nestings [] (lex source).tokens).find? (·.around = (3 : Int).toNat) =
      some ⟨7, 3⟩ := by decide +kernel
  have hfour := parse_under_limit hread 4
  have hthree := parse_under_limit hread 3
  rw [hall] at hfour
  rw [hfirst] at hthree
  exact ⟨hread, hfour, hthree⟩

end TableLisp
