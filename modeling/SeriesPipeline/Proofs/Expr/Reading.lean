import SeriesPipeline.Proofs.Expr.Written

/-!
# Reading written expressions

Whoever reads the text of an expression gets that expression back. The parentheses that are left out
are those that the ranks of the operators make up for: an operator takes to its left all that binds
at least as tightly, and to its right what binds tighter.
-/

namespace SeriesPipeline

namespace BinaryOp

theorem rank_pos (op : BinaryOp) : 0 < op.rank := by
  cases op <;> decide

theorem rank_le (op : BinaryOp) : op.rank ≤ mul.rank := by
  cases op <;> decide

end BinaryOp

namespace Expr

variable {last fuel rank limit : Nat} {ts tail : Tokens} {e l r : Expr} {op : BinaryOp}

/-- No operator of a rank above `limit` comes first. -/
def EndsAt (limit : Nat) (tail : Tokens) : Prop :=
  ∀ op rest, operator? tail = some (op, rest) → op.rank ≤ limit

/-- The tokens are taken as `e` where operators of a rank above `rank` are, for every `rank` below
`limit`; after them, it goes on with `e` on the left. Each token needs fuel for three calls. -/
def IsTaken (limit : Nat) (us : List Token) (e : Expr) : Prop :=
  ∀ last fuel rank ts tail, ts.map Prod.snd = us → rank < limit → EndsAt limit tail →
    3 * us.length ≤ fuel →
    ∃ left, fuel ≤ left + 3 * us.length ∧
      expression last fuel rank (ts ++ tail) = extend last left rank e tail

theorem operator?_binaryToken (pos : Nat) (op : BinaryOp) (rest : Tokens) :
    operator? ((pos, binaryToken op) :: rest) = some (op, rest) := by
  cases op <;> rfl

theorem endsAt_nil : EndsAt limit [] := by
  rintro _ _ ⟨⟩

theorem endsAt_closeParen (pos : Nat) (rest : Tokens) :
    EndsAt limit ((pos, .closeParen) :: rest) := by
  rintro _ _ ⟨⟩

theorem EndsAt.mono {other : Nat} (h : EndsAt limit tail) (hle : limit ≤ other) :
    EndsAt other tail :=
  fun op rest hop => Nat.le_trans (h op rest hop) hle

/-! ## Extending to the right -/

theorem extend_of_endsAt (h : EndsAt rank tail) :
    extend last (fuel + 1) rank e tail = .ok (e, tail) := by
  rw [extend]
  cases hop : operator? tail with
  | none => rfl
  | some first =>
    obtain ⟨op, rest⟩ := first
    exact if_pos (h op rest hop)

theorem extend_binaryToken {pos : Nat} {rest : Tokens} (hrank : rank < op.rank)
    (hright : expression last fuel op.rank rest = .ok (r, tail)) :
    extend last (fuel + 1) rank l ((pos, binaryToken op) :: rest) =
      extend last fuel rank (.binary op l r) tail := by
  rw [extend, operator?_binaryToken]
  simp only [if_neg (Nat.not_le.2 hrank), hright]
  rfl

/-- Up to a token that ends it, an expression is read whole. -/
theorem IsTaken.expression_eq {us : List Token} (h : IsTaken limit us e)
    (hts : ts.map Prod.snd = us) (hrank : rank < limit) (htail : EndsAt rank tail)
    (hfuel : 3 * us.length < fuel) : expression last fuel rank (ts ++ tail) = .ok (e, tail) := by
  obtain ⟨left, hleft, heq⟩ :=
    h last fuel rank ts tail hts hrank (htail.mono (Nat.le_of_lt hrank)) (Nat.le_of_lt hfuel)
  obtain ⟨left, rfl⟩ : ∃ m, left = m + 1 := ⟨left - 1, by omega⟩
  rw [heq, extend_of_endsAt htail]

/-! ## Operands -/

theorem isTaken_of_operand {us : List Token} (hne : us ≠ [])
    (h : ∀ last fuel ts tail, ts.map Prod.snd = us → EndsAt limit tail →
      3 * us.length ≤ fuel + 2 → operand last (fuel + 1) (ts ++ tail) = .ok (e, tail)) :
    IsTaken limit us e := by
  intro last fuel rank ts tail hts _ htail hfuel
  have hlength : 0 < us.length := List.length_pos_iff.2 hne
  obtain ⟨fuel, rfl⟩ : ∃ m, fuel = m + 2 := ⟨fuel - 2, by omega⟩
  refine ⟨fuel + 1, by omega, ?_⟩
  rw [expression, h last fuel ts tail hts htail hfuel]
  rfl

theorem isTaken_token {t : Token} (h : ∀ last fuel pos tail,
    operand last (fuel + 1) ((pos, t) :: tail) = .ok (e, tail)) : IsTaken limit [t] e := by
  refine isTaken_of_operand (List.cons_ne_nil t []) fun last fuel ts tail hts _ _ => ?_
  obtain ⟨⟨pos, u⟩, rfl, rfl⟩ := List.map_eq_singleton_iff.1 hts
  exact h last fuel pos tail

/-- Parentheses hold an expression together. -/
theorem IsTaken.parenthesized {us : List Token} (hlimit : 0 < limit) (h : IsTaken limit us e)
    (other : Nat) : IsTaken other (.openParen :: (us ++ [.closeParen])) e := by
  refine isTaken_of_operand (List.cons_ne_nil _ _) fun last fuel ts tail hts _ hfuel => ?_
  obtain ⟨⟨start, _⟩, ts, rfl, rfl, hrest⟩ := List.map_eq_cons_iff.1 hts
  obtain ⟨inside, close, rfl, hinside, hclose⟩ := List.map_eq_append_iff.1 hrest
  obtain ⟨⟨stop, _⟩, rfl, rfl⟩ := List.map_eq_singleton_iff.1 hclose
  simp only [List.length_cons, List.length_append, List.length_nil] at hfuel
  have hread : expression last fuel 0 (inside ++ (stop, .closeParen) :: tail) =
      .ok (e, (stop, .closeParen) :: tail) :=
    h.expression_eq hinside hlimit (endsAt_closeParen stop tail) (by omega)
  rw [List.cons_append, List.append_assoc, operand]
  simp only [List.singleton_append, hread]
  rfl

theorem IsTaken.enclosed {us : List Token} (hlimit : 0 < limit) (h : IsTaken limit us e)
    (needed : Bool) :
    IsTaken (if needed then BinaryOp.mul.rank + 1 else limit)
      (Expr.enclosed .openParen .closeParen needed us) e := by
  cases needed with
  | false => exact h
  | true => exact h.parenthesized hlimit _

/-- A unary operator takes what binds tighter than this. -/
def unaryRank : UnaryOp → Nat
  | .neg => BinaryOp.mul.rank
  | .not => BinaryOp.and.rank

theorem operand_unaryToken {pos : Nat} {uop : UnaryOp}
    (h : expression last fuel (unaryRank uop) ts = .ok (e, tail)) :
    operand last (fuel + 1) ((pos, unaryToken uop) :: ts) = .ok (.unary uop e, tail) := by
  cases uop with
  | neg =>
    rw [unaryToken, operand]
    simp only [show expression last fuel BinaryOp.mul.rank ts = _ from h]
    rfl
  | not =>
    rw [unaryToken, operand]
    simp only [show expression last fuel BinaryOp.and.rank ts = _ from h]
    rfl

theorem isTaken_unary {us : List Token} (uop : UnaryOp) (hlimit : unaryRank uop < limit)
    (h : IsTaken limit us e) : IsTaken (unaryRank uop) (unaryToken uop :: us) (.unary uop e) := by
  refine isTaken_of_operand (List.cons_ne_nil _ _) fun last fuel ts tail hts htail hfuel => ?_
  obtain ⟨⟨pos, _⟩, ts, rfl, rfl, hinside⟩ := List.map_eq_cons_iff.1 hts
  rw [List.length_cons] at hfuel
  exact operand_unaryToken (h.expression_eq hinside hlimit htail (by omega))

theorem isTaken_binary {us vs : List Token} {left right : Nat} (hl : IsTaken left us l)
    (hr : IsTaken right vs r) (hleft : op.rank ≤ left) (hright : op.rank < right) :
    IsTaken op.rank (us ++ binaryToken op :: vs) (.binary op l r) := by
  intro last fuel rank ts tail hts hrank htail hfuel
  obtain ⟨first, ts, rfl, hfirst, hrest⟩ := List.map_eq_append_iff.1 hts
  obtain ⟨⟨pos, _⟩, second, rfl, rfl, hsecond⟩ := List.map_eq_cons_iff.1 hrest
  simp only [List.length_append, List.length_cons] at hfuel ⊢
  have hends : EndsAt left ((pos, binaryToken op) :: (second ++ tail)) := by
    intro other rest hother
    cases (operator?_binaryToken pos op _).symm.trans hother
    exact hleft
  obtain ⟨m, hm, hexpression⟩ :=
    hl last fuel rank first _ hfirst (Nat.lt_of_lt_of_le hrank hleft) hends (by omega)
  obtain ⟨m, rfl⟩ : ∃ k, m = k + 1 := ⟨m - 1, by omega⟩
  refine ⟨m, by omega, ?_⟩
  rw [List.append_assoc, List.cons_append, hexpression]
  exact extend_binaryToken hrank (hr.expression_eq hsecond hright htail (by omega))

/-! ## Expressions -/

theorem rank_pos (e : Expr) : 0 < e.rank := by
  cases e with
  | binary op => exact op.rank_pos
  | _ => exact Nat.succ_pos _

theorem rank_of_isBinary_eq_false (h : e.isBinary = false) : e.rank = BinaryOp.mul.rank + 1 := by
  cases e with
  | binary => cases h
  | _ => rfl

theorem unaryRank_le (uop : UnaryOp) : 0 < unaryRank uop ∧ unaryRank uop ≤ BinaryOp.mul.rank := by
  cases uop <;> decide

/-- Wherever an expression may stand without parentheses, it is taken whole. -/
theorem isTaken_tokens (he : e.Writable) : IsTaken e.rank e.tokens e := by
  induction e with
  | literal v =>
    cases v with
    | int n => exact isTaken_token fun _ _ _ _ => rfl
    | bool b => exact isTaken_token fun _ _ _ _ => rfl
    | text s => exact isTaken_token fun _ _ _ _ => rfl
    | null | float _ => exact he.elim
  | ident name => exact isTaken_token fun _ _ _ _ => rfl
  | unary uop e ih =>
    obtain ⟨hpos, hle⟩ := unaryRank_le uop
    refine (isTaken_unary uop ?_ ((ih he).enclosed (rank_pos e) _)).parenthesized hpos _
    split
    · exact Nat.lt_succ_of_le hle
    · rename_i hbinary
      rw [rank_of_isBinary_eq_false (Bool.eq_false_iff.2 hbinary)]
      exact Nat.lt_succ_of_le hle
  | binary op l r ihl ihr =>
    refine isTaken_binary ((ihl he.1).enclosed (rank_pos l) _) ((ihr he.2).enclosed (rank_pos r) _)
      ?_ ?_
    · split
      · exact Nat.le_succ_of_le op.rank_le
      · rename_i hloose
        exact Nat.not_lt.1 fun h => hloose (decide_eq_true h)
    · split
      · exact Nat.lt_succ_of_le op.rank_le
      · rename_i hloose
        exact Nat.not_le.1 fun h => hloose (decide_eq_true h)

theorem ofTokens_tokens (he : e.Writable) (hts : ts.map Prod.snd = e.tokens) :
    ofTokens ts = .ok e := by
  have hlength : ts.length = e.tokens.length := by rw [← hts, List.length_map]
  have hread (last : Nat) : expression last (3 * ts.length + 3) 0 (ts ++ []) = .ok (e, []) :=
    (isTaken_tokens he).expression_eq hts (rank_pos e) endsAt_nil (by omega)
  rw [List.append_nil] at hread
  rw [ofTokens]
  cases hlast : ts.getLast? with
  | none =>
    rw [List.getLast?_eq_none_iff.1 hlast] at hread
    cases hread 0
  | some first =>
    simp only [hread]
    rfl

end Expr

/-- Any expression is read back from its text: the parentheses that are left out are not missed. -/
theorem Formula.parse_written (e : Expr) (he : e.Writable) :
    Formula.parse e.text = .ok ⟨Text.trim e.text, e⟩ := by
  have hscans : Token.Scans (Token.utf8Length e.chars) (e.chars ++ []) (e.tokens ++ []) :=
    Token.scans_chars he Token.endsWord_nil Token.scans_nil
  rw [List.append_nil, List.append_nil] at hscans
  obtain ⟨placed, hscan, hplaced⟩ := hscans
  calc Formula.parse e.text
      = (Expr.ofTokens placed).bind fun root => .ok ⟨Text.trim e.text, root⟩ := by
        rw [Formula.parse, Expr.text, String.toList_ofList, Token.scan, hscan]
        rfl
    _ = .ok ⟨Text.trim e.text, e⟩ := by
        rw [Expr.ofTokens_tokens he hplaced]
        rfl

/-- Quotes within quotes, a name that is a keyword, and a right side of the rank of its operator. -/
theorem Formula.parse_written_nested :
    let e : Expr := .binary .and
      (.unary .not (.binary .eq (.ident "a\"b.\\") (.literal (.text "it's é"))))
      (.binary .lt (.binary .sub (.ident "AND") (.binary .sub (.literal (.int 9223372036854775807))
        (.unary .neg (.literal (.int 0))))) (.literal (.bool true)))
    let source := "(NOT (\"a\\\"b.\\\\\" == 'it\\'s é')) AND " ++
      "\"AND\" - (9223372036854775807 - (-0)) < true"
    e.Writable ∧ e.text = source ∧ (Formula.parse source).map (·.root) = .ok e := by
  intro e source
  have he : e.Writable :=
    ⟨⟨trivial, trivial⟩, ⟨trivial, (by decide : (0 : Int) ≤ 9223372036854775807),
      (by decide : (0 : Int) ≤ 0)⟩, trivial⟩
  have htext : e.text = source := by decide +kernel
  refine ⟨he, htext, ?_⟩
  rw [← htext, Formula.parse_written e he]
  rfl

end SeriesPipeline
