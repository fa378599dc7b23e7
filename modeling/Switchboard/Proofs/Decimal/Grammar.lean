import Switchboard.Decimal.Expression
import Switchboard.Proofs.Script.Nesting

/-!
# Switchboard.Proofs.Decimal.Grammar

The sentences of the expression language, and what they denote.

```
sum     ::= product (('+' | '-') product)*
product ::= unary (('*' | '/' | '#') unary)*
unary   ::= ('-' | '+') unary | number | '(' sum ')'
```

1. `Reads p ts t rest` says that the front of `ts` is a part `p` of the
   grammar with the parse tree `t`, and that `rest` is left over. The repeated
   operands of a sum or a product are grouped from the left.
2. A sentence is a sum that leaves nothing over. It has one tree only.
3. The value of a tree is computed from its leaves: a literal is cut to the
   cap, and each operation is carried out at the cap.
-/

namespace Switchboard.Decimal

/-! ## trees -/

/-- What an expression says, with its grouping made explicit. -/
inductive Tree where
  | literal (value : Decimal)
  | minus (operand : Tree)
  | plus (operand : Tree)
  | group (inner : Tree)
  | apply (left : Tree) (op : Operator) (right : Tree)
deriving Repr, DecidableEq

/-- The value of a tree, no operation keeping more than `cap` places. Of two
operands the left one is computed first. -/
def Tree.value (cap : Nat) : Tree → Except Error Decimal
  | .literal d => d.capped cap
  | .minus t => do
    let v ← t.value cap
    zero.binary .sub v cap
  | .plus t => t.value cap
  | .group t => t.value cap
  | .apply l op r => do
    let a ← l.value cap
    let b ← r.value cap
    a.binary op b cap

/-- An operation gives no more places than its cap. -/
theorem scale_of_binary {a b v : Decimal} {op : Operator} {cap : Nat}
    (h : a.binary op b cap = .ok v) : v.scale ≤ cap := by
  obtain ⟨x, -, h⟩ := ok_of_bind h
  obtain ⟨y, -, h⟩ := ok_of_bind h
  obtain ⟨units, -, h⟩ := ok_of_bind h
  cases h
  exact Nat.min_le_right _ _

/-- A number brought to a scale has that scale. -/
theorem scale_of_rescale {d v : Decimal} {scale : Nat} (h : d.rescale scale = .ok v) :
    v.scale = scale := by
  rw [rescale] at h
  split at h
  · cases hc : checked (d.units * power (scale - d.scale)) with
    | error e => simp [hc, Except.map] at h
    | ok n => rw [hc] at h; cases h; rfl
  · cases h; rfl

/-- The value of a tree has no more places than the cap. -/
theorem Tree.scale_of_value {t : Tree} {cap : Nat} {v : Decimal} (h : t.value cap = .ok v) :
    v.scale ≤ cap := by
  induction t with
  | literal d =>
      rw [scale_of_rescale h]
      exact Nat.min_le_right _ _
  | minus t _ =>
      obtain ⟨w, -, h⟩ := ok_of_bind h
      exact scale_of_binary h
  | plus t ih => exact ih h
  | group t ih => exact ih h
  | apply l op r _ _ =>
      obtain ⟨a, -, h⟩ := ok_of_bind h
      obtain ⟨b, -, h⟩ := ok_of_bind h
      exact scale_of_binary h

/-! ## derivations -/

/-- The parts of an expression: those the grammar names, and the operands that
follow the front of a sum or of a product. -/
inductive Part where
  | sum
  | terms (front : Tree)
  | product
  | factors (front : Tree)
  | unary

/-- The front of a list of tokens is a part with a tree, and the rest is left
over. There is one rule for each alternative of the grammar, and two for each
repetition: there is no further operand, or there is one. -/
inductive Reads : Part → List Token → Tree → List Token → Prop where
  | sum (first : Reads .product ts l mid) (others : Reads (.terms l) mid t rest) :
      Reads .sum ts t rest
  | noTerm : Reads (.terms l) ts l ts
  | term (additive : op.isAdditive = true) (operand : Reads .product ts r mid)
      (others : Reads (.terms (.apply l op r)) mid t rest) :
      Reads (.terms l) (.operator op :: ts) t rest
  | product (first : Reads .unary ts l mid) (others : Reads (.factors l) mid t rest) :
      Reads .product ts t rest
  | noFactor : Reads (.factors l) ts l ts
  | factor (multiplicative : op.isAdditive = false) (operand : Reads .unary ts r mid)
      (others : Reads (.factors (.apply l op r)) mid t rest) :
      Reads (.factors l) (.operator op :: ts) t rest
  | minus (operand : Reads .unary ts t rest) :
      Reads .unary (.operator .sub :: ts) (.minus t) rest
  | plus (operand : Reads .unary ts t rest) :
      Reads .unary (.operator .add :: ts) (.plus t) rest
  | literal : Reads .unary (.number d :: ts) (.literal d) ts
  | group (inner : Reads .sum ts t (.closing :: rest)) :
      Reads .unary (.opening :: ts) (.group t) rest

/-- A list of tokens that is a sum as a whole. -/
def Sentence (ts : List Token) (t : Tree) : Prop := Reads .sum ts t []

/-- What is left over is the end of what was there. -/
theorem Reads.suffix {p : Part} {ts rest : List Token} {t : Tree} (h : Reads p ts t rest) :
    rest <:+ ts := by
  induction h with
  | noTerm | noFactor => exact List.suffix_rfl
  | literal => exact List.suffix_cons _ _
  | sum _ _ hfirst hothers => exact hothers.trans hfirst
  | product _ _ hfirst hothers => exact hothers.trans hfirst
  | term _ _ _ hoperand hothers =>
      exact (hothers.trans hoperand).trans (List.suffix_cons _ _)
  | factor _ _ _ hoperand hothers =>
      exact (hothers.trans hoperand).trans (List.suffix_cons _ _)
  | minus _ hoperand => exact hoperand.trans (List.suffix_cons _ _)
  | plus _ hoperand => exact hoperand.trans (List.suffix_cons _ _)
  | group _ hinner =>
      exact ((List.suffix_cons _ _).trans hinner).trans (List.suffix_cons _ _)

/-- How many tokens a part takes at least. -/
def Part.least : Part → Nat
  | .terms _ | .factors _ => 0
  | _ => 1

/-- A part takes its tokens from the front. -/
theorem Reads.length {p : Part} {ts rest : List Token} {t : Tree} (h : Reads p ts t rest) :
    rest.length + p.least ≤ ts.length := by
  induction h <;> simp only [Part.least, List.length_cons] at * <;> omega

/-! ## one more operand at the end -/

/-- A sum that an additive operator follows goes on with the product behind it. -/
theorem Reads.term_after {p : Part} {ts mid rest : List Token} {l r : Tree} {op : Operator}
    (h : Reads p ts l (.operator op :: mid)) (hp : p = .sum ∨ ∃ front, p = .terms front)
    (hadditive : op.isAdditive = true) (hoperand : Reads .product mid r rest) :
    Reads p ts (.apply l op r) rest := by
  generalize hm : Token.operator op :: mid = after at h
  induction h with
  | noTerm =>
      subst hm
      exact .term hadditive hoperand .noTerm
  | sum hfirst _ _ hothers => exact .sum hfirst (hothers (.inr ⟨_, rfl⟩) hm)
  | term ha hfirst _ _ hothers => exact .term ha hfirst (hothers (.inr ⟨_, rfl⟩) hm)
  | _ => simp at hp

/-- A product that a multiplicative operator follows goes on with the operand behind it. -/
theorem Reads.factor_after {p : Part} {ts mid rest : List Token} {l r : Tree} {op : Operator}
    (h : Reads p ts l (.operator op :: mid)) (hp : p = .product ∨ ∃ front, p = .factors front)
    (hmultiplicative : op.isAdditive = false) (hoperand : Reads .unary mid r rest) :
    Reads p ts (.apply l op r) rest := by
  generalize hm : Token.operator op :: mid = after at h
  induction h with
  | noFactor =>
      subst hm
      exact .factor hmultiplicative hoperand .noFactor
  | product hfirst _ _ hothers => exact .product hfirst (hothers (.inr ⟨_, rfl⟩) hm)
  | factor ha hfirst _ _ hothers => exact .factor ha hfirst (hothers (.inr ⟨_, rfl⟩) hm)
  | _ => simp at hp

/-! ## one tree only -/

/-- No additive operator is next. -/
def NoTerm (ts : List Token) : Prop := ∀ op rest, ts = .operator op :: rest → op.isAdditive = false

/-- No multiplicative operator is next. -/
def NoFactor (ts : List Token) : Prop := ∀ op rest, ts = .operator op :: rest → op.isAdditive = true

theorem noTerm_or (ts : List Token) :
    NoTerm ts ∨ ∃ op rest, ts = .operator op :: rest ∧ op.isAdditive = true := by
  match ts with
  | .operator op :: rest =>
    cases h : op.isAdditive with
    | true => exact .inr ⟨op, rest, rfl, h⟩
    | false => exact .inl fun _ _ he => by cases he; exact h
  | [] | .number _ :: _ | .opening :: _ | .closing :: _ => exact .inl fun _ _ he => by simp at he

theorem noFactor_or (ts : List Token) :
    NoFactor ts ∨ ∃ op rest, ts = .operator op :: rest ∧ op.isAdditive = false := by
  match ts with
  | .operator op :: rest =>
    cases h : op.isAdditive with
    | true => exact .inl fun _ _ he => by cases he; exact h
    | false => exact .inr ⟨op, rest, rfl, h⟩
  | [] | .number _ :: _ | .opening :: _ | .closing :: _ => exact .inl fun _ _ he => by simp at he

/-- A part that cannot be read any further than up to `rest`. -/
def Part.Ends : Part → List Token → Prop
  | .sum, rest | .terms _, rest => NoTerm rest ∧ NoFactor rest
  | .product, rest | .factors _, rest => NoFactor rest
  | .unary, _ => True

/-- What follows a product within a sum is no further factor of it. -/
theorem Reads.noFactor_of_terms {l t : Tree} {ts rest : List Token}
    (h : Reads (.terms l) ts t rest) (hr : NoFactor rest) : NoFactor ts := by
  cases h with
  | noTerm => exact hr
  | term hadditive _ _ =>
      intro op after h
      cases h
      exact hadditive

/-- The front of a list that is a part and cannot be read further is one part
with one tree: a case per rule, the other reading being by the same rule. -/
theorem Reads.unique {p : Part} {ts rest rest' : List Token} {t t' : Tree}
    (h : Reads p ts t rest) (h' : Reads p ts t' rest') (he : p.Ends rest) (he' : p.Ends rest') :
    t' = t ∧ rest' = rest := by
  induction h generalizing t' rest' with
  | sum hfirst hothers ih ihs =>
      cases h' with
      | sum hfirst' hothers' =>
          obtain ⟨rfl, rfl⟩ :=
            ih hfirst' (hothers.noFactor_of_terms he.2) (hothers'.noFactor_of_terms he'.2)
          exact ihs hothers' he he'
  | noTerm =>
      cases h' with
      | noTerm => exact ⟨rfl, rfl⟩
      | term hadditive _ _ => simp [he.1 _ _ rfl] at hadditive
  | term hadditive hoperand hothers ih ihs =>
      cases h' with
      | noTerm => simp [he'.1 _ _ rfl] at hadditive
      | term _ hoperand' hothers' =>
          obtain ⟨rfl, rfl⟩ :=
            ih hoperand' (hothers.noFactor_of_terms he.2) (hothers'.noFactor_of_terms he'.2)
          exact ihs hothers' he he'
  | product hfirst hothers ih ihs =>
      cases h' with
      | product hfirst' hothers' =>
          obtain ⟨rfl, rfl⟩ := ih hfirst' trivial trivial
          exact ihs hothers' he he'
  | noFactor =>
      cases h' with
      | noFactor => exact ⟨rfl, rfl⟩
      | factor hmultiplicative _ _ => simp [he _ _ rfl] at hmultiplicative
  | factor hmultiplicative hoperand hothers ih ihs =>
      cases h' with
      | noFactor => simp [he' _ _ rfl] at hmultiplicative
      | factor _ hoperand' hothers' =>
          obtain ⟨rfl, rfl⟩ := ih hoperand' trivial trivial
          exact ihs hothers' he he'
  | minus hoperand ih =>
      cases h' with
      | minus hoperand' =>
          obtain ⟨rfl, rfl⟩ := ih hoperand' trivial trivial
          exact ⟨rfl, rfl⟩
  | plus hoperand ih =>
      cases h' with
      | plus hoperand' =>
          obtain ⟨rfl, rfl⟩ := ih hoperand' trivial trivial
          exact ⟨rfl, rfl⟩
  | literal =>
      cases h' with
      | literal => exact ⟨rfl, rfl⟩
  | group hinner ih =>
      have hends (rest : List Token) : Part.sum.Ends (.closing :: rest) :=
        ⟨fun _ _ h => by simp at h, fun _ _ h => by simp at h⟩
      cases h' with
      | group hinner' =>
          obtain ⟨rfl, hr⟩ := ih hinner' (hends _) (hends _)
          cases hr
          exact ⟨rfl, rfl⟩

/-- A sentence has one tree. -/
theorem Sentence.unique {ts : List Token} {t t' : Tree} (h : Sentence ts t) (h' : Sentence ts t') :
    t' = t :=
  have hends : Part.sum.Ends [] := ⟨fun _ _ h => by simp at h, fun _ _ h => by simp at h⟩
  (Reads.unique h h' hends hends).1

end Switchboard.Decimal
