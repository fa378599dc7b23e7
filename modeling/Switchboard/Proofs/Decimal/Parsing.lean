import Switchboard.Proofs.Decimal.Grammar

/-!
# Switchboard.Proofs.Decimal.Parsing

Reading tokens, against the grammar.

1. A reader of a part takes what the grammar derives from the front of the
   tokens, computes its value, and goes on as if it had read a front of that
   value (`Reads.read_eq`).
2. `Due` says which parts a reading comes to, and `Comes` which operations it
   carries out, in terms of the grammar alone.
3. Whatever a reader answers has its reason in the grammar: a value is that of
   a tree, and an error is one of form, a literal that does not fit, or an
   operation that fails (`sum_explained`).
4. So the value of a list of tokens is the value of its tree, and an error of
   arithmetic is that of an operation that the reading comes to.
-/

namespace Switchboard.Decimal

/-! ## readers -/

/-- What a reader found: the value and what is left over. -/
def Read.shown {ts : List Token} (r : Read ts) : Decimal × List Token := (r.value, r.rest)

/-- What a reader found that goes on from a value. -/
def Carried.shown {ts : List Token} (r : Carried ts) : Decimal × List Token := (r.value, r.rest)

/-- Go on with a part of which a front of some value has been read. -/
def Part.resume (cap : Nat) : Part → Decimal × List Token → Except Error (Decimal × List Token)
  | .sum, (v, ts) | .terms _, (v, ts) => (sumFrom cap v ts).map Carried.shown
  | .product, (v, ts) | .factors _, (v, ts) => (productFrom cap v ts).map Carried.shown
  | .unary, (v, ts) => .ok (v, ts)

/-- Read a part. -/
def Part.read (cap : Nat) : Part → List Token → Except Error (Decimal × List Token)
  | .sum, ts => (Decimal.sum cap ts).map Read.shown
  | .terms l, ts => do
    let v ← l.value cap
    Part.sum.resume cap (v, ts)
  | .product, ts => (Decimal.product cap ts).map Read.shown
  | .factors l, ts => do
    let v ← l.value cap
    Part.product.resume cap (v, ts)
  | .unary, ts => (Decimal.unary cap ts).map Read.shown

/-- The parenthesis at the end of a group. -/
def closed : Decimal × List Token → Except Error (Decimal × List Token)
  | (v, .closing :: rest) => .ok (v, rest)
  | _ => .error (.malformed .unclosed)

variable {cap : Nat}

/-- A sum is a product, and the terms that follow. -/
theorem read_sum (ts : List Token) :
    Part.sum.read cap ts = Part.product.read cap ts >>= Part.sum.resume cap := by
  simp only [Part.read, bind]
  rw [Decimal.sum]
  cases Decimal.product cap ts with
  | error e => rfl
  | ok first =>
      simp only [Except.map, Except.bind, Read.shown, Part.resume]
      cases sumFrom cap first.value first.rest with
      | error e => rfl
      | ok r => rfl

/-- A product is a factor, and the factors that follow. -/
theorem read_product (ts : List Token) :
    Part.product.read cap ts = Part.unary.read cap ts >>= Part.product.resume cap := by
  simp only [Part.read, bind]
  rw [Decimal.product]
  cases Decimal.unary cap ts with
  | error e => rfl
  | ok first =>
      simp only [Except.map, Except.bind, Read.shown, Part.resume]
      cases productFrom cap first.value first.rest with
      | error e => rfl
      | ok r => rfl

/-- A sum goes on with `+` or `-` and the next product. -/
theorem resume_term {op : Operator} (hadditive : op.isAdditive = true) (v : Decimal)
    (ts : List Token) :
    Part.sum.resume cap (v, .operator op :: ts) = (do
      let (w, rest) ← Part.product.read cap ts
      let total ← v.binary op w cap
      Part.sum.resume cap (total, rest)) := by
  simp only [Part.read, Part.resume, bind]
  rw [sumFrom, if_pos hadditive]
  cases Decimal.product cap ts with
  | error e => rfl
  | ok term =>
      simp only [Except.map, Except.bind, Read.shown]
      cases v.binary op term.value cap with
      | error e => rfl
      | ok total =>
          simp only
          cases sumFrom cap total term.rest with
          | error e => rfl
          | ok r => rfl

/-- A product goes on with another operator and the next factor. -/
theorem resume_factor {op : Operator} (hmultiplicative : op.isAdditive = false) (v : Decimal)
    (ts : List Token) :
    Part.product.resume cap (v, .operator op :: ts) = (do
      let (w, rest) ← Part.unary.read cap ts
      let total ← v.binary op w cap
      Part.product.resume cap (total, rest)) := by
  simp only [Part.read, Part.resume, bind]
  rw [productFrom, hmultiplicative, if_neg Bool.false_ne_true]
  cases Decimal.unary cap ts with
  | error e => rfl
  | ok factor =>
      simp only [Except.map, Except.bind, Read.shown]
      cases v.binary op factor.value cap with
      | error e => rfl
      | ok total =>
          simp only
          cases productFrom cap total factor.rest with
          | error e => rfl
          | ok r => rfl

/-- A sum ends where no term follows. -/
theorem resume_noTerm {ts : List Token} (h : NoTerm ts) (v : Decimal) :
    Part.sum.resume cap (v, ts) = .ok (v, ts) := by
  rw [Part.resume, sumFrom.eq_def]
  split
  · next op rest => rw [h op rest rfl]; rfl
  · rfl

/-- A product ends where no factor follows. -/
theorem resume_noFactor {ts : List Token} (h : NoFactor ts) (v : Decimal) :
    Part.product.resume cap (v, ts) = .ok (v, ts) := by
  rw [Part.resume, productFrom.eq_def]
  split
  · next op rest => rw [h op rest rfl]; rfl
  · rfl

/-- A minus sign takes what follows from nought. -/
theorem read_minus (ts : List Token) :
    Part.unary.read cap (.operator .sub :: ts) = (do
      let (v, rest) ← Part.unary.read cap ts
      let negated ← zero.binary .sub v (max cap v.scale)
      return (negated, rest)) := by
  simp only [Part.read, bind]
  rw [Decimal.unary]
  cases Decimal.unary cap ts with
  | error e => rfl
  | ok r =>
      simp only [Except.map, Except.bind, Read.shown]
      cases zero.binary .sub r.value (max cap r.value.scale) with
      | error e => rfl
      | ok v => rfl

/-- A plus sign is passed over. -/
theorem read_plus (ts : List Token) :
    Part.unary.read cap (.operator .add :: ts) = Part.unary.read cap ts := by
  simp only [Part.read]
  rw [Decimal.unary]
  cases Decimal.unary cap ts with
  | error e => rfl
  | ok r => rfl

/-- A number is read as it is, but for the cap of its scale. -/
theorem read_literal (d : Decimal) (ts : List Token) :
    Part.unary.read cap (.number d :: ts) = (d.capped cap).map fun v => (v, ts) := by
  simp only [Part.read]
  rw [Decimal.unary]
  cases d.capped cap with
  | error e => rfl
  | ok v => rfl

/-- A group is a sum with its closing parenthesis. -/
theorem read_group (ts : List Token) :
    Part.unary.read cap (.opening :: ts) = Part.sum.read cap ts >>= closed := by
  simp only [Part.read, bind]
  rw [Decimal.unary]
  cases Decimal.sum cap ts with
  | error e => rfl
  | ok r =>
      obtain ⟨v, rest, hshorter⟩ := r
      cases rest with
      | nil => rfl
      | cons t others => cases t <;> rfl

/-! ## what the grammar derives is read -/

/-- What may follow a part for its readers to stop there or go on: a product
that is a term must be complete. -/
def Part.Follows : Part → List Token → Prop
  | .sum, rest | .terms _, rest => NoFactor rest
  | _, _ => True

/-- A product that is complete is read, and nothing behind it. -/
theorem resume_complete {rest : List Token} (h : NoFactor rest) (x : Except Error Decimal) :
    (x >>= fun v => Part.product.resume cap (v, rest)) = x.map fun v => (v, rest) := by
  cases x with
  | error e => rfl
  | ok v => exact resume_noFactor h v

/-- An operator with its operand is applied, and the reading goes on from the result. -/
theorem resume_apply {p q : Part} {op : Operator} {ts mid : List Token} {l r : Tree}
    (hresume : ∀ a, p.resume cap (a, .operator op :: ts) = (do
      let (w, rest) ← q.read cap ts
      let total ← a.binary op w cap
      p.resume cap (total, rest)))
    (hread : q.read cap ts = (r.value cap).map fun v => (v, mid)) :
    (l.value cap >>= fun a => p.resume cap (a, .operator op :: ts)) =
      (Tree.apply l op r).value cap >>= fun v => p.resume cap (v, mid) := by
  simp only [Tree.value]
  cases l.value cap with
  | error e => rfl
  | ok a =>
      refine (hresume a).trans ?_
      rw [hread]
      cases r.value cap with
      | error e => rfl
      | ok b => rfl

/-- The readers compute the value of what the grammar derives, and go on from
there. By induction on the derivation, one rule after the other. -/
theorem Reads.read_eq {p : Part} {ts rest : List Token} {t : Tree} (h : Reads p ts t rest)
    (hr : p.Follows rest) :
    p.read cap ts = t.value cap >>= fun v => p.resume cap (v, rest) := by
  induction h with
  | noTerm | noFactor => rfl
  | @sum ts l mid t rest hfirst hothers ihf iho =>
      have hcomplete : NoFactor mid := hothers.noFactor_of_terms hr
      calc Part.sum.read cap ts
        _ = (l.value cap).map (fun v => (v, mid)) >>= Part.sum.resume cap := by
          rw [read_sum, ihf trivial, resume_complete hcomplete]
        _ = (Part.terms l).read cap mid := by
          rw [Part.read]
          cases l.value cap with
          | error e => rfl
          | ok v => rfl
        _ = _ := iho hr
  | @term ts r mid l op t rest hadditive hoperand hothers ihf iho =>
      have hcomplete : NoFactor mid := hothers.noFactor_of_terms hr
      have hread := (ihf trivial).trans (resume_complete hcomplete _)
      calc (Part.terms l).read cap (.operator op :: ts)
        _ = (Part.terms (.apply l op r)).read cap mid := by
          simp only [Part.read]
          exact resume_apply (resume_term hadditive · ts) hread
        _ = _ := iho hr
  | @product ts l mid t rest hfirst hothers ihf iho =>
      calc Part.product.read cap ts
        _ = (Part.factors l).read cap mid := by
          rw [read_product, ihf trivial, Part.read]
          cases l.value cap with
          | error e => rfl
          | ok v => rfl
        _ = _ := iho trivial
  | @factor ts r mid l op t rest hmultiplicative hoperand hothers ihf iho =>
      have hread : Part.unary.read cap ts = (r.value cap).map fun v => (v, mid) := by
        rw [ihf trivial]
        cases r.value cap with
        | error e => rfl
        | ok v => rfl
      calc (Part.factors l).read cap (.operator op :: ts)
        _ = (Part.factors (.apply l op r)).read cap mid := by
          simp only [Part.read]
          exact resume_apply (resume_factor hmultiplicative · ts) hread
        _ = _ := iho trivial
  | @minus ts t rest hoperand ih =>
      rw [read_minus, ih trivial]
      simp only [Part.resume, Tree.value]
      cases ht : t.value cap with
      | error e => rfl
      | ok v =>
          have hs : max cap v.scale = cap := Nat.max_eq_left (Tree.scale_of_value ht)
          show (zero.binary .sub v (max cap v.scale) >>= _) = _
          rw [hs]
          rfl
  | plus hoperand ih => rw [read_plus, ih trivial]; rfl
  | @literal d ts =>
      rw [read_literal]
      simp only [Part.resume, Tree.value]
      cases d.capped cap with
      | error e => rfl
      | ok v => rfl
  | @group ts t rest hinner ih =>
      have hstop : NoFactor (.closing :: rest) := fun _ _ h => by simp at h
      have hlast : NoTerm (.closing :: rest) := fun _ _ h => by simp at h
      rw [read_group, ih hstop]
      simp only [Tree.value]
      cases t.value cap with
      | error e => rfl
      | ok v =>
          show (Part.sum.resume cap (v, .closing :: rest) >>= closed) = _
          rw [resume_noTerm hlast]
          rfl

/-! ## what a reading comes to -/

/-- Reading the tokens `whole` comes to the reading of a part at `ts`: every
operation before has a value. -/
inductive Due (cap : Nat) (whole : List Token) : Part → List Token → Prop where
  | start : Due cap whole .sum whole
  | product (due : Due cap whole .sum ts) : Due cap whole .product ts
  | unary (due : Due cap whole .product ts) : Due cap whole .unary ts
  | term (due : Due cap whole .sum ts) (front : Reads .sum ts l (.operator op :: mid))
      (additive : op.isAdditive = true) (value : l.value cap = .ok a) : Due cap whole .product mid
  | factor (due : Due cap whole .product ts) (front : Reads .product ts l (.operator op :: mid))
      (multiplicative : op.isAdditive = false) (value : l.value cap = .ok a) :
      Due cap whole .unary mid
  | sign (due : Due cap whole .unary (.operator op :: ts)) (additive : op.isAdditive = true) :
      Due cap whole .unary ts
  | group (due : Due cap whole .unary (.opening :: ts)) : Due cap whole .sum ts

/-- Reading the tokens `whole` comes to the operation `a op b`: both operands
are read and have a value. A minus sign takes its operand from nought. -/
inductive Comes (cap : Nat) (whole : List Token) : Decimal → Operator → Decimal → Prop where
  | term (due : Due cap whole .sum ts) (front : Reads .sum ts l (.operator op :: mid))
      (additive : op.isAdditive = true) (left : l.value cap = .ok a)
      (operand : Reads .product mid r rest) (complete : NoFactor rest)
      (right : r.value cap = .ok b) : Comes cap whole a op b
  | factor (due : Due cap whole .product ts) (front : Reads .product ts l (.operator op :: mid))
      (multiplicative : op.isAdditive = false) (left : l.value cap = .ok a)
      (operand : Reads .unary mid r rest) (right : r.value cap = .ok b) : Comes cap whole a op b
  | minus (due : Due cap whole .unary (.operator .sub :: ts)) (operand : Reads .unary ts r rest)
      (right : r.value cap = .ok b) : Comes cap whole zero .sub b

/-- Why reading the tokens `whole` fails: by its form, by a literal that does
not fit, or by an operation. -/
inductive Fails (cap : Nat) (whole : List Token) : Error → Prop where
  | form (why : Malformed) : Fails cap whole (.malformed why)
  | literal (there : .number d ∈ whole) (unfit : d.capped cap = .error e) : Fails cap whole e
  | operation (comes : Comes cap whole a op b) (failed : a.binary op b cap = .error e) :
      Fails cap whole e

/-- An answer of a reader of the part `p` at `ts` that the grammar accounts for. -/
def Explained (cap : Nat) (whole : List Token) (p : Part) (ts : List Token) :
    Except Error (Decimal × List Token) → Prop
  | .ok (v, rest) => ∃ t, Reads p ts t rest ∧ t.value cap = .ok v ∧ p.Ends rest
  | .error e => Fails cap whole e

variable {whole : List Token}

/-- A part that reading comes to lies at the end of the tokens. -/
theorem Due.suffix {p : Part} {ts : List Token} (h : Due cap whole p ts) : ts <:+ whole := by
  induction h with
  | start => exact List.suffix_rfl
  | product _ ih | unary _ ih => exact ih
  | term _ hfront _ _ ih => exact ((List.suffix_cons _ _).trans hfront.suffix).trans ih
  | factor _ hfront _ _ ih => exact ((List.suffix_cons _ _).trans hfront.suffix).trans ih
  | sign _ _ ih | group _ ih => exact (List.suffix_cons _ _).trans ih

/-- No factor follows in front of `+` or `-`. -/
theorem NoFactor.of_additive {op : Operator} (h : op.isAdditive = true) (ts : List Token) :
    NoFactor (.operator op :: ts) := by
  intro op' rest he
  cases he
  exact h

/-! ## every answer is accounted for -/

mutual

/-- What reading a sum gives is explained by a tree, or by none. -/
theorem sum_explained (ts : List Token) (hdue : Due cap whole .sum ts) :
    Explained cap whole .sum ts (Part.sum.read cap ts) := by
  have hfirst := product_explained ts hdue.product
  rw [read_sum]
  cases hr : Part.product.read cap ts with
  | error e => rwa [hr] at hfirst
  | ok found =>
      rw [hr] at hfirst
      obtain ⟨l, hfront, hvalue, hcomplete⟩ := hfirst
      have hshorter : found.2.length < ts.length := hfront.length
      exact sumFrom_explained found.2 hdue (.sum hfront .noTerm) hvalue hcomplete
termination_by (ts.length, 3)

/-- The sum that has been read grows by one term at a time. -/
theorem sumFrom_explained (mid : List Token) {ts : List Token} {l : Tree} {a : Decimal}
    (hdue : Due cap whole .sum ts) (hfront : Reads .sum ts l mid) (hleft : l.value cap = .ok a)
    (hcomplete : NoFactor mid) : Explained cap whole .sum ts (Part.sum.resume cap (a, mid)) := by
  obtain hlast | ⟨op, rest, hm, hadditive⟩ := noTerm_or mid
  · rw [resume_noTerm hlast]
    exact ⟨l, hfront, hleft, hlast, hcomplete⟩
  · rw [hm] at hfront ⊢
    have hoperand := product_explained rest (.term hdue hfront hadditive hleft)
    rw [resume_term hadditive]
    cases hr : Part.product.read cap rest with
    | error e => rwa [hr] at hoperand
    | ok found =>
        rw [hr] at hoperand
        obtain ⟨b, after⟩ := found
        obtain ⟨r, hoperand, hright, hcomplete⟩ := hoperand
        simp only [bind, Except.bind]
        cases hv : a.binary op b cap with
        | error e =>
            exact .operation (.term hdue hfront hadditive hleft hoperand hcomplete hright) hv
        | ok total =>
            have hfront := hfront.term_after (.inl rfl) hadditive hoperand
            have hvalue : (Tree.apply l op r).value cap = .ok total := by
              simp only [Tree.value, hleft, hright, bind, Except.bind, hv]
            have hshorter : after.length < rest.length := hoperand.length
            have hbefore : mid.length = rest.length + 1 := by rw [hm]; rfl
            exact sumFrom_explained after hdue hfront hvalue hcomplete
termination_by (mid.length, 2)

/-- So is what reading a product gives. -/
theorem product_explained (ts : List Token) (hdue : Due cap whole .product ts) :
    Explained cap whole .product ts (Part.product.read cap ts) := by
  have hfirst := unary_explained ts hdue.unary
  rw [read_product]
  cases hr : Part.unary.read cap ts with
  | error e => rwa [hr] at hfirst
  | ok found =>
      rw [hr] at hfirst
      obtain ⟨l, hfront, hvalue, -⟩ := hfirst
      have hshorter : found.2.length < ts.length := hfront.length
      exact productFrom_explained found.2 hdue (.product hfront .noFactor) hvalue
termination_by (ts.length, 1)

/-- The product that has been read grows by one factor at a time. -/
theorem productFrom_explained (mid : List Token) {ts : List Token} {l : Tree} {a : Decimal}
    (hdue : Due cap whole .product ts) (hfront : Reads .product ts l mid)
    (hleft : l.value cap = .ok a) :
    Explained cap whole .product ts (Part.product.resume cap (a, mid)) := by
  obtain hcomplete | ⟨op, rest, hm, hmultiplicative⟩ := noFactor_or mid
  · rw [resume_noFactor hcomplete]
    exact ⟨l, hfront, hleft, hcomplete⟩
  · rw [hm] at hfront ⊢
    have hoperand := unary_explained rest (.factor hdue hfront hmultiplicative hleft)
    rw [resume_factor hmultiplicative]
    cases hr : Part.unary.read cap rest with
    | error e => rwa [hr] at hoperand
    | ok found =>
        rw [hr] at hoperand
        obtain ⟨b, after⟩ := found
        obtain ⟨r, hoperand, hright, -⟩ := hoperand
        simp only [bind, Except.bind]
        cases hv : a.binary op b cap with
        | error e => exact .operation (.factor hdue hfront hmultiplicative hleft hoperand hright) hv
        | ok total =>
            have hfront := hfront.factor_after (.inl rfl) hmultiplicative hoperand
            have hvalue : (Tree.apply l op r).value cap = .ok total := by
              simp only [Tree.value, hleft, hright, bind, Except.bind, hv]
            have hshorter : after.length < rest.length := hoperand.length
            have hbefore : mid.length = rest.length + 1 := by rw [hm]; rfl
            exact productFrom_explained after hdue hfront hvalue
termination_by (mid.length, 0)

/-- So is what reading a factor gives. -/
theorem unary_explained (ts : List Token) (hdue : Due cap whole .unary ts) :
    Explained cap whole .unary ts (Part.unary.read cap ts) := by
  match ts with
  | [] =>
    rw [Part.read, Decimal.unary]
    exact .form .unfinished
  | .operator .sub :: rest =>
    have hoperand := unary_explained rest (.sign hdue rfl)
    rw [read_minus]
    cases hr : Part.unary.read cap rest with
    | error e => rwa [hr] at hoperand
    | ok found =>
        rw [hr] at hoperand
        obtain ⟨b, after⟩ := found
        obtain ⟨r, hoperand, hright, -⟩ := hoperand
        have hs : max cap b.scale = cap := Nat.max_eq_left (Tree.scale_of_value hright)
        simp only [bind, Except.bind, hs]
        cases hv : zero.binary .sub b cap with
        | error e => exact .operation (.minus hdue hoperand hright) hv
        | ok v =>
            have hvalue : r.minus.value cap = .ok v := by
              simp only [Tree.value, hright, bind, Except.bind, hv]
            exact ⟨_, .minus hoperand, hvalue, trivial⟩
  | .operator .add :: rest =>
    have hoperand := unary_explained rest (.sign hdue rfl)
    rw [read_plus]
    cases hr : Part.unary.read cap rest with
    | error e => rwa [hr] at hoperand
    | ok found =>
        rw [hr] at hoperand
        obtain ⟨r, hoperand, hright, -⟩ := hoperand
        exact ⟨_, .plus hoperand, hright, trivial⟩
  | .number d :: rest =>
    rw [read_literal]
    cases hv : d.capped cap with
    | error e => exact .literal (hdue.suffix.subset (List.mem_cons_self ..)) hv
    | ok v => exact ⟨_, .literal, hv, trivial⟩
  | .opening :: rest =>
    have hinner := sum_explained rest (.group hdue)
    rw [read_group]
    cases hr : Part.sum.read cap rest with
    | error e => rwa [hr] at hinner
    | ok found =>
        rw [hr] at hinner
        obtain ⟨v, after⟩ := found
        obtain ⟨t, hinner, hvalue, -⟩ := hinner
        match after with
        | .closing :: after => exact ⟨_, .group hinner, hvalue, trivial⟩
        | [] | .number _ :: _ | .operator _ :: _ | .opening :: _ => exact .form .unclosed
  | .closing :: rest | .operator .mul :: rest | .operator .div :: rest | .operator .mod :: rest =>
    rw [Part.read, Decimal.unary] <;> first | exact .form _ | simp
termination_by (ts.length, 0)

end

/-! ## every operation is carried out -/

/-- A sum with a front that has a value is read on from that value. -/
theorem resume_front {op : Operator} {ts mid : List Token} {l : Tree} {a : Decimal}
    (hfront : Reads .sum ts l (.operator op :: mid)) (hadditive : op.isAdditive = true)
    (hleft : l.value cap = .ok a) :
    Part.sum.read cap ts = Part.sum.resume cap (a, .operator op :: mid) := by
  rw [hfront.read_eq (NoFactor.of_additive hadditive mid), hleft]
  rfl

/-- So is a product. -/
theorem resume_factors {op : Operator} {ts mid : List Token} {l : Tree} {a : Decimal}
    (hfront : Reads .product ts l (.operator op :: mid)) (hleft : l.value cap = .ok a) :
    Part.product.read cap ts = Part.product.resume cap (a, .operator op :: mid) := by
  rw [hfront.read_eq trivial, hleft]
  rfl

/-- A part that reading comes to and that cannot be read ends the reading. -/
theorem Due.error {p : Part} {ts : List Token} {e : Error} (h : Due cap whole p ts)
    (he : p.read cap ts = .error e) : Part.sum.read cap whole = .error e := by
  induction h with
  | start => exact he
  | product _ ih => exact ih (by rw [read_sum, he]; rfl)
  | unary _ ih => exact ih (by rw [read_product, he]; rfl)
  | term _ hfront hadditive hleft ih =>
      exact ih (by rw [resume_front hfront hadditive hleft, resume_term hadditive, he]; rfl)
  | factor _ hfront hmultiplicative hleft ih =>
      exact ih (by rw [resume_factors hfront hleft, resume_factor hmultiplicative, he]; rfl)
  | @sign op ts _ hadditive ih =>
      match op with
      | .sub => exact ih (by rw [read_minus, he]; rfl)
      | .add => exact ih (by rw [read_plus, he])
  | group _ ih => exact ih (by rw [read_group, he]; rfl)

/-- An operation that reading comes to and that fails ends the reading. -/
theorem Comes.error {a b : Decimal} {op : Operator} {e : Error} (h : Comes cap whole a op b)
    (hfailed : a.binary op b cap = .error e) : Part.sum.read cap whole = .error e := by
  cases h with
  | term hdue hfront hadditive hleft hoperand hcomplete hright =>
      have hread : Part.product.read cap _ = _ :=
        (hoperand.read_eq trivial).trans (resume_complete hcomplete _)
      refine hdue.error ?_
      rw [resume_front hfront hadditive hleft, resume_term hadditive, hread, hright]
      simp only [Except.map, bind, Except.bind, hfailed]
  | factor hdue hfront hmultiplicative hleft hoperand hright =>
      refine hdue.error ?_
      rw [resume_factors hfront hleft, resume_factor hmultiplicative, hoperand.read_eq trivial,
        hright]
      simp only [Part.resume, bind, Except.bind, hfailed]
  | minus hdue hoperand hright =>
      have hs : max cap b.scale = cap := Nat.max_eq_left (Tree.scale_of_value hright)
      refine hdue.error ?_
      rw [read_minus, hoperand.read_eq trivial, hright]
      simp only [Part.resume, bind, Except.bind, hs, hfailed]

/-! ## values of lists of tokens -/

/-- The tokens must all be used. -/
def finished : Decimal × List Token → Except Error Decimal
  | (v, []) => .ok v
  | _ => .error (.malformed .trailing)

/-- Tokens are evaluated as one sum, with nothing behind it. -/
theorem evaluateTokens_cons (t : Token) (ts : List Token) (cap : Nat) :
    evaluateTokens (t :: ts) cap = Part.sum.read cap (t :: ts) >>= finished := by
  simp only [evaluateTokens, Part.read, List.isEmpty_cons, Bool.false_eq_true, if_false]
  cases Decimal.sum cap (t :: ts) with
  | error e => rfl
  | ok r =>
      obtain ⟨v, rest, hshorter⟩ := r
      cases rest <;> rfl

/-- The value of a list of tokens is that of its tree. -/
theorem evaluateTokens_ok_iff {ts : List Token} {v : Decimal} :
    evaluateTokens ts cap = .ok v ↔ ∃ t, Sentence ts t ∧ t.value cap = .ok v := by
  match ts with
  | [] =>
    refine ⟨fun h => (nomatch h), ?_⟩
    rintro ⟨t, h, -⟩
    exact absurd h.length (by simp [Part.least])
  | first :: others =>
    rw [evaluateTokens_cons]
    constructor
    · intro h
      obtain ⟨⟨w, rest⟩, hr, h⟩ := ok_of_bind h
      have hexplained : Explained cap (first :: others) .sum _ _ := sum_explained _ .start
      rw [hr] at hexplained
      obtain ⟨t, hread, hvalue, -⟩ := hexplained
      cases rest with
      | nil =>
          cases h
          exact ⟨t, hread, hvalue⟩
      | cons => cases h
    · rintro ⟨t, hsentence, hvalue⟩
      rw [hsentence.read_eq (fun _ _ h => by cases h), hvalue]
      show (Part.sum.resume cap (v, []) >>= finished) = _
      rw [resume_noTerm fun _ _ h => by cases h]
      rfl

/-- An error that is neither one of form nor one of a literal is that of an
operation which the reading comes to. -/
theorem evaluateTokens_error_iff {ts : List Token} {e : Error} (hform : ∀ why, e ≠ .malformed why)
    (hliteral : ∀ d, .number d ∈ ts → d.capped cap ≠ .error e) :
    evaluateTokens ts cap = .error e ↔
      ∃ a op b, Comes cap ts a op b ∧ a.binary op b cap = .error e := by
  match ts with
  | [] =>
    constructor
    · intro h
      cases h
      exact absurd rfl (hform _)
    rintro ⟨a, op, b, hcomes, hfailed⟩
    have h := hcomes.error hfailed
    rw [read_sum, read_product] at h
    simp only [Part.read, Decimal.unary] at h
    cases h
    exact absurd rfl (hform _)
  | first :: others =>
    rw [evaluateTokens_cons]
    constructor
    · intro h
      have hexplained : Explained cap (first :: others) .sum _ _ := sum_explained _ .start
      cases hr : Part.sum.read cap (first :: others) with
      | error e' =>
          rw [hr] at hexplained h
          cases h
          cases hexplained with
          | form why => exact absurd rfl (hform why)
          | literal hthere hunfit => exact absurd hunfit (hliteral _ hthere)
          | operation hcomes hfailed => exact ⟨_, _, _, hcomes, hfailed⟩
      | ok found =>
          rw [hr] at h
          obtain ⟨v, rest⟩ := found
          match rest with
          | [] => cases h
          | _ :: _ =>
            cases h
            exact absurd rfl (hform _)
    · rintro ⟨a, op, b, hcomes, hfailed⟩
      rw [hcomes.error hfailed]
      rfl

end Switchboard.Decimal
